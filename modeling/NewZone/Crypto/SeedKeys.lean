import NewZone.Crypto.Seed
import NewZone.Lib.KeyDerivation
import NewZone.Lib.Sha256

/-!
# What a seed key depends on

`deriveSeedKeyFromMnemonic` hashes the phrase and the password a thousand times and
derives a key for a path.  The same words, password and path give the same key, and
different ones only where a hash collides: `recovered_or_collision` says which inputs
collide.

A password and a path are encoded as UTF-8, so lone surrogates in them are one to the
file.
-/

namespace NewZone.Crypto.Seed

open NewZone.Js NewZone.Words

/-! ## Hashing over and over -/

/-- Two different inputs in the list have one hash. -/
def Collision {α β : Type} (f : α → β) (inputs : List α) : Prop :=
  ∃ x ∈ inputs, ∃ y ∈ inputs, x ≠ y ∧ f x = f y

theorem Collision.mono {α β : Type} {f : α → β} {inputs inputs' : List α}
    (h : Collision f inputs) (hsub : inputs ⊆ inputs') : Collision f inputs' := by
  obtain ⟨x, hx, y, hy, hne, heq⟩ := h
  exact ⟨x, hsub hx, y, hsub hy, hne, heq⟩

/-- The inputs of the rounds. -/
def rounds {α : Type} (f : α → α) (x : α) (n : ℕ) : List α :=
  (List.range n).map fun i => f^[i] x

theorem rounds_succ {α : Type} (f : α → α) (x : α) (n : ℕ) :
    rounds f x (n + 1) = x :: rounds f (f x) n := by
  simp [rounds, List.range_succ_eq_map, Function.comp_def]

/-- Where the last hashes are equal, the first inputs are, or some round collides. -/
theorem eq_or_collision {α : Type} {f : α → α} {x y : α} {n : ℕ} (h : f^[n] x = f^[n] y) :
    x = y ∨ Collision f (rounds f x n ++ rounds f y n) := by
  induction n generalizing x y with
  | zero => exact .inl h
  | succ n ih =>
    rw [rounds_succ, rounds_succ]
    rcases ih h with heq | hcollision
    · by_cases hxy : x = y
      · exact .inl hxy
      · exact .inr ⟨x, by simp, y, by simp, hxy, heq⟩
    · refine .inr (hcollision.mono ?_)
      exact List.append_subset.mpr
        ⟨fun z hz => by simp [hz], fun z hz => by simp [hz]⟩

/-! ## The inputs of a derivation -/

variable (unicode : CaseData) (hash : SeedHash)

/-- What SHA-256 hashes on the way to the master secret. -/
def hashed (mnemonic password : JsString) : List Bytes :=
  utf8 (normalizeMnemonic unicode mnemonic)
    :: rounds hash.sha256 (mnemonicToSeed unicode hash mnemonic ++ utf8 password) 1000

/-- What the key is a HMAC of: the master secret, and the text for the path. -/
def keyed (mnemonic password path : JsString) : Bytes × Bytes :=
  (deriveMasterSecret unicode hash mnemonic password, utf8 (js "nz:" ++ path) ++ [0x01])

/-- The digests have 32 bytes. -/
structure SeedHash.Lawful (hash : SeedHash) : Prop where
  sha256 : ∀ data, (hash.sha256 data).length = 32
  hmacSha256 : ∀ key data, (hash.hmacSha256 key data).length = 32

variable {unicode hash} {m m' p p' q q' : JsString}

theorem deriveSeedKeyFromMnemonic_eq (hhash : hash.Lawful) (mnemonic password path : JsString) :
    deriveSeedKeyFromMnemonic unicode hash mnemonic password path
      = hash.hmacSha256.uncurry (keyed unicode hash mnemonic password path) := by
  rw [deriveSeedKeyFromMnemonic, deriveSeedKey, hkdfExpand,
    List.take_of_length_le (hhash.hmacSha256 _ _).le, keyed, Function.uncurry_apply_pair]

theorem path_eq (h : utf8 (js "nz:" ++ q) ++ [0x01] = utf8 (js "nz:" ++ q') ++ [0x01]) :
    toWellFormed q = toWellFormed q' := by
  have hfront : WellFormed (js "nz:") := by decide
  have htext := utf8_eq_iff.mp (List.append_cancel_right h)
  rw [toWellFormed_append hfront, toWellFormed_append hfront] at htext
  exact List.append_cancel_left htext

/-- The seed and the password behind it determine the words and the password, or the seeds
collide. -/
theorem words_eq_or_seeds_collide (hlaw : unicode.Lawful) (hhash : hash.Lawful)
    (hm : Phrase unicode m) (hm' : Phrase unicode m')
    (h : mnemonicToSeed unicode hash m ++ utf8 p = mnemonicToSeed unicode hash m' ++ utf8 p') :
    (wordList unicode m = wordList unicode m' ∧ toWellFormed p = toWellFormed p') ∨
      Collision hash.sha256
        [utf8 (normalizeMnemonic unicode m), utf8 (normalizeMnemonic unicode m')] := by
  -- the seeds have the same length, so they end where the passwords begin
  obtain ⟨hseed, hpassword⟩ := List.append_inj h
    ((hhash.sha256 _).trans (hhash.sha256 _).symm)
  by_cases hphrase : normalizeMnemonic unicode m = normalizeMnemonic unicode m'
  · exact .inl ⟨(normalizeMnemonic_eq_iff hlaw hm hm').mp hphrase, utf8_eq_iff.mp hpassword⟩
  · have hbytes : utf8 (normalizeMnemonic unicode m) ≠ utf8 (normalizeMnemonic unicode m') :=
      fun hbytes => hphrase ((utf8_inj (hm.normalize hlaw).wellFormed
        (hm'.normalize hlaw).wellFormed).mp hbytes)
    exact .inr ⟨_, by simp, _, by simp, hbytes, hseed⟩

/-- The master secret determines the words and the password, or a hash collides. -/
theorem words_eq_or_collision (hlaw : unicode.Lawful) (hhash : hash.Lawful)
    (hm : Phrase unicode m) (hm' : Phrase unicode m')
    (h : deriveMasterSecret unicode hash m p = deriveMasterSecret unicode hash m' p') :
    (wordList unicode m = wordList unicode m' ∧ toWellFormed p = toWellFormed p') ∨
      Collision hash.sha256 (hashed unicode hash m p ++ hashed unicode hash m' p') := by
  rw [hashed, hashed]
  simp only [deriveMasterSecret, simpleKDF] at h
  generalize 1000 = n at h ⊢
  rcases eq_or_collision h with hfirst | hcollision
  · refine (words_eq_or_seeds_collide hlaw hhash hm hm' hfirst).imp_right fun hseeds => ?_
    exact hseeds.mono (by simp)
  · refine .inr (hcollision.mono (List.append_subset.mpr ⟨?_, ?_⟩))
    · exact fun z hz => by simp [hz]
    · exact fun z hz => by simp [hz]

/-- **What is recovered.**  The same words, password and path give the same seed key.  And
where two derivations give the same key, these are the same up to lone surrogates, or the
derivations have two different inputs with the same SHA-256 or the same HMAC. -/
theorem recovered_or_collision (hlaw : unicode.Lawful) (hhash : hash.Lawful)
    (hm : Phrase unicode m) (hm' : Phrase unicode m') :
    (wordList unicode m = wordList unicode m' ∧ toWellFormed p = toWellFormed p' ∧
        toWellFormed q = toWellFormed q' →
      deriveSeedKeyFromMnemonic unicode hash m p q
        = deriveSeedKeyFromMnemonic unicode hash m' p' q') ∧
    (deriveSeedKeyFromMnemonic unicode hash m p q
        = deriveSeedKeyFromMnemonic unicode hash m' p' q' →
      (wordList unicode m = wordList unicode m' ∧ toWellFormed p = toWellFormed p' ∧
        toWellFormed q = toWellFormed q') ∨
      Collision hash.sha256 (hashed unicode hash m p ++ hashed unicode hash m' p') ∨
      Collision hash.hmacSha256.uncurry
        [keyed unicode hash m p q, keyed unicode hash m' p' q']) := by
  have hfront : WellFormed (js "nz:") := by decide
  constructor
  · intro h
    obtain ⟨hwords, hpassword, hpath⟩ := h
    have hphrase := (normalizeMnemonic_eq_iff hlaw hm hm').mpr hwords
    have htext : utf8 (js "nz:" ++ q) = utf8 (js "nz:" ++ q') := by
      rw [utf8_eq_iff, toWellFormed_append hfront, toWellFormed_append hfront, hpath]
    rw [deriveSeedKeyFromMnemonic_eq hhash, deriveSeedKeyFromMnemonic_eq hhash, keyed, keyed,
      deriveMasterSecret, deriveMasterSecret, mnemonicToSeed, mnemonicToSeed, hphrase,
      utf8_eq_iff.mpr hpassword, htext]
  · intro h
    rw [deriveSeedKeyFromMnemonic_eq hhash, deriveSeedKeyFromMnemonic_eq hhash] at h
    by_cases hkeyed : keyed unicode hash m p q = keyed unicode hash m' p' q'
    · obtain ⟨hmaster, htext⟩ := Prod.mk.inj hkeyed
      rcases words_eq_or_collision hlaw hhash hm hm' hmaster with hwords | hcollision
      · exact .inl ⟨hwords.1, hwords.2, path_eq htext⟩
      · exact .inr (.inl hcollision)
    · exact .inr (.inr ⟨_, by simp, _, by simp, hkeyed, h⟩)

/-- SHA-256 itself. -/
def nodeHash : SeedHash where
  sha256 := Sha256.sha256
  hmacSha256 := KeyDerivation.hmac Sha256.sha256 64

theorem lawful_nodeHash : nodeHash.Lawful where
  sha256 := Sha256.length_sha256
  hmacSha256 _ _ := Sha256.length_sha256 _

/-- A phrase that is typed with other spaces and in another case gives the key again; where
a phrase without its space gave the same key, there would be a collision. -/
theorem recovered_or_collision_known :
    deriveSeedKeyFromMnemonic asciiCase nodeHash (js " Legal\t WINNER ") (js "pw")
        (js "ed25519/identity")
      = deriveSeedKeyFromMnemonic asciiCase nodeHash (js "legal winner") (js "pw")
        (js "ed25519/identity") ∧
    (deriveSeedKeyFromMnemonic asciiCase nodeHash (js "legalwinner") (js "pw")
        (js "ed25519/identity")
      = deriveSeedKeyFromMnemonic asciiCase nodeHash (js "legal winner") (js "pw")
        (js "ed25519/identity") →
      Collision Sha256.sha256 (hashed asciiCase nodeHash (js "legalwinner") (js "pw")
        ++ hashed asciiCase nodeHash (js "legal winner") (js "pw")) ∨
      Collision nodeHash.hmacSha256.uncurry
        [keyed asciiCase nodeHash (js "legalwinner") (js "pw") (js "ed25519/identity"),
          keyed asciiCase nodeHash (js "legal winner") (js "pw") (js "ed25519/identity")]) := by
  have htyped := phrase_asciiCase (m := js " Legal\t WINNER ") (by decide) (by decide)
  have hplain := phrase_asciiCase (m := js "legal winner") (by decide) (by decide)
  have hjoined := phrase_asciiCase (m := js "legalwinner") (by decide) (by decide)
  constructor
  · exact (recovered_or_collision lawful_asciiCase lawful_nodeHash htyped hplain).1
      ⟨by decide, rfl, rfl⟩
  · intro h
    have hsame := (recovered_or_collision lawful_asciiCase lawful_nodeHash hjoined hplain).2 h
    exact hsame.resolve_left fun hwords => absurd hwords.1 (by decide)

end NewZone.Crypto.Seed
