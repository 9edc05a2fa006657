import NewZone.Js.Casing

/-!
# Keys from a mnemonic

`lib/nz-crypto-seed.js`: a phrase of words and a password give a master
secret, and the master secret gives a seed key for every path.  The phrase is
normalized before it is hashed, and nothing behind `normalizeMnemonic` sees
the phrase as it was typed.

`wordList` is what a phrase means: the words between its white space, in lower
case.  `normalizeMnemonic_eq` says that the normalized phrase is these words
with single spaces between them, so it keeps the word list and nothing else.
-/

namespace NewZone.Crypto.Seed

open NewZone.Js NewZone.Words

/-- The hashes that the file takes from `node:crypto`. -/
structure SeedHash where
  sha256 : Bytes → Bytes
  /-- `createHmac("sha256", key).update(data).digest()` -/
  hmacSha256 : (key data : Bytes) → Bytes

variable (unicode : CaseData) (hash : SeedHash)

/-- The expression `\s` of the last step matches what `trim` removes. -/
def normalizeMnemonic (mnemonic : JsString) : JsString :=
  collapse isSpace 0x20 (toLowerCase unicode (Js.trim mnemonic))

def mnemonicToSeed (mnemonic : JsString) : Bytes :=
  let normalized := normalizeMnemonic unicode mnemonic
  let bytes := utf8 normalized
  hash.sha256 bytes

def simpleKDF (seedBytes passwordBytes : Bytes) (iterations : ℕ) : Bytes :=
  hash.sha256^[iterations] (seedBytes ++ passwordBytes)

/-- The password is hashed as it was typed. -/
def deriveMasterSecret (mnemonic password : JsString) : Bytes :=
  let seed := mnemonicToSeed unicode hash mnemonic
  let pwd := utf8 password
  simpleKDF hash seed pwd 1000

/-- The one block of this `hkdfExpand`, which is not the one of `hkdf.js`. -/
def hkdfExpand (masterSecret : Bytes) (info : JsString) (length : ℕ) : Bytes :=
  (hash.hmacSha256 masterSecret (utf8 info ++ [0x01])).take length

def deriveSeedKey (masterSecret : Bytes) (path : JsString) : Bytes :=
  let info := js "nz:" ++ path
  hkdfExpand hash masterSecret info 32

def deriveSeedKeyFromMnemonic (mnemonic password path : JsString) : Bytes :=
  let master := deriveMasterSecret unicode hash mnemonic password
  deriveSeedKey hash master path

/-! ## What a phrase means -/

/-- The words of a phrase, in lower case. -/
def wordList (mnemonic : JsString) : List JsString :=
  (words isSpace mnemonic).map (toLowerCase unicode)

/-- A phrase that can be lower-cased word by word. -/
structure Phrase (mnemonic : JsString) : Prop where
  wellFormed : WellFormed mnemonic
  contextFree : ∀ c ∈ scalars mnemonic, ContextFree unicode c
  keepsSpace : ∀ c ∈ scalars mnemonic, KeepsSpace unicode c

variable {unicode} {m m' : JsString}

theorem Phrase.flatMap_scalars (hm : Phrase unicode m) : (scalars m).flatMap charUnits = m := by
  rw [flatMap_charUnits_scalars, hm.wellFormed]

theorem Phrase.of_flatMap {cs : List Char}
    (h : ∀ c ∈ cs, ContextFree unicode c ∧ KeepsSpace unicode c) :
    Phrase unicode (cs.flatMap charUnits) := by
  have hscalars := scalars_flatMap_charUnits cs
  refine ⟨wellFormed_flatMap_charUnits cs, ?_, ?_⟩
  · rw [hscalars]
    exact fun c hc => (h c hc).1
  · rw [hscalars]
    exact fun c hc => (h c hc).2

/-- The letters of a word are letters of the phrase. -/
theorem wordList_flatMap {cs : List Char} (h : ∀ c ∈ cs, ContextFree unicode c) :
    wordList unicode (cs.flatMap charUnits)
      = (words isSpaceChar cs).map (·.flatMap (lowerUnits unicode)) := by
  rw [wordList, words_flatMap fun c _ => keeps_charUnits c, List.map_map]
  apply List.map_congr_left
  intro w hw
  apply toLowerCase_flatMap
  exact fun c hc => h c ((spaced_words isSpaceChar cs).mem w hw c hc)

theorem Phrase.wordList_eq (hm : Phrase unicode m) :
    wordList unicode m
      = (words isSpaceChar (scalars m)).map (·.flatMap (lowerUnits unicode)) := by
  conv_lhs => rw [← hm.flatMap_scalars]
  exact wordList_flatMap hm.contextFree

/-- Lower-casing gives neither a space inside a word nor an empty word. -/
theorem Phrase.isWord (hlaw : unicode.Lawful) (hm : Phrase unicode m) :
    ∀ w ∈ wordList unicode m, IsWord isSpace w := by
  rw [hm.wordList_eq]
  exact ((spaced_words isSpaceChar (scalars m)).flatMap fun c hc =>
    hlaw.keeps_lowerUnits (hm.keepsSpace c hc)).isWord

/-! ## The normalized phrase -/

theorem isSpace_space : isSpace 0x20 = true := by decide

/-- Trimming and lower-casing commute, and the text between them is the word
list with white space in it. -/
theorem normalizeMnemonic_eq (hlaw : unicode.Lawful) (hm : Phrase unicode m) :
    normalizeMnemonic unicode m = [0x20].intercalate (wordList unicode m) := by
  have hkeep : ∀ c ∈ scalars m, Keeps isSpaceChar isSpace (lowerUnits unicode) c :=
    fun c hc => hlaw.keeps_lowerUnits (hm.keepsSpace c hc)
  have htrim : Js.trim m = (Words.trim isSpaceChar (scalars m)).flatMap charUnits := by
    conv_lhs => rw [← hm.flatMap_scalars]
    exact trim_flatMap fun c _ => keeps_charUnits c
  have hlower : toLowerCase unicode (Js.trim m)
      = Words.trim isSpace ((scalars m).flatMap (lowerUnits unicode)) := by
    rw [htrim, toLowerCase_flatMap, trim_flatMap hkeep]
    exact fun c hc => hm.contextFree c ((trim_sublist isSpaceChar (scalars m)).mem hc)
  rw [normalizeMnemonic, hlower, collapse_trim, words_flatMap hkeep, hm.wordList_eq]

/-- The normalized phrase as scalar values. -/
theorem normalizeMnemonic_chars (hlaw : unicode.Lawful) (hm : Phrase unicode m) :
    normalizeMnemonic unicode m
      = ([' '].intercalate
          ((words isSpaceChar (scalars m)).map (·.flatMap unicode.lowercase))).flatMap
            charUnits := by
  rw [normalizeMnemonic_eq hlaw hm, hm.wordList_eq, flatMap_intercalate, List.map_map]
  congr 1
  apply List.map_congr_left
  intro w _
  exact flatMap_lowerUnits w

/-- A normalized phrase is a phrase again. -/
theorem Phrase.normalize (hlaw : unicode.Lawful) (hm : Phrase unicode m) :
    Phrase unicode (normalizeMnemonic unicode m) := by
  rw [normalizeMnemonic_chars hlaw hm]
  apply Phrase.of_flatMap
  intro d hd
  have hlower : ∃ c, d ∈ unicode.lowercase c := by
    rcases mem_intercalate hd with rfl | ⟨w, hw, hd⟩
    · exact ⟨' ', by simp [hlaw.lowercase_space]⟩
    · obtain ⟨v, _, rfl⟩ := List.mem_map.mp hw
      obtain ⟨c, _, hd⟩ := List.mem_flatMap.mp hd
      exact ⟨c, hd⟩
  obtain ⟨c, hd⟩ := hlower
  exact ⟨hlaw.contextFree hd, hlaw.keepsSpace hd⟩

/-- The word list survives the normalization. -/
theorem wordList_normalize (hlaw : unicode.Lawful) (hm : Phrase unicode m) :
    wordList unicode (normalizeMnemonic unicode m) = wordList unicode m := by
  have hcase : ∀ w ∈ wordList unicode m, toLowerCase unicode w = w := by
    rw [hm.wordList_eq]
    intro w hw
    obtain ⟨cs, _, rfl⟩ := List.mem_map.mp hw
    exact hlaw.toLowerCase_lowerUnits cs
  conv_lhs => rw [normalizeMnemonic_eq hlaw hm, wordList,
    words_intercalate isSpace_space (hm.isWord hlaw)]
  exact (List.map_congr_left hcase).trans (List.map_id _)

theorem normalizeMnemonic_idem (hlaw : unicode.Lawful) (hm : Phrase unicode m) :
    normalizeMnemonic unicode (normalizeMnemonic unicode m) = normalizeMnemonic unicode m := by
  rw [normalizeMnemonic_eq hlaw (hm.normalize hlaw), wordList_normalize hlaw hm,
    normalizeMnemonic_eq hlaw hm]

/-- Two phrases are one to this file exactly if their words are the same up to
case. -/
theorem normalizeMnemonic_eq_iff (hlaw : unicode.Lawful) (hm : Phrase unicode m)
    (hm' : Phrase unicode m') :
    normalizeMnemonic unicode m = normalizeMnemonic unicode m'
      ↔ wordList unicode m = wordList unicode m' := by
  rw [normalizeMnemonic_eq hlaw hm, normalizeMnemonic_eq hlaw hm']
  exact intercalate_inj isSpace_space (hm.isWord hlaw) (hm'.isWord hlaw)

/-! ## The keys -/

/-- Behind the normalization the phrase is not read again. -/
theorem keys_of_normalized (h : normalizeMnemonic unicode m = normalizeMnemonic unicode m')
    (password path : JsString) :
    deriveMasterSecret unicode hash m password = deriveMasterSecret unicode hash m' password
      ∧ deriveSeedKeyFromMnemonic unicode hash m password path
        = deriveSeedKeyFromMnemonic unicode hash m' password path := by
  have hmaster : deriveMasterSecret unicode hash m password
      = deriveMasterSecret unicode hash m' password := by
    unfold deriveMasterSecret mnemonicToSeed
    rw [h]
  refine ⟨hmaster, ?_⟩
  unfold deriveSeedKeyFromMnemonic
  rw [hmaster]

/-- The first hash of the derivation is taken of the bytes of the normalized
phrase, and a well-formed string is determined by its bytes. -/
theorem first_hash_of_normalized (hlaw : unicode.Lawful) (hm : Phrase unicode m)
    (hm' : Phrase unicode m')
    (h : normalizeMnemonic unicode m ≠ normalizeMnemonic unicode m') :
    ∃ first first', first ≠ first' ∧ ∀ hash : SeedHash,
      mnemonicToSeed unicode hash m = hash.sha256 first
        ∧ mnemonicToSeed unicode hash m' = hash.sha256 first' := by
  refine ⟨utf8 (normalizeMnemonic unicode m), utf8 (normalizeMnemonic unicode m'), ?_,
    fun hash => ⟨rfl, rfl⟩⟩
  intro hbytes
  apply h
  exact (utf8_inj (hm.normalize hlaw).wellFormed (hm'.normalize hlaw).wellFormed).mp hbytes

/-! ## Case data for English phrases -/

/-- The letters `A` to `Z`, and the capital sigma. -/
def asciiCase : CaseData where
  lowercase c :=
    if c = 'Σ' then ['σ']
    else if 0x41 ≤ c.toNat ∧ c.toNat ≤ 0x5A then [Char.ofNat (c.toNat + 0x20)]
    else [c]
  cased := Char.isAlpha
  caseIgnorable c := c = '.'

theorem toNat_lower {c : Char} (h : c.toNat ≤ 0x5A) :
    (Char.ofNat (c.toNat + 0x20)).toNat = c.toNat + 0x20 := by
  apply toNat_ofNat_of_isValidChar
  unfold Nat.isValidChar
  omega

theorem lawful_asciiCase : asciiCase.Lawful where
  lowercase_ne_nil c := by
    simp only [asciiCase]
    split_ifs <;> exact List.cons_ne_nil _ _
  lowercase_lowercase c d hd := by
    simp only [asciiCase] at hd ⊢
    split_ifs at hd with hsigma hupper
    · rw [List.mem_singleton.mp hd]
      decide
    · have hnat := toNat_lower hupper.2
      rw [← List.mem_singleton.mp hd] at hnat
      have hne : d ≠ 'Σ' := by
        rintro rfl
        have hvalue : ('Σ' : Char).toNat = 0x3A3 := rfl
        omega
      rw [if_neg hne, if_neg (by omega)]
    · rw [List.mem_singleton.mp hd, if_neg hsigma, if_neg hupper]
  lowercase_sigma := rfl
  lowercase_space := by decide

theorem isSpaceChar_of_letter {c : Char} (h : 0x41 ≤ c.toNat ∧ c.toNat ≤ 0x7A) :
    isSpaceChar c = false := by
  have hunit : (UInt16.ofNat c.toNat).toNat = c.toNat :=
    UInt16.toNat_ofNat_of_lt' (show _ < 0x10000 by omega)
  simp only [isSpaceChar, isSpace, hunit, Bool.and_eq_false_iff, Bool.or_eq_false_iff,
    decide_eq_false_iff_not]
  omega

theorem keepsSpace_asciiCase (c : Char) : KeepsSpace asciiCase c := by
  intro d hd
  simp only [asciiCase] at hd
  split_ifs at hd with hsigma hupper
  · rw [List.mem_singleton.mp hd, hsigma]
    decide
  · have hnat := toNat_lower hupper.2
    rw [← List.mem_singleton.mp hd] at hnat
    rw [isSpaceChar_of_letter (c := c) (by omega), isSpaceChar_of_letter (by omega)]
  · rw [List.mem_singleton.mp hd]

theorem phrase_asciiCase (hm : WellFormed m) (hsigma : 'Σ' ∉ scalars m) :
    Phrase asciiCase m where
  wellFormed := hm
  contextFree _ hc := contextFree_of_ne fun h => hsigma (h ▸ hc)
  keepsSpace c _ := keepsSpace_asciiCase c

/-! ## Recovery -/

/-- Recovery ignores case and spacing, and nothing else. -/
theorem recovery_by_word_list (hlaw : unicode.Lawful) (hm : Phrase unicode m)
    (hm' : Phrase unicode m') :
    (normalizeMnemonic unicode m = normalizeMnemonic unicode m'
        ↔ wordList unicode m = wordList unicode m')
      ∧ normalizeMnemonic unicode (normalizeMnemonic unicode m) = normalizeMnemonic unicode m
      ∧ (wordList unicode m = wordList unicode m' →
        ∀ (hash : SeedHash) (password path : JsString),
          deriveMasterSecret unicode hash m password = deriveMasterSecret unicode hash m' password
            ∧ deriveSeedKeyFromMnemonic unicode hash m password path
              = deriveSeedKeyFromMnemonic unicode hash m' password path)
      ∧ (wordList unicode m ≠ wordList unicode m' →
        ∃ first first', first ≠ first' ∧ ∀ hash : SeedHash,
          mnemonicToSeed unicode hash m = hash.sha256 first
            ∧ mnemonicToSeed unicode hash m' = hash.sha256 first') := by
  have hiff := normalizeMnemonic_eq_iff hlaw hm hm'
  refine ⟨hiff, normalizeMnemonic_idem hlaw hm, ?_, ?_⟩
  · intro hwords hash password path
    exact keys_of_normalized hash (hiff.mpr hwords) password path
  · intro hwords
    exact first_hash_of_normalized hlaw hm hm' fun h => hwords (hiff.mp h)

theorem recovery_respaced :
    normalizeMnemonic asciiCase (js " Legal\t WINNER ")
        = normalizeMnemonic asciiCase (js "legal winner")
      ∧ normalizeMnemonic asciiCase (js "legal winner")
        ≠ normalizeMnemonic asciiCase (js "legalwinner") := by
  have htyped := phrase_asciiCase (m := js " Legal\t WINNER ") (by decide) (by decide)
  have hplain := phrase_asciiCase (m := js "legal winner") (by decide) (by decide)
  have hjoined := phrase_asciiCase (m := js "legalwinner") (by decide) (by decide)
  constructor
  · exact (recovery_by_word_list lawful_asciiCase htyped hplain).1.mpr (by decide)
  · intro h
    have hwords := (recovery_by_word_list lawful_asciiCase hplain hjoined).1.mp h
    exact absurd hwords (by decide)

end NewZone.Crypto.Seed
