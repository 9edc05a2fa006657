import NewZone.Crypto.Node

/-!
# Platforms that are known on finitely many inputs

The platform is a parameter of the model, so a statement about it needs an
instance before it can be tried.  The instances here answer from a table of
known values and fall back to something simple elsewhere.  The signatures and
the cipher are lawful whatever the table says, so that a table can be filled
with values of the real primitives and nothing has to be proved about it.
-/

namespace NewZone.Crypto.Tabulated

open NewZone.Js

/-- The `length` bytes of a number, big-endian, as a hexadecimal literal shows
them. -/
def hex (length n : ℕ) : Bytes :=
  (List.range length).map fun i => UInt8.ofNat (n >>> (8 * (length - 1 - i)))

@[simp] theorem length_hex (length n : ℕ) : (hex length n).length = length := by
  simp [hex]

/-- The value of a table at a key, or `default` if there is none. -/
def lookupD {α β : Type} [DecidableEq α] (table : List (α × β)) (default : β)
    (key : α) : β :=
  ((table.find? fun entry => entry.1 = key).map Prod.snd).getD default

/-- The values of a table have the length of the default, if its entries have. -/
theorem length_lookupD {α : Type} [DecidableEq α] {table : List (α × Bytes)} {default : Bytes}
    (h : ∀ entry ∈ table, entry.2.length = default.length) (key : α) :
    (lookupD table default key).length = default.length := by
  unfold lookupD
  cases hfind : table.find? fun entry => entry.1 = key with
  | none => rfl
  | some entry => exact h entry (List.mem_of_find?_eq_some hfind)

/-! ## Hashes -/

/-- Hashes with the given values, and zero digests elsewhere. -/
def hash (sha256 blake2b512 : List (Bytes × Bytes))
    (hmacSha512 : List ((Bytes × Bytes) × Bytes)) : NodeHash where
  sha256 := lookupD sha256 (List.replicate 32 0)
  blake2b512 := lookupD blake2b512 (List.replicate 64 0)
  hmacSha512 key data := lookupD hmacSha512 (List.replicate 64 0) (key, data)

/-! ## Signatures -/

/-- A 32-byte key. -/
abbrev Key := { raw : Bytes // raw.length = 32 }

/-- The last 32 bytes of a DER structure with the given bytes in front. -/
def parseDer (front der : Bytes) : Except String Key :=
  if h : (der.drop front.length).length = 32 ∧ der.take front.length = front then
    .ok ⟨der.drop front.length, h.1⟩
  else .error "error:1E08010C:DECODER routines::unsupported"

theorem parseDer_append (front : Bytes) (key : Key) :
    parseDer front (front ++ key.1) = .ok key := by
  unfold parseDer
  rw [dif_pos]
  · exact congrArg Except.ok (Subtype.ext List.drop_left)
  · rw [List.drop_left, List.take_left]
    exact ⟨key.2, rfl⟩

/-- The entries of `signatures` are for a message and a public key.  Where
there is none, the signature is 64 zeros. -/
def sign (publicKeys : List (Key × Key))
    (signatures : List ((Bytes × Key) × { s : Bytes // s.length = 64 })) :
    NodeSign :=
  let publicKeyOf := fun seed => lookupD publicKeys seed seed
  let signature := lookupD signatures ⟨List.replicate 64 0, by simp⟩
  { PrivateKey := Key
    PublicKey := Key
    createPrivateKey := parseDer pkcs8Prefix
    createPublicKey := parseDer spkiPrefix
    publicKeyOf := publicKeyOf
    exportSpki := fun pub => spkiPrefix ++ pub.1
    sign := fun message seed => (signature (message, publicKeyOf seed)).1
    verify := fun message pub s => s = (signature (message, pub)).1 }

theorem lawful_sign (publicKeys : List (Key × Key))
    (signatures : List ((Bytes × Key) × { s : Bytes // s.length = 64 })) :
    (sign publicKeys signatures).Lawful where
  createPrivateKey_seed seed h := ⟨⟨seed, h⟩, parseDer_append pkcs8Prefix ⟨seed, h⟩⟩
  exportSpki_eq pub := ⟨pub.1, pub.2, rfl⟩
  createPublicKey_export pub := parseDer_append spkiPrefix pub
  sign_length message seed := (lookupD signatures _ _).2
  verify_sign message seed := by simp [sign]

/-- The same, but nothing except the entries verifies. -/
def signOnly (publicKeys : List (Key × Key))
    (signatures : List ((Bytes × Key) × { s : Bytes // s.length = 64 })) :
    NodeSign :=
  let lenient := sign publicKeys signatures
  { PrivateKey := Key
    PublicKey := Key
    createPrivateKey := lenient.createPrivateKey
    createPublicKey := lenient.createPublicKey
    publicKeyOf := lenient.publicKeyOf
    exportSpki := lenient.exportSpki
    sign := lenient.sign
    verify := fun message pub s =>
      ((message, pub), s) ∈ signatures.map fun e => (e.1, e.2.1) }

/-- The first key signs what the first entry says. -/
theorem signOnly_sign_cons (publicKeys : List (Key × Key))
    (signatures : List ((Bytes × Key) × { s : Bytes // s.length = 64 })) (seed pub : Key)
    (message : Bytes) (sig : { s : Bytes // s.length = 64 }) :
    (signOnly ((seed, pub) :: publicKeys) (((message, pub), sig) :: signatures)).sign
      message seed = sig.1 := by
  simp [signOnly, sign, lookupD]

theorem signOnly_verify_singleton {publicKeys : List (Key × Key)} {message m : Bytes}
    {pub p : Key} {sig : { s : Bytes // s.length = 64 }} {s : Bytes} :
    (signOnly publicKeys [((message, pub), sig)]).verify m p s = true ↔
      m = message ∧ p = pub ∧ s = sig.1 := by
  simp [signOnly, Prod.ext_iff, and_assoc]

def knownSeed : Key := ⟨List.replicate 32 0xc1, rfl⟩

/-- The Ed25519 public key of that seed. -/
def knownKey : Key :=
  ⟨hex 32 0xacdcc8494d458f44a7aaac1d6a84ec624daee88436db2ae26e67ba645a106228,
    length_hex _ _⟩

/-! ## The cipher -/

/-- A sealing of which key, nonce, associated data, plaintext, ciphertext and
tag are known. -/
structure KnownSealing where
  key : Bytes
  nonce : Bytes
  aad : Option Bytes
  plaintext : Bytes
  ciphertext : Bytes
  tag : Bytes
  tag_length : tag.length = 16
  tag_ne : tag ≠ List.replicate 16 0

/-- The cipher that seals as known, and elsewhere leaves the plaintext as it is
under a zero tag. -/
def cipher (known : KnownSealing) : NodeCipher where
  encipher key nonce aad plaintext :=
    if key = known.key ∧ nonce = known.nonce ∧ aad = known.aad ∧
        plaintext = known.plaintext then
      (known.ciphertext, known.tag)
    else (plaintext, List.replicate 16 0)
  decipher key nonce aad ciphertext tag :=
    if key = known.key ∧ nonce = known.nonce ∧ aad = known.aad ∧
        ciphertext = known.ciphertext ∧ tag = known.tag then
      some known.plaintext
    else if tag = List.replicate 16 0 then some ciphertext
    else none

theorem lawful_cipher (known : KnownSealing) : (cipher known).Lawful where
  tag_length key nonce aad plaintext _ _ := by
    unfold cipher
    dsimp only
    split
    · exact known.tag_length
    · exact List.length_replicate
  decipher_encipher key nonce aad plaintext _ _ := by
    unfold cipher
    dsimp only
    by_cases h : key = known.key ∧ nonce = known.nonce ∧ aad = known.aad ∧
        plaintext = known.plaintext
    · obtain ⟨rfl, rfl, rfl, rfl⟩ := h
      simp
    · rw [if_neg h, if_neg, if_pos rfl]
      rintro ⟨-, -, -, -, htag⟩
      exact known.tag_ne htag.symm

theorem encipher_known (known : KnownSealing) :
    (cipher known).encipher known.key known.nonce known.aad known.plaintext
      = (known.ciphertext, known.tag) := by
  simp [cipher]

/-- The known ciphertext opens with the known associated data only. -/
theorem eq_of_decipher_known {known : KnownSealing} {aad : Option Bytes}
    (h : ((cipher known).decipher known.key known.nonce aad known.ciphertext
      known.tag).isSome) : aad = known.aad := by
  by_contra haad
  unfold cipher at h
  dsimp only at h
  rw [if_neg fun hknown => haad hknown.2.2.1, if_neg known.tag_ne] at h
  cases h

end NewZone.Crypto.Tabulated
