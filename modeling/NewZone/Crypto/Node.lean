import NewZone.Js.Text

/-!
# What `lib/` takes from the platform

`lib/` does its field arithmetic itself and takes hashes, signatures and the
cipher from `node:crypto`.  Those are parameters of the model: `NodeHash`,
`NodeSign` and `NodeCipher` list the calls that the source makes, and a
`Lawful` structure beside each lists the documented behaviour that a result
may assume.  Nothing here says that a hash is injective or that a signature
cannot be forged; a result that needs such a thing names it.

`Input` is what a byte-taking function of `lib/` may be handed, and
`toBytesWith` is the conversion that most of the files repeat with their own
name in the error text.
-/

namespace NewZone.Crypto

open NewZone.Js

/-! ## Arguments that stand for bytes -/

/-- An argument of a byte-taking function: `null` or `undefined`, a
`Uint8Array` or `Buffer`, a string, or a value of another type. -/
inductive Input where
  | nullish
  | bytes (b : Bytes)
  | text (s : JsString)
  | other
  deriving DecidableEq

/-- JavaScript truthiness of such an argument: an empty `Uint8Array` is
truthy and an empty string is not. -/
def Input.truthy : Input → Bool
  | .nullish => false
  | .text s => !s.isEmpty
  | .bytes _ => true
  | .other => true

/-- The helper `toBytes` of `handshake.js`, `hkdf.js`, `sessionKeys.js`,
`chacha20poly1305.js` and `secureChannel.js`, with the name that the file puts
in front of the error. -/
def toBytesWith (file : String) : Input → Except String Bytes
  | .nullish => .ok []
  | .bytes b => .ok b
  | .text s => .ok (utf8 s)
  | .other => .error (file ++ ": unsupported input type")

@[simp] theorem toBytesWith_bytes (file : String) (b : Bytes) :
    toBytesWith file (.bytes b) = .ok b := rfl

@[simp] theorem toBytesWith_text (file : String) (s : JsString) :
    toBytesWith file (.text s) = .ok (utf8 s) := rfl

/-- The helper `concatBytes` of `handshake.js`, `hkdf.js` and
`sessionKeys.js`. -/
def concatBytes (a b : Bytes) : Bytes := a ++ b

/-! ## Hashes -/

/-- The hashes of `node:crypto`, each as the digest of one update. -/
structure NodeHash where
  sha256 : Bytes → Bytes
  blake2b512 : Bytes → Bytes
  /-- `createHmac("sha512", key).update(data).digest()` -/
  hmacSha512 : (key data : Bytes) → Bytes

/-! ## Ed25519 -/

/-- The Ed25519 calls of `node:crypto`.  Keys are key objects, which are made
from DER and, for a public key, exported to DER. -/
structure NodeSign where
  PrivateKey : Type
  PublicKey : Type
  /-- `createPrivateKey({ key, format: "der", type: "pkcs8" })` -/
  createPrivateKey : (der : Bytes) → Except String PrivateKey
  /-- `createPublicKey({ key, format: "der", type: "spki" })` -/
  createPublicKey : (der : Bytes) → Except String PublicKey
  /-- `createPublicKey(privateKey)` -/
  publicKeyOf : PrivateKey → PublicKey
  /-- `export({ type: "spki", format: "der" })` -/
  exportSpki : PublicKey → Bytes
  sign : (message : Bytes) → PrivateKey → Bytes
  verify : (message : Bytes) → PublicKey → (signature : Bytes) → Bool

/-- The DER bytes in front of a 32-byte seed in a PKCS#8 Ed25519 key. -/
def pkcs8Prefix : Bytes :=
  [0x30, 0x2e, 0x02, 0x01, 0x00, 0x30, 0x05, 0x06, 0x03, 0x2b, 0x65, 0x70,
    0x04, 0x22, 0x04, 0x20]

/-- The DER bytes in front of the 32 raw bytes in an SPKI Ed25519 key. -/
def spkiPrefix : Bytes :=
  [0x30, 0x2a, 0x30, 0x05, 0x06, 0x03, 0x2b, 0x65, 0x70, 0x03, 0x21, 0x00]

/-- What the documentation promises of the Ed25519 calls: every 32-byte seed
is a key, a public key is exported as the fixed prefix and 32 raw bytes and
read back from them, and a signature is 64 bytes that verify. -/
structure NodeSign.Lawful (node : NodeSign) : Prop where
  createPrivateKey_seed : ∀ seed : Bytes, seed.length = 32 →
    ∃ key, node.createPrivateKey (pkcs8Prefix ++ seed) = .ok key
  exportSpki_eq : ∀ pub, ∃ raw : Bytes, raw.length = 32 ∧
    node.exportSpki pub = spkiPrefix ++ raw
  createPublicKey_export : ∀ pub,
    node.createPublicKey (node.exportSpki pub) = .ok pub
  sign_length : ∀ message key, (node.sign message key).length = 64
  verify_sign : ∀ message key,
    node.verify message (node.publicKeyOf key) (node.sign message key) = true

/-! ## ChaCha20-Poly1305 -/

/-- The cipher of `node:crypto`, from `createCipheriv` to the tag and from
`createDecipheriv` to `final`, which throws on a wrong tag.  The associated
data is `none` where `setAAD` is not called. -/
structure NodeCipher where
  encipher : (key nonce : Bytes) → (aad : Option Bytes) → (plaintext : Bytes) →
    Bytes × Bytes
  decipher : (key nonce : Bytes) → (aad : Option Bytes) →
    (ciphertext tag : Bytes) → Option Bytes

/-- Correctness of the cipher for keys and nonces of the documented lengths:
the tag has the requested 16 bytes and decryption undoes encryption. -/
structure NodeCipher.Lawful (node : NodeCipher) : Prop where
  tag_length : ∀ key nonce aad plaintext, key.length = 32 →
    nonce.length = 12 → (node.encipher key nonce aad plaintext).2.length = 16
  decipher_encipher : ∀ key nonce aad plaintext, key.length = 32 →
    nonce.length = 12 →
    node.decipher key nonce aad (node.encipher key nonce aad plaintext).1
      (node.encipher key nonce aad plaintext).2 = some plaintext

end NewZone.Crypto
