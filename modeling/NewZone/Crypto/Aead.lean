import NewZone.Crypto.Node
import NewZone.Lib.ExceptBind

/-!
# ChaCha20-Poly1305

`lib/chacha20poly1305.js`: the length checks around the cipher of
`node:crypto`.  Empty associated data is not handed to the cipher at all, on
either side, and a decryption that fails answers `null` instead of throwing.
-/

namespace NewZone.Crypto.Aead

open NewZone.Js NewZone.ExceptBind

/-- `toBytes` of `chacha20poly1305.js`. -/
def toBytes : Input → Except String Bytes := toBytesWith "chacha20poly1305"

/-- The object that `encrypt` returns. -/
structure Sealed where
  ciphertext : Bytes
  tag : Bytes
  deriving DecidableEq

/-- `setAAD` is called on non-empty associated data only. -/
def aadOf (a : Bytes) : Option Bytes := if a.length > 0 then some a else none

def encrypt (node : NodeCipher) (key nonce plaintext aad : Input) :
    Except String Sealed := do
  let k ← toBytes key
  let n ← toBytes nonce
  let pt ← toBytes plaintext
  let a ← toBytes aad
  if k.length ≠ 32 then
    throw "chacha20poly1305: key must be 32 bytes"
  if n.length ≠ 12 then
    throw "chacha20poly1305: nonce must be 12 bytes"
  let out := node.encipher k n (aadOf a) pt
  return { ciphertext := out.1, tag := out.2 }

/-- `decrypt`; the answer `none` is the `null` of an authentication failure. -/
def decrypt (node : NodeCipher) (key nonce ciphertext tag aad : Input) :
    Except String (Option Bytes) := do
  let k ← toBytes key
  let n ← toBytes nonce
  let ct ← toBytes ciphertext
  let t ← toBytes tag
  let a ← toBytes aad
  if k.length ≠ 32 then
    throw "chacha20poly1305: key must be 32 bytes"
  if n.length ≠ 12 then
    throw "chacha20poly1305: nonce must be 12 bytes"
  if t.length ≠ 16 then
    throw "chacha20poly1305: tag must be 16 bytes"
  return node.decipher k n (aadOf a) ct t

/-- With a key and a nonce of the right lengths, `encrypt` is the cipher. -/
theorem encrypt_bytes (node : NodeCipher) {k n : Bytes} (hk : k.length = 32)
    (hn : n.length = 12) (pt a : Bytes) :
    encrypt node (.bytes k) (.bytes n) (.bytes pt) (.bytes a)
      = .ok { ciphertext := (node.encipher k n (aadOf a) pt).1
              tag := (node.encipher k n (aadOf a) pt).2 } := by
  simp only [encrypt, toBytes, toBytesWith_bytes]
  refine (bind_of_ok rfl _).trans ((bind_of_ok rfl _).trans
    ((bind_of_ok rfl _).trans ((bind_of_ok rfl _).trans ?_)))
  rw [if_neg (not_not.mpr hk), if_neg (not_not.mpr hn)]
  rfl

/-- `encrypt` throws where the key or the nonce has another length. -/
theorem length_of_encrypt_ok {node : NodeCipher} {k n pt a : Bytes} {sealed : Sealed}
    (h : encrypt node (.bytes k) (.bytes n) (.bytes pt) (.bytes a) = .ok sealed) :
    k.length = 32 ∧ n.length = 12 := by
  simp only [encrypt, toBytes, toBytesWith_bytes, bind, Except.bind] at h
  by_cases hk : k.length = 32
  · refine ⟨hk, ?_⟩
    by_contra hn
    rw [if_neg (not_not.mpr hk), if_pos hn] at h
    cases h
  · rw [if_pos hk] at h
    cases h

/-- With a key, a nonce and a tag of the right lengths, `decrypt` is the
cipher. -/
theorem decrypt_bytes (node : NodeCipher) {k n t : Bytes} (hk : k.length = 32)
    (hn : n.length = 12) (ht : t.length = 16) (ct a : Bytes) :
    decrypt node (.bytes k) (.bytes n) (.bytes ct) (.bytes t) (.bytes a)
      = .ok (node.decipher k n (aadOf a) ct t) := by
  simp only [decrypt, toBytes, toBytesWith_bytes]
  refine (bind_of_ok rfl _).trans ((bind_of_ok rfl _).trans
    ((bind_of_ok rfl _).trans ((bind_of_ok rfl _).trans
      ((bind_of_ok rfl _).trans ?_))))
  rw [if_neg (not_not.mpr hk), if_neg (not_not.mpr hn),
    if_neg (not_not.mpr ht)]
  rfl

/-- What `encrypt` seals, `decrypt` opens under the same key, nonce and
associated data. -/
theorem decrypt_encrypt {node : NodeCipher} (hnode : node.Lawful)
    {k n pt a : Bytes} (hk : k.length = 32) (hn : n.length = 12)
    {sealed : Sealed}
    (h : encrypt node (.bytes k) (.bytes n) (.bytes pt) (.bytes a)
      = .ok sealed) :
    decrypt node (.bytes k) (.bytes n) (.bytes sealed.ciphertext)
      (.bytes sealed.tag) (.bytes a) = .ok (some pt) := by
  rw [encrypt_bytes node hk hn] at h
  obtain rfl := Except.ok.inj h
  rw [decrypt_bytes node hk hn (hnode.tag_length k n _ pt hk hn),
    hnode.decipher_encipher k n _ pt hk hn]

end NewZone.Crypto.Aead
