import NewZone.Crypto.Hkdf

/-!
# Session keys

`lib/sessionKeys.js`: the key schedule of a secure channel.  The context
string is hashed into both the salt and the info of HKDF, and the output is
cut into an encryption key, a decryption key and a 12-byte nonce base.
`exists_deriveSessionKeys` says when it answers and how long the pieces are.
-/

namespace NewZone.Crypto.SessionKeys

open NewZone.Js NewZone.ExceptBind

/-- `toBytes` of `sessionKeys.js`. -/
def toBytes : Input → Except String Bytes := toBytesWith "sessionKeys"

/-- The object that `deriveSessionKeys` returns. -/
structure Keys where
  encKey : Bytes
  decKey : Bytes
  nonceBase : Bytes
  sessionId : Bytes
  contextHash : Bytes
  deriving DecidableEq

def deriveSessionKeys (node : NodeHash) (sharedSecret context : Input)
    (hash : Option JsString) (keyLength : Option Int) : Except String Keys := do
  let hash := hash.getD (js "sha512")
  let keyLength := keyLength.getD 32
  if !sharedSecret.truthy then
    throw "deriveSessionKeys: sharedSecret is required"
  let ss ← toBytes sharedSecret
  let ctx ← toBytes context
  if ss.length = 0 then
    throw "deriveSessionKeys: sharedSecret must be non-empty"
  if keyLength ≤ 0 ∨ keyLength > 64 then
    throw "deriveSessionKeys: keyLength must be between 1 and 64"
  let contextHash ← blake2b node (.bytes ctx) 32
  let sessionId ← blake2b node (.bytes (concatBytes ss ctx)) 16
  let label ← toBytes (.text (js "NZ-CRYPTO-02/session-keys"))
  let info := concatBytes contextHash label
  let salt := contextHash
  let totalLen := keyLength * 2 + 12
  let okm ← Hkdf.hkdf node (some hash) (.bytes salt) (.bytes ss) (.bytes info)
    totalLen
  let k := keyLength.toNat
  return { encKey := okm.take k
           decKey := (okm.drop k).take k
           nonceBase := (okm.drop (k * 2)).take 12
           sessionId := sessionId
           contextHash := contextHash }

/-- With a non-empty secret, a supported hash and a key length that the source
allows, the key schedule answers, and the key and the nonce base have their
lengths. -/
theorem exists_deriveSessionKeys (node : NodeHash) {secret : Bytes}
    (hsecret : secret ≠ []) {hash : JsString} (hhash : Hkdf.SupportedHash hash)
    (context : JsString) {keyLength : Int} (hpos : 0 < keyLength)
    (hle : keyLength ≤ 64) :
    ∃ keys, deriveSessionKeys node (.bytes secret) (.text context) (some hash)
        (some keyLength) = .ok keys ∧
      keys.encKey.length = keyLength.toNat ∧ keys.nonceBase.length = 12 := by
  obtain ⟨okm, hokm, hlen⟩ := Hkdf.exists_hkdf node hhash
    ((node.blake2b512 (utf8 context)).take 32) secret
    (concatBytes ((node.blake2b512 (utf8 context)).take 32)
      (utf8 (js "NZ-CRYPTO-02/session-keys")))
    (show 0 < keyLength * 2 + 12 by omega)
    (show keyLength * 2 + 12 ≤ 16320 by omega)
  have hsecret0 : ¬secret.length = 0 := fun h =>
    hsecret (List.eq_nil_of_length_eq_zero h)
  have hrange : ¬(keyLength ≤ 0 ∨ keyLength > 64) := by omega
  refine ⟨{
    encKey := okm.take keyLength.toNat
    decKey := (okm.drop keyLength.toNat).take keyLength.toNat
    nonceBase := (okm.drop (keyLength.toNat * 2)).take 12
    sessionId := (node.blake2b512 (concatBytes secret (utf8 context))).take 16
    contextHash := (node.blake2b512 (utf8 context)).take 32 }, ?_, ?_, ?_⟩
  · simp only [deriveSessionKeys, Option.getD_some]
    rw [if_neg (by simp [Input.truthy])]
    refine (bind_of_ok rfl _).trans ((bind_of_ok rfl _).trans ?_)
    rw [if_neg hsecret0, if_neg hrange]
    exact bind_of_ok hokm _
  · rw [List.length_take]
    omega
  · rw [List.length_take, List.length_drop]
    omega

/-- The key schedule answers for a non-empty secret, a supported hash and a key
length within the bounds only. -/
theorem of_deriveSessionKeys_ok {node : NodeHash} {secret : Bytes}
    {context hash : JsString} {keyLength : Int} {keys : Keys}
    (h : deriveSessionKeys node (.bytes secret) (.text context) (some hash)
      (some keyLength) = .ok keys) :
    secret ≠ [] ∧ Hkdf.SupportedHash hash ∧ 0 < keyLength ∧ keyLength ≤ 64 := by
  simp only [deriveSessionKeys, Option.getD_some] at h
  rw [if_neg (by simp [Input.truthy])] at h
  obtain ⟨ss, hss, h⟩ := bind_eq_ok.mp h
  obtain rfl := Except.ok.inj hss
  obtain ⟨ctx, -, h⟩ := bind_eq_ok.mp h
  have hempty : ¬secret.length = 0 := by
    intro hempty
    rw [if_pos hempty] at h
    cases h
  have hrange : ¬(keyLength ≤ 0 ∨ keyLength > 64) := by
    intro hrange
    rw [if_neg hempty, if_pos hrange] at h
    cases h
  rw [if_neg hempty, if_neg hrange] at h
  obtain ⟨contextHash, -, h⟩ := bind_eq_ok.mp h
  obtain ⟨sessionId, -, h⟩ := bind_eq_ok.mp h
  obtain ⟨label, -, h⟩ := bind_eq_ok.mp h
  obtain ⟨okm, hokm, -⟩ := bind_eq_ok.mp h
  exact ⟨fun hnil => hempty (by rw [hnil]; rfl),
    Hkdf.supportedHash_of_hkdf hokm, by omega, by omega⟩

/-- Whether it answers does not depend on the context. -/
theorem exists_deriveSessionKeys_of_ok {node : NodeHash} {secret : Bytes}
    {context hash : JsString} {keyLength : Int} {keys : Keys}
    (h : deriveSessionKeys node (.bytes secret) (.text context) (some hash)
      (some keyLength) = .ok keys) (context' : JsString) :
    ∃ keys', deriveSessionKeys node (.bytes secret) (.text context') (some hash)
      (some keyLength) = .ok keys' := by
  obtain ⟨hsecret, hhash, hpos, hle⟩ := of_deriveSessionKeys_ok h
  obtain ⟨keys', hkeys', -⟩ :=
    exists_deriveSessionKeys node hsecret hhash context' hpos hle
  exact ⟨keys', hkeys'⟩

end NewZone.Crypto.SessionKeys
