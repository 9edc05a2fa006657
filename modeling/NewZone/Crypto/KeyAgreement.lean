import NewZone.Crypto.Handshake
import NewZone.Crypto.Hkdf

/-!
# Key agreement

`deriveSessionKey` of `lib/nz-crypto.js`, and what agreement of X25519 means
for its three users: the function itself, the handshake and the session key.
-/

namespace NewZone.Crypto

open NewZone.Js NewZone.ExceptBind NewZone.X25519

/-- The argument of `deriveSessionKey`; a field that is not given is `none`. -/
structure DeriveParams where
  ourPrivX25519 : Bytes
  theirPubX25519 : Bytes
  context : Option JsString := none
  hash : Option JsString := none
  keyLength : Option Int := none

def deriveSessionKey (node : NodeHash) (params : DeriveParams) :
    Except String Bytes := do
  let context := params.context.getD (js "NZ-CRYPTO-01/session")
  let hash := params.hash.getD (js "sha512")
  let keyLength := params.keyLength.getD 32
  let sharedSecret ← x25519 params.ourPrivX25519 params.theirPubX25519
  let ctxBytes := utf8 context
  let salt ← blake2b node (.bytes ctxBytes) 32
  let info := utf8 (js "NZ-CRYPTO-01/deriveSessionKey")
  Hkdf.hkdf node (some hash) (.bytes salt) (.bytes sharedSecret) (.bytes info)
    keyLength

/-- The session key depends on the two X25519 keys only through their shared
secret. -/
theorem deriveSessionKey_congr (node : NodeHash) {a b pubA pubB : Bytes}
    (h : x25519 a pubB = x25519 b pubA) (context hash : Option JsString)
    (keyLength : Option Int) :
    deriveSessionKey node
        { ourPrivX25519 := a, theirPubX25519 := pubB, context := context
          hash := hash, keyLength := keyLength }
      = deriveSessionKey node
        { ourPrivX25519 := b, theirPubX25519 := pubA, context := context
          hash := hash, keyLength := keyLength } := by
  simp only [deriveSessionKey, h]

/-- With a supported hash and a length that HKDF allows, the session key is
there and has that length. -/
theorem exists_deriveSessionKey (node : NodeHash) {params : DeriveParams}
    (hpriv : params.ourPrivX25519.length = 32)
    (hpub : params.theirPubX25519.length = 32)
    (hhash : Hkdf.SupportedHash (params.hash.getD (js "sha512")))
    (hpos : 0 < params.keyLength.getD 32)
    (hle : params.keyLength.getD 32 ≤ 16320) :
    ∃ key, deriveSessionKey node params = .ok key ∧
      key.length = (params.keyLength.getD 32).toNat := by
  obtain ⟨shared, hshared, -⟩ := exists_x25519 hpriv hpub
  obtain ⟨key, hkey, hlen⟩ := Hkdf.exists_hkdf node hhash
    ((node.blake2b512 (utf8 (params.context.getD
      (js "NZ-CRYPTO-01/session")))).take 32) shared
    (utf8 (js "NZ-CRYPTO-01/deriveSessionKey")) hpos hle
  exact ⟨key, (bind_of_ok hshared _).trans hkey, hlen⟩

/-- **Both sides get the same key.**  For all 32-byte secrets the two X25519
computations answer the same bytes.  For all identity seeds, the exchange with
these secrets as the ephemeral ones succeeds on both sides with one shared
secret.  The session keys of the two sides are equal for every context, hash
and key length, and where the hash and the length are supported there is such a
key. -/
theorem key_agreement {sign : NodeSign} (hsign : sign.Lawful) (hash : NodeHash)
    {aliceSeed bobSeed a b : Bytes} (haliceSeed : aliceSeed.length = 32)
    (hbobSeed : bobSeed.length = 32) (ha : a.length = 32)
    (hb : b.length = 32) :
    ∃ pubA pubB shared,
      x25519Base a = .ok pubA ∧ x25519Base b = .ok pubB ∧
      x25519 a pubB = .ok shared ∧ x25519 b pubA = .ok shared ∧
      (∃ alicePub bobPub hello reply,
        Ed25519.ed25519GetPublicKey sign aliceSeed = .ok alicePub ∧
        Ed25519.ed25519GetPublicKey sign bobSeed = .ok bobPub ∧
        Handshake.aliceStartHandshake sign aliceSeed a = .ok hello ∧
        Handshake.bobRespondHandshake sign
          { aliceEphemeralPub := hello.aliceEphemeralPub
            aliceSig := hello.aliceSig
            aliceIdentityPublicKey := alicePub
            bobIdentityPrivateSeed := bobSeed } b = .ok (.ok reply) ∧
        Handshake.aliceFinishHandshake sign
          { aliceEphemeralSecret := hello.aliceEphemeralSecret
            bobEphemeralPub := reply.bobEphemeralPub
            bobSig := reply.bobSig
            bobIdentityPublicKey := bobPub }
          = .ok (.ok reply.sharedSecretBob)) ∧
      ∀ (context hashName : Option JsString) (keyLength : Option Int),
        deriveSessionKey hash
            { ourPrivX25519 := a, theirPubX25519 := pubB, context := context
              hash := hashName, keyLength := keyLength }
          = deriveSessionKey hash
            { ourPrivX25519 := b, theirPubX25519 := pubA, context := context
              hash := hashName, keyLength := keyLength } ∧
        (Hkdf.SupportedHash (hashName.getD (js "sha512")) →
          0 < keyLength.getD 32 → keyLength.getD 32 ≤ 16320 →
          ∃ key, deriveSessionKey hash
              { ourPrivX25519 := a, theirPubX25519 := pubB, context := context
                hash := hashName, keyLength := keyLength } = .ok key ∧
            key.length = (keyLength.getD 32).toNat) := by
  obtain ⟨pubA, hpubA, hlenA⟩ := exists_x25519Base ha
  obtain ⟨pubB, hpubB, hlenB⟩ := exists_x25519Base hb
  obtain ⟨shared, hshared, -⟩ := exists_x25519 hb hlenA
  have hagree := x25519_agree ha hb hpubA hpubB
  obtain ⟨alicePub, halicePub, -⟩ := Ed25519.exists_sign_verify hsign haliceSeed
  obtain ⟨bobPub, hbobPub, -⟩ := Ed25519.exists_sign_verify hsign hbobSeed
  obtain ⟨hello, reply, hexchange⟩ := Handshake.exists_exchange hsign haliceSeed
    hbobSeed halicePub hbobPub ha hb
  refine ⟨pubA, pubB, shared, hpubA, hpubB, hagree.trans hshared, hshared,
    ⟨alicePub, bobPub, hello, reply, halicePub, hbobPub, hexchange⟩, ?_⟩
  intro context hashName keyLength
  exact ⟨deriveSessionKey_congr hash hagree context hashName keyLength,
    @exists_deriveSessionKey hash ⟨a, pubB, context, hashName, keyLength⟩ ha
      hlenB⟩

/-- Agreement for known keys. -/
theorem key_agreement_known :
    ∃ pubA pubB shared,
      x25519Base Handshake.knownSecretA = .ok pubA ∧
      x25519Base Handshake.knownSecretB = .ok pubB ∧
      x25519 Handshake.knownSecretA pubB = .ok shared ∧
      x25519 Handshake.knownSecretB pubA = .ok shared := by
  obtain ⟨pubA, pubB, shared, hpubA, hpubB, hA, hB, -⟩ :=
    @key_agreement _ Handshake.lawful_knownSign (Tabulated.hash [] [] [])
      Handshake.knownAliceSeed Handshake.knownBobSeed Handshake.knownSecretA
      Handshake.knownSecretB rfl rfl rfl rfl
  exact ⟨pubA, pubB, shared, hpubA, hpubB, hA, hB⟩

end NewZone.Crypto
