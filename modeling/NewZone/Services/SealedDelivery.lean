import NewZone.Crypto.KeyAgreement
import NewZone.Crypto.PacketEnvelope
import NewZone.Services.SignedDelivery

/-!
# The delivery of a sealed packet

The whole way of the high-level functions of `lib/nz-crypto.js`: a packet is signed
with the Ed25519 key of its node, sealed with the key that `deriveSessionKey` gives for
two X25519 keys, sent, opened with the key that the other side derives, and verified.

The envelope comes as JSON, so its members may have been put into another order on the
way.  What is sealed in it may not: the body comes out in the order in which it was
hashed, so only what the verifier takes to be missing can go wrong
(`sealed_accepted_iff`).
-/

namespace NewZone.Crypto.EncryptedPacket

open NewZone.Js NewZone.Js.Json NewZone.ExceptBind NewZone.X25519
open NewZone.Crypto.SignedPacket
open NewZone.Services.Gateway (toJson)

variable {engine : Engine} {coerce : Coercions} {cipher : NodeCipher} {reader : Reader}

/-- A packet is opened by its fields. -/
theorem decryptPacket_congr {v w : Json} (h : ∀ name, field v name = field w name)
    (key : Bytes) :
    decryptPacket engine coerce cipher reader v key
      = decryptPacket engine coerce cipher reader w key := by
  simp only [decryptPacket, templateField, b64Field, h]

/-- The members of an envelope are texts, so they arrive as they were. -/
theorem field_of_same_envelope {e : Envelope} {v : Json} (hsame : Json.Same e.toJson v)
    (name : String) : field v name = field e.toJson name := by
  have hfield := field_same hsame name
  cases hv : field e.toJson name with
  | none =>
    rw [hv] at hfield
    exact Option.map_eq_none_iff.mp hfield.symm
  | some member =>
    have hmem : ∃ s : JsString, member = .str s := by
      have hget := mem_of_getProp hv
      simp only [List.mem_cons, Prod.mk.injEq, List.not_mem_nil, or_false] at hget
      rcases hget with h | h | h | h | h | h | h | h <;> exact ⟨_, h.2⟩
    obtain ⟨s, rfl⟩ := hmem
    rw [hv] at hfield
    obtain ⟨w, hw, hsorted⟩ := Option.map_eq_some_iff.mp hfield.symm
    rw [hw, flat_str s w hsorted.symm]

/-- What has been sealed comes out of the envelope, whatever the order of its members. -/
theorem decryptPacket_same (hcipher : cipher.Lawful) {params : EncryptParams} {random : Bytes}
    {e : Envelope} (hmade : encryptPacket cipher params random = .ok e) {v : Json}
    (hsame : Json.Same e.toJson v) :
    decryptPacket engine coerce cipher reader v params.sessionKey
      = reader.parse (reader.decode (utf8 (stringify params.packet))) := by
  have haddress : e.sender_node_id = params.senderNodeId ∧
      e.receiver_node_id = params.receiverNodeId := by
    obtain ⟨sealed, -, h⟩ := bind_eq_ok.mp hmade
    obtain rfl := Except.ok.inj h
    exact ⟨rfl, rfl⟩
  rw [decryptPacket_congr (field_of_same_envelope hsame)]
  exact @decryptPacket_of_bytes engine coerce cipher reader params random e hcipher hmade
    e.sender_node_id e.receiver_node_id (by rw [haddress.1, haddress.2])

section Way

variable {hash : NodeHash} {sign : NodeSign}

/-- Both sides of a way: their X25519 secrets, and what they have agreed on. -/
structure Way where
  a : Bytes
  b : Bytes
  context : Option JsString
  hash : Option JsString

/-- The key of the sender, who knows the public key of the receiver. -/
def Way.senderKey (node : NodeHash) (way : Way) : Except String Bytes := do
  let pubB ← x25519Base way.b
  deriveSessionKey node
    { ourPrivX25519 := way.a, theirPubX25519 := pubB, context := way.context, hash := way.hash }

/-- The key of the receiver, who knows the public key of the sender. -/
def Way.receiverKey (node : NodeHash) (way : Way) : Except String Bytes := do
  let pubA ← x25519Base way.a
  deriveSessionKey node
    { ourPrivX25519 := way.b, theirPubX25519 := pubA, context := way.context, hash := way.hash }

/-- Two 32-byte secrets and a hash that HKDF knows. -/
structure Way.Usable (way : Way) : Prop where
  a : way.a.length = 32
  b : way.b.length = 32
  hash : Hkdf.SupportedHash (way.hash.getD (js "sha512"))

/-- Both derive one key of 32 bytes. -/
theorem Way.Usable.exists_key {way : Way} (h : way.Usable) (node : NodeHash) :
    ∃ key, way.senderKey node = .ok key ∧ way.receiverKey node = .ok key ∧
      key.length = 32 := by
  obtain ⟨pubA, hpubA, -⟩ := exists_x25519Base h.a
  obtain ⟨pubB, hpubB, hlenB⟩ := exists_x25519Base h.b
  have hagree := x25519_agree h.a h.b hpubA hpubB
  have hpos : (0 : ℤ) < 32 := by decide
  have hle : (32 : ℤ) ≤ 16320 := by decide
  obtain ⟨key, hkey, hlength⟩ := @exists_deriveSessionKey node
    ⟨way.a, pubB, way.context, way.hash, none⟩ h.a hlenB h.hash hpos hle
  have hsame := deriveSessionKey_congr node hagree way.context way.hash none
  exact ⟨key, (bind_of_ok hpubB _).trans hkey,
    (bind_of_ok hpubA _).trans (hsame.symm.trans hkey), hlength⟩

/-- What the receiver does: it opens the packet and verifies what is in it. -/
def receive (hash : NodeHash) (sign : NodeSign) (engine : Engine) (coerce : Coercions)
    (cipher : NodeCipher) (reader : Reader) (way : Way) (verify : Json → VerifyParams)
    (packet : Json) (clock : ℕ) : Except String Verdict := do
  let sessionKey ← way.receiverKey hash
  let opened ← decryptPacket engine coerce cipher reader packet sessionKey
  verifySignedPacket hash sign coerce (verify opened) clock

/-- **When a sealed packet is accepted.**  Both sides can derive their key and the
sender can seal.  A packet that a node has built, sealed and presented in time by a
receiver that knows the key of the node is accepted, whatever the order of the members
of the envelope, exactly when its body is truthy, it was not built in the first second
of 1970, and its nonce has not been seen. -/
theorem sealed_accepted_iff (hsign : sign.Lawful) (hcipher : cipher.Lawful)
    (hdigest : ∀ data, (hash.sha256 data).length = 32) {way : Way} (hway : way.Usable)
    {c : BuildCall} {nodeId : JsString} {body : Json} {verify : Json → VerifyParams}
    {clock : ℕ} (hverify : ∀ packet, (verify packet).packet = packet ∧
      Presented hash sign c nodeId body (verify packet) clock)
    (hreads : reader.parse (reader.decode (utf8 (stringify (toJson c.packet))))
      = .ok (toJson c.packet))
    {random : Bytes} (hrandom : random.length = 12) (sender receiver baseContext : JsString) :
    ∃ key e, way.senderKey hash = .ok key ∧
      encryptPacket cipher
        { packet := toJson c.packet, sessionKey := key, senderNodeId := sender,
          receiverNodeId := receiver, baseContext := baseContext } random = .ok e ∧
      ∀ v, Json.Same e.toJson v →
        (receive hash sign engine coerce cipher reader way verify v clock
            = .ok (.accepted (.str nodeId)) ↔
          body.truthy = true ∧ 1000 ≤ c.clock ∧
            ((verify (toJson c.packet)).isNonceSeen.map fun seen =>
              seen (.str nodeId) (.str c.packet.auth.nonce)) ≠ some true) := by
  obtain ⟨key, hsender, hreceiver, hkey⟩ := hway.exists_key hash
  let params : EncryptParams :=
    { packet := toJson c.packet, sessionKey := key, senderNodeId := sender,
      receiverNodeId := receiver, baseContext := baseContext }
  have hsealed := Aead.encrypt_bytes cipher hkey hrandom
    (utf8 (stringify (toJson c.packet))) (addressBytes sender receiver)
  obtain ⟨e, hmade⟩ : ∃ e, encryptPacket cipher params random = .ok e :=
    ⟨_, bind_of_ok hsealed _⟩
  refine ⟨key, e, hsender, hmade, fun v hsame => ?_⟩
  have hopened := (@decryptPacket_same engine coerce _ reader hcipher _ _ _ hmade _ hsame).trans
    hreads
  have hreceive : receive hash sign engine coerce cipher reader way verify v clock
      = verifySignedPacket hash sign coerce (verify (toJson c.packet)) clock :=
    (bind_of_ok hreceiver _).trans (bind_of_ok hopened _)
  obtain ⟨hpacket, hpresented⟩ := hverify (toJson c.packet)
  have hbody : field (verify (toJson c.packet)).packet "body" = some body := by
    rw [hpacket]
    exact hpresented.field_body
  rw [hreceive, hpresented.accepted_iff hsign hdigest (by rw [hpacket]; exact .refl _)
    (by rw [hbody]; exact collisionFree_pair fun _ => rfl)]
  constructor
  · intro h
    exact ⟨h.1, h.2.1, h.2.2.2⟩
  · intro h
    exact ⟨h.1, h.2.1, hbody, h.2.2⟩

/-! ## A known way -/

/-- The secrets of the known exchange, and the default context and hash. -/
def knownWay : Way :=
  { a := Handshake.knownSecretA, b := Handshake.knownSecretB, context := none, hash := none }

def knownSalt : Bytes :=
  Tabulated.hex 32 0xfc02460e5b0d586e0e98c1d488409163fe4e05edf9ce0870ae91d4039d3a76ad

def knownPrk : Bytes :=
  Tabulated.hex 32 0xb153fc424d110ba691545b7c9132bacc9919b8441ee4930b7a9ce3a68352610b ++
    Tabulated.hex 32 0x3a22999e56c24fbe5ca40520f21c4268843792125f1cba1c6d0f14260d77a035

def knownBlock : Bytes :=
  Tabulated.hex 32 0xc57630ea304538859689d28a421e95475ef4b3afe9d6301ed94010cd897571cc ++
    Tabulated.hex 32 0x597e4fbeea13f5ef65c258d6da13554724171ae573d4d2871395f64731cb161f

/-- The digests of the packet, and those that the session key is derived with. -/
def sealedHash : NodeHash :=
  { Tabulated.hash []
      [(utf8 (js "NZ-CRYPTO-01/session"), knownSalt ++
        Tabulated.hex 32 0xeb5de0d91ac86a08750f549c5a002172c096b05000c089738dec93949ec01c48)]
      [((knownSalt, Tabulated.hex 32
          0x5bf22caf31c0316785b0b9bc60e56d48582ce59435ce5b3c028052be42631e0f), knownPrk),
        ((knownPrk, utf8 (js "NZ-CRYPTO-01/deriveSessionKey") ++ [1]), knownBlock)]
    with sha256 := orderedHash.sha256 }

/-- What ChaCha20-Poly1305 makes of the packet on its way to node-b. -/
def knownSealed (packet : Packet) : Tabulated.KnownSealing where
  key := knownBlock.take 32
  nonce := pingNonce
  aad := Aead.aadOf (addressBytes (js "node-a") (js "node-b"))
  plaintext := utf8 (stringify (toJson packet))
  ciphertext :=
    Tabulated.hex 32 0x087c2bfe9528b09df0d887e9bfcd50a6e40c169ae9eb2a830aef9dd7d139b41d ++
    Tabulated.hex 32 0xf0306cc4ee50cb46d8fa64a064284b7cecc4cc3265a59005a87cdc98af4de9e3 ++
    Tabulated.hex 32 0xd81966c0058d39057532a63977828a655b270f21b6985307e686151cf853ebca ++
    Tabulated.hex 32 0x03f94f9d91832304a954a77f26d4158344b5e6e24172787eb8ae458aeaa685cf ++
    Tabulated.hex 32 0x00e8ab9bae6709882ed33a4d978aaf8332a405df64ff5591f4f4202943c271f9 ++
    Tabulated.hex 32 0x97bd1c4efa2c49802ce04357cc63fb9939214e84a60e4ef454c8963814bfcd39 ++
    Tabulated.hex 32 0xce74ce574c3964f6310c45f474f04a3cee5a699b751f5da74e3398a576e6a090 ++
    Tabulated.hex 32 0x040e2d40c2f47a1bd5fbdf03da1beff756ff68b46edf349a79abce26440e4a33 ++
    Tabulated.hex 32 0x843cef813fd90ff82f2b9f02889a8373fcce3df8c16248acfb1d1749fd04abba ++
    Tabulated.hex 16 0x5787948c12c716d2ce910cddc1ec3bf8
  tag := Tabulated.hex 16 0x28d6c0cc02b04b5ccd9f83e811db8713
  tag_length := Tabulated.length_hex _ _
  tag_ne := by decide

/-- The reader of that packet. -/
def packetReader (packet : Packet) : Reader where
  decode _ := stringify (toJson packet)
  parse _ := .ok (toJson packet)

theorem usable_knownWay : knownWay.Usable := ⟨rfl, rfl, by decide⟩

/-- Node-a signs a body and seals the packet, and node-b accepts it. -/
theorem sealed_accepted_known :
    ∃ (c : BuildCall) (key : Bytes) (e : Envelope),
      c.params.body = some orderedBody ∧ knownWay.senderKey sealedHash = .ok key ∧
      encryptPacket (Tabulated.cipher (knownSealed c.packet))
        { packet := toJson c.packet, sessionKey := key, senderNodeId := js "node-a",
          receiverNodeId := js "node-b" } pingNonce = .ok e ∧
      receive sealedHash orderedSign .plain knownCoercions
        (Tabulated.cipher (knownSealed c.packet)) (packetReader c.packet) knownWay orderedVerify
        e.toJson 1700000100000 = .ok (.accepted (.str (js "node-a"))) := by
  obtain ⟨c, hclock, hpresented⟩ := exists_presented orderedBody
  have hsealed : ∀ packet, Presented sealedHash orderedSign c (js "node-a") orderedBody
      (orderedVerify packet) 1700000100000 := fun packet =>
    ⟨(hpresented packet).made, (hpresented packet).node_id, (hpresented packet).nonempty,
      (hpresented packet).body, (hpresented packet).random, (hpresented packet).known,
      (hpresented packet).fresh⟩
  obtain ⟨key, e, hkey, hmade, haccepted⟩ := @sealed_accepted_iff .plain knownCoercions _
    (packetReader c.packet) sealedHash orderedSign (Tabulated.lawful_sign _ _)
    (Tabulated.lawful_cipher (knownSealed c.packet)) length_orderedHash _ usable_knownWay _ _ _
    orderedVerify _ (fun packet => ⟨rfl, hsealed packet⟩) rfl pingNonce rfl (js "node-a")
    (js "node-b") (js "NZ-CRYPTO-01/packet")
  exact ⟨c, key, e, (hpresented .null).body, hkey, hmade,
    (haccepted e.toJson (.refl _)).mpr ⟨rfl, by rw [hclock]; decide, nofun⟩⟩

end Way

end NewZone.Crypto.EncryptedPacket
