import NewZone.Crypto.BodyBinding
import NewZone.Crypto.RoutingAcceptance
import NewZone.Services.RequestBody

/-!
# Copies of a packet

A service accepts a packet that a call has made, in whatever order its members
arrive, exactly while the packet is fresh and its signature verifies under the
key that is registered for the node.
-/

namespace NewZone.Services

open NewZone.Js NewZone.Js.Json NewZone.ExceptBind NewZone.Crypto
open NewZone.Crypto.SignedPacket (Coercions present knownCoercions)
open NewZone.Crypto.RoutingPacket
open NewZone.Crypto.Tabulated (knownKey)

/-- The signature verifies under the key that is registered for the node of the
packet. -/
def SignedFor (node : NodeSign) (coerce : Coercions) (c : SignCall) (ctx : Context)
    (packet : Json) : Prop :=
  ∃ node_id signature der pub, c.params.nodeId = some (.str node_id) ∧ node_id ≠ [] ∧
    field packet "signature" = some (.str signature) ∧ signature ≠ [] ∧
    getPublicKeyByNodeId coerce ctx.knownNodes node_id = .ok (some der) ∧
    node.createPublicKey der = .ok pub ∧
    node.verify (buildSigningPayload c.packet.signed) pub (Base64.decode signature)
      = true

variable {node : NodeSign} {coerce : Coercions}

/-- A copy of a packet is accepted while it is signed and fresh. -/
theorem verifyPacket_copy_iff {c : SignCall} (hmade : c.Made node) {ctx : Context}
    {packet : Json} (hsame : (signedFields packet).Same c.packet.signed) :
    (∃ node_id payload,
        verifyPacket node coerce ctx packet = .ok (.accepted node_id payload)) ↔
      SignedFor node coerce c ctx packet ∧
        |(ctx.clock : ℚ) - c.now.value| ≤ 300000 := by
  have hfields := hmade.fields_of_same hsame
  have hbytes := buildSigningPayload_eq_iff.mpr hsame
  have hwindow : ((some (Number.ofNat 300)).getD (Number.ofNat 300)).value * 1000
      = 300000 := by norm_num
  simp only [verifyPacket_accepted_iff, verifyRoutingPacket_accepted_iff, hbytes,
    hwindow, hfields.node_id]
  constructor
  · rintro ⟨node_id, payload, -, hid, hne, -, ts, nonce, signature, der, pub, hts, -, -,
      hsig, hsig', hskew, hder, hpub, hverify⟩
    obtain rfl := Json.num.inj (Option.some.inj (hfields.ts.symm.trans hts))
    exact ⟨⟨node_id, signature, der, pub, hid, hne, hsig, hsig',
      toOption_join_eq_some.mp hder, hpub, hverify⟩, by simpa using hskew⟩
  · rintro ⟨⟨node_id, signature, der, pub, hid, hne, hsig, hsig', hlookup, hpub,
      hverify⟩, hskew⟩
    exact ⟨node_id, _, hfields.version, hid, hne, rfl, c.now, _, signature, der, pub,
      hfields.ts, hfields.nonce, hfields.nonce_ne, hsig, hsig', by simpa using hskew,
      toOption_join_eq_some.mpr hlookup, hpub, hverify⟩

/-- The payload of a copy that is signed and fresh is resolved. -/
theorem parse_copy {c : SignCall} (hmade : c.Made node) {ctx : Context} {packet : Json}
    (hsame : (signedFields packet).Same c.packet.signed)
    (hsigned : SignedFor node coerce c ctx packet)
    (hfresh : |(ctx.clock : ℚ) - c.now.value| ≤ 300000) :
    parseRequestBodyWithCrypto node coerce ctx (.json packet)
      = .ok (.payload (field packet "payload") true) := by
  obtain ⟨node_id, payload, h⟩ := (verifyPacket_copy_iff hmade hsame).mpr ⟨hsigned, hfresh⟩
  obtain rfl : payload = field packet "payload" := payload_of_accepted h
  exact parse_crypto_iff.mpr ⟨packet, node_id, rfl, h⟩

/-- The packet itself is signed for everyone who has the key from an entry of its
node. -/
theorem signedFor_toJson {c : SignCall} {ctx : Context} {node_id : JsString}
    {entry : Json} {der sig : Bytes} {pub : node.PublicKey}
    (hid : c.params.nodeId = some (.str node_id)) (hid' : node_id ≠ [])
    (hentry : ctx.knownNodes.get node_id = some entry)
    (hkey : present entry "public_key" = some (.str (Base64.encode der)))
    (hpub : node.createPublicKey der = .ok pub)
    (hsig : c.packet.signature = Base64.encode sig) (hsig' : sig ≠ [])
    (hverify : node.verify (buildSigningPayload c.packet.signed) pub sig = true) :
    SignedFor node coerce c ctx c.packet.toJson := by
  refine ⟨node_id, c.packet.signature, der, pub, hid, hid', field_signature_toJson _, ?_,
    ?_, hpub, ?_⟩
  · rw [hsig]
    exact Base64.encode_ne_nil hsig'
  · rw [getPublicKeyByNodeId_of_get coerce hentry hkey, Base64.decode_encode]
  · rw [hsig, Base64.decode_encode]
    exact hverify

/-! ## A known packet -/

/-- The key of the table, in the form of `generateNodeKeysIfMissing`. -/
def spkiText (key : Tabulated.Key) : JsString := Base64.encode (spkiPrefix ++ key.1)

/-- The trust store after node-a has announced the known key. -/
def announcedNodes : PlainObject Json :=
  listen .plain .empty (announcement (js "node-a") (spkiText knownKey) (js "worker"))

/-- What is signed with the known key for node-a is accepted by everyone who has the
announcement. -/
theorem signedFor_announced {publicKeys : List (Tabulated.Key × Tabulated.Key)}
    {signatures : List ((Bytes × Tabulated.Key) × { s : Bytes // s.length = 64 })}
    {c : SignCall} (hid : c.params.nodeId = some (.str (js "node-a")))
    {sig : { s : Bytes // s.length = 64 }} (hsig : c.packet.signature = Base64.encode sig.1)
    (hmem : ((buildSigningPayload c.packet.signed, knownKey), sig) ∈ signatures)
    (clock : ℕ) :
    SignedFor (Tabulated.signOnly publicKeys signatures) knownCoercions c
      { knownNodes := announcedNodes, clock } c.packet.toJson := by
  have hne : sig.1 ≠ [] := by
    intro hnil
    have hlength := sig.2
    rw [hnil] at hlength
    cases hlength
  refine signedFor_toJson hid (by decide) rfl rfl
    (Tabulated.parseDer_append spkiPrefix knownKey) hsig hne ?_
  simp only [Tabulated.signOnly, decide_eq_true_eq]
  exact List.mem_map.mpr ⟨_, hmem, rfl⟩

/-- So the known packet is accepted when it was made. -/
theorem parse_knownCall {publicKeys : List (Tabulated.Key × Tabulated.Key)}
    {signatures : List ((Bytes × Tabulated.Key) × { s : Bytes // s.length = 64 })}
    (hmade : knownCall.Made (Tabulated.signOnly publicKeys signatures))
    (hmem : ((buildSigningPayload knownSigned, knownKey), knownSignature) ∈ signatures) :
    parseRequestBodyWithCrypto (Tabulated.signOnly publicKeys signatures) knownCoercions
        { knownNodes := announcedNodes, clock := 1700000000000 }
        (.json knownCall.packet.toJson)
      = .ok (.payload knownSigned.payload true) := by
  have hsame : (signedFields knownCall.packet.toJson).Same knownCall.packet.signed := by
    rw [signedFields_toJson]
    rfl
  have hsigned := @signedFor_announced publicKeys signatures knownCall rfl knownSignature rfl
    hmem 1700000000000
  exact parse_copy hmade hsame hsigned (by norm_num [knownCall])

end NewZone.Services
