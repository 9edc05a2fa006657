import NewZone.Crypto.RoutingPacket
import NewZone.Crypto.Tabulated

/-!
# Routing packets are accepted when they are signed and fresh

The node keys are used through `signRoutingPacket` only, and the signature
scheme is ideal with respect to those calls: a signature verifies exactly when
one of them has made it for those bytes.  Then a packet that passes
`verifyRoutingPacket` was signed with the same fields, and a packet that was
signed passes for as long as it is fresh, in whatever order its members
arrive.
-/

namespace NewZone.Crypto.RoutingPacket

open NewZone.Js NewZone.Js.Json NewZone.ExceptBind
open NewZone.Crypto.Tabulated (knownSeed knownKey)

/-- A call of `signRoutingPacket` with what it returned. -/
structure SignCall where
  params : SignParams
  now : Number
  random : Bytes
  packet : Packet

/-- The call returned its packet, with the eight random bytes that the source
asks for. -/
structure SignCall.Made (node : NodeSign) (c : SignCall) : Prop where
  random_length : c.random.length = 8
  returned : signRoutingPacket node c.params c.now c.random = .ok c.packet

/-- The call signs with the private key `key`. -/
def SignCall.UsesKey (node : NodeSign) (c : SignCall) (key : node.PrivateKey) :
    Prop :=
  ∃ ed25519_private ed25519_public,
    c.params.nodeKeys = some ⟨some ed25519_private, ed25519_public⟩ ∧
    node.createPrivateKey (Base64.decode ed25519_private) = .ok key

/-- Ideal signatures: what verifies under a public key is what a call with the
matching private key has made, for exactly those bytes. -/
def Ideal (node : NodeSign) (calls : List SignCall) : Prop :=
  ∀ message pub sig, node.verify message pub sig = true ↔
    ∃ call ∈ calls, ∃ key, call.UsesKey node key ∧
      node.publicKeyOf key = pub ∧
      message = buildSigningPayload call.packet.signed ∧
      sig = node.sign message key

/-! ## Fields in transit -/

/-- A packet that has been sent has its own fields. -/
theorem signedFields_toJson (p : Packet) : signedFields p.toJson = p.signed := by
  obtain ⟨version, node_id, ts, nonce, payload, signature⟩ := p
  cases node_id <;> cases payload <;> rfl

theorem field_signature_toJson (p : Packet) :
    field p.toJson "signature" = some (.str p.signature) := by
  obtain ⟨version, node_id, ts, nonce, payload, signature⟩ := p
  cases node_id <;> cases payload <;> rfl

theorem signedFields_same {v w : Json} (h : Json.Same v w) :
    (signedFields v).Same (signedFields w) := by
  simp only [Signed.Same, Signed.fields, signedFields, List.map_cons,
    List.map_nil, field_same h]

/-- The fields of a packet that a call has made, in whatever order they have
arrived. -/
structure SignCall.Fields (c : SignCall) (packet : Json) : Prop where
  version : field packet "version" = some (.str routingVersion)
  node_id : ∀ {node_id}, field packet "node_id" = some (.str node_id) ↔
    c.params.nodeId = some (.str node_id)
  ts : field packet "ts" = some (.num c.now)
  nonce : field packet "nonce" = some (.str (toHex c.random))
  nonce_ne : toHex c.random ≠ []
  payload : (field packet "payload").map sorted = c.params.payload.map sorted

theorem SignCall.Made.fields_of_same {node : NodeSign} {c : SignCall}
    (hmade : c.Made node) {packet : Json}
    (hsame : (signedFields packet).Same c.packet.signed) : c.Fields packet := by
  obtain ⟨-, -, -, -, -, hversion, hnode, hts, hnonce, hpayload, -⟩ :=
    of_signRoutingPacket_ok hmade.returned
  simp only [Signed.Same, Signed.fields, signedFields, Packet.signed, List.map_cons,
    List.map_nil, List.cons.injEq, and_true, hversion, hnode, hts, hnonce, hpayload]
    at hsame
  obtain ⟨hfid, hfnonce, hfpayload, hfts, hfversion⟩ := hsame
  have hrandom : c.random ≠ [] := by
    intro hnil
    have := hmade.random_length
    rw [hnil] at this
    cases this
  refine ⟨eq_str_of_sorted hfversion, ⟨fun h => ?_, fun h => ?_⟩,
    eq_num_of_sorted hfts, eq_str_of_sorted hfnonce, toHex_ne_nil hrandom, hfpayload⟩
  · rw [h] at hfid
    exact eq_str_of_sorted hfid.symm
  · rw [h] at hfid
    exact eq_str_of_sorted hfid

/-! ## Soundness -/

/-- An accepted packet is fresh, and a holder of the key that is registered for
its node has signed a packet with the same fields. -/
theorem signed_of_accepted {node : NodeSign} {calls : List SignCall}
    (hideal : Ideal node calls) {params : VerifyParams} {now : Number}
    {node_id : JsString} {payload : Option Json}
    (h : verifyRoutingPacket node params now
      = .ok (.accepted node_id payload)) :
    payload = field params.packet "payload" ∧
    ∃ ts der pub,
      field params.packet "node_id" = some (.str node_id) ∧
      field params.packet "ts" = some (.num ts) ∧
      |now.value - ts.value|
        ≤ 1000 * (params.maxSkewSec.getD (Number.ofNat 300)).value ∧
      params.getPublicKeyByNodeId node_id = some der ∧
      node.createPublicKey der = .ok pub ∧
      ∃ call ∈ calls, ∃ key, call.UsesKey node key ∧
        node.publicKeyOf key = pub ∧
        (signedFields params.packet).Same call.packet.signed := by
  obtain ⟨-, hid, -, hpayload, ts, nonce, signature, der, pub, hts, -, -, -, -,
    hskew, hder, hpub, hverify⟩ := verifyRoutingPacket_accepted_iff.mp h
  obtain ⟨call, hcall, key, hkey, hmatch, hmessage, -⟩ :=
    (hideal _ _ _).mp hverify
  exact ⟨hpayload, ts, der, pub, hid, hts, hskew.trans_eq (mul_comm _ _), hder,
    hpub, call, hcall, key, hkey, hmatch,
    buildSigningPayload_eq_iff.mp hmessage⟩

/-! ## Completeness -/

/-- A packet that a call has made is accepted while it is fresh, in any order
of its members, by everyone who knows the key of the node. -/
theorem accepted_of_signed {node : NodeSign} {calls : List SignCall}
    (hideal : Ideal node calls)
    (hlength : ∀ message key, (node.sign message key).length = 64)
    {call : SignCall} (hcall : call ∈ calls) (hmade : call.Made node)
    {key : node.PrivateKey} (hkey : call.UsesKey node key) {node_id : JsString}
    (hid : call.params.nodeId = some (.str node_id)) (hid' : node_id ≠ [])
    {params : VerifyParams} (hsame : Json.Same params.packet call.packet.toJson)
    {der : Bytes} (hder : params.getPublicKeyByNodeId node_id = some der)
    (hpub : node.createPublicKey der = .ok (node.publicKeyOf key))
    {now : Number}
    (hskew : |now.value - call.now.value|
      ≤ 1000 * (params.maxSkewSec.getD (Number.ofNat 300)).value) :
    ∃ payload, verifyRoutingPacket node params now
        = .ok (.accepted node_id payload) ∧
      payload.map sorted = call.params.payload.map sorted := by
  obtain ⟨priv, pub, key', hkeys, hkey', hversion, hnode, hts, hnonce, hpayload,
    hsignature⟩ := of_signRoutingPacket_ok hmade.returned
  obtain rfl : key = key' := by
    obtain ⟨priv', pub', hkeys', hkey⟩ := hkey
    obtain ⟨rfl, -⟩ : priv = priv' ∧ some pub = pub' := by
      simpa [hkeys] using hkeys'
    exact Except.ok.inj (hkey.symm.trans hkey')
  have hsame' := signedFields_same hsame
  rw [signedFields_toJson] at hsame'
  have hsig := field_same hsame "signature"
  rw [field_signature_toJson] at hsig
  have hfields := hmade.fields_of_same hsame'
  have hsign : node.sign (buildSigningPayload call.packet.signed) key ≠ [] := by
    intro hnil
    have := hlength (buildSigningPayload call.packet.signed) key
    rw [hnil] at this
    cases this
  refine ⟨field params.packet "payload",
    verifyRoutingPacket_accepted_iff.mpr ⟨hfields.version, hfields.node_id.mpr hid,
      hid', rfl, call.now, toHex call.random, call.packet.signature, der, _,
      hfields.ts, hfields.nonce, hfields.nonce_ne, eq_str_of_sorted hsig, ?_,
      hskew.trans_eq (mul_comm _ _), hder, hpub, ?_⟩, hfields.payload⟩
  · rw [hsignature]
    exact Base64.encode_ne_nil hsign
  · refine (hideal _ _ _).mpr ⟨call, hcall, key, hkey, rfl,
      buildSigningPayload_eq_iff.mpr hsame', ?_⟩
    rw [hsignature, Base64.decode_encode, buildSigningPayload_eq_iff.mpr hsame']

/-- **Accepted means signed and fresh.**  An accepted packet lies within the
skew window, returns its own payload, and has the version, node, time, nonce
and payload of a packet that a holder of the registered key has signed.  And
every packet that was signed for a node with a name is accepted within the
skew window, in every order of its members, by everyone who has the key of that
node registered. -/
theorem accepted_iff_signed_and_fresh {node : NodeSign} {calls : List SignCall}
    (hideal : Ideal node calls)
    (hlength : ∀ message key, (node.sign message key).length = 64)
    (hmade : ∀ call ∈ calls, call.Made node) :
    (∀ {params : VerifyParams} {now : Number} {node_id : JsString}
        {payload : Option Json},
      verifyRoutingPacket node params now = .ok (.accepted node_id payload) →
      payload = field params.packet "payload" ∧
      ∃ ts der pub,
        field params.packet "node_id" = some (.str node_id) ∧
        field params.packet "ts" = some (.num ts) ∧
        |now.value - ts.value|
          ≤ 1000 * (params.maxSkewSec.getD (Number.ofNat 300)).value ∧
        params.getPublicKeyByNodeId node_id = some der ∧
        node.createPublicKey der = .ok pub ∧
        ∃ call ∈ calls, ∃ key, call.UsesKey node key ∧
          node.publicKeyOf key = pub ∧
          (signedFields params.packet).Same call.packet.signed) ∧
    (∀ {call : SignCall}, call ∈ calls → ∀ {key : node.PrivateKey},
      call.UsesKey node key → ∀ {node_id : JsString},
      call.params.nodeId = some (.str node_id) → node_id ≠ [] →
      ∀ {params : VerifyParams}, Json.Same params.packet call.packet.toJson →
      ∀ {der : Bytes}, params.getPublicKeyByNodeId node_id = some der →
      node.createPublicKey der = .ok (node.publicKeyOf key) →
      ∀ {now : Number},
      |now.value - call.now.value|
        ≤ 1000 * (params.maxSkewSec.getD (Number.ofNat 300)).value →
      ∃ payload, verifyRoutingPacket node params now
          = .ok (.accepted node_id payload) ∧
        payload.map sorted = call.params.payload.map sorted) :=
  ⟨fun h => signed_of_accepted hideal h,
    fun hcall _ hkey _ hid hid' _ hsame _ hder hpub _ hskew =>
      accepted_of_signed hideal hlength hcall (hmade _ hcall) hkey hid hid' hsame
        hder hpub hskew⟩

/-! ## A known packet -/

def knownSigned : Signed :=
  { version := some (.str routingVersion)
    node_id := some (.str (js "node-a"))
    ts := some (.num (Number.ofNat 1700000000000))
    nonce := some (.str (toHex [0, 1, 2, 3, 4, 5, 6, 7]))
    payload := some (.obj [(js "b", .null), (js "a", .bool true)]) }

/-- The Ed25519 signature of its text by that seed. -/
def knownSignature : { s : Bytes // s.length = 64 } :=
  ⟨Tabulated.hex 32 0x5abab525a98fa1f13662eda5f3e1db75aae88df5f4b3de9a4e8d4a1243226d11 ++
    Tabulated.hex 32 0x080b5dd61a2002cb3bc5692b912603922076ca8bc30e49fa3ec7a9d17aca970a, by
    simp⟩

def knownNode : NodeSign :=
  Tabulated.signOnly [(knownSeed, knownKey)]
    [((buildSigningPayload knownSigned, knownKey), knownSignature)]

def knownCall : SignCall :=
  { params :=
      { nodeKeys := some
          { ed25519_private := some (Base64.encode (pkcs8Prefix ++ knownSeed.1))
            ed25519_public := some (Base64.encode (spkiPrefix ++ knownKey.1)) }
        nodeId := knownSigned.node_id
        payload := knownSigned.payload }
    now := Number.ofNat 1700000000000
    random := [0, 1, 2, 3, 4, 5, 6, 7]
    packet :=
      { version := routingVersion, node_id := knownSigned.node_id
        ts := Number.ofNat 1700000000000
        nonce := toHex [0, 1, 2, 3, 4, 5, 6, 7]
        payload := knownSigned.payload
        signature := Base64.encode knownSignature.1 } }

theorem knownSign_eq :
    knownNode.sign (buildSigningPayload knownSigned) knownSeed
      = knownSignature.1 :=
  Tabulated.signOnly_sign_cons _ _ _ _ _ _

theorem knownCall_createPrivateKey :
    knownNode.createPrivateKey
      (Base64.decode (Base64.encode (pkcs8Prefix ++ knownSeed.1)))
      = .ok knownSeed := by
  rw [Base64.decode_encode]
  exact Tabulated.parseDer_append pkcs8Prefix knownSeed

theorem knownCall_usesKey {key : knownNode.PrivateKey} :
    knownCall.UsesKey knownNode key ↔ key = knownSeed := by
  constructor
  · rintro ⟨priv, pub, hkeys, h⟩
    obtain ⟨hpriv, -⟩ := NodeKeys.mk.inj (Option.some.inj hkeys)
    obtain rfl := Option.some.inj hpriv
    exact Except.ok.inj (h.symm.trans knownCall_createPrivateKey)
  · rintro rfl
    exact ⟨_, _, rfl, knownCall_createPrivateKey⟩

/-- A call with the first seed of a table returns its packet, if the first entry is the
signature. -/
theorem made_of_entry {publicKeys : List (Tabulated.Key × Tabulated.Key)}
    {signatures : List ((Bytes × Tabulated.Key) × { s : Bytes // s.length = 64 })}
    {seed pub : Tabulated.Key} {sig : { s : Bytes // s.length = 64 }} {signed : Signed}
    {c : SignCall} (hsigned : c.packet.signed = signed) (hrandom : c.random.length = 8)
    (hkeys : c.params.nodeKeys = some
      ⟨some (Base64.encode (pkcs8Prefix ++ seed.1)),
        some (Base64.encode (spkiPrefix ++ pub.1))⟩)
    (hpacket : c.packet =
      { version := routingVersion, node_id := c.params.nodeId, ts := c.now
        nonce := toHex c.random, payload := c.params.payload
        signature := Base64.encode sig.1 }) :
    c.Made (Tabulated.signOnly ((seed, pub) :: publicKeys)
      (((buildSigningPayload signed, pub), sig) :: signatures)) where
  random_length := hrandom
  returned := by
    have hkey : (Tabulated.signOnly ((seed, pub) :: publicKeys)
        (((buildSigningPayload signed, pub), sig) :: signatures)).createPrivateKey
          (Base64.decode (Base64.encode (pkcs8Prefix ++ seed.1))) = .ok seed := by
      rw [Base64.decode_encode]
      exact Tabulated.parseDer_append pkcs8Prefix seed
    have hne : ∀ front rest : Bytes, front ≠ [] → Base64.encode (front ++ rest) ≠ [] :=
      fun front rest hfront => Base64.encode_ne_nil (List.append_ne_nil_of_left_ne_nil hfront _)
    have hfields : signed =
        { version := some (.str routingVersion), node_id := c.params.nodeId
          ts := some (.num c.now), nonce := some (.str (toHex c.random))
          payload := c.params.payload } := by
      rw [← hsigned, hpacket]
      rfl
    rw [signRoutingPacket_ok hkeys (hne _ _ (by decide)) (hne _ _ (by decide)) hkey,
      ← hfields, Tabulated.signOnly_sign_cons, ← hpacket]

theorem knownCall_made : knownCall.Made knownNode :=
  made_of_entry rfl rfl rfl rfl

theorem knownNode_verify {message : Bytes} {pub : knownNode.PublicKey}
    {sig : Bytes} :
    knownNode.verify message pub sig = true ↔
      message = buildSigningPayload knownSigned ∧ pub = knownKey ∧
      sig = knownSignature.1 :=
  Tabulated.signOnly_verify_singleton

theorem knownNode_ideal : Ideal knownNode [knownCall] := by
  intro message pub sig
  rw [knownNode_verify]
  constructor
  · rintro ⟨rfl, rfl, rfl⟩
    exact ⟨knownCall, List.mem_singleton.mpr rfl, knownSeed,
      knownCall_usesKey.mpr rfl, rfl, rfl, knownSign_eq.symm⟩
  · rintro ⟨call, hcall, key, hkey, hpub, hmessage, hsig⟩
    obtain rfl := List.mem_singleton.mp hcall
    obtain rfl := knownCall_usesKey.mp hkey
    obtain rfl : message = buildSigningPayload knownSigned := hmessage
    exact ⟨rfl, hpub.symm, hsig.trans knownSign_eq⟩

/-- The packet with its members, and those of its payload, the other way
round. -/
def knownArrival : Json :=
  .obj [(js "signature", .str knownCall.packet.signature),
    (js "payload", .obj [(js "a", .bool true), (js "b", .null)]),
    (js "nonce", .str knownCall.packet.nonce),
    (js "ts", .num (Number.ofNat 1700000000000)),
    (js "node_id", .str (js "node-a")),
    (js "version", .str routingVersion)]

def knownVerify : VerifyParams :=
  { packet := knownArrival
    getPublicKeyByNodeId := fun id =>
      if id = js "node-a" then some (spkiPrefix ++ knownKey.1) else none }

theorem knownArrival_same : Json.Same knownArrival knownCall.packet.toJson := rfl

theorem knownNode_createPublicKey :
    knownNode.createPublicKey (spkiPrefix ++ knownKey.1)
      = .ok (knownNode.publicKeyOf knownSeed) :=
  Tabulated.parseDer_append spkiPrefix knownKey

theorem accepted_known :
    (∃ payload, verifyRoutingPacket knownNode knownVerify
        (Number.ofNat 1700000300000)
          = .ok (.accepted (js "node-a") payload) ∧
      payload.map sorted = knownSigned.payload.map sorted) ∧
    ∀ {now : Number} {node_id : JsString} {payload : Option Json},
      verifyRoutingPacket knownNode knownVerify now
        = .ok (.accepted node_id payload) →
      |now.value - 1700000000000| ≤ 300000 := by
  obtain ⟨hsound, hcomplete⟩ := accepted_iff_signed_and_fresh knownNode_ideal
    (fun message key => (Tabulated.lawful_sign _ _).sign_length message key)
    (fun call hcall => List.mem_singleton.mp hcall ▸ knownCall_made)
  constructor
  · refine hcomplete (List.mem_singleton.mpr rfl) (knownCall_usesKey.mpr rfl)
      rfl (by decide) knownArrival_same rfl knownNode_createPublicKey ?_
    norm_num [knownCall, knownVerify]
  · intro now node_id payload h
    obtain ⟨-, ts, -, -, -, hts, hskew, -⟩ := hsound h
    obtain rfl : Number.ofNat 1700000000000 = ts :=
      Json.num.inj (Option.some.inj hts)
    norm_num [knownVerify] at hskew
    exact hskew

end NewZone.Crypto.RoutingPacket
