import NewZone.Services.Discovery
import NewZone.Services.ForwardedAnswers
import NewZone.Services.KeyValue

/-!
# Signed requests

`services/identity/server.js`.  Its `POST /metadata-info` signs what it is sent with the
keys of the node and asks the metadata service for a proof, through the gateway, which
takes the packet off again.  `metadata_info_answered` says what the client gets: the
reply of the metadata service to the payload alone, if the clocks of the node and of the
gateway are at most five minutes apart and the gateway has copied the key of the node.
-/

namespace NewZone.Services.Identity

open NewZone.Js NewZone.Js.Json NewZone.ExceptBind NewZone.Runs NewZone.Crypto
open NewZone.Crypto.SignedPacket (Coercions present)
open NewZone.Crypto.RoutingPacket
open NewZone.Services.Discovery (World Event Step announced_of_run)
open NewZone.Services.Routing

/-! ## The core -/

/-- `generateIdentity`.  A hash is updated with a text or with bytes. -/
def generateIdentity (hash : NodeHash) : Option Json → Except String JsString
  | some (.str input) => .ok ((toHex (hash.sha256 (utf8 input))).take 32)
  | _ => .error "The \"data\" argument must be of type string"

def verifyIdentity (hash : NodeHash) (input identity_id : Option Json) :
    Except String Bool := do
  let id ← generateIdentity hash input
  return some (.str id) = identity_id

/-- `generateKeypair`, from a random seed -/
def generateKeypair (node : NodeSign) (seed : Bytes) : Except String Json := do
  let privateKey ← node.createPrivateKey (pkcs8Prefix ++ seed)
  return .obj
    [(js "public_key", .str (Base64.encode (node.exportSpki (node.publicKeyOf privateKey)))),
      (js "private_key", .str (Base64.encode (pkcs8Prefix ++ seed)))]

/-! ## The server -/

/-- `keys/node.json`, as the server has read it -/
structure LoadedKeys where
  nodeKeys : NodeKeys
  nodeId : Option Json

/-- The file of `generateNodeKeysIfMissing` -/
def loadKeys (keys : KeyFile) : LoadedKeys where
  nodeKeys := ⟨some keys.ed25519_private, some keys.ed25519_public⟩
  nodeId := some (.str keys.node_id)

/-- What a request draws: the seed of a key pair, and the nonce and the time of a
packet. -/
structure Draw where
  seed : Bytes
  random : Bytes
  now : ℕ

/-- `POST /generate-id` -/
def generateId (hash : NodeHash) (payload : Option Json) : Response :=
  match generateIdentity hash (member payload "input") with
  | .ok id => { status := 200, body := .obj [(js "identity_id", .str id)] }
  | .error _ => .error 400 "Invalid request"

/-- `POST /verify-id` -/
def verifyId (hash : NodeHash) (payload : Option Json) : Response :=
  match verifyIdentity hash (member payload "input") (member payload "identity_id") with
  | .ok valid => { status := 200, body := .obj [(js "valid", .bool valid)] }
  | .error _ => .error 400 "Invalid request"

/-- A packet on its way to the gateway -/
def onItsWay (packet : Json) : Sent where
  port := PORTS.gateway
  req := { method := .post, url := js "/metadata/generate", body := .json packet }

/-- The signed payload, for the gateway -/
def signedRequest (node : NodeSign) (keys : LoadedKeys) (payload : Option Json) (draw : Draw) :
    Except String Sent := do
  let signedPacket ← signRoutingPacket node
    { nodeKeys := some keys.nodeKeys, nodeId := keys.nodeId, payload } (.ofNat draw.now)
    draw.random
  proxyRequest PORTS.gateway (js "/metadata/generate") .post (some signedPacket.toJson)

/-- `POST /metadata-info` -/
def metadataInfo (node : NodeSign) (nodeKeys : Option LoadedKeys) (payload : Option Json)
    (draw : Draw) : Reaction :=
  match nodeKeys.filter fun keys => (keys.nodeId.filter truthy).isSome with
  | none => .answers (.error 500 "Node keys not loaded")
  | some keys =>
    match signedRequest node keys payload draw with
    | .ok sent => .asks sent
    | .error _ => .answers (.error 400 "Invalid request")

/-- A route that reads the body. -/
def readBody (node : NodeSign) (coerce : Coercions) (ctx : Context) (body : Body)
    (route : Option Json → Reaction) : Reaction :=
  match parseRequestBodyWithCrypto node coerce ctx body with
  | .error _ => .ends
  | .ok (.answered response) => .answers response
  | .ok (.payload payload _) => route payload

/-- The server of the identity service. -/
def handle (P : Gateway.Platform) (ctx : Context) (nodeKeys : Option LoadedKeys) (draw : Draw)
    (req : Request) : Reaction :=
  if req.method = .get ∧ req.url = js "/health" then
    .answers { status := 200, body := .obj [(js "status", .str (js "ok"))] }
  else if req.method = .post ∧ req.url = js "/generate" then
    match generateKeypair P.node draw.seed with
    | .ok keypair => .answers { status := 200, body := keypair }
    | .error _ => .answers (.error 500 "Key generation failed")
  else if req.method = .post ∧ req.url = js "/generate-id" then
    readBody P.node P.coerce ctx req.body fun payload => .answers (generateId P.hash payload)
  else if req.method = .post ∧ req.url = js "/verify-id" then
    readBody P.node P.coerce ctx req.body fun payload => .answers (verifyId P.hash payload)
  else if req.method = .post ∧ req.url = js "/metadata-info" then
    readBody P.node P.coerce ctx req.body fun payload =>
      metadataInfo P.node nodeKeys payload draw
  else .answers (.error 404 "Not found")

/-- What the server makes of the reply to its packet: `{ status, body }`. -/
def informReply (r : Reply) : Reply :=
  match proxyReply r with
  | .answered status body =>
    .answered 200 (some (.obj ([(js "status", .num (.ofNat status))]
      ++ (body.map fun v => (js "body", v)).toList)))
  | other => other

/-- What the metadata service replies, and nobody else. -/
def metadataService (P : Gateway.Platform) (ctx : Context) (store : ProtoObject) (port : ℕ)
    (req : Request) : Reply :=
  if port = PORTS.metadata then
    match (Metadata.handle P.hash P.engine P.node P.coerce ctx store req).2 with
    | some response => .answered response.status (some response.body)
    | none => .failed (js "socket hang up")
  else .failed (js "connect ECONNREFUSED")

/-- What a client of the identity service gets. -/
inductive Gets (c : Cluster) (services : ℕ → Request → Reply) : Reaction → Reply → Prop
  | answers (r : Response) : Gets c services (.answers r) (.answered r.status (some r.body))
  | ends : Gets c services .ends (.failed c.hangup)
  | asks {sent : Sent} {a : Reply} (hget : c.Gets services sent a) :
    Gets c services (.asks sent) (informReply a)

/-! ## The keys of a node -/

section Keys

variable {node : NodeSign} {serviceName : JsString} {seed random : Bytes} {keys : KeyFile}

/-- What the texts in a new key file stand for. -/
theorem exists_key (hkeys : generateNodeKeys node serviceName seed random = .ok keys) :
    ∃ key, node.createPrivateKey (Base64.decode keys.ed25519_private) = .ok key ∧
      keys.ed25519_public = Base64.encode (node.exportSpki (node.publicKeyOf key)) := by
  obtain ⟨key, hkey, h⟩ := bind_eq_ok.mp hkeys
  obtain rfl := Except.ok.inj h
  refine ⟨key, ?_, rfl⟩
  rw [Base64.decode_encode]
  exact hkey

theorem keys_ne_nil (hnode : node.Lawful)
    (hkeys : generateNodeKeys node serviceName seed random = .ok keys) :
    keys.node_id ≠ [] ∧ keys.ed25519_private ≠ [] ∧ keys.ed25519_public ≠ [] := by
  obtain ⟨key, -, h⟩ := bind_eq_ok.mp hkeys
  obtain rfl := Except.ok.inj h
  obtain ⟨raw, -, hexport⟩ := hnode.exportSpki_eq (node.publicKeyOf key)
  refine ⟨List.append_ne_nil_of_left_ne_nil
    (List.append_ne_nil_of_right_ne_nil _ (by decide)) _,
    Base64.encode_ne_nil (List.append_ne_nil_of_left_ne_nil (by decide) _), ?_⟩
  · show Base64.encode (node.exportSpki (node.publicKeyOf key)) ≠ []
    rw [hexport]
    exact Base64.encode_ne_nil (List.append_ne_nil_of_left_ne_nil (by decide) _)

/-- A call that signs with the key of the file, in the name of its node -/
structure OwnCall (node : NodeSign) (keys : KeyFile) (key : node.PrivateKey) (c : SignCall) :
    Prop where
  made : c.Made node
  node_id : c.params.nodeId = some (.str keys.node_id)
  node_id_ne : keys.node_id ≠ []
  announced : keys.ed25519_public = Base64.encode (node.exportSpki (node.publicKeyOf key))
  signature : c.packet.signature
    = Base64.encode (node.sign (buildSigningPayload c.packet.signed) key)

theorem OwnCall.sign_ne {key : node.PrivateKey} {c : SignCall} (hnode : node.Lawful) :
    node.sign (buildSigningPayload c.packet.signed) key ≠ [] := by
  intro hnil
  have hlength := hnode.sign_length (buildSigningPayload c.packet.signed) key
  rw [hnil] at hlength
  cases hlength

theorem OwnCall.signature_ne {key : node.PrivateKey} {c : SignCall}
    (h : OwnCall node keys key c) (hnode : node.Lawful) : c.packet.signature ≠ [] := by
  rw [h.signature]
  exact Base64.encode_ne_nil (OwnCall.sign_ne hnode)

/-- With a new key file, every payload is signed. -/
theorem exists_signed (hnode : node.Lawful)
    (hkeys : generateNodeKeys node serviceName seed random = .ok keys) (payload : Option Json)
    {draw : Draw} (hrandom : draw.random.length = 8) :
    ∃ key c, OwnCall node keys key c ∧ c.packet.payload = payload ∧ c.now = .ofNat draw.now ∧
      signedRequest node (loadKeys keys) payload draw = .ok (onItsWay c.packet.toJson) := by
  obtain ⟨key, hkey, hpublic⟩ := exists_key hkeys
  obtain ⟨hid, hprivate_ne, hpublic_ne⟩ := keys_ne_nil hnode hkeys
  let params : SignParams :=
    { nodeKeys := some (loadKeys keys).nodeKeys, nodeId := (loadKeys keys).nodeId, payload }
  have hsigned := @signRoutingPacket_ok node params _ _ key rfl hprivate_ne hpublic_ne hkey
    (.ofNat draw.now) draw.random
  exact ⟨key, ⟨params, _, _, _⟩, ⟨⟨hrandom, hsigned⟩, rfl, hid, hpublic, rfl⟩, rfl, rfl,
    bind_of_ok hsigned _⟩

end Keys

/-! ## What the gateway makes of the packet -/

section Verdicts

variable {node : NodeSign} {coerce : Coercions} {c : SignCall} {node_id : JsString}

/-- The clocks are more than five minutes apart. -/
def Stale (clock now : ℕ) : Prop := 300000 < |(clock : ℚ) - now|

instance (clock now : ℕ) : Decidable (Stale clock now) :=
  inferInstanceAs (Decidable ((300000 : ℚ) < _))

/-- Why a packet is rejected that comes too late, or from a node that is not known. -/
def refusal (clock now : ℕ) : String :=
  if Stale clock now then "ts-skew" else "unknown-node"

theorem verifyRoutingPacket_refused (hmade : c.Made node)
    (hid : c.params.nodeId = some (.str node_id)) (hne : node_id ≠ [])
    (hsig : c.packet.signature ≠ []) {clock now : ℕ} (hnow : c.now = .ofNat now)
    {getPublicKeyByNodeId : JsString → Option Bytes}
    (hrefused : Stale clock now ∨ getPublicKeyByNodeId node_id = none) :
    verifyRoutingPacket node
        { packet := c.packet.toJson, getPublicKeyByNodeId
          maxSkewSec := some (Number.ofNat 300) } (Number.ofNat clock)
      = .ok (.rejected (refusal clock now)) := by
  have hfields := @SignCall.Made.fields_of_same node c hmade c.packet.toJson
    (by rw [signedFields_toJson]; rfl)
  have hskew : |(Number.ofNat clock).value - c.now.value|
        > ((some (Number.ofNat 300)).getD (Number.ofNat 300)).value * 1000
      ↔ Stale clock now := by
    rw [hnow, Stale]
    norm_num
  unfold verifyRoutingPacket
  simp only [hfields.version, hfields.node_id.mpr hid, hfields.ts, hfields.nonce,
    field_signature_toJson, hskew]
  rw [if_neg (not_not.mpr rfl), if_neg hne, if_neg hfields.nonce_ne, if_neg hsig]
  unfold refusal
  by_cases hstale : Stale clock now
  · rw [if_pos hstale, if_pos hstale]
    rfl
  · rw [if_neg hstale, if_neg hstale, hrefused.resolve_left hstale]
    rfl

/-- Packets that come too late, and those of a node that is not known, are rejected. -/
theorem verifyPacket_refused (hmade : c.Made node)
    (hid : c.params.nodeId = some (.str node_id)) (hne : node_id ≠ [])
    (hsig : c.packet.signature ≠ []) {ctx : Context} {now : ℕ} (hnow : c.now = .ofNat now)
    (hrefused : Stale ctx.clock now ∨ ctx.knownNodes.get node_id = none) :
    verifyPacket node coerce ctx c.packet.toJson
      = .ok (.rejected (refusal ctx.clock now)) := by
  have hlookup : ctx.knownNodes.get node_id = none →
      getPublicKeyByNodeId coerce ctx.knownNodes node_id = .ok none := by
    intro hunknown
    unfold getPublicKeyByNodeId
    rw [hunknown]
    rfl
  have hverdict := @verifyRoutingPacket_refused node c node_id hmade hid hne hsig ctx.clock now
    hnow (fun nodeId => (getPublicKeyByNodeId coerce ctx.knownNodes nodeId).toOption.join)
    (hrefused.imp_right fun h => by rw [hlookup h]; rfl)
  have hfields := @SignCall.Made.fields_of_same node c hmade c.packet.toJson
    (by rw [signedFields_toJson]; rfl)
  unfold verifyPacket
  dsimp only
  rw [hverdict, hfields.node_id.mpr hid]
  unfold refusal
  split_ifs with hstale
  · rfl
  · exact bind_of_ok (hlookup (hrefused.resolve_left hstale)) _

end Verdicts

/-! ## What comes back -/

section Replies

variable {c : Cluster} {services : ℕ → Request → Reply}

/-- A proxy that answers itself. -/
theorem gets_answers {s : Sent} (h : s.Arrives c.parser) (hport : IsProxy s.port) {r : Response}
    (hreaction : c.reaction s = .answers r) (a : Reply) :
    c.Gets services s a ↔ a = .answered r.status (some r.body) := by
  constructor
  · intro hget
    cases hget with
    | unread hno => exact absurd h hno
    | service _ hno => exact absurd hport hno
    | answers _ _ hother =>
      obtain rfl := Reaction.answers.inj (hreaction.symm.trans hother)
      rfl
    | ends _ _ hother => cases hreaction.symm.trans hother
    | relays _ _ hother => cases hreaction.symm.trans hother
  · rintro rfl
    exact .answers h hport hreaction

/-- A proxy that asks a service. -/
theorem gets_relays {s t : Sent} (h : s.Arrives c.parser) (hport : IsProxy s.port)
    (hreaction : c.reaction s = .asks t) (ht : t.Arrives c.parser) (hservice : ¬ IsProxy t.port)
    (a : Reply) :
    c.Gets services s a ↔ a = relay s.port (services t.port t.req) := by
  constructor
  · intro hget
    cases hget with
    | unread hno => exact absurd h hno
    | service _ hno => exact absurd hport hno
    | answers _ _ hother => cases hreaction.symm.trans hother
    | ends _ _ hother => cases hreaction.symm.trans hother
    | relays _ _ hother hget =>
      obtain rfl := Reaction.asks.inj (hreaction.symm.trans hother)
      rw [gets_service hservice ht _ hget]
  · rintro rfl
    exact .relays h hport hreaction (.service ht hservice)

/-- What the client gets from a server that asks. -/
theorem gets_asks {sent : Sent} {b : Reply} (h : ∀ a, c.Gets services sent a ↔ a = b)
    (a : Reply) : Gets c services (.asks sent) a ↔ a = informReply b := by
  constructor
  · intro hget
    cases hget with
    | asks hget => rw [(h _).mp hget]
  · rintro rfl
    exact .asks ((h _).mpr rfl)

/-- A reply is read once and for all. -/
theorem proxyReply_proxyReply (r : Reply) : proxyReply (proxyReply r) = proxyReply r := by
  cases r with
  | answered status body => cases body <;> rfl
  | failed detail => rfl
  | silent => rfl

theorem informReply_relay (r : Reply) :
    informReply (relay PORTS.gateway r) = informReply r := by
  show informReply (proxyReply r) = informReply r
  unfold informReply
  rw [proxyReply_proxyReply]

end Replies

/-! ## The whole way -/

section Way

variable {c : Cluster} {serviceName : JsString} {seed random : Bytes} {keys : KeyFile}

/-- What the metadata service is to get -/
def bare (payload : Option Json) : Sent where
  port := PORTS.metadata
  req := { method := .post, url := js "/generate", body := bodyOf payload }

/-- Nobody announces another key for the node. -/
def OwnKeyOnly (engine : Engine) (events : List Event) (keys : KeyFile) : Prop :=
  ∀ data public_key, .datagram data ∈ events → Announces engine data keys.node_id public_key →
    public_key = .str keys.ed25519_public

/-- The proxy asks what `verifyPacket` says. -/
theorem reaction_onItsWay {packet : Json}
    (hversion : field packet "version" = some (.str routingVersion)) :
    c.reaction (onItsWay packet) = match verifyPacket c.P.node c.P.coerce c.gateway packet with
      | .ok (.accepted _ payload) => .asks (bare payload)
      | .ok (.rejected reason) => .answers (.error 403 reason)
      | .error _ => .ends := by
  have hroute : _ = proxy c.P c.gateway Target.metadata.port (js "/generate") .post
      (.json packet) := handleGateway_route _ _ _
  refine (reaction_gateway rfl).trans (hroute.trans ?_)
  unfold proxy
  dsimp only
  rw [if_pos hversion]
  rfl

/-- **What the gateway makes of the packet.** -/
theorem verifyPacket_own (hnode : c.P.node.Lawful) {key : c.P.node.PrivateKey} {call : SignCall}
    (hcall : OwnCall c.P.node keys key call) {now : ℕ} (hnow : call.now = .ofNat now)
    {events : List Event} {w : World} (hrun : Run (Step c.P.engine) .initial events w)
    (hown : OwnKeyOnly c.P.engine events keys) (hcopied : c.gateway.knownNodes = w.knownNodes) :
    verifyPacket c.P.node c.P.coerce c.gateway call.packet.toJson
      = .ok (if Stale c.gateway.clock now ∨ w.knownNodes.get keys.node_id = none then
          .rejected (refusal c.gateway.clock now)
        else .accepted keys.node_id call.packet.payload) := by
  split_ifs with hrefused
  · rw [← hcopied] at hrefused
    exact verifyPacket_refused hcall.made hcall.node_id hcall.node_id_ne
      (hcall.signature_ne hnode) hnow hrefused
  · obtain ⟨hfresh, hknown⟩ := not_or.mp hrefused
    obtain ⟨entry, hentry⟩ := Option.ne_none_iff_exists'.mp hknown
    obtain ⟨data, public_key, hdata, hpresent, hannounces⟩ :=
      (announced_of_run hrun).knownNodes _ _ hentry
    rw [hown data public_key hdata hannounces, hcall.announced] at hpresent
    rw [← hcopied] at hentry
    have hsigned : SignedFor c.P.node c.P.coerce call c.gateway call.packet.toJson :=
      signedFor_toJson hcall.node_id hcall.node_id_ne hentry hpresent
        (hnode.createPublicKey_export _) hcall.signature (OwnCall.sign_ne hnode)
        (hnode.verify_sign _ _)
    have hsame : (signedFields call.packet.toJson).Same call.packet.signed := by
      rw [signedFields_toJson]
      rfl
    have hskew : |(c.gateway.clock : ℚ) - call.now.value| ≤ 300000 := by
      rw [hnow]
      simpa [Stale] using hfresh
    obtain ⟨node_id, payload, haccepted⟩ :=
      (verifyPacket_copy_iff hcall.made hsame).mpr ⟨hsigned, hskew⟩
    obtain ⟨-, hid, -, hpayload, -⟩ :=
      verifyRoutingPacket_accepted_iff.mp (verifyPacket_accepted_iff.mp haccepted)
    have hnamed := (hcall.made.fields_of_same hsame).node_id.mp hid
    obtain rfl : keys.node_id = node_id := by
      simpa using hcall.node_id.symm.trans hnamed
    rw [haccepted, hpayload]
    have hfield : field call.packet.toJson "payload" = call.packet.payload :=
      congrArg Signed.payload (signedFields_toJson call.packet)
    rw [hfield]

theorem arrives_onItsWay (parser : HttpParser) (packet : Json) :
    (onItsWay packet).Arrives parser :=
  ⟨requestable_of_ascii parser (by decide : (js "/metadata/generate").all _ = true), .inl rfl⟩

theorem arrives_bare (parser : HttpParser) (payload : Option Json) :
    (bare payload).Arrives parser :=
  ⟨requestable_of_ascii parser (by decide : (js "/generate").all _ = true), .inl rfl⟩

/-- Where the request can be signed, the gateway is asked. -/
theorem handle_signed {P : Gateway.Platform} {ctx : Context} {body : Body}
    {payload : Option Json} {crypto : Bool}
    (hparse : parseRequestBodyWithCrypto P.node P.coerce ctx body = .ok (.payload payload crypto))
    (hid : keys.node_id ≠ []) {draw : Draw} {sent : Sent}
    (hrequest : signedRequest P.node (loadKeys keys) payload draw = .ok sent) :
    handle P ctx (some (loadKeys keys)) draw
        { method := .post, url := js "/metadata-info", body }
      = .asks sent := by
  have hroute : handle P ctx (some (loadKeys keys)) draw
      { method := .post, url := js "/metadata-info", body }
      = readBody P.node P.coerce ctx body fun payload =>
        metadataInfo P.node (some (loadKeys keys)) payload draw := rfl
  have hloaded : ((loadKeys keys).nodeId.filter truthy).isSome = true := by
    show ((some (Json.str keys.node_id)).filter truthy).isSome = true
    simpa [truthy] using hid
  rw [hroute, readBody, hparse]
  dsimp only
  rw [metadataInfo, Option.filter_some, if_pos hloaded]
  dsimp only
  rw [hrequest]

/-- **A signed request gets through.**  A node whose key nobody else announces asks for a
proof.  The client gets what the metadata service replies to the payload alone, unless
the clocks are more than five minutes apart or the gateway has not yet copied the key:
then it gets the reason. -/
theorem metadata_info_answered (hnode : c.P.node.Lawful)
    (hkeys : generateNodeKeys c.P.node serviceName seed random = .ok keys)
    {events : List Event} {w : World} (hrun : Run (Step c.P.engine) .initial events w)
    (hown : OwnKeyOnly c.P.engine events keys) (hcopied : c.gateway.knownNodes = w.knownNodes)
    {ctx : Context} {body : Body} {payload : Option Json} {crypto : Bool}
    (hparse : parseRequestBodyWithCrypto c.P.node c.P.coerce ctx body
      = .ok (.payload payload crypto))
    {draw : Draw} (hrandom : draw.random.length = 8) (services : ℕ → Request → Reply)
    (a : Reply) :
    Gets c services (handle c.P ctx (some (loadKeys keys)) draw
        { method := .post, url := js "/metadata-info", body }) a ↔
      a = informReply (
        if Stale c.gateway.clock draw.now ∨ w.knownNodes.get keys.node_id = none then
          .answered 403 (some (.obj [(js "error",
            .str (js (refusal c.gateway.clock draw.now)))]))
        else services PORTS.metadata
          { method := .post, url := js "/generate", body := bodyOf payload }) := by
  obtain ⟨key, call, hcall, hpayload, hnow, hrequest⟩ :=
    exists_signed hnode hkeys payload hrandom
  have hversion : field call.packet.toJson "version" = some (.str routingVersion) :=
    (hcall.made.fields_of_same (by rw [signedFields_toJson]; rfl)).version
  have hreaction := reaction_onItsWay (c := c) hversion
  rw [verifyPacket_own hnode hcall hnow hrun hown hcopied, hpayload] at hreaction
  rw [handle_signed hparse hcall.node_id_ne hrequest]
  by_cases hrefused : Stale c.gateway.clock draw.now ∨ w.knownNodes.get keys.node_id = none
  · rw [if_pos hrefused] at hreaction ⊢
    exact gets_asks (gets_answers (arrives_onItsWay _ _) (.inl rfl) hreaction) a
  · rw [if_neg hrefused] at hreaction ⊢
    rw [← informReply_relay]
    exact gets_asks (gets_relays (arrives_onItsWay _ _) (.inl rfl) hreaction (arrives_bare _ _)
      (by decide : ¬ IsProxy PORTS.metadata)) a

/-! ## A known proof -/

def knownMetadata : Json := .obj [(js "doc", .str (js "contract")), (js "version", .num (.ofNat 1))]

def knownPayload : Json := .obj [(js "metadata", knownMetadata)]

def knownDraw : Draw := { seed := [], random := [0, 1, 2, 3, 4, 5, 6, 7], now := 1700000000000 }

/-- What the discovery service signs. -/
def knownSigned : Signed :=
  { version := some (.str routingVersion), node_id := some (.str Gateway.fileNodeId)
    ts := some (.num (.ofNat 1700000000000)), nonce := some (.str (toHex knownDraw.random))
    payload := some knownPayload }

/-- The Ed25519 signature of its text. -/
def knownSignature : { s : Bytes // s.length = 64 } :=
  ⟨Tabulated.hex 32 0xe6191aef10d05445d90f60852fec7a653587f476eaec3dff5c8f66da0fbcd4aa ++
    Tabulated.hex 32 0x537a00431361b63347a75e2c817954a1bdb9ac6d5f68f086ab23bc9f59539002, by simp⟩

def knownDigest : Bytes :=
  Tabulated.hex 32 0x3c5ab136f4280e7d0f5345b268ccd8ef5deee696c0b0674bd2716f5b2a0ae7b5

/-- The platform that makes that signature and the digest of the known metadata. -/
def knownPlatform : Gateway.Platform :=
  { Gateway.filePlatform with
    hash := Tabulated.hash [(utf8 (stringify knownMetadata), knownDigest)] [] []
    node := Tabulated.sign [(Gateway.fileSeed, Gateway.fileKey)]
      [((buildSigningPayload knownSigned, Gateway.fileKey), knownSignature)] }

/-- The gateway and the routing service know the discovery service. -/
def knownCluster : Cluster where
  P := knownPlatform
  parser := knownParser
  hangup := js "socket hang up"
  gateway := Gateway.fileContext
  routing := Gateway.fileContext

theorem knownKeys_generated :
    generateNodeKeys knownPlatform.node (js "discovery") Gateway.fileSeed.1
        [0x37, 0xd1, 0x58, 0x5a] = .ok Gateway.fileKeys := by
  have hpublic : knownPlatform.node.publicKeyOf Gateway.fileSeed = Gateway.fileKey := by
    simp [knownPlatform, Tabulated.sign, Tabulated.lookupD]
  have hprivate : knownPlatform.node.createPrivateKey (pkcs8Prefix ++ Gateway.fileSeed.1)
      = .ok Gateway.fileSeed := Tabulated.parseDer_append pkcs8Prefix Gateway.fileSeed
  unfold generateNodeKeys
  rw [bind_of_ok hprivate, hpublic]
  rfl

def knownAnnouncement : Json :=
  announcement Gateway.fileNodeId Gateway.fileKeys.ed25519_public (js "discovery")

theorem run_known :
    Run (Step .plain) .initial
      [.datagram knownAnnouncement, .answer, .refresh Gateway.fileContext.knownNodes]
      { announced := Gateway.fileContext.knownNodes, answers := [Gateway.fileContext.knownNodes]
        knownNodes := Gateway.fileContext.knownNodes } :=
  .cons (.datagram _ _) (.cons (.answer _) (.single (.refresh _ List.mem_cons_self)))

theorem ownKeyOnly_known :
    OwnKeyOnly .plain
      [.datagram knownAnnouncement, .answer, .refresh Gateway.fileContext.knownNodes]
      Gateway.fileKeys := by
  intro data public_key hdata hannounces
  obtain rfl : data = knownAnnouncement := by simpa using hdata
  obtain ⟨-, -, -, hkey, -⟩ := hannounces
  exact (Option.some.inj hkey).symm

/-- The proof for the known metadata comes back, 100 s later. -/
theorem metadata_info_answered_known :
    Gets knownCluster (metadataService knownPlatform Gateway.fileContext .empty)
      (handle knownPlatform Gateway.fileContext (some (loadKeys Gateway.fileKeys)) knownDraw
        { method := .post, url := js "/metadata-info", body := .json knownPayload })
      (.answered 200 (some (.obj [(js "status", .num (.ofNat 200)),
        (js "body", .obj [(js "proof_id", .str (toHex knownDigest))])]))) := by
  have hcopied : Gateway.fileContext.knownNodes.get Gateway.fileKeys.node_id
      = some (nodeEntry knownAnnouncement (.str Gateway.fileKeys.ed25519_public)
        (.str (js "discovery"))) := rfl
  have haccepted : ¬ (Stale knownCluster.gateway.clock knownDraw.now ∨
      Gateway.fileContext.knownNodes.get Gateway.fileKeys.node_id = none) := by
    rw [hcopied]
    refine not_or.mpr ⟨?_, Option.some_ne_none _⟩
    norm_num [Stale, knownCluster, Gateway.fileContext, knownDraw]
  have hdigest : knownPlatform.hash.sha256 (utf8 (stringify knownMetadata)) = knownDigest := by
    simp [knownPlatform, Tabulated.hash, Tabulated.lookupD]
  have hproof : metadataService knownPlatform Gateway.fileContext .empty PORTS.metadata
      { method := .post, url := js "/generate", body := bodyOf (some knownPayload) }
      = .answered 200 (some (.obj [(js "proof_id", .str (toHex knownDigest))])) := by
    rw [← hdigest]
    rfl
  have hplain : field knownPayload "version" ≠ some (.str routingVersion) := by
    show (none : Option Json) ≠ _
    exact (Option.some_ne_none _).symm
  refine (metadata_info_answered (c := knownCluster) (Tabulated.lawful_sign _ _)
    knownKeys_generated run_known ownKeyOnly_known rfl (parse_plain hplain) rfl _ _).mpr ?_
  exact (congrArg informReply ((if_neg haccepted).trans hproof)).symm

end Way

end NewZone.Services.Identity
