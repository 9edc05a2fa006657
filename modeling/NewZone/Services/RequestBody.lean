import NewZone.Crypto.RoutingPacket
import NewZone.Services.TrustStore

/-!
# Request bodies

`parseRequestBodyWithCrypto`, which the services share: a body that is a routing
packet is verified and replaced by its payload, any other JSON is taken as it
is.  The copies differ in what they return beside the payload; `crypto` is what
the replication server asks for.

The key that a node has announced is read by the verification, and nobody catches
the exception if it cannot be read.  The rejection then ends the process: the
request is not answered, what the server has in memory is lost, and no later
request is answered either.  `fatal_iff` says which bodies do that.
-/

namespace NewZone.Services

open NewZone.Js NewZone.Js.Json NewZone.ExceptBind NewZone.Crypto
open NewZone.Crypto.SignedPacket (Coercions)
open NewZone.Crypto.RoutingPacket (Verdict verifyRoutingPacket routingVersion Presents
  verifyRoutingPacket_accepted_iff verifyRoutingPacket_of_presents exists_presents
  presents_of_unknown verifyRoutingPacket_of_unknown)

/-- The body of a request: none, a text that is no JSON, or a value. -/
inductive Body where
  | empty
  | invalid
  | json (v : Json)

inductive Method where
  | get
  | post
  | other
  deriving DecidableEq

structure Request where
  method : Method
  url : JsString
  body : Body

/-- What a service knows when a request comes: its copy of the announced nodes,
and the time. -/
structure Context where
  knownNodes : PlainObject Json
  clock : ℕ

/-- What a server answers. -/
structure Response where
  status : ℕ
  body : Json

/-- `{ error }` -/
def Response.error (status : ℕ) (error : String) : Response :=
  { status, body := .obj [(js "error", .str (js error))] }

/-- What the parser resolves to: `{ ok: false }` after it has answered itself,
or the payload. -/
inductive Parsed where
  | answered (response : Response)
  | payload (payload : Option Json) (crypto : Bool)

/-- `verifyRoutingPacket` as the services call it, with a lookup that may throw
where the packet gets to it. -/
def verifyPacket (node : NodeSign) (coerce : Coercions) (ctx : Context)
    (packet : Json) : Except String Verdict :=
  let lookup := getPublicKeyByNodeId coerce ctx.knownNodes
  let verdict := verifyRoutingPacket node
    { packet
      getPublicKeyByNodeId := fun nodeId => (lookup nodeId).toOption.join
      maxSkewSec := some (Number.ofNat 300) }
    (Number.ofNat ctx.clock)
  match verdict, field packet "node_id" with
  | .ok (.rejected "unknown-node"), some (.str nodeId) => do
    let _ ← lookup nodeId
    return .rejected "unknown-node"
  | _, _ => verdict

def parseRequestBodyWithCrypto (node : NodeSign) (coerce : Coercions)
    (ctx : Context) : Body → Except String Parsed
  | .empty => .ok (.payload (some .null) false)
  | .invalid => .ok (.answered (.error 400 "Invalid JSON"))
  | .json parsed =>
    if field parsed "version" = some (.str routingVersion) then do
      match ← verifyPacket node coerce ctx parsed with
      | .accepted _ payload => return .payload payload true
      | .rejected reason => return .answered (.error 403 reason)
    else .ok (.payload (some parsed) false)

/-- A request, and what the server knows when it comes. -/
structure Arrival where
  ctx : Context
  req : Request

/-- A route that reads the body.  Without an answer the process has ended, and the state
is what was lost with it. -/
def withBody {σ : Type} (node : NodeSign) (coerce : Coercions) (ctx : Context)
    (state : σ) (body : Body) (route : Option Json → σ × Response) :
    σ × Option Response :=
  match parseRequestBodyWithCrypto node coerce ctx body with
  | .error _ => (state, none)
  | .ok (.answered response) => (state, some response)
  | .ok (.payload payload _) =>
    let (state, response) := route payload
    (state, some response)

/-- A body that ends the process. -/
def Fatal (node : NodeSign) (coerce : Coercions) (ctx : Context) (body : Body) : Prop :=
  ∃ e, parseRequestBodyWithCrypto node coerce ctx body = .error e

/-- `(payload || {})[name]` -/
def member (payload : Option Json) (name : String) : Option Json :=
  payload.bind fun v => field v name

/-! ## What is resolved -/

variable {node : NodeSign} {coerce : Coercions} {ctx : Context}

/-- A packet is accepted when `verifyRoutingPacket` accepts it with the key of
the trust store. -/
theorem verifyPacket_accepted_iff {packet : Json} {node_id : JsString}
    {payload : Option Json} :
    verifyPacket node coerce ctx packet = .ok (.accepted node_id payload) ↔
      verifyRoutingPacket node
        { packet
          getPublicKeyByNodeId := fun nodeId =>
            (getPublicKeyByNodeId coerce ctx.knownNodes nodeId).toOption.join
          maxSkewSec := some (Number.ofNat 300) }
        (Number.ofNat ctx.clock) = .ok (.accepted node_id payload) := by
  unfold verifyPacket
  dsimp only
  split
  · rename_i h _
    rw [h]
    constructor
    · intro h
      obtain ⟨_, _, h⟩ := bind_eq_ok.mp h
      cases h
    · intro h
      cases h
  · rfl

/-- A body that is no packet is taken as it is. -/
theorem parse_plain {v : Json}
    (h : field v "version" ≠ some (.str routingVersion)) :
    parseRequestBodyWithCrypto node coerce ctx (.json v)
      = .ok (.payload (some v) false) := by
  rw [parseRequestBodyWithCrypto, if_neg h]

/-- The parser answers refusals only. -/
theorem status_of_parse {body : Body} {response : Response}
    (h : parseRequestBodyWithCrypto node coerce ctx body = .ok (.answered response)) :
    response.status ≠ 200 := by
  cases body with
  | empty => cases h
  | invalid =>
    cases h
    nofun
  | json packet =>
    rw [parseRequestBodyWithCrypto] at h
    split_ifs at h
    · obtain ⟨verdict, -, h⟩ := bind_eq_ok.mp h
      cases verdict with
      | accepted node_id payload => cases h
      | rejected reason =>
        cases h
        nofun
    · cases h

/-- Only a packet that is accepted gives a payload with `crypto`. -/
theorem parse_crypto_iff {body : Body} {payload : Option Json} :
    parseRequestBodyWithCrypto node coerce ctx body
        = .ok (.payload payload true) ↔
      ∃ packet node_id, body = .json packet ∧
        verifyPacket node coerce ctx packet
          = .ok (.accepted node_id payload) := by
  constructor
  · intro h
    cases body with
    | empty => cases h
    | invalid => cases h
    | json packet =>
      rw [parseRequestBodyWithCrypto] at h
      split_ifs at h
      · obtain ⟨verdict, hverdict, h⟩ := bind_eq_ok.mp h
        cases verdict with
        | accepted node_id payload' =>
          cases h
          exact ⟨packet, node_id, rfl, hverdict⟩
        | rejected reason => cases h
      · cases h
  · rintro ⟨packet, node_id, rfl, h⟩
    have hversion :=
      (verifyRoutingPacket_accepted_iff.mp (verifyPacket_accepted_iff.mp h)).1
    rw [parseRequestBodyWithCrypto, if_pos hversion]
    exact bind_of_ok h _

/-- A packet that is accepted gives its own payload. -/
theorem payload_of_accepted {packet : Json} {node_id : JsString} {payload : Option Json}
    (h : verifyPacket node coerce ctx packet = .ok (.accepted node_id payload)) :
    payload = field packet "payload" := by
  obtain ⟨-, -, -, hpayload, -⟩ :=
    verifyRoutingPacket_accepted_iff.mp (verifyPacket_accepted_iff.mp h)
  exact hpayload

/-- A packet that gives a payload has been accepted. -/
theorem accepted_of_packet {packet : Json} {payload : Option Json} {crypto : Bool}
    (hversion : field packet "version" = some (.str routingVersion))
    (h : parseRequestBodyWithCrypto node coerce ctx (.json packet)
      = .ok (.payload payload crypto)) :
    ∃ node_id, verifyPacket node coerce ctx packet = .ok (.accepted node_id payload) := by
  rw [parseRequestBodyWithCrypto, if_pos hversion] at h
  obtain ⟨verdict, hverdict, h⟩ := bind_eq_ok.mp h
  cases verdict with
  | rejected reason => cases h
  | accepted node_id payload' =>
    cases h
    exact ⟨node_id, hverdict⟩

/-! ## What is routed -/

variable {σ : Type} {state state' : σ} {body : Body} {route : Option Json → σ × Response}

theorem withBody_of_payload {payload : Option Json} {crypto : Bool}
    (h : parseRequestBodyWithCrypto node coerce ctx body = .ok (.payload payload crypto)) :
    withBody node coerce ctx state body route
      = ((route payload).1, some (route payload).2) := by
  unfold withBody
  rw [h]

/-- What is answered 200 has been answered by the route. -/
theorem withBody_ok_iff {response : Response} :
    withBody node coerce ctx state body route = (state', some response) ∧
        response.status = 200 ↔
      ∃ payload crypto,
        parseRequestBodyWithCrypto node coerce ctx body = .ok (.payload payload crypto) ∧
        route payload = (state', response) ∧ response.status = 200 := by
  constructor
  · rintro ⟨h, hstatus⟩
    unfold withBody at h
    split at h
    · cases h
    · rename_i refusal hparse
      obtain rfl := Option.some.inj (Prod.mk.inj h).2
      exact absurd hstatus (status_of_parse hparse)
    · rename_i payload crypto hparse
      obtain ⟨hstate, hresponse⟩ := Prod.mk.inj h
      exact ⟨payload, crypto, hparse, Prod.ext hstate (Option.some.inj hresponse), hstatus⟩
  · rintro ⟨payload, crypto, hparse, hroute, hstatus⟩
    rw [withBody_of_payload hparse, hroute]
    exact ⟨rfl, hstatus⟩

/-- There is no answer exactly where the body ends the process. -/
theorem withBody_eq_none_iff :
    (withBody node coerce ctx state body route).2 = none ↔ Fatal node coerce ctx body := by
  unfold withBody Fatal
  cases parseRequestBodyWithCrypto node coerce ctx body with
  | error e => exact iff_of_true rfl ⟨e, rfl⟩
  | ok parsed =>
    refine iff_of_false ?_ fun h => ?_
    · cases parsed <;> nofun
    · obtain ⟨e, he⟩ := h
      cases he

/-! ## What ends the process -/

instance decidableFatal : Decidable (Fatal node coerce ctx body) :=
  decidable_of_iff ((parseRequestBodyWithCrypto node coerce ctx body).isOk = false) <| by
    unfold Fatal
    cases parseRequestBodyWithCrypto node coerce ctx body <;> simp [Except.isOk, Except.toBool]

theorem not_fatal_plain {v : Json} (h : field v "version" ≠ some (.str routingVersion)) :
    ¬ Fatal node coerce ctx (.json v) := by
  intro hfatal
  obtain ⟨e, he⟩ := hfatal
  rw [parse_plain h] at he
  cases he

/-- A packet for the node passes every check in front of its key. -/
def ComesFrom (ctx : Context) (packet : Json) (nodeId : JsString) : Prop :=
  ∃ signature, Presents
    { packet, getPublicKeyByNodeId := fun _ => some [], maxSkewSec := some (Number.ofNat 300) }
    (Number.ofNat ctx.clock) nodeId signature []

/-- The node has announced something that cannot be read as a key. -/
def Garbled (node : NodeSign) (coerce : Coercions) (ctx : Context) (nodeId : JsString) : Prop :=
  (∃ e, getPublicKeyByNodeId coerce ctx.knownNodes nodeId = .error e) ∨
    ∃ der e, getPublicKeyByNodeId coerce ctx.knownNodes nodeId = .ok (some der) ∧
      node.createPublicKey der = .error e

theorem comesFrom_iff {packet : Json} {nodeId : JsString} {lookup : JsString → Option Bytes}
    {der : Bytes} (hder : lookup nodeId = some der) :
    ComesFrom ctx packet nodeId ↔ ∃ signature, Presents
      { packet, getPublicKeyByNodeId := lookup, maxSkewSec := some (Number.ofNat 300) }
      (Number.ofNat ctx.clock) nodeId signature der := by
  refine exists_congr fun signature => ⟨fun h => ?_, fun h => ?_⟩
  · exact ⟨h.version, h.id, h.id_ne, h.ts, h.nonce, h.signed, h.signed_ne, hder⟩
  · exact ⟨h.version, h.id, h.id_ne, h.ts, h.nonce, h.signed, h.signed_ne, rfl⟩

/-- Where the verification throws, the packet comes from a node with a garbled key. -/
theorem garbled_of_error {packet : Json} {e : String}
    (h : verifyPacket node coerce ctx packet = .error e) :
    ∃ nodeId, ComesFrom ctx packet nodeId ∧ Garbled node coerce ctx nodeId := by
  unfold verifyPacket at h
  dsimp only at h
  split at h
  · -- the lookup has thrown
    rename_i nodeId hverdict hid
    obtain ⟨_, signature, -, hpresents⟩ := presents_of_unknown hverdict
    obtain rfl := Json.str.inj (Option.some.inj (hid.symm.trans (hpresents []).id))
    refine ⟨nodeId, ⟨signature, hpresents []⟩, .inl ?_⟩
    cases hlookup : getPublicKeyByNodeId coerce ctx.knownNodes nodeId with
    | error e' => exact ⟨e', rfl⟩
    | ok found =>
      rw [hlookup] at h
      cases h
  · obtain ⟨id, signature, der, hpresents⟩ := @exists_presents node _ _ fun reason hrejected => by
      rw [hrejected] at h
      cases h
    have hlookup := toOption_join_eq_some.mp hpresents.key
    refine ⟨id, (comesFrom_iff hpresents.key).mpr ⟨signature, hpresents⟩,
      .inr ⟨der, e, hlookup, ?_⟩⟩
    rw [verifyRoutingPacket_of_presents hpresents] at h
    cases hkey : node.createPublicKey der with
    | error e' =>
      rw [hkey] at h
      exact congrArg Except.error (Except.error.inj h)
    | ok pub =>
      rw [hkey, ok_bind] at h
      split at h <;> cases h

/-- The lookup of the key throws. -/
theorem verifyPacket_of_lookup_error {packet : Json} {nodeId : JsString} {e : String}
    (hfrom : ComesFrom ctx packet nodeId)
    (hlookup : getPublicKeyByNodeId coerce ctx.knownNodes nodeId = .error e) :
    verifyPacket node coerce ctx packet = .error e := by
  obtain ⟨signature, h⟩ := hfrom
  have hnone : (getPublicKeyByNodeId coerce ctx.knownNodes nodeId).toOption.join = none := by
    rw [hlookup]
    rfl
  have hid : field packet "node_id" = some (.str nodeId) := h.id
  have hverdict := @verifyRoutingPacket_of_unknown node
    { packet
      getPublicKeyByNodeId := fun nodeId =>
        (getPublicKeyByNodeId coerce ctx.knownNodes nodeId).toOption.join
      maxSkewSec := some (Number.ofNat 300) } _ _ _ _ h hnone
  unfold verifyPacket
  dsimp only
  rw [hverdict, hid]
  show (getPublicKeyByNodeId coerce ctx.knownNodes nodeId >>= fun _ =>
    (.ok (.rejected "unknown-node") : Except String Verdict)) = _
  rw [hlookup]
  rfl

/-- The bytes that are found are no key. -/
theorem verifyPacket_of_key_error {packet : Json} {nodeId : JsString} {der : Bytes} {e : String}
    (hfrom : ComesFrom ctx packet nodeId)
    (hlookup : getPublicKeyByNodeId coerce ctx.knownNodes nodeId = .ok (some der))
    (hkey : node.createPublicKey der = .error e) :
    verifyPacket node coerce ctx packet = .error e := by
  have hkeyed := toOption_join_eq_some.mpr hlookup
  obtain ⟨signature, h⟩ := (@comesFrom_iff ctx packet nodeId (fun nodeId =>
    (getPublicKeyByNodeId coerce ctx.knownNodes nodeId).toOption.join) der hkeyed).mp hfrom
  unfold verifyPacket
  dsimp only
  rw [verifyRoutingPacket_of_presents h, hkey]
  rfl

/-- The verification throws exactly for a packet of a node with a garbled key. -/
theorem verifyPacket_error_iff {packet : Json} :
    (∃ e, verifyPacket node coerce ctx packet = .error e) ↔
      ∃ nodeId, ComesFrom ctx packet nodeId ∧ Garbled node coerce ctx nodeId := by
  constructor
  · intro h
    obtain ⟨e, he⟩ := h
    exact garbled_of_error he
  · intro h
    obtain ⟨nodeId, hfrom, ⟨e, hlookup⟩ | ⟨der, e, hlookup, hkey⟩⟩ := h
    · exact ⟨e, verifyPacket_of_lookup_error hfrom hlookup⟩
    · exact ⟨e, verifyPacket_of_key_error hfrom hlookup hkey⟩

/-- **What ends a server.**  A body ends the process exactly when it is a packet that
passes every check in front of the key of its node, and this node has announced something
that cannot be read as a key. -/
theorem fatal_iff :
    Fatal node coerce ctx body ↔ ∃ packet nodeId, body = .json packet ∧
      ComesFrom ctx packet nodeId ∧ Garbled node coerce ctx nodeId := by
  unfold Fatal
  constructor
  · intro h
    obtain ⟨e, he⟩ := h
    cases body with
    | empty => cases he
    | invalid => cases he
    | json packet =>
      rw [parseRequestBodyWithCrypto] at he
      split_ifs at he
      cases hverdict : verifyPacket node coerce ctx packet with
      | error e' =>
        obtain ⟨nodeId, hfrom, hgarbled⟩ := verifyPacket_error_iff.mp ⟨e', hverdict⟩
        exact ⟨packet, nodeId, rfl, hfrom, hgarbled⟩
      | ok verdict =>
        rw [hverdict, ok_bind] at he
        cases verdict <;> cases he
  · intro h
    obtain ⟨packet, nodeId, rfl, hfrom, hgarbled⟩ := h
    obtain ⟨e, he⟩ := verifyPacket_error_iff.mpr ⟨nodeId, hfrom, hgarbled⟩
    obtain ⟨signature, hpresents⟩ := hfrom
    refine ⟨e, ?_⟩
    rw [parseRequestBodyWithCrypto, if_pos hpresents.version, he]
    rfl

/-- A packet of node-a, which has announced one byte as its key. -/
def garbledPacket : Json :=
  .obj [(js "version", .str routingVersion), (js "node_id", .str (js "node-a")),
    (js "ts", .num (.ofNat 7)), (js "nonce", .str (js "00")),
    (js "signature", .str (js "AA=="))]

def garbledContext : Context where
  knownNodes := listen .plain .empty
    (announcement (js "node-a") (js "AQ==") (js "worker"))
  clock := 7

/-- It ends every server whose platform cannot read that byte. -/
theorem fatal_garbled {e : String} (h : node.createPublicKey [0x01] = .error e) :
    Fatal node coerce garbledContext (.json garbledPacket) := by
  refine fatal_iff.mpr ⟨garbledPacket, js "node-a", rfl, ⟨js "AA==", ?_⟩, .inr ⟨[0x01], e, rfl, h⟩⟩
  exact ⟨rfl, rfl, by decide, ⟨_, rfl, by norm_num [garbledContext]⟩, ⟨_, rfl, by decide⟩, rfl,
    by decide, rfl⟩

end NewZone.Services
