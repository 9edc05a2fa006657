import NewZone.Services.RequestBody

/-!
# The consensus service

`services/consensus/index.js` and `server.js`.  A proposal is stored with the
hash of its payload, `/verify` compares a payload with a proof, both from the
request, and writes the verdict into the proposal with the id of the request.

The proposals are kept in a plain object.  An id that no one has proposed may
still be found: `__proto__` and the functions of `Object.prototype`, and, once
`__proto__` has been proposed, the members of that proposal.  A verdict is
written there as well, where an object can take it.  The calls to the logging
service are left out.
-/

namespace NewZone.Services.Consensus

open NewZone.Js NewZone.Js.Json NewZone.ExceptBind NewZone.Crypto
open NewZone.Crypto.SignedPacket (Coercions present)

/-! ## Proofs -/

def generateConsensusProof (hash : NodeHash) (payload : Option Json) :
    Except String JsString :=
  match payload with
  | some v => .ok (toHex (hash.sha256 (utf8 (stringify v))))
  | none => .error "The \"data\" argument must be of type string"

def verifyConsensusProof (hash : NodeHash) (payload proof_id : Option Json) :
    Except String Bool := do
  let proof ← generateConsensusProof hash payload
  return some (.str proof) = proof_id

/-! ## Proposals -/

inductive Status where
  | pending
  | accepted
  | rejected
  deriving DecidableEq

def Status.text : Status → JsString
  | .pending => js "pending"
  | .accepted => js "accepted"
  | .rejected => js "rejected"

structure Proposal where
  id : Json
  topic : Json
  payload : Option Json
  proof : JsString
  status : Status
  deriving DecidableEq

def Proposal.member (p : Proposal) (key : JsString) : Option Json :=
  if key = js "id" then some p.id
  else if key = js "topic" then some p.topic
  else if key = js "payload" then p.payload
  else if key = js "proof" then some (.str p.proof)
  else if key = js "status" then some (.str p.status.text)
  else none

/-- `proposals`: its own properties, and its prototype once that has been
proposed. -/
structure Store where
  own : PlainObject Proposal
  proto : Option Proposal
  /-- what has been written into the `status` of an inherited function or array,
  or of `Object.prototype` -/
  marks : JsString → Option Status
  /-- assigning `__proto__` makes no property -/
  plain : own.get (js "__proto__") = none

def Store.initial : Store :=
  { own := .empty, proto := none, marks := fun _ => none, plain := rfl }

/-- The proposal with an id. -/
def Store.proposal (proposals : Store) (key : JsString) : Option Proposal :=
  if key = js "__proto__" then proposals.proto else proposals.own.get key

/-- `proposals[key] = p` -/
def Store.assign (proposals : Store) (key : JsString) (p : Proposal) : Store :=
  if h : key = js "__proto__" then
    { proposals with
      proto := some p
      -- the arrays of the proposal are new
      marks := fun k =>
        if k = js "id" ∨ k = js "topic" ∨ k = js "payload" then none
        else proposals.marks k }
  else
    { proposals with
      own := proposals.own.set key p
      plain := by rw [PlainObject.get_set_of_ne _ h, proposals.plain] }

/-- `v.status = status` in an object that came with a proposal. -/
def withStatus (status : Status) (ms : List (JsString × Json)) : Json :=
  .obj (setProp (js "status") (.str status.text) ms)

def Proposal.setMember (p : Proposal) (key : JsString) (v : Json) : Proposal :=
  if key = js "id" then { p with id := v }
  else if key = js "topic" then { p with topic := v }
  else { p with payload := some v }

def Store.mark (proposals : Store) (key : JsString) (status : Status) : Store :=
  { proposals with
    marks := fun k => if k = key then some status else proposals.marks k }

/-- `proposals[key].status = status`.  What `proposals` inherits may be a
primitive value, which takes no property. -/
def Store.assignStatus (proposals : Store) (key : JsString) (status : Status) :
    Store :=
  if h : key = js "__proto__" then
    match proposals.proto with
    | some p => { proposals with proto := some { p with status } }
    | none => proposals.mark key status
  else
    match proposals.own.get key, proposals.proto with
    | some p, _ =>
      { proposals with
        own := proposals.own.set key { p with status }
        plain := by rw [PlainObject.get_set_of_ne _ h, proposals.plain] }
    | none, some p =>
      match p.member key with
      | some (.obj ms) =>
        { proposals with proto := some (p.setMember key (withStatus status ms)) }
      | some (.arr _) => proposals.mark key status
      | some _ => proposals
      | none => if key ∈ objectPrototype then proposals.mark key status else proposals
    | none, none =>
      if key ∈ objectPrototype then proposals.mark key status else proposals

/-! ## Requests -/

/-- `{ name: v }`, or nothing if `v` is `undefined`. -/
def optional (name : String) (v : Option Json) : List (JsString × Json) :=
  (v.map fun v => (js name, v)).toList

def invalidRequest : Response := .error 400 "Invalid request"

/-- The proposal of a request, or the answer if there is none. -/
def proposalOf (hash : NodeHash) (engine : Engine) (payload : Option Json) :
    Except Response (JsString × Proposal) :=
  match payload with
  | some (.obj members) =>
    let payload := .obj members
    match present payload "id", present payload "topic" with
    | some id, some topic =>
      let innerPayload := field payload "payload"
      match generateConsensusProof hash innerPayload, engine.propertyKey (some id) with
      | .ok proof, .ok key =>
        .ok (key, { id, topic, payload := innerPayload, proof, status := .pending })
      | _, _ => .error invalidRequest
    | _, _ => .error (.error 400 "Missing id or topic")
  | some (.arr _) => .error (.error 400 "Missing id or topic")
  | _ => .error invalidRequest

/-- `POST /propose` -/
def propose (hash : NodeHash) (engine : Engine) (proposals : Store)
    (payload : Option Json) : Store × Response :=
  match proposalOf hash engine payload with
  | .ok (key, p) =>
    (proposals.assign key p,
      { status := 200
        body := .obj ([(js "id", p.id), (js "topic", p.topic)]
          ++ optional "payload" p.payload
          ++ [(js "proof", .str p.proof), (js "status", .str p.status.text)]) })
  | .error response => (proposals, response)

/-- `POST /generate` -/
def generate (hash : NodeHash) (payload : Option Json) : Response :=
  match generateConsensusProof hash (member payload "payload") with
  | .ok proof => { status := 200, body := .obj [(js "proof_id", .str proof)] }
  | .error _ => invalidRequest

/-- The id of a request, if it has one. -/
def idOf (engine : Engine) (payload : Option Json) :
    Except String (Option JsString) :=
  ((member payload "id").filter truthy).mapM fun id =>
    engine.propertyKey (some id)

/-- `POST /verify` -/
def verify (hash : NodeHash) (engine : Engine) (proposals : Store)
    (payload : Option Json) : Store × Response :=
  let inner := member payload "payload"
  let proof_id := member payload "proof_id"
  match verifyConsensusProof hash inner proof_id, idOf engine payload with
  | .ok valid, .ok id =>
    let status := if valid then Status.accepted else .rejected
    (match id with
      | some key => proposals.assignStatus key status
      | none => proposals,
      { status := 200, body := .obj [(js "valid", .bool valid)] })
  | _, _ => (proposals, invalidRequest)

/-- `req.url.split("/")[2]` for a URL that starts with `/status/`. -/
def requestedId (url : JsString) : JsString :=
  (url.drop 8).takeWhile fun u => u ≠ 0x2F

/-- `GET /status/<id>` -/
def statusAnswer (proposals : Store) (url : JsString) : Json :=
  let id := requestedId url
  -- every object inherits what has been written into `Object.prototype`
  let inherited := proposals.marks (js "__proto__")
  let answer := fun (v : Json) (status : Option Status) =>
    Json.obj (optional "id" (field v "id") ++ optional "topic" (field v "topic")
      ++ optional "proof" (field v "proof")
      ++ optional "status" ((status.map fun s => .str s.text).or
        ((field v "status").or (inherited.map fun s => .str s.text))))
  let missing := Json.obj [(js "id", .str id), (js "status", .str (js "pending"))]
  match proposals.proposal id with
  | some entry =>
    .obj [(js "id", entry.id), (js "topic", entry.topic),
      (js "proof", .str entry.proof), (js "status", .str entry.status.text)]
  | none =>
    match proposals.proto.bind fun p => p.member id with
    | some v => if v.truthy then answer v (proposals.marks id) else missing
    | none =>
      if id ∈ objectPrototype then answer .null (proposals.marks id)
      else if id = js "status" ∧ inherited.isSome then answer .null none
      else missing

variable (hash : NodeHash) (engine : Engine) (node : NodeSign) (coerce : Coercions)

/-- The HTTP server. -/
def handle (ctx : Context) (proposals : Store) (req : Request) :
    Store × Option Response :=
  if req.method = .get ∧ req.url = js "/health" then
    (proposals,
      some { status := 200, body := .obj [(js "status", .str (js "ok"))] })
  else if req.method = .post ∧ req.url = js "/propose" then
    withBody node coerce ctx proposals req.body (propose hash engine proposals)
  else if req.method = .get ∧ (js "/status/").isPrefixOf req.url then
    (proposals, some { status := 200, body := statusAnswer proposals req.url })
  else if req.method = .post ∧ req.url = js "/generate" then
    withBody node coerce ctx proposals req.body fun payload =>
      (proposals, generate hash payload)
  else if req.method = .post ∧ req.url = js "/verify" then
    withBody node coerce ctx proposals req.body (verify hash engine proposals)
  else (proposals, some (.error 404 "Not found"))

end NewZone.Services.Consensus
