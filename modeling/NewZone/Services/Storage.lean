import NewZone.Crypto.BodyBinding
import NewZone.Lib.Process
import NewZone.Services.RequestBody

/-!
# The object store

The half of `services/storage` that keeps objects under the SHA-256 of their JSON
text.  The other half keeps values under keys, and shares nothing with this one.

An object that has been stored stays under its hash, whatever is stored later, if
no other object has that hash (`get_foldl_after`), and if the process lives
(`serve_eq_none_iff`).
-/

namespace NewZone.Services.Storage

open NewZone.Js NewZone.Js.Json NewZone.ExceptBind NewZone.Crypto
open NewZone.Crypto.SignedPacket (Coercions CollisionFree present)
open NewZone.Crypto.RoutingPacket (routingVersion)

/-! ## The core -/

/-- `STORE` -/
abbrev Objects := PlainObject Json

variable (hash : NodeHash)

def generateHash (payload : Json) : JsString :=
  toHex (hash.sha256 (utf8 (stringify payload)))

def storeObject (STORE : Objects) (payload : Json) : Objects × JsString :=
  let hash_id := generateHash hash payload
  (STORE.set hash_id payload, hash_id)

/-- `STORE[hash_id] || null` -/
def getObject (STORE : Objects) (hash_id : JsString) : Found Json :=
  match STORE.lookup hash_id with
  | .own payload => if payload.truthy then .own payload else .missing
  | found => found

def verifyObject (payload hash_id : Json) : Bool :=
  Json.str (generateHash hash payload) = hash_id

/-! ## The server -/

/-- `payload && typeof payload === "object"` -/
def isObject : Json → Bool
  | .arr _ => true
  | .obj _ => true
  | _ => false

/-- `POST /cas/store` -/
def store (STORE : Objects) (payload : Option Json) : Objects × Response :=
  match payload.filter isObject with
  | some payload =>
    let (STORE, hash_id) := storeObject hash STORE payload
    (STORE, { status := 200, body := .obj [(js "hash_id", .str hash_id)] })
  | none => (STORE, .error 400 "Invalid object")

/-- An answer whose text may be empty. -/
structure Reply where
  status : ℕ
  body : Option Json

def Response.reply (response : Response) : Reply :=
  { status := response.status, body := some response.body }

/-- `GET /cas/get/<hash_id>`.  What an object inherits is a function, which has no
JSON text, or `Object.prototype`. -/
def get (STORE : Objects) (hash_id : JsString) : Reply :=
  match getObject STORE hash_id with
  | .own object => { status := 200, body := some object }
  | .inherited =>
    { status := 200, body := if hash_id = js "__proto__" then some (.obj []) else none }
  | .missing => Response.reply (.error 404 "Not found")

/-- `POST /cas/verify` -/
def verify (payload : Option Json) : Response :=
  match payload.bind fun v => present v "object",
    payload.bind fun v => present v "hash_id" with
  | some object, some hash_id =>
    { status := 200, body := .obj [(js "ok", .bool (verifyObject hash object hash_id))] }
  | _, _ => .error 400 "Missing object or hash_id"

inductive Call where
  | store (body : Body)
  | get (hash_id : JsString)
  | verify (body : Body)

variable (node : NodeSign) (coerce : Coercions)

def handle (ctx : Context) (STORE : Objects) : Call → Objects × Option Reply
  | .store body =>
    let (STORE, response) := withBody node coerce ctx STORE body (store hash STORE)
    (STORE, response.map Response.reply)
  | .get hash_id => (STORE, some (get STORE hash_id))
  | .verify body =>
    let (STORE, response) := withBody node coerce ctx STORE body fun payload =>
      (STORE, verify hash payload)
    (STORE, response.map Response.reply)

/-- The server, for a call and what it knows when that comes. -/
def serve (STORE : Objects) (call : Context × Call) : Objects × Option Reply :=
  handle hash node coerce call.1 STORE call.2

/-- The call has a body that ends the process. -/
def EndsProcess (call : Context × Call) : Prop :=
  ∃ body, (call.2 = .store body ∨ call.2 = .verify body) ∧ Fatal node coerce call.1 body

/-! ## What stays -/

/-- The objects after a call, if it leaves the process alive. -/
def after (STORE : Objects) (call : Context × Call) : Objects :=
  (serve hash node coerce STORE call).1

/-- The object that a call stores. -/
def stored (call : Context × Call) : Option Json :=
  match call.2 with
  | .store body =>
    match parseRequestBodyWithCrypto node coerce call.1 body with
    | .ok (.payload payload _) => payload.filter isObject
    | _ => none
  | _ => none

/-- The bytes of which `generateHash` takes the SHA-256. -/
def text (payload : Json) : Bytes := utf8 (stringify payload)

variable {hash} {node} {coerce}

theorem serve_eq_none_iff (STORE : Objects) (call : Context × Call) :
    (serve hash node coerce STORE call).2 = none ↔ EndsProcess node coerce call := by
  obtain ⟨ctx, call⟩ := call
  have hfatal : ∀ {route : Option Json → Objects × Response} {body : Body},
      (withBody node coerce ctx STORE body route).2.map Response.reply = none ↔
        Fatal node coerce ctx body := by
    intro route body
    rw [Option.map_eq_none_iff, withBody_eq_none_iff]
  cases call with
  | get hash_id =>
    refine iff_of_false nofun fun h => ?_
    obtain ⟨body, h | h, -⟩ := h <;> cases h
  | store body =>
    refine hfatal.trans ⟨fun h => ⟨body, .inl rfl, h⟩, fun h => ?_⟩
    obtain ⟨body', hcall | hcall, h⟩ := h
    · rw [Call.store.inj hcall]
      exact h
    · cases hcall
  | verify body =>
    refine (@hfatal (fun payload => (STORE, verify hash payload)) body).trans
      ⟨fun h => ⟨body, .inr rfl, h⟩, fun h => ?_⟩
    obtain ⟨body', hcall | hcall, h⟩ := h
    · cases hcall
    · rw [Call.verify.inj hcall]
      exact h

theorem after_eq (STORE : Objects) (call : Context × Call) :
    after hash node coerce STORE call
      = match stored node coerce call with
        | some payload => STORE.set (generateHash hash payload) payload
        | none => STORE := by
  obtain ⟨ctx, call⟩ := call
  cases call with
  | get hash_id => rfl
  | store body =>
    simp only [after, serve, stored, handle, withBody]
    cases parseRequestBodyWithCrypto node coerce ctx body with
    | error e => rfl
    | ok parsed =>
      cases parsed with
      | answered response => rfl
      | payload payload crypto =>
        simp only [store]
        cases payload.filter isObject <;> rfl
  | verify body =>
    simp only [after, serve, stored, handle, withBody]
    cases parseRequestBodyWithCrypto node coerce ctx body with
    | error e => rfl
    | ok parsed => cases parsed <;> rfl

theorem get_of_own {STORE : Objects} {hash_id : JsString} {payload : Json}
    (h : PlainObject.get STORE hash_id = some payload) (htruthy : payload.truthy = true) :
    get STORE hash_id = { status := 200, body := some payload } := by
  unfold get getObject
  rw [PlainObject.lookup_of_get h]
  dsimp only
  rw [if_pos htruthy]

/-- Without a collision, the hash determines the object. -/
theorem generateHash_inj {payloads : List Json}
    (hfree : CollisionFree hash (payloads.map text)) {v w : Json} (hv : v ∈ payloads)
    (hw : w ∈ payloads) (h : generateHash hash v = generateHash hash w) : v = w :=
  utf8_stringify_injective (hfree _ (List.mem_map.mpr ⟨v, hv, rfl⟩) _
    (List.mem_map.mpr ⟨w, hw, rfl⟩) (toHex_injective h))

/-- An object stays under its hash. -/
theorem get_foldl_after {payload : Json} (calls : List (Context × Call))
    (hfree : ∀ call ∈ calls, ∀ other, stored node coerce call = some other →
      generateHash hash other = generateHash hash payload → other = payload)
    {STORE : Objects} (h : STORE.get (generateHash hash payload) = some payload) :
    (calls.foldl (after hash node coerce) STORE).get (generateHash hash payload)
      = some payload := by
  induction calls generalizing STORE with
  | nil => exact h
  | cons call calls ih =>
    refine ih (fun call hcall => hfree call (List.mem_cons_of_mem _ hcall)) ?_
    rw [after_eq]
    cases hstored : stored node coerce call with
    | none => exact h
    | some other =>
      dsimp only
      rw [PlainObject.get_set]
      split_ifs with heq
      · rw [hfree call List.mem_cons_self other hstored heq]
      · exact h

end NewZone.Services.Storage
