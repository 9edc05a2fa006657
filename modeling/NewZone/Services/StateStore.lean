import Mathlib.Data.List.MinMax
import NewZone.Js.Json
import NewZone.Js.JsonOrder

/-!
# The state service

`services/state/index.js` and what `server.js` answers to `GET`.  The store is a
plain object, so a key that no one has set may still be found: `STATE[key]` is
a function for the names of `Object.prototype`, and setting `__proto__` puts an
entry into the prototype chain, whose `value` and `ts` are then found as keys.

The clock is an argument, in milliseconds since 1970.
-/

namespace NewZone.Services.State

open NewZone.Js NewZone.Js.Json

def MAX_KEYS : ℕ := 500

/-- `{ value, ts: Date.now() }` -/
structure Entry where
  value : Option Json
  ts : ℕ

/-- `STATE`: its own properties, and its prototype once that has been set. -/
structure Store where
  own : PlainObject Entry
  proto : Option Entry
  /-- assigning `__proto__` makes no property -/
  plain : own.get (js "__proto__") = none

def Store.initial : Store := { own := .empty, proto := none, plain := rfl }

/-- What `STATE[key]` may be, if it is not `undefined`. -/
inductive Value where
  | entry (e : Entry)
  | json (v : Json)
  /-- `Object.prototype` or one of its functions -/
  | builtin

def Value.truthy : Value → Bool
  | .entry _ => true
  | .json v => v.truthy
  | .builtin => true

/-- `result.value` -/
def Value.value : Value → Option Json
  | .entry e => e.value
  | .json v => field v "value"
  | .builtin => none

/-- `STATE[key]` -/
def Store.lookup (STATE : Store) (key : JsString) : Option Value :=
  match STATE.own.get key, STATE.proto with
  | some e, _ => some (.entry e)
  | none, none => if key ∈ objectPrototype then some .builtin else none
  | none, some e =>
    if key = js "__proto__" then some (.entry e)
    else if key = js "value" then e.value.map .json
    else if key = js "ts" then some (.json (.num (.ofNat e.ts)))
    else if key ∈ objectPrototype then some .builtin
    else none

/-- `delete STATE[key]` -/
def Store.delete (STATE : Store) (key : JsString) : Store :=
  { own := STATE.own.erase key
    proto := STATE.proto
    plain := by
      rw [PlainObject.get_erase, STATE.plain]
      exact ite_self _ }

/-- `STATE[key] = entry` -/
def Store.assign (STATE : Store) (key : JsString) (entry : Entry) : Store :=
  if h : key = js "__proto__" then { STATE with proto := some entry }
  else
    { own := STATE.own.set key entry
      proto := STATE.proto
      plain := by rw [PlainObject.get_set_of_ne _ h, STATE.plain] }

/-- `setState` at the time `now`. -/
def setState (STATE : Store) (key : JsString) (value : Option Json) (now : ℕ) :
    Store :=
  let full := STATE.own.members.length ≥ MAX_KEYS
  let known := (STATE.lookup key).any Value.truthy
  let STATE :=
    if full ∧ known = false then
      -- the first of the keys with the smallest `ts`
      match STATE.own.members.argmin fun m => m.2.ts with
      | some oldest => STATE.delete oldest.1
      | none => STATE
    else STATE
  STATE.assign key { value, ts := now }

/-- `getState`, where `null` is `none`. -/
def getState (STATE : Store) (key : JsString) : Option Value :=
  (STATE.lookup key).filter Value.truthy

def deleteState (STATE : Store) (key : JsString) : Store := STATE.delete key

/-- `Object.keys(STATE)` -/
def listKeys (STATE : Store) : List JsString := STATE.own.members.map Prod.fst

/-! ## The server -/

/-- The text in front of the next `/get/`. -/
def beforeGet : JsString → JsString
  | [] => []
  | u :: rest =>
    if (js "/get/").isPrefixOf (u :: rest) then [] else u :: beforeGet rest

/-- The key of a request to `GET /get/<key>`: `req.url.split("/get/")[1]`. -/
def requestedKey (url : JsString) : Option JsString :=
  if (js "/get/").isPrefixOf url then some (beforeGet (url.drop 5)) else none

/-- The body of the answer to `GET`. -/
def respond (STATE : Store) (url : JsString) : Json :=
  if url = js "/health" then .obj [(js "status", .str (js "ok"))]
  else
    match requestedKey url with
    | some key =>
      match getState STATE key with
      | some result =>
        .obj ([(js "key", .str key)]
          ++ (result.value.map fun v => (js "value", v)).toList)
      | none => .obj [(js "error", .str (js "Not found"))]
    | none =>
      if url = js "/keys" then .arr ((listKeys STATE).map .str)
      else .obj [(js "error", .str (js "Not found"))]

/-! ## What the store answers -/

theorem proto_not_mem_listKeys (STATE : Store) :
    js "__proto__" ∉ listKeys STATE :=
  getProp_eq_none_iff.mp STATE.plain

/-- A key that has been set is there, with its value, unless it is
`__proto__`. -/
theorem get_setState (STATE : Store) {key : JsString}
    (hkey : key ≠ js "__proto__") (value : Option Json) (now : ℕ) :
    (setState STATE key value now).own.get key = some { value, ts := now } := by
  unfold setState Store.assign
  simp only [dif_neg hkey, PlainObject.get_set_self]

theorem mem_listKeys_setState (STATE : Store) {key : JsString}
    (hkey : key ≠ js "__proto__") (value : Option Json) (now : ℕ) :
    key ∈ listKeys (setState STATE key value now) :=
  List.mem_map.mpr ⟨_, mem_of_getProp (get_setState STATE hkey value now), rfl⟩

/-- No answer has a `ts`. -/
theorem field_respond_ts (STATE : Store) (url : JsString) :
    field (respond STATE url) "ts" = none := by
  unfold respond
  split
  · rfl
  split
  · split
    · rename_i result _
      cases result.value <;> rfl
    · rfl
  · split <;> rfl

theorem truthy_respond (STATE : Store) (url : JsString) :
    (respond STATE url).truthy = true := by
  unfold respond
  split
  · rfl
  split
  · split <;> rfl
  · split <;> rfl

/-- The value of an answer is what the store has under the requested key. -/
theorem field_respond_value (STATE : Store) (url : JsString) :
    field (respond STATE url) "value"
      = (requestedKey url).bind fun key =>
          (getState STATE key).bind Value.value := by
  unfold respond
  split
  · rename_i hurl
    rw [hurl]
    rfl
  split
  · rename_i key hkey
    rw [hkey, Option.bind_some]
    split
    · rename_i result hresult
      rw [hresult, Option.bind_some]
      cases result.value <;> rfl
    · rename_i hnone
      rw [hnone]
      rfl
  · rename_i hnone
    rw [hnone]
    split <;> rfl

/-- Under a key that has been set, `getState` finds its value. -/
theorem getState_setState (STATE : Store) {key : JsString}
    (hkey : key ≠ js "__proto__") (value : Option Json) (now : ℕ) :
    (getState (setState STATE key value now) key).bind Value.value = value := by
  rw [getState, Store.lookup, get_setState STATE hkey]
  rfl

end NewZone.Services.State
