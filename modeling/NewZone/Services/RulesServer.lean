import NewZone.Js.Object
import NewZone.Services.RequestBody

/-!
# The rules server

What `services/rules/server.js` answers to `GET`.  The README also promises
`GET /rules`, a list of the rules, but no rule of that kind is kept, and the
request falls through to the end.
-/

namespace NewZone.Services.Rules

open NewZone.Js

/-- What the requests read: what is found in `RULES` under a key, which may be
inherited or `undefined`, and the configuration. -/
structure Store where
  RULES : JsString → Option (Option Json)
  HISTORY_RULE : Json

/-- The server as it starts.  Functions are left out of JSON, and `Object.prototype` has
nothing to show. -/
def Store.initial : Store where
  RULES key :=
    if key = js "__proto__" then some (some (.obj []))
    else if key ∈ objectPrototype then some none
    else none
  HISTORY_RULE := .obj [(js "replicate", .bool false), (js "log", .bool false),
    (js "analytics", .bool false)]

def respond (store : Store) (url : JsString) : Response :=
  if url = js "/health" then
    { status := 200, body := .obj [(js "status", .str (js "ok"))] }
  else if (js "/get/").isPrefixOf url then
    let key := url.drop 5
    match store.RULES key with
    | none => .error 404 "Not found"
    | some value =>
      { status := 200
        body := .obj ([(js "key", .str key)]
          ++ (value.map fun v => (js "value", v)).toList) }
  else if url = js "/config" then { status := 200, body := store.HISTORY_RULE }
  else .error 404 "Not found"

/-- The rules server does not know `GET /rules`. -/
theorem respond_rules (store : Store) :
    respond store (js "/rules") = .error 404 "Not found" := rfl

end NewZone.Services.Rules
