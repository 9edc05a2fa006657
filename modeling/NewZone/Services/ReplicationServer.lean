import NewZone.Services.Replication
import NewZone.Services.RequestBody

/-!
# The replication server

What `services/replication/server.js` answers, and the two calls of `index.js`
that talk to it.  A signed body is merged; any other JSON is only answered.
-/

namespace NewZone.Services.Replication

open NewZone.Js NewZone.Js.Json NewZone.ExceptBind NewZone.Crypto
open NewZone.Crypto.SignedPacket (Coercions)

/-- `{ key, value }` -/
def echo (payload : Option Json) : Json :=
  .obj (((member payload "key").map fun v => (js "key", v)).toList
    ++ ((member payload "value").map fun v => (js "value", v)).toList)

/-- `POST /replicate`, once the body is parsed. -/
def replicate (engine : Engine) (LOCAL_DATA : LocalData) :
    Parsed → LocalData × Response
  | .answered response => (LOCAL_DATA, response)
  | .payload payload true =>
    match payload with
    | none => (LOCAL_DATA, .error 400 "Invalid replication")
    | some incoming =>
      match mergeData engine LOCAL_DATA incoming with
      | (LOCAL_DATA, none) =>
        (LOCAL_DATA, { status := 200, body := .obj [(js "ok", .bool true)] })
      | (LOCAL_DATA, some _) => (LOCAL_DATA, .error 400 "Invalid replication")
  | .payload payload false =>
    (LOCAL_DATA, { status := 200, body := echo payload })

/-- The HTTP server.  A request whose verification throws is not answered and ends the
process. -/
def handle (engine : Engine) (node : NodeSign) (coerce : Coercions)
    (ctx : Context) (LOCAL_DATA : LocalData) (req : Request) :
    LocalData × Option Response :=
  if req.method = .get ∧ req.url = js "/health" then
    (LOCAL_DATA, some { status := 200, body := .obj [(js "status", .str (js "ok"))] })
  else if req.method = .post ∧ req.url = js "/replicate" then
    match parseRequestBodyWithCrypto node coerce ctx req.body with
    | .error _ => (LOCAL_DATA, none)
    | .ok parsed =>
      let (LOCAL_DATA, response) := replicate engine LOCAL_DATA parsed
      (LOCAL_DATA, some response)
  else if req.method = .get ∧ req.url = js "/dump" then
    (LOCAL_DATA, some { status := 200, body := dumpData LOCAL_DATA })
  else (LOCAL_DATA, some (.error 404 "Not found"))

/-- The request that `pushToPeer` sends. -/
def pushToPeer (LOCAL_DATA : LocalData) : Request :=
  { method := .post, url := js "/replicate", body := .json (dumpData LOCAL_DATA) }

/-- The request that `pullFromPeer` sends. -/
def dumpRequest : Request :=
  { method := .get, url := js "/dump", body := .empty }

/-- `pullFromPeer`, once the peer has answered or has failed to.  It does not
look at the status. -/
def pullFromPeer (engine : Engine) (LOCAL_DATA : LocalData) :
    Option Response → LocalData
  | none => LOCAL_DATA
  | some res => (mergeData engine LOCAL_DATA res.body).1

/-! ## Push and pull -/

variable (engine : Engine) (node : NodeSign) (coerce : Coercions) (ctx : Context)

/-- What is pushed is not signed, so it is not merged. -/
theorem handle_pushToPeer (A B : LocalData) :
    (handle engine node coerce ctx B (pushToPeer A)).1 = B := by
  have hplain : Json.field (dumpData A) "version"
      ≠ some (.str RoutingPacket.routingVersion) := by
    intro h
    cases h
  have hparse := @parse_plain node coerce ctx _ hplain
  rw [handle, if_neg (fun h => nomatch h.1), if_pos ⟨rfl, rfl⟩]
  dsimp only [pushToPeer]
  rw [hparse]
  rfl

/-- What is pulled is merged. -/
theorem pullFromPeer_handle (A B : LocalData) :
    pullFromPeer engine B (handle engine node coerce ctx A dumpRequest).2
      = (mergeData engine B (dumpData A)).1 := by
  rw [handle, if_neg (by decide), if_neg (by decide), if_pos ⟨rfl, rfl⟩]
  rfl

end NewZone.Services.Replication
