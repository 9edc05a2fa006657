import NewZone.Js.Conversion
import NewZone.Lib.Leases
import NewZone.Services.RequestBody

/-!
# The directory

The registry of `services/directory/index.js`, and the routes of `server.js` that
write it.  Roles, urls and times to live come out of request bodies and may be
anything, also `undefined`.  A heartbeat renews the first entry that matches, a
listing shows the last one of each role, and the cleanup removes from the end.

The clock is an argument, in milliseconds since 1970, and so is the id that
`Math.random` makes.
-/

namespace NewZone.Services.Directory

open NewZone.Js NewZone.Js.Json NewZone.Leases NewZone.Crypto
open NewZone.Crypto.SignedPacket (Coercions)

def MAX_SERVICES : ℕ := 200

structure Entry where
  id : JsString
  role : Option Json
  url : Option Json
  ts : ℕ
  ttl : Option Json

/-- `{ id, role, url, ts, ttl }` as it is printed. -/
def Entry.toJson (entry : Entry) : Json :=
  .obj ([(js "id", .str entry.id)]
    ++ (entry.role.map fun v => (js "role", v)).toList
    ++ (entry.url.map fun v => (js "url", v)).toList
    ++ [(js "ts", .num (.ofNat entry.ts))]
    ++ (entry.ttl.map fun v => (js "ttl", v)).toList)

/-- `a === b` for values that come from different requests: an array or an object
is not another one. -/
def strictEqual (a b : Option Json) : Bool :=
  match a with
  | some (.arr _) => false
  | some (.obj _) => false
  | a => a = b

/-- The new entry, and the registry with it. -/
def registerService (SERVICES : List Entry) (id : JsString) (now : ℕ)
    (role url : Option Json) : Entry × List Entry :=
  let entry : Entry := { id, role, url, ts := now, ttl := some (.num (.ofNat 10000)) }
  let SERVICES := SERVICES ++ [entry]
  (entry, if SERVICES.length > MAX_SERVICES then SERVICES.tail else SERVICES)

/-- What an entry is about. -/
structure Service where
  id : JsString
  role : Option Json
  url : Option Json

def Entry.service (s : Entry) : Service := { id := s.id, role := s.role, url := s.url }

/-- `s.role === role && s.url === url` -/
def Service.answers (s : Service) (role url : Option Json) : Bool :=
  strictEqual s.role role && strictEqual s.url url

/-- Whether there is such a service, and the registry after the heartbeat. -/
def updateHeartbeat (SERVICES : List Entry) (now : ℕ) (role url ttl : Option Json) :
    Bool × List Entry :=
  (SERVICES.any fun s => s.service.answers role url,
    updateFirst (fun s => s.service.answers role url) (fun s => { s with ts := now, ttl })
      SERVICES)

/-- A heartbeat leaves the services as they are. -/
theorem map_service_heartbeat (SERVICES : List Entry) (now : ℕ) (role url ttl : Option Json) :
    (updateHeartbeat SERVICES now role url ttl).2.map Entry.service
      = SERVICES.map Entry.service := by
  apply map_updateFirst
  exact fun s => rfl

/-- The number that a value is compared as. -/
def numberOf (round : ℚ → Option ℚ) : Option Json → Except String Double
  | none => .ok .nan
  | some v => v.toNumber round

/-- `now - s.ts > s.ttl` -/
def expired (round : ℚ → Option ℚ) (now : ℕ) (s : Entry) : Except String Bool := do
  match ← numberOf round s.ttl with
  | .nan => return false
  | .infinite neg => return neg
  | .finite ttl => return ttl < (now : ℚ) - s.ts

/-- The registry after the cleanup, and the error that ends it, if there is one. -/
def cleanupExpired (round : ℚ → Option ℚ) (SERVICES : List Entry) (now : ℕ) :
    List Entry × Option String :=
  sweep (expired round now) SERVICES

def removeService (SERVICES : List Entry) (id : JsString) : List Entry :=
  SERVICES.eraseP fun s => s.id = id

/-! ## Listing -/

/-- `{ id, url, ts, ttl }` -/
structure Listed where
  id : JsString
  url : Option Json
  ts : ℕ
  ttl : Option Json

def Entry.listed (s : Entry) : Listed := { id := s.id, url := s.url, ts := s.ts, ttl := s.ttl }

/-- `out`: its own properties, and its prototype once that has been set. -/
structure Listing where
  own : PlainObject Listed
  proto : Option Listed

/-- `out[key] = service` -/
def Listing.assign (out : Listing) (key : JsString) (service : Listed) : Listing :=
  if key = js "__proto__" then { out with proto := some service }
  else { out with own := out.own.set key service }

/-- The service that `out[key]` is. -/
def Listing.get (out : Listing) (key : JsString) : Option Listed :=
  if key = js "__proto__" then out.proto else out.own.get key

/-- The name of a role in the listing. -/
def roleKey : Option Json → Except String JsString
  | none => .ok (js "undefined")
  | some role => role.toText

def listFrom (out : Listing) : List Entry → Except String Listing
  | [] => .ok out
  | s :: rest => do
    let key ← roleKey s.role
    listFrom (out.assign key s.listed) rest

def listServices (SERVICES : List Entry) : Except String Listing :=
  listFrom { own := .empty, proto := none } SERVICES

/-! ## Calls -/

/-- A call that may write the registry. -/
inductive Op where
  | register (id : JsString) (now : ℕ) (role url : Option Json)
  | heartbeat (now : ℕ) (role url ttl : Option Json)
  | cleanup (now : ℕ)
  | remove (id : JsString)

/-- The registry after a call. -/
def after (round : ℚ → Option ℚ) (SERVICES : List Entry) : Op → List Entry
  | .register id now role url => (registerService SERVICES id now role url).2
  | .heartbeat now role url ttl => (updateHeartbeat SERVICES now role url ttl).2
  | .cleanup now => (cleanupExpired round SERVICES now).1
  | .remove id => removeService SERVICES id

/-! ## Requests -/

variable (node : NodeSign) (coerce : Coercions)

/-- `POST /register` -/
def postRegister (SERVICES : List Entry) (ctx : Context) (id : JsString) (now : ℕ)
    (body : Body) : List Entry × Option Response :=
  withBody node coerce ctx SERVICES body fun payload =>
    let (entry, SERVICES) :=
      registerService SERVICES id now (member payload "role") (member payload "url")
    (SERVICES, { status := 200, body := entry.toJson })

/-- `POST /heartbeat` -/
def postHeartbeat (SERVICES : List Entry) (ctx : Context) (now : ℕ) (body : Body) :
    List Entry × Option Response :=
  withBody node coerce ctx SERVICES body fun payload =>
    let (updated, SERVICES) := updateHeartbeat SERVICES now (member payload "role")
      (member payload "url") (member payload "ttl")
    (SERVICES, { status := 200, body := .obj [(js "ok", .bool updated)] })

/-- What happens to the server: a request, or the timer. -/
inductive Event where
  | register (ctx : Context) (id : JsString) (now : ℕ) (body : Body)
  | heartbeat (ctx : Context) (now : ℕ) (body : Body)
  | cleanup (now : ℕ)

/-- The registry after an event. -/
def handle (round : ℚ → Option ℚ) (SERVICES : List Entry) : Event → List Entry
  | .register ctx id now body => (postRegister node coerce SERVICES ctx id now body).1
  | .heartbeat ctx now body => (postHeartbeat node coerce SERVICES ctx now body).1
  | .cleanup now => (cleanupExpired round SERVICES now).1

/-- The payload that the parser resolves to, if it does. -/
def resolved (ctx : Context) (body : Body) : Option (Option Json) :=
  match parseRequestBodyWithCrypto node coerce ctx body with
  | .ok (.payload payload _) => some payload
  | _ => none

/-- The call that an event makes. -/
def Event.op : Event → Option Op
  | .register ctx id now body => (resolved node coerce ctx body).map fun payload =>
    .register id now (member payload "role") (member payload "url")
  | .heartbeat ctx now body => (resolved node coerce ctx body).map fun payload =>
    .heartbeat now (member payload "role") (member payload "url") (member payload "ttl")
  | .cleanup now => some (.cleanup now)

variable {node : NodeSign} {coerce : Coercions} {round : ℚ → Option ℚ}

/-- A body that is no packet is resolved as it is. -/
theorem resolved_plain {ctx : Context} {v : Json}
    (h : field v "version" ≠ some (.str RoutingPacket.routingVersion)) :
    resolved node coerce ctx (.json v) = some (some v) := by
  unfold resolved
  rw [parse_plain h]

/-- A route writes the state if the parser resolves. -/
theorem state_withBody {σ : Type} (ctx : Context) (state : σ) (body : Body)
    (route : Option Json → σ × Response) :
    (withBody node coerce ctx state body route).1
      = ((resolved node coerce ctx body).map fun payload => (route payload).1).getD state := by
  unfold withBody resolved
  cases parseRequestBodyWithCrypto node coerce ctx body with
  | error e => rfl
  | ok parsed => cases parsed <;> rfl

/-- An event changes the registry by its call only. -/
theorem handle_eq (SERVICES : List Entry) (e : Event) :
    handle node coerce round SERVICES e
      = ((e.op node coerce).map (after round SERVICES)).getD SERVICES := by
  cases e with
  | register ctx id now body =>
    rw [handle, postRegister, state_withBody, Event.op, Option.map_map]
    rfl
  | heartbeat ctx now body =>
    rw [handle, postHeartbeat, state_withBody, Event.op, Option.map_map]
    rfl
  | cleanup now => rfl

end NewZone.Services.Directory
