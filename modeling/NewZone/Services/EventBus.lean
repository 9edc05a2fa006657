import Mathlib.Data.List.DropRight
import NewZone.Services.RequestBody

/-!
# The event bus

The events of `services/event/index.js` and what `GET /events` answers.  Which
type and which limit a URL asks for is left to `URLSearchParams`.
-/

namespace NewZone.Services.EventBus

open NewZone.Js

def MAX_EVENTS : ℕ := 500

structure Event where
  ts : ℕ
  type : Option Json
  source : Option Json
  payload : Json

def Event.toJson (event : Event) : Json :=
  .obj ([(js "ts", .num (.ofNat event.ts))]
    ++ (event.type.map fun v => (js "type", v)).toList
    ++ (event.source.map fun v => (js "source", v)).toList
    ++ [(js "payload", event.payload)])

/-- `publishEvent`, without the calls to the subscribers. -/
def publishEvent (EVENTS : List Event) (type source payload : Option Json)
    (now : ℕ) : List Event :=
  let event : Event := { ts := now, type, source, payload := payload.getD .null }
  let EVENTS := EVENTS ++ [event]
  if EVENTS.length > MAX_EVENTS then EVENTS.tail else EVENTS

/-- `list.slice(start)` -/
def slice {α : Type} (list : List α) (start : ℤ) : List α :=
  if start < 0 then list.rtake start.natAbs else list.drop start.toNat

def getEvents (EVENTS : List Event) (type : Option JsString) (limit : ℤ) :
    List Event :=
  let filtered :=
    match type with
    | some (u :: t) => EVENTS.filter fun e => e.type = some (.str (u :: t))
    | _ => EVENTS
  slice filtered (-limit)

/-- `GET /events` -/
def events (EVENTS : List Event) (type : Option JsString) (limit : ℤ) : Response :=
  { status := 200, body := .arr ((getEvents EVENTS type limit).map Event.toJson) }

theorem timed_toJson (event : Event) : Timed event.toJson := rfl

theorem timed_of_mem_events {EVENTS : List Event} {type : Option JsString}
    {limit : ℤ} :
    ∀ e ∈ (getEvents EVENTS type limit).map Event.toJson, Timed e := by
  intro e he
  obtain ⟨event, -, rfl⟩ := List.mem_map.mp he
  exact timed_toJson event

end NewZone.Services.EventBus
