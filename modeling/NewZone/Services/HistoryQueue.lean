import NewZone.Services.PacketReplay
import NewZone.Services.Publish
import NewZone.Services.QueueFifo

/-!
# The queue named history

The publishers put their items into one queue of the queue service, and the
rules service takes them out.  Beside the store of the service, a `HistoryQueue`
keeps the bounded queue that the store is a copy of, and so every item that was
ever put into the queue, at the place that is its own.  That the two agree is a
part of the structure, so it holds whatever is requested.
-/

namespace NewZone.Services.Queue

open NewZone.Js NewZone.Js.Json NewZone.BoundedFifo NewZone.Crypto
open NewZone.Crypto.SignedPacket (Coercions)
open NewZone.Crypto.RoutingPacket (routingVersion)
open NewZone.Services.Publish (historyRequest)

def historyName : JsString := js "history"

structure HistoryQueue where
  store : Store
  log : Fifo Item MAX_QUEUE_SIZE
  agrees : Tracks historyName store.QUEUES log

/-- The queue when the service starts. -/
def HistoryQueue.initial : HistoryQueue := ⟨.initial, .empty, rfl⟩

variable (engine : Engine) (query : JsString → Option (Option JsString × ℤ))
  (node : NodeSign) (coerce : Coercions)

/-- What the parser hands to a route. -/
def payloadOf (arrival : Arrival) : Option (Option Json) :=
  match parseRequestBodyWithCrypto node coerce arrival.ctx arrival.req.body with
  | .ok (.payload payload _) => some payload
  | _ => none

/-- The call of the core that a request leads to, if it is one that can change a
queue. -/
def callOf (arrival : Arrival) : Option Call :=
  let req := arrival.req
  if req.method = .post ∧ req.url = js "/enqueue" then
    (payloadOf node coerce arrival).map fun payload =>
      .enqueue (member payload "queue") (member payload "payload") arrival.ctx.clock
  else if req.method = .post ∧ req.url = js "/dequeue" then
    (payloadOf node coerce arrival).map fun payload => .dequeue (member payload "queue")
  else if req.method = .get ∧ (js "/peek").isPrefixOf req.url then
    (query req.url).map fun asked => .peek asked.1 asked.2
  else none

/-- What a request asks of the queue named history. -/
def historyOp (arrival : Arrival) : Option (Op Item) :=
  (callOf query node coerce arrival).bind (operation engine historyName)

variable {engine} {query} {node} {coerce}

/-! ## What the service does to its queues -/

/-- Only what is handed to the route has an effect. -/
theorem withBody_state {σ : Type} (arrival : Arrival) (state : σ)
    (f : Option Json → σ × Response) :
    (withBody node coerce arrival.ctx state arrival.req.body f).1
      = match payloadOf node coerce arrival with
        | some payload => (f payload).1
        | none => state := by
  unfold withBody payloadOf
  cases parseRequestBodyWithCrypto node coerce arrival.ctx arrival.req.body with
  | error message => rfl
  | ok parsed => cases parsed <;> rfl

theorem QUEUES_enqueueRoute (now : ℕ) (store : Store) (payload : Option Json) :
    (enqueueRoute engine now store payload).1.QUEUES
      = (call engine store.QUEUES
        (.enqueue (member payload "queue") (member payload "payload") now)).1 := by
  unfold enqueueRoute call
  dsimp only
  cases enqueue engine store.QUEUES (member payload "queue") (member payload "payload") now <;>
    rfl

theorem QUEUES_dequeueRoute (store : Store) (payload : Option Json) :
    (dequeueRoute engine store payload).1.QUEUES
      = (call engine store.QUEUES (.dequeue (member payload "queue"))).1 := by
  unfold dequeueRoute call
  dsimp only
  cases dequeue engine store.QUEUES (member payload "queue") <;> rfl

theorem QUEUES_answer (store : Store) (arrival : Arrival) :
    (answer query store arrival.req).1.QUEUES
      = if arrival.req.method = .get ∧ (js "/peek").isPrefixOf arrival.req.url then
          match query arrival.req.url with
          | some asked => (call engine store.QUEUES (.peek asked.1 asked.2)).1
          | none => store.QUEUES
        else store.QUEUES := by
  unfold answer
  by_cases hhealth : arrival.req.method = .get ∧ arrival.req.url = js "/health"
  · have hother : (js "/peek").isPrefixOf (js "/health") = false := by decide
    simp [hhealth, hother]
  · rw [if_neg hhealth]
    by_cases htasks : arrival.req.method = .get ∧ arrival.req.url = js "/tasks"
    · have hother : (js "/peek").isPrefixOf (js "/tasks") = false := by decide
      simp [htasks, hother]
    · rw [if_neg htasks]
      split_ifs with hpeek
      · cases query arrival.req.url with
        | none => rfl
        | some asked =>
          obtain ⟨queue, limit⟩ := asked
          dsimp only [call]
          cases peek store.QUEUES queue limit <;> rfl
      · rfl
      · rfl

/-- The service does to its queues what the core does. -/
theorem QUEUES_handle (store : Store) (arrival : Arrival) :
    ((service engine query).handle node coerce store arrival).1.QUEUES
      = match callOf query node coerce arrival with
        | some c => (call engine store.QUEUES c).1
        | none => store.QUEUES := by
  unfold Service.handle callOf
  dsimp only [service, route]
  by_cases hpush : arrival.req.method = .post ∧ arrival.req.url = js "/push"
  · have henqueue : js "/push" ≠ js "/enqueue" := by decide
    have hdequeue : js "/push" ≠ js "/dequeue" := by decide
    rw [if_pos hpush]
    dsimp only
    rw [withBody_state]
    simp only [hpush, henqueue, hdequeue, and_false, if_false, false_and, reduceCtorEq]
    cases payloadOf node coerce arrival <;> rfl
  · rw [if_neg hpush]
    split_ifs with henqueue hdequeue hpeek
    · dsimp only
      rw [withBody_state]
      cases payloadOf node coerce arrival with
      | none => rfl
      | some payload => exact QUEUES_enqueueRoute _ _ _
    · dsimp only
      rw [withBody_state]
      cases payloadOf node coerce arrival with
      | none => rfl
      | some payload => exact QUEUES_dequeueRoute _ _
    · dsimp only
      rw [@QUEUES_answer engine, if_pos hpeek]
      cases query arrival.req.url <;> rfl
    · dsimp only
      rw [@QUEUES_answer engine, if_neg hpeek]

/-! ## The queue and its log -/

/-- The log after a request. -/
def logged (engine : Engine) (query : JsString → Option (Option JsString × ℤ)) (node : NodeSign)
    (coerce : Coercions) (log : Fifo Item MAX_QUEUE_SIZE) (arrival : Arrival) :
    Fifo Item MAX_QUEUE_SIZE :=
  match historyOp engine query node coerce arrival with
  | some op => (step log op).1
  | none => log

theorem Tracks.handle {store : Store} {log : Fifo Item MAX_QUEUE_SIZE}
    (h : Tracks historyName store.QUEUES log) (arrival : Arrival) :
    Tracks historyName ((service engine query).handle node coerce store arrival).1.QUEUES
      (logged engine query node coerce log arrival) := by
  have hname : historyName ∉ objectPrototype := by decide
  rw [QUEUES_handle]
  unfold logged historyOp
  cases callOf query node coerce arrival with
  | none => exact h
  | some c =>
    dsimp only [Option.bind_some]
    cases hop : operation engine historyName c with
    | none => exact h.call_other hname hop
    | some op => exact (h.call hname hop).1

/-- A request to the service. -/
def HistoryQueue.handle (engine : Engine) (query : JsString → Option (Option JsString × ℤ))
    (node : NodeSign) (coerce : Coercions) (q : HistoryQueue) (arrival : Arrival) :
    HistoryQueue × Option Response :=
  (⟨((service engine query).handle node coerce q.store arrival).1,
      logged engine query node coerce q.log arrival, q.agrees.handle arrival⟩,
    ((service engine query).handle node coerce q.store arrival).2)

/-- `{ queue: "history" }` -/
def dequeueRequest : Json := .obj [(js "queue", .str historyName)]

def posted (ctx : Context) (path : String) (body : Json) : Arrival :=
  { ctx, req := { method := .post, url := js path, body := .json body } }

theorem payloadOf_posted {v : Json} (hplain : field v "version" ≠ some (.str routingVersion))
    (ctx : Context) (path : String) :
    payloadOf node coerce (posted ctx path v) = some (some v) := by
  rw [payloadOf, show (posted ctx path v).req.body = .json v from rfl, parse_plain hplain]

theorem log_handle (q : HistoryQueue) (arrival : Arrival) :
    (q.handle engine query node coerce arrival).1.log
      = logged engine query node coerce q.log arrival := rfl

theorem historyOp_dequeue (ctx : Context) :
    historyOp engine query node coerce (posted ctx "/dequeue" dequeueRequest) = some .pop := by
  have hplain : field dequeueRequest "version" ≠ some (.str routingVersion) := nofun
  have hcall : callOf query node coerce (posted ctx "/dequeue" dequeueRequest)
      = some (.dequeue (some (.str historyName))) := by
    unfold callOf
    rw [payloadOf_posted hplain]
    rfl
  rw [historyOp, hcall]
  rfl

/-- What a worker asks for is the oldest item. -/
theorem handle_dequeue (q : HistoryQueue) (ctx : Context) :
    (q.handle engine query node coerce (posted ctx "/dequeue" dequeueRequest)).1.log = q.log.tail ∧
      (q.handle engine query node coerce (posted ctx "/dequeue" dequeueRequest)).2
        = some
          { status := 200
            body := ((q.log.head?.map Prod.snd).map Item.toJson).getD
              (.obj [(js "empty", .bool true)]) } := by
  constructor
  · rw [log_handle, logged, historyOp_dequeue]
    rfl
  · have hkey : engine.propertyKey (member (some dequeueRequest) "queue") = .ok historyName := rfl
    show (withBody node coerce ctx q.store (.json dequeueRequest)
      (dequeueRoute engine q.store)).2 = _
    have hplain : field dequeueRequest "version" ≠ some (.str routingVersion) := nofun
    rw [withBody_of_payload (parse_plain hplain), dequeueRoute, dequeue_eq (by decide) hkey,
      q.agrees, Fifo.head?_eq]
    cases q.log.contents with
    | nil => rfl
    | cons item items => rfl

theorem historyOp_enqueue (ctx : Context) (item : Json) :
    historyOp engine query node coerce (posted ctx "/enqueue" (historyRequest item))
      = some (.push { ts := ctx.clock, payload := some item }) := by
  have hplain : field (historyRequest item) "version" ≠ some (.str routingVersion) := nofun
  have hcall : callOf query node coerce (posted ctx "/enqueue" (historyRequest item))
      = some (.enqueue (some (.str historyName)) (some item) ctx.clock) := by
    unfold callOf
    rw [payloadOf_posted hplain]
    rfl
  rw [historyOp, hcall]
  rfl

/-- What a publisher asks for is an item more. -/
theorem handle_enqueue (q : HistoryQueue) (ctx : Context) (item : Json) :
    (q.handle engine query node coerce (posted ctx "/enqueue" (historyRequest item))).1.log
      = q.log.push { ts := ctx.clock, payload := some item } := by
  rw [log_handle, logged, historyOp_enqueue]
  rfl

end NewZone.Services.Queue
