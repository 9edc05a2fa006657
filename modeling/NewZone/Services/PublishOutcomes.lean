import NewZone.Services.Forward
import NewZone.Services.HistoryQueue

/-!
# What a publication reports

`POST /publish` over a network that may fail.  The event server looks at the
result of the store, but not at the result of the enqueue.  So a publication that
is answered 200 has put its item into the queue named history exactly when its
second request has reached the queue service.
-/

namespace NewZone.Services.Publish

open NewZone.Js NewZone.Js.Json NewZone.BoundedFifo NewZone.Crypto
open NewZone.Crypto.SignedPacket (knownBody)
open NewZone.Crypto.RoutingPacket (routingVersion)
open NewZone.Services.Storage (Objects generateHash isObject)
open NewZone.Services.Queue (HistoryQueue Item posted handle_enqueue)

/-- The state of the storage server, the queue with its log, and the event bus. -/
structure LoggedWorld where
  storage : Objects
  history : HistoryQueue
  EVENTS : List EventBus.Event

/-- What becomes of the two requests that a publication forwards. -/
structure Deliveries where
  store : Delivery
  enqueue : Delivery

variable (P : Platform) (query : JsString → Option (Option JsString × ℤ))

/-- `POST /enqueue` with the item, as it reaches the queue service. -/
def enqueued (ctx : Context) (history : HistoryQueue) (item : Json) :
    HistoryQueue × Option Response :=
  history.handle P.engine query P.node P.coerce (posted ctx "/enqueue" (historyRequest item))

/-- `POST /publish` -/
def publishOver (deliveries : Deliveries) (ctx : Contexts) (w : LoggedWorld) (body : Body) :
    LoggedWorld × Option Response :=
  match check P ctx.event body with
  | .silent => (w, none)
  | .answered response => (w, some response)
  | .verified eventPayload =>
    let (storage, result) := deliveries.store.outcome w.storage
      (forwardStore P ctx.storage w.storage eventPayload)
    if result.status ≠ 200 then
      ({ w with storage }, some
        { status := 500
          body := .obj [(js "error", .str (js "CAS store failed")),
            (js "detail", result.body)] })
    else
      let hash_id := field result.body "hash_id"
      let item := historyItem hash_id eventPayload
      let (history, _) := deliveries.enqueue.outcome w.history
        (enqueued P query ctx.queue w.history item)
      let EVENTS := EventBus.publishEvent w.EVENTS (some (.str (js "signed_event")))
        (some (.str (js "event-service"))) (some item) ctx.event.clock
      ({ storage, history, EVENTS }, some (published hash_id))

variable {P} {query}

/-! ## What a publication has done -/

/-- The payload is stored under the hash that is answered, and its item has been
put into the queue. -/
def Done (ctx : Contexts) (w w' : LoggedWorld) (eventPayload : Json) (response : Response) :
    Prop :=
  ∃ hash_id, response = published (some (.str hash_id)) ∧
    w'.storage.get hash_id = some eventPayload ∧
    w'.history.log.log = w.history.log.log ++
      [{ ts := ctx.queue.clock
         payload := some (historyItem (some (.str hash_id)) eventPayload) }]

/-- Where an object is stored, the payload has been sent. -/
theorem forwardBody_of_object {ctx : Context} {eventPayload object : Json} {crypto : Bool}
    (hparse : Services.parseRequestBodyWithCrypto P.node P.coerce ctx
      (forwardBody eventPayload) = .ok (.payload (some object) crypto))
    (hobject : isObject object = true) : forwardBody eventPayload = .json eventPayload := by
  unfold forwardBody at hparse ⊢
  split_ifs at hparse ⊢ with htruthy
  · rfl
  · obtain ⟨hnull, -⟩ := Parsed.payload.inj (Except.ok.inj hparse)
    obtain rfl := Option.some.inj hnull
    cases hobject

/-- What is answered 200 has been verified and stored. -/
theorem of_publishOver {deliveries : Deliveries} {ctx : Contexts} {w w' : LoggedWorld}
    {body : Body} {response : Response}
    (h : publishOver P query deliveries ctx w body = (w', some response))
    (hstatus : response.status = 200) :
    ∃ eventPayload object crypto,
      check P ctx.event body = .verified eventPayload ∧
      Services.parseRequestBodyWithCrypto P.node P.coerce ctx.storage
        (.json eventPayload) = .ok (.payload (some object) crypto) ∧
      response = published (some (.str (generateHash P.hash object))) ∧
      w'.storage = w.storage.set (generateHash P.hash object) object ∧
      w'.history = (deliveries.enqueue.outcome w.history
        (enqueued P query ctx.queue w.history
          (historyItem (some (.str (generateHash P.hash object))) eventPayload))).1 := by
  unfold publishOver at h
  cases hcheck : check P ctx.event body with
  | silent =>
    rw [hcheck] at h
    cases h
  | answered answer =>
    rw [hcheck] at h
    obtain rfl := Option.some.inj (Prod.mk.inj h).2
    exact absurd hstatus (status_of_check hcheck)
  | verified eventPayload =>
    rw [hcheck] at h
    dsimp only at h
    cases hstore : deliveries.store.outcome w.storage
        (forwardStore P ctx.storage w.storage eventPayload) with
    | mk storage result =>
    rw [hstore] at h
    dsimp only at h
    split_ifs at h with hresult
    · obtain rfl := Option.some.inj (Prod.mk.inj h).2
      cases hstatus
    · obtain ⟨-, hstored⟩ := Delivery.outcome_ok hstore (not_not.mp hresult)
      obtain ⟨object, crypto, hparse, hobject, rfl, rfl⟩ :=
        forwardStore_ok_iff.mp ⟨hstored, not_not.mp hresult⟩
      rw [forwardBody_of_object hparse hobject] at hparse
      have hfield : field (.obj [(js "hash_id", .str (generateHash P.hash object))])
          "hash_id" = some (.str (generateHash P.hash object)) := rfl
      rw [hfield] at h
      obtain ⟨rfl, hanswer⟩ := Prod.mk.inj h
      exact ⟨eventPayload, object, crypto, rfl, hparse, (Option.some.inj hanswer).symm, rfl, rfl⟩

/-- **When a publication has done what it reports.**  Whatever becomes of the two
requests, a publication that is answered 200 has stored its payload and has put
its item into the queue, exactly when the second request reaches the queue
service and the payload is no routing packet, which the storage server would
unwrap. -/
theorem done_iff {deliveries : Deliveries} {ctx : Contexts} {w w' : LoggedWorld}
    {body : Body} {response : Response}
    (h : publishOver P query deliveries ctx w body = (w', some response))
    (hstatus : response.status = 200) :
    ∃ eventPayload, check P ctx.event body = .verified eventPayload ∧
      (Done ctx w w' eventPayload response ↔
        deliveries.enqueue.Arrives ∧
          field eventPayload "version" ≠ some (.str routingVersion)) := by
  obtain ⟨eventPayload, object, crypto, hcheck, hparse, rfl, hstorage, hhistory⟩ :=
    of_publishOver h hstatus
  refine ⟨eventPayload, hcheck, ?_⟩
  have hget : w'.storage.get (generateHash P.hash object) = some object := by
    rw [hstorage]
    exact PlainObject.get_set_self _ _ _
  constructor
  · rintro ⟨hash_id, hanswer, hstored, hlog⟩
    have hbody := congrArg (fun response => field response.body "hash_id") hanswer
    obtain rfl : generateHash P.hash object = hash_id :=
      Json.str.inj (Option.some.inj hbody)
    obtain rfl : object = eventPayload := Option.some.inj (hget.symm.trans hstored)
    constructor
    · by_contra hlost
      rw [hhistory, Delivery.outcome_of_not_arrives hlost] at hlog
      simp at hlog
    · intro hversion
      -- what is stored would be a part of the payload
      obtain ⟨node_id, haccepted⟩ := accepted_of_packet hversion hparse
      have hpart : some object = field object "payload" := payload_of_accepted haccepted
      exact field_ne_self object "payload" hpart.symm
  · rintro ⟨harrives, hversion⟩
    rw [parse_plain hversion] at hparse
    obtain ⟨hsame, -⟩ := Parsed.payload.inj (Except.ok.inj hparse)
    obtain rfl := Option.some.inj hsame
    refine ⟨_, rfl, hget, ?_⟩
    rw [hhistory, Delivery.outcome_of_arrives harrives, enqueued, handle_enqueue,
      Fifo.log_push]

/-- What is verified and stored is answered 200, whatever becomes of the second
request. -/
theorem exists_publishOver {ctx : Contexts} (w : LoggedWorld) {body : Body}
    {eventPayload object : Json} {crypto : Bool} (enqueue : Delivery)
    (hcheck : check P ctx.event body = .verified eventPayload)
    (hparse : Services.parseRequestBodyWithCrypto P.node P.coerce ctx.storage
      (forwardBody eventPayload) = .ok (.payload (some object) crypto))
    (hobject : isObject object = true) :
    ∃ w', publishOver P query ⟨.answered, enqueue⟩ ctx w body
      = (w', some (published (some (.str (generateHash P.hash object))))) := by
  obtain ⟨hstore, -⟩ := (@forwardStore_ok_iff P ctx.storage w.storage _ eventPayload _).mpr
    ⟨object, crypto, hparse, hobject, rfl, rfl⟩
  have hfield : field (.obj [(js "hash_id", .str (generateHash P.hash object))])
      "hash_id" = some (.str (generateHash P.hash object)) := rfl
  unfold publishOver
  rw [hcheck]
  dsimp only [Delivery.outcome]
  rw [hstore, forwarded_some]
  dsimp only
  rw [if_neg fun h => h rfl, hfield]
  exact ⟨_, rfl⟩

/-! ## The known event -/

/-- The three servers have just been started. -/
def LoggedWorld.initial : LoggedWorld :=
  { storage := .empty, history := .initial, EVENTS := [] }

/-- The publication of the known event. -/
def publishKnown (enqueue : Delivery) : LoggedWorld × Option Response :=
  publishOver (publisher pingHash knownBody pingSignature) (fun _ => none)
    ⟨.answered, enqueue⟩ knownContexts .initial (.json (eventRequest knownBody pingSignature))

theorem check_known :
    check (publisher pingHash knownBody pingSignature) knownContexts.event
      (.json (eventRequest knownBody pingSignature)) = .verified knownBody :=
  check_publisher pingHash rfl (by decide)

theorem exists_publishKnown (enqueue : Delivery) :
    ∃ w', publishKnown enqueue
      = (w', some (published (some (.str (generateHash pingHash knownBody))))) := by
  have hplain : field knownBody "version" ≠ some (.str routingVersion) := nofun
  exact exists_publishOver .initial enqueue check_known (parse_plain hplain) rfl

theorem done_known :
    ∃ w' response, publishKnown .answered = (w', some response) ∧ response.status = 200 ∧
      Done knownContexts .initial w' knownBody response := by
  obtain ⟨w', hpublish⟩ := exists_publishKnown .answered
  obtain ⟨eventPayload, hcheck, hdone⟩ := done_iff hpublish rfl
  obtain rfl := Checked.verified.inj (check_known.symm.trans hcheck)
  exact ⟨w', _, hpublish, rfl, hdone.mpr ⟨trivial, nofun⟩⟩

/-- **The queue service is down.**  The publication is answered 200, and nothing
has been put into the queue. -/
theorem unqueued_answered :
    ∃ w' response, publishKnown (.lost (js "connect ECONNREFUSED 127.0.0.1:3013"))
        = (w', some response) ∧ response.status = 200 ∧
      w'.history.log.log = [] ∧ ¬ Done knownContexts .initial w' knownBody response := by
  obtain ⟨w', hpublish⟩ := exists_publishKnown (.lost (js "connect ECONNREFUSED 127.0.0.1:3013"))
  obtain ⟨eventPayload, object, crypto, -, -, -, -, hhistory⟩ := of_publishOver hpublish rfl
  have hlog : w'.history.log.log = [] := by
    rw [hhistory]
    rfl
  refine ⟨w', _, hpublish, rfl, hlog, ?_⟩
  rintro ⟨hash_id, -, -, hitem⟩
  rw [hlog] at hitem
  simp at hitem

end NewZone.Services.Publish
