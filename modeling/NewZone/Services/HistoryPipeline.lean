import NewZone.Lib.Runs
import NewZone.Services.Forward
import NewZone.Services.HistoryQueue

/-!
# From the publishers to the rules

`processHistoryQueue` of `services/rules/server.js` polls the queue named history
and passes what it gets to `evaluateRules`.  The worker waits for one answer at a
time.  It may give up on an answer that is still on its way, and the queue may
get a request that nobody waits for any longer.

Each answer on its way keeps what the queue has popped for it, with its ticket.
The worker does not see this.  It only serves to tell the items apart.
-/

namespace NewZone.Services.HistoryPipeline

open NewZone.Js NewZone.Js.Json NewZone.BoundedFifo NewZone.Runs NewZone.Crypto
open NewZone.Crypto.SignedPacket (Coercions present)
open NewZone.Services.Queue
open NewZone.Services.Publish (historyItem historyRequest)

/-- What the worker makes of the result of `forward`: nothing, or the context of
an evaluation. -/
def contextOf (result : Response) : Option Json :=
  if result.status = 200 ∧ result.body.truthy ∧ present result.body "empty" = none then
    some ((present result.body "payload").getD (.obj []))
  else none

/-- An answer on its way. -/
structure Answered where
  attempt : ℕ
  response : Response
  popped : Option (ℕ × Item)

/-- A call of `evaluateRules`. -/
structure Evaluation where
  popped : Option (ℕ × Item)
  context : Json

structure World where
  queue : HistoryQueue
  /-- The attempt whose answer the worker waits for. -/
  waiting : Option ℕ
  attempts : ℕ
  requests : List ℕ
  responses : List Answered
  evaluated : List Evaluation

def World.initial : World where
  queue := .initial
  waiting := none
  attempts := 0
  requests := []
  responses := []
  evaluated := []

/-- The worker stops waiting. -/
def World.resume (w : World) (popped : Option (ℕ × Item)) (result : Response) : World :=
  { w with
    waiting := none
    evaluated := w.evaluated ++ ((contextOf result).map fun context => ⟨popped, context⟩).toList }

/-- What an observer sees of a step. -/
inductive Event where
  | enqueued (item : Json)
  | other

def Event.item? : Event → Option Json
  | .enqueued item => some item
  | .other => none

section Steps

variable (engine : Engine) (query : JsString → Option (Option JsString × ℤ))
  (node : NodeSign) (coerce : Coercions)

/-- The steps of the publishers, of the worker, and of the network. -/
inductive Step : World → Event → World → Prop
  /-- The queue gets an item from a publisher. -/
  | publish (w : World) (ctx : Context) (hash_id : Option Json) (eventPayload : Json) :
    Step w (.enqueued (historyItem hash_id eventPayload))
      { w with
        queue := (w.queue.handle engine query node coerce
          (posted ctx "/enqueue" (historyRequest (historyItem hash_id eventPayload)))).1 }
  /-- The queue service gets any other request.  After one that ends its process nothing
  would come, so this allows more runs than there are. -/
  | request (w : World) (arrival : Arrival)
    (hother : ∀ item, historyOp engine query node coerce arrival ≠ some (.push item)) :
    Step w .other { w with queue := (w.queue.handle engine query node coerce arrival).1 }
  | poll (w : World) (hidle : w.waiting = none) :
    Step w .other
      { w with
        waiting := some w.attempts
        attempts := w.attempts + 1
        requests := w.attempts :: w.requests }
  /-- The queue service gets the request of an attempt. -/
  | deliver (w : World) (ctx : Context) {attempt : ℕ} (response : Response)
    (hrequest : attempt ∈ w.requests)
    (hresponse : (w.queue.handle engine query node coerce
      (posted ctx "/dequeue" dequeueRequest)).2 = some response) :
    Step w .other
      { w with
        queue := (w.queue.handle engine query node coerce
          (posted ctx "/dequeue" dequeueRequest)).1
        requests := w.requests.erase attempt
        responses := ⟨attempt, response, w.queue.log.head?⟩ :: w.responses }
  | loseRequest (w : World) (attempt : ℕ) :
    Step w .other { w with requests := w.requests.erase attempt }
  | loseResponse (w : World) {before after : List Answered} {answer : Answered}
    (hresponses : w.responses = before ++ answer :: after) :
    Step w .other { w with responses := before ++ after }
  /-- The connection fails, and the worker is told. -/
  | fail (w : World) (detail : JsString) (hwaiting : w.waiting ≠ none) :
    Step w .other (w.resume none (forwardError detail))
  | receive (w : World) {before after : List Answered} {answer : Answered}
    (hresponses : w.responses = before ++ answer :: after)
    (hwaiting : w.waiting = some answer.attempt) :
    Step w .other
      ({ w with responses := before ++ after }.resume answer.popped answer.response)

end Steps

/-! ## What the worker makes of an answer -/

/-- An item of a publisher is passed on as it is. -/
theorem contextOf_item {item : Item} {hash_id : Option Json} {eventPayload : Json}
    (h : item.payload = some (historyItem hash_id eventPayload)) :
    contextOf { status := 200, body := item.toJson } = some (historyItem hash_id eventPayload) := by
  rw [Item.toJson, h]
  rfl

/-- What the queue answers to the worker is what it has popped. -/
theorem contextOf_dequeued {found : Option (ℕ × Item)} {context : Json}
    (hitems : ∀ p ∈ found, ∃ hash_id eventPayload,
      p.2.payload = some (historyItem hash_id eventPayload))
    (h : contextOf
      { status := 200
        body := ((found.map Prod.snd).map Item.toJson).getD (.obj [(js "empty", .bool true)]) }
      = some context) :
    ∃ p, found = some p ∧ p.2.payload = some context := by
  cases found with
  | none => cases h
  | some p =>
    obtain ⟨hash_id, eventPayload, hpayload⟩ := hitems p rfl
    have hcontext := contextOf_item hpayload
    rw [Option.map_some, Option.map_some, Option.getD_some, hcontext] at h
    exact ⟨p, rfl, hpayload.trans h⟩

/-! ## The invariant -/

/-- What the queue knows of an item that it has popped. -/
def Gone (queue : HistoryQueue) (popped : Option (ℕ × Item)) (context : Json) : Prop :=
  ∃ p, popped = some p ∧ p.1 < queue.log.gone ∧ queue.log.log[p.1]? = some p.2 ∧
    p.2.payload = some context

/-- All that is evaluated, or on its way to be evaluated, has been popped, and what
is on its way to a worker that waits for it has been popped after all that is
evaluated. -/
structure Invariant (es : List Event) (w : World) : Prop where
  published : w.queue.log.log.map Item.payload = (es.filterMap Event.item?).map some
  items : ∀ item ∈ w.queue.log.log, ∃ hash_id eventPayload,
    item.payload = some (historyItem hash_id eventPayload)
  waiting : ∀ attempt, w.waiting = some attempt → attempt < w.attempts
  requests : ∀ attempt ∈ w.requests, attempt < w.attempts
  responses : ∀ answer ∈ w.responses, answer.attempt < w.attempts
  answered : ∀ answer ∈ w.responses, ∀ context, contextOf answer.response = some context →
    Gone w.queue answer.popped context
  evaluated : ∀ e ∈ w.evaluated, Gone w.queue e.popped e.context
  ordered : (w.evaluated.filterMap Evaluation.popped).Pairwise fun p p' => p.1 < p'.1
  fresh : ∀ answer ∈ w.responses, w.waiting = some answer.attempt →
    ∀ p ∈ answer.popped, ∀ e ∈ w.evaluated, ∀ p' ∈ e.popped, p'.1 < p.1

theorem invariant_initial : Invariant [] World.initial where
  published := rfl
  items := nofun
  waiting := nofun
  requests := nofun
  responses := nofun
  answered := nofun
  evaluated := nofun
  ordered := .nil
  fresh := nofun

theorem Gone.later {queue queue' : HistoryQueue} (hlater : queue.log.Later queue'.log)
    {popped : Option (ℕ × Item)} {context : Json} (h : Gone queue popped context) :
    Gone queue' popped context := by
  obtain ⟨p, hp, hgone, hget, hpayload⟩ := h
  exact ⟨p, hp, hgone.trans_le hlater.gone, hlater.getElem? hget, hpayload⟩

variable {engine : Engine} {query : JsString → Option (Option JsString × ℤ)}
  {node : NodeSign} {coerce : Coercions} {es : List Event} {w w' : World}

theorem later_handle (q : HistoryQueue) (arrival : Arrival) :
    q.log.Later (q.handle engine query node coerce arrival).1.log := by
  rw [log_handle, logged]
  cases historyOp engine query node coerce arrival with
  | none => exact .refl _
  | some op => exact later_step _ _

/-- A request that is no publisher's leaves the log as it is. -/
theorem log_handle_of_other (q : HistoryQueue) {arrival : Arrival}
    (hother : ∀ item, historyOp engine query node coerce arrival ≠ some (.push item)) :
    (q.handle engine query node coerce arrival).1.log.log = q.log.log := by
  rw [log_handle, logged]
  cases hop : historyOp engine query node coerce arrival with
  | none => rfl
  | some op =>
    cases op with
    | push item => exact absurd hop (hother item)
    | pop => rfl
    | first k => rfl

/-- The queue goes on without the worker. -/
theorem Invariant.requeue (h : Invariant es w) {fs : List Event} {queue : HistoryQueue}
    (hlater : w.queue.log.Later queue.log)
    (hpublished : queue.log.log.map Item.payload = (fs.filterMap Event.item?).map some)
    (hitems : ∀ item ∈ queue.log.log, ∃ hash_id eventPayload,
      item.payload = some (historyItem hash_id eventPayload)) :
    Invariant fs { w with queue } where
  published := hpublished
  items := hitems
  waiting := h.waiting
  requests := h.requests
  responses := h.responses
  answered answer hanswer context hcontext := (h.answered answer hanswer context hcontext).later hlater
  evaluated e he := (h.evaluated e he).later hlater
  ordered := h.ordered
  fresh := h.fresh

/-- Messages get lost. -/
theorem Invariant.lose (h : Invariant es w) {requests : List ℕ} {responses : List Answered}
    (hrequests : requests ⊆ w.requests) (hresponses : responses ⊆ w.responses) :
    Invariant es { w with requests, responses } where
  published := h.published
  items := h.items
  waiting := h.waiting
  requests attempt hattempt := h.requests attempt (hrequests hattempt)
  responses answer hanswer := h.responses answer (hresponses hanswer)
  answered answer hanswer := h.answered answer (hresponses hanswer)
  evaluated := h.evaluated
  ordered := h.ordered
  fresh answer hanswer := h.fresh answer (hresponses hanswer)

/-- The worker asks again, and no answer on its way is for this attempt. -/
theorem Invariant.poll (h : Invariant es w) :
    Invariant es
      { w with
        waiting := some w.attempts
        attempts := w.attempts + 1
        requests := w.attempts :: w.requests } where
  published := h.published
  items := h.items
  waiting attempt hattempt := by
    obtain rfl := Option.some.inj hattempt
    exact Nat.lt_succ_self _
  requests attempt hattempt := by
    rcases List.mem_cons.mp hattempt with rfl | hattempt
    · exact Nat.lt_succ_self _
    · exact Nat.lt_succ_of_lt (h.requests attempt hattempt)
  responses answer hanswer := Nat.lt_succ_of_lt (h.responses answer hanswer)
  answered := h.answered
  evaluated := h.evaluated
  ordered := h.ordered
  fresh answer hanswer hwaiting := by
    have hlt := h.responses answer hanswer
    have heq : w.attempts = answer.attempt := Option.some.inj hwaiting
    omega

/-- What the queue pops has not been popped before. -/
theorem Invariant.deliver (h : Invariant es w) {ctx : Context} {attempt : ℕ}
    {response : Response} (hrequest : attempt ∈ w.requests)
    (hresponse : (w.queue.handle engine query node coerce
      (posted ctx "/dequeue" dequeueRequest)).2 = some response) :
    Invariant es
      { w with
        queue := (w.queue.handle engine query node coerce
          (posted ctx "/dequeue" dequeueRequest)).1
        requests := w.requests.erase attempt
        responses := ⟨attempt, response, w.queue.log.head?⟩ :: w.responses } := by
  obtain ⟨hlog, hanswer⟩ := @handle_dequeue engine query node coerce w.queue ctx
  obtain rfl := Option.some.inj (hanswer.symm.trans hresponse)
  have hlater := @later_handle engine query node coerce w.queue
    (posted ctx "/dequeue" dequeueRequest)
  have hsame : (w.queue.handle engine query node coerce
      (posted ctx "/dequeue" dequeueRequest)).1.log.log = w.queue.log.log := by
    rw [hlog]
    rfl
  generalize (w.queue.handle engine query node coerce
    (posted ctx "/dequeue" dequeueRequest)).1 = queue at hlog hlater hsame ⊢
  have hq := @Invariant.requeue _ _ h es _ hlater (by rw [hsame]; exact h.published)
    (by rw [hsame]; exact h.items)
  have hpop : ∀ p, w.queue.log.head? = some p →
      p.1 = w.queue.log.gone ∧ queue.log.gone = p.1 + 1 ∧ queue.log.log[p.1]? = some p.2 := by
    intro p hp
    obtain ⟨hticket, hget⟩ := Fifo.getElem?_of_head? hp
    exact ⟨hticket, by rw [hlog, Fifo.gone_tail_of_head? hp], by rw [hsame, hget]⟩
  constructor
  case published => exact hq.published
  case items => exact hq.items
  case waiting => exact hq.waiting
  case requests => exact fun a ha => h.requests a (List.mem_of_mem_erase ha)
  case evaluated => exact hq.evaluated
  case ordered => exact hq.ordered
  case responses =>
    intro answer hanswer
    rcases List.mem_cons.mp hanswer with rfl | hanswer
    · exact h.requests attempt hrequest
    · exact h.responses answer hanswer
  case answered =>
    intro answer hanswer context hcontext
    rcases List.mem_cons.mp hanswer with rfl | hanswer
    · have hitems : ∀ p ∈ w.queue.log.head?, ∃ hash_id eventPayload,
          p.2.payload = some (historyItem hash_id eventPayload) := by
        intro p hp
        obtain ⟨-, hget⟩ := Fifo.getElem?_of_head? hp
        exact h.items p.2 (List.mem_of_getElem? hget)
      obtain ⟨p, hp, hpayload⟩ := contextOf_dequeued hitems hcontext
      obtain ⟨-, hgone, hget⟩ := hpop p hp
      refine ⟨p, hp, ?_, hget, hpayload⟩
      show p.1 < queue.log.gone
      omega
    · exact hq.answered answer hanswer context hcontext
  case fresh =>
    intro answer hanswer hwaiting p hp e he p' hp'
    rcases List.mem_cons.mp hanswer with rfl | hanswer
    · obtain ⟨hticket, -, -⟩ := hpop p hp
      obtain ⟨p'', hp'', hgone, -⟩ := h.evaluated e he
      obtain rfl := Option.some.inj (hp'.symm.trans hp'')
      omega
    · exact h.fresh answer hanswer hwaiting p hp e he p' hp'

/-- The worker gets an answer, and evaluates what has been popped for it. -/
theorem Invariant.resume (h : Invariant es w) {popped : Option (ℕ × Item)} {result : Response}
    (hgone : ∀ context, contextOf result = some context → Gone w.queue popped context)
    (hfresh : ∀ p ∈ popped, ∀ e ∈ w.evaluated, ∀ p' ∈ e.popped, p'.1 < p.1) :
    Invariant es (w.resume popped result) := by
  constructor
  case published => exact h.published
  case items => exact h.items
  case waiting => exact nofun
  case requests => exact h.requests
  case responses => exact h.responses
  case answered => exact h.answered
  case fresh => exact fun _ _ hwaiting => absurd hwaiting nofun
  case evaluated =>
    intro e he
    rcases List.mem_append.mp he with he | he
    · exact h.evaluated e he
    · obtain ⟨context, hcontext, rfl⟩ := Option.map_eq_some_iff.mp (Option.mem_toList.mp he)
      exact hgone context hcontext
  case ordered =>
    show ((w.evaluated ++ _).filterMap Evaluation.popped).Pairwise _
    rw [List.filterMap_append]
    refine List.pairwise_append.mpr ⟨h.ordered, ?_, ?_⟩
    · cases contextOf result with
      | none => exact .nil
      | some context =>
        cases popped with
        | none => exact .nil
        | some p => exact List.pairwise_singleton _ _
    · intro p' hp' p hp
      obtain ⟨e, he, hp'⟩ := List.mem_filterMap.mp hp'
      obtain ⟨e', he', hp⟩ := List.mem_filterMap.mp hp
      obtain ⟨context, -, rfl⟩ := Option.map_eq_some_iff.mp (Option.mem_toList.mp he')
      exact hfresh p hp e he p' hp'

theorem published_snoc_other (h : Invariant es w) :
    w.queue.log.log.map Item.payload
      = ((es ++ [Event.other]).filterMap Event.item?).map some := by
  rw [h.published, List.filterMap_append]
  simp [Event.item?]

theorem Invariant.other (h : Invariant es w) : Invariant (es ++ [.other]) w :=
  h.requeue (.refl _) (published_snoc_other h) h.items

theorem Invariant.step {e : Event} (h : Invariant es w)
    (hstep : Step engine query node coerce w e w') : Invariant (es ++ [e]) w' := by
  cases hstep with
  | publish ctx hash_id eventPayload =>
    have hlog := @handle_enqueue engine query node coerce w.queue ctx
      (historyItem hash_id eventPayload)
    refine h.requeue (later_handle _ _) ?_ ?_
    · rw [hlog, Fifo.log_push, List.map_append, h.published, List.filterMap_append,
        List.map_append]
      rfl
    · rw [hlog, Fifo.log_push]
      intro item hitem
      rcases List.mem_append.mp hitem with hitem | hitem
      · exact h.items item hitem
      · obtain rfl := List.mem_singleton.mp hitem
        exact ⟨hash_id, eventPayload, rfl⟩
  | request arrival hother =>
    have hlog := @log_handle_of_other engine query node coerce w.queue arrival hother
    refine h.requeue (later_handle _ _) ?_ ?_
    · rw [hlog]
      exact published_snoc_other h
    · rw [hlog]
      exact h.items
  | poll hidle => exact h.other.poll
  | deliver ctx response hrequest hresponse => exact h.other.deliver hrequest hresponse
  | loseRequest attempt => exact h.other.lose (List.erase_subset) (List.Subset.refl _)
  | loseResponse hresponses =>
    refine h.other.lose (List.Subset.refl _) ?_
    rw [hresponses]
    intro answer hanswer
    simp only [List.mem_append, List.mem_cons] at hanswer ⊢
    tauto
  | fail detail hwaiting => exact h.other.resume nofun nofun
  | @receive before after answer hresponses hwaiting =>
    have hmem : answer ∈ w.responses := by
      rw [hresponses]
      exact List.mem_append_right _ List.mem_cons_self
    have hlose : before ++ after ⊆ w.responses := by
      rw [hresponses]
      intro other hother
      simp only [List.mem_append, List.mem_cons] at hother ⊢
      tauto
    exact (h.other.lose (List.Subset.refl _) hlose).resume (h.answered answer hmem)
      (h.fresh answer hmem hwaiting)

/-- The contexts are what the queue has popped. -/
theorem payloads_popped {queue : HistoryQueue} {evaluated : List Evaluation}
    (h : ∀ e ∈ evaluated, Gone queue e.popped e.context) :
    ((evaluated.filterMap Evaluation.popped).map Prod.snd).map Item.payload
      = (evaluated.map Evaluation.context).map some := by
  induction evaluated with
  | nil => rfl
  | cons e evaluated ih =>
    obtain ⟨p, hp, -, -, hpayload⟩ := h e List.mem_cons_self
    rw [List.filterMap_cons, hp]
    simp only [List.map_cons]
    rw [hpayload, ih fun e he => h e (List.mem_cons_of_mem _ he)]

/-- **The rules see the history in order.**  In every run, the contexts that are
evaluated are a part of the published items, in the order in which these were put
into the queue.  Each evaluation is of the item at its ticket, and the tickets
increase, so that no item is evaluated twice. -/
theorem history_in_order (hrun : Run (Step engine query node coerce) .initial es w) :
    (w.evaluated.map Evaluation.context).Sublist (es.filterMap Event.item?) ∧
      (w.evaluated.filterMap Evaluation.popped).Pairwise (fun p p' => p.1 < p'.1) ∧
      ∀ e ∈ w.evaluated, ∃ p, e.popped = some p ∧
        (es.filterMap Event.item?)[p.1]? = some e.context := by
  have h : Invariant es w :=
    hrun.history invariant_initial fun _ _ _ _ _ hinv hstep => hinv.step hstep
  refine ⟨?_, h.ordered, ?_⟩
  · have hsub : ((w.evaluated.filterMap Evaluation.popped).map Prod.snd).Sublist
        w.queue.log.log := by
      refine sublist_of_tickets h.ordered fun p hp => ?_
      obtain ⟨e, he, hp⟩ := List.mem_filterMap.mp hp
      obtain ⟨p', hp', -, hget, -⟩ := h.evaluated e he
      obtain rfl := Option.some.inj (hp.symm.trans hp')
      exact hget
    have hmap := hsub.map Item.payload
    rw [payloads_popped h.evaluated, h.published] at hmap
    simpa using hmap.filterMap id
  · intro e he
    obtain ⟨p, hp, -, hget, hpayload⟩ := h.evaluated e he
    refine ⟨p, hp, ?_⟩
    have hpublished : (w.queue.log.log.map Item.payload)[p.1]? = some (some e.context) := by
      rw [List.getElem?_map, hget, ← hpayload]
      rfl
    rw [h.published, List.getElem?_map] at hpublished
    obtain ⟨context, hcontext, heq⟩ := Option.map_eq_some_iff.mp hpublished
    rw [hcontext, Option.some.inj heq]

/-! ## A run -/

def firstItem : Json := historyItem (some (.str (js "hash"))) (.str (js "event"))

def secondItem : Json := historyItem (some (.str (js "other hash"))) (.str (js "other event"))

/-- Two items are published.  The answer with the first one is lost, and the worker polls
again. -/
theorem exists_evaluation (engine : Engine) (node : NodeSign) (coerce : Coercions)
    (ctx : Context) :
    ∃ w, Run (Step engine (fun _ => none) node coerce) .initial
        [.enqueued firstItem, .enqueued secondItem, .other, .other, .other, .other, .other,
          .other, .other] w ∧
      w.evaluated
        = [⟨some (1, { ts := ctx.clock, payload := some secondItem }), secondItem⟩] := by
  let handle := fun (q : HistoryQueue) arrival => (q.handle engine (fun _ => none) node coerce
    arrival).1
  let published := handle (handle .initial (posted ctx "/enqueue" (historyRequest firstItem)))
    (posted ctx "/enqueue" (historyRequest secondItem))
  let popped := handle published (posted ctx "/dequeue" dequeueRequest)
  have hpublished : published.log = (Fifo.push (Fifo.push .empty
      { ts := ctx.clock, payload := some firstItem })
      { ts := ctx.clock, payload := some secondItem }) :=
    (handle_enqueue _ ctx secondItem).trans
      (congrArg (Fifo.push · _) (handle_enqueue .initial ctx firstItem))
  obtain ⟨htail, hfirst⟩ := @handle_dequeue engine (fun _ => none) node coerce published ctx
  obtain ⟨-, hsecond⟩ := @handle_dequeue engine (fun _ => none) node coerce popped ctx
  have hhead : popped.log.head? = some (1, { ts := ctx.clock, payload := some secondItem }) := by
    rw [show popped.log = published.log.tail from htail, hpublished]
    simp [Fifo.head?, Fifo.tail, Fifo.push, Fifo.empty, MAX_QUEUE_SIZE]
  have hcontext : contextOf
      { status := 200
        body := ((popped.log.head?.map Prod.snd).map Item.toJson).getD
          (.obj [(js "empty", .bool true)]) } = some secondItem := by
    rw [hhead]
    exact contextOf_item rfl
  refine ⟨_, .cons (.publish .initial ctx _ _) (.cons (.publish _ ctx _ _) (.cons (.poll _ rfl)
    (.cons (.deliver _ ctx _ List.mem_cons_self hfirst)
      (.cons (@Step.loseResponse _ _ _ _ _ [] [] _ rfl)
        (.cons (.fail _ (js "socket hang up") (Option.some_ne_none _)) (.cons (.poll _ rfl)
          (.cons (.deliver _ ctx _ List.mem_cons_self hsecond)
            (.single (@Step.receive _ _ _ _ _ [] [] _ rfl rfl))))))))), ?_⟩
  dsimp only [World.resume, World.initial]
  rw [hcontext]
  exact congrArg (fun popped => [Evaluation.mk popped secondItem]) hhead

/-- The theorem for this run. -/
theorem history_in_order_known :
    ∃ w : World, (w.evaluated.map Evaluation.context).Sublist [firstItem, secondItem] ∧
      w.evaluated.map Evaluation.context = [secondItem] := by
  obtain ⟨w, hrun, hevaluated⟩ := exists_evaluation .plain RoutingPacket.knownNode
    SignedPacket.knownCoercions { knownNodes := .empty, clock := 7 }
  refine ⟨w, (history_in_order hrun).1, ?_⟩
  rw [hevaluated]
  rfl

end NewZone.Services.HistoryPipeline
