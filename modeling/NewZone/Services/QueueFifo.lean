import NewZone.Lib.BoundedFifo
import NewZone.Services.Queue

/-!
# The queues as bounded queues

Every queue that `listQueues` reports behaves like a bounded queue of its own.
The calls that name the queue are the operations of the reference, in order, and
the other calls are none of its business.  A name that every object inherits is
never reported.
-/

namespace NewZone.Services.Queue

open NewZone.Js NewZone.Js.Json NewZone.ExceptBind NewZone.BoundedFifo

/-! ## Runs of the core -/

/-- A call of the core.  A queue that is a text or `null` is what `peek` gets
from a URL. -/
inductive Call where
  | enqueue (queue payload : Option Json) (now : ℕ)
  | dequeue (queue : Option Json)
  | peek (queue : Option JsString) (limit : ℤ)
  | listQueues

inductive Reply where
  | enqueued (item : Item)
  | dequeued (item : Option Item)
  | peeked (items : List Item)
  | listed (queues : List Json)
  | thrown (message : String)

variable (engine : Engine)

/-- What throws has changed nothing. -/
def call (QUEUES : Queues) : Call → Queues × Reply
  | .enqueue queue payload now =>
    match enqueue engine QUEUES queue payload now with
    | .ok (QUEUES, item) => (QUEUES, .enqueued item)
    | .error message => (QUEUES, .thrown message)
  | .dequeue queue =>
    match dequeue engine QUEUES queue with
    | .ok (QUEUES, item) => (QUEUES, .dequeued item)
    | .error message => (QUEUES, .thrown message)
  | .peek queue limit =>
    match peek QUEUES queue limit with
    | .ok (QUEUES, items) => (QUEUES, .peeked items)
    | .error message => (QUEUES, .thrown message)
  | .listQueues => (QUEUES, .listed (listQueues QUEUES))

def run (QUEUES : Queues) : List Call → Queues × List Reply
  | [] => (QUEUES, [])
  | c :: calls =>
    let (QUEUES', reply) := call engine QUEUES c
    let (QUEUES'', replies) := run QUEUES' calls
    (QUEUES'', reply :: replies)

/-- The queue that is named. -/
def Call.names : Call → Option JsString
  | .enqueue queue _ _ => (engine.propertyKey queue).toOption
  | .dequeue queue => (engine.propertyKey queue).toOption
  | .peek queue _ => some (queue.getD (js "null"))
  | .listQueues => none

/-! ## The reference -/

/-- What a call asks of the queue that it names. -/
def Call.asks : Call → Option (Op Item)
  | .enqueue _ payload now => some (.push { ts := now, payload })
  | .dequeue _ => some .pop
  | .peek _ limit => if 0 ≤ limit then some (.first limit.toNat) else none
  | .listQueues => none

/-- What a call asks of the queue `n`. -/
def operation (n : JsString) (c : Call) : Option (Op Item) :=
  if c.names engine = some n then c.asks else none

/-- What the reference answers, as the core puts it. -/
def replyOf : Answer Item → Reply
  | .pushed item => .enqueued item
  | .popped found => .dequeued (found.map Prod.snd)
  | .listed items => .peeked items

/-- The replies to the calls that ask something of the queue `n`. -/
def repliesOn (n : JsString) : List Call → List Reply → List Reply
  | c :: calls, reply :: replies =>
    match operation engine n c with
    | some _ => reply :: repliesOn n calls replies
    | none => repliesOn n calls replies
  | _, _ => []

/-- The reference of the queue `n`, after the calls. -/
def reference (calls : List Call) (n : JsString) :
    Fifo Item MAX_QUEUE_SIZE × List (Answer Item) :=
  BoundedFifo.run .empty (calls.filterMap (operation engine n))

/-- The queue `n` is its reference: it holds the same items, and all its replies
are those of the reference, which pops the items in the order in which they were
enqueued and none of them twice.  A look at it changes nothing, and no call with
another name does. -/
structure RefinesFifo (calls : List Call) (n : JsString) : Prop where
  contents : (run engine .empty calls).1.get n = some (reference engine calls n).1.contents
  replies : repliesOn engine n calls (run engine .empty calls).2
    = (reference engine calls n).2.map replyOf
  enqueued : (reference engine calls n).1.log
    = (calls.filterMap (operation engine n)).filterMap Op.pushed?
  once : ((reference engine calls n).2.filterMap Answer.popped?).Pairwise
    fun p p' => p.1 < p'.1
  oldest : ∀ p ∈ (reference engine calls n).2.filterMap Answer.popped?,
    (reference engine calls n).1.log[p.1]? = some p.2
  peek : ∀ limit : ℤ, 0 ≤ limit →
    call engine (run engine .empty calls).1 (.peek (some n) limit)
      = ((run engine .empty calls).1,
        .peeked ((reference engine calls n).1.contents.take limit.toNat))
  apart : ∀ c : Call, c.names engine ≠ some n →
    (call engine (run engine .empty calls).1 c).1.get n
      = (run engine .empty calls).1.get n

/-! ## What one call does to a queue -/

theorem get_ensureQueue {n : JsString} (hn : n ∉ objectPrototype) (QUEUES : Queues) :
    (ensureQueue QUEUES n).get n = some ((QUEUES.get n).getD []) := by
  apply PlainObject.get_of_lookup
  rw [lookup_ensureQueue]
  cases hget : QUEUES.get n with
  | none =>
    rw [PlainObject.lookup_of_notMem hget hn]
    rfl
  | some items =>
    rw [PlainObject.lookup_of_get hget]
    rfl

theorem get_ensureQueue_of_ne {m n : JsString} (h : m ≠ n) (QUEUES : Queues) :
    (ensureQueue QUEUES m).get n = QUEUES.get n := by
  unfold ensureQueue
  split
  · exact PlainObject.get_set_of_ne _ h _
  · rfl

/-- A queue that is there is not made again. -/
theorem ensureQueue_of_get {QUEUES : Queues} {n : JsString} {items : List Item}
    (h : QUEUES.get n = some items) : ensureQueue QUEUES n = QUEUES := by
  rw [ensureQueue, PlainObject.lookup_of_get h]

variable {engine}

theorem enqueue_eq {n : JsString} (hn : n ∉ objectPrototype) {queue : Option Json}
    (hkey : engine.propertyKey queue = .ok n) (QUEUES : Queues) (payload : Option Json)
    (now : ℕ) :
    let item : Item := { ts := now, payload }
    let items := (QUEUES.get n).getD [] ++ [item]
    enqueue engine QUEUES queue payload now
      = .ok ((ensureQueue QUEUES n).set n
          (if items.length > MAX_QUEUE_SIZE then items.tail else items), item) := by
  intro item items
  unfold enqueue
  rw [bind_of_ok hkey]
  dsimp only
  rw [PlainObject.lookup_of_get (get_ensureQueue hn QUEUES)]
  rfl

theorem dequeue_eq {n : JsString} (hn : n ∉ objectPrototype) {queue : Option Json}
    (hkey : engine.propertyKey queue = .ok n) (QUEUES : Queues) :
    dequeue engine QUEUES queue
      = match (QUEUES.get n).getD [] with
        | [] => .ok (ensureQueue QUEUES n, none)
        | item :: items => .ok ((ensureQueue QUEUES n).set n items, some item) := by
  unfold dequeue
  rw [bind_of_ok hkey]
  dsimp only
  rw [PlainObject.lookup_of_get (get_ensureQueue hn QUEUES)]
  cases (QUEUES.get n).getD [] with
  | nil => rfl
  | cons item items => rfl

theorem peek_eq {n : JsString} (hn : n ∉ objectPrototype) {queue : Option JsString}
    (hname : queue.getD (js "null") = n) (QUEUES : Queues) (limit : ℤ) :
    peek QUEUES queue limit
      = .ok (ensureQueue QUEUES n, firstOf ((QUEUES.get n).getD []) limit) := by
  unfold peek
  dsimp only
  rw [hname, PlainObject.lookup_of_get (get_ensureQueue hn QUEUES)]

theorem firstOf_of_nonneg {α : Type} (list : List α) {limit : ℤ} (h : 0 ≤ limit) :
    firstOf list limit = list.take limit.toNat := if_neg (by omega)

/-! ## What a call leaves alone -/

/-- A call changes nothing, or it makes the queue that it names, unless it is
there, or it also puts a new list in it. -/
theorem call_cases (QUEUES : Queues) (c : Call) :
    (call engine QUEUES c).1 = QUEUES ∨
      ∃ m, c.names engine = some m ∧ QUEUES.lookup m ≠ .inherited ∧
        ((call engine QUEUES c).1 = ensureQueue QUEUES m ∨
          ∃ items, (call engine QUEUES c).1 = (ensureQueue QUEUES m).set m items) := by
  cases c with
  | enqueue queue payload now =>
    dsimp only [call, Call.names, enqueue]
    cases engine.propertyKey queue with
    | error message => exact .inl rfl
    | ok m =>
      dsimp only [bind, Except.bind]
      rw [lookup_ensureQueue]
      cases hlookup : QUEUES.lookup m with
      | own items => exact .inr ⟨m, rfl, by simp [hlookup], .inr ⟨_, rfl⟩⟩
      | missing => exact .inr ⟨m, rfl, by simp [hlookup], .inr ⟨_, rfl⟩⟩
      | inherited => exact .inl rfl
  | dequeue queue =>
    dsimp only [call, Call.names, dequeue]
    cases engine.propertyKey queue with
    | error message => exact .inl rfl
    | ok m =>
      dsimp only [bind, Except.bind]
      rw [lookup_ensureQueue]
      cases hlookup : QUEUES.lookup m with
      | own items =>
        cases items with
        | nil => exact .inr ⟨m, rfl, by simp [hlookup], .inl rfl⟩
        | cons item items => exact .inr ⟨m, rfl, by simp [hlookup], .inr ⟨_, rfl⟩⟩
      | missing => exact .inr ⟨m, rfl, by simp [hlookup], .inl rfl⟩
      | inherited =>
        left
        dsimp only
        split_ifs
        · show ensureQueue QUEUES m = QUEUES
          rw [ensureQueue, hlookup]
        · rfl
  | peek queue limit =>
    dsimp only [call, Call.names, peek]
    rw [lookup_ensureQueue]
    cases hlookup : QUEUES.lookup (queue.getD (js "null")) with
    | own items => exact .inr ⟨_, rfl, by simp [hlookup], .inl rfl⟩
    | missing => exact .inr ⟨_, rfl, by simp [hlookup], .inl rfl⟩
    | inherited => exact .inl rfl
  | listQueues => exact .inl rfl

/-- A call with another name, or with none, does not touch the queue. -/
theorem get_call_of_ne {c : Call} {n : JsString} (h : c.names engine ≠ some n)
    (QUEUES : Queues) : (call engine QUEUES c).1.get n = QUEUES.get n := by
  rcases @call_cases engine QUEUES c with hsame | ⟨m, hname, -, hmade | ⟨items, hset⟩⟩
  · rw [hsame]
  · have hne : m ≠ n := fun he => h (he ▸ hname)
    rw [hmade, get_ensureQueue_of_ne hne]
  · have hne : m ≠ n := fun he => h (he ▸ hname)
    rw [hset, PlainObject.get_set_of_ne _ hne, get_ensureQueue_of_ne hne]

/-- No queue gets a name that every object inherits. -/
theorem get_call_of_mem {n : JsString} (hn : n ∈ objectPrototype) {QUEUES : Queues}
    (h : QUEUES.get n = none) (c : Call) : (call engine QUEUES c).1.get n = none := by
  by_cases hname : c.names engine = some n
  · rcases @call_cases engine QUEUES c with hsame | ⟨m, hname', hfound, -⟩
    · rw [hsame, h]
    · have hm : m = n := Option.some.inj (hname'.symm.trans hname)
      rw [hm] at hfound
      exact absurd (PlainObject.lookup_of_mem h hn) hfound
  · rw [get_call_of_ne hname, h]

theorem get_run_of_mem {n : JsString} (hn : n ∈ objectPrototype) {QUEUES : Queues}
    (h : QUEUES.get n = none) (calls : List Call) :
    (run engine QUEUES calls).1.get n = none := by
  induction calls generalizing QUEUES with
  | nil => exact h
  | cons c calls ih => exact ih (get_call_of_mem hn h c)

/-! ## The simulation -/

/-- The queue holds what the reference holds, and is not there before the first
call that names it. -/
def Tracks (n : JsString) (QUEUES : Queues) (q : Fifo Item MAX_QUEUE_SIZE) : Prop :=
  (QUEUES.get n).getD [] = q.contents

variable {n : JsString} {QUEUES : Queues} {q : Fifo Item MAX_QUEUE_SIZE}

theorem Tracks.ensureQueue (h : Tracks n QUEUES q) (hn : n ∉ objectPrototype) :
    Tracks n (ensureQueue QUEUES n) q := by
  unfold Tracks
  rw [get_ensureQueue hn]
  exact h

/-- A call that asks something of the queue is a step of the reference. -/
theorem Tracks.call (h : Tracks n QUEUES q) (hn : n ∉ objectPrototype) {c : Call}
    {op : Op Item} (hop : operation engine n c = some op) :
    Tracks n (call engine QUEUES c).1 (step q op).1 ∧
      (call engine QUEUES c).2 = replyOf (step q op).2 := by
  unfold operation at hop
  split_ifs at hop with hname
  unfold Tracks at h
  cases c with
  | enqueue queue payload now =>
    obtain rfl := Option.some.inj hop
    have hkey := toOption_eq_some.mp hname
    dsimp only [Queue.call]
    rw [enqueue_eq hn hkey, h, Fifo.contents_push_eq_ite]
    refine ⟨?_, rfl⟩
    unfold Tracks
    rw [PlainObject.get_set_self]
    rfl
  | dequeue queue =>
    obtain rfl := Option.some.inj hop
    have hkey := toOption_eq_some.mp hname
    dsimp only [Queue.call, step]
    rw [dequeue_eq hn hkey, h, Fifo.head?_eq]
    unfold Tracks
    rw [Fifo.contents_tail]
    cases hcontents : q.contents with
    | nil =>
      refine ⟨?_, rfl⟩
      rw [get_ensureQueue hn, h, hcontents]
      rfl
    | cons item items =>
      refine ⟨?_, rfl⟩
      rw [PlainObject.get_set_self]
      rfl
  | peek queue limit =>
    dsimp only [Call.asks] at hop
    split_ifs at hop with hlimit
    obtain rfl := Option.some.inj hop
    dsimp only [Queue.call]
    rw [peek_eq hn (Option.some.inj hname), h, firstOf_of_nonneg _ hlimit]
    exact ⟨Tracks.ensureQueue h hn, rfl⟩
  | listQueues => cases hop

/-- Any other call is nothing to the reference. -/
theorem Tracks.call_other (h : Tracks n QUEUES q) (hn : n ∉ objectPrototype) {c : Call}
    (hop : operation engine n c = none) : Tracks n (Queue.call engine QUEUES c).1 q := by
  by_cases hname : c.names engine = some n
  · cases c with
    | enqueue queue payload now => simp [operation, hname, Call.asks] at hop
    | dequeue queue => simp [operation, hname, Call.asks] at hop
    | peek queue limit =>
      -- a look with a negative limit
      dsimp only [Queue.call]
      rw [peek_eq hn (Option.some.inj hname)]
      exact h.ensureQueue hn
    | listQueues => exact h
  · unfold Tracks
    rw [get_call_of_ne hname]
    exact h

theorem Tracks.run (h : Tracks n QUEUES q) (hn : n ∉ objectPrototype) (calls : List Call) :
    let operations := calls.filterMap (operation engine n)
    Tracks n (Queue.run engine QUEUES calls).1 (BoundedFifo.run q operations).1 ∧
      repliesOn engine n calls (Queue.run engine QUEUES calls).2
        = (BoundedFifo.run q operations).2.map replyOf := by
  induction calls generalizing QUEUES q with
  | nil => exact ⟨h, rfl⟩
  | cons c calls ih =>
    dsimp only [Queue.run, repliesOn]
    rw [List.filterMap_cons]
    cases hop : operation engine n c with
    | none => exact ih (h.call_other hn hop)
    | some op =>
      obtain ⟨hstep, hreply⟩ := h.call hn hop
      obtain ⟨hrun, hreplies⟩ := ih hstep
      refine ⟨hrun, ?_⟩
      rw [run_cons, List.map_cons, ← hreply, ← hreplies]

/-- **The queue is a bounded queue.**  Every queue that is reported refines the
reference of capacity `MAX_QUEUE_SIZE`, and is reported with its size. -/
theorem queue_refines_fifo (calls : List Call) {n : JsString} {size : Json}
    (hlisted : Json.obj [(js "name", .str n), (js "size", size)]
      ∈ listQueues (Queue.run engine .empty calls).1) :
    RefinesFifo engine calls n ∧
      size = .num (.ofNat (reference engine calls n).1.contents.length) := by
  obtain ⟨⟨n', items⟩, hmem, hentry⟩ := List.mem_map.mp hlisted
  have hget := PlainObject.get_eq_some_iff.mpr hmem
  simp only [Json.obj.injEq, List.cons.injEq, Prod.mk.injEq, Json.str.injEq, true_and,
    and_true] at hentry
  obtain ⟨rfl, rfl⟩ := hentry
  -- the name is none that an object inherits
  have hn : n' ∉ objectPrototype := by
    intro hn
    rw [get_run_of_mem hn (PlainObject.get_empty n')] at hget
    cases hget
  have hempty : Tracks n' .empty (.empty : Fifo Item MAX_QUEUE_SIZE) := rfl
  obtain ⟨htracks, hreplies⟩ := @Tracks.run engine _ _ _ hempty hn calls
  have hcontents : items = (reference engine calls n').1.contents := by
    unfold Tracks at htracks
    rw [hget] at htracks
    exact htracks
  refine ⟨⟨?_, hreplies, ?_, pairwise_popped _ _, fun p hp => (popped_run hp).2, ?_, ?_⟩, ?_⟩
  · rw [hget, hcontents]
  · exact log_run _ _
  · intro limit hlimit
    dsimp only [Queue.call]
    rw [peek_eq hn rfl, ensureQueue_of_get hget, hget, firstOf_of_nonneg _ hlimit, hcontents]
    rfl
  · exact fun c hname => get_call_of_ne hname _
  · rw [hcontents]

/-- Two publishers, and a worker that is done with the first. -/
def knownCalls : List Call :=
  [.enqueue (some (.str (js "history"))) (some (.bool true)) 7,
    .enqueue (some (.str (js "other"))) none 8,
    .enqueue (some (.str (js "history"))) (some .null) 9,
    .dequeue (some (.str (js "history")))]

theorem queue_refines_known :
    RefinesFifo .plain knownCalls (js "history") ∧
      Json.num (.ofNat 1) = .num (.ofNat (reference .plain knownCalls (js "history")).1.contents.length) :=
  queue_refines_fifo knownCalls (by
    show _ ∈ [_, _]
    exact List.mem_cons_self)

end NewZone.Services.Queue
