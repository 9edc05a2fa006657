import NewZone.Lib.Registry
import NewZone.Lib.Runs
import NewZone.Services.Directory
import NewZone.Services.EventQueries

/-!
# Subscriptions of the event bus

`publishEvent` of `services/event/index.js` with its calls to the subscribers, and
the subscriptions themselves.

A subscription is meant to be a follower of one type: it is told the events of its
type from the moment it is there until it is removed.  `Follower` says so for one
subscription by itself, and `notified_eq_followed` that the bus does it for all of them,
as long as its process lives.  A subscriber can also ask for the events, and `catches_up`
compares what it is answered with what it was told.

Nothing awaits the promises of the posts.  When one of them is rejected, because its
callback is no URL or is not reached, the process ends, and with it all subscriptions.

The ids that `Math.random` makes and the clock are arguments.
-/

namespace NewZone.Services.Subscriptions

open NewZone.Js NewZone.Registry NewZone.Runs NewZone.Services.EventBus
open NewZone.Services.Directory (strictEqual)

structure Subscription where
  id : JsString
  type : Option Json
  callback : Option Json

structure Bus where
  EVENTS : List Event
  SUBSCRIPTIONS : List Subscription

/-- An event that is posted to a callback. -/
structure Notification where
  subscription : Subscription
  event : Event

/-- The loop over the subscribers. -/
def notify (SUBSCRIPTIONS : List Subscription) (type : Option Json) (event : Event) :
    List Notification :=
  match SUBSCRIPTIONS with
  | [] => []
  | sub :: rest =>
    if strictEqual sub.type type then ⟨sub, event⟩ :: notify rest type event
    else notify rest type event

def publishEvent (bus : Bus) (p : Publication) : Bus × List Notification :=
  ({ bus with EVENTS := EventBus.publishEvent bus.EVENTS p.type p.source p.payload p.now },
    notify bus.SUBSCRIPTIONS p.type p.event)

def addSubscription (bus : Bus) (id : JsString) (type callback : Option Json) : Bus :=
  { bus with SUBSCRIPTIONS := bus.SUBSCRIPTIONS ++ [{ id, type, callback }] }

def removeSubscription (bus : Bus) (id : JsString) : Bus :=
  { bus with SUBSCRIPTIONS := bus.SUBSCRIPTIONS.eraseP fun s => s.id = id }

/-! ## Runs -/

inductive Call where
  | publish (p : Publication)
  | subscribe (id : JsString) (type callback : Option Json)
  | unsubscribe (id : JsString)
  /-- the promise of a post is rejected -/
  | reject

/-- A call with what is posted to the callbacks. -/
structure Label where
  call : Call
  notifications : List Notification

/-- What is left of the bus, and what it posts. -/
def after (bus : Bus) : Call → Option Bus × List Notification
  | .publish p => (some (publishEvent bus p).1, (publishEvent bus p).2)
  | .subscribe id type callback => (some (addSubscription bus id type callback), [])
  | .unsubscribe id => (some (removeSubscription bus id), [])
  | .reject => (none, [])

/-- A step of a process that lives. -/
def Step (process : Option Bus) (l : Label) (process' : Option Bus) : Prop :=
  ∃ bus, process = some bus ∧ after bus l.call = (process', l.notifications)

def Bus.empty : Bus := ⟨[], []⟩

/-- The id that a call gives. -/
def Label.given (l : Label) : Option JsString :=
  match l.call with
  | .subscribe id _ _ => some id
  | _ => none

/-- What a call publishes. -/
def Label.published (l : Label) : Option Publication :=
  match l.call with
  | .publish p => some p
  | _ => none

/-- No id is given twice. -/
def FreshIds (history : List Label) : Prop := (history.filterMap Label.given).Nodup

instance (history : List Label) : Decidable (FreshIds history) :=
  inferInstanceAs (Decidable (List.Nodup _))

def notified (history : List Label) : List Notification :=
  history.flatMap Label.notifications

/-- What a subscription is told. -/
def notifiedTo (id : JsString) (history : List Label) : List Notification :=
  (notified history).filter fun n => n.subscription.id = id

/-! ## One subscription by itself -/

/-- The subscription with the id, once it is there and as long as it is. -/
abbrev Follower := Option Subscription

def Follower.next (id : JsString) (f : Follower) : Call → Follower
  | .publish _ => f
  | .subscribe id' type callback => if id' = id then some ⟨id', type, callback⟩ else f
  | .unsubscribe id' => if id' = id then none else f
  | .reject => none

/-- It is told the events of its type. -/
def Follower.told (f : Follower) : Call → List Notification
  | .publish p =>
    match f with
    | some sub => if strictEqual sub.type p.type then [⟨sub, p.event⟩] else []
    | none => []
  | _ => []

/-- What a follower is told, one call after the other. -/
def Follower.followed (id : JsString) (f : Follower) : List Call → List Notification
  | [] => []
  | call :: calls => f.told call ++ Follower.followed id (f.next id call) calls

theorem Follower.followed_append (id : JsString) (f : Follower) (calls later : List Call) :
    f.followed id (calls ++ later)
      = f.followed id calls ++ Follower.followed id (calls.foldl (Follower.next id) f) later := by
  induction calls generalizing f with
  | nil => rfl
  | cons call calls ih =>
    rw [List.cons_append, followed, followed, ih, List.append_assoc]
    rfl

/-! ## The bus follows for all of them -/

/-- The subscription of an id. -/
def Bus.follower (bus : Bus) (id : JsString) : Follower :=
  bus.SUBSCRIPTIONS.find? fun s => s.id = id

theorem notify_eq_filter (SUBSCRIPTIONS : List Subscription) (type : Option Json)
    (event : Event) :
    notify SUBSCRIPTIONS type event
      = (SUBSCRIPTIONS.filter fun s => strictEqual s.type type).map fun s => ⟨s, event⟩ := by
  induction SUBSCRIPTIONS with
  | nil => rfl
  | cons sub rest ih =>
    rw [notify, ih]
    cases hequal : strictEqual sub.type type <;> simp [hequal]

/-- The bus and its history: the ids that are there have been given, each once, what
is kept are the last events, and every id has been told what its follower is. -/
structure Tracked (history : List Label) (bus : Bus) : Prop where
  given : ∀ s ∈ bus.SUBSCRIPTIONS, s.id ∈ history.filterMap Label.given
  keyed : Keyed Subscription.id bus.SUBSCRIPTIONS
  events : bus.EVENTS = publishAll (history.filterMap Label.published)
  follower : ∀ id, bus.follower id = (history.map Label.call).foldl (Follower.next id) none
  followed : ∀ id, notifiedTo id history
    = Follower.followed id none (history.map Label.call)

theorem tracked_empty : Tracked [] .empty where
  given := by simp [Bus.empty]
  keyed := keyed_nil
  events := rfl
  follower _ := rfl
  followed _ := rfl

section Steps

variable {history : List Label} {bus bus' : Bus}

/-- A publication tells a subscription what it tells its follower. -/
theorem filter_notify (h : Keyed Subscription.id bus.SUBSCRIPTIONS) (id : JsString)
    (p : Publication) :
    (notify bus.SUBSCRIPTIONS p.type p.event).filter (fun n => n.subscription.id = id)
      = (bus.follower id).told (.publish p) := by
  have hswap : (bus.SUBSCRIPTIONS.filter fun s => strictEqual s.type p.type).filter
      (fun s => s.id = id)
      = (bus.SUBSCRIPTIONS.filter fun s => s.id = id).filter
        fun s => strictEqual s.type p.type := by
    rw [List.filter_filter, List.filter_filter]
    simp only [Bool.and_comm]
  rw [notify_eq_filter, List.filter_map]
  show List.map _ ((bus.SUBSCRIPTIONS.filter fun s => strictEqual s.type p.type).filter
    fun s => s.id = id) = _
  rw [hswap, h.filter_eq id, Bus.follower]
  cases bus.SUBSCRIPTIONS.find? fun s => s.id = id with
  | none => rfl
  | some sub =>
    simp only [Option.toList_some, List.filter_cons, List.filter_nil, Follower.told]
    split <;> rfl

theorem notifiedTo_concat (id : JsString) (l : Label) :
    notifiedTo id (history ++ [l])
      = notifiedTo id history ++ l.notifications.filter fun n => n.subscription.id = id := by
  simp [notifiedTo, notified]

/-- The part of the invariant that is about the followers. -/
theorem Tracked.followers (h : Tracked history bus) (bus' : Bus) (l : Label)
    (hnext : ∀ id, bus'.follower id = (bus.follower id).next id l.call)
    (htold : ∀ id, l.notifications.filter (fun n => n.subscription.id = id)
      = (bus.follower id).told l.call) (id : JsString) :
    bus'.follower id = ((history ++ [l]).map Label.call).foldl (Follower.next id) none ∧
      notifiedTo id (history ++ [l])
        = Follower.followed id none ((history ++ [l]).map Label.call) := by
  rw [List.map_append, List.foldl_append, Follower.followed_append, ← h.follower id,
    notifiedTo_concat, h.followed id, htold id]
  refine ⟨hnext id, ?_⟩
  rw [List.map_singleton, Follower.followed, Follower.followed, List.append_nil]

theorem Tracked.publish (h : Tracked history bus) (p : Publication) :
    Tracked (history ++ [⟨.publish p, (publishEvent bus p).2⟩]) (publishEvent bus p).1 := by
  let l : Label := ⟨.publish p, (publishEvent bus p).2⟩
  have hboth := h.followers (publishEvent bus p).1 l (fun _ => rfl)
    fun id => filter_notify h.keyed id p
  have hgiven : (history ++ [l]).filterMap Label.given = history.filterMap Label.given := by
    rw [List.filterMap_append]
    exact List.append_nil _
  refine ⟨by rw [hgiven]; exact h.given, h.keyed, ?_, fun id => (hboth id).1,
    fun id => (hboth id).2⟩
  show EventBus.publishEvent bus.EVENTS p.type p.source p.payload p.now = _
  rw [h.events, List.filterMap_append, publishAll, publishAll, List.foldl_append]
  rfl

theorem Tracked.subscribe (h : Tracked history bus) {id : JsString}
    (hfresh : id ∉ history.filterMap Label.given) (type callback : Option Json) :
    Tracked (history ++ [⟨.subscribe id type callback, []⟩])
      (addSubscription bus id type callback) := by
  have hnew : ∀ s ∈ bus.SUBSCRIPTIONS, s.id ≠ id := fun s hs heq =>
    hfresh (heq ▸ h.given s hs)
  have hboth := h.followers (addSubscription bus id type callback)
    ⟨.subscribe id type callback, []⟩ (fun id' => find?_concat hnew id')
    fun _ => rfl
  refine ⟨?_, h.keyed.concat hnew, ?_, fun id => (hboth id).1, fun id => (hboth id).2⟩
  · intro s hs
    rw [List.filterMap_append, List.mem_append]
    rcases List.mem_append.mp hs with hs | hs
    · exact .inl (h.given s hs)
    · rw [List.mem_singleton.mp hs]
      exact .inr List.mem_cons_self
  · rw [List.filterMap_append]
    exact h.events.trans (congrArg publishAll (List.append_nil _).symm)

theorem Tracked.unsubscribe (h : Tracked history bus) (id : JsString) :
    Tracked (history ++ [⟨.unsubscribe id, []⟩]) (removeSubscription bus id) := by
  have hsub : (removeSubscription bus id).SUBSCRIPTIONS.Sublist bus.SUBSCRIPTIONS :=
    List.eraseP_sublist
  have hboth := h.followers (removeSubscription bus id)
    ⟨.unsubscribe id, []⟩ (fun id' => h.keyed.find?_eraseP id id') fun _ => rfl
  refine ⟨?_, h.keyed.of_sublist hsub, ?_, fun id => (hboth id).1, fun id => (hboth id).2⟩
  · intro s hs
    rw [List.filterMap_append]
    exact List.mem_append_left _ (h.given s (hsub.mem hs))
  · rw [List.filterMap_append]
    exact h.events.trans (congrArg publishAll (List.append_nil _).symm)

/-- What is reached by a run: a bus that is in step with the history, or its end. -/
structure Reached (history : List Label) (process : Option Bus) : Prop where
  tracked : ∀ bus, process = some bus → Tracked history bus
  followed : ∀ id, notifiedTo id history
    = Follower.followed id none (history.map Label.call)

theorem Tracked.reached (h : Tracked history bus) : Reached history (some bus) where
  tracked _ hbus := Option.some.inj hbus ▸ h
  followed := h.followed

theorem Reached.step {process process' : Option Bus} (h : Reached history process) {l : Label}
    (hstep : Step process l process') (hfresh : FreshIds (history ++ [l])) :
    Reached (history ++ [l]) process' := by
  obtain ⟨bus, rfl, hafter⟩ := hstep
  have hbus := h.tracked bus rfl
  obtain ⟨call, notifications⟩ := l
  cases call with
  | publish p =>
    obtain ⟨rfl, rfl⟩ := Prod.mk.inj hafter
    exact (hbus.publish p).reached
  | subscribe id type callback =>
    obtain ⟨rfl, rfl⟩ := Prod.mk.inj hafter
    refine (hbus.subscribe (fun hid => ?_) type callback).reached
    rw [FreshIds, List.filterMap_append] at hfresh
    exact (List.nodup_append.mp hfresh).2.2 id hid id List.mem_cons_self rfl
  | unsubscribe id =>
    obtain ⟨rfl, rfl⟩ := Prod.mk.inj hafter
    exact (hbus.unsubscribe id).reached
  | reject =>
    obtain ⟨rfl, rfl⟩ := Prod.mk.inj hafter
    refine ⟨nofun, fun id => ?_⟩
    rw [notifiedTo_concat, List.map_append, Follower.followed_append, h.followed id]
    rfl

end Steps

theorem reached_of_run {history : List Label} {process : Option Bus}
    (hrun : Run Step (some .empty) history process) (hfresh : FreshIds history) :
    Reached history process :=
  hrun.history tracked_empty.reached fun _ _ _ _ hpre h hstep =>
    h.step hstep (List.Nodup.sublist (hpre.sublist.filterMap _) hfresh)

theorem tracked_of_run {history : List Label} {bus : Bus}
    (hrun : Run Step (some .empty) history (some bus)) (hfresh : FreshIds history) :
    Tracked history bus := (reached_of_run hrun hfresh).tracked bus rfl

/-- **Every subscription is followed.**  In every run, what is posted for the id of a
subscription is what its follower is told: the events of its type that are published
while it is there, each once and in their order, to its callback, until the run ends or
the rejection of a post ends the process. -/
theorem notified_eq_followed {history : List Label} {process : Option Bus}
    (hrun : Run Step (some .empty) history process) (hfresh : FreshIds history)
    (id : JsString) :
    notifiedTo id history = Follower.followed id none (history.map Label.call) :=
  (reached_of_run hrun hfresh).followed id

/-- The callback of the known subscription. -/
def knownCallback : Option Json := some (.str (js "http://127.0.0.1:3998/dead"))

/-- A subscription to the events of the type `a`, after one of them has been published. -/
def knownSubscribe : Call := .subscribe (js "sub-1") (some (.str (js "a"))) knownCallback

def knownSubscription : Subscription := ⟨js "sub-1", some (.str (js "a")), knownCallback⟩

def knownHistory : List Label :=
  [⟨.publish knownPublication, []⟩, ⟨knownSubscribe, []⟩,
    ⟨.publish knownPublication, [⟨knownSubscription, knownPublication.event⟩]⟩]

def knownBus : Bus :=
  ⟨[knownPublication.event, knownPublication.event], [knownSubscription]⟩

theorem run_known : Run Step (some .empty) knownHistory (some knownBus) := by
  have hfirst : Step (some .empty) ⟨.publish knownPublication, []⟩
      (some ⟨[knownPublication.event], []⟩) := ⟨_, rfl, rfl⟩
  have hsubscribe : Step (some ⟨[knownPublication.event], []⟩) ⟨knownSubscribe, []⟩
      (some ⟨[knownPublication.event], [knownSubscription]⟩) := ⟨_, rfl, rfl⟩
  have hsecond : Step (some ⟨[knownPublication.event], [knownSubscription]⟩)
      ⟨.publish knownPublication, [⟨knownSubscription, knownPublication.event⟩]⟩
      (some knownBus) := ⟨_, rfl, rfl⟩
  exact .cons hfirst (.cons hsubscribe (.single hsecond))

/-- The callback is not reached, and the process ends. -/
def endedHistory : List Label := knownHistory ++ [⟨.reject, []⟩]

theorem run_ended : Run Step (some .empty) endedHistory none :=
  .snoc run_known ⟨_, rfl, rfl⟩

theorem notified_eq_followed_known :
    notifiedTo (js "sub-1") endedHistory
      = Follower.followed (js "sub-1") none (endedHistory.map Label.call) :=
  notified_eq_followed run_ended (by decide) (js "sub-1")

/-! ## What a subscriber can ask for -/

/-- The events that are posted for a subscription. -/
def toldTo (id : JsString) (history : List Label) : List Event :=
  (notifiedTo id history).map Notification.event

/-- Before its id is given, a follower is told nothing. -/
theorem followed_none {id : JsString} {history : List Label}
    (hfresh : id ∉ history.filterMap Label.given) :
    Follower.followed id none (history.map Label.call) = [] ∧
      (history.map Label.call).foldl (Follower.next id) none = none := by
  induction history with
  | nil => exact ⟨rfl, rfl⟩
  | cons l history ih =>
    have hrest : id ∉ history.filterMap Label.given := fun h =>
      hfresh (((List.sublist_cons_self l history).filterMap _).mem h)
    have hnone : Follower.next id none l.call = none := by
      obtain ⟨call, notifications⟩ := l
      cases call with
      | publish p => rfl
      | subscribe id' type callback =>
        refine if_neg fun h => hfresh ?_
        rw [h]
        exact List.mem_cons_self
      | unsubscribe id' => exact ite_self _
      | reject => rfl
    have htold : Follower.told none l.call = [] := by
      cases l.call <;> rfl
    rw [List.map_cons, Follower.followed, List.foldl_cons, hnone, htold]
    exact ih hrest

/-- As long as it is there, a follower is told every event of its type. -/
theorem followed_some (sub : Subscription) {history : List Label}
    (hfresh : sub.id ∉ history.filterMap Label.given)
    (hstay : ∀ l ∈ history, l.call ≠ .unsubscribe sub.id)
    (hlives : ∀ l ∈ history, l.call ≠ .reject) :
    Follower.followed sub.id (some sub) (history.map Label.call)
      = ((history.filterMap Label.published).filter fun p =>
        strictEqual sub.type p.type).map fun p => ⟨sub, p.event⟩ := by
  induction history with
  | nil => rfl
  | cons l history ih =>
    have hrest := ih
      (fun h => hfresh (((List.sublist_cons_self l history).filterMap _).mem h))
      (fun l' hl' => hstay l' (List.mem_cons_of_mem _ hl'))
      fun l' hl' => hlives l' (List.mem_cons_of_mem _ hl')
    have hhere := hstay l List.mem_cons_self
    obtain ⟨call, notifications⟩ := l
    rw [List.map_cons, Follower.followed]
    cases call with
    | publish p =>
      show Follower.told (some sub) (.publish p) ++ _ = (List.filter _ (p :: _)).map _
      rw [List.filter_cons, Follower.next, hrest, Follower.told]
      split <;> rfl
    | subscribe id' type callback =>
      have hne : id' ≠ sub.id := fun h => hfresh (h ▸ List.mem_cons_self)
      rw [Follower.next, if_neg hne, hrest]
      rfl
    | unsubscribe id' =>
      have hne : id' ≠ sub.id := fun h => hhere (h ▸ rfl)
      rw [Follower.next, if_neg hne, hrest]
      rfl
    | reject => exact absurd rfl (hlives _ List.mem_cons_self)

/-- Nothing comes after the end. -/
theorem eq_none_of_run {history : List Label} {process : Option Bus}
    (hrun : Run Step none history process) : process = none := by
  have hstep : ∀ s l t, s = none → Step s l t → t = none := by
    intro s l t hs h
    obtain ⟨bus, hbus, -⟩ := h
    cases hs.symm.trans hbus
  exact Run.invariant hstep hrun rfl

/-- A process that lives has had no post rejected. -/
theorem not_reject_of_run {history : List Label} {bus : Bus}
    (hrun : Run Step (some .empty) history (some bus)) :
    ∀ l ∈ history, l.call ≠ .reject := by
  intro l hl hreject
  obtain ⟨before, later, rfl⟩ := List.append_of_mem hl
  obtain ⟨process, -, hrest⟩ := hrun.split
  obtain ⟨process', ⟨bus', rfl, hafter⟩, hrest⟩ := hrest.of_cons
  rw [hreject] at hafter
  obtain ⟨rfl, -⟩ := Prod.mk.inj hafter
  cases eq_none_of_run hrest

section Polling

variable {pre mid : List Label} {bus : Bus} {id t : JsString} {callback : Option Json}
  {silent : List Notification}

/-- What a subscription that is not removed has been told. -/
theorem toldTo_eq
    (hrun : Run Step (some .empty)
      (pre ++ ⟨.subscribe id (some (.str t)) callback, silent⟩ :: mid) (some bus))
    (hfresh : FreshIds (pre ++ ⟨.subscribe id (some (.str t)) callback, silent⟩ :: mid))
    (hstay : ∀ l ∈ mid, l.call ≠ .unsubscribe id) :
    toldTo id (pre ++ ⟨.subscribe id (some (.str t)) callback, silent⟩ :: mid)
      = ((mid.filterMap Label.published).map Publication.event).filter fun e =>
        e.HasType (some t) := by
  have htracked := tracked_of_run hrun hfresh
  have hlives : ∀ l ∈ mid, l.call ≠ .reject := fun l hl =>
    not_reject_of_run hrun l (List.mem_append_right _ (List.mem_cons_of_mem _ hl))
  rw [FreshIds, List.filterMap_append] at hfresh
  obtain ⟨-, hafter, hapart⟩ := List.nodup_append.mp hfresh
  have hbefore : id ∉ pre.filterMap Label.given := fun h =>
    hapart id h id List.mem_cons_self rfl
  obtain ⟨hnothing, hnone⟩ := followed_none hbefore
  have hmid : id ∉ mid.filterMap Label.given := (List.nodup_cons.mp hafter).1
  rw [toldTo, htracked.followed id, List.map_append, Follower.followed_append, hnothing, hnone,
    List.nil_append, List.map_cons, Follower.followed, Follower.next, if_pos rfl]
  show List.map _ (Follower.followed id (some ⟨id, some (.str t), callback⟩)
    (mid.map Label.call)) = _
  rw [followed_some ⟨id, some (.str t), callback⟩ hmid hstay hlives, List.map_map,
    List.filter_map]
  congr 1
  refine List.filter_congr fun p _ => ?_
  rw [Bool.eq_iff_iff, Function.comp_apply, decide_eq_true_eq]
  constructor
  · intro h t' ht'
    rw [← Option.some.inj ht']
    exact (of_decide_eq_true h).symm
  · intro h
    exact decide_eq_true (h t rfl).symm

/-- **A subscriber can catch up.**  What a query for its type answers ends what a
subscription has been told, or the other way round.  And as long as no more events have
been published since than the bus keeps, and the query does not ask for fewer than it
has been told, nothing of that is missing from the answer. -/
theorem catches_up
    (hrun : Run Step (some .empty)
      (pre ++ ⟨.subscribe id (some (.str t)) callback, silent⟩ :: mid) (some bus))
    (hfresh : FreshIds (pre ++ ⟨.subscribe id (some (.str t)) callback, silent⟩ :: mid))
    (hstay : ∀ l ∈ mid, l.call ≠ .unsubscribe id) (htype : t ≠ []) (limit : ℕ) :
    (getEvents bus.EVENTS (some t) limit
          <:+ toldTo id (pre ++ ⟨.subscribe id (some (.str t)) callback, silent⟩ :: mid) ∨
        toldTo id (pre ++ ⟨.subscribe id (some (.str t)) callback, silent⟩ :: mid)
          <:+ getEvents bus.EVENTS (some t) limit) ∧
      ((mid.filterMap Label.published).length ≤ MAX_EVENTS →
        (toldTo id (pre ++ ⟨.subscribe id (some (.str t)) callback, silent⟩ :: mid)).length
          ≤ limit →
        toldTo id (pre ++ ⟨.subscribe id (some (.str t)) callback, silent⟩ :: mid)
          <:+ getEvents bus.EVENTS (some t) limit) := by
  have hevents := (tracked_of_run hrun hfresh).events
  have hpublished : (pre ++ (⟨.subscribe id (some (.str t)) callback, silent⟩ :: mid
      : List Label)).filterMap Label.published
      = pre.filterMap Label.published ++ mid.filterMap Label.published := by
    rw [List.filterMap_append]
    rfl
  rw [hpublished, publishAll_eq] at hevents
  rw [toldTo_eq hrun hfresh hstay, hevents, getEvents_eq (by simpa using htype)]
  generalize hold : pre.filterMap Label.published = old
  generalize hnew : mid.filterMap Label.published = new
  have hslice : ∀ list : List Event, slice list (-(limit : ℤ)) <:+ list := by
    intro list
    unfold slice
    split <;> exact List.drop_suffix _ _
  have hkept : recent (old ++ new) <:+ (old ++ new).map Publication.event :=
    List.drop_suffix _ _
  have hsince : new.map Publication.event <:+ (old ++ new).map Publication.event := by
    rw [List.map_append]
    exact List.suffix_append _ _
  refine ⟨List.suffix_or_suffix_of_suffix ((hslice _).trans (hkept.filter _))
    (hsince.filter _), ?_⟩
  intro hroom hlimit
  have hlength : (new.map Publication.event).length ≤ (recent (old ++ new)).length := by
    simp only [recent, List.rtake, List.length_drop, List.length_map, List.length_append]
    omega
  have hall := (List.suffix_of_suffix_length_le hsince hkept hlength).filter
    fun e => e.HasType (some t)
  refine List.suffix_of_suffix_length_le hall (hslice _) ?_
  have hle := hall.length_le
  unfold slice
  split
  · simp only [List.rtake, List.length_drop]
    omega
  · rw [show (-(limit : ℤ)).toNat = 0 by omega, List.drop_zero]
    exact hle

theorem catches_up_known :
    toldTo (js "sub-1") knownHistory <:+ getEvents knownBus.EVENTS (some (js "a")) 1 :=
  (@catches_up [_] [_] _ _ _ _ _ run_known (by decide) (by simp) (by decide) 1).2 (by decide)
    (by decide)

end Polling

end NewZone.Services.Subscriptions
