import NewZone.Services.TimedMap

/-!
# Merge histories

What a node holds after any number of dumps, in whatever order and however often
they arrive.  Of each key it holds the first of the newest entries that it has
seen (`get_mergeAll`), and of the events the end of one stable sort of all that
it has seen (`events_mergeAll`), although every merge sorts and cuts again.
-/

namespace NewZone.Services.Replication

open NewZone.Js NewZone.Latest NewZone.Window

/-- The data after dumps have been merged, one after the other.  A merge that
throws leaves what it has changed by then. -/
def mergeAll (engine : Engine) (L : LocalData) (dumps : List Json) : LocalData :=
  dumps.foldl (fun L incoming => (mergeData engine L incoming).1) L

theorem mergeAll_append (engine : Engine) (L : LocalData) (dumps later : List Json) :
    mergeAll engine L (dumps ++ later) = mergeAll engine (mergeAll engine L dumps) later :=
  List.foldl_append

/-! ## State -/

/-- The entries of `incoming.state`, as the loop goes through them. -/
def stateEntries (incoming : Json) : List (JsString × Json) :=
  enumerate (Json.field incoming "state")

/-- The state entries of a dump carry numeric time stamps. -/
def TimedState (incoming : Json) : Prop := ∀ e ∈ stateEntries incoming, Timed e.2

instance (incoming : Json) : Decidable (TimedState incoming) :=
  inferInstanceAs (Decidable (∀ e ∈ stateEntries incoming, Timed e.2))

/-- The entries that dumps bring for a key, in the order of their arrival. -/
def seen (key : JsString) (dumps : List Json) : List Json :=
  valuesAt key (dumps.flatMap stateEntries)

theorem seen_append (key : JsString) (dumps later : List Json) :
    seen key (dumps ++ later) = seen key dumps ++ seen key later := by
  rw [seen, List.flatMap_append, valuesAt, List.filter_append, List.map_append]
  rfl

/-- An entry is offered whatever becomes of the rest of its dump. -/
theorem state_mergeData_timed (engine : Engine) {L : LocalData}
    (hL : TimedEntries L.state) {incoming : Json} (h : TimedState incoming) :
    (mergeData engine L incoming).1.state
      = (stateEntries incoming).foldl offer L.state := by
  have hloop := mergeState_timed engine hL h
  rw [state_mergeData_eq]
  exact congrArg Prod.fst hloop

/-- A history offers all its entries. -/
theorem state_mergeAll (engine : Engine) {L : LocalData} (hL : TimedEntries L.state)
    {dumps : List Json} (hdumps : ∀ d ∈ dumps, TimedState d) :
    (mergeAll engine L dumps).state
      = (dumps.flatMap stateEntries).foldl offer L.state := by
  induction dumps generalizing L with
  | nil => rfl
  | cons d dumps ih =>
    obtain ⟨hd, hdumps⟩ := List.forall_mem_cons.mp hdumps
    have hstep := state_mergeData_timed engine hL hd
    have htimed : TimedEntries (mergeData engine L d).1.state := by
      rw [hstep]
      exact hL.foldl_offer hd
    rw [mergeAll, List.foldl_cons, ← mergeAll, ih htimed hdumps, hstep,
      List.flatMap_cons, List.foldl_append]

/-- The entry of a key after a history. -/
theorem get_mergeAll (engine : Engine) {L : LocalData} (hL : TimedEntries L.state)
    {dumps : List Json} (hdumps : ∀ d ∈ dumps, TimedState d) (key : JsString) :
    (mergeAll engine L dumps).state.get key
      = if Free L.state key then
          ((L.state.get key).toList ++ seen key dumps).argmax ts
        else none := by
  rw [state_mergeAll engine hL hdumps, get_foldl_offer]
  rfl

/-- State that does not go back: an entry that a node holds at some moment of
its history, and whatever dumps follow, leave the first of the newest entries
seen since then.  Dumps that it knows already do not change the entry, nor do
dumps without a newer one. -/
theorem entry_never_goes_back (engine : Engine) {L : LocalData}
    (hL : TimedEntries L.state) {dumps later : List Json}
    (hdumps : ∀ d ∈ dumps ++ later, TimedState d) {key : JsString} {v : Json}
    (hv : (mergeAll engine L dumps).state.get key = some v) :
    ∃ w, (mergeAll engine L (dumps ++ later)).state.get key = some w ∧
      FirstNewest ts w (v :: seen key later) ∧
      ∀ d, TimedState d →
        d ∈ dumps ++ later ∨ (∀ x ∈ seen key [d], ts x ≤ ts w) →
        (mergeAll engine L (dumps ++ later ++ [d])).state.get key = some w := by
  have hbefore : ∀ d ∈ dumps, TimedState d := fun d hd =>
    hdumps d (List.mem_append_left _ hd)
  have hafter := get_mergeAll engine hL hdumps key
  rw [get_mergeAll engine hL hbefore] at hv
  by_cases hfree : Free L.state key
  · rw [if_pos hfree] at hv hafter
    have hall : ((L.state.get key).toList ++ seen key (dumps ++ later)).argmax ts
        = (v :: seen key later).argmax ts := by
      rw [seen_append, ← List.append_assoc, ← argmax_toList_append, hv]
      rfl
    obtain ⟨w, hw⟩ : ∃ w, (v :: seen key later).argmax ts = some w :=
      Option.ne_none_iff_exists'.mp fun h => by simpa using List.argmax_eq_none.mp h
    rw [hall, hw] at hafter
    refine ⟨w, hafter, firstNewest_of_argmax hw, fun d hd hold => ?_⟩
    have hmore : ∀ d' ∈ dumps ++ later ++ [d], TimedState d' :=
      List.forall_mem_append.mpr ⟨hdumps, by simpa using hd⟩
    have hle : ∀ x ∈ seen key [d], ts x ≤ ts w := by
      rcases hold with hmem | hle
      · intro x hx
        have hx : x ∈ seen key (dumps ++ later) := by
          obtain ⟨e, he, rfl⟩ := List.mem_map.mp hx
          obtain ⟨he, hkey⟩ := List.mem_filter.mp he
          have he : e ∈ stateEntries d := by simpa using he
          exact List.mem_map.mpr ⟨e, List.mem_filter.mpr
            ⟨List.mem_flatMap.mpr ⟨d, hmem, he⟩, hkey⟩, rfl⟩
        exact List.le_of_mem_argmax (List.mem_append_right _ hx) (hall.trans hw)
      · exact hle
    rw [get_mergeAll engine hL hmore, if_pos hfree, seen_append, ← List.append_assoc,
      argmax_append, hall, hw]
    exact newer_eq_left fun x hx => hle x (List.argmax_mem hx)
  · rw [if_neg hfree] at hv
    cases hv

/-- The state of a dump with an entry of that time. -/
def stateDump (value t : ℕ) : Json :=
  .obj [(js "state", .obj [(js "key", .obj [(js "value", .num (.ofNat value)),
    (js "ts", .num (.ofNat t))])]), (js "events", .arr []), (js "rules", .arr [])]

/-- The newer entry stays when the older one arrives late. -/
theorem entry_never_goes_back_known :
    ∃ w, (mergeAll .plain .initial ([stateDump 1 5] ++ [stateDump 2 7, stateDump 3 6])).state.get
          (js "key") = some w ∧
      FirstNewest ts w (.obj [(js "value", .num (.ofNat 1)), (js "ts", .num (.ofNat 5))]
        :: seen (js "key") [stateDump 2 7, stateDump 3 6]) ∧
      ∀ d, TimedState d →
        d ∈ [stateDump 1 5] ++ [stateDump 2 7, stateDump 3 6]
          ∨ (∀ x ∈ seen (js "key") [d], ts x ≤ ts w) →
        (mergeAll .plain .initial
          ([stateDump 1 5] ++ [stateDump 2 7, stateDump 3 6] ++ [d])).state.get
            (js "key") = some w :=
  entry_never_goes_back .plain timedEntries_empty (by decide +kernel) (by decide +kernel)

/-! ## Events -/

/-- The events that a dump brings. -/
def eventsOf (incoming : Json) : List Json :=
  match Json.field incoming "events" with
  | some (.arr events) => events
  | _ => []

/-- A dump with an array of events, which carry numeric time stamps, as its
state entries do. -/
structure TimedDump (incoming : Json) : Prop where
  state : TimedState incoming
  events_eq : Json.field incoming "events" = some (.arr (eventsOf incoming))
  events : ∀ e ∈ eventsOf incoming, Timed e

theorem TimedDump.property_state {incoming : Json} (h : TimedDump incoming) :
    property incoming "state" = .ok (Json.field incoming "state") := by
  have hevents := h.events_eq
  cases incoming with
  | null => cases hevents
  | _ => rfl

/-- The events after a dump.  The rules come later and do not matter. -/
theorem events_mergeData_timed (engine : Engine) {L : LocalData}
    (hL : TimedEntries L.state) {events : List Json} (hevents : L.events = .arr events)
    (htimed : ∀ e ∈ events, Timed e) {incoming : Json} (h : TimedDump incoming) :
    (mergeData engine L incoming).1.events
      = .arr (window ts MAX_EVENTS (events ++ eventsOf incoming)) := by
  have hloop := mergeState_timed engine hL h.state
  rw [stateEntries] at hloop
  have hmerge := @mergeEvents_timed engine (.arr events) events rfl htimed _ h.events
  unfold mergeData
  rw [h.property_state]
  dsimp only
  rw [hloop]
  dsimp only
  rw [hevents, h.events_eq, hmerge]
  dsimp only
  split <;> rfl

/-- A node with an array of events, where state and events carry numeric time
stamps. -/
structure TimedLog (L : LocalData) (events : List Json) : Prop where
  state : TimedEntries L.state
  events_eq : L.events = .arr events
  events : ∀ e ∈ events, Timed e

theorem TimedLog.mergeData {engine : Engine} {L : LocalData} {events : List Json}
    (hL : TimedLog L events) {incoming : Json} (h : TimedDump incoming) :
    TimedLog (mergeData engine L incoming).1
      (window ts MAX_EVENTS (events ++ eventsOf incoming)) where
  state := by
    rw [state_mergeData_timed engine hL.state h.state]
    exact hL.state.foldl_offer h.state
  events_eq := events_mergeData_timed engine hL.state hL.events_eq hL.events h
  events e he := by
    rcases List.mem_append.mp (mem_of_mem_window he) with he | he
    · exact hL.events e he
    · exact h.events e he

/-- Whatever is added to the events that a history leaves, the log keeps of it
what it would keep of all the events together. -/
theorem events_mergeAll (engine : Engine) {L : LocalData} {events : List Json}
    (hL : TimedLog L events) {dumps : List Json} (hdumps : ∀ d ∈ dumps, TimedDump d) :
    ∃ kept, TimedLog (mergeAll engine L dumps) kept ∧
      ∀ more, window ts MAX_EVENTS (kept ++ more)
        = window ts MAX_EVENTS (events ++ dumps.flatMap eventsOf ++ more) := by
  induction dumps generalizing L events with
  | nil => exact ⟨events, hL, fun more => by simp⟩
  | cons d dumps ih =>
    obtain ⟨hd, hdumps⟩ := List.forall_mem_cons.mp hdumps
    obtain ⟨kept, hkept, hmore⟩ := ih (hL.mergeData hd) hdumps
    refine ⟨kept, hkept, fun more => (hmore more).trans ?_⟩
    rw [List.append_assoc, window_window_append, List.flatMap_cons]
    simp only [List.append_assoc]

/-- Merging event by event list is merging all at once: after one or more dumps
the events are the last ones of a stable sort of all that have come, with those
that were there before in front.  What a merge on the way cuts off would not
have been kept. -/
theorem events_in_steps (engine : Engine) {L : LocalData} {events : List Json}
    (hL : TimedLog L events) {dumps : List Json} (hne : dumps ≠ [])
    (hdumps : ∀ d ∈ dumps, TimedDump d) :
    ∃ log, (mergeAll engine L dumps).events = .arr log ∧
      log = (sortByTime ts (events ++ dumps.flatMap eventsOf)).rtake MAX_EVENTS ∧
      (log.Pairwise fun a b => ts a ≤ ts b) ∧ log.length ≤ MAX_EVENTS ∧
      ∀ front back, dumps = front ++ back →
        ∃ kept, (mergeAll engine L front).events = .arr kept ∧
          log = (sortByTime ts (kept ++ back.flatMap eventsOf)).rtake MAX_EVENTS := by
  have hkept : ∀ front back, dumps = front ++ back →
      ∃ kept, TimedLog (mergeAll engine L front) kept ∧
        window ts MAX_EVENTS (kept ++ back.flatMap eventsOf)
          = window ts MAX_EVENTS (events ++ dumps.flatMap eventsOf) := by
    intro front back hsplit
    subst hsplit
    obtain ⟨kept, hkept, hmore⟩ := events_mergeAll engine hL fun d hd =>
      hdumps d (List.mem_append_left back hd)
    refine ⟨kept, hkept, ?_⟩
    rw [hmore, List.append_assoc, List.flatMap_append]
  refine ⟨window ts MAX_EVENTS (events ++ dumps.flatMap eventsOf), ?_, rfl,
    pairwise_window _ _, length_window_le _ _, fun front back h => ?_⟩
  · -- the last merge sorts what the others have left
    obtain ⟨front, d, hsplit⟩ := (List.eq_nil_or_concat' dumps).resolve_left hne
    obtain ⟨kept, hlog, hall⟩ := hkept front [d] hsplit
    have hlast := @TimedLog.mergeData engine _ _ hlog _ (hdumps d (by simp [hsplit]))
    rw [hsplit, mergeAll_append, ← hsplit, ← hall, List.flatMap_singleton]
    exact hlast.events_eq
  · obtain ⟨kept, hlog, hall⟩ := hkept front back h
    exact ⟨kept, hlog.events_eq, hall.symm⟩

/-- A dump with one event of that time. -/
def eventDump (t : ℕ) : Json :=
  .obj [(js "state", .obj []), (js "events", .arr [.obj [(js "ts", .num (.ofNat t))]]),
    (js "rules", .arr [])]

theorem timedDump_eventDump (t : ℕ) : TimedDump (eventDump t) where
  state _ he := absurd he List.not_mem_nil
  events_eq := rfl
  events := List.forall_mem_singleton.mpr rfl

theorem timedLog_initial : TimedLog .initial [] :=
  ⟨timedEntries_empty, rfl, fun _ h => absurd h List.not_mem_nil⟩

theorem events_in_steps_known :
    ∃ log, (mergeAll .plain .initial [eventDump 3, eventDump 1]).events = .arr log ∧
      log = (sortByTime ts ([] ++ [eventDump 3, eventDump 1].flatMap eventsOf)).rtake
        MAX_EVENTS ∧
      (log.Pairwise fun a b => ts a ≤ ts b) ∧ log.length ≤ MAX_EVENTS ∧
      ∀ front back, [eventDump 3, eventDump 1] = front ++ back →
        ∃ kept, (mergeAll .plain .initial front).events = .arr kept ∧
          log = (sortByTime ts (kept ++ back.flatMap eventsOf)).rtake MAX_EVENTS :=
  events_in_steps .plain timedLog_initial (List.cons_ne_nil _ _) fun d hd => by
    obtain rfl | rfl : d = eventDump 3 ∨ d = eventDump 1 := by simpa using hd
    · exact timedDump_eventDump 3
    · exact timedDump_eventDump 1

end NewZone.Services.Replication
