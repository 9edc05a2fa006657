import NewZone.Services.Snapshot
import NewZone.Services.TimedMap

/-!
# The same dump again

A node pulls the dump of each peer every five seconds, so mostly it merges what
it has merged before.  State and rules absorb that.  The events do not: they
are concatenated, so a dump that comes again adds its events again, until
nothing of them fits into the log any more.  `merge_again_iff` says when the
second merge changes nothing.
-/

namespace NewZone.Services.Replication

open NewZone.Js NewZone.ExceptBind NewZone.Latest NewZone.Runs NewZone.Window

/-! ## Runs with numeric time stamps -/

/-- The data that an action brings in carries numeric time stamps: the events
and rules of a dump, and those that the services answer with. -/
def TimedAction (r : Replica) : Action → Prop
  | .merge incoming => TimedItems (Json.field incoming.json "events") ∧
      TimedItems (Json.field incoming.json "rules")
  | .start => True
  | .resume i answer =>
    match r.refreshes[i]?, answer with
    | some .events, .json v => TimedItems (some v)
    | some .rules, .json v => TimedItems (some v)
    | _, _ => True

/-- A dump with a state map, an event array and a rule array, all with numeric
time stamps. -/
structure WellFormedDump (d : Json) where
  state : List (JsString × Json)
  events : List Json
  rules : List Json
  state_eq : Json.field d "state" = some (.obj state)
  events_eq : Json.field d "events" = some (.arr events)
  rules_eq : Json.field d "rules" = some (.arr rules)
  nodup : NodupKeys state
  timed_state : ∀ e ∈ state, Timed e.2
  timed_events : ∀ e ∈ events, Timed e
  timed_rules : ∀ r ∈ rules, Timed r

theorem WellFormedDump.property_state {d : Json} (hd : WellFormedDump d) :
    property d "state" = .ok (some (.obj hd.state)) :=
  property_of_field hd.state_eq

/-! ## State -/

/-- A timed entry does not win against itself. -/
theorem wins_self (engine : Engine) {remote : Json} (h : Timed remote) :
    wins engine (.own remote) remote = .ok false := by
  rw [wins, if_pos h.truthy, h.property_eq, ok_bind, engine.gt_timed h h,
    decide_eq_false (lt_irrefl _)]

/-- The state loop ends where the first one has ended: an entry that was taken
is there now, the others lose again, and one that stopped the loop stops it
again. -/
theorem mergeState_again (engine : Engine) (state : PlainObject Json)
    {es : List (JsString × Json)} (hnodup : NodupKeys es)
    (hes : ∀ e ∈ es, Timed e.2) :
    mergeState engine (mergeState engine state es).1 es
      = mergeState engine state es := by
  fun_induction mergeState engine state es with
  | case1 state => rfl
  | case2 state key remote rest hwin ih =>
    obtain ⟨hkey, hnodup⟩ := List.nodup_cons.mp hnodup
    have hget := get_mergeState_of_notMem engine (state.set key remote) hkey
    rw [PlainObject.get_set_self] at hget
    rw [mergeState, PlainObject.lookup_of_get hget,
      wins_self engine (hes _ List.mem_cons_self)]
    exact ih hnodup fun e he => hes e (List.mem_cons_of_mem _ he)
  | case3 state key remote rest hwin ih =>
    obtain ⟨hkey, hnodup⟩ := List.nodup_cons.mp hnodup
    have hget := get_mergeState_of_notMem engine state hkey
    rw [mergeState, PlainObject.lookup_congr hget, hwin]
    exact ih hnodup fun e he => hes e (List.mem_cons_of_mem _ he)
  | case4 state key remote rest e hwin => rw [mergeState, hwin]

/-- The state loop gets to its end if all its comparisons do. -/
theorem mergeState_returns_iff (engine : Engine) (state : PlainObject Json)
    {es : List (JsString × Json)} (hnodup : NodupKeys es) :
    (mergeState engine state es).2 = none ↔
      ∀ e ∈ es, (wins engine (state.lookup e.1) e.2).isOk = true := by
  fun_induction mergeState engine state es with
  | case1 state => simp
  | case2 state key remote rest hwin ih =>
    obtain ⟨hkey, hnodup⟩ := List.nodup_cons.mp hnodup
    have hrest := lookup_set_of_notMem state remote hkey
    rw [ih hnodup, List.forall_mem_cons, hwin]
    refine ⟨fun h => ⟨rfl, fun e he => ?_⟩, fun h e he => ?_⟩
    · rw [← hrest e he]
      exact h e he
    · rw [hrest e he]
      exact h.2 e he
  | case3 state key remote rest hwin ih =>
    rw [ih (List.nodup_cons.mp hnodup).2, List.forall_mem_cons, hwin]
    exact (and_iff_right rfl).symm
  | case4 state key remote rest e hwin =>
    rw [List.forall_mem_cons, hwin]
    simp [Except.isOk, Except.toBool]

/-! ## Rules -/

/-- Entries with new names, in the order of enumeration, are all taken. -/
theorem members_foldl_offer (es : List (JsString × Json))
    (obj : PlainObject Json) (hnodup : NodupKeys (obj.members ++ es))
    (hordered : OrderedKeys (obj.members ++ es))
    (hes : ∀ e ∈ es, e.1 ∉ objectPrototype) :
    (es.foldl offer obj).members = obj.members ++ es := by
  induction es generalizing obj with
  | nil => simp
  | cons e es ih =>
    obtain ⟨key, v⟩ := e
    unfold NodupKeys at hnodup
    unfold OrderedKeys at hordered
    rw [List.map_append] at hnodup hordered
    have hget : obj.get key = none := by
      apply getProp_eq_none_iff.mpr
      intro hmem
      exact (List.nodup_append.mp hnodup).2.2 _ hmem _ List.mem_cons_self rfl
    have hbefore : ∀ m ∈ obj.members, before key m.1 = false := fun m hm =>
      (List.pairwise_append.mp hordered).2.2 _ (List.mem_map.mpr ⟨m, hm, rfl⟩) _
        List.mem_cons_self
    have hoffer : offer obj (key, v) = obj.set key v := by
      rw [offer, PlainObject.lookup_of_notMem hget (hes _ List.mem_cons_self)]
    have hset := PlainObject.members_set v hget hbefore
    rw [List.foldl_cons, hoffer, ih, hset, List.append_assoc]
    · rfl
    · rw [hset, List.append_assoc, NodupKeys, List.map_append]
      exact hnodup
    · rw [hset, List.append_assoc, OrderedKeys, List.map_append]
      exact hordered
    · exact fun e he => hes e (List.mem_cons_of_mem _ he)

/-- Offering an empty object what another one holds copies it. -/
theorem foldl_offer_members {obj : PlainObject Json}
    (h : ∀ m ∈ obj.members, m.1 ∉ objectPrototype) :
    obj.members.foldl offer .empty = obj :=
  PlainObject.ext (members_foldl_offer obj.members .empty obj.nodup obj.ordered h)

/-- What is not newer than what is there is not taken. -/
theorem foldl_offer_of_le {obj : PlainObject Json} {es : List (JsString × Json)}
    (h : ∀ e ∈ es, offer obj e = obj) : es.foldl offer obj = obj := by
  induction es with
  | nil => rfl
  | cons e es ih =>
    rw [List.foldl_cons, h e List.mem_cons_self]
    exact ih fun e' he' => h e' (List.mem_cons_of_mem _ he')

/-- Inherited names are not taken. -/
theorem notMem_of_foldl_offer {es : List (JsString × Json)} :
    ∀ m ∈ (es.foldl offer .empty).members, m.1 ∉ objectPrototype := by
  intro m hm hproto
  have hbound := PlainObject.get_eq_some_iff.mpr hm
  rw [get_foldl_offer, if_neg (by simp [Free, hproto])] at hbound
  cases hbound

/-- What has been offered is there, or something as new. -/
theorem newest_foldl_offer {es : List (JsString × Json)} :
    ∀ e ∈ es, e.1 ∈ objectPrototype ∨
      ∃ v, (es.foldl offer .empty).get e.1 = some v ∧ ts e.2 ≤ ts v := by
  intro e he
  by_cases hproto : e.1 ∈ objectPrototype
  · exact .inl hproto
  have hvalue : e.2 ∈ valuesAt e.1 es :=
    List.mem_map.mpr ⟨e, List.mem_filter.mpr ⟨he, decide_eq_true rfl⟩, rfl⟩
  have hfree : Free .empty e.1 := Or.inl hproto
  rw [get_foldl_offer, if_pos hfree, PlainObject.get_empty, Option.toList_none,
    List.nil_append]
  obtain ⟨v, hv⟩ : ∃ v, (valuesAt e.1 es).argmax ts = some v :=
    Option.ne_none_iff_exists'.mp fun hnone =>
      List.ne_nil_of_mem hvalue (List.argmax_eq_none.mp hnone)
  exact .inr ⟨v, hv, List.le_of_mem_argmax hvalue hv⟩

/-- An offer under an inherited name, or of nothing newer, changes nothing. -/
theorem offer_eq_self {obj : PlainObject Json}
    (hobj : ∀ m ∈ obj.members, m.1 ∉ objectPrototype) {e : JsString × Json}
    (h : e.1 ∈ objectPrototype ∨ ∃ v, obj.get e.1 = some v ∧ ts e.2 ≤ ts v) :
    offer obj e = obj := by
  rcases h with hproto | ⟨v, hv, hle⟩
  · have hget : obj.get e.1 = none := getProp_eq_none_iff.mpr fun hmem => by
      obtain ⟨m, hm, hkey⟩ := List.mem_map.mp hmem
      exact hobj m hm (hkey ▸ hproto)
    rw [offer, PlainObject.lookup_of_mem hget hproto]
  · rw [offer, PlainObject.lookup_of_get hv]
    exact if_neg (not_lt.mpr hle)

/-- The names of a map are those of its rules. -/
theorem mapM_ruleEntry_of_keyed {engine : Engine} {ms : List (JsString × Json)}
    (h : ∀ m ∈ ms, ruleKey engine m.2 = .ok m.1) :
    (ms.map Prod.snd).mapM (ruleEntry engine) = .ok ms := by
  induction ms with
  | nil => rfl
  | cons m ms ih =>
    rw [List.map_cons, List.mapM_cons, ruleEntry, h m List.mem_cons_self,
      ok_bind, ih fun m' hm' => h m' (List.mem_cons_of_mem _ hm')]
    rfl

theorem mergeRules_again {engine : Engine} {rules rules' : Json}
    {incoming : List Json} (hrules : TimedItems (some rules))
    (hincoming : ∀ r ∈ incoming, Timed r)
    (h : mergeRules engine rules (some (.arr incoming)) = .ok rules') :
    mergeRules engine rules' (some (.arr incoming)) = .ok rules' := by
  obtain ⟨held, hheld⟩ : ∃ held, spread (some rules) = .ok held := by
    obtain ⟨held, hheld, -⟩ := bind_eq_ok.mp h
    exact ⟨held, hheld⟩
  have htimed : ∀ r ∈ held ++ incoming, Timed r :=
    List.forall_mem_append.mpr ⟨hrules _ hheld, hincoming⟩
  obtain ⟨es, hes, rfl⟩ := mergeRules_timed hheld rfl htimed h
  obtain ⟨hkeys, hmem, hvalues⟩ := ruleEntries hes
  rw [List.mapM_append] at hes
  obtain ⟨heldEs, hheldEs, hes⟩ := bind_eq_ok.mp hes
  obtain ⟨newEs, hnewEs, hes⟩ := bind_eq_ok.mp hes
  obtain rfl : heldEs ++ newEs = es := Except.ok.inj hes
  have hkeyed : Keyed engine ((heldEs ++ newEs).foldl offer .empty) :=
    Keyed.foldl_offer (fun _ hm => absurd hm List.not_mem_nil) hkeys
  have htimedMap : TimedEntries ((heldEs ++ newEs).foldl offer .empty) :=
    timedEntries_empty.foldl_offer fun e he => htimed _ (hmem e he)
  have hnames := @notMem_of_foldl_offer (heldEs ++ newEs)
  have hnewest := @newest_foldl_offer (heldEs ++ newEs)
  generalize (heldEs ++ newEs).foldl offer .empty = ruleMap at *
  have hcopy : ruleMap.members.foldl offer .empty = ruleMap :=
    foldl_offer_members hnames
  have habsorb : newEs.foldl offer ruleMap = ruleMap :=
    foldl_offer_of_le fun e he =>
      offer_eq_self hnames (hnewest e (List.mem_append_right _ he))
  rw [mergeRules, spread, spread, ok_bind, ok_bind,
    mergeRuleMap_timed engine timedEntries_empty, List.mapM_append,
    mapM_ruleEntry_of_keyed hkeyed, hnewEs]
  · show Except.ok (Json.arr (((ruleMap.members ++ newEs).foldl offer
      .empty).members.map Prod.snd)) = _
    rw [List.foldl_append, hcopy, habsorb]
  · refine List.forall_mem_append.mpr ⟨fun r hr => ?_, hincoming⟩
    obtain ⟨m, hm, rfl⟩ := List.mem_map.mp hr
    exact htimedMap m hm

/-! ## What a run keeps -/

/-- Events and rules carry numeric time stamps, where they can be spread. -/
structure TimedLists (L : LocalData) : Prop where
  events : TimedItems (some L.events)
  rules : TimedItems (some L.rules)

theorem timedItems_mergeEvents {engine : Engine} {events events' : Json}
    {incoming : Option Json} (hevents : TimedItems (some events))
    (hincoming : TimedItems incoming)
    (h : mergeEvents engine events incoming = .ok events') :
    TimedItems (some events') := by
  obtain ⟨a, ha, h⟩ := bind_eq_ok.mp h
  obtain ⟨b, hb, h⟩ := bind_eq_ok.mp h
  obtain ⟨sorted, hsorted, h⟩ := bind_eq_ok.mp h
  obtain rfl := Except.ok.inj h
  have hall : ∀ e ∈ a ++ b, Timed e :=
    List.forall_mem_append.mpr ⟨hevents a ha, hincoming b hb⟩
  rw [sortEvents, if_pos hall] at hsorted
  obtain rfl := Except.ok.inj hsorted
  exact timedItems_arr fun e he => hall e (mem_of_mem_window he)

theorem timedItems_mergeRules {engine : Engine} {rules rules' : Json}
    {incoming : Option Json} (hrules : TimedItems (some rules))
    (hincoming : TimedItems incoming)
    (h : mergeRules engine rules incoming = .ok rules') :
    TimedItems (some rules') := by
  obtain ⟨a, ha, h'⟩ := bind_eq_ok.mp h
  obtain ⟨b, hb, -⟩ := bind_eq_ok.mp h'
  have hall : ∀ r ∈ a ++ b, Timed r :=
    List.forall_mem_append.mpr ⟨hrules a ha, hincoming b hb⟩
  obtain ⟨es, hes, rfl⟩ := mergeRules_timed ha hb hall h
  obtain ⟨-, hmem, -⟩ := ruleEntries hes
  have hmap : TimedEntries (es.foldl offer .empty) :=
    timedEntries_empty.foldl_offer fun e he => hall _ (hmem e he)
  apply timedItems_arr
  intro r hr
  obtain ⟨m, hm, rfl⟩ := List.mem_map.mp hr
  exact hmap m hm

theorem TimedLists.mergeData {engine : Engine} {L : LocalData}
    (h : TimedLists L) {incoming : Json}
    (hevents : TimedItems (Json.field incoming "events"))
    (hrules : TimedItems (Json.field incoming "rules")) :
    TimedLists (mergeData engine L incoming).1 := by
  unfold Replication.mergeData
  split
  · exact h
  split
  · exact ⟨h.events, h.rules⟩
  split
  · exact ⟨h.events, h.rules⟩
  rename_i events hevents'
  have hevents' := timedItems_mergeEvents h.events hevents hevents'
  split
  · exact ⟨hevents', h.rules⟩
  rename_i rules hrules'
  exact ⟨hevents', timedItems_mergeRules h.rules hrules hrules'⟩

theorem TimedLists.resume {L data : LocalData} (h : TimedLists L)
    {refresh refresh' : Refresh} {answer : Answer}
    (hresume : refresh.resume L answer = some (data, refresh'))
    (hevents : ∀ v, refresh = .events → answer = .json v → TimedItems (some v))
    (hrules : ∀ v, refresh = .rules → answer = .json v → TimedItems (some v)) :
    TimedLists data := by
  have hnext : ∀ (newState : PlainObject Json) (keys : List JsString),
      TimedLists (nextKey L newState keys).1 := by
    intro newState keys
    cases keys with
    | nil => exact ⟨h.events, h.rules⟩
    | cons key rest => exact h
  unfold Refresh.resume at hresume
  split at hresume
  · obtain rfl : (nextKey _ _ _).1 = data :=
      congrArg Prod.fst (Option.some.inj hresume)
    exact hnext _ _
  · obtain rfl : (nextKey _ _ _).1 = data :=
      congrArg Prod.fst (Option.some.inj hresume)
    exact hnext _ _
  · cases hresume
    exact h
  · cases hresume
    exact h
  · cases hresume
    exact ⟨hevents _ rfl rfl, h.rules⟩
  · cases hresume
    exact h
  · cases hresume
    exact ⟨h.events, hrules _ rfl rfl⟩
  · cases hresume
    exact h
  · cases hresume

theorem TimedLists.step {engine : Engine} {r r' : Replica} {a : Action}
    (h : TimedLists r.data) (hstep : Step engine r a r') (ha : TimedAction r a) :
    TimedLists r'.data := by
  cases a with
  | merge incoming =>
    obtain rfl := Option.some.inj hstep
    exact h.mergeData ha.1 ha.2
  | start =>
    obtain rfl := Option.some.inj hstep
    exact h
  | resume i answer =>
    obtain ⟨refresh, data, refresh', hrefresh, hresume, rfl⟩ := step_resume hstep
    refine h.resume hresume ?_ ?_
    · rintro v rfl rfl
      simpa only [TimedAction, hrefresh] using ha
    · rintro v rfl rfl
      simpa only [TimedAction, hrefresh] using ha

theorem timedLists_of_run {engine : Engine} {es : List Action} {r : Replica}
    (hrun : Run (Guarded (Step engine) TimedAction) .initial es r) :
    TimedLists r.data := by
  refine hrun.invariant (P := fun r => TimedLists r.data) ?_ ?_
  · rintro r a r' h ⟨hstep, ha⟩
    exact h.step hstep ha
  · exact ⟨timedItems_arr (by simp), timedItems_arr (by simp)⟩

/-- **When a dump is absorbed.**  In every run whose data carries numeric time
stamps, merging a well-formed dump a second time changes nothing exactly when
its events were absorbed the first time, or neither merge gets to the events:
an entry of the state cannot be compared, or the events of the node are nothing
that can be spread. -/
theorem merge_again_iff {engine : Engine} {es : List Action} {r : Replica}
    (hrun : Run (Guarded (Step engine) TimedAction) .initial es r) {d : Json}
    (hd : WellFormedDump d) :
    (mergeData engine (mergeData engine r.data d).1 d).1
        = (mergeData engine r.data d).1 ↔
      ((∀ e ∈ hd.state, (wins engine (r.data.state.lookup e.1) e.2).isOk = true) →
        ∀ events, spread (some r.data.events) = .ok events →
          Absorbed ts MAX_EVENTS events hd.events) := by
  obtain ⟨hevents, hrules⟩ := timedLists_of_run hrun
  have hagain := mergeState_again engine r.data.state hd.nodup hd.timed_state
  rw [← mergeState_returns_iff engine r.data.state hd.nodup]
  generalize hstate : mergeState engine r.data.state hd.state = loop at hagain ⊢
  obtain ⟨state', thrown⟩ := loop
  dsimp only at hagain
  cases thrown with
  | some e =>
    -- the loop over the state throws, and throws again
    simp [mergeData, hd.property_state, enumerate, hstate, hagain]
  | none =>
    rw [imp_iff_right rfl]
    cases hspread : spread (some r.data.events) with
    | error e =>
      have hfail : mergeEvents engine r.data.events (some (.arr hd.events))
          = .error e := by
        rw [mergeEvents, hspread, error_bind]
      simp [mergeData, hd.property_state, enumerate, hd.events_eq, hstate, hagain,
        hfail]
    | ok items =>
      have hitems := hevents items hspread
      have hfirst := @mergeEvents_timed engine _ _ hspread hitems _ hd.timed_events
      have hkept : ∀ e ∈ window ts MAX_EVENTS (items ++ hd.events), Timed e :=
        fun e he => List.forall_mem_append.mpr ⟨hitems, hd.timed_events⟩ e
          (mem_of_mem_window he)
      have hsecond := @mergeEvents_timed engine
        (.arr (window ts MAX_EVENTS (items ++ hd.events))) _ rfl hkept _
        hd.timed_events
      have habsorb : (∀ events, (.ok items : Except String _) = .ok events →
          Absorbed ts MAX_EVENTS events hd.events) ↔
          Absorbed ts MAX_EVENTS items hd.events := by
        simp
      rw [habsorb, ← window_append_iff]
      cases hmerged : mergeRules engine r.data.rules (some (.arr hd.rules)) with
      | error e =>
        simp [mergeData, hd.property_state, enumerate, hd.events_eq, hd.rules_eq,
          hstate, hagain, hfirst, hsecond, hmerged]
      | ok rules' =>
        have hrules' := mergeRules_again hrules hd.timed_rules hmerged
        simp [mergeData, hd.property_state, enumerate, hd.events_eq, hd.rules_eq,
          hstate, hagain, hfirst, hsecond, hmerged, hrules']

/-! ## Known dumps -/

/-- A dump with one state entry, one rule and the given events. -/
def knownDump (events : List Json) : Json :=
  .obj
    [(js "state", .obj [(js "k", .obj [(js "ts", .num (.ofNat 5))])]),
      (js "events", .arr events),
      (js "rules",
        .arr [.obj [(js "id", .str (js "r")), (js "ts", .num (.ofNat 1))]])]

def knownDump_wellFormed {events : List Json} (h : ∀ e ∈ events, Timed e) :
    WellFormedDump (knownDump events) where
  state := _
  events := events
  rules := _
  state_eq := rfl
  events_eq := rfl
  rules_eq := rfl
  nodup := List.nodup_singleton _
  timed_state := List.forall_mem_singleton.mpr rfl
  timed_events := h
  timed_rules := List.forall_mem_singleton.mpr rfl

def knownEvent : Json := .obj [(js "ts", .num (.ofNat 1))]

def singleEvent : Dump where
  json := knownDump [knownEvent]
  nodup := by
    intro state h
    obtain rfl := Json.obj.inj (Option.some.inj h)
    exact List.nodup_singleton _

theorem timedAction_singleEvent (r : Replica) : TimedAction r (.merge singleEvent) :=
  ⟨timedItems_arr (List.forall_mem_singleton.mpr rfl),
    timedItems_arr (List.forall_mem_singleton.mpr rfl)⟩

/-- A dump without events is absorbed at once, by a node that has the same event twice. -/
theorem merge_again_known :
    ∃ r, Run (Guarded (Step .plain) TimedAction) .initial
        [.merge singleEvent, .start, .merge singleEvent] r ∧
      (mergeData .plain (mergeData .plain r.data (knownDump [])).1 (knownDump [])).1
        = (mergeData .plain r.data (knownDump [])).1 := by
  have hrun : Run (Guarded (Step .plain) TimedAction) .initial
      ([] ++ [.merge singleEvent] ++ [.start] ++ [.merge singleEvent]) _ :=
    .snoc (.snoc (.snoc (.nil _) ⟨rfl, timedAction_singleEvent _⟩) ⟨rfl, trivial⟩)
      ⟨rfl, timedAction_singleEvent _⟩
  refine ⟨_, hrun, (merge_again_iff hrun (knownDump_wellFormed (by simp))).mpr ?_⟩
  exact fun _ _ _ _ he => absurd he List.not_mem_nil

/-- An event that comes twice is kept twice. -/
theorem event_kept_twice :
    Run (Guarded (Step .plain) TimedAction) .initial [] .initial ∧
    Nonempty (WellFormedDump (knownDump [knownEvent])) ∧
    (mergeData .plain
        (mergeData .plain .initial (knownDump [knownEvent])).1
        (knownDump [knownEvent])).1
      ≠ (mergeData .plain .initial (knownDump [knownEvent])).1 := by
  refine ⟨.nil _, ⟨knownDump_wellFormed (List.forall_mem_singleton.mpr rfl)⟩, fun h => ?_⟩
  exact absurd (congrArg LocalData.events h) (by decide +kernel)

end NewZone.Services.Replication
