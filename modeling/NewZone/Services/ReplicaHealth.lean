import NewZone.Services.EventBus
import NewZone.Services.NewestWrite
import NewZone.Services.RulesServer
import NewZone.Services.UnchangedMerge

/-!
# What a replication node can go on with

A merge spreads the events and the rules that the node holds, and a refresh
fills them with whatever the services answer.  The state server and the event
server answer with what a merge can use.  The rules server does not: it answers
`GET /rules` with `Not found`, and from then on every merge throws
(`wellFormed_iff`).
-/

namespace NewZone.Services.Replication

open NewZone.Js NewZone.ExceptBind NewZone.Runs

variable {engine : Engine}

/-- A rule that a merge can use: it has a name, and can be compared. -/
structure UsableRule (engine : Engine) (r : Json) : Prop where
  named : ∃ key, ruleKey engine r = .ok key
  comparable : Comparable engine r

/-- A well-formed dump: a state map whose entries can be compared, an event
array with numeric time stamps and an array of usable rules. -/
structure UsableDump (engine : Engine) (d : Json) : Prop where
  state : ∃ state, Json.field d "state" = some (.obj state) ∧
    ∀ e ∈ state, Comparable engine e.2
  events : ∃ events, Json.field d "events" = some (.arr events) ∧
    ∀ e ∈ events, Timed e
  rules : ∃ rules, Json.field d "rules" = some (.arr rules) ∧
    ∀ r ∈ rules, UsableRule engine r

/-- The same of what the node holds. -/
structure Healthy (engine : Engine) (L : LocalData) : Prop where
  state : ∀ m ∈ L.state.members, Comparable engine m.2
  events : ∃ events, L.events = .arr events ∧ ∀ e ∈ events, Timed e
  rules : ∃ rules, L.rules = .arr rules ∧ ∀ r ∈ rules, UsableRule engine r

/-! ## A merge keeps it -/

theorem wins_isOk {found : Found Json} {remote : Json}
    (hfound : ∀ v, found = .own v → Comparable engine v)
    (hremote : Comparable engine remote) :
    (wins engine found remote).isOk = true := by
  obtain ⟨ts, ts', hts, hts'⟩ := hremote
  have hgt : ∀ b : Option Json, (∃ b', b.mapM engine.primitive = .ok b') →
      (engine.gt ts b).isOk = true := by
    intro b hb
    obtain ⟨win, hwin⟩ := gt_isOk_iff.mpr ⟨⟨ts', hts'⟩, hb⟩
    rw [hwin]
    rfl
  cases found with
  | missing => rfl
  | inherited =>
    rw [wins, hts, ok_bind]
    exact hgt none ⟨none, rfl⟩
  | own v =>
    rw [wins]
    split_ifs with hv
    · have hcomparable := hfound v rfl
      rw [comparable_iff (ne_null_of_truthy hv)] at hcomparable
      rw [hts, ok_bind]
      exact hgt _ hcomparable
    · rfl

/-- The entries after the state loop were there or come from the dump. -/
theorem forall_mergeState {P : JsString × Json → Prop} {state : PlainObject Json}
    {es : List (JsString × Json)} (hstate : ∀ m ∈ state.members, P m)
    (hes : ∀ e ∈ es, P e) : ∀ m ∈ (mergeState engine state es).1.members, P m := by
  fun_induction mergeState engine state es with
  | case1 state => exact hstate
  | case2 state key remote rest hwin ih =>
    rw [List.forall_mem_cons] at hes
    exact ih (PlainObject.forall_members_set hstate hes.1) hes.2
  | case3 state key remote rest hwin ih =>
    rw [List.forall_mem_cons] at hes
    exact ih hstate hes.2
  | case4 state key remote rest e hwin => exact hstate

/-- The rules of the map have the names of the map, and were there or come from
the dump. -/
theorem forall_mergeRuleMap {P : Json → Prop} {ruleMap ruleMap' : PlainObject Json}
    {rs : List Json} (hrs : ∀ r ∈ rs, P r)
    (hmap : ∀ m ∈ ruleMap.members, ruleKey engine m.2 = .ok m.1 ∧ P m.2)
    (h : mergeRuleMap engine ruleMap rs = .ok ruleMap') :
    ∀ m ∈ ruleMap'.members, ruleKey engine m.2 = .ok m.1 ∧ P m.2 := by
  induction rs generalizing ruleMap with
  | nil =>
    obtain rfl := Except.ok.inj h
    exact hmap
  | cons r rs ih =>
    rw [List.forall_mem_cons] at hrs
    rw [mergeRuleMap] at h
    obtain ⟨id, hid, h⟩ := bind_eq_ok.mp h
    obtain ⟨key, hkey, h⟩ := bind_eq_ok.mp h
    obtain ⟨win, -, h⟩ := bind_eq_ok.mp h
    refine ih hrs.2 ?_ h
    split_ifs
    · have hrule : ruleKey engine r = .ok key := by
        rw [ruleKey, hid, ok_bind, hkey]
      exact @PlainObject.forall_members_set _ _ _ hmap key r ⟨hrule, hrs.1⟩
    · exact hmap

/-- UsableRule rules can be merged, and give usable rules. -/
theorem mergeRules_usable {held brought : List Json}
    (h : ∀ r ∈ held ++ brought, UsableRule engine r) :
    ∃ rules, mergeRules engine (.arr held) (some (.arr brought)) = .ok (.arr rules) ∧
      ∀ r ∈ rules, UsableRule engine r := by
  have hreturns : ∃ rules',
      mergeRules engine (.arr held) (some (.arr brought)) = .ok rules' := by
    refine mergeRules_returns_iff.mpr
      ⟨held, brought, rfl, rfl, fun r hr => (h r hr).named, fun key => ?_⟩
    have hall : ∀ r ∈ rulesWith engine key (.arr (held ++ brought)),
        Comparable engine r := fun r hr => (h r (List.mem_of_mem_filter hr)).comparable
    have hmissing : ((PlainObject.empty : PlainObject Json).lookup key) = .missing ∨
        ((PlainObject.empty : PlainObject Json).lookup key) = .inherited := by
      by_cases hkey : key ∈ objectPrototype
      · exact .inr (PlainObject.lookup_of_mem (PlainObject.get_empty key) hkey)
      · exact .inl (PlainObject.lookup_of_notMem (PlainObject.get_empty key) hkey)
    rcases hmissing with hlookup | hlookup
    · rw [hlookup]
      exact .inr fun r hr => hall r ((List.dropWhile_sublist _).subset hr)
    · rw [hlookup]
      exact hall
  obtain ⟨rules', hrules'⟩ := hreturns
  rw [mergeRules, spread, spread, ok_bind, ok_bind] at hrules'
  obtain ⟨ruleMap, hmap, hrules⟩ := bind_eq_ok.mp hrules'
  obtain rfl := Except.ok.inj hrules
  refine ⟨ruleMap.members.map Prod.snd, ?_, ?_⟩
  · rw [mergeRules, spread, spread, ok_bind, ok_bind]
    exact bind_of_ok hmap _
  · intro r hr
    obtain ⟨m, hm, rfl⟩ := List.mem_map.mp hr
    exact (forall_mergeRuleMap h (fun _ hm => absurd hm List.not_mem_nil) hmap m
      hm).2

/-- A node that is healthy merges every well-formed dump to the end, and is
healthy after that. -/
theorem Healthy.merge {L : LocalData} (h : Healthy engine L) {d : Dump}
    (hd : UsableDump engine d.json) :
    (mergeData engine L d.json).2 = none ∧
      Healthy engine (mergeData engine L d.json).1 := by
  obtain ⟨held, hheld, hheldTimed⟩ := h.events
  obtain ⟨brought, hbrought, hbroughtTimed⟩ := hd.events
  obtain ⟨rules, hrules, hrulesUsable⟩ := h.rules
  obtain ⟨newRules, hnewRules, hnewUsable⟩ := hd.rules
  obtain ⟨es, hes, hesComparable⟩ := hd.state
  have hnodup := d.nodup es hes
  have hreturns : (mergeState engine L.state es).2 = none := by
    refine (mergeState_returns_iff engine L.state hnodup).mpr fun e he => ?_
    refine wins_isOk (fun v hv => ?_) (hesComparable e he)
    exact h.state _ (PlainObject.get_eq_some_iff.mp (PlainObject.get_of_lookup hv))
  have hentries := @forall_mergeState engine (fun m => Comparable engine m.2)
    L.state es h.state hesComparable
  have hevents := @mergeEvents_timed engine (.arr held) _ rfl hheldTimed _
    hbroughtTimed
  obtain ⟨rules', hmerge, husable⟩ := @mergeRules_usable engine rules newRules
    (List.forall_mem_append.mpr ⟨hrulesUsable, hnewUsable⟩)
  rw [mergeData, property_of_field hes, hbrought, hnewRules, hheld, hrules,
    hevents, hmerge]
  dsimp only [enumerate]
  generalize mergeState engine L.state es = loop at hreturns hentries
  obtain ⟨state, thrown⟩ := loop
  obtain rfl : thrown = none := hreturns
  refine ⟨rfl, hentries, ⟨_, rfl, fun e he => ?_⟩, ⟨_, rfl, husable⟩⟩
  exact List.forall_mem_append.mpr ⟨hheldTimed, hbroughtTimed⟩ e
    (Window.mem_of_mem_window he)

/-! ## Against the servers -/

/-- What a refresh has read so far can be compared. -/
def Refresh.Healthy (engine : Engine) : Refresh → Prop
  | .value _ _ newState => ∀ m ∈ newState.members, Comparable engine m.2
  | _ => True

/-- The answer that a refresh waits for is that of the state server, for the
request that it sees, of the event server or of the rules server, in whatever
state they are.  Any request may fail. -/
def Refresh.Served (target : JsString → JsString) : Refresh → Answer → Prop
  | .keys, .keys list => ∃ STATE, list = keyList STATE
  | .value key _ _, .json v => ∃ STATE, v = State.respond STATE (target key)
  | .events, .json v => ∃ EVENTS, v = (EventBus.events EVENTS none 200).body
  | .rules, .json v => ∃ store, v = (Rules.respond store (js "/rules")).body
  | _, _ => True

/-- The dumps that come in are well-formed, and the answers are those of the
servers. -/
def Served (engine : Engine) (target : JsString → JsString) (r : Replica) :
    Action → Prop
  | .merge incoming => UsableDump engine incoming.json
  | .start => True
  | .resume i answer => ∀ refresh ∈ r.refreshes[i]?, refresh.Served target answer

/-- No refresh gets an answer from the rules server. -/
def Unanswered (r : Replica) : Action → Prop
  | .resume i (.json _) => r.refreshes[i]? ≠ some .rules
  | _ => True

/-- The events and the rules are arrays, and every well-formed dump can be
merged. -/
structure WellFormedReplica (engine : Engine) (L : LocalData) : Prop where
  events : ∃ events, L.events = .arr events
  rules : ∃ rules, L.rules = .arr rules
  merges : ∀ d : Dump, UsableDump engine d.json → (mergeData engine L d.json).2 = none

theorem Healthy.wellFormed {L : LocalData} (h : Healthy engine L) :
    WellFormedReplica engine L where
  events := h.events.imp fun _ h => h.1
  rules := h.rules.imp fun _ h => h.1
  merges _ hd := (h.merge hd).1

theorem comparable_respond (engine : Engine) (STATE : State.Store) (url : JsString) :
    Comparable engine (State.respond STATE url) := by
  have htruthy := State.truthy_respond STATE url
  rw [comparable_iff (ne_null_of_truthy htruthy), State.field_respond_ts]
  exact ⟨none, rfl⟩

theorem healthy_nextKey {L : LocalData} (h : Healthy engine L)
    {newState : PlainObject Json}
    (hnew : ∀ m ∈ newState.members, Comparable engine m.2) (keys : List JsString) :
    Healthy engine (nextKey L newState keys).1 ∧
      (nextKey L newState keys).2.Healthy engine := by
  cases keys with
  | nil => exact ⟨⟨hnew, h.events, h.rules⟩, trivial⟩
  | cons key rest => exact ⟨h, hnew⟩

/-- An answer keeps the node healthy, if it is not one of the rules server. -/
theorem Healthy.resume {target : JsString → JsString} {L data : LocalData}
    (h : Healthy engine L) {refresh refresh' : Refresh} {answer : Answer}
    (hrefresh : refresh.Healthy engine) (hserved : refresh.Served target answer)
    (hresume : refresh.resume L answer = some (data, refresh'))
    (hrules : ∀ v, refresh = .rules → answer ≠ .json v) :
    Healthy engine data ∧ refresh'.Healthy engine := by
  have hnext : ∀ {newState : PlainObject Json} {keys : List JsString},
      (∀ m ∈ newState.members, Comparable engine m.2) →
      nextKey L newState keys = (data, refresh') →
      Healthy engine data ∧ refresh'.Healthy engine := by
    intro newState keys hnew heq
    have hboth := healthy_nextKey h hnew keys
    rw [heq] at hboth
    exact hboth
  unfold Refresh.resume at hresume
  split at hresume
  · -- the keys
    exact hnext (fun _ hm => absurd hm List.not_mem_nil) (Option.some.inj hresume)
  · -- a value
    obtain ⟨STATE, rfl⟩ := hserved
    exact hnext (PlainObject.forall_members_set hrefresh
      (comparable_respond engine STATE _)) (Option.some.inj hresume)
  · cases hresume
    exact ⟨h, trivial⟩
  · cases hresume
    exact ⟨h, trivial⟩
  · -- the events
    obtain ⟨EVENTS, rfl⟩ := hserved
    cases hresume
    exact ⟨⟨h.state, ⟨_, rfl, EventBus.timed_of_mem_events⟩, h.rules⟩, trivial⟩
  · cases hresume
    exact ⟨h, trivial⟩
  · exact absurd rfl (hrules _ rfl)
  · cases hresume
    exact ⟨h, trivial⟩
  · cases hresume

/-- What a node holds and what its refreshes have read. -/
structure HealthyReplica (engine : Engine) (r : Replica) : Prop where
  data : Healthy engine r.data
  refreshes : ∀ refresh ∈ r.refreshes, refresh.Healthy engine

/-- One step keeps the node healthy, if it is not an answer of the rules
server. -/
theorem HealthyReplica.step {target : JsString → JsString} {r r' : Replica}
    {a : Action} (h : HealthyReplica engine r) (hstep : Step engine r a r')
    (hserved : Served engine target r a) (hrules : Unanswered r a) :
    HealthyReplica engine r' := by
  cases a with
  | merge incoming =>
    obtain rfl := Option.some.inj hstep
    exact ⟨(h.data.merge hserved).2, h.refreshes⟩
  | start =>
    obtain rfl := Option.some.inj hstep
    refine ⟨h.data, List.forall_mem_append.mpr ⟨h.refreshes, ?_⟩⟩
    exact List.forall_mem_singleton.mpr trivial
  | resume i answer =>
    obtain ⟨refresh, data, refresh', hrefresh, hresume, rfl⟩ := step_resume hstep
    have hboth := h.data.resume (h.refreshes _ (List.mem_of_getElem? hrefresh))
      (hserved refresh hrefresh) hresume (by
        rintro v rfl rfl
        exact hrules hrefresh)
    refine ⟨hboth.1, fun other hother => ?_⟩
    rcases List.mem_or_eq_of_mem_set hother with hother | rfl
    · exact h.refreshes other hother
    · exact hboth.2

theorem healthy_initial : HealthyReplica engine .initial where
  data :=
    { state := fun _ hm => absurd hm List.not_mem_nil
      events := ⟨[], rfl, by simp⟩
      rules := ⟨[], rfl, by simp⟩ }
  refreshes := fun _ h => absurd h List.not_mem_nil

/-- After an answer of the rules server the rules are no array. -/
theorem unanswered_of_wellFormed {target : JsString → JsString} {r r' : Replica}
    {a : Action} (hstep : Step engine r a r') (hserved : Served engine target r a)
    (h : WellFormedReplica engine r'.data) : Unanswered r a := by
  cases a with
  | merge incoming => trivial
  | start => trivial
  | resume i answer =>
    obtain ⟨refresh, data, refresh', hrefresh, hresume, rfl⟩ := step_resume hstep
    cases answer with
    | keys list => trivial
    | failed => trivial
    | json v =>
      intro hrules
      obtain rfl := Option.some.inj (hrefresh.symm.trans hrules)
      obtain ⟨store, rfl⟩ := hserved _ hrefresh
      obtain ⟨rules, harr⟩ := h.rules
      cases hresume
      rw [Rules.respond_rules] at harr
      cases harr

/-- **When a node stays well-formed.**  In a run of merges of well-formed dumps
and refreshes against the servers, at every moment the events and the rules are
arrays and every well-formed dump can be merged, exactly when no refresh has got
an answer from the rules server. -/
theorem wellFormed_iff {target : JsString → JsString} {as : List Action}
    {r : Replica}
    (hrun : Run (Guarded (Step engine) (Served engine target)) .initial as r) :
    (∀ bs s, bs <+: as →
        Run (Guarded (Step engine) (Served engine target)) .initial bs s →
        WellFormedReplica engine s.data) ↔
      Run (Guarded (Guarded (Step engine) (Served engine target)) Unanswered)
        .initial as r := by
  refine Run.always_iff (Q := HealthyReplica engine) ?_
    (fun _ h => h.data.wellFormed) ?_ ?_ healthy_initial hrun
  · rintro r a s t ⟨hs, -⟩ ⟨ht, -⟩
    exact step_unique r a s t hs ht
  · rintro r a s h ⟨hstep, hserved⟩ hrules
    exact h.step hstep hserved hrules
  · rintro r a s - ⟨hstep, hserved⟩ hs
    exact unanswered_of_wellFormed hstep hserved hs

/-! ## Known refreshes -/

def emptyDump : Dump where
  json := dumpData .initial
  nodup := by
    intro state h
    obtain rfl := Json.obj.inj (Option.some.inj h)
    exact List.nodup_nil

theorem usable_emptyDump : UsableDump engine emptyDump.json where
  state := ⟨[], rfl, by simp⟩
  events := ⟨[], rfl, by simp⟩
  rules := ⟨[], rfl, by simp⟩

/-- A refresh against servers that have just started, up to the rules. -/
def knownRefresh : List Action :=
  [.start, .resume 0 (.keys (keyList .initial)),
    .resume 0 (.json (EventBus.events [] none 200).body)]

theorem knownRefresh_run (target : JsString → JsString) :
    Run (Guarded (Guarded (Step engine) (Served engine target)) Unanswered) .initial
      knownRefresh { data := .initial, refreshes := [.rules] } := by
  refine .cons ⟨⟨rfl, trivial⟩, trivial⟩ (.cons ⟨⟨rfl, ?_⟩, trivial⟩
    (.single ⟨⟨rfl, ?_⟩, ?_⟩))
  · rintro refresh ⟨⟩
    exact ⟨.initial, rfl⟩
  · rintro refresh ⟨⟩
    exact ⟨[], rfl⟩
  · rintro ⟨⟩

/-- As long as the rules server has not answered, the node is well-formed. -/
theorem wellFormed_known :
    WellFormedReplica .plain (Replica.mk .initial [.rules]).data :=
  (wellFormed_iff ((knownRefresh_run (js "/get/" ++ ·)).mono
    fun _ _ _ h => h.1)).mpr (knownRefresh_run _) _ _ List.prefix_rfl
    ((knownRefresh_run _).mono fun _ _ _ h => h.1)

/-- The answer of the rules server ends that: the next dump cannot be merged. -/
theorem rules_not_found :
    ∃ r, Run (Guarded (Step .plain) (Served .plain (js "/get/" ++ ·))) .initial
        (knownRefresh ++
          [.resume 0 (.json (Rules.respond .initial (js "/rules")).body)]) r ∧
      (∀ rules, r.data.rules ≠ .arr rules) ∧
      UsableDump .plain emptyDump.json ∧
      (mergeData .plain r.data emptyDump.json).2 ≠ none := by
  refine ⟨_, .snoc ((knownRefresh_run _).mono fun _ _ _ h => h.1) ⟨rfl, ?_⟩, ?_,
    usable_emptyDump, by decide +kernel⟩
  · rintro refresh ⟨⟩
    exact ⟨.initial, rfl⟩
  · rintro rules ⟨⟩

end NewZone.Services.Replication
