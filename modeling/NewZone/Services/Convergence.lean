import NewZone.Services.TimedMap

/-!
# Two replicas that exchange their dumps

Each of two nodes merges what the other held before.  `replicas_agree_iff` says
exactly when they hold the same afterwards.  They do unless two entries tie,
since each node then keeps its own, or a state key that only one of them has is
a name that every object inherits, since the other never takes it.  Where the
merges throw before they get to the rules, each node keeps its rules.
-/

namespace NewZone.Services.Replication

open NewZone.Js NewZone.Js.Json NewZone.ExceptBind NewZone.Latest

/-! ## What a node holds -/

/-- State entries and rules carry numeric time stamps. -/
structure TimedData (A : LocalData) : Prop where
  state : TimedEntries A.state
  rules : TimedItems (some A.rules)

/-- Two nodes have the same value under every state key and the same rules
under every id. -/
def Agree (engine : Engine) (A B : LocalData) : Prop :=
  (∀ key, (A.state.get key).map sorted = (B.state.get key).map sorted) ∧
    ∀ key, (rulesWith engine key A.rules).map sorted
      = (rulesWith engine key B.rules).map sorted

/-- Two nodes can merge each other's events and rules: both have lists, the
events can be compared, and the ids of the rules can be names. -/
structure Mergeable (engine : Engine) (A B : LocalData) : Prop where
  events : ∃ as bs, spread (some A.events) = .ok as ∧
    spread (some B.events) = .ok bs ∧
      ((as ++ bs).length < 2 ∨ ∀ e ∈ as ++ bs, Comparable engine e)
  rules : ∃ rs ss, spread (some A.rules) = .ok rs ∧
    spread (some B.rules) = .ok ss ∧
      ∀ r ∈ rs ++ ss, ∃ key, ruleKey engine r = .ok key

theorem Mergeable.swap {engine : Engine} {A B : LocalData}
    (h : Mergeable engine A B) : Mergeable engine B A where
  events := by
    obtain ⟨as, bs, has, hbs, h⟩ := h.events
    refine ⟨bs, as, hbs, has, h.imp (fun hlength => ?_) fun hall e he => ?_⟩
    · rw [List.length_append, Nat.add_comm, ← List.length_append]
      exact hlength
    · exact hall e (List.perm_append_comm.mem_iff.mp he)
  rules := by
    obtain ⟨rs, ss, hrs, hss, hall⟩ := h.rules
    exact ⟨ss, rs, hss, hrs, fun r hr =>
      hall r (List.perm_append_comm.mem_iff.mp hr)⟩

/-- What two nodes have in common before they exchange it. -/
structure Reconcilable (engine : Engine) (A B : LocalData) : Prop where
  /-- entries with one key and one time stamp are the same -/
  tie : ∀ key, ∀ a ∈ A.state.get key, ∀ b ∈ B.state.get key, ts a = ts b →
    Json.Same a b
  /-- an inherited name is bound on both nodes or on neither -/
  inherited : ∀ key ∈ objectPrototype,
    (A.state.get key).isSome = (B.state.get key).isSome
  /-- of one id, the first of the newest rules are the same if they tie -/
  ruleTie : Mergeable engine A B → ∀ key ∉ objectPrototype,
    ∀ r ∈ (rulesWith engine key A.rules).argmax ts,
      ∀ s ∈ (rulesWith engine key B.rules).argmax ts, ts r = ts s →
        Json.Same r s
  /-- if the merges throw, the rules are the same to begin with -/
  rules : ¬ Mergeable engine A B → ∀ key,
    (rulesWith engine key A.rules).map sorted
      = (rulesWith engine key B.rules).map sorted

/-! ## What a merge leaves -/

section Merge

variable {engine : Engine} {A B : LocalData}

/-- The rules of a timed list are those that can be spread. -/
theorem rulesWith_of_spread {rules : Json} {rs : List Json}
    (htimed : TimedItems (some rules)) (h : spread (some rules) = .ok rs)
    (key : JsString) :
    rulesWith engine key rules = rulesWith engine key (.arr rs) := by
  cases rules with
  | arr items =>
    obtain rfl := Except.ok.inj h
    rfl
  | str s =>
    -- a text carries no time stamps, so it is empty
    have hrs := htimed rs h
    obtain rfl := Except.ok.inj h
    cases hpoints : codePoints s with
    | nil => rfl
    | cons u us =>
      rw [hpoints] at hrs
      exact absurd (hrs _ List.mem_cons_self) (by simp [Timed, tsOf, Json.field])
  | _ => cases h

theorem mergeable_iff (hA : TimedData A) (hB : TimedData B) :
    Mergeable engine A B ↔
      (∃ events, mergeEvents engine A.events (some B.events) = .ok events) ∧
        ∃ rules, mergeRules engine A.rules (some B.rules) = .ok rules := by
  have hevents : (∃ events,
      mergeEvents engine A.events (some B.events) = .ok events) ↔
      ∃ as bs, spread (some A.events) = .ok as ∧ spread (some B.events) = .ok bs ∧
        ((as ++ bs).length < 2 ∨ ∀ e ∈ as ++ bs, Comparable engine e) := by
    simp only [mergeEvents, bind_eq_ok, ← sortEvents_returns_iff]
    constructor
    · rintro ⟨-, as, has, bs, hbs, sorted, hsorted, -⟩
      exact ⟨as, bs, has, hbs, sorted, hsorted⟩
    · rintro ⟨as, bs, has, hbs, sorted, hsorted⟩
      exact ⟨_, as, has, bs, hbs, sorted, hsorted, rfl⟩
  have hrules : (∃ rules,
      mergeRules engine A.rules (some B.rules) = .ok rules) ↔
      ∃ rs ss, spread (some A.rules) = .ok rs ∧ spread (some B.rules) = .ok ss ∧
        ∀ r ∈ rs ++ ss, ∃ key, ruleKey engine r = .ok key := by
    have hentry : ∀ r, (∃ e, ruleEntry engine r = .ok e) ↔
        ∃ key, ruleKey engine r = .ok key := by
      intro r
      simp only [ruleEntry, bind_eq_ok]
      constructor
      · rintro ⟨-, key, hkey, -⟩
        exact ⟨key, hkey⟩
      · rintro ⟨key, hkey⟩
        exact ⟨_, key, hkey, rfl⟩
    constructor
    · rintro ⟨rules, h⟩
      obtain ⟨rs, hrs, h'⟩ := bind_eq_ok.mp h
      obtain ⟨ss, hss, -⟩ := bind_eq_ok.mp h'
      obtain ⟨es, hes, -⟩ := mergeRules_timed hrs hss
        (List.forall_mem_append.mpr ⟨hA.rules rs hrs, hB.rules ss hss⟩) h
      refine ⟨rs, ss, hrs, hss, fun r hr => (hentry r).mp ?_⟩
      exact exists_mapM_eq_ok.mp ⟨es, hes⟩ r hr
    · rintro ⟨rs, ss, hrs, hss, hkeys⟩
      obtain ⟨es, hes⟩ := exists_mapM_eq_ok.mpr fun r hr =>
        (hentry r).mpr (hkeys r hr)
      refine ⟨.arr ((es.foldl offer .empty).members.map Prod.snd), ?_⟩
      rw [mergeRules, hrs, hss, ok_bind, ok_bind,
        mergeRuleMap_timed engine timedEntries_empty
          (List.forall_mem_append.mpr ⟨hA.rules rs hrs, hB.rules ss hss⟩), hes]
      rfl
  rw [hevents, hrules]
  exact ⟨fun h => ⟨h.events, h.rules⟩, fun h => ⟨h.1, h.2⟩⟩

/-- Merging a dump offers its entries to the state. -/
theorem state_mergeData (hA : TimedData A) (hB : TimedData B) :
    (mergeData engine A (dumpData B)).1.state
      = B.state.members.foldl offer A.state := by
  rw [state_mergeData_eq]
  exact congrArg Prod.fst (mergeState_timed engine hA.state hB.state)

/-- A merge that throws leaves the rules alone. -/
theorem rules_mergeData (hA : TimedData A) (hB : TimedData B) :
    (Mergeable engine A B → mergeRules engine A.rules (some B.rules)
        = .ok (mergeData engine A (dumpData B)).1.rules) ∧
      (¬ Mergeable engine A B →
        (mergeData engine A (dumpData B)).1.rules = A.rules) := by
  have hloop := mergeState_timed engine hA.state hB.state
  have hstate : property (dumpData B) "state"
      = .ok (some (.obj B.state.members)) := rfl
  have hfields : Json.field (dumpData B) "events" = some B.events ∧
      Json.field (dumpData B) "rules" = some B.rules := ⟨rfl, rfl⟩
  rw [mergeable_iff hA hB, mergeData, hstate]
  simp only [enumerate, hloop, hfields.1, hfields.2]
  cases mergeEvents engine A.events (some B.events) with
  | error e => simp
  | ok events => cases mergeRules engine A.rules (some B.rules) <;> simp

theorem get_mergeData (hA : TimedData A) (hB : TimedData B) (key : JsString) :
    (mergeData engine A (dumpData B)).1.state.get key
      = if Free A.state key then
          ((A.state.get key).toList ++ (B.state.get key).toList).argmax ts
        else none := by
  rw [state_mergeData hA hB, get_foldl_offer, valuesAt_eq B.state.nodup]
  rfl

/-- Of each id, a merge that does not throw leaves the first of the newest
rules, and none if the id is an inherited name. -/
theorem rulesWith_mergeData (hA : TimedData A) (hB : TimedData B)
    (h : Mergeable engine A B) (key : JsString) :
    rulesWith engine key (mergeData engine A (dumpData B)).1.rules
      = if key ∈ objectPrototype then []
        else ((rulesWith engine key A.rules ++ rulesWith engine key B.rules).argmax
          ts).toList := by
  obtain ⟨rs, ss, hrs, hss, -⟩ := h.rules
  rw [rulesWith_mergeRules hrs hss
      (List.forall_mem_append.mpr ⟨hA.rules rs hrs, hB.rules ss hss⟩)
      ((rules_mergeData hA hB).1 h),
    rulesWith_of_spread hA.rules hrs, rulesWith_of_spread hB.rules hss]
  simp only [rulesWith, List.filter_append]

end Merge

/-! ## Agreement -/

/-- One state key after the exchange. -/
theorem get_agree_iff {s t : PlainObject Json} (key : JsString) :
    ((if Free s key then
          ((s.get key).toList ++ (t.get key).toList).argmax ts
        else none).map sorted
      = (if Free t key then
          ((t.get key).toList ++ (s.get key).toList).argmax ts
        else none).map sorted) ↔
      (∀ a ∈ s.get key, ∀ b ∈ t.get key, ts a = ts b → Json.Same a b) ∧
        (key ∈ objectPrototype → (s.get key).isSome = (t.get key).isSome) := by
  have hswap := @argmax_swap_iff Json ℚ Json _ ts sorted (s.get key).toList
    (t.get key).toList
  rw [argmax_toList, argmax_toList] at hswap
  by_cases hproto : key ∈ objectPrototype
  · cases hs : s.get key with
    | none => cases ht : t.get key <;> simp [Free, hs, ht, hproto]
    | some a =>
      cases ht : t.get key with
      | none => simp [Free, hs, ht, hproto]
      | some b =>
        have hfree : Free s key ∧ Free t key :=
          ⟨Or.inr (by simp [hs]), Or.inr (by simp [ht])⟩
        rw [hs, ht] at hswap
        rw [if_pos hfree.1, if_pos hfree.2]
        apply hswap.trans
        simp [Json.Same]
  · have hfree : Free s key ∧ Free t key := ⟨Or.inl hproto, Or.inl hproto⟩
    rw [if_pos hfree.1, if_pos hfree.2]
    apply hswap.trans
    simp [hproto, Json.Same]

/-- The rules of one id after the exchange. -/
theorem rules_agree_iff {engine : Engine} {A B : LocalData} (hA : TimedData A)
    (hB : TimedData B) (key : JsString) :
    ((rulesWith engine key (mergeData engine A (dumpData B)).1.rules).map sorted
      = (rulesWith engine key (mergeData engine B (dumpData A)).1.rules).map sorted) ↔
    (Mergeable engine A B → key ∉ objectPrototype →
      ∀ r ∈ (rulesWith engine key A.rules).argmax ts,
        ∀ s ∈ (rulesWith engine key B.rules).argmax ts, ts r = ts s →
          Json.Same r s) ∧
      (¬ Mergeable engine A B →
        (rulesWith engine key A.rules).map sorted
          = (rulesWith engine key B.rules).map sorted) := by
  by_cases h : Mergeable engine A B
  · rw [rulesWith_mergeData hA hB h, rulesWith_mergeData hB hA h.swap]
    by_cases hproto : key ∈ objectPrototype
    · simp [h, hproto]
    · have htoList : ∀ o : Option Json, o.toList.map sorted = (o.map sorted).toList :=
        fun o => by cases o <;> rfl
      have hinj : ∀ o p : Option Json, o.toList = p.toList ↔ o = p := by
        intro o p
        cases o <;> cases p <;> simp
      rw [if_neg hproto, if_neg hproto, htoList, htoList, hinj, argmax_swap_iff]
      simp [h, hproto, Json.Same]
  · rw [(rules_mergeData hA hB).2 h,
      (rules_mergeData hB hA).2 fun hswap => h hswap.swap]
    simp [h]

/-- **When replicas agree.**  After an exchange two nodes agree on the state and
the rules exactly when what they held before is reconcilable. -/
theorem replicas_agree_iff {engine : Engine} {A B : LocalData}
    (hA : TimedData A) (hB : TimedData B) :
    Agree engine (mergeData engine A (dumpData B)).1
        (mergeData engine B (dumpData A)).1 ↔
      Reconcilable engine A B := by
  have hstate : ∀ key,
      (((mergeData engine A (dumpData B)).1.state.get key).map sorted
        = ((mergeData engine B (dumpData A)).1.state.get key).map sorted) ↔
      (∀ a ∈ A.state.get key, ∀ b ∈ B.state.get key, ts a = ts b →
        Json.Same a b) ∧
        (key ∈ objectPrototype →
          (A.state.get key).isSome = (B.state.get key).isSome) := by
    intro key
    rw [get_mergeData hA hB, get_mergeData hB hA]
    exact get_agree_iff key
  have hrules := @rules_agree_iff engine A B hA hB
  constructor
  · rintro ⟨hs, hr⟩
    exact
      { tie := fun key => ((hstate key).mp (hs key)).1
        inherited := fun key => ((hstate key).mp (hs key)).2
        ruleTie := fun h key => ((hrules key).mp (hr key)).1 h
        rules := fun h key => ((hrules key).mp (hr key)).2 h }
  · intro h
    exact ⟨fun key => (hstate key).mpr ⟨h.tie key, h.inherited key⟩,
      fun key => (hrules key).mpr ⟨fun hm => h.ruleTie hm key,
        fun hm => h.rules hm key⟩⟩

/-! ## Two known nodes -/

/-- `{ value, ts }` -/
def knownEntry (value ts : ℕ) : Json :=
  .obj [(js "value", .num (.ofNat value)), (js "ts", .num (.ofNat ts))]

/-- A node with one entry, and the same rule as the others. -/
def knownNode (value ts : ℕ) : LocalData :=
  { state := PlainObject.empty.set (js "k") (knownEntry value ts)
    events := .arr []
    rules := .arr [.obj [(js "id", .str (js "r")), (js "ts", .num (.ofNat 1))]] }

theorem knownNode_get (value ts : ℕ) (key : JsString) :
    (knownNode value ts).state.get key
      = if js "k" = key then some (knownEntry value ts) else none :=
  PlainObject.get_set _ _ _ _

theorem ts_knownEntry (value t : ℕ) : ts (knownEntry value t) = t := by
  show (Number.ofNat t).value = t
  exact Number.value_ofNat t

theorem timedData_knownNode (value ts : ℕ) : TimedData (knownNode value ts) where
  state := by
    rintro ⟨k, v⟩ hm
    have hget := PlainObject.get_eq_some_iff.mpr hm
    rw [knownNode_get] at hget
    split_ifs at hget
    obtain rfl := Option.some.inj hget
    rfl
  rules := timedItems_arr (List.forall_mem_singleton.mpr rfl)

theorem mergeable_knownNode (value ts value' ts' : ℕ) :
    Mergeable .plain (knownNode value ts) (knownNode value' ts') where
  events := ⟨[], [], rfl, rfl, Or.inl (by decide)⟩
  rules := by
    refine ⟨_, _, rfl, rfl, fun r hr => ⟨js "r", ?_⟩⟩
    have hr' := List.mem_append.mp hr
    rw [or_self] at hr'
    obtain rfl := List.mem_singleton.mp hr'
    rfl

/-- Two nodes agree after an exchange where one has the later entry. -/
theorem replicas_agree_known :
    Agree .plain (mergeData .plain (knownNode 1 5) (dumpData (knownNode 2 6))).1
      (mergeData .plain (knownNode 2 6) (dumpData (knownNode 1 5))).1 := by
  refine (replicas_agree_iff (timedData_knownNode 1 5)
    (timedData_knownNode 2 6)).mpr ?_
  refine { tie := ?_, inherited := ?_, ruleTie := ?_, rules := ?_ }
  · intro key a ha b hb hts
    rw [knownNode_get] at ha hb
    split_ifs at ha hb
    · rw [← Option.some.inj ha, ← Option.some.inj hb, ts_knownEntry,
        ts_knownEntry] at hts
      norm_num at hts
    all_goals cases ha
  · intro key _
    rw [knownNode_get, knownNode_get]
    split_ifs <;> rfl
  · intro _ key _ r hr s hs _
    obtain rfl := Option.some.inj (hr.symm.trans hs)
    exact .refl r
  · exact fun h => absurd (mergeable_knownNode 1 5 2 6) h

/-- Two entries with one time stamp stay apart. -/
theorem tied_replicas_disagree :
    TimedData (knownNode 1 5) ∧ TimedData (knownNode 2 5) ∧
    (mergeData .plain (knownNode 1 5) (dumpData (knownNode 2 5))).2 = none ∧
    (mergeData .plain (knownNode 2 5) (dumpData (knownNode 1 5))).2 = none ∧
    ¬ Agree .plain
      (mergeData .plain (knownNode 1 5) (dumpData (knownNode 2 5))).1
      (mergeData .plain (knownNode 2 5) (dumpData (knownNode 1 5))).1 := by
  refine ⟨timedData_knownNode 1 5, timedData_knownNode 2 5, by decide +kernel,
    by decide +kernel, ?_⟩
  rintro ⟨hstate, -⟩
  exact absurd (hstate (js "k")) (by decide +kernel)

end NewZone.Services.Replication
