import NewZone.Services.Idempotence

/-!
# Merges that change nothing

`mergeData` goes through the state, the events and the rules one after the
other.  For each of the three this module says, in terms of what the node holds
and what the dump brings, when the part is left as it was and when its loop
gets to its end.
-/

namespace NewZone.Services.Replication

open NewZone.Js NewZone.ExceptBind NewZone.Window

variable {engine : Engine}

/-! ## State -/

/-- The entries that the state loop gets past, as long as it changes nothing. -/
def passed (engine : Engine) (state : PlainObject Json)
    (es : List (JsString × Json)) : List (JsString × Json) :=
  es.takeWhile fun e => (wins engine (state.lookup e.1) e.2).isOk

/-- An entry that the loop gets to and takes is there already. -/
def Unmoved (engine : Engine) (state : PlainObject Json)
    (es : List (JsString × Json)) : Prop :=
  ∀ e ∈ passed engine state es,
    wins engine (state.lookup e.1) e.2 = .ok true → state.get e.1 = some e.2

theorem passed_cons_of_ok {state : PlainObject Json} {e : JsString × Json}
    {win : Bool} (h : wins engine (state.lookup e.1) e.2 = .ok win)
    (es : List (JsString × Json)) :
    passed engine state (e :: es) = e :: passed engine state es := by
  rw [passed, List.takeWhile_cons, h]
  rfl

theorem unmoved_cons_of_ok {state : PlainObject Json} {e : JsString × Json}
    {win : Bool} (h : wins engine (state.lookup e.1) e.2 = .ok win)
    (es : List (JsString × Json)) :
    Unmoved engine state (e :: es) ↔
      (win = true → state.get e.1 = some e.2) ∧ Unmoved engine state es := by
  rw [Unmoved, passed_cons_of_ok h, List.forall_mem_cons, h, Except.ok.injEq]
  rfl

/-- The state loop leaves the state as it was exactly when nothing that it gets
to is taken, except what is there already. -/
theorem mergeState_eq_self_iff (state : PlainObject Json)
    {es : List (JsString × Json)} (hnodup : NodupKeys es) :
    (mergeState engine state es).1 = state ↔ Unmoved engine state es := by
  induction es with
  | nil => simp [mergeState, Unmoved, passed]
  | cons e es ih =>
    obtain ⟨key, remote⟩ := e
    obtain ⟨hkey, hnodup⟩ := List.nodup_cons.mp hnodup
    rw [mergeState]
    cases hwin : wins engine (state.lookup key) remote with
    | error e =>
      have hnil : passed engine state ((key, remote) :: es) = [] := by
        rw [passed, List.takeWhile_cons, hwin]
        rfl
      simp [Unmoved, hnil]
    | ok win =>
      rw [unmoved_cons_of_ok hwin]
      cases win with
      | false =>
        simp only [Bool.false_eq_true, false_implies, true_and]
        exact ih hnodup
      | true =>
        simp only [true_implies]
        by_cases hget : state.get key = some remote
        · rw [PlainObject.set_of_get hget, ih hnodup]
          exact (and_iff_right hget).symm
        · -- nothing that comes later touches the key again
          have hset := get_mergeState_of_notMem engine (state.set key remote) hkey
          rw [PlainObject.get_set_self] at hset
          constructor
          · intro h
            rw [h] at hset
            exact absurd hset hget
          · intro h
            exact absurd h.1 hget

/-! ## Events -/

/-- Of the events of the node and those of a dump, in the order of their times,
the last ones are those of the node.  Where a `ts` is not a number, the order
is up to the engine. -/
def EventsStay (engine : Engine) (held incoming : List Json) : Prop :=
  if ∀ e ∈ held ++ incoming, Timed e then Closed ts MAX_EVENTS held incoming
  else if (held ++ incoming).length < 2 then incoming = []
  else (engine.sortOther (held ++ incoming)).rtake MAX_EVENTS = held

/-- When both lists of events can be spread and sorted. -/
def EventsMerge (engine : Engine) (events : Json) (incoming : Option Json) :
    Prop :=
  ∃ held brought, spread (some events) = .ok held ∧
    spread incoming = .ok brought ∧
      ((held ++ brought).length < 2 ∨
        ∀ e ∈ held ++ brought, Comparable engine e)

theorem mergeEvents_returns_iff {events : Json} {incoming : Option Json} :
    (∃ events', mergeEvents engine events incoming = .ok events') ↔
      EventsMerge engine events incoming := by
  simp only [mergeEvents, EventsMerge, bind_eq_ok, ← sortEvents_returns_iff]
  constructor
  · rintro ⟨-, held, hheld, brought, hbrought, sorted, hsorted, -⟩
    exact ⟨held, brought, hheld, hbrought, sorted, hsorted⟩
  · rintro ⟨held, brought, hheld, hbrought, sorted, hsorted⟩
    exact ⟨_, held, hheld, brought, hbrought, sorted, hsorted, rfl⟩

theorem sortEvents_rtake_iff {held incoming sorted : List Json}
    (h : sortEvents engine (held ++ incoming) = .ok sorted) :
    sorted.rtake MAX_EVENTS = held ↔ EventsStay engine held incoming := by
  unfold sortEvents at h
  unfold EventsStay
  split_ifs at h ⊢ with htimed hlength
  · obtain rfl := Except.ok.inj h
    exact window_append_eq_left_iff MAX_EVENTS held incoming
  · obtain rfl := Except.ok.inj h
    have hle : (held ++ incoming).length ≤ MAX_EVENTS := by
      unfold MAX_EVENTS
      omega
    rw [rtake_of_length_le hle]
    simp
  · obtain ⟨-, -, h⟩ := bind_eq_ok.mp h
    obtain rfl := Except.ok.inj h
    rfl

/-- The events that a merge leaves are those that were there. -/
theorem mergeEvents_eq_self_iff {events events' : Json}
    {incoming : Option Json} {brought : List Json}
    (hbrought : spread incoming = .ok brought)
    (h : mergeEvents engine events incoming = .ok events') :
    events' = events ↔
      ∃ held, events = .arr held ∧ EventsStay engine held brought := by
  obtain ⟨held, hheld, h⟩ := bind_eq_ok.mp h
  obtain ⟨brought', hbrought', h⟩ := bind_eq_ok.mp h
  obtain rfl := Except.ok.inj (hbrought.symm.trans hbrought')
  obtain ⟨sorted, hsorted, h⟩ := bind_eq_ok.mp h
  obtain rfl := Except.ok.inj h
  constructor
  · rintro rfl
    have hsame : sorted.rtake MAX_EVENTS = held := Except.ok.inj hheld
    exact ⟨held, by rw [hsame], (sortEvents_rtake_iff hsorted).mp hsame⟩
  · rintro ⟨held', rfl, hstay⟩
    obtain rfl := Except.ok.inj hheld
    rw [(sortEvents_rtake_iff hsorted).mpr hstay]

/-! ## Rules -/

/-- The rules of one id are compared with each other, once one of them is there
that is truthy. -/
def Compared (engine : Engine) (rs : List Json) : Prop :=
  let rs := rs.dropWhile fun r => !r.truthy
  rs.length < 2 ∨ ∀ r ∈ rs, Comparable engine r

/-- The rules of one id can be compared with what the map has for it, and with
each other. -/
def Duels (engine : Engine) : Found Json → List Json → Prop
  | .own v, rs => Compared engine (v :: rs)
  | .missing, rs => Compared engine rs
  | .inherited, rs => ∀ r ∈ rs, Comparable engine r

theorem gt_isOk_iff {a b : Option Json} :
    (∃ win, engine.gt a b = .ok win) ↔
      (∃ a', a.mapM engine.primitive = .ok a') ∧
        ∃ b', b.mapM engine.primitive = .ok b' := by
  unfold Engine.gt
  split
  · exact iff_of_true ⟨_, rfl⟩ ⟨⟨_, rfl⟩, ⟨_, rfl⟩⟩
  · simp only [bind_eq_ok]
    constructor
    · rintro ⟨-, a', ha, b', hb, -⟩
      exact ⟨⟨a', ha⟩, ⟨b', hb⟩⟩
    · rintro ⟨⟨a', ha⟩, ⟨b', hb⟩⟩
      cases a' <;> cases b' <;> exact ⟨_, _, ha, _, hb, rfl⟩

theorem comparable_iff {v : Json} (hv : v ≠ .null) :
    Comparable engine v ↔
      ∃ ts, (Json.field v "ts").mapM engine.primitive = .ok ts := by
  have hproperty : property v "ts" = .ok (Json.field v "ts") := by
    cases v with
    | null => exact absurd rfl hv
    | _ => rfl
  rw [Comparable, hproperty]
  simp

theorem ne_null_of_truthy {v : Json} (h : v.truthy = true) : v ≠ .null := by
  rintro rfl
  cases h

/-- What is greater than something is there. -/
theorem gt_none_left {b : Option Json} {win : Bool}
    (h : engine.gt none b = .ok win) : win = false := by
  unfold Engine.gt at h
  dsimp only at h
  obtain ⟨a', ha, h⟩ := bind_eq_ok.mp h
  obtain ⟨b', -, h⟩ := bind_eq_ok.mp h
  obtain rfl := Except.ok.inj ha
  exact (Except.ok.inj h).symm

theorem gt_none_right {a : Option Json} {win : Bool}
    (h : engine.gt a none = .ok win) : win = false := by
  unfold Engine.gt at h
  split at h
  · rename_i heq
    cases heq
  · obtain ⟨a', -, h⟩ := bind_eq_ok.mp h
    obtain ⟨b', hb, h⟩ := bind_eq_ok.mp h
    obtain rfl := Except.ok.inj hb
    cases a' <;> exact (Except.ok.inj h).symm

/-- Next to a truthy rule, the others of its id have to be comparable. -/
theorem duels_own_cons {v : Json} (hv : v.truthy = true) (r : Json) (rs : List Json) :
    Duels engine (.own v) (r :: rs) ↔ Comparable engine v ∧
      Comparable engine r ∧ ∀ x ∈ rs, Comparable engine x := by
  simp [Duels, Compared, hv]

theorem forall_comparable_of_duels {v : Json} (hv : v.truthy = true) {rs : List Json}
    (h : Duels engine (.own v) rs) : ∀ x ∈ rs, Comparable engine x := by
  cases rs with
  | nil => simp
  | cons x rs => exact List.forall_mem_cons.mpr ((duels_own_cons hv x rs).mp h).2

theorem duels_of_forall_comparable {v : Json} (hv : Comparable engine v) {rs : List Json}
    (hrs : ∀ x ∈ rs, Comparable engine x) : Duels engine (.own v) rs := by
  rw [Duels, Compared]
  refine .inr fun x hx => ?_
  rcases List.mem_cons.mp ((List.dropWhile_sublist _).subset hx) with rfl | hx
  · exact hv
  · exact hrs x hx

/-- One rule is compared, and the others of its id meet what is there then. -/
theorem duels_cons {ruleMap : PlainObject Json} {key : JsString} {r : Json}
    (hr : r ≠ .null) (rs : List Json) :
    Duels engine (ruleMap.lookup key) (r :: rs) ↔
      ∃ win, wins engine (ruleMap.lookup key) r = .ok win ∧
        Duels engine
          ((if win then ruleMap.set key r else ruleMap).lookup key) rs := by
  have hset : (ruleMap.set key r).lookup key = .own r :=
    PlainObject.lookup_of_get (PlainObject.get_set_self _ _ _)
  have hproperty : property r "ts" = .ok (Json.field r "ts") := by
    cases r with
    | null => exact absurd rfl hr
    | _ => rfl
  cases hlookup : ruleMap.lookup key with
  | missing => simp [Duels, wins, hset]
  | inherited =>
    have hwins : wins engine .inherited r = engine.gt (Json.field r "ts") none := by
      rw [wins, hproperty, ok_bind]
    rw [Duels, List.forall_mem_cons, comparable_iff hr, hwins]
    constructor
    · rintro ⟨hts, hrs⟩
      have hnone : (none : Option Json).mapM engine.primitive = .ok none := rfl
      obtain ⟨win, hwin⟩ := gt_isOk_iff.mpr ⟨hts, ⟨none, hnone⟩⟩
      obtain rfl := gt_none_right hwin
      refine ⟨false, hwin, ?_⟩
      rw [if_neg Bool.false_ne_true, hlookup]
      exact hrs
    · rintro ⟨win, hwin, hrs⟩
      obtain rfl := gt_none_right hwin
      rw [if_neg Bool.false_ne_true, hlookup] at hrs
      exact ⟨(gt_isOk_iff.mp ⟨_, hwin⟩).1, hrs⟩
  | own v =>
    by_cases hv : v.truthy = true
    · have hwins : wins engine (.own v) r
          = engine.gt (Json.field r "ts") (Json.field v "ts") := by
        rw [wins, if_pos hv, hproperty, ok_bind]
      rw [duels_own_cons hv, hwins, comparable_iff hr, comparable_iff (ne_null_of_truthy hv)]
      constructor
      · rintro ⟨hvts, hrts, hrs⟩
        obtain ⟨win, hwin⟩ := gt_isOk_iff.mpr ⟨hrts, hvts⟩
        refine ⟨win, hwin, ?_⟩
        rw [← comparable_iff hr] at hrts
        rw [← comparable_iff (ne_null_of_truthy hv)] at hvts
        cases win with
        | false =>
          rw [if_neg Bool.false_ne_true, hlookup]
          exact duels_of_forall_comparable hvts hrs
        | true =>
          rw [if_pos rfl, hset]
          exact duels_of_forall_comparable hrts hrs
      · rintro ⟨win, hwin, hrest⟩
        obtain ⟨hrts, hvts⟩ := gt_isOk_iff.mp ⟨win, hwin⟩
        refine ⟨hvts, hrts, ?_⟩
        cases win with
        | false =>
          rw [if_neg Bool.false_ne_true, hlookup] at hrest
          exact forall_comparable_of_duels hv hrest
        | true =>
          -- a rule that wins has a `ts`, so it is an object
          have htruthy : r.truthy = true := by
            cases r with
            | obj _ => rfl
            | _ => exact absurd (gt_none_left hwin) (by decide)
          rw [if_pos rfl, hset] at hrest
          exact forall_comparable_of_duels htruthy hrest
    · -- a falsy rule makes room for every other
      have hwins : wins engine (.own v) r = .ok true := by
        rw [wins, if_neg hv]
      rw [hwins]
      simp [Duels, Compared, hv, hset]

theorem rulesWith_cons_self {key : JsString} {r : Json} (h : ruleKey engine r = .ok key)
    (rs : List Json) :
    rulesWith engine key (.arr (r :: rs)) = r :: rulesWith engine key (.arr rs) := by
  simp [rulesWith, h, Except.toOption]

theorem rulesWith_cons_of_ne {key other : JsString} {r : Json}
    (h : ruleKey engine r = .ok key) (hne : other ≠ key) (rs : List Json) :
    rulesWith engine other (.arr (r :: rs)) = rulesWith engine other (.arr rs) := by
  simp [rulesWith, h, Except.toOption, hne.symm]

/-- The loop gets past a rule whose name can be read and that can be compared with what
the map has for it. -/
theorem mergeRuleMap_cons_returns_iff {ruleMap : PlainObject Json} {r : Json}
    {rs : List Json} {key : JsString} (h : ruleKey engine r = .ok key) :
    (∃ ruleMap', mergeRuleMap engine ruleMap (r :: rs) = .ok ruleMap') ↔
      ∃ win, wins engine (ruleMap.lookup key) r = .ok win ∧
        ∃ ruleMap', mergeRuleMap engine (if win then ruleMap.set key r else ruleMap) rs
          = .ok ruleMap' := by
  obtain ⟨id, hid, hkey⟩ := bind_eq_ok.mp h
  rw [mergeRuleMap, hid, ok_bind, hkey, ok_bind]
  simp only [bind_eq_ok]
  constructor
  · rintro ⟨m, win, hwin, hm⟩
    exact ⟨win, hwin, m, hm⟩
  · rintro ⟨win, hwin, m, hm⟩
    exact ⟨m, win, hwin, hm⟩

/-- The loop over the rules gets to its end when every rule has a name and the
rules of one name can be compared. -/
theorem mergeRuleMap_returns_iff {ruleMap : PlainObject Json} {rs : List Json} :
    (∃ ruleMap', mergeRuleMap engine ruleMap rs = .ok ruleMap') ↔
      (∀ r ∈ rs, ∃ key, ruleKey engine r = .ok key) ∧
        ∀ key, Duels engine (ruleMap.lookup key)
          (rulesWith engine key (.arr rs)) := by
  induction rs generalizing ruleMap with
  | nil =>
    refine iff_of_true ⟨_, rfl⟩ ⟨by simp, fun key => ?_⟩
    show Duels engine (ruleMap.lookup key) []
    cases ruleMap.lookup key with
    | own v =>
      refine .inl ?_
      have := (List.dropWhile_sublist (fun r => !Json.truthy r) (l := [v])).length_le
      simp only [List.length_singleton] at this
      omega
    | missing => exact .inl (by simp)
    | inherited => exact fun r hr => absurd hr List.not_mem_nil
  | cons r rs ih =>
    rw [List.forall_mem_cons]
    cases hkey : ruleKey engine r with
    | error e =>
      constructor
      · rintro ⟨m, hm⟩
        rw [mergeRuleMap] at hm
        obtain ⟨id, hid, hm⟩ := bind_eq_ok.mp hm
        obtain ⟨key, hkey', -⟩ := bind_eq_ok.mp hm
        rw [ruleKey, hid, ok_bind, hkey'] at hkey
        cases hkey
      · rintro ⟨⟨⟨key, hkey'⟩, -⟩, -⟩
        cases hkey'
    | ok key =>
      have hr : r ≠ .null := by
        rintro rfl
        cases hkey
      rw [mergeRuleMap_cons_returns_iff hkey]
      simp only [ih]
      have hframe : ∀ (win : Bool) (other : JsString), other ≠ key →
          (if win then ruleMap.set key r else ruleMap).lookup other
            = ruleMap.lookup other := by
        intro win other hne
        split_ifs
        · exact PlainObject.lookup_congr (PlainObject.get_set_of_ne _ hne.symm _)
        · rfl
      constructor
      · rintro ⟨win, hwin, hnames, hduels⟩
        refine ⟨⟨⟨key, rfl⟩, hnames⟩, fun other => ?_⟩
        by_cases hne : other = key
        · subst hne
          rw [rulesWith_cons_self hkey]
          exact (duels_cons hr _).mpr ⟨win, hwin, hduels other⟩
        · rw [rulesWith_cons_of_ne hkey hne, ← hframe win other hne]
          exact hduels other
      · rintro ⟨⟨-, hnames⟩, hduels⟩
        have hfirst := hduels key
        rw [rulesWith_cons_self hkey] at hfirst
        obtain ⟨win, hwin, hrest⟩ := (duels_cons hr _).mp hfirst
        refine ⟨win, hwin, hnames, fun other => ?_⟩
        by_cases hne : other = key
        · subst hne
          exact hrest
        · rw [hframe win other hne, ← rulesWith_cons_of_ne hkey hne]
          exact hduels other

/-- When both lists of rules can be spread, every rule has a name, and the
rules of one name can be compared. -/
def RulesMerge (engine : Engine) (rules : Json) (incoming : Option Json) :
    Prop :=
  ∃ held brought, spread (some rules) = .ok held ∧
    spread incoming = .ok brought ∧
      (∀ r ∈ held ++ brought, ∃ key, ruleKey engine r = .ok key) ∧
        ∀ key, Duels engine ((.empty : PlainObject Json).lookup key)
          (rulesWith engine key (.arr (held ++ brought)))

theorem mergeRules_returns_iff {rules : Json} {incoming : Option Json} :
    (∃ rules', mergeRules engine rules incoming = .ok rules') ↔
      RulesMerge engine rules incoming := by
  simp only [mergeRules, RulesMerge, bind_eq_ok, ← mergeRuleMap_returns_iff]
  constructor
  · rintro ⟨-, held, hheld, brought, hbrought, m, hm, -⟩
    exact ⟨held, brought, hheld, hbrought, m, hm⟩
  · rintro ⟨held, brought, hheld, hbrought, m, hm⟩
    exact ⟨_, held, hheld, brought, hbrought, m, hm, rfl⟩

/-- The rules of the node are what a map holds, in its order, and of each id
that a dump brings the map has one that is as new, unless the id is an inherited
name. -/
def RulesStand (engine : Engine) (held brought : List Json) : Prop :=
  ∃ ruleMap : PlainObject Json,
    held.mapM (ruleEntry engine) = .ok ruleMap.members ∧
    (∀ m ∈ ruleMap.members, m.1 ∉ objectPrototype) ∧
    ∀ r ∈ brought, ∀ key, ruleKey engine r = .ok key →
      key ∈ objectPrototype ∨
        ∃ v, ruleMap.get key = some v ∧ ts r ≤ ts v

theorem exists_ruleEntries_iff {rs : List Json} :
    (∃ es, rs.mapM (ruleEntry engine) = .ok es) ↔
      ∀ r ∈ rs, ∃ key, ruleKey engine r = .ok key := by
  rw [exists_mapM_eq_ok]
  refine forall₂_congr fun r _ => ?_
  constructor
  · rintro ⟨e, he⟩
    obtain ⟨key, hkey, -⟩ := bind_eq_ok.mp he
    exact ⟨key, hkey⟩
  · rintro ⟨key, hkey⟩
    exact ⟨(key, r), bind_of_ok hkey _⟩

/-- The rules with their names are the rules. -/
theorem map_snd_ruleEntries {rs : List Json} {es : List (JsString × Json)}
    (h : rs.mapM (ruleEntry engine) = .ok es) : es.map Prod.snd = rs := by
  induction rs generalizing es with
  | nil =>
    obtain rfl := Except.ok.inj h
    rfl
  | cons r rs ih =>
    rw [List.mapM_cons] at h
    obtain ⟨e, he, h⟩ := bind_eq_ok.mp h
    obtain ⟨es', hes', h⟩ := bind_eq_ok.mp h
    obtain rfl := Except.ok.inj h
    obtain ⟨key, -, he⟩ := bind_eq_ok.mp he
    obtain rfl := Except.ok.inj he
    rw [List.map_cons, ih hes']

/-- Rules with numeric time stamps can be merged if they have names. -/
theorem mergeRules_timed_returns_iff {held brought : List Json}
    (h : ∀ r ∈ held ++ brought, Timed r) :
    (∃ rules', mergeRules engine (.arr held) (some (.arr brought)) = .ok rules') ↔
      ∀ r ∈ held ++ brought, ∃ key, ruleKey engine r = .ok key := by
  rw [← exists_ruleEntries_iff, mergeRules, spread, spread, ok_bind, ok_bind,
    mergeRuleMap_timed engine timedEntries_empty h]
  simp only [bind_eq_ok]
  constructor
  · rintro ⟨-, -, ⟨es, hes, -⟩, -⟩
    exact ⟨es, hes⟩
  · rintro ⟨es, hes⟩
    exact ⟨_, _, ⟨es, hes, rfl⟩, rfl⟩

/-- The rules that a merge leaves are those that were there. -/
theorem mergeRules_eq_self_iff {held brought : List Json} {rules' : Json}
    (hheld : ∀ r ∈ held, Timed r) (hbrought : ∀ r ∈ brought, Timed r)
    (h : mergeRules engine (.arr held) (some (.arr brought)) = .ok rules') :
    rules' = .arr held ↔ RulesStand engine held brought := by
  obtain ⟨es, hes, rfl⟩ := mergeRules_timed rfl rfl
    (List.forall_mem_append.mpr ⟨hheld, hbrought⟩) h
  obtain ⟨hkeys, -, -⟩ := ruleEntries hes
  rw [List.mapM_append] at hes
  obtain ⟨heldEs, hheldEs, hes⟩ := bind_eq_ok.mp hes
  obtain ⟨newEs, hnewEs, hes⟩ := bind_eq_ok.mp hes
  obtain rfl : heldEs ++ newEs = es := Except.ok.inj hes
  rw [Json.arr.injEq]
  constructor
  · intro hsame
    refine ⟨(heldEs ++ newEs).foldl offer .empty, ?_, notMem_of_foldl_offer, ?_⟩
    · rw [← hsame]
      exact mapM_ruleEntry_of_keyed
        (Keyed.foldl_offer (fun _ hm => absurd hm List.not_mem_nil) hkeys)
    · intro r hr key hkey
      rw [← map_snd_ruleEntries hnewEs] at hr
      obtain ⟨e, he, rfl⟩ := List.mem_map.mp hr
      have hsnd := hkeys e (List.mem_append_right _ he)
      obtain rfl := Except.ok.inj (hsnd.symm.trans hkey)
      exact newest_foldl_offer e (List.mem_append_right _ he)
  · rintro ⟨ruleMap, hmap, hnames, hnewest⟩
    obtain rfl : ruleMap.members = heldEs :=
      Except.ok.inj (hmap.symm.trans hheldEs)
    have hstand : newEs.foldl offer ruleMap = ruleMap := by
      apply foldl_offer_of_le
      intro e he
      refine offer_eq_self hnames (hnewest e.2 ?_ e.1 ?_)
      · rw [← map_snd_ruleEntries hnewEs]
        exact List.mem_map.mpr ⟨e, he, rfl⟩
      · exact hkeys e (List.mem_append_right _ he)
    rw [List.foldl_append, foldl_offer_members hnames, hstand]
    exact map_snd_ruleEntries hmap

end NewZone.Services.Replication
