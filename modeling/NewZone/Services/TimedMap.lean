import NewZone.Lib.ExceptBind
import NewZone.Lib.Latest
import NewZone.Services.Replication

/-!
# The map behind state and rules

Where all entries carry numeric time stamps, both loops of `mergeData` fill a
map of last-writer-wins registers: they offer it one entry after the other, and
it ends up with the first of the newest entries under each name
(`get_foldl_offer`).  Names that every object inherits are the exception.  The
map takes no entry under such a name, unless it has one already.
-/

namespace NewZone.Services.Replication

open NewZone.Js NewZone.ExceptBind NewZone.Latest

/-- Every entry carries a numeric time stamp. -/
def TimedEntries (obj : PlainObject Json) : Prop := ∀ m ∈ obj.members, Timed m.2

theorem TimedEntries.get {obj : PlainObject Json} (h : TimedEntries obj)
    {key : JsString} {v : Json} (hv : obj.get key = some v) : Timed v :=
  h _ (PlainObject.get_eq_some_iff.mp hv)

/-- If the value can be spread, its items carry numeric time stamps. -/
def TimedItems (v : Option Json) : Prop :=
  ∀ items, spread v = .ok items → ∀ x ∈ items, Timed x

theorem timedItems_arr {items : List Json} (h : ∀ x ∈ items, Timed x) :
    TimedItems (some (.arr items)) := by
  intro items' h'
  obtain rfl := Except.ok.inj h'
  exact h

/-! ## Offers -/

/-- An entry is taken if there is none under its name or an older one. -/
def offer (obj : PlainObject Json) (e : JsString × Json) : PlainObject Json :=
  match obj.lookup e.1 with
  | .missing => obj.set e.1 e.2
  | .own v => if ts v < ts e.2 then obj.set e.1 e.2 else obj
  | .inherited => obj

/-- The name can be bound: it is not inherited, or bound already. -/
def Free (obj : PlainObject Json) (key : JsString) : Prop :=
  key ∉ objectPrototype ∨ (obj.get key).isSome

instance (obj : PlainObject Json) (key : JsString) : Decidable (Free obj key) :=
  inferInstanceAs (Decidable (_ ∨ _))

/-- The condition of the source decides whether an entry is taken. -/
theorem offer_eq (engine : Engine) {obj : PlainObject Json}
    (hobj : TimedEntries obj) {e : JsString × Json} (he : Timed e.2) :
    ∃ win, wins engine (obj.lookup e.1) e.2 = .ok win ∧
      offer obj e = if win then obj.set e.1 e.2 else obj := by
  unfold offer
  cases hlookup : obj.lookup e.1 with
  | missing => exact ⟨true, rfl, rfl⟩
  | inherited =>
    obtain ⟨x, hx, -⟩ := he.field_eq
    refine ⟨false, ?_, rfl⟩
    rw [wins, he.property_eq, ok_bind, hx]
    rfl
  | own v =>
    have hv : Timed v := hobj.get (PlainObject.get_of_lookup hlookup)
    refine ⟨decide (ts v < ts e.2), ?_, by simp⟩
    rw [wins, if_pos hv.truthy, he.property_eq, ← engine.gt_timed he hv]
    rfl

theorem TimedEntries.set {obj : PlainObject Json} (h : TimedEntries obj)
    (key : JsString) {v : Json} (hv : Timed v) : TimedEntries (obj.set key v) :=
  PlainObject.forall_members_set h hv

theorem TimedEntries.offer {obj : PlainObject Json} (h : TimedEntries obj)
    {e : JsString × Json} (he : Timed e.2) : TimedEntries (offer obj e) := by
  unfold Replication.offer
  split
  · exact h.set _ he
  · split_ifs
    · exact h.set _ he
    · exact h
  · exact h

theorem TimedEntries.foldl_offer {obj : PlainObject Json} (h : TimedEntries obj)
    {es : List (JsString × Json)} (hes : ∀ e ∈ es, Timed e.2) :
    TimedEntries (es.foldl Replication.offer obj) := by
  induction es generalizing obj with
  | nil => exact h
  | cons e es ih =>
    exact ih (h.offer (hes e List.mem_cons_self)) fun e' he' =>
      hes e' (List.mem_cons_of_mem _ he')

theorem timedEntries_empty : TimedEntries .empty :=
  fun _ h => absurd h List.not_mem_nil

/-! ## The loops of the source -/

/-- The state loop offers the entries of the dump. -/
theorem mergeState_timed (engine : Engine) {state : PlainObject Json}
    (hstate : TimedEntries state) {es : List (JsString × Json)}
    (hes : ∀ e ∈ es, Timed e.2) :
    mergeState engine state es = (es.foldl offer state, none) := by
  induction es generalizing state with
  | nil => rfl
  | cons e es ih =>
    have he := hes e List.mem_cons_self
    have hes := fun e' he' => hes e' (List.mem_cons_of_mem _ he')
    obtain ⟨win, hwin, hoffer⟩ := offer_eq engine hstate he
    have ih := ih (hstate.offer he) hes
    rw [List.foldl_cons, ← ih, hoffer]
    obtain ⟨key, remote⟩ := e
    rw [mergeState, hwin]
    cases win <;> rfl

/-- The name under which a rule is kept. -/
def ruleKey (engine : Engine) (r : Json) : Except String JsString := do
  let id ← property r "id"
  engine.propertyKey id

def ruleEntry (engine : Engine) (r : Json) : Except String (JsString × Json) := do
  let key ← ruleKey engine r
  return (key, r)

/-- The rule loop offers the rules under their names. -/
theorem mergeRuleMap_timed (engine : Engine) {ruleMap : PlainObject Json}
    (hmap : TimedEntries ruleMap) {rs : List Json} (hrs : ∀ r ∈ rs, Timed r) :
    mergeRuleMap engine ruleMap rs
      = (do let es ← rs.mapM (ruleEntry engine)
            return es.foldl offer ruleMap) := by
  induction rs generalizing ruleMap with
  | nil => rfl
  | cons r rs ih =>
    have hr := hrs r List.mem_cons_self
    have hrs := fun r' hr' => hrs r' (List.mem_cons_of_mem _ hr')
    rw [mergeRuleMap, List.mapM_cons, hr.property_eq, ok_bind]
    cases hkey : engine.propertyKey (Json.field r "id") with
    | error e =>
      have hentry : ruleEntry engine r = .error e := by
        rw [ruleEntry, ruleKey, hr.property_eq, ok_bind, hkey, error_bind]
      rw [hentry, error_bind, error_bind, error_bind]
    | ok key =>
      have hentry : ruleEntry engine r = .ok (key, r) := by
        rw [ruleEntry, ruleKey, hr.property_eq, ok_bind, hkey, ok_bind]
        rfl
      obtain ⟨win, hwin, hoffer⟩ := offer_eq engine hmap
        (show Timed (key, r).2 from hr)
      rw [hentry, ok_bind, ok_bind, hwin, ok_bind, ← hoffer,
        ih (hmap.offer (show Timed (key, r).2 from hr)) hrs]
      cases rs.mapM (ruleEntry engine) <;> rfl

/-! ## Events -/

/-- The `ts` of an event can be turned into a number, or into none. -/
def Comparable (engine : Engine) (e : Json) : Prop :=
  ∃ ts ts', property e "ts" = .ok ts ∧ ts.mapM engine.primitive = .ok ts'

theorem comparable_of_timed (engine : Engine) {e : Json} (h : Timed e) :
    Comparable engine e := by
  obtain ⟨x, hx, -⟩ := h.field_eq
  exact ⟨_, some (.num x), h.property_eq "ts", by rw [hx]; rfl⟩

theorem compareAll_iff {engine : Engine} {es : List Json} :
    compareAll engine es = .ok () ↔ ∀ e ∈ es, Comparable engine e := by
  induction es with
  | nil => simp [compareAll]
  | cons e es ih =>
    rw [compareAll, List.forall_mem_cons, ← ih]
    simp only [bind_eq_ok]
    constructor
    · rintro ⟨ts, hts, ts', hts', h⟩
      exact ⟨⟨ts, ts', hts, hts'⟩, h⟩
    · rintro ⟨⟨ts, ts', hts, hts'⟩, h⟩
      exact ⟨ts, hts, ts', hts', h⟩

/-- The events can be sorted if there is nothing to compare, or each of them
can be. -/
theorem sortEvents_returns_iff {engine : Engine} {es : List Json} :
    (∃ sorted, sortEvents engine es = .ok sorted) ↔
      es.length < 2 ∨ ∀ e ∈ es, Comparable engine e := by
  unfold sortEvents
  split_ifs with htimed hlength
  · exact iff_of_true ⟨_, rfl⟩
      (Or.inr fun e he => comparable_of_timed engine (htimed e he))
  · exact iff_of_true ⟨_, rfl⟩ (Or.inl hlength)
  · rw [or_iff_right hlength, ← compareAll_iff]
    simp only [bind_eq_ok]
    constructor
    · rintro ⟨-, ⟨⟩, h, -⟩
      exact h
    · exact fun h => ⟨_, (), h, rfl⟩

theorem mergeEvents_timed {engine : Engine} {events : Json} {items : List Json}
    (hitems : spread (some events) = .ok items) (htimed : ∀ e ∈ items, Timed e)
    {incoming : List Json} (hincoming : ∀ e ∈ incoming, Timed e) :
    mergeEvents engine events (some (.arr incoming))
      = .ok (.arr (Window.window ts MAX_EVENTS (items ++ incoming))) := by
  have hall : ∀ e ∈ items ++ incoming, Timed e :=
    List.forall_mem_append.mpr ⟨htimed, hincoming⟩
  rw [mergeEvents, hitems, ok_bind, spread, ok_bind, sortEvents, if_pos hall,
    ok_bind]
  rfl

/-! ## What the map holds -/

/-- The values that are offered under a name. -/
def valuesAt (key : JsString) (es : List (JsString × Json)) : List Json :=
  (es.filter fun e => e.1 = key).map Prod.snd

/-- An offer changes the entry under its own name only. -/
theorem get_offer (obj : PlainObject Json) (e : JsString × Json)
    (key : JsString) :
    (offer obj e).get key
      = if e.1 = key ∧ Free obj key then
          ((obj.get key).toList ++ [e.2]).argmax ts
        else obj.get key := by
  obtain ⟨k, x⟩ := e
  unfold offer
  dsimp only
  by_cases hk : k = key
  · subst hk
    cases hget : obj.get k with
    | none =>
      by_cases hproto : k ∈ objectPrototype
      · rw [PlainObject.lookup_of_mem hget hproto]
        simp [Free, hget, hproto]
      · rw [PlainObject.lookup_of_notMem hget hproto]
        simp [Free, hproto]
    | some v =>
      rw [PlainObject.lookup_of_get hget, if_pos ⟨rfl, Or.inr (by simp [hget])⟩,
        Option.toList_some, argmax_append, List.argmax_singleton,
        List.argmax_singleton]
      dsimp only [newer]
      split_ifs
      · exact PlainObject.get_set_self _ _ _
      · exact hget
  · rw [if_neg fun h => hk h.1]
    split
    · exact PlainObject.get_set_of_ne _ hk _
    · split_ifs
      · exact PlainObject.get_set_of_ne _ hk _
      · rfl
    · rfl

theorem free_offer (obj : PlainObject Json) (e : JsString × Json)
    (key : JsString) : Free (offer obj e) key ↔ Free obj key := by
  unfold Free
  rw [get_offer]
  by_cases hproto : key ∈ objectPrototype
  · split_ifs with h
    · rcases h.2 with h | h
      · exact absurd hproto h
      · have hne : ((obj.get key).toList ++ [e.2]).argmax ts ≠ none := by
          simp [List.argmax_eq_none]
        simp [hproto, h, Option.isSome_iff_ne_none.mpr hne]
    · rfl
  · simp [hproto]

/-- Each name ends up with the first of the newest values that were there or
offered, if it can be bound. -/
theorem get_foldl_offer (obj : PlainObject Json) (es : List (JsString × Json))
    (key : JsString) :
    (es.foldl offer obj).get key
      = if Free obj key then
          ((obj.get key).toList ++ valuesAt key es).argmax ts
        else none := by
  induction es generalizing obj with
  | nil =>
    rw [List.foldl_nil]
    split_ifs with h
    · simp [valuesAt, argmax_toList]
    · exact Option.isNone_iff_eq_none.mp (by simpa using (not_or.mp h).2)
  | cons e es ih =>
    rw [List.foldl_cons, ih, get_offer]
    simp only [free_offer]
    by_cases hfree : Free obj key
    · rw [if_pos hfree, if_pos hfree]
      by_cases hk : e.1 = key
      · rw [if_pos ⟨hk, hfree⟩, argmax_toList_append, List.append_assoc]
        simp [valuesAt, hk]
      · rw [if_neg fun h => hk h.1]
        simp [valuesAt, hk]
    · rw [if_neg hfree, if_neg hfree]

/-- The values of a list with different names are what it binds. -/
theorem valuesAt_eq {ms : List (JsString × Json)} (h : NodupKeys ms)
    (key : JsString) : valuesAt key ms = (getProp key ms).toList := by
  induction ms with
  | nil => rfl
  | cons m ms ih =>
    obtain ⟨k, v⟩ := m
    obtain ⟨hk, hms⟩ := List.nodup_cons.mp h
    have hrest := ih hms
    rw [getProp_cons]
    by_cases hkey : k = key
    · rw [getProp_eq_none_iff.mpr (hkey ▸ hk)] at hrest
      rw [if_pos hkey, valuesAt, List.filter_cons, if_pos (by simpa using hkey),
        List.map_cons, ← valuesAt, hrest]
      rfl
    · rw [if_neg hkey, ← hrest, valuesAt, List.filter_cons,
        if_neg (by simpa using hkey), valuesAt]

/-! ## Rules under their names -/

/-- The rules with an id, in their order. -/
def rulesWith (engine : Engine) (key : JsString) : Json → List Json
  | .arr rs => rs.filter fun r => (ruleKey engine r).toOption = some key
  | _ => []

/-- Every rule is kept under its own name. -/
def Keyed (engine : Engine) (obj : PlainObject Json) : Prop :=
  ∀ m ∈ obj.members, ruleKey engine m.2 = .ok m.1

theorem Keyed.foldl_offer {engine : Engine} {obj : PlainObject Json}
    (h : Keyed engine obj) {es : List (JsString × Json)}
    (hes : ∀ e ∈ es, ruleKey engine e.2 = .ok e.1) :
    Keyed engine (es.foldl offer obj) := by
  induction es generalizing obj with
  | nil => exact h
  | cons e es ih =>
    refine ih ?_ fun e' he' => hes e' (List.mem_cons_of_mem _ he')
    have he := hes e List.mem_cons_self
    unfold offer
    split
    · exact PlainObject.forall_members_set h he
    · split_ifs
      · exact PlainObject.forall_members_set h he
      · exact h
    · exact h

/-- The rules of a map with an id are what it holds under the id. -/
theorem rulesWith_values {engine : Engine} {obj : PlainObject Json}
    (h : Keyed engine obj) (key : JsString) :
    rulesWith engine key (.arr (obj.members.map Prod.snd))
      = (obj.get key).toList := by
  rw [PlainObject.get, ← valuesAt_eq obj.nodup, rulesWith, valuesAt,
    List.filter_map]
  congr 1
  apply List.filter_congr
  intro m hm
  rw [Function.comp_apply, h m hm]
  simp [Except.toOption]

/-- Each rule under its name, when all names are found. -/
theorem ruleEntries {engine : Engine} {rs : List Json}
    {es : List (JsString × Json)} (h : rs.mapM (ruleEntry engine) = .ok es) :
    (∀ e ∈ es, ruleKey engine e.2 = .ok e.1) ∧
      (∀ e ∈ es, e.2 ∈ rs) ∧
      ∀ key, valuesAt key es = rulesWith engine key (.arr rs) := by
  induction rs generalizing es with
  | nil =>
    obtain rfl := Except.ok.inj h
    exact ⟨by simp, by simp, fun key => rfl⟩
  | cons r rs ih =>
    rw [List.mapM_cons] at h
    obtain ⟨e, he, h⟩ := bind_eq_ok.mp h
    obtain ⟨es', hes', h⟩ := bind_eq_ok.mp h
    obtain rfl := Except.ok.inj h
    obtain ⟨key, hkey, he⟩ := bind_eq_ok.mp he
    obtain rfl := Except.ok.inj he
    obtain ⟨hkeys, hmem, hvalues⟩ := ih hes'
    refine ⟨?_, ?_, ?_⟩
    · intro e he
      rcases List.mem_cons.mp he with rfl | he
      · exact hkey
      · exact hkeys e he
    · intro e he
      rcases List.mem_cons.mp he with rfl | he
      · exact List.mem_cons_self
      · exact List.mem_cons_of_mem _ (hmem e he)
    · intro other
      have hrest := hvalues other
      simp only [valuesAt, rulesWith] at hrest ⊢
      rw [List.filter_cons, List.filter_cons, hkey]
      by_cases hother : key = other
      · simp [Except.toOption, hother, hrest]
      · simp [Except.toOption, hother, hrest]

/-- The map of a rule merge. -/
theorem mergeRules_timed {engine : Engine} {rules rules' : Json}
    {incoming : Option Json} {a b : List Json}
    (ha : spread (some rules) = .ok a) (hb : spread incoming = .ok b)
    (hab : ∀ r ∈ a ++ b, Timed r)
    (h : mergeRules engine rules incoming = .ok rules') :
    ∃ es, (a ++ b).mapM (ruleEntry engine) = .ok es ∧
      rules' = .arr ((es.foldl offer .empty).members.map Prod.snd) := by
  rw [mergeRules, ha, hb, ok_bind, ok_bind,
    mergeRuleMap_timed engine timedEntries_empty hab] at h
  obtain ⟨ruleMap, hmap, h⟩ := bind_eq_ok.mp h
  obtain ⟨es, hes, hmap⟩ := bind_eq_ok.mp hmap
  obtain rfl := Except.ok.inj hmap
  exact ⟨es, hes, (Except.ok.inj h).symm⟩

/-- Of each id, a rule merge keeps the first of the newest rules, and none if
the id is an inherited name. -/
theorem rulesWith_mergeRules {engine : Engine} {rules rules' : Json}
    {incoming : Option Json} {a b : List Json}
    (ha : spread (some rules) = .ok a) (hb : spread incoming = .ok b)
    (hab : ∀ r ∈ a ++ b, Timed r)
    (h : mergeRules engine rules incoming = .ok rules') (key : JsString) :
    rulesWith engine key rules'
      = if key ∈ objectPrototype then []
        else ((rulesWith engine key (.arr (a ++ b))).argmax ts).toList := by
  obtain ⟨es, hes, rfl⟩ := mergeRules_timed ha hb hab h
  obtain ⟨hkeys, -, hvalues⟩ := ruleEntries hes
  have hkeyed : Keyed engine (es.foldl offer .empty) :=
    Keyed.foldl_offer (fun _ hm => absurd hm List.not_mem_nil) hkeys
  rw [rulesWith_values hkeyed, get_foldl_offer, ← hvalues]
  simp only [Free, PlainObject.get_empty, Option.isSome_none, Bool.false_eq_true,
    or_false, Option.toList_none, List.nil_append, ite_not]
  split_ifs <;> rfl

end NewZone.Services.Replication
