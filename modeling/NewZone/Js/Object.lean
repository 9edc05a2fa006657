import NewZone.Js.NumberText

/-!
# Plain objects

An object without methods is the list of its own properties, in the order in
which `Object.keys` and `JSON.stringify` enumerate them: array indices first,
in ascending order, then the other names in the order in which they were
added.  `setProp` is the assignment `obj[key] = value` for a name that no
setter intercepts.  The order matters to what is printed and to which of two
entries a loop meets first; what a name is bound to is `getProp` alone.
-/

namespace NewZone.Js

variable {α : Type}

/-- The own property `key`. -/
def getProp (key : JsString) : List (JsString × α) → Option α
  | [] => none
  | (k, v) :: ms => if k = key then some v else getProp key ms

/-- A name that counts as an array index, as that index. -/
def arrayIndex (key : JsString) : Option ℕ :=
  let n := Number.digitsVal key
  if decimal n = key ∧ n < 2 ^ 32 - 1 then some n else none

/-- Whether a new property `key` is enumerated before an existing one. -/
def before (key other : JsString) : Bool :=
  match arrayIndex key, arrayIndex other with
  | some n, some m => n < m
  | some _, none => true
  | none, _ => false

/-- A property that is not there yet. -/
def insertProp (key : JsString) (value : α) :
    List (JsString × α) → List (JsString × α)
  | [] => [(key, value)]
  | (k, v) :: ms =>
    if before key k then (key, value) :: (k, v) :: ms
    else (k, v) :: insertProp key value ms

/-- A property that is there keeps its place. -/
def replaceProp (key : JsString) (value : α) :
    List (JsString × α) → List (JsString × α)
  | [] => []
  | (k, v) :: ms =>
    if k = key then (k, value) :: ms else (k, v) :: replaceProp key value ms

/-- `obj[key] = value`. -/
def setProp (key : JsString) (value : α) (ms : List (JsString × α)) :
    List (JsString × α) :=
  if (getProp key ms).isSome then replaceProp key value ms
  else insertProp key value ms

/-- `obj[key] = value` where `__proto__` is the setter that a plain object
inherits, and so adds no property. -/
def assignProp (key : JsString) (value : α) (ms : List (JsString × α)) :
    List (JsString × α) :=
  if key = js "__proto__" then ms else setProp key value ms

/-! ## Lookups -/

@[simp] theorem getProp_nil (key : JsString) :
    getProp key ([] : List (JsString × α)) = none := rfl

theorem getProp_cons (key k : JsString) (v : α) (ms : List (JsString × α)) :
    getProp key ((k, v) :: ms) = if k = key then some v else getProp key ms :=
  rfl

theorem getProp_cons_self (key : JsString) (v : α) (ms : List (JsString × α)) :
    getProp key ((key, v) :: ms) = some v := if_pos rfl

theorem getProp_cons_of_ne {key k : JsString} (h : k ≠ key) (v : α)
    (ms : List (JsString × α)) :
    getProp key ((k, v) :: ms) = getProp key ms := if_neg h

theorem mem_of_getProp {key : JsString} {v : α} {ms : List (JsString × α)}
    (h : getProp key ms = some v) : (key, v) ∈ ms := by
  induction ms with
  | nil => cases h
  | cons m ms ih =>
    obtain ⟨k, w⟩ := m
    rw [getProp_cons] at h
    split_ifs at h with hk
    · obtain rfl := Option.some.inj h
      rw [hk]
      exact List.mem_cons_self
    · exact List.mem_cons_of_mem _ (ih h)

theorem getProp_insertProp_self {key : JsString} {value : α}
    {ms : List (JsString × α)} (h : getProp key ms = none) :
    getProp key (insertProp key value ms) = some value := by
  induction ms with
  | nil => exact getProp_cons_self _ _ _
  | cons m ms ih =>
    obtain ⟨k, v⟩ := m
    have hk : k ≠ key := by
      rintro rfl
      rw [getProp_cons_self] at h
      cases h
    rw [getProp_cons_of_ne hk] at h
    unfold insertProp
    split_ifs
    · exact getProp_cons_self _ _ _
    · rw [getProp_cons_of_ne hk, ih h]

theorem getProp_insertProp_of_ne {key other : JsString} (h : key ≠ other)
    (value : α) (ms : List (JsString × α)) :
    getProp other (insertProp key value ms) = getProp other ms := by
  induction ms with
  | nil => exact getProp_cons_of_ne h _ _
  | cons m ms ih =>
    obtain ⟨k, v⟩ := m
    unfold insertProp
    split_ifs with hb
    · exact getProp_cons_of_ne h _ _
    · rw [getProp_cons, getProp_cons, ih]

theorem getProp_replaceProp_self {key : JsString} {value : α}
    {ms : List (JsString × α)} (h : (getProp key ms).isSome) :
    getProp key (replaceProp key value ms) = some value := by
  induction ms with
  | nil => cases h
  | cons m ms ih =>
    obtain ⟨k, v⟩ := m
    rw [getProp_cons] at h
    unfold replaceProp
    split_ifs at h ⊢ with hk
    · rw [hk]
      exact getProp_cons_self _ _ _
    · rw [getProp_cons_of_ne hk, ih h]

theorem getProp_replaceProp_of_ne {key other : JsString} (h : key ≠ other)
    (value : α) (ms : List (JsString × α)) :
    getProp other (replaceProp key value ms) = getProp other ms := by
  induction ms with
  | nil => rfl
  | cons m ms ih =>
    obtain ⟨k, v⟩ := m
    unfold replaceProp
    split_ifs with hk
    · rw [getProp_cons_of_ne (hk ▸ h), getProp_cons_of_ne (hk ▸ h)]
    · rw [getProp_cons, getProp_cons, ih]

theorem replaceProp_of_getProp {key : JsString} {value : α}
    {ms : List (JsString × α)} (h : getProp key ms = some value) :
    replaceProp key value ms = ms := by
  induction ms with
  | nil => rfl
  | cons m ms ih =>
    obtain ⟨k, v⟩ := m
    rw [getProp_cons] at h
    unfold replaceProp
    split_ifs at h ⊢ with hk
    · rw [hk, Option.some.inj h]
    · rw [ih h]

/-- An assignment is visible under its own name. -/
@[simp] theorem getProp_setProp_self (key : JsString) (value : α)
    (ms : List (JsString × α)) :
    getProp key (setProp key value ms) = some value := by
  unfold setProp
  split_ifs with h
  · exact getProp_replaceProp_self h
  · exact getProp_insertProp_self (by simpa using h)

/-- An assignment changes nothing under another name. -/
theorem getProp_setProp_of_ne {key other : JsString} (h : key ≠ other)
    (value : α) (ms : List (JsString × α)) :
    getProp other (setProp key value ms) = getProp other ms := by
  unfold setProp
  split_ifs
  · exact getProp_replaceProp_of_ne h _ _
  · exact getProp_insertProp_of_ne h _ _

theorem getProp_setProp (key other : JsString) (value : α)
    (ms : List (JsString × α)) :
    getProp other (setProp key value ms)
      = if key = other then some value else getProp other ms := by
  split_ifs with h
  · rw [h, getProp_setProp_self]
  · exact getProp_setProp_of_ne h _ _

theorem getProp_append (key : JsString) (ms ns : List (JsString × α)) :
    getProp key (ms ++ ns) = (getProp key ms).or (getProp key ns) := by
  induction ms with
  | nil => rfl
  | cons m ms ih =>
    obtain ⟨k, v⟩ := m
    rw [List.cons_append, getProp_cons, getProp_cons, ih]
    split_ifs <;> rfl

/-! ## Names -/

/-- The names of an object are pairwise different. -/
def NodupKeys (ms : List (JsString × α)) : Prop := (ms.map Prod.fst).Nodup

theorem getProp_eq_none_iff {key : JsString} {ms : List (JsString × α)} :
    getProp key ms = none ↔ key ∉ ms.map Prod.fst := by
  induction ms with
  | nil => simp
  | cons m ms ih =>
    obtain ⟨k, v⟩ := m
    rw [getProp_cons, List.map_cons, List.mem_cons, not_or, ← ih]
    split_ifs with hk
    · simp [hk]
    · simp [Ne.symm hk]

/-- With different names, a listed property is the one that is looked up. -/
theorem getProp_eq_some_iff {key : JsString} {v : α} {ms : List (JsString × α)}
    (hms : NodupKeys ms) : getProp key ms = some v ↔ (key, v) ∈ ms := by
  constructor
  · exact mem_of_getProp
  · intro h
    induction ms with
    | nil => cases h
    | cons m ms ih =>
      obtain ⟨k, w⟩ := m
      obtain ⟨hk, hms⟩ := List.nodup_cons.mp hms
      rcases List.mem_cons.mp h with h | h
      · obtain ⟨rfl, rfl⟩ := Prod.mk.inj h
        exact getProp_cons_self _ _ _
      · rw [getProp_cons_of_ne, ih hms h]
        rintro rfl
        exact hk (List.mem_map.mpr ⟨_, h, rfl⟩)

/-- Members are determined by their names, in order, and what these are bound to. -/
theorem members_ext {ms ns : List (JsString × α)} (hms : NodupKeys ms)
    (hns : NodupKeys ns) (hnames : ms.map Prod.fst = ns.map Prod.fst)
    (hprop : ∀ key, getProp key ms = getProp key ns) : ms = ns := by
  have hlist : ∀ ls : List (JsString × α), NodupKeys ls →
      ls.map (fun m => (m.1, some m.2)) = (ls.map Prod.fst).map fun k => (k, getProp k ls) := by
    intro ls hls
    rw [List.map_map]
    refine List.map_congr_left fun m hm => ?_
    exact Prod.ext rfl ((getProp_eq_some_iff hls).mpr hm).symm
  have hpairs : ms.map (fun m => (m.1, some m.2)) = ns.map fun m => (m.1, some m.2) := by
    rw [hlist ms hms, hlist ns hns, hnames]
    exact List.map_congr_left fun k _ => by rw [hprop k]
  refine List.map_injective_iff.mpr ?_ hpairs
  intro m n hmn
  obtain ⟨hname, hvalue⟩ := Prod.mk.inj hmn
  exact Prod.ext hname (Option.some.inj hvalue)

theorem map_fst_replaceProp (key : JsString) (value : α)
    (ms : List (JsString × α)) :
    (replaceProp key value ms).map Prod.fst = ms.map Prod.fst := by
  induction ms with
  | nil => rfl
  | cons m ms ih =>
    obtain ⟨k, v⟩ := m
    unfold replaceProp
    split_ifs
    · rfl
    · rw [List.map_cons, List.map_cons, ih]

theorem insertProp_perm (key : JsString) (value : α) (ms : List (JsString × α)) :
    (insertProp key value ms).Perm ((key, value) :: ms) := by
  induction ms with
  | nil => exact .refl _
  | cons m ms ih =>
    obtain ⟨k, v⟩ := m
    unfold insertProp
    split_ifs
    · exact .refl _
    · exact (ih.cons _).trans (.swap _ _ _)

theorem NodupKeys.setProp {ms : List (JsString × α)} (h : NodupKeys ms)
    (key : JsString) (value : α) : NodupKeys (setProp key value ms) := by
  unfold NodupKeys Js.setProp at *
  split_ifs with hkey
  · rw [map_fst_replaceProp]
    exact h
  · have hperm := (insertProp_perm key value ms).map Prod.fst
    refine hperm.nodup_iff.mpr (List.nodup_cons.mpr ⟨?_, h⟩)
    exact getProp_eq_none_iff.mp (by simpa using hkey)

/-- `delete obj[key]`. -/
def eraseProp (key : JsString) (ms : List (JsString × α)) : List (JsString × α) :=
  ms.filter fun m => m.1 ≠ key

theorem getProp_eraseProp (key other : JsString) (ms : List (JsString × α)) :
    getProp other (eraseProp key ms)
      = if key = other then none else getProp other ms := by
  induction ms with
  | nil => exact (ite_self _).symm
  | cons m ms ih =>
    obtain ⟨k, v⟩ := m
    unfold eraseProp at ih ⊢
    rw [List.filter_cons, getProp_cons]
    by_cases hk : k = key
    · subst hk
      rw [if_neg (by simp), ih]
      split_ifs <;> rfl
    · rw [if_pos (by simpa using hk), getProp_cons, ih]
      split_ifs with h₁ h₂
      · exact absurd (h₁.trans h₂.symm) hk
      · rfl
      · rfl
      · rfl

/-! ## The order of the names -/

theorem before_trans {a b c : JsString} (hab : before a b = true)
    (hbc : before b c = true) : before a c = true := by
  unfold before at *
  cases ha : arrayIndex a with
  | none => simp [ha] at hab
  | some n =>
    cases hb : arrayIndex b with
    | none => simp [hb] at hbc
    | some m =>
      cases hc : arrayIndex c with
      | none => rfl
      | some k =>
        simp only [ha, hb, hc, decide_eq_true_eq] at hab hbc ⊢
        exact hab.trans hbc

/-- Array indices come before all other names. -/
theorem before_of_index {key other : JsString} {i : ℕ} (hkey : arrayIndex key = some i)
    (hother : arrayIndex other = none) : before key other = true := by
  unfold before
  rw [hkey, hother]

/-- Other names come before nothing. -/
theorem before_of_no_index {key : JsString} (hkey : arrayIndex key = none) (other : JsString) :
    before key other = false := by
  unfold before
  rw [hkey]

theorem arrayIndex_eq_decimal {key : JsString} {n : ℕ} (h : arrayIndex key = some n) :
    key = decimal n := by
  unfold arrayIndex at h
  obtain ⟨hkey, h⟩ := Option.ite_none_right_eq_some.mp h
  rw [← Option.some.inj h]
  exact hkey.1.symm

/-- Another name that does not come before an array index is greater, if it is one. -/
theorem lt_of_not_before {key head : JsString} {n i : ℕ} (hhead : arrayIndex head = some n)
    (hi : arrayIndex key = some i) (hne : key ≠ head) (hbefore : ¬ before key head = true) :
    n < i := by
  unfold before at hbefore
  simp only [hi, hhead, decide_eq_true_eq, not_lt] at hbefore
  refine lt_of_le_of_ne hbefore fun he => hne ?_
  rw [arrayIndex_eq_decimal hi, arrayIndex_eq_decimal hhead, he]

/-- The names come in the order in which they are enumerated. -/
def OrderedKeys (ms : List (JsString × α)) : Prop :=
  (ms.map Prod.fst).Pairwise fun a b => before b a = false

/-- If the first name is no array index, none is. -/
theorem OrderedKeys.no_index {m : JsString × α} {ms : List (JsString × α)}
    (h : OrderedKeys (m :: ms)) (hm : arrayIndex m.1 = none) :
    ∀ name ∈ (m :: ms).map Prod.fst, arrayIndex name = none := by
  intro name hname
  rcases List.mem_cons.mp hname with rfl | hname
  · exact hm
  · have hafter : before name m.1 = false := (List.pairwise_cons.mp h).1 name hname
    cases hi : arrayIndex name with
    | none => rfl
    | some i =>
      rw [before_of_index hi hm] at hafter
      cases hafter

/-- If the first name is an array index, all others are greater. -/
theorem OrderedKeys.index_lt {m : JsString × α} {ms : List (JsString × α)}
    (h : OrderedKeys (m :: ms)) (hnodup : NodupKeys (m :: ms)) {n : ℕ}
    (hm : arrayIndex m.1 = some n) : ∀ name ∈ ms.map Prod.fst, ∀ i ∈ arrayIndex name, n < i := by
  intro name hname i hi
  refine lt_of_not_before hm hi (fun he => ?_) ?_
  · exact (List.nodup_cons.mp hnodup).1 (he ▸ hname)
  · rw [Bool.not_eq_true]
    exact (List.pairwise_cons.mp h).1 name hname

theorem mem_insertProp {key : JsString} {value : α} {ms : List (JsString × α)}
    {m : JsString × α} :
    m ∈ insertProp key value ms ↔ m = (key, value) ∨ m ∈ ms :=
  (insertProp_perm key value ms).mem_iff.trans List.mem_cons

theorem OrderedKeys.insertProp {ms : List (JsString × α)} (h : OrderedKeys ms)
    (key : JsString) (value : α) : OrderedKeys (insertProp key value ms) := by
  induction ms with
  | nil => exact List.pairwise_singleton _ _
  | cons m ms ih =>
    obtain ⟨k, v⟩ := m
    obtain ⟨hk, hms⟩ := List.pairwise_cons.mp h
    unfold Js.insertProp
    split_ifs with hbefore
    · refine List.pairwise_cons.mpr ⟨?_, h⟩
      intro l hl
      rcases List.mem_cons.mp hl with rfl | hl
      · by_contra hback
        have hself := before_trans hbefore (Bool.not_eq_false _ ▸ hback)
        unfold before at hself
        cases hi : arrayIndex key <;> simp [hi] at hself
      · by_contra hback
        have := before_trans (Bool.not_eq_false _ ▸ hback) hbefore
        rw [hk l hl] at this
        cases this
    · refine List.pairwise_cons.mpr ⟨?_, ih hms⟩
      intro l hl
      obtain ⟨m, hm, rfl⟩ := List.mem_map.mp hl
      rcases mem_insertProp.mp hm with rfl | hm
      · simpa using hbefore
      · exact hk _ (List.mem_map.mpr ⟨m, hm, rfl⟩)

theorem OrderedKeys.setProp {ms : List (JsString × α)} (h : OrderedKeys ms)
    (key : JsString) (value : α) : OrderedKeys (setProp key value ms) := by
  unfold Js.setProp
  split_ifs
  · unfold OrderedKeys
    rw [map_fst_replaceProp]
    exact h
  · exact h.insertProp key value

/-- A name that comes before none of the others is added at the end. -/
theorem insertProp_eq_append {key : JsString} (value : α)
    {ms : List (JsString × α)} (h : ∀ m ∈ ms, before key m.1 = false) :
    insertProp key value ms = ms ++ [(key, value)] := by
  induction ms with
  | nil => rfl
  | cons m ms ih =>
    obtain ⟨k, v⟩ := m
    rw [insertProp, if_neg (by simpa using h _ List.mem_cons_self),
      ih fun m hm => h m (List.mem_cons_of_mem _ hm)]
    rfl

/-! ## Objects with different names -/

/-- A plain object: no two of its own properties have one name, and they are
in the order of enumeration. -/
@[ext]
structure PlainObject (α : Type) where
  members : List (JsString × α)
  nodup : NodupKeys members
  ordered : OrderedKeys members

namespace PlainObject

/-- `{}` -/
def empty : PlainObject α := ⟨[], List.nodup_nil, .nil⟩

/-- The own property `key`. -/
def get (obj : PlainObject α) (key : JsString) : Option α :=
  getProp key obj.members

/-- `obj[key] = value` for a name that is no setter. -/
def set (obj : PlainObject α) (key : JsString) (value : α) : PlainObject α :=
  ⟨setProp key value obj.members, obj.nodup.setProp key value,
    obj.ordered.setProp key value⟩

/-- `delete obj[key]` -/
def erase (obj : PlainObject α) (key : JsString) : PlainObject α :=
  ⟨eraseProp key obj.members, obj.nodup.sublist (List.filter_sublist.map _),
    obj.ordered.sublist (List.filter_sublist.map _)⟩

theorem get_erase (obj : PlainObject α) (key other : JsString) :
    (obj.erase key).get other = if key = other then none else obj.get other :=
  getProp_eraseProp key other obj.members

@[simp] theorem get_empty (key : JsString) :
    (empty : PlainObject α).get key = none := rfl

theorem get_set (obj : PlainObject α) (key other : JsString) (value : α) :
    (obj.set key value).get other
      = if key = other then some value else obj.get other :=
  getProp_setProp key other value obj.members

@[simp] theorem get_set_self (obj : PlainObject α) (key : JsString) (value : α) :
    (obj.set key value).get key = some value :=
  getProp_setProp_self key value obj.members

theorem get_set_of_ne (obj : PlainObject α) {key other : JsString}
    (h : key ≠ other) (value : α) : (obj.set key value).get other = obj.get other :=
  getProp_setProp_of_ne h value obj.members

/-- Assigning what is there already changes nothing. -/
theorem set_of_get {obj : PlainObject α} {key : JsString} {value : α}
    (h : obj.get key = some value) : obj.set key value = obj := by
  apply PlainObject.ext
  show setProp key value obj.members = obj.members
  rw [setProp, if_pos (by rw [← get, h]; rfl), replaceProp_of_getProp h]

/-- A new name that comes before none of the others is added at the end. -/
theorem members_set {obj : PlainObject α} {key : JsString} (value : α)
    (h : obj.get key = none) (hkey : ∀ m ∈ obj.members, before key m.1 = false) :
    (obj.set key value).members = obj.members ++ [(key, value)] := by
  show setProp key value obj.members = _
  rw [setProp, if_neg (by rw [get] at h; simp [h]), insertProp_eq_append value hkey]

theorem get_eq_some_iff {obj : PlainObject α} {key : JsString} {value : α} :
    obj.get key = some value ↔ (key, value) ∈ obj.members :=
  getProp_eq_some_iff obj.nodup

/-- An object is its names, in order, with what these are bound to. -/
theorem ext_get {obj obj' : PlainObject α}
    (hnames : obj.members.map Prod.fst = obj'.members.map Prod.fst)
    (hget : ∀ key, obj.get key = obj'.get key) : obj = obj' :=
  PlainObject.ext (members_ext obj.nodup obj'.nodup hnames hget)

/-- After an assignment there is what was there, and what has been assigned. -/
theorem forall_members_set {P : JsString × α → Prop} {obj : PlainObject α}
    (h : ∀ m ∈ obj.members, P m) {key : JsString} {value : α}
    (hvalue : P (key, value)) : ∀ m ∈ (obj.set key value).members, P m := by
  rintro ⟨k, v⟩ hm
  have hget := get_eq_some_iff.mpr hm
  rw [get_set] at hget
  split_ifs at hget with hk
  · subst hk
    rw [← Option.some.inj hget]
    exact hvalue
  · exact h _ (get_eq_some_iff.mp hget)

end PlainObject

/-- The names that an object inherits from `Object.prototype`.  All are bound
to functions, except `__proto__`, which is bound to `Object.prototype` itself;
none of these has properties of interest here. -/
def objectPrototype : List JsString :=
  [js "constructor", js "__defineGetter__", js "__defineSetter__",
    js "hasOwnProperty", js "__lookupGetter__", js "__lookupSetter__",
    js "isPrototypeOf", js "propertyIsEnumerable", js "toString", js "valueOf",
    js "__proto__", js "toLocaleString"]

instance decidableMemObjectPrototype (key : JsString) :
    Decidable (key ∈ objectPrototype) :=
  List.instDecidableMemOfLawfulBEq key objectPrototype

/-- What `obj[key]` finds. -/
inductive Found (α : Type) where
  | own (value : α)
  | inherited
  | missing

/-- `obj[key]` for a plain object. -/
def PlainObject.lookup (obj : PlainObject α) (key : JsString) : Found α :=
  match obj.get key with
  | some value => .own value
  | none => if key ∈ objectPrototype then .inherited else .missing

namespace PlainObject

theorem lookup_of_get {obj : PlainObject α} {key : JsString} {value : α}
    (h : obj.get key = some value) : obj.lookup key = .own value := by
  rw [lookup, h]

/-- A lookup depends on what the name is bound to. -/
theorem lookup_congr {obj obj' : PlainObject α} {key : JsString}
    (h : obj.get key = obj'.get key) : obj.lookup key = obj'.lookup key := by
  rw [lookup, lookup, h]

theorem get_of_lookup {obj : PlainObject α} {key : JsString} {value : α}
    (h : obj.lookup key = .own value) : obj.get key = some value := by
  unfold lookup at h
  split at h
  · rename_i v hv
    rw [hv, Found.own.inj h]
  · split_ifs at h

theorem mem_of_lookup_inherited {obj : PlainObject α} {key : JsString}
    (h : obj.lookup key = .inherited) : key ∈ objectPrototype := by
  unfold lookup at h
  split at h
  · cases h
  · split_ifs at h with hkey
    exact hkey

theorem lookup_of_mem {obj : PlainObject α} {key : JsString}
    (h : obj.get key = none) (hkey : key ∈ objectPrototype) :
    obj.lookup key = .inherited := by
  rw [lookup, h]
  exact if_pos hkey

theorem lookup_of_notMem {obj : PlainObject α} {key : JsString}
    (h : obj.get key = none) (hkey : key ∉ objectPrototype) :
    obj.lookup key = .missing := by
  rw [lookup, h]
  exact if_neg hkey

end PlainObject

end NewZone.Js
