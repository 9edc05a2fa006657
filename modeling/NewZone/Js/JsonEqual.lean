import NewZone.Js.JsonOrder

/-!
# Values as unordered maps

`Equal` says what it is for two JSON values to be equal when an object is
nothing but a map from names to values: no text and no order of names occurs in
it.  `same_iff_equal` connects it with `Same`, which sorts the members: for
values in which no object has a name twice, as `JSON.parse` makes them, the two
are one relation.
-/

namespace NewZone.Js.Json

/-- Equality, with objects as unordered maps. -/
inductive Equal : Json → Json → Prop where
  | null : Equal .null .null
  | bool (b : Bool) : Equal (.bool b) (.bool b)
  | num (x : Number) : Equal (.num x) (.num x)
  | str (s : JsString) : Equal (.str s) (.str s)
  | arr {xs ys : List Json} (hlength : xs.length = ys.length)
      (hitems : ∀ (i : ℕ) (v w : Json), xs[i]? = some v → ys[i]? = some w → Equal v w) :
      Equal (.arr xs) (.arr ys)
  | obj {ms ns : List (JsString × Json)}
      (hnames : ∀ key, (getProp key ms).isSome = (getProp key ns).isSome)
      (hmembers : ∀ key v w, getProp key ms = some v → getProp key ns = some w → Equal v w) :
      Equal (.obj ms) (.obj ns)

mutual

/-- No object in the value has a name twice. -/
def DistinctNames : Json → Prop
  | .arr items => DistinctItems items
  | .obj members => NodupKeys members ∧ DistinctMembers members
  | .null => True
  | .bool _ => True
  | .num _ => True
  | .str _ => True

def DistinctItems : List Json → Prop
  | [] => True
  | v :: vs => DistinctNames v ∧ DistinctItems vs

def DistinctMembers : List (JsString × Json) → Prop
  | [] => True
  | (_, v) :: ms => DistinctNames v ∧ DistinctMembers ms

end

/-! ## Parts of a value -/

theorem DistinctItems.of_mem {items : List Json} (h : DistinctItems items) {v : Json}
    (hv : v ∈ items) : DistinctNames v := by
  induction items with
  | nil => cases hv
  | cons w items ih =>
    obtain ⟨hw, hitems⟩ := h
    cases hv with
    | head => exact hw
    | tail _ hv => exact ih hitems hv

theorem DistinctMembers.of_getProp {ms : List (JsString × Json)} (h : DistinctMembers ms)
    {key : JsString} {v : Json} (hv : getProp key ms = some v) : DistinctNames v := by
  induction ms with
  | nil => cases hv
  | cons m ms ih =>
    obtain ⟨k, w⟩ := m
    obtain ⟨hw, hms⟩ := h
    rw [getProp_cons] at hv
    split_ifs at hv
    · obtain rfl := Option.some.inj hv
      exact hw
    · exact ih hms hv

theorem DistinctNames.of_field {v w : Json} (hv : v.DistinctNames) {name : String}
    (h : field v name = some w) : w.DistinctNames := by
  cases v with
  | obj members => exact hv.2.of_getProp h
  | _ => cases h

theorem sortedItems_eq_map (items : List Json) : sortedItems items = items.map sorted := by
  induction items with
  | nil => rfl
  | cons v items ih => rw [sortedItems, List.map_cons, ih]

/-- Two arrays are the same exactly when they have the same items in the same places. -/
theorem same_arr_iff {xs ys : List Json} :
    Same (.arr xs) (.arr ys) ↔
      xs.length = ys.length ∧
        ∀ (i : ℕ) (v w : Json), xs[i]? = some v → ys[i]? = some w → Same v w := by
  have hmap : Same (.arr xs) (.arr ys) ↔ xs.map sorted = ys.map sorted := by
    unfold Same
    rw [sorted, sorted, Json.arr.injEq, sortedItems_eq_map, sortedItems_eq_map]
  rw [hmap]
  constructor
  · intro h
    refine ⟨by simpa using congrArg List.length h, fun i v w hv hw => ?_⟩
    have hi := congrArg (fun items => items[i]?) h
    simp only [List.getElem?_map, hv, hw, Option.map_some] at hi
    exact Option.some.inj hi
  · intro hsame
    obtain ⟨hlength, h⟩ := hsame
    refine List.ext_getElem? fun i => ?_
    rw [List.getElem?_map, List.getElem?_map]
    by_cases hi : i < xs.length
    · have hv := List.getElem?_eq_getElem hi
      have hw := List.getElem?_eq_getElem (hlength ▸ hi)
      rw [hv, hw, Option.map_some, Option.map_some]
      exact congrArg some (h i _ _ hv hw)
    · have hv := List.getElem?_eq_none (not_lt.mp hi)
      have hw := List.getElem?_eq_none (hlength ▸ not_lt.mp hi)
      rw [hv, hw]

/-! ## Sorting decides equality -/

/-- Equal values are the same when sorted.  The induction is on the derivation. -/
theorem same_of_equal {v w : Json} (h : Equal v w) (hv : DistinctNames v)
    (hw : DistinctNames w) : Same v w := by
  induction h with
  | null => exact .refl _
  | bool => exact .refl _
  | num => exact .refl _
  | str => exact .refl _
  | arr hlength _ ih =>
    refine same_arr_iff.mpr ⟨hlength, fun i v w hi hj => ih i v w hi hj ?_ ?_⟩
    · exact DistinctItems.of_mem hv (List.mem_of_getElem? hi)
    · exact DistinctItems.of_mem hw (List.mem_of_getElem? hj)
  | @obj ms ns hnames _ ih =>
    refine (same_obj_iff hv.1 hw.1).mpr fun key => ?_
    have hname := hnames key
    cases hm : Js.getProp key ms with
    | none =>
      rw [hm] at hname
      have hn : Js.getProp key ns = none := by
        cases hn : Js.getProp key ns with
        | none => rfl
        | some w =>
          rw [hn] at hname
          cases hname
      rw [hn]
    | some v =>
      rw [hm] at hname
      obtain ⟨w, hn⟩ := Option.isSome_iff_exists.mp hname.symm
      rw [hn]
      exact congrArg some (ih key v w hm hn (hv.2.of_getProp hm) (hw.2.of_getProp hn))

/-- Values that are the same when sorted are equal, with or without distinct names.  The
induction is on the size of the first one. -/
theorem equal_of_same {v w : Json} (h : Same v w) : Equal v w := by
  induction hsize : sizeOf v using Nat.strong_induction_on generalizing v w with
  | _ n ih =>
    subst hsize
    cases v with
    | arr xs =>
      cases w with
      | arr ys =>
        obtain ⟨hlength, hitems⟩ := same_arr_iff.mp h
        refine .arr hlength fun i v w hi hj => ih _ ?_ (hitems i v w hi hj) rfl
        have hlt := List.sizeOf_lt_of_mem (List.mem_of_getElem? hi)
        rw [Json.arr.sizeOf_spec]
        omega
      | _ => simp [Same, sorted] at h
    | obj ms =>
      cases w with
      | obj ns =>
        have hprop := h.getProp
        refine .obj (fun key => ?_) fun key v w hm hn => ih _ ?_ ?_ rfl
        · simpa using congrArg Option.isSome (hprop key)
        · have hlt := List.sizeOf_lt_of_mem (mem_of_getProp hm)
          simp only [Prod.mk.sizeOf_spec] at hlt
          rw [Json.obj.sizeOf_spec]
          omega
        · have hkey := hprop key
          rw [hm, hn] at hkey
          exact Option.some.inj hkey
      | _ => simp [Same, sorted] at h
    | null => cases w <;> simp_all [Same, sorted, Equal.null]
    | bool b => cases w <;> simp_all [Same, sorted, Equal.bool]
    | num x => cases w <;> simp_all [Same, sorted, Equal.num]
    | str s => cases w <;> simp_all [Same, sorted, Equal.str]

/-- Sorting the members decides equality as unordered maps. -/
theorem same_iff_equal {v w : Json} (hv : DistinctNames v) (hw : DistinctNames w) :
    Same v w ↔ Equal v w :=
  ⟨equal_of_same, fun h => same_of_equal h hv hw⟩

/-! ## The order of the members -/

/-- Two values name their members in one order, at every depth. -/
inductive SameOrder : Json → Json → Prop where
  | null : SameOrder .null .null
  | bool (b c : Bool) : SameOrder (.bool b) (.bool c)
  | num (x y : Number) : SameOrder (.num x) (.num y)
  | str (s t : JsString) : SameOrder (.str s) (.str t)
  | arr {xs ys : List Json}
      (hitems : ∀ (i : ℕ) (v w : Json), xs[i]? = some v → ys[i]? = some w → SameOrder v w) :
      SameOrder (.arr xs) (.arr ys)
  | obj {ms ns : List (JsString × Json)} (hnames : ms.map Prod.fst = ns.map Prod.fst)
      (hmembers : ∀ key v w, getProp key ms = some v → getProp key ns = some w →
        SameOrder v w) :
      SameOrder (.obj ms) (.obj ns)

theorem SameOrder.refl (v : Json) : SameOrder v v := by
  induction hsize : sizeOf v using Nat.strong_induction_on generalizing v with
  | _ n ih =>
    subst hsize
    cases v with
    | null => exact .null
    | bool b => exact .bool b b
    | num x => exact .num x x
    | str s => exact .str s s
    | arr xs =>
      refine .arr fun i v w hv hw => ?_
      obtain rfl := Option.some.inj (hv.symm.trans hw)
      have hlt := List.sizeOf_lt_of_mem (List.mem_of_getElem? hv)
      refine ih _ ?_ v rfl
      rw [Json.arr.sizeOf_spec]
      omega
    | obj ms =>
      refine .obj rfl fun key v w hv hw => ?_
      obtain rfl := Option.some.inj (hv.symm.trans hw)
      have hlt := List.sizeOf_lt_of_mem (mem_of_getProp hv)
      refine ih _ ?_ v rfl
      simp only [Prod.mk.sizeOf_spec] at hlt
      rw [Json.obj.sizeOf_spec]
      omega

/-- Equal values with their members in one order are the same value.  The induction is on
the derivation of equality. -/
theorem Equal.eq_of_sameOrder {v w : Json} (h : Equal v w) (horder : SameOrder v w)
    (hv : DistinctNames v) (hw : DistinctNames w) : v = w := by
  induction h with
  | null => rfl
  | bool => rfl
  | num => rfl
  | str => rfl
  | @arr xs ys hlength _ ih =>
    cases horder with
    | arr hitems =>
      refine congrArg Json.arr (List.ext_getElem? fun i => ?_)
      by_cases hi : i < xs.length
      · have hx := List.getElem?_eq_getElem hi
        have hy := List.getElem?_eq_getElem (hlength ▸ hi)
        rw [hx, hy]
        refine congrArg some (ih i _ _ hx hy (hitems i _ _ hx hy) ?_ ?_)
        · exact DistinctItems.of_mem hv (List.mem_of_getElem? hx)
        · exact DistinctItems.of_mem hw (List.mem_of_getElem? hy)
      · rw [List.getElem?_eq_none (not_lt.mp hi), List.getElem?_eq_none (hlength ▸ not_lt.mp hi)]
  | @obj ms ns hnames _ ih =>
    cases horder with
    | obj hsame hmembers =>
      refine congrArg Json.obj (members_ext hv.1 hw.1 hsame fun key => ?_)
      have hname := hnames key
      cases hm : Js.getProp key ms with
      | none =>
        rw [hm] at hname
        exact (Option.isNone_iff_eq_none.mp (Option.isSome_eq_false_iff.mp hname.symm)).symm
      | some v =>
        rw [hm] at hname
        obtain ⟨w, hn⟩ := Option.isSome_iff_exists.mp hname.symm
        rw [hn]
        refine congrArg some (ih key v w hm hn (hmembers key v w hm hn) ?_ ?_)
        · exact hv.2.of_getProp hm
        · exact hw.2.of_getProp hn

end NewZone.Js.Json
