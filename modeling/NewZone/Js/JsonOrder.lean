import NewZone.Js.Json
import NewZone.Js.Object
import Mathlib.Data.List.Sort

/-!
# Values up to the order of members

Two JSON values are the same if one is the other with members in another
order, at any depth.  `sorted` puts the members of every object in the order
of `Array.prototype.sort`, which compares names unit by unit, and `Same` is
equality after that.  `same_obj_iff` says what it means for an object: the same
names, bound to the same values.
-/

namespace NewZone.Js

/-- Members in the order of their names. -/
def sortNames {α : Type} (ms : List (JsString × α)) : List (JsString × α) :=
  ms.insertionSort fun a b => a.1 ≤ b.1

namespace Json

mutual

/-- The value with the members of every object in the order of their names. -/
def sorted : Json → Json
  | .arr items => .arr (sortedItems items)
  | .obj members => .obj (sortNames (sortedMembers members))
  | .null => .null
  | .bool b => .bool b
  | .num x => .num x
  | .str s => .str s

def sortedItems : List Json → List Json
  | [] => []
  | v :: vs => sorted v :: sortedItems vs

def sortedMembers : List (JsString × Json) → List (JsString × Json)
  | [] => []
  | (k, v) :: ms => (k, sorted v) :: sortedMembers ms

end

/-- The same value, up to the order of members. -/
def Same (v w : Json) : Prop := v.sorted = w.sorted

instance (v w : Json) : Decidable (Same v w) :=
  inferInstanceAs (Decidable (v.sorted = w.sorted))

theorem Same.refl (v : Json) : Same v v := rfl

theorem Same.symm {v w : Json} (h : Same v w) : Same w v := Eq.symm h

theorem Same.trans {u v w : Json} (h₁ : Same u v) (h₂ : Same v w) : Same u w :=
  Eq.trans h₁ h₂

/-! ## Sorting and lookups -/

theorem getProp_orderedInsert {α : Type} (key : JsString) (m : JsString × α)
    (ms : List (JsString × α)) :
    getProp key (ms.orderedInsert (fun a b => a.1 ≤ b.1) m)
      = getProp key (m :: ms) := by
  induction ms with
  | nil => rfl
  | cons n ns ih =>
    obtain ⟨k, v⟩ := m
    obtain ⟨l, w⟩ := n
    rw [List.orderedInsert_cons]
    split_ifs with hle
    · rfl
    · rw [getProp_cons, ih, getProp_cons, getProp_cons, getProp_cons]
      -- an equal name would have been put in front
      have hne : k ≠ l := by
        rintro rfl
        exact hle le_rfl
      split_ifs with h₁ h₂
      · exact absurd (h₂.trans h₁.symm) hne
      · rfl
      · rfl
      · rfl

theorem getProp_sortNames {α : Type} (key : JsString)
    (ms : List (JsString × α)) :
    getProp key (sortNames ms) = getProp key ms := by
  induction ms with
  | nil => rfl
  | cons m ms ih =>
    show getProp key ((sortNames ms).orderedInsert _ m) = _
    obtain ⟨k, v⟩ := m
    rw [getProp_orderedInsert, getProp_cons, getProp_cons, ih]

theorem getProp_sortedMembers (key : JsString) (ms : List (JsString × Json)) :
    getProp key (sortedMembers ms) = (getProp key ms).map sorted := by
  induction ms with
  | nil => rfl
  | cons m ms ih =>
    obtain ⟨k, v⟩ := m
    rw [sortedMembers, getProp_cons, getProp_cons, ih]
    split_ifs <;> rfl

/-- The same object has the same value under every name. -/
theorem Same.getProp {ms ns : List (JsString × Json)}
    (h : Same (.obj ms) (.obj ns)) (key : JsString) :
    (getProp key ms).map sorted = (getProp key ns).map sorted := by
  have h' : sortNames (sortedMembers ms) = sortNames (sortedMembers ns) := by
    simpa [Same, sorted] using h
  rw [← getProp_sortedMembers, ← getProp_sortedMembers,
    ← getProp_sortNames key (sortedMembers ms), h', getProp_sortNames]

/-! ## What is the same -/

theorem sortNames_perm {α : Type} (ms : List (JsString × α)) :
    (sortNames ms).Perm ms := List.perm_insertionSort _ _

theorem pairwise_sortNames {α : Type} (ms : List (JsString × α)) :
    (sortNames ms).Pairwise fun a b => a.1 ≤ b.1 :=
  List.pairwise_insertionSort _ _

/-- With different names, only one list is in the order of the names. -/
theorem sortNames_eq_of_perm {α : Type} {ms ns : List (JsString × α)}
    (hperm : ms.Perm ns) (hms : NodupKeys ms) : sortNames ms = sortNames ns := by
  have hp : (sortNames ms).Perm (sortNames ns) :=
    ((sortNames_perm ms).trans hperm).trans (sortNames_perm ns).symm
  have hkeys : NodupKeys (sortNames ms) :=
    ((sortNames_perm ms).map Prod.fst).nodup_iff.mpr hms
  refine hp.eq_of_pairwise ?_ (pairwise_sortNames ms) (pairwise_sortNames ns)
  intro a b ha hb hab hba
  have hk : a.1 = b.1 := le_antisymm hab hba
  have hb' := hp.mem_iff.mpr hb
  have ha₁ := (getProp_eq_some_iff hkeys).mpr ha
  have hb₁ := (getProp_eq_some_iff hkeys).mpr hb'
  rw [hk, hb₁] at ha₁
  exact Prod.ext hk (Option.some.inj ha₁).symm

theorem map_fst_sortedMembers (ms : List (JsString × Json)) :
    (sortedMembers ms).map Prod.fst = ms.map Prod.fst := by
  induction ms with
  | nil => rfl
  | cons m ms ih =>
    obtain ⟨k, v⟩ := m
    rw [sortedMembers, List.map_cons, List.map_cons, ih]

/-- Two objects with different names each are the same exactly when every name
has the same value in both. -/
theorem same_obj_iff {ms ns : List (JsString × Json)} (hms : NodupKeys ms)
    (hns : NodupKeys ns) :
    Same (.obj ms) (.obj ns) ↔
      ∀ key, (Js.getProp key ms).map sorted = (Js.getProp key ns).map sorted := by
  constructor
  · exact fun h key => h.getProp key
  · intro h
    have hms' : NodupKeys (sortedMembers ms) := by
      rw [NodupKeys, map_fst_sortedMembers]
      exact hms
    have hns' : NodupKeys (sortedMembers ns) := by
      rw [NodupKeys, map_fst_sortedMembers]
      exact hns
    have hperm : (sortedMembers ms).Perm (sortedMembers ns) := by
      refine (List.perm_ext_iff_of_nodup (List.Nodup.of_map _ hms')
        (List.Nodup.of_map _ hns')).mpr ?_
      rintro ⟨k, v⟩
      rw [← getProp_eq_some_iff hms', ← getProp_eq_some_iff hns',
        getProp_sortedMembers, getProp_sortedMembers, h k]
    rw [Same, sorted, sorted, sortNames_eq_of_perm hperm hms']

/-! ## Fields -/

/-- The property of a JSON value, `undefined` where it has none. -/
def field (v : Json) (name : String) : Option Json :=
  match v with
  | .obj members => Js.getProp (js name) members
  | _ => none

/-- Nothing is a part of itself. -/
theorem field_ne_self (v : Json) (name : String) : field v name ≠ some v := by
  intro h
  cases v with
  | obj members =>
    have hmem := List.sizeOf_lt_of_mem (mem_of_getProp h)
    simp only [Prod.mk.sizeOf_spec, Json.obj.sizeOf_spec] at hmem
    omega
  | _ => cases h

theorem field_same {v w : Json} (h : Json.Same v w) (name : String) :
    (field v name).map sorted = (field w name).map sorted := by
  cases v <;> cases w <;> first
    | rfl
    | exact h.getProp _
    | (simp [Json.Same, sorted] at h)

theorem eq_str_of_sorted {v : Option Json} {s : JsString}
    (h : v.map sorted = some (.str s)) : v = some (.str s) := by
  cases v with
  | none => cases h
  | some v => cases v <;> simp_all [sorted]

theorem eq_num_of_sorted {v : Option Json} {x : Number}
    (h : v.map sorted = some (.num x)) : v = some (.num x) := by
  cases v with
  | none => cases h
  | some v => cases v <;> simp_all [sorted]

end Json

end NewZone.Js
