import Mathlib.Data.List.MinMax

/-!
# Last writer wins

A register that takes a value when the value is newer than what it holds, and
keeps what it holds on a tie, ends up with the first of the newest values that
it was offered: `List.argmax` of the time stamp.  Two replicas that offer each
other what they hold read the same values in the opposite order.  They agree
exactly when a tie between the two sides is between values that count as equal
(`argmax_swap_iff`).
-/

namespace NewZone.Latest

variable {α β γ : Type*} [LinearOrder β] {f : α → β}

/-- The newer of two registers, the first one on a tie. -/
def newer (f : α → β) : Option α → Option α → Option α
  | none, b => b
  | some a, none => some a
  | some a, some b => if f a < f b then some b else some a

@[simp] theorem newer_none (a : Option α) : newer f a none = a := by
  cases a <;> rfl

theorem newer_assoc (a b c : Option α) :
    newer f (newer f a b) c = newer f a (newer f b c) := by
  cases a with
  | none => rfl
  | some a =>
    cases b with
    | none => rfl
    | some b =>
      cases c with
      | none => simp
      | some c =>
        by_cases hab : f a < f b <;> by_cases hbc : f b < f c
        · simp [newer, hab, hbc, hab.trans hbc]
        · simp [newer, hab, hbc]
        · simp [newer, hab, hbc]
        · have hac : ¬ f a < f c :=
            not_lt.mpr ((not_lt.mp hbc).trans (not_lt.mp hab))
          simp [newer, hab, hbc, hac]

theorem argmax_cons (f : α → β) (x : α) (xs : List α) :
    (x :: xs).argmax f = newer f (some x) (xs.argmax f) := by
  rw [List.argmax_cons]
  cases xs.argmax f <;> rfl

/-- The newest of two lists is the newer of their newest. -/
theorem argmax_append (f : α → β) (xs ys : List α) :
    (xs ++ ys).argmax f = newer f (xs.argmax f) (ys.argmax f) := by
  induction xs with
  | nil => rfl
  | cons x xs ih => rw [List.cons_append, argmax_cons, argmax_cons, ih, newer_assoc]

/-- A register is the newest of what it holds. -/
theorem argmax_toList (a : Option α) : a.toList.argmax f = a := by
  cases a <;> rfl

/-- Older offers can be replaced by the one that they left behind. -/
theorem argmax_toList_append (xs ys : List α) :
    ((xs.argmax f).toList ++ ys).argmax f = (xs ++ ys).argmax f := by
  rw [argmax_append, argmax_toList, ← argmax_append]

/-- A register keeps its value when nothing newer comes. -/
theorem newer_eq_left {a : α} {b : Option α} (h : ∀ x ∈ b, f x ≤ f a) :
    newer f (some a) b = some a := by
  cases b with
  | none => rfl
  | some x => exact if_neg (not_lt.mpr (h x rfl))

/-- `v` is the first of the newest of a list: older than it is all that comes
before, and not newer what comes after. -/
def FirstNewest (f : α → β) (v : α) (xs : List α) : Prop :=
  ∃ front back, xs = front ++ v :: back ∧ (∀ x ∈ front, f x < f v) ∧
    ∀ x ∈ back, f x ≤ f v

theorem firstNewest_of_argmax {v : α} {xs : List α} (h : xs.argmax f = some v) :
    FirstNewest f v xs := by
  induction xs with
  | nil => cases h
  | cons x xs ih =>
    rw [argmax_cons] at h
    cases hrest : xs.argmax f with
    | none =>
      rw [hrest] at h
      obtain rfl := List.argmax_eq_none.mp hrest
      obtain rfl := Option.some.inj h
      exact ⟨[], [], rfl, by simp, by simp⟩
    | some y =>
      rw [hrest, newer] at h
      split_ifs at h with hxy
      · obtain rfl := Option.some.inj h
        obtain ⟨front, back, rfl, hfront, hback⟩ := ih hrest
        exact ⟨x :: front, back, rfl, List.forall_mem_cons.mpr ⟨hxy, hfront⟩, hback⟩
      · obtain rfl := Option.some.inj h
        refine ⟨[], xs, rfl, by simp, fun z hz => ?_⟩
        exact (List.le_of_mem_argmax hz hrest).trans (not_lt.mp hxy)

/-- Both orders of two lists have an equal newest, as far as `g` can tell,
exactly when ties between their newest are between values that `g` does not
distinguish. -/
theorem argmax_swap_iff (g : α → γ) (xs ys : List α) :
    ((xs ++ ys).argmax f).map g = ((ys ++ xs).argmax f).map g ↔
      ∀ a ∈ xs.argmax f, ∀ b ∈ ys.argmax f, f a = f b → g a = g b := by
  rw [argmax_append, argmax_append]
  cases xs.argmax f with
  | none => cases ys.argmax f <;> simp [newer]
  | some a =>
    cases ys.argmax f with
    | none => simp [newer]
    | some b =>
      rcases lt_trichotomy (f a) (f b) with h | h | h
      · simp [newer, h, h.not_gt, h.ne]
      · simp [newer, h]
      · simp [newer, h, h.not_gt, h.ne']

end NewZone.Latest
