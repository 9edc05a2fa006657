import Mathlib.Data.List.Infix
import Mathlib.Data.List.TakeWhile

/-!
# Pairs around a separator

Two lists are written one behind the other, with a separator between them.  The
pair can be read back when the separator occurs in neither of the two, provided
that no shift of the separator overlaps with itself.  `split_unique_iff` says
that nothing less is enough.
-/

namespace NewZone.Separator

variable {α : Type*} {sep : List α}

/-- The pair, with the separator between its parts. -/
def join (sep s r : List α) : List α := s ++ (sep ++ r)

/-- Nothing but the whole is both a beginning and an end of the separator. -/
def Unbordered (sep : List α) : Prop :=
  sep ≠ [] ∧ ∀ border, border ≠ [] → border <+: sep → border <:+ sep → border = sep

theorem unbordered_pair {a b : α} (h : a ≠ b) : Unbordered [a, b] := by
  refine ⟨by simp, ?_⟩
  intro border hne hfront hback
  cases border with
  | nil => exact absurd rfl hne
  | cons x rest =>
    obtain ⟨rfl, hrest⟩ := List.cons_prefix_cons.mp hfront
    cases rest with
    | nil =>
      -- a border of length one is the last element as well
      obtain ⟨front, hfront⟩ := hback
      have hlast := congrArg List.getLast? hfront
      simp only [List.getLast?_append, List.getLast?_singleton, List.getLast?_cons_cons,
        Option.some_or, Option.some.injEq] at hlast
      exact absurd hlast h
    | cons y rest =>
      obtain ⟨rfl, hnil⟩ := List.cons_prefix_cons.mp hrest
      rw [List.prefix_nil.mp hnil]

/-- A separator that begins behind another one begins behind all of it. -/
theorem Unbordered.of_shift (hsep : Unbordered sep) {c x y : List α}
    (h : sep ++ x = c ++ (sep ++ y)) : c = [] ∨ ∃ d, c = sep ++ d ∧ x = d ++ (sep ++ y) := by
  rcases List.append_eq_append_iff.mp h with ⟨d, hc, hx⟩ | ⟨d, hd, hy⟩
  · exact .inr ⟨d, hc, hx⟩
  · by_cases hnil : d = []
    · rw [hnil, List.append_nil] at hd
      rw [hnil, List.nil_append] at hy
      exact .inr ⟨[], by rw [List.append_nil, hd], hy.symm⟩
    · -- the separator is `c ++ d`, and `d` is where the two overlap
      have hbegins : d <+: sep ++ y := by
        rw [hy]
        exact List.prefix_append _ _
      have hlength : d.length ≤ sep.length := by
        rw [hd, List.length_append]
        omega
      have hfront : d <+: sep :=
        List.prefix_of_prefix_length_le hbegins (List.prefix_append _ _) hlength
      have hwhole : d = sep := hsep.2 d hnil hfront ⟨c, hd.symm⟩
      rw [hwhole] at hd
      exact .inl (List.self_eq_append_left.mp hd)

/-- **When a pair can be read back.**  No other pair is written in the same way
exactly when the separator occurs in neither part. -/
theorem split_unique_iff (hsep : Unbordered sep) {s r : List α} :
    (∀ s' r', join sep s' r' = join sep s r → s' = s ∧ r' = r) ↔
      ¬ sep <:+: s ∧ ¬ sep <:+: r := by
  constructor
  · intro h
    constructor
    · rintro ⟨a, b, rfl⟩
      -- the pair can be split where the first part has the separator
      have hother := h a (b ++ (sep ++ r)) (by simp [join])
      have hlength := congrArg List.length hother.2
      have hpos := List.length_pos_iff.mpr hsep.1
      simp only [List.length_append] at hlength
      omega
    · rintro ⟨a, b, rfl⟩
      have hother := h (s ++ (sep ++ a)) b (by simp [join])
      have hlength := congrArg List.length hother.1
      have hpos := List.length_pos_iff.mpr hsep.1
      simp only [List.length_append] at hlength
      omega
  · rintro ⟨hs, hr⟩ s' r' h
    rcases List.append_eq_append_iff.mp h with ⟨c, hc, hshift⟩ | ⟨c, hc, hshift⟩
    · rcases hsep.of_shift hshift with rfl | ⟨d, rfl, -⟩
      · rw [List.nil_append] at hshift
        exact ⟨by rw [hc, List.append_nil], List.append_cancel_left hshift⟩
      · exact absurd ⟨s', d, by rw [hc, List.append_assoc]⟩ hs
    · rcases hsep.of_shift hshift with rfl | ⟨d, -, hd⟩
      · rw [List.nil_append] at hshift
        exact ⟨by rw [hc, List.append_nil], (List.append_cancel_left hshift).symm⟩
      · exact absurd ⟨d, r', by rw [hd, List.append_assoc]⟩ hr

/-! ## The first of an element -/

/-- A list is cut at the first `c`, or has none. -/
def CutAt (c : α) (front back : List α) : Prop :=
  c ∉ front ∧ (back = [] ∨ ∃ rest, back = c :: rest)

theorem cutAt_takeWhile [DecidableEq α] (c : α) (l : List α) :
    CutAt c (l.takeWhile (· ≠ c)) (l.dropWhile (· ≠ c)) := by
  constructor
  · intro hmem
    have := List.mem_takeWhile_imp hmem
    simp at this
  · cases hdrop : l.dropWhile (· ≠ c) with
    | nil => exact .inl rfl
    | cons d rest =>
      have hd := List.head?_dropWhile_not (· ≠ c) l
      rw [hdrop] at hd
      simp at hd
      exact .inr ⟨rest, by rw [hd]⟩

/-- A prefix is cut at the same place, or has not come to it. -/
theorem CutAt.of_prefix {c : α} {p d front back : List α} (hp : CutAt c p d)
    (hfront : CutAt c front back) (h : p ++ d <+: front ++ back) :
    p <+: front ∧ (d = [] ∨ p = front ∧ d <+: back) := by
  obtain ⟨r, hr⟩ := h
  rw [List.append_assoc] at hr
  rcases List.append_eq_append_iff.mp hr with ⟨m, hfm, hm⟩ | ⟨m, hpm, hm⟩
  · refine ⟨⟨m, hfm.symm⟩, ?_⟩
    rcases hp.2 with hnil | ⟨rest, hrest⟩
    · exact .inl hnil
    · right
      cases m with
      | nil =>
        rw [List.append_nil] at hfm
        exact ⟨hfm.symm, r, hm⟩
      | cons x m =>
        rw [hrest] at hm
        obtain ⟨rfl, -⟩ := List.cons.inj hm
        refine absurd ?_ hfront.1
        rw [hfm]
        simp
  · cases m with
    | nil =>
      rw [List.append_nil] at hpm
      exact ⟨⟨[], by rw [List.append_nil, hpm]⟩, .inr ⟨hpm, r, hm.symm⟩⟩
    | cons x m =>
      rcases hfront.2 with hnil | ⟨rest, hrest⟩
      · rw [hnil] at hm
        cases hm
      · rw [hrest] at hm
        obtain ⟨rfl, -⟩ := List.cons.inj hm
        refine absurd ?_ hp.1
        rw [hpm]
        simp

end NewZone.Separator
