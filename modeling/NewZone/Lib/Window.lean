import Mathlib.Data.List.DropRight
import Mathlib.Data.List.MinMax
import Mathlib.Data.List.Sort

/-!
# Bounded logs

A bounded log keeps the last `n` entries of a list that is sorted by time, with
a stable sort.  What it keeps is described time by time: of the entries of one
time it keeps the last ones, as many as the newer entries leave room for
(`filter_window`), and sorted lists are equal as soon as they agree at every
time.

Merging the same entries a second time therefore changes nothing exactly when
the room was already used up at every time they bring (`window_append_iff`).
-/

namespace NewZone.Window

variable {α κ : Type*} [LinearOrder κ] (time : α → κ)

/-- The entries in the order of their times, in their old order where the times
are equal. -/
def sortByTime (l : List α) : List α :=
  l.insertionSort fun a b => time a ≤ time b

/-- The last `n` of the sorted entries. -/
def window (n : ℕ) (l : List α) : List α := (sortByTime time l).rtake n

/-- The entries of one time. -/
def atTime (t : κ) (l : List α) : List α := l.filter fun a => time a = t

/-- How many entries are newer than `t`. -/
def newer (t : κ) (l : List α) : ℕ := l.countP fun a => t < time a

variable {time}

/-! ## The end of a list -/

theorem rtake_append_of_le {l m : List α} {n : ℕ} (h : n ≤ m.length) :
    (l ++ m).rtake n = m.rtake n := by
  rw [List.rtake, List.rtake, List.length_append, Nat.add_sub_assoc h,
    List.drop_append, List.drop_of_length_le (Nat.le_add_right _ _),
    Nat.add_sub_cancel_left, List.nil_append]

theorem rtake_of_length_le {l : List α} {n : ℕ} (h : l.length ≤ n) :
    l.rtake n = l := by
  rw [List.rtake, Nat.sub_eq_zero_of_le h, List.drop_zero]

theorem length_rtake (l : List α) (n : ℕ) : (l.rtake n).length = min n l.length := by
  rw [List.rtake, List.length_drop]
  omega

/-- What falls out at the front does not come back. -/
theorem rtake_rtake_append (l m : List α) {k n : ℕ} (hk : k ≤ n) :
    (l.rtake n ++ m).rtake k = (l ++ m).rtake k := by
  rcases le_total l.length n with h | h
  · rw [rtake_of_length_le h]
  · have hlen : k ≤ (l.rtake n ++ m).length := by
      rw [List.length_append, length_rtake]
      omega
    have hsplit : l.take (l.length - n) ++ (l.rtake n ++ m) = l ++ m := by
      rw [← List.append_assoc, List.rtake, List.take_append_drop]
    rw [← hsplit, rtake_append_of_le hlen]

/-- The end of a list, with something behind it, is the list again only if that is nothing,
or has all of the list at its end. -/
theorem rtake_append_eq_self_iff {l m : List α} (hnodup : l.Nodup) :
    (l ++ m).rtake l.length = l ↔ m = [] ∨ m.rtake l.length = l := by
  rcases Nat.lt_or_ge m.length l.length with hshort | hlong
  · have hrtake : m.rtake l.length = m := rtake_of_length_le hshort.le
    have hne : m ≠ l := by
      intro h
      rw [h] at hshort
      exact lt_irrefl _ hshort
    rw [hrtake, or_iff_left hne]
    constructor
    · intro h
      by_contra hm
      have hpos : 0 < m.length := List.length_pos_of_ne_nil hm
      have hsplit : (l ++ m).rtake l.length = l.drop m.length ++ m := by
        rw [List.rtake, List.length_append, Nat.add_sub_cancel_left,
          List.drop_append_of_le_length hshort.le]
      rw [hsplit] at h
      -- the first element of `l` would be in it twice
      have hfirst := congrArg (fun k => k[0]?) h
      rw [List.getElem?_append_left (by rw [List.length_drop]; omega), List.getElem?_drop,
        Nat.add_zero, List.getElem?_eq_getElem hshort,
        List.getElem?_eq_getElem (hpos.trans hshort)] at hfirst
      have hzero := hnodup.getElem_inj_iff.mp (Option.some.inj hfirst)
      omega
    · intro h
      rw [h, List.append_nil, rtake_of_length_le le_rfl]
  · rw [rtake_append_of_le hlong]
    refine ⟨.inr, fun h => h.elim (fun hm => ?_) id⟩
    rw [hm] at hlong
    rw [hm, List.rtake_nil, List.length_eq_zero_iff.mp (Nat.le_zero.mp hlong)]

/-! ## Sorted lists, time by time -/

theorem pairwise_sortByTime (l : List α) :
    (sortByTime time l).Pairwise fun a b => time a ≤ time b :=
  List.pairwise_insertionSort _ _

theorem sortByTime_perm (l : List α) : (sortByTime time l).Perm l :=
  List.perm_insertionSort _ _

/-- Sorting keeps the entries of one time in their order. -/
theorem atTime_sortByTime (t : κ) (l : List α) :
    atTime time t (sortByTime time l) = atTime time t l := by
  have hpairwise : (atTime time t l).Pairwise fun a b => time a ≤ time b := by
    apply List.pairwise_of_forall_mem_list
    intro a ha b hb
    have hat : ∀ c ∈ atTime time t l, time c = t := by simp [atTime]
    rw [hat a ha, hat b hb]
  have hsub : (atTime time t l).Sublist (sortByTime time l) :=
    List.sublist_insertionSort hpairwise List.filter_sublist
  have hsub' := hsub.filter fun a => time a = t
  rw [atTime, List.filter_filter] at hsub'
  simp only [Bool.and_self] at hsub'
  exact (hsub'.eq_of_length
    ((sortByTime_perm l).symm.filter _).length_eq).symm

theorem newer_sortByTime (t : κ) (l : List α) :
    newer time t (sortByTime time l) = newer time t l :=
  (sortByTime_perm l).countP_eq _

/-- Sorted lists with the same entries at every time, in the same order, are
equal. -/
theorem eq_of_atTime_eq {l m : List α}
    (hl : l.Pairwise fun a b => time a ≤ time b)
    (hm : m.Pairwise fun a b => time a ≤ time b)
    (h : ∀ t, atTime time t l = atTime time t m) : l = m := by
  induction l generalizing m with
  | nil =>
    cases m with
    | nil => rfl
    | cons y m => simpa [atTime] using h (time y)
  | cons x l ih =>
    cases m with
    | nil => simpa [atTime] using h (time x)
    | cons y m =>
      obtain ⟨hx, hl⟩ := List.pairwise_cons.mp hl
      obtain ⟨hy, hm'⟩ := List.pairwise_cons.mp hm
      -- the first entries are of the same time, or one of them is missing
      have hmem : ∀ {a b : α} {k : List α}, atTime time (time a) (b :: k) ≠ [] →
          (∀ c ∈ k, time b ≤ time c) → time b ≤ time a := by
        intro a b k hne hk
        obtain ⟨c, hc⟩ := List.exists_mem_of_ne_nil _ hne
        obtain ⟨hc, hca⟩ := List.mem_filter.mp hc
        rw [← of_decide_eq_true hca]
        rcases List.mem_cons.mp hc with rfl | hc
        · exact le_rfl
        · exact hk c hc
      have hxy : time x = time y := by
        refine le_antisymm (hmem ?_ hx) (hmem ?_ hy)
        · rw [h]
          simp [atTime]
        · rw [← h]
          simp [atTime]
      have hhead := h (time x)
      simp only [atTime, List.filter_cons, hxy, decide_true, if_true,
        List.cons.injEq] at hhead
      obtain ⟨rfl, -⟩ := hhead
      refine congrArg (x :: ·) (ih hl hm' fun t => ?_)
      have ht := h t
      simp only [atTime, List.filter_cons] at ht
      split_ifs at ht
      · exact (List.cons.inj ht).2
      · exact ht

theorem newer_append (t : κ) (l m : List α) :
    newer time t (l ++ m) = newer time t l + newer time t m :=
  List.countP_append

/-- Nothing in a list is newer than a time that bounds it. -/
theorem newer_eq_zero {l : List α} {t : κ} (h : ∀ a ∈ l, time a ≤ t) :
    newer time t l = 0 :=
  List.countP_eq_zero.mpr fun a ha => by simpa using h a ha

/-- The end of a sorted list, at one time. -/
theorem atTime_rtake {l : List α} (hl : l.Pairwise fun a b => time a ≤ time b)
    (t : κ) (n : ℕ) :
    atTime time t (l.rtake n) = (atTime time t l).rtake (n - newer time t l) := by
  induction l using List.reverseRecOn generalizing n with
  | nil => simp [atTime]
  | append_singleton l x ih =>
    obtain ⟨hl, -, hx⟩ := List.pairwise_append.mp hl
    have hx : ∀ a ∈ l, time a ≤ time x := fun a ha => hx a ha x (by simp)
    cases n with
    | zero => simp [atTime]
    | succ n =>
      have ih := ih hl n
      rw [List.rtake_concat_succ]
      rw [newer_append]
      unfold atTime at ih ⊢
      rw [List.filter_append, List.filter_append, ih]
      rcases lt_trichotomy (time x) t with h | h | h
      · have hnil : l.filter (fun a => time a = t) = [] :=
          List.filter_eq_nil_iff.mpr fun a ha => by
            simpa using ((hx a ha).trans_lt h).ne
        simp [hnil, h.ne]
      · have hl₀ : newer time t l = 0 := newer_eq_zero fun a ha => h ▸ hx a ha
        have hx₀ : newer time t [x] = 0 := by simp [newer, h]
        simp [hl₀, hx₀, h]
      · have hx₁ : newer time t [x] = 1 := by simp [newer, h]
        rw [hx₁, Nat.add_sub_add_right]
        simp [h.ne']

/-- How much of the end of a sorted list is newer. -/
theorem newer_rtake {l : List α} (hl : l.Pairwise fun a b => time a ≤ time b)
    (t : κ) (n : ℕ) : newer time t (l.rtake n) = min n (newer time t l) := by
  induction l using List.reverseRecOn generalizing n with
  | nil => simp [newer]
  | append_singleton l x ih =>
    obtain ⟨hl, -, hx⟩ := List.pairwise_append.mp hl
    have hx : ∀ a ∈ l, time a ≤ time x := fun a ha => hx a ha x (by simp)
    cases n with
    | zero => simp [newer]
    | succ n =>
      rw [List.rtake_concat_succ, newer_append, newer_append, ih hl]
      by_cases h : t < time x
      · have hx₁ : newer time t [x] = 1 := by simp [newer, h]
        rw [hx₁]
        omega
      · have hl₀ : newer time t l = 0 :=
          newer_eq_zero fun a ha => (hx a ha).trans (not_lt.mp h)
        have hx₀ : newer time t [x] = 0 := by simp [newer, h]
        rw [hl₀, hx₀]
        omega

/-! ## The window -/

/-- What a log keeps of one time. -/
theorem atTime_window (t : κ) (n : ℕ) (l : List α) :
    atTime time t (window time n l)
      = (atTime time t l).rtake (n - newer time t l) := by
  rw [window, atTime_rtake (pairwise_sortByTime l), atTime_sortByTime,
    newer_sortByTime]

theorem newer_window (t : κ) (n : ℕ) (l : List α) :
    newer time t (window time n l) = min n (newer time t l) := by
  rw [window, newer_rtake (pairwise_sortByTime l), newer_sortByTime]

theorem pairwise_window (n : ℕ) (l : List α) :
    (window time n l).Pairwise fun a b => time a ≤ time b :=
  (pairwise_sortByTime l).sublist (List.drop_sublist _ _)

theorem length_window_le (n : ℕ) (l : List α) : (window time n l).length ≤ n := by
  rw [window, length_rtake]
  exact Nat.min_le_left _ _

theorem atTime_append (t : κ) (l m : List α) :
    atTime time t (l ++ m) = atTime time t l ++ atTime time t m :=
  List.filter_append _ _

/-- What a log has let go it would not keep later on either: a log that is
filled in steps holds what it would hold when filled at once. -/
theorem window_window_append (n : ℕ) (l d : List α) :
    window time n (window time n l ++ d) = window time n (l ++ d) := by
  apply eq_of_atTime_eq (pairwise_window n _) (pairwise_window n _)
  intro t
  -- the newer entries leave the same room, however many have been let go
  have hroom : n - (min n (newer time t l) + newer time t d)
      = n - (newer time t l + newer time t d) := by omega
  rw [atTime_window, newer_append, newer_window, hroom, atTime_append,
    atTime_window, rtake_rtake_append _ _ (by omega), atTime_window, newer_append,
    atTime_append]

theorem mem_of_mem_window {n : ℕ} {l : List α} {a : α} (h : a ∈ window time n l) :
    a ∈ l :=
  (sortByTime_perm l).mem_iff.mp (List.mem_of_mem_drop h)

/-- There is no room at the times of `d`: each entry of `d` is among at least
`n` that are not older, and as many entries of its time as fit are the same
when those of `d` come once more. -/
def Absorbed (time : α → κ) (n : ℕ) (l d : List α) : Prop :=
  ∀ e ∈ d, n ≤ (l ++ d).countP (fun a => time e ≤ time a) ∧
    (atTime time (time e) (l ++ d) ++ atTime time (time e) d).rtake
        (n - newer time (time e) (l ++ d))
      = (atTime time (time e) (l ++ d)).rtake
        (n - newer time (time e) (l ++ d))

instance [DecidableEq α] (n : ℕ) (l d : List α) :
    Decidable (Absorbed time n l d) :=
  inferInstanceAs (Decidable (∀ e ∈ d, _ ∧ _))

theorem countP_le_eq (t : κ) (l : List α) :
    l.countP (fun a => t ≤ time a)
      = newer time t l + (atTime time t l).length := by
  induction l with
  | nil => rfl
  | cons x l ih =>
    rw [List.countP_cons, ih, newer, newer, List.countP_cons, atTime, atTime,
      List.filter_cons]
    rcases lt_trichotomy t (time x) with h | h | h
    · simp [h, h.le, h.ne']
      omega
    · simp [h]
      omega
    · simp [h.not_ge, h.not_gt, h.ne]

theorem newer_eq_zero_or (t : κ) (d : List α) :
    newer time t d = 0 ∨ ∃ e ∈ d, t < time e := by
  by_cases h : ∃ e ∈ d, t < time e
  · exact Or.inr h
  · push Not at h
    exact Or.inl (newer_eq_zero h)

/-- Where `d` brings nothing newer, what a log keeps of one time when `d` comes
once more. -/
theorem atTime_window_append {t : κ} {n : ℕ} {l d : List α}
    (hd : newer time t d = 0) :
    atTime time t (window time n (window time n l ++ d))
      = (atTime time t l ++ atTime time t d).rtake (n - newer time t l) := by
  rw [window_window_append, atTime_window, newer_append, hd, Nat.add_zero,
    atTime_append]

/-- Where there is no room, a log keeps nothing. -/
theorem atTime_window_of_le {t : κ} {n : ℕ} {l : List α}
    (h : n ≤ newer time t l) : atTime time t (window time n l) = [] := by
  rw [atTime_window, Nat.sub_eq_zero_of_le h, List.rtake_zero]

/-- Of the entries of a list that is not empty, there is a newest. -/
theorem exists_newest {d : List α} {e : α} (he : e ∈ d) :
    ∃ m, (∀ a ∈ d, time a ≤ time m) ∧ 0 < (atTime time (time m) d).length := by
  obtain ⟨m, hm⟩ : ∃ m, m ∈ d.argmax time :=
    Option.ne_none_iff_exists'.mp fun hnone =>
      List.ne_nil_of_mem he (List.argmax_eq_none.mp hnone)
  have hat : m ∈ atTime time (time m) d :=
    List.mem_filter.mpr ⟨List.argmax_mem hm, decide_eq_true rfl⟩
  exact ⟨m, fun a ha => List.le_of_mem_argmax ha hm, List.length_pos_of_mem hat⟩

/-- Entries that come once more change a log exactly when there was room for
them. -/
theorem window_append_iff (n : ℕ) (l d : List α) :
    window time n (window time n (l ++ d) ++ d) = window time n (l ++ d) ↔
      Absorbed time n l d := by
  have hmono : ∀ {t : κ} {e : α}, t < time e →
      (l ++ d).countP (fun a => time e ≤ time a) ≤ newer time t (l ++ d) :=
    fun h => List.countP_mono_left fun a _ ha =>
      decide_eq_true (h.trans_le (of_decide_eq_true ha))
  constructor
  · intro h
    have hfull : ∀ e ∈ d, n ≤ (l ++ d).countP fun a => time e ≤ time a := by
      -- the newest entry of `d` would find room
      intro e he
      obtain ⟨m, hmax, hpos⟩ := @exists_newest _ _ _ time _ _ he
      refine le_trans ?_ (List.countP_mono_left fun a _ ha =>
        decide_eq_true ((hmax e he).trans (of_decide_eq_true ha)))
      by_contra hroom
      rw [countP_le_eq, not_le] at hroom
      have hat := congrArg (fun k => (atTime time (time m) k).length) h
      rw [atTime_window_append (newer_eq_zero hmax), atTime_window, length_rtake,
        length_rtake, List.length_append] at hat
      omega
    refine fun e he => ⟨hfull e he, ?_⟩
    rcases newer_eq_zero_or (time e) d with hzero | ⟨a, ha, hea⟩
    · rw [← atTime_window_append hzero, h, atTime_window]
    · rw [Nat.sub_eq_zero_of_le ((hfull a ha).trans (hmono hea)), List.rtake_zero,
        List.rtake_zero]
  · intro h
    apply eq_of_atTime_eq (pairwise_window n _) (pairwise_window n _)
    intro t
    by_cases hroom : n ≤ newer time t (l ++ d)
    · rw [atTime_window_of_le hroom, atTime_window_of_le]
      rw [newer_append, newer_window]
      omega
    · have hzero : newer time t d = 0 := by
        apply (newer_eq_zero_or t d).resolve_right
        rintro ⟨e, he, hte⟩
        exact hroom ((h e he).1.trans (hmono hte))
      rw [atTime_window_append hzero, atTime_window]
      rcases List.eq_nil_or_concat (atTime time t d) with hnil | ⟨k, e, hk⟩
      · rw [hnil, List.append_nil]
      · have he : e ∈ atTime time t d := by simp [hk]
        obtain ⟨hmem, htime⟩ := List.mem_filter.mp he
        obtain rfl := of_decide_eq_true htime
        exact (h e hmem).2

/-! ## Logs that take nothing -/

/-- A log stays as it is when `d` comes: it is sorted and within bounds, and if
`d` has an entry at all it is full of entries that are not older, of which
those of the same time are the last ones also together with those of `d`. -/
structure Closed (time : α → κ) (n : ℕ) (l d : List α) : Prop where
  sorted : l.Pairwise fun a b => time a ≤ time b
  bounded : l.length ≤ n
  full : ∀ e ∈ d, l.length = n ∧ (∀ a ∈ l, time e ≤ time a) ∧
    (atTime time (time e) l ++ atTime time (time e) d).rtake
        (atTime time (time e) l).length
      = atTime time (time e) l

theorem newer_add_le (t : κ) (l : List α) :
    newer time t l + (atTime time t l).length ≤ l.length := by
  rw [← countP_le_eq]
  exact List.countP_le_length

/-- In a list without older entries, everything is newer or of that time. -/
theorem newer_add_eq {t : κ} {l : List α} (h : ∀ a ∈ l, t ≤ time a) :
    newer time t l + (atTime time t l).length = l.length := by
  rw [← countP_le_eq]
  exact List.countP_eq_length.mpr fun a ha => decide_eq_true (h a ha)

theorem atTime_eq_nil {t : κ} {l : List α} (h : ∀ a ∈ l, t < time a) :
    atTime time t l = [] :=
  List.filter_eq_nil_iff.mpr fun a ha => by simpa using (h a ha).ne'

theorem atTime_window_append_left (t : κ) (n : ℕ) (l d : List α) :
    atTime time t (window time n (l ++ d))
      = (atTime time t l ++ atTime time t d).rtake
        (n - (newer time t l + newer time t d)) := by
  rw [atTime_window, newer_append, atTime_append]

/-- A log that is as before after `d` is full of entries that are not older. -/
theorem closed_of_window_eq {n : ℕ} {l d : List α} (h : window time n (l ++ d) = l) :
    Closed time n l d := by
  have hbounded : l.length ≤ n := by
    rw [← h]
    exact length_window_le n _
  refine ⟨?_, hbounded, ?_⟩
  · rw [← h]
    exact pairwise_window n _
  intro e he
  -- the newest entry of `d` says how old the others may be
  obtain ⟨m, hmax, hpos⟩ := @exists_newest _ _ _ time _ _ he
  have hnewest := @atTime_window_append_left _ _ _ time (time m) n l d
  rw [h, newer_eq_zero hmax, Nat.add_zero] at hnewest
  have hlength := congrArg List.length hnewest
  rw [length_rtake, List.length_append] at hlength
  have hle : newer time (time m) l + (atTime time (time m) l).length
      ≤ l.length := newer_add_le _ l
  have hfull : l.countP (fun a => time m ≤ time a) = l.length := by
    rw [countP_le_eq]
    omega
  have hold : ∀ a ∈ l, time m ≤ time a := fun a ha =>
    of_decide_eq_true (List.countP_eq_length.mp hfull a ha)
  rw [countP_le_eq] at hfull
  refine ⟨by omega, fun a ha => (hmax e he).trans (hold a ha), ?_⟩
  rcases (hmax e he).lt_or_eq with hlt | heq
  · rw [atTime_eq_nil fun a ha => hlt.trans_le (hold a ha), List.length_nil,
      List.rtake_zero]
  · have hroom : n - newer time (time m) l
        = (atTime time (time m) l).length := by omega
    rw [heq, ← hroom]
    exact hnewest.symm

/-- A log is as before after `d` exactly when it was closed to it. -/
theorem window_append_eq_left_iff (n : ℕ) (l d : List α) :
    window time n (l ++ d) = l ↔ Closed time n l d := by
  constructor
  · intro h
    exact closed_of_window_eq h
  · rintro ⟨hsorted, hbounded, hfull⟩
    apply eq_of_atTime_eq (pairwise_window n _) hsorted
    intro t
    rw [atTime_window_append_left]
    rcases newer_eq_zero_or t d with hzero | ⟨e, he, hlt⟩
    · rw [hzero, Nat.add_zero]
      rcases List.eq_nil_or_concat (atTime time t d) with hnil | ⟨k, e, hk⟩
      · rw [hnil, List.append_nil, rtake_of_length_le]
        have hle : newer time t l + (atTime time t l).length ≤ l.length :=
          newer_add_le t l
        omega
      · have he : e ∈ atTime time t d := by simp [hk]
        obtain ⟨hmem, htime⟩ := List.mem_filter.mp he
        obtain rfl := of_decide_eq_true htime
        obtain ⟨hlength, hold, hlast⟩ := hfull e hmem
        have hroom : n - newer time (time e) l
            = (atTime time (time e) l).length := by
          have := newer_add_eq hold
          omega
        rw [hroom, hlast]
    · obtain ⟨hlength, hold, -⟩ := hfull e he
      have hnewer : ∀ a ∈ l, t < time a := fun a ha => hlt.trans_le (hold a ha)
      have hall : newer time t l = l.length :=
        List.countP_eq_length.mpr fun a ha => decide_eq_true (hnewer a ha)
      have hnone : n - (newer time t l + newer time t d) = 0 := by omega
      rw [hnone, atTime_eq_nil hnewer, List.rtake_zero]

end NewZone.Window
