import Mathlib.Data.List.Basic
import Mathlib.Data.List.Induction
import Mathlib.Order.Lattice

/-!
# Bounded queues

A first-in first-out queue that never holds more than `cap` elements, and drops
its oldest to take a new one.  The queue remembers every element that was ever
pushed, so that an element has a place in `log` of its own, which no other
element gets: a pop reports this place as a ticket, and two equal elements that
were pushed at different times can be told apart.

`run` is the reference for an implementation.  Its answers to a list of
operations are what the implementation has to answer.
-/

namespace NewZone.BoundedFifo

variable {α : Type*} {cap : ℕ}

/-- A bounded queue: what was pushed, in order, and how many of the first
elements have been popped or dropped. -/
@[ext]
structure Fifo (α : Type*) (cap : ℕ) where
  log : List α
  gone : ℕ
  gone_le : gone ≤ log.length
  bounded : log.length ≤ gone + cap

namespace Fifo

def empty : Fifo α cap := ⟨[], 0, le_rfl, by simp⟩

/-- The elements that are there, the oldest first. -/
def contents (q : Fifo α cap) : List α := q.log.drop q.gone

/-- The oldest elements go that there is no room for. -/
def push (q : Fifo α cap) (x : α) : Fifo α cap where
  log := q.log ++ [x]
  gone := max q.gone (q.log.length + 1 - cap)
  gone_le := by
    have := q.gone_le
    simp only [List.length_append, List.length_singleton]
    omega
  bounded := by
    have := q.bounded
    simp only [List.length_append, List.length_singleton]
    omega

/-- The oldest element that is there, with its ticket. -/
def head? (q : Fifo α cap) : Option (ℕ × α) := q.log[q.gone]?.map fun x => (q.gone, x)

/-- Without its oldest element. -/
def tail (q : Fifo α cap) : Fifo α cap where
  log := q.log
  gone := min (q.gone + 1) q.log.length
  gone_le := by omega
  bounded := by
    have := q.bounded
    omega

/-! ## The elements that are there -/

@[simp] theorem contents_empty : (empty : Fifo α cap).contents = [] := rfl

@[simp] theorem log_push (q : Fifo α cap) (x : α) : (q.push x).log = q.log ++ [x] := rfl

@[simp] theorem log_tail (q : Fifo α cap) : q.tail.log = q.log := rfl

theorem gone_le_gone_push (q : Fifo α cap) (x : α) : q.gone ≤ (q.push x).gone :=
  le_max_left _ _

theorem length_contents (q : Fifo α cap) : q.contents.length = q.log.length - q.gone := by
  simp [contents]

theorem length_contents_le (q : Fifo α cap) : q.contents.length ≤ cap := by
  have := q.bounded
  rw [length_contents]
  omega

/-- A new element is the last, and the oldest ones give way to it. -/
theorem contents_push (q : Fifo α cap) (x : α) :
    (q.push x).contents
      = (q.contents ++ [x]).drop ((q.contents ++ [x]).length - cap) := by
  have hle := q.gone_le
  have happend : q.contents ++ [x] = (q.log ++ [x]).drop q.gone := by
    rw [List.drop_append_of_le_length hle]
    rfl
  rw [happend, List.drop_drop]
  show (q.log ++ [x]).drop (max q.gone (q.log.length + 1 - cap)) = _
  congr 1
  simp only [List.length_drop, List.length_append, List.length_singleton]
  omega

/-- A list that fits is the whole list, and one that does not is too long by
one. -/
theorem contents_push_eq_ite (q : Fifo α cap) (x : α) :
    (if (q.contents ++ [x]).length > cap then (q.contents ++ [x]).tail
      else q.contents ++ [x]) = (q.push x).contents := by
  have hle := q.length_contents_le
  rw [contents_push]
  have hlength : (q.contents ++ [x]).length = q.contents.length + 1 := by simp
  split_ifs with hlong
  · rw [show (q.contents ++ [x]).length - cap = 1 by omega, List.drop_one]
  · rw [show (q.contents ++ [x]).length - cap = 0 by omega, List.drop_zero]

/-- As long as nothing is popped, the elements that are gone are those that there is
no room for. -/
theorem contents_foldl_push (xs : List α) :
    (xs.foldl push (empty : Fifo α cap)).contents = xs.drop (xs.length - cap) := by
  suffices h : (xs.foldl push (empty : Fifo α cap)).log = xs ∧
      (xs.foldl push (empty : Fifo α cap)).gone = xs.length - cap by
    rw [contents, h.1, h.2]
  induction xs using List.reverseRecOn with
  | nil => exact ⟨rfl, (Nat.zero_sub cap).symm⟩
  | append_singleton xs x ih =>
    obtain ⟨hlog, hgone⟩ := ih
    rw [List.foldl_append, List.foldl_cons, List.foldl_nil]
    refine ⟨by rw [log_push, hlog], ?_⟩
    show max _ _ = _
    rw [hlog, hgone, List.length_append, List.length_singleton]
    omega

/-- The oldest element is the first. -/
theorem head?_eq (q : Fifo α cap) : q.head? = q.contents.head?.map fun x => (q.gone, x) := by
  rw [head?, contents, List.head?_drop]

theorem contents_tail (q : Fifo α cap) : q.tail.contents = q.contents.tail := by
  have hle := q.gone_le
  show q.log.drop (min (q.gone + 1) q.log.length) = (q.log.drop q.gone).tail
  rw [List.tail_drop]
  rcases Nat.lt_or_ge q.gone q.log.length with hlt | hge
  · rw [min_eq_left (by omega)]
  · rw [min_eq_right (by omega), List.drop_length, List.drop_eq_nil_of_le (by omega)]

/-- What is popped has its ticket for its place. -/
theorem getElem?_of_head? {q : Fifo α cap} {p : ℕ × α} (h : q.head? = some p) :
    p.1 = q.gone ∧ q.log[p.1]? = some p.2 := by
  obtain ⟨x, hx, rfl⟩ := Option.map_eq_some_iff.mp h
  exact ⟨rfl, hx⟩

/-- The ticket is given once. -/
theorem gone_tail_of_head? {q : Fifo α cap} {p : ℕ × α} (h : q.head? = some p) :
    q.tail.gone = p.1 + 1 := by
  obtain ⟨hticket, hget⟩ := getElem?_of_head? h
  have hlt := (List.getElem?_eq_some_iff.mp hget).1
  show min (q.gone + 1) q.log.length = _
  omega

end Fifo

/-! ## The reference -/

/-- What is asked of a queue. -/
inductive Op (α : Type*) where
  | push (x : α)
  | pop
  | first (k : ℕ)

/-- What it answers. -/
inductive Answer (α : Type*) where
  | pushed (x : α)
  | popped (found : Option (ℕ × α))
  | listed (list : List α)

def Op.pushed? : Op α → Option α
  | .push x => some x
  | .pop => none
  | .first _ => none

/-- What is popped, with its ticket. -/
def Answer.popped? : Answer α → Option (ℕ × α)
  | .pushed _ => none
  | .popped found => found
  | .listed _ => none

def step (q : Fifo α cap) : Op α → Fifo α cap × Answer α
  | .push x => (q.push x, .pushed x)
  | .pop => (q.tail, .popped q.head?)
  | .first k => (q, .listed (q.contents.take k))

def run (q : Fifo α cap) : List (Op α) → Fifo α cap × List (Answer α)
  | [] => (q, [])
  | op :: ops =>
    let (q', answer) := step q op
    let (q'', answers) := run q' ops
    (q'', answer :: answers)

theorem run_cons (q : Fifo α cap) (op : Op α) (ops : List (Op α)) :
    run q (op :: ops)
      = ((run (step q op).1 ops).1, (step q op).2 :: (run (step q op).1 ops).2) := rfl

/-- The log grows by what is pushed. -/
theorem log_step (q : Fifo α cap) (op : Op α) :
    (step q op).1.log = q.log ++ op.pushed?.toList := by
  cases op with
  | push x => rfl
  | pop => exact (List.append_nil _).symm
  | first k => exact (List.append_nil _).symm

theorem log_run (q : Fifo α cap) (ops : List (Op α)) :
    (run q ops).1.log = q.log ++ ops.filterMap Op.pushed? := by
  induction ops generalizing q with
  | nil => exact (List.append_nil _).symm
  | cons op ops ih =>
    rw [run_cons]
    dsimp only
    rw [ih, log_step, List.append_assoc, List.filterMap_cons]
    cases op.pushed? with
    | none => rfl
    | some x => rfl

/-! ## Tickets -/

/-- The queue has gone on from `q`: what was pushed stays in the log, and what is
gone does not come back. -/
structure Fifo.Later (q q' : Fifo α cap) : Prop where
  log : q.log <+: q'.log
  gone : q.gone ≤ q'.gone

theorem Fifo.Later.refl (q : Fifo α cap) : q.Later q := ⟨List.prefix_rfl, Nat.le_refl _⟩

theorem Fifo.Later.trans {q q' q'' : Fifo α cap} (h : q.Later q') (h' : q'.Later q'') :
    q.Later q'' := ⟨h.log.trans h'.log, Nat.le_trans h.gone h'.gone⟩

theorem Fifo.Later.getElem? {q q' : Fifo α cap} (h : q.Later q') {i : ℕ} {x : α}
    (hget : q.log[i]? = some x) : q'.log[i]? = some x := by
  obtain ⟨new, hnew⟩ := h.log
  have hlt := (List.getElem?_eq_some_iff.mp hget).1
  rw [← hnew, List.getElem?_append_left hlt, hget]

theorem gone_le_gone_step (q : Fifo α cap) (op : Op α) : q.gone ≤ (step q op).1.gone := by
  cases op with
  | push x => exact q.gone_le_gone_push x
  | pop =>
    have := q.gone_le
    show q.gone ≤ min (q.gone + 1) q.log.length
    omega
  | first k => exact le_rfl

theorem later_step (q : Fifo α cap) (op : Op α) : q.Later (step q op).1 := by
  refine ⟨?_, gone_le_gone_step q op⟩
  rw [log_step]
  exact List.prefix_append _ _

/-- What a step pops is the element at its ticket, which is not there any
longer. -/
theorem popped_step {q : Fifo α cap} {op : Op α} {p : ℕ × α}
    (h : (step q op).2.popped? = some p) :
    q.gone ≤ p.1 ∧ p.1 < (step q op).1.gone ∧ q.log[p.1]? = some p.2 := by
  cases op with
  | push x => cases h
  | pop =>
    obtain ⟨hticket, hget⟩ := Fifo.getElem?_of_head? h
    have hgone : (step q .pop).1.gone = p.1 + 1 := Fifo.gone_tail_of_head? h
    exact ⟨by omega, by omega, hget⟩
  | first k => cases h

theorem later_run (q : Fifo α cap) (ops : List (Op α)) : q.Later (run q ops).1 := by
  induction ops generalizing q with
  | nil => exact .refl q
  | cons op ops ih => exact (later_step q op).trans (ih _)

/-- Every pop takes the element at its ticket. -/
theorem popped_run {q : Fifo α cap} {ops : List (Op α)} {p : ℕ × α}
    (h : p ∈ (run q ops).2.filterMap Answer.popped?) :
    q.gone ≤ p.1 ∧ (run q ops).1.log[p.1]? = some p.2 := by
  induction ops generalizing q with
  | nil => simp [run] at h
  | cons op ops ih =>
    rw [run_cons] at h ⊢
    dsimp only at h ⊢
    obtain ⟨answer, hanswer, hp⟩ := List.mem_filterMap.mp h
    rcases List.mem_cons.mp hanswer with rfl | hanswer
    · obtain ⟨hle, -, hget⟩ := popped_step hp
      exact ⟨hle, ((later_step q op).trans (later_run _ ops)).getElem? hget⟩
    · obtain ⟨hle, hget⟩ := ih (List.mem_filterMap.mpr ⟨answer, hanswer, hp⟩)
      exact ⟨(gone_le_gone_step q op).trans hle, hget⟩

/-- No element is popped twice, and the elements are popped in the order in
which they were pushed. -/
theorem pairwise_popped (q : Fifo α cap) (ops : List (Op α)) :
    ((run q ops).2.filterMap Answer.popped?).Pairwise fun p p' => p.1 < p'.1 := by
  induction ops generalizing q with
  | nil => exact .nil
  | cons op ops ih =>
    rw [run_cons, List.filterMap_cons]
    cases hpopped : (step q op).2.popped? with
    | none => exact ih _
    | some p =>
      refine List.pairwise_cons.mpr ⟨?_, ih _⟩
      intro p' hp'
      obtain ⟨-, hlt, -⟩ := popped_step hpopped
      exact hlt.trans_le (popped_run hp').1

/-- Elements at increasing places are a part of the list. -/
theorem sublist_of_tickets {log : List α} {found : List (ℕ × α)}
    (hlt : found.Pairwise fun p p' => p.1 < p'.1)
    (hget : ∀ p ∈ found, log[p.1]? = some p.2) :
    (found.map Prod.snd).Sublist log := by
  suffices h : ∀ k, (∀ p ∈ found, k ≤ p.1) → (found.map Prod.snd).Sublist (log.drop k) from
    h 0 fun _ _ => Nat.zero_le _
  induction found with
  | nil => exact fun _ _ => List.nil_sublist _
  | cons p found ih =>
    intro k hk
    obtain ⟨hfirst, hrest⟩ := List.pairwise_cons.mp hlt
    have hle := hk p List.mem_cons_self
    obtain ⟨hp, hx⟩ := List.getElem?_eq_some_iff.mp (hget p List.mem_cons_self)
    have hsub := ih hrest (fun p' hp' => hget p' (List.mem_cons_of_mem _ hp')) (p.1 + 1) hfirst
    have hcut : log.drop p.1 = p.2 :: log.drop (p.1 + 1) := by
      rw [← hx]
      exact List.drop_eq_getElem_cons hp
    have hdrop : (log.drop p.1).Sublist (log.drop k) := by
      rw [show p.1 = k + (p.1 - k) by omega, ← List.drop_drop]
      exact List.drop_sublist _ _
    refine List.Sublist.trans ?_ hdrop
    rw [hcut, List.map_cons]
    exact hsub.cons_cons _

end NewZone.BoundedFifo
