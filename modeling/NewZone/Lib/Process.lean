import Mathlib.Data.List.Infix
import Mathlib.Data.List.Induction

/-!
# Processes that a request may end

A server is a function `serve` from a state and a request to a state and an answer.
Where it makes no answer it has failed in a way that nothing catches, and its process
ends: the state is lost, and no later request is answered.

A process is therefore an optional state.  `after` is what is left of it after requests,
and `answer` what the next one gets.  There are two groups of rules.

* Where the state does not matter to whether a request ends the process,
  `after_eq_some_iff` and `after_eq_none_iff` say what requests leave of it, and
  `answers_of_ends` what the later ones get.
* `always_iff` is the rule for a property that holds as long as the process lives: it
  holds exactly when every request that is still served meets a condition.
-/

namespace NewZone.Process

variable {σ ι ρ : Type*} (serve : σ → ι → σ × Option ρ)

/-- What is left of a process after a request. -/
def next (process : Option σ) (req : ι) : Option σ :=
  process.bind fun s => (serve s req).2.map fun _ => (serve s req).1

/-- What is left of a process after requests, one after the other. -/
def after (process : Option σ) (reqs : List ι) : Option σ :=
  reqs.foldl (next serve) process

/-- What a process answers, as long as it lives. -/
def answer (process : Option σ) (req : ι) : Option ρ :=
  process.bind fun s => (serve s req).2

/-- What requests get, one after the other. -/
def answers (process : Option σ) : List ι → List (Option ρ)
  | [] => []
  | req :: reqs => answer serve process req :: answers (next serve process req) reqs

variable {serve} {process : Option σ} {s t : σ} {req : ι} {reqs later : List ι}

@[simp] theorem after_nil : after serve process [] = process := rfl

theorem after_cons :
    after serve process (req :: reqs) = after serve (next serve process req) reqs := rfl

theorem after_append :
    after serve process (reqs ++ later) = after serve (after serve process reqs) later :=
  List.foldl_append

theorem after_concat :
    after serve process (reqs ++ [req]) = next serve (after serve process reqs) req :=
  List.foldl_concat _ _ _ _

@[simp] theorem next_none : next serve none req = none := rfl

/-- A process that has ended stays so. -/
@[simp] theorem after_none : after serve none reqs = none := by
  induction reqs with
  | nil => rfl
  | cons req reqs ih => exact ih

@[simp] theorem answer_some : answer serve (some s) req = (serve s req).2 := rfl

theorem answers_none : answers serve none reqs = List.replicate reqs.length none := by
  induction reqs with
  | nil => rfl
  | cons req reqs ih => rw [answers, next_none, ih, List.length_cons, List.replicate_succ, answer,
      Option.bind_none]

theorem answers_append :
    answers serve process (reqs ++ later)
      = answers serve process reqs ++ answers serve (after serve process reqs) later := by
  induction reqs generalizing process with
  | nil => rfl
  | cons req reqs ih => rw [List.cons_append, answers, ih, answers, after_cons, List.cons_append]

theorem next_some_eq_some_iff :
    next serve (some s) req = some t ↔ ∃ a, serve s req = (t, some a) := by
  show (serve s req).2.map (fun _ => (serve s req).1) = some t ↔ _
  rw [Option.map_eq_some_iff]
  refine exists_congr fun a => ⟨fun h => ?_, fun h => ?_⟩
  · exact Prod.ext h.2 h.1
  · rw [h]
    exact ⟨rfl, rfl⟩

/-- A request that is answered leaves the process alive. -/
theorem next_of_answer {a : ρ} (h : (serve s req).2 = some a) :
    next serve (some s) req = some (serve s req).1 :=
  next_some_eq_some_iff.mpr ⟨a, Prod.ext rfl h⟩

theorem next_of_no_answer (h : (serve s req).2 = none) : next serve (some s) req = none := by
  show (serve s req).2.map (fun _ => (serve s req).1) = none
  rw [h]
  rfl

/-! ## Requests that end a process in every state -/

/-- The first of the requests that end a process. -/
theorem exists_first_end {Ends : ι → Prop} (h : ∃ req ∈ reqs, Ends req) :
    ∃ before req later, reqs = before ++ req :: later ∧ Ends req ∧ ∀ r ∈ before, ¬ Ends r := by
  induction reqs with
  | nil =>
    obtain ⟨req, hreq, -⟩ := h
    cases hreq
  | cons req reqs ih =>
    by_cases hreq : Ends req
    · exact ⟨[], req, reqs, rfl, hreq, fun r hr => nomatch hr⟩
    · obtain ⟨other, hother, hend⟩ := h
      rcases List.mem_cons.mp hother with rfl | hother
      · exact absurd hend hreq
      · obtain ⟨before, last, later, rfl, hlast, hbefore⟩ := ih ⟨other, hother, hend⟩
        exact ⟨req :: before, last, later, rfl, hlast, List.forall_mem_cons.mpr ⟨hreq, hbefore⟩⟩

/-- Where no request up to `req` ends a process, one that does comes later. -/
theorem mem_of_not_ends {Ends : ι → Prop} {before front back : List ι} {last : ι}
    (h : before ++ req :: later = front ++ last :: back) (hlast : Ends last)
    (hbefore : ∀ r ∈ before, ¬ Ends r) (hreq : ¬ Ends req) : req ∈ front := by
  rcases List.append_eq_append_iff.mp h with ⟨rest, rfl, hrest⟩ | ⟨rest, rfl, hrest⟩
  · cases rest with
    | nil =>
      rw [(List.cons.inj hrest).1] at hreq
      exact absurd hlast hreq
    | cons first rest =>
      rw [(List.cons.inj hrest).1]
      exact List.mem_append_right _ List.mem_cons_self
  · cases rest with
    | nil =>
      rw [(List.cons.inj hrest).1] at hlast
      exact absurd hlast hreq
    | cons first rest =>
      rw [(List.cons.inj hrest).1] at hlast
      exact absurd hlast (hbefore _ (List.mem_append_right _ List.mem_cons_self))

section Ends

variable {Ends : ι → Prop} (hends : ∀ s req, (serve s req).2 = none ↔ Ends req)
include hends

theorem next_of_not_ends (h : ¬ Ends req) : next serve (some s) req = some (serve s req).1 := by
  obtain ⟨a, ha⟩ := Option.ne_none_iff_exists'.mp ((hends s req).not.mpr h)
  exact next_of_answer ha

theorem next_of_ends (h : Ends req) : next serve process req = none := by
  cases process with
  | none => rfl
  | some s => exact next_of_no_answer ((hends s req).mpr h)

/-- The requests leave the process alive, in the state that each of them has changed. -/
theorem after_of_not_ends (h : ∀ req ∈ reqs, ¬ Ends req) :
    after serve (some s) reqs = some (reqs.foldl (fun s req => (serve s req).1) s) := by
  induction reqs generalizing s with
  | nil => rfl
  | cons req reqs ih =>
    obtain ⟨hreq, hreqs⟩ := List.forall_mem_cons.mp h
    rw [after_cons, next_of_not_ends hends hreq, ih hreqs, List.foldl_cons]

/-- One of the requests ends the process. -/
theorem after_of_ends (hreq : req ∈ reqs) (h : Ends req) : after serve process reqs = none := by
  obtain ⟨before, later, rfl⟩ := List.append_of_mem hreq
  rw [after_append, after_cons, next_of_ends hends h, after_none]

theorem after_eq_some_iff :
    after serve (some s) reqs = some t ↔
      (∀ req ∈ reqs, ¬ Ends req) ∧ reqs.foldl (fun s req => (serve s req).1) s = t := by
  constructor
  · intro h
    have hlives : ∀ req ∈ reqs, ¬ Ends req := fun req hreq hend => by
      rw [after_of_ends hends hreq hend] at h
      cases h
    rw [after_of_not_ends hends hlives] at h
    exact ⟨hlives, Option.some.inj h⟩
  · intro h
    rw [after_of_not_ends hends h.1, h.2]

theorem after_eq_none_iff : after serve (some s) reqs = none ↔ ∃ req ∈ reqs, Ends req := by
  constructor
  · intro h
    by_contra hlives
    push Not at hlives
    rw [after_of_not_ends hends hlives] at h
    cases h
  · intro h
    obtain ⟨req, hreq, hend⟩ := h
    exact after_of_ends hends hreq hend

/-- A request that ends the process gets nothing, and the later ones neither. -/
theorem answers_of_ends (h : Ends req) :
    answers serve process (req :: later) = List.replicate (later.length + 1) none := by
  have hnone : answer serve process req = none := by
    cases process with
    | none => rfl
    | some s => exact (hends s req).mpr h
  rw [answers, hnone, next_of_ends hends h, answers_none, List.replicate_succ]

end Ends

/-! ## As long as a process lives -/

/-- What the requests keep that a process serves holds as long as it lives. -/
theorem invariant {Q : σ → Prop} (hs : Q s)
    (hstep : ∀ pre req t u, pre ++ [req] <+: reqs → after serve (some s) pre = some t → Q t →
      next serve (some t) req = some u → Q u) :
    ∀ pre t, pre <+: reqs → after serve (some s) pre = some t → Q t := by
  intro pre
  induction pre using List.reverseRecOn with
  | nil =>
    intro t _ h
    obtain rfl := Option.some.inj h
    exact hs
  | append_singleton pre req ih =>
    intro u hpre h
    rw [after_concat] at h
    cases hlast : after serve (some s) pre with
    | none =>
      rw [hlast] at h
      cases h
    | some t =>
      rw [hlast] at h
      exact hstep pre req t u hpre hlast (ih t ((List.prefix_append _ _).trans hpre) hlast) h

/-- A property that holds as long as a process lives, exactly when every request that it
serves meets a condition: a request that meets it keeps the invariant `Q`, which gives the
property, and one after which the property holds has met it. -/
theorem always_iff {P Q : σ → Prop} {cond : σ → ι → Prop} (hQ : ∀ s, Q s → P s)
    (hkeep : ∀ s req t, Q s → next serve (some s) req = some t → cond s req → Q t)
    (hbreak : ∀ s req, Q s → (∀ t, next serve (some s) req = some t → P t) → cond s req)
    (hs : Q s) :
    (∀ pre t, pre <+: reqs → after serve (some s) pre = some t → P t) ↔
      ∀ pre req t, pre ++ [req] <+: reqs → after serve (some s) pre = some t → cond t req := by
  constructor
  · intro halways
    have hmeets : ∀ {pre req t}, pre ++ [req] <+: reqs → after serve (some s) pre = some t →
        Q t → cond t req := by
      intro pre req t hpre h ht
      refine hbreak t req ht fun u hu => halways _ u hpre ?_
      rw [after_concat, h, hu]
    have hQs := invariant hs fun pre req t u hpre h ht hu =>
      hkeep t req u ht hu (hmeets hpre h ht)
    exact fun pre req t hpre h =>
      hmeets hpre h (hQs pre t ((List.prefix_append _ _).trans hpre) h)
  · intro hcond pre t hpre h
    exact hQ t (invariant hs (fun pre req t u hpre h ht hu =>
      hkeep t req u ht hu (hcond pre req t hpre h)) pre t hpre h)

end NewZone.Process
