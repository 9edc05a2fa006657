import Mathlib.Data.List.Forall2
import Mathlib.Data.List.Induction

/-!
# Leases

A lease is held by someone for some time and can be renewed.  `expire` is what a
registry of leases keeps: those that have been renewed no longer ago than they
run.

A registry that is kept as a list in place renews the first entry that matches,
and removes what has expired in a sweep from the end, which stops where an entry
cannot be judged.  `forall₂_updateFirst` and `sweep_eq_filter` relate the two to
a registry of leases.
-/

namespace NewZone.Leases

variable {α β ε κ : Type*}

/-! ## The first match -/

/-- Changes the first element that matches. -/
def updateFirst (p : α → Bool) (f : α → α) : List α → List α
  | [] => []
  | a :: l => if p a then f a :: l else a :: updateFirst p f l

theorem updateFirst_of_false {p : α → Bool} {f : α → α} {l : List α}
    (h : ∀ a ∈ l, p a = false) : updateFirst p f l = l := by
  induction l with
  | nil => rfl
  | cons a l ih =>
    obtain ⟨ha, hl⟩ := List.forall_mem_cons.mp h
    rw [updateFirst, if_neg (by simp [ha]), ih hl]

/-- What an update does not touch, it keeps. -/
theorem map_updateFirst {p : α → Bool} {f : α → α} {g : α → β}
    (h : ∀ a, g (f a) = g a) (l : List α) : (updateFirst p f l).map g = l.map g := by
  induction l with
  | nil => rfl
  | cons a l ih =>
    unfold updateFirst
    split
    · rw [List.map_cons, List.map_cons, h]
    · rw [List.map_cons, List.map_cons, ih]

/-- An update changes the first of the matches. -/
theorem filter_updateFirst {p : α → Bool} {f : α → α} (h : ∀ a, p (f a) = p a) (l : List α) :
    (updateFirst p f l).filter p = (l.filter p).modifyHead f := by
  induction l with
  | nil => rfl
  | cons a l ih =>
    unfold updateFirst
    by_cases ha : p a = true
    · rw [if_pos ha, List.filter_cons_of_pos ((h a).trans ha), List.filter_cons_of_pos ha]
      rfl
    · rw [if_neg ha, List.filter_cons_of_neg ha, List.filter_cons_of_neg ha, ih]

/-- What holds of every element, and of what an update makes of it. -/
theorem forall_updateFirst {p : α → Bool} {f : α → α} {P : α → Prop} {l : List α}
    (h : ∀ a ∈ l, P a) (hf : ∀ a, P a → P (f a)) : ∀ a ∈ updateFirst p f l, P a := by
  induction l with
  | nil => exact h
  | cons a l ih =>
    obtain ⟨ha, hl⟩ := List.forall_mem_cons.mp h
    unfold updateFirst
    split
    · exact List.forall_mem_cons.mpr ⟨hf a ha, hl⟩
    · exact List.forall_mem_cons.mpr ⟨ha, ih hl⟩

/-- The first match is in the first of two lists that has one. -/
theorem updateFirst_append (p : α → Bool) (f : α → α) (l m : List α) :
    updateFirst p f (l ++ m)
      = if l.any p then updateFirst p f l ++ m else l ++ updateFirst p f m := by
  induction l with
  | nil => rfl
  | cons a l ih =>
    rw [List.cons_append, updateFirst, updateFirst, List.any_cons, ih]
    cases p a <;> cases l.any p <;> rfl

/-- Related lists stay related when the first match of each is updated. -/
theorem forall₂_updateFirst {R : α → β → Prop} {p : α → Bool} {q : β → Bool}
    {f : α → α} {g : β → β} {l : List α} {m : List β} (h : List.Forall₂ R l m)
    (hmatch : ∀ a b, R a b → p a = q b)
    (hupdate : ∀ a b, m.find? q = some b → R a b → R (f a) (g b)) :
    List.Forall₂ R (updateFirst p f l) (updateFirst q g m) := by
  induction h with
  | nil => exact .nil
  | @cons a b l m hab htail ih =>
    unfold updateFirst
    rw [hmatch a b hab]
    by_cases hq : q b = true
    · rw [if_pos hq, if_pos hq]
      exact .cons (hupdate a b (List.find?_cons_of_pos hq) hab) htail
    · rw [if_neg hq, if_neg hq]
      refine .cons hab (ih fun a' b' hfind => hupdate a' b' ?_)
      rw [List.find?_cons_of_neg hq, hfind]

/-- The same when the first match of each is removed. -/
theorem forall₂_eraseP {R : α → β → Prop} {p : α → Bool} {q : β → Bool} {l : List α}
    {m : List β} (h : List.Forall₂ R l m) (hmatch : ∀ a b, R a b → p a = q b) :
    List.Forall₂ R (l.eraseP p) (m.eraseP q) := by
  induction h with
  | nil => exact .nil
  | @cons a b l m hab htail ih =>
    rw [List.eraseP_cons, List.eraseP_cons, hmatch a b hab]
    cases q b with
    | true => exact htail
    | false => exact .cons hab ih

/-! ## Sweeping from the end -/

/-- Removes what is expired, in place, from index `i - 1` down to `0`. -/
def sweepFrom (expired : α → Except ε Bool) : ℕ → List α → List α × Option ε
  | 0, l => (l, none)
  | i + 1, l =>
    match l[i]? with
    | none => sweepFrom expired i l
    | some a =>
      match expired a with
      | .ok true => sweepFrom expired i (l.eraseIdx i)
      | .ok false => sweepFrom expired i l
      | .error e => (l, some e)

/-- The sweep of a whole list. -/
def sweep (expired : α → Except ε Bool) (l : List α) : List α × Option ε :=
  sweepFrom expired l.length l

/-- One step of a sweep: the entries behind `a` have been passed. -/
theorem sweepFrom_concat (expired : α → Except ε Bool) (l r : List α) (a : α) :
    sweepFrom expired (l ++ [a]).length ((l ++ [a]) ++ r)
      = match expired a with
        | .ok true => sweepFrom expired l.length (l ++ r)
        | .ok false => sweepFrom expired l.length (l ++ a :: r)
        | .error e => (l ++ a :: r, some e) := by
  have hget : (l ++ a :: r)[l.length]? = some a := by simp
  have herase : (l ++ a :: r).eraseIdx l.length = l ++ r := by
    rw [List.eraseIdx_append_of_length_le (Nat.le_refl _), Nat.sub_self, List.eraseIdx_cons_zero]
  rw [List.length_append, List.length_singleton, List.append_assoc, List.singleton_append,
    sweepFrom, hget]
  dsimp only
  rw [herase]

/-- The entries behind stay as they are. -/
theorem sweepFrom_append (expired : α → Except ε Bool) (l r : List α) :
    ∃ l', (sweepFrom expired l.length (l ++ r)).1 = l' ++ r ∧ l'.Sublist l := by
  induction l using List.reverseRecOn generalizing r with
  | nil => exact ⟨[], rfl, List.Sublist.refl _⟩
  | append_singleton l a ih =>
    have hlast : l.Sublist (l ++ [a]) := List.sublist_append_left l [a]
    rw [sweepFrom_concat]
    split
    · obtain ⟨l', h, hsub⟩ := ih r
      exact ⟨l', h, hsub.trans hlast⟩
    · obtain ⟨l', h, hsub⟩ := ih (a :: r)
      exact ⟨l' ++ [a], by rw [h, List.append_assoc, List.singleton_append],
        hsub.append_right [a]⟩
    · exact ⟨l ++ [a], by rw [List.append_assoc, List.singleton_append],
        List.Sublist.refl _⟩

theorem sweep_sublist (expired : α → Except ε Bool) (l : List α) :
    (sweep expired l).1.Sublist l := by
  obtain ⟨l', h, hsub⟩ := sweepFrom_append expired l []
  rw [List.append_nil, List.append_nil] at h
  rw [sweep, h]
  exact hsub

/-- A sweep leaves an entry that is not expired, and what it removes around it
does not change the order. -/
theorem sweep_keeps {expired : α → Except ε Bool} {a : α} (h : expired a ≠ .ok true)
    (pre post : List α) :
    ∃ pre' post', (sweep expired (pre ++ a :: post)).1 = pre' ++ a :: post' ∧
      pre'.Sublist pre ∧ post'.Sublist post := by
  suffices hpost : ∀ r, ∃ pre' post',
      (sweepFrom expired (pre ++ a :: post).length (pre ++ a :: post ++ r)).1
        = pre' ++ a :: (post' ++ r) ∧ pre'.Sublist pre ∧ post'.Sublist post by
    simpa [sweep] using hpost []
  induction post using List.reverseRecOn with
  | nil =>
    -- the sweep has come to the entry itself
    intro r
    rw [sweepFrom_concat]
    split
    · rename_i hexpired
      exact absurd hexpired h
    · obtain ⟨pre', hpre, hsub⟩ := sweepFrom_append expired pre (a :: r)
      exact ⟨pre', [], hpre, hsub, List.Sublist.refl _⟩
    · exact ⟨pre, [], rfl, List.Sublist.refl _, List.Sublist.refl _⟩
  | append_singleton post b ih =>
    intro r
    have hlast : post.Sublist (post ++ [b]) := List.sublist_append_left post [b]
    have hshape : pre ++ a :: (post ++ [b]) = (pre ++ a :: post) ++ [b] := by simp
    rw [hshape, sweepFrom_concat]
    split
    · obtain ⟨pre', post', h', hpre, hpost⟩ := ih r
      exact ⟨pre', post', h', hpre, hpost.trans hlast⟩
    · obtain ⟨pre', post', h', hpre, hpost⟩ := ih (b :: r)
      exact ⟨pre', post' ++ [b], by simpa using h', hpre, hpost.append_right [b]⟩
    · exact ⟨pre, post ++ [b], by simp, List.Sublist.refl _, List.Sublist.refl _⟩

/-- Where every entry can be judged, a sweep is a filter. -/
theorem sweep_eq_filter {expired : α → Except ε Bool} {gone : α → Bool} {l : List α}
    (h : ∀ a ∈ l, expired a = .ok (gone a)) :
    sweep expired l = (l.filter (fun a => !gone a), none) := by
  suffices hpassed : ∀ r, sweepFrom expired l.length (l ++ r)
      = (l.filter (fun a => !gone a) ++ r, none) by
    simpa [sweep] using hpassed []
  induction l using List.reverseRecOn with
  | nil => exact fun r => rfl
  | append_singleton l a ih =>
    intro r
    obtain ⟨hl, ha⟩ := List.forall_mem_append.mp h
    rw [sweepFrom_concat, ha a List.mem_cons_self, List.filter_append]
    cases hgone : gone a with
    | true => simpa [hgone] using ih hl r
    | false => simpa [hgone] using ih hl (a :: r)

/-- What stays of a list is told by a related one. -/
theorem filter_eq_of_forall₂ {R : α → β → Prop} {p : α → Bool} {q : β → Bool} {l : List α}
    {m : List β} (h : List.Forall₂ R l m) (hpq : ∀ a b, R a b → p a = q b) :
    l.filter p = ((l.zip m).filter fun x => q x.2).map Prod.fst := by
  induction h with
  | nil => rfl
  | @cons a b l m hab _ ih =>
    rw [List.zip_cons_cons, List.filter_cons, List.filter_cons, hpq a b hab]
    cases q b with
    | true => exact congrArg (a :: ·) ih
    | false => exact ih

/-- A list that is swept beside a related one, from which `q` tells what stays. -/
theorem sweep_of_forall₂ {R : α → β → Prop} {expired : α → Except ε Bool} {q : β → Bool}
    {l : List α} {m : List β} (h : List.Forall₂ R l m)
    (hjudge : ∀ a b, R a b → expired a = .ok (!q b)) :
    sweep expired l = (((l.zip m).filter fun p => q p.2).map Prod.fst, none) ∧
      List.Forall₂ R (sweep expired l).1 (m.filter q) := by
  let gone := fun a => match expired a with
    | .ok b => b
    | .error _ => false
  have hstays : ∀ a b, R a b → (!gone a) = q b := fun a b hab => by
    simp only [gone, hjudge a b hab, Bool.not_not]
  have hjudged : ∀ a ∈ l, expired a = .ok (gone a) := by
    have hboth : List.Forall₂ (fun a b => expired a = .ok (gone a) ∧ R a b) l m :=
      h.imp fun a b hab => ⟨by simp only [gone, hjudge a b hab], hab⟩
    exact ((List.forall₂_and_left l m).mp hboth).1
  have hfilter : ∀ ⦃a b⦄, R a b → ((!gone a) = true ↔ q b = true) := by
    intro a b hab
    rw [hstays a b hab]
  rw [sweep_eq_filter hjudged]
  exact ⟨congrArg (·, none) (filter_eq_of_forall₂ h hstays), List.rel_filter hfilter h⟩

/-! ## Leases -/

/-- A lease, the time of its last renewal and how long it runs from there. -/
structure Lease (α κ : Type*) where
  holder : α
  renewed : κ
  length : κ

/-- The leases that have not run out. -/
def expire [Sub κ] [LE κ] [DecidableLE κ] (now : κ) (ls : List (Lease α κ)) :
    List (Lease α κ) :=
  ls.filter fun l => now - l.renewed ≤ l.length

end NewZone.Leases
