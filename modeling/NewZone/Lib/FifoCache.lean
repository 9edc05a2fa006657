import NewZone.Lib.Window

/-!
# First-in first-out caches

A full cache takes what is not in it at its end, and lets its first element go.  What it
holds is the end of what has come in (`run_eq_rtake`), so that it is what it was as soon as
nothing has come in, or everything that it held has gone round (`run_eq_self_iff`).
-/

namespace NewZone.FifoCache

open NewZone.Window

variable {α : Type*} [DecidableEq α] (admitted : α → Prop) [DecidablePred admitted]

/-- A request.  What is not admitted leaves the cache as it is. -/
def step (cache : List α) (x : α) : List α :=
  if x ∈ cache ∨ ¬ admitted x then cache else cache.tail ++ [x]

def run (cache : List α) (xs : List α) : List α := xs.foldl (step admitted) cache

/-- What comes in, in order. -/
def newcomers (cache : List α) : List α → List α
  | [] => []
  | x :: xs =>
    if x ∈ cache ∨ ¬ admitted x then newcomers cache xs
    else x :: newcomers (cache.tail ++ [x]) xs

variable {admitted}

theorem newcomers_eq_nil_iff {cache xs : List α} :
    newcomers admitted cache xs = [] ↔ ∀ x ∈ xs, x ∈ cache ∨ ¬ admitted x := by
  induction xs with
  | nil => exact iff_of_true rfl nofun
  | cons x xs ih =>
    unfold newcomers
    rw [List.forall_mem_cons]
    split_ifs with h
    · rw [ih]
      exact (and_iff_right h).symm
    · exact iff_of_false nofun fun hall => h hall.1

/-- A cache holds the last of what has come in. -/
theorem run_eq_rtake {cache : List α} (hcache : cache ≠ []) (xs : List α) :
    run admitted cache xs = (cache ++ newcomers admitted cache xs).rtake cache.length := by
  induction xs generalizing cache with
  | nil =>
    rw [newcomers, List.append_nil, rtake_of_length_le le_rfl]
    rfl
  | cons x xs ih =>
    show run admitted (step admitted cache x) xs = _
    unfold newcomers step
    split_ifs with h
    · exact ih hcache
    · obtain ⟨y, cache, rfl⟩ := List.exists_cons_of_ne_nil hcache
      have hlength : (cache ++ [x]).length = (y :: cache).length := by simp
      have hlong : (y :: cache).length ≤
          (cache ++ [x] ++ newcomers admitted (cache ++ [x]) xs).length := by
        rw [List.length_append, hlength]
        exact Nat.le_add_right _ _
      have hsplit : (y :: cache) ++ x :: newcomers admitted (cache ++ [x]) xs
          = [y] ++ (cache ++ [x] ++ newcomers admitted (cache ++ [x]) xs) := by simp
      rw [List.tail_cons, ih (by simp), hlength, hsplit, rtake_append_of_le hlong]

/-- A cache is what it was when nothing has come in, or all of it once more. -/
theorem run_eq_self_iff {cache xs : List α} (hcache : cache ≠ []) (hnodup : cache.Nodup) :
    run admitted cache xs = cache ↔ (∀ x ∈ xs, x ∈ cache ∨ ¬ admitted x) ∨
      (newcomers admitted cache xs).rtake cache.length = cache := by
  rw [run_eq_rtake hcache, rtake_append_eq_self_iff hnodup, newcomers_eq_nil_iff]

end NewZone.FifoCache
