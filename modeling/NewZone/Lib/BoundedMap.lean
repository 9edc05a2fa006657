import Mathlib.Data.Finset.Card
import Mathlib.Logic.Function.Basic
import NewZone.Lib.Runs

/-!
# Bounded maps

A finite map that never has more than `cap` keys.  Every entry has the time at
which it was set, and a new key that finds the map full takes the place of an
entry that is as old as any.

`Step` is the reference for an implementation, which may choose among entries of
the same age.
-/

namespace NewZone.BoundedMap

open NewZone.Runs

variable {κ ν τ : Type*} [DecidableEq κ] {cap : ℕ}

/-- A map, and the keys that have an entry. -/
structure Map (κ ν τ : Type*) (cap : ℕ) where
  entry : κ → Option (ν × τ)
  keys : Finset κ
  mem_keys : ∀ k, k ∈ keys ↔ entry k ≠ none
  card_le : keys.card ≤ cap

namespace Map

def empty : Map κ ν τ cap := ⟨fun _ => none, ∅, by simp, by simp⟩

/-- There is room for an entry at `k`. -/
def Room (M : Map κ ν τ cap) (k : κ) : Prop := k ∈ M.keys ∨ M.keys.card < cap

def put (M : Map κ ν τ cap) (k : κ) (v : ν) (t : τ) (hroom : M.Room k) : Map κ ν τ cap where
  entry := Function.update M.entry k (some (v, t))
  keys := insert k M.keys
  mem_keys k' := by
    rw [Finset.mem_insert, M.mem_keys]
    by_cases hk : k' = k
    · subst hk
      simp
    · simp [hk]
  card_le := by
    rcases hroom with hk | hlt
    · rw [Finset.insert_eq_of_mem hk]
      exact M.card_le
    · exact (Finset.card_insert_le _ _).trans hlt

def erase (M : Map κ ν τ cap) (k : κ) : Map κ ν τ cap where
  entry := Function.update M.entry k none
  keys := M.keys.erase k
  mem_keys k' := by
    rw [Finset.mem_erase, M.mem_keys]
    by_cases hk : k' = k
    · subst hk
      simp
    · simp [hk]
  card_le := (Finset.card_erase_le).trans M.card_le

/-- The entry at `k` is as old as any. -/
def Oldest [LE τ] (M : Map κ ν τ cap) (k : κ) : Prop :=
  ∃ v t, M.entry k = some (v, t) ∧ ∀ k' v' t', M.entry k' = some (v', t') → t ≤ t'

@[simp] theorem entry_put (M : Map κ ν τ cap) (k k' : κ) (v : ν) (t : τ) (h : M.Room k) :
    (M.put k v t h).entry k' = if k' = k then some (v, t) else M.entry k' := by
  simp [put, Function.update_apply]

@[simp] theorem entry_erase (M : Map κ ν τ cap) (k k' : κ) :
    (M.erase k).entry k' = if k' = k then none else M.entry k' := by
  simp [erase, Function.update_apply]

@[simp] theorem keys_put (M : Map κ ν τ cap) (k : κ) (v : ν) (t : τ) (h : M.Room k) :
    (M.put k v t h).keys = insert k M.keys := rfl

@[simp] theorem keys_erase (M : Map κ ν τ cap) (k : κ) : (M.erase k).keys = M.keys.erase k := rfl

omit [DecidableEq κ] in
theorem Oldest.mem_keys [LE τ] {M : Map κ ν τ cap} {k : κ} (h : M.Oldest k) : k ∈ M.keys := by
  obtain ⟨v, t, hentry, -⟩ := h
  rw [M.mem_keys, hentry]
  nofun

/-- The oldest entry makes room. -/
theorem Oldest.room [LE τ] {M : Map κ ν τ cap} {old : κ} (h : M.Oldest old) (k : κ) :
    (M.erase old).Room k := by
  have hcard := Finset.card_erase_lt_of_mem h.mem_keys
  exact .inr (hcard.trans_le M.card_le)

end Map

/-! ## The reference -/

inductive Op (κ ν τ : Type*) where
  | set (k : κ) (v : ν) (now : τ)
  | get (k : κ)
  | delete (k : κ)
  | list

/-- What an operation may do to a map. -/
inductive Step [LE τ] : Map κ ν τ cap → Op κ ν τ → Map κ ν τ cap → Prop
  | set {M : Map κ ν τ cap} {k : κ} {v : ν} {now : τ} (hroom : M.Room k) :
    Step M (.set k v now) (M.put k v now hroom)
  | replace {M : Map κ ν τ cap} {k old : κ} {v : ν} {now : τ} (hfull : ¬ M.Room k)
    (hold : M.Oldest old) :
    Step M (.set k v now) ((M.erase old).put k v now (hold.room k))
  | get (M : Map κ ν τ cap) (k : κ) : Step M (.get k) M
  | delete (M : Map κ ν τ cap) (k : κ) : Step M (.delete k) (M.erase k)
  | list (M : Map κ ν τ cap) : Step M .list M

/-- The last value that has been set for a key. -/
def lastSet (k : κ) (ops : List (Op κ ν τ)) : Option ν :=
  ops.reverse.findSome? fun
    | .set k' v _ => if k = k' then some v else none
    | _ => none

theorem lastSet_snoc (k : κ) (ops : List (Op κ ν τ)) (op : Op κ ν τ) :
    lastSet k (ops ++ [op])
      = match op with
        | .set k' v _ => if k = k' then some v else lastSet k ops
        | _ => lastSet k ops := by
  unfold lastSet
  rw [List.reverse_append, List.reverse_singleton, List.singleton_append, List.findSome?_cons]
  cases op with
  | set k' v now =>
    dsimp only
    split_ifs <;> rfl
  | get k' => rfl
  | delete k' => rfl
  | list => rfl

variable [LE τ] {M M' : Map κ ν τ cap} {op : Op κ ν τ}

/-- An entry holds the value that has been set last. -/
theorem Step.lastSet {ops : List (Op κ ν τ)} (h : Step M op M')
    (hM : ∀ k v t, M.entry k = some (v, t) → BoundedMap.lastSet k ops = some v) :
    ∀ k v t, M'.entry k = some (v, t) → BoundedMap.lastSet k (ops ++ [op]) = some v := by
  intro k v t hentry
  rw [lastSet_snoc]
  cases h with
  | @set key value now hroom =>
    rw [Map.entry_put] at hentry
    dsimp only
    split_ifs at hentry ⊢
    · rw [(Prod.mk.inj (Option.some.inj hentry)).1]
    · exact hM k v t hentry
  | @replace key old value now hfull hold =>
    rw [Map.entry_put, Map.entry_erase] at hentry
    dsimp only
    split_ifs at hentry ⊢
    · rw [(Prod.mk.inj (Option.some.inj hentry)).1]
    · exact hM k v t hentry
  | get key => exact hM k v t hentry
  | delete key =>
    rw [Map.entry_erase] at hentry
    split_ifs at hentry
    exact hM k v t hentry
  | list => exact hM k v t hentry

theorem lastSet_of_run {ops : List (Op κ ν τ)}
    (h : Run Step (.empty : Map κ ν τ cap) ops M) {k : κ} {v : ν} {t : τ}
    (hentry : M.entry k = some (v, t)) : lastSet k ops = some v := by
  have hinv := h.history (P := fun ops M => ∀ k v t, M.entry k = some (v, t) →
    lastSet k ops = some v) nofun fun _ _ _ _ _ hM hstep => hstep.lastSet hM
  exact hinv k v t hentry

/-- An entry goes when its key is deleted, or when a new key finds the map full.
Then it is as old as any, and no other entry goes. -/
theorem Step.gone (h : Step M op M') {k : κ} (hk : k ∈ M.keys) (hgone : k ∉ M'.keys) :
    op = .delete k ∨ ∃ key value now, op = .set key value now ∧ key ∉ M.keys ∧
      M.keys.card = cap ∧ M.Oldest k ∧ ∀ other ∈ M.keys, other ≠ k → other ∈ M'.keys := by
  cases h with
  | set hroom => exact absurd (Finset.mem_insert_of_mem hk) hgone
  | @replace key old value now hfull hold =>
    right
    rw [Map.Room, not_or, not_lt] at hfull
    rw [Map.keys_put, Map.keys_erase, Finset.mem_insert, Finset.mem_erase, not_or, not_and] at hgone
    have hsame : k = old := by
      by_contra hne
      exact hgone.2 hne hk
    subst hsame
    refine ⟨key, value, now, rfl, hfull.1, le_antisymm M.card_le hfull.2, hold, ?_⟩
    intro other hother hne
    exact Finset.mem_insert_of_mem (Finset.mem_erase.mpr ⟨hne, hother⟩)
  | get key => exact absurd hk hgone
  | delete key =>
    left
    rw [Map.keys_erase, Finset.mem_erase, not_and] at hgone
    by_contra hne
    exact hgone (fun he => hne (by rw [he])) hk
  | list => exact absurd hk hgone

end NewZone.BoundedMap
