import Mathlib.Data.List.Nodup

/-!
# Registries

A list of entries that are found by a key, where a new entry goes to the end and the
first one with a key is removed.  As long as no key is there twice, the entries with a
key are the one that is found, and adding or removing under one key leaves what is
found under the others.
-/

namespace NewZone.Registry

variable {α β : Type*} (key : α → β)

/-- No key is there twice. -/
def Keyed (list : List α) : Prop := (list.map key).Nodup

variable {key} {list : List α}

theorem keyed_nil : Keyed key ([] : List α) := List.nodup_nil

theorem Keyed.of_sublist (h : Keyed key list) {part : List α} (hsub : part.Sublist list) :
    Keyed key part :=
  List.Nodup.sublist (hsub.map key) h

theorem Keyed.cons {a : α} (h : Keyed key (a :: list)) :
    (∀ b ∈ list, key b ≠ key a) ∧ Keyed key list := by
  rw [Keyed, List.map_cons, List.nodup_cons] at h
  exact ⟨fun b hb heq => h.1 (List.mem_map.mpr ⟨b, hb, heq⟩), h.2⟩

/-- An entry with a new key can be added. -/
theorem Keyed.concat (h : Keyed key list) {a : α} (hnew : ∀ b ∈ list, key b ≠ key a) :
    Keyed key (list ++ [a]) := by
  rw [Keyed, List.map_append, List.nodup_append]
  refine ⟨h, List.nodup_singleton _, ?_⟩
  intro k hk k' hk' heq
  obtain ⟨b, hb, hbk⟩ := List.mem_map.mp hk
  rw [List.map_singleton, List.mem_singleton] at hk'
  exact hnew b hb (by rw [hbk, heq, hk'])

theorem Keyed.eq_of_key (h : Keyed key list) {a b : α} (ha : a ∈ list) (hb : b ∈ list)
    (hkey : key a = key b) : a = b :=
  List.inj_on_of_nodup_map h ha hb hkey

variable [DecidableEq β]

/-- The entries with a key are the one that is found. -/
theorem Keyed.filter_eq (h : Keyed key list) (k : β) :
    list.filter (fun a => key a = k) = (list.find? fun a => key a = k).toList := by
  induction list with
  | nil => rfl
  | cons a list ih =>
    obtain ⟨hnew, h⟩ := h.cons
    by_cases hkey : key a = k
    · have hrest : list.filter (fun a => key a = k) = [] := by
        rw [List.filter_eq_nil_iff]
        intro b hb hbk
        exact hnew b hb ((of_decide_eq_true hbk).trans hkey.symm)
      simp [hkey, hrest]
    · simp [hkey, ih h]

/-- What is found when an entry with a new key has been added. -/
theorem find?_concat {a : α} (hnew : ∀ b ∈ list, key b ≠ key a) (k : β) :
    (list ++ [a]).find? (fun b => key b = k)
      = if key a = k then some a else list.find? fun b => key b = k := by
  rw [List.find?_append]
  by_cases hkey : key a = k
  · have hnone : list.find? (fun b => key b = k) = none := by
      rw [List.find?_eq_none]
      intro b hb
      simpa [← hkey] using hnew b hb
    simp [hnone, hkey]
  · simp [hkey]

/-- What is found when the first entry with a key has been removed. -/
theorem Keyed.find?_eraseP (h : Keyed key list) (k k' : β) :
    (list.eraseP fun a => key a = k).find? (fun a => key a = k')
      = if k = k' then none else list.find? fun a => key a = k' := by
  induction list with
  | nil => simp
  | cons a list ih =>
    obtain ⟨hnew, h⟩ := h.cons
    by_cases hkey : key a = k
    · rw [List.eraseP_cons_of_pos (by simpa using hkey)]
      by_cases hk : k = k'
      · rw [if_pos hk, List.find?_eq_none]
        intro b hb
        simpa [← hk, ← hkey] using hnew b hb
      · rw [if_neg hk, List.find?_cons_of_neg (by simpa [hkey] using hk)]
    · rw [List.eraseP_cons_of_neg (by simpa using hkey)]
      by_cases hkey' : key a = k'
      · rw [List.find?_cons_of_pos (by simpa using hkey'),
          List.find?_cons_of_pos (by simpa using hkey'),
          if_neg fun hk => hkey (hkey'.trans hk.symm)]
      · rw [List.find?_cons_of_neg (by simpa using hkey'),
          List.find?_cons_of_neg (by simpa using hkey')]
        exact ih h

end NewZone.Registry
