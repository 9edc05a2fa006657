import Mathlib.Data.List.DropRight

/-!
# Words between separators

A text over any alphabet, some of whose letters are separators.  `words` cuts
it at its runs of separators, and `Spaced` says what that cut is: the words of
a text in their order, each with a separator or an end of the text on either
side.

The results are about normal forms.  A map that writes every letter in letters
and every separator in separators acts on the words (`words_flatMap`), a
trimmed text whose runs are collapsed is its words joined by the one separator
(`collapse_trim`), and such a joined text gives the words back
(`words_intercalate`).
-/

namespace NewZone.Words

variable {α β : Type*} {sep : α → Bool}

/-- Letters only, and at least one. -/
structure IsWord (sep : α → Bool) (w : List α) : Prop where
  ne_nil : w ≠ []
  letters : ∀ a ∈ w, sep a = false

/-- The words of a text. -/
def words (sep : α → Bool) (l : List α) : List (List α) :=
  (l.splitOnP sep).filter fun w => !w.isEmpty

/-- The text `l` consists of the words `ws` and of separators around them. -/
inductive Spaced (sep : α → Bool) : List α → List (List α) → Prop where
  | nil : Spaced sep [] []
  | skip {s l ws} (hs : sep s = true) (hl : Spaced sep l ws) : Spaced sep (s :: l) ws
  | last {w} (hw : IsWord sep w) : Spaced sep w [w]
  | word {w s l ws} (hw : IsWord sep w) (hs : sep s = true) (hl : Spaced sep l ws) :
      Spaced sep (w ++ s :: l) (w :: ws)

/-! ## The words of a text -/

@[simp] theorem words_nil : words sep [] = [] := by simp [words]

theorem words_append_cons {s : α} (hs : sep s = true) (front back : List α) :
    words sep (front ++ s :: back) = words sep front ++ words sep back := by
  rw [words, List.splitOnP_append_cons front back hs, List.filter_append]
  rfl

theorem words_cons {s : α} (hs : sep s = true) (l : List α) :
    words sep (s :: l) = words sep l := by
  have h := words_append_cons hs [] l
  rwa [words_nil] at h

theorem IsWord.words_eq {w : List α} (hw : IsWord sep w) : words sep w = [w] := by
  rw [words, List.splitOnP_eq_singleton hw.letters]
  simp [hw.ne_nil]

theorem Spaced.words_eq {l : List α} {ws : List (List α)} (h : Spaced sep l ws) :
    words sep l = ws := by
  induction h with
  | nil => exact words_nil
  | skip hs _ ih => rw [words_cons hs, ih]
  | last hw => exact hw.words_eq
  | word hw hs _ ih =>
    rw [words_append_cons hs, hw.words_eq, ih]
    rfl

/-- The induction is on the length, as a word is read off in one step. -/
theorem exists_spaced (sep : α → Bool) (l : List α) : ∃ ws, Spaced sep l ws := by
  induction hn : l.length using Nat.strong_induction_on generalizing l with
  | _ n ih =>
    subst hn
    cases l with
    | nil => exact ⟨[], .nil⟩
    | cons a l =>
      cases ha : sep a with
      | true =>
        obtain ⟨ws, hws⟩ := ih l.length (by simp) l rfl
        exact ⟨ws, .skip ha hws⟩
      | false =>
        obtain ⟨w, rest, hl, hletters, hhead⟩ : ∃ w rest, l = w ++ rest
            ∧ (∀ b ∈ w, sep b = false) ∧ ∀ s ∈ rest.head?, sep s = true := by
          refine ⟨l.takeWhile (!sep ·), l.dropWhile (!sep ·),
            List.takeWhile_append_dropWhile.symm, ?_, ?_⟩
          · intro b hb
            simpa using List.mem_takeWhile_imp hb
          · intro s hs
            have hnot := List.head?_dropWhile_not (!sep ·) l
            rw [Option.mem_def.mp hs] at hnot
            simpa using hnot
        have hw : IsWord sep (a :: w) := ⟨List.cons_ne_nil a w, by
          simpa [ha] using hletters⟩
        subst hl
        cases rest with
        | nil => exact ⟨[a :: w], by simpa using Spaced.last hw⟩
        | cons s rest =>
          obtain ⟨ws, hws⟩ := ih rest.length (by simp; omega) rest rfl
          exact ⟨(a :: w) :: ws, .word hw (hhead s rfl) hws⟩

theorem spaced_words (sep : α → Bool) (l : List α) : Spaced sep l (words sep l) := by
  obtain ⟨ws, h⟩ := exists_spaced sep l
  rwa [h.words_eq]

theorem Spaced.isWord {l : List α} {ws : List (List α)} (h : Spaced sep l ws) :
    ∀ w ∈ ws, IsWord sep w := by
  induction h with
  | nil => simp
  | skip _ _ ih => exact ih
  | last hw => simpa using hw
  | word hw _ _ ih => exact List.forall_mem_cons.mpr ⟨hw, ih⟩

theorem Spaced.mem {l : List α} {ws : List (List α)} (h : Spaced sep l ws) :
    ∀ w ∈ ws, ∀ a ∈ w, a ∈ l := by
  induction h with
  | nil => simp
  | skip _ _ ih => exact fun w hw a ha => List.mem_cons_of_mem _ (ih w hw a ha)
  | last _ => simp
  | word _ _ _ ih =>
    refine List.forall_mem_cons.mpr ⟨fun a ha => List.mem_append_left _ ha, ?_⟩
    exact fun w hw a ha => List.mem_append_right _ (List.mem_cons_of_mem _ (ih w hw a ha))

theorem Spaced.ne_nil {l : List α} {ws : List (List α)} (h : Spaced sep l ws) {a : α}
    (ha : a ∈ l) (hsep : sep a = false) : ws ≠ [] := by
  induction h with
  | nil => simp at ha
  | skip hs _ ih =>
    rcases List.mem_cons.mp ha with rfl | ha
    · simp [hs] at hsep
    · exact ih ha
  | last _ => exact List.cons_ne_nil _ _
  | word _ _ _ _ => exact List.cons_ne_nil _ _

/-! ## Trimming -/

/-- The text without the separators at its ends. -/
def trim (sep : α → Bool) (l : List α) : List α := (l.dropWhile sep).rdropWhile sep

theorem trim_sublist (sep : α → Bool) (l : List α) : (trim sep l).Sublist l :=
  (List.rdropWhile_prefix sep _).sublist.trans (List.dropWhile_sublist sep)

/-- No separator stands at either end. -/
structure Trimmed (sep : α → Bool) (l : List α) : Prop where
  head : ∀ a ∈ l.head?, sep a = false
  last : ∀ a ∈ l.getLast?, sep a = false

theorem words_dropWhile (l : List α) : words sep (l.dropWhile sep) = words sep l := by
  induction l with
  | nil => rfl
  | cons a l ih =>
    rw [List.dropWhile_cons]
    split_ifs with ha
    · rw [ih, words_cons ha]
    · rfl

theorem words_rdropWhile (l : List α) : words sep (l.rdropWhile sep) = words sep l := by
  induction l using List.reverseRecOn with
  | nil => rfl
  | append_singleton l a ih =>
    rw [List.rdropWhile_concat]
    split_ifs with ha
    · rw [ih, words_append_cons ha, words_nil, List.append_nil]
    · rfl

theorem words_trim (l : List α) : words sep (trim sep l) = words sep l := by
  rw [trim, words_rdropWhile, words_dropWhile]

theorem trimmed_trim (sep : α → Bool) (l : List α) : Trimmed sep (trim sep l) := by
  constructor
  · intro a ha
    obtain ⟨rest, hrest⟩ : trim sep l <+: l.dropWhile sep := List.rdropWhile_prefix sep _
    have hnot := List.head?_dropWhile_not sep l
    rw [← hrest, List.head?_append, Option.mem_def.mp ha] at hnot
    simpa using hnot
  · intro a ha
    obtain ⟨hne, rfl⟩ := List.mem_getLast?_eq_getLast ha
    exact Bool.eq_false_iff.mpr (List.rdropWhile_last_not sep (l.dropWhile sep) hne)

/-! ## Letter by letter -/

section Map

variable {sep' : β → Bool} {g : α → List β}

/-- `g` writes `a` in letters if `a` is a letter, else in separators. -/
structure Keeps (sep : α → Bool) (sep' : β → Bool) (g : α → List β) (a : α) : Prop where
  ne_nil : g a ≠ []
  sep_eq : ∀ b ∈ g a, sep' b = sep a

theorem Keeps.trans {γ : Type*} {sep'' : γ → Bool} {g' : β → List γ} {a : α}
    (h : Keeps sep sep' g a) (h' : ∀ b ∈ g a, Keeps sep' sep'' g' b) :
    Keeps sep sep'' (fun a => (g a).flatMap g') a := by
  constructor
  · obtain ⟨b, rest, hg⟩ := List.exists_cons_of_ne_nil h.ne_nil
    have hb := (h' b (hg ▸ List.mem_cons_self)).ne_nil
    simp [hg, hb]
  · intro c hc
    obtain ⟨b, hb, hc⟩ := List.mem_flatMap.mp hc
    rw [(h' b hb).sep_eq c hc, h.sep_eq b hb]

theorem Keeps.run {a : α} (h : Keeps sep sep' g a) (ha : sep a = true) :
    ∃ t run, g a = t :: run ∧ sep' t = true ∧ ∀ b ∈ run, sep' b = true := by
  obtain ⟨t, run, hrun⟩ := List.exists_cons_of_ne_nil h.ne_nil
  have hall : ∀ b ∈ t :: run, sep' b = true := by
    intro b hb
    rw [h.sep_eq b (hrun ▸ hb), ha]
  exact ⟨t, run, hrun, List.forall_mem_cons.mp hall⟩

theorem IsWord.flatMap {w : List α} (hw : IsWord sep w)
    (h : ∀ a ∈ w, Keeps sep sep' g a) : IsWord sep' (w.flatMap g) := by
  constructor
  · obtain ⟨a, rest, rfl⟩ := List.exists_cons_of_ne_nil hw.ne_nil
    simp [(h a List.mem_cons_self).ne_nil]
  · intro b hb
    obtain ⟨a, ha, hb⟩ := List.mem_flatMap.mp hb
    rw [(h a ha).sep_eq b hb, hw.letters a ha]

theorem Spaced.skip_run {run l : List α} {ws : List (List α)}
    (hrun : ∀ s ∈ run, sep s = true) (hl : Spaced sep l ws) : Spaced sep (run ++ l) ws := by
  induction run with
  | nil => exact hl
  | cons s run ih =>
    obtain ⟨hs, hrun⟩ := List.forall_mem_cons.mp hrun
    exact .skip hs (ih hrun)

theorem Spaced.flatMap {l : List α} {ws : List (List α)} (hl : Spaced sep l ws)
    (h : ∀ a ∈ l, Keeps sep sep' g a) : Spaced sep' (l.flatMap g) (ws.map (·.flatMap g)) := by
  induction hl with
  | nil => exact .nil
  | skip hs _ ih =>
    obtain ⟨hkeep, h⟩ := List.forall_mem_cons.mp h
    obtain ⟨t, run, hg, ht, hrun⟩ := hkeep.run hs
    rw [List.flatMap_cons, hg]
    exact .skip ht (.skip_run hrun (ih h))
  | last hw => exact .last (hw.flatMap h)
  | word hw hs _ ih =>
    obtain ⟨hword, h⟩ := List.forall_mem_append.mp h
    obtain ⟨hkeep, h⟩ := List.forall_mem_cons.mp h
    obtain ⟨t, run, hg, ht, hrun⟩ := hkeep.run hs
    rw [List.flatMap_append, List.flatMap_cons, hg, List.map_cons]
    exact .word (hw.flatMap hword) ht (.skip_run hrun (ih h))

theorem words_flatMap {l : List α} (h : ∀ a ∈ l, Keeps sep sep' g a) :
    words sep' (l.flatMap g) = (words sep l).map (·.flatMap g) :=
  ((spaced_words sep l).flatMap h).words_eq

theorem dropWhile_flatMap {l : List α} (h : ∀ a ∈ l, Keeps sep sep' g a) :
    (l.flatMap g).dropWhile sep' = (l.dropWhile sep).flatMap g := by
  induction l with
  | nil => rfl
  | cons a l ih =>
    obtain ⟨hkeep, h⟩ := List.forall_mem_cons.mp h
    rw [List.flatMap_cons, List.dropWhile_cons]
    split_ifs with ha
    · rw [List.dropWhile_append_of_pos, ih h]
      intro b hb
      rw [hkeep.sep_eq b hb, ha]
    · obtain ⟨b, rest, hg⟩ := List.exists_cons_of_ne_nil hkeep.ne_nil
      have hb : ¬ sep' b = true := by
        rw [hkeep.sep_eq b (hg ▸ List.mem_cons_self)]
        exact ha
      rw [hg, List.cons_append, List.dropWhile_cons_of_neg hb, List.flatMap_cons, hg]
      rfl

theorem rdropWhile_flatMap {l : List α} (h : ∀ a ∈ l, Keeps sep sep' g a) :
    (l.flatMap g).rdropWhile sep' = (l.rdropWhile sep).flatMap g := by
  have hrev : ∀ a ∈ l.reverse, Keeps sep sep' (List.reverse ∘ g) a := by
    intro a ha
    obtain ⟨hne, hsep⟩ := h a (List.mem_reverse.mp ha)
    exact ⟨by simpa using hne, by simpa using hsep⟩
  rw [List.rdropWhile, List.reverse_flatMap, dropWhile_flatMap hrev, List.reverse_flatMap,
    List.rdropWhile]
  simp [Function.comp_def]

theorem trim_flatMap {l : List α} (h : ∀ a ∈ l, Keeps sep sep' g a) :
    trim sep' (l.flatMap g) = (trim sep l).flatMap g := by
  rw [trim, dropWhile_flatMap h, rdropWhile_flatMap, trim]
  exact fun a ha => h a ((List.dropWhile_sublist sep).mem ha)

end Map

/-! ## Collapsing -/

/-- `x` in place of every run of separators.  `inRun` holds behind a
separator. -/
def collapseFrom (sep : α → Bool) (x : α) (inRun : Bool) : List α → List α
  | [] => []
  | a :: l =>
    if sep a then
      if inRun then collapseFrom sep x true l else x :: collapseFrom sep x true l
    else a :: collapseFrom sep x false l

def collapse (sep : α → Bool) (x : α) : List α → List α := collapseFrom sep x false

theorem collapseFrom_letters {w : List α} (x : α) (hw : ∀ a ∈ w, sep a = false) (l : List α) :
    collapseFrom sep x false (w ++ l) = w ++ collapseFrom sep x false l := by
  induction w with
  | nil => rfl
  | cons a w ih =>
    obtain ⟨ha, hw⟩ := List.forall_mem_cons.mp hw
    simp [collapseFrom, ha, ih hw]

theorem collapseFrom_word {w : List α} (x : α) (hw : IsWord sep w) (inRun : Bool) (l : List α) :
    collapseFrom sep x inRun (w ++ l) = w ++ collapseFrom sep x false l := by
  obtain ⟨a, w, rfl⟩ := List.exists_cons_of_ne_nil hw.ne_nil
  obtain ⟨ha, hletters⟩ := List.forall_mem_cons.mp hw.letters
  simp [collapseFrom, ha, collapseFrom_letters x hletters]

/-- Inside a run nothing is written before the next word, and the last letter
keeps `x` from being written behind it. -/
theorem Spaced.collapseFrom_eq {l : List α} {ws : List (List α)} (x : α)
    (h : Spaced sep l ws) (hlast : ∀ a ∈ l.getLast?, sep a = false) :
    collapseFrom sep x true l = [x].intercalate ws := by
  induction h with
  | nil => rfl
  | @skip s l ws hs _ ih =>
    have htail : ∀ a ∈ l.getLast?, sep a = false := by
      intro a ha
      apply hlast a
      rw [List.getLast?_cons, Option.mem_def.mp ha]
      rfl
    simp [collapseFrom, hs, ih htail]
  | @last w hw =>
    have hword := collapseFrom_word x hw true []
    simpa [collapseFrom] using hword
  | @word w s l ws hw hs hl ih =>
    have hne : l ≠ [] := by
      rintro rfl
      simp [hs] at hlast
    have htail : ∀ a ∈ l.getLast?, sep a = false := by
      intro a ha
      apply hlast a
      rw [List.getLast?_append, List.getLast?_cons, Option.mem_def.mp ha]
      rfl
    have hws : ws ≠ [] := by
      apply hl.ne_nil (List.getLast_mem hne)
      exact htail _ (List.getLast?_eq_some_getLast hne)
    rw [collapseFrom_word x hw, List.intercalate_cons_of_ne_nil hws]
    simp [collapseFrom, hs, ih htail]

theorem collapse_eq {l : List α} (x : α) (hl : Trimmed sep l) :
    collapse sep x l = [x].intercalate (words sep l) := by
  rw [← (spaced_words sep l).collapseFrom_eq x hl.last, collapse]
  cases l with
  | nil => rfl
  | cons a l => simp [collapseFrom, hl.head a rfl]

theorem collapse_trim (sep : α → Bool) (x : α) (l : List α) :
    collapse sep x (trim sep l) = [x].intercalate (words sep l) := by
  rw [collapse_eq x (trimmed_trim sep l), words_trim]

/-! ## Joining -/

theorem words_intercalate {x : α} (hx : sep x = true) {ws : List (List α)}
    (hws : ∀ w ∈ ws, IsWord sep w) : words sep ([x].intercalate ws) = ws := by
  induction ws with
  | nil => exact words_nil
  | cons w ws ih =>
    obtain ⟨hw, hws⟩ := List.forall_mem_cons.mp hws
    cases ws with
    | nil => rw [List.intercalate_singleton, hw.words_eq]
    | cons v ws =>
      rw [List.intercalate_cons_cons, List.append_assoc, List.singleton_append,
        words_append_cons hx, hw.words_eq, ih hws]
      rfl

/-- A joined list of words determines the list. -/
theorem intercalate_inj {x : α} (hx : sep x = true) {ws ws' : List (List α)}
    (hws : ∀ w ∈ ws, IsWord sep w) (hws' : ∀ w ∈ ws', IsWord sep w) :
    [x].intercalate ws = [x].intercalate ws' ↔ ws = ws' := by
  constructor
  · intro h
    have hwords := congrArg (words sep) h
    rwa [words_intercalate hx hws, words_intercalate hx hws'] at hwords
  · exact congrArg _

theorem flatMap_intercalate (g : α → List β) (x : α) (ws : List (List α)) :
    ([x].intercalate ws).flatMap g = (g x).intercalate (ws.map (·.flatMap g)) := by
  induction ws with
  | nil => rfl
  | cons w ws ih =>
    cases ws with
    | nil => simp
    | cons v ws =>
      rw [List.intercalate_cons_cons, List.flatMap_append, List.flatMap_append, ih]
      simp

theorem mem_intercalate {x a : α} {ws : List (List α)} (ha : a ∈ [x].intercalate ws) :
    a = x ∨ ∃ w ∈ ws, a ∈ w := by
  induction ws with
  | nil => simp at ha
  | cons w ws ih =>
    cases ws with
    | nil => exact .inr ⟨w, List.mem_cons_self, by simpa using ha⟩
    | cons v ws =>
      rw [List.intercalate_cons_cons, List.append_assoc, List.mem_append, List.singleton_append,
        List.mem_cons] at ha
      rcases ha with ha | ha | ha
      · exact .inr ⟨w, List.mem_cons_self, ha⟩
      · exact .inl ha
      · rcases ih ha with hx | ⟨u, hu, ha⟩
        · exact .inl hx
        · exact .inr ⟨u, List.mem_cons_of_mem w hu, ha⟩

end NewZone.Words
