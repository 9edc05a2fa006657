import Mathlib.Data.Finset.Card
import NewZone.Lib.Latest

/-!
# Gossip

Nodes that pull from each other.  A node answers with what it holds, and any
node may merge an answer at any later time: the network delays answers, loses
them, delivers them twice and in any order.

What a node can know is the same network run on sets of nodes, where an answer
is a set and merging is union (`heard`).  A network of any other kind is
compared with that one, step by step (`Related.run`), so a fact about
what a node holds becomes a fact about which nodes it has heard.  A schedule in
which every node of a graph pulls from its neighbours, round after round,
brings every node what lies within reach (`mem_heard_of_rounds`).
-/

namespace NewZone.Gossip

open NewZone.Latest

variable {ι σ τ μ ν : Type*}

inductive Action (ι : Type*) where
  /-- node `j` answers with what it holds -/
  | answer (j : ι)
  /-- node `i` merges the `n`-th answer of the network -/
  | merge (i : ι) (n : ℕ)
deriving DecidableEq

/-- What the nodes hold, and all that has been answered. -/
structure Network (ι σ μ : Type*) where
  node : ι → σ
  answers : List μ

/-- Two networks whose nodes and answers correspond. -/
structure Related (R : σ → τ → Prop) (S : μ → ν → Prop) (N : Network ι σ μ)
    (M : Network ι τ ν) : Prop where
  node : ∀ i, R (N.node i) (M.node i)
  answers : List.Forall₂ S N.answers M.answers

variable {R : σ → τ → Prop} {S : μ → ν → Prop}

/-- An answer that is there corresponds to one of the other network. -/
theorem Related.getElem? {N : Network ι σ μ} {M : Network ι τ ν}
    (h : Related R S N M) {n : ℕ} {m : μ} (hm : N.answers[n]? = some m) :
    ∃ m' ∈ M.answers, S m m' := by
  obtain ⟨hn, rfl⟩ := List.getElem?_eq_some_iff.mp hm
  have hn' : n < M.answers.length := h.answers.length_eq ▸ hn
  exact ⟨_, List.getElem_mem hn', h.answers.get hn hn'⟩

section

variable [DecidableEq ι]

/-- Node `i` merges an answer, if there is one. -/
def Network.take (merge : σ → μ → σ) (N : Network ι σ μ) (i : ι) :
    Option μ → Network ι σ μ
  | none => N
  | some m => { N with node := Function.update N.node i (merge (N.node i) m) }

def Network.after (answer : σ → μ) (merge : σ → μ → σ) (N : Network ι σ μ) :
    Action ι → Network ι σ μ
  | .answer j => { N with answers := N.answers ++ [answer (N.node j)] }
  | .merge i n => N.take merge i N.answers[n]?

def Network.run (answer : σ → μ) (merge : σ → μ → σ) (N : Network ι σ μ)
    (acts : List (Action ι)) : Network ι σ μ :=
  acts.foldl (Network.after answer merge) N

variable {answer : σ → μ} {merge : σ → μ → σ} {answer' : τ → ν} {merge' : τ → ν → τ}

theorem Network.answers_take (N : Network ι σ μ) (i : ι) (m : Option μ) :
    (N.take merge i m).answers = N.answers := by
  cases m <;> rfl

theorem Network.run_append (N : Network ι σ μ) (acts later : List (Action ι)) :
    N.run answer merge (acts ++ later)
      = (N.run answer merge acts).run answer merge later :=
  List.foldl_append

/-! ## Two networks side by side -/

theorem Related.after (hanswer : ∀ s t, R s t → S (answer s) (answer' t))
    (hmerge : ∀ s t m n, R s t → S m n → R (merge s m) (merge' t n))
    {N : Network ι σ μ} {M : Network ι τ ν} (h : Related R S N M) (a : Action ι) :
    Related R S (N.after answer merge a) (M.after answer' merge' a) := by
  cases a with
  | answer j =>
    exact ⟨h.node, List.rel_append h.answers (.cons (hanswer _ _ (h.node j)) .nil)⟩
  | merge i n =>
    by_cases hn : n < N.answers.length
    · have hn' : n < M.answers.length := h.answers.length_eq ▸ hn
      have hS : S N.answers[n] M.answers[n] := h.answers.get hn hn'
      simp only [Network.after, Network.take, List.getElem?_eq_getElem hn,
        List.getElem?_eq_getElem hn']
      refine ⟨fun k => ?_, h.answers⟩
      by_cases hk : k = i
      · subst hk
        simp only [Function.update_self]
        exact hmerge _ _ _ _ (h.node k) hS
      · simp only [Function.update_of_ne hk]
        exact h.node k
    · have hn' : ¬n < M.answers.length := h.answers.length_eq ▸ hn
      simp only [Network.after, Network.take, List.getElem?_eq_none (not_lt.mp hn),
        List.getElem?_eq_none (not_lt.mp hn')]
      exact h

/-- Networks that correspond keep doing so, whatever the schedule. -/
theorem Related.run (hanswer : ∀ s t, R s t → S (answer s) (answer' t))
    (hmerge : ∀ s t m n, R s t → S m n → R (merge s m) (merge' t n))
    {N : Network ι σ μ} {M : Network ι τ ν} (h : Related R S N M)
    (acts : List (Action ι)) :
    Related R S (N.run answer merge acts) (M.run answer' merge' acts) := by
  induction acts generalizing N M with
  | nil => exact h
  | cons a acts ih => exact ih (h.after hanswer hmerge a)

/-! ## Who has been heard -/

/-- The network of which each node knows itself. -/
def hearing : Network ι (Finset ι) (Finset ι) :=
  { node := fun i => {i}, answers := [] }

/-- The nodes whose data can have come to node `i`. -/
def heard (acts : List (Action ι)) (i : ι) : Finset ι :=
  ((hearing : Network ι _ _).run id (· ∪ ·) acts).node i

theorem subset_after (N : Network ι (Finset ι) (Finset ι)) (a : Action ι) (i : ι) :
    N.node i ⊆ (N.after id (· ∪ ·) a).node i := by
  cases a with
  | answer j => exact Finset.Subset.refl _
  | merge k n =>
    rw [Network.after]
    cases N.answers[n]? with
    | none => exact Finset.Subset.refl _
    | some m =>
      by_cases hik : i = k
      · subst hik
        simp only [Network.take, Function.update_self]
        exact Finset.subset_union_left
      · simp only [Network.take, Function.update_of_ne hik]
        exact Finset.Subset.refl _

theorem subset_run (N : Network ι (Finset ι) (Finset ι)) (acts : List (Action ι))
    (i : ι) : N.node i ⊆ (N.run id (· ∪ ·) acts).node i := by
  induction acts generalizing N with
  | nil => exact Finset.Subset.refl _
  | cons a acts ih => exact (subset_after N a i).trans (ih _)

/-- What a node has heard, it has heard for good. -/
theorem heard_subset (acts later : List (Action ι)) (i : ι) :
    heard acts i ⊆ heard (acts ++ later) i := by
  rw [heard, heard, Network.run_append]
  exact subset_run _ _ _

theorem self_mem_heard (acts : List (Action ι)) (i : ι) : i ∈ heard acts i :=
  heard_subset [] acts i (Finset.mem_singleton_self i)

/-! ## Pulls -/

/-- How many answers a schedule gives. -/
def answered (acts : List (Action ι)) : ℕ :=
  acts.countP fun
    | .answer _ => true
    | .merge _ _ => false

theorem length_answers_run (N : Network ι σ μ) (acts : List (Action ι)) :
    (N.run answer merge acts).answers.length = N.answers.length + answered acts := by
  induction acts generalizing N with
  | nil => simp [Network.run, answered]
  | cons a acts ih =>
    rw [Network.run, List.foldl_cons, ← Network.run, ih]
    cases a with
    | answer j =>
      simp only [Network.after, List.length_append, List.length_singleton, answered,
        List.countP_cons, if_true]
      omega
    | merge i n =>
      simp [Network.after, Network.answers_take, answered]

/-- The answers of a network are only added to. -/
theorem answers_prefix_run (N : Network ι σ μ) (acts : List (Action ι)) :
    N.answers <+: (N.run answer merge acts).answers := by
  induction acts generalizing N with
  | nil => exact List.prefix_refl _
  | cons a acts ih =>
    refine List.IsPrefix.trans ?_ (ih _)
    cases a with
    | answer j => exact List.prefix_append _ _
    | merge i n =>
      rw [Network.after, Network.answers_take]

/-- Within `acts`, which come after `before`, node `j` answers and node `i`
merges that answer. -/
def Pulls (before acts : List (Action ι)) (i j : ι) : Prop :=
  ∃ a b c, acts = a ++ .answer j :: b ++ .merge i (answered (before ++ a)) :: c

/-- A node hears all that the other had heard before. -/
theorem heard_of_pulls {before acts : List (Action ι)} {i j : ι}
    (h : Pulls before acts i j) : heard before j ⊆ heard (before ++ acts) i := by
  obtain ⟨a, b, c, rfl⟩ := h
  let N : Network ι (Finset ι) (Finset ι) := hearing.run id (· ∪ ·) (before ++ a)
  let M : Network ι (Finset ι) (Finset ι) :=
    (N.after id (· ∪ ·) (.answer j)).run id (· ∪ ·) b
  have hN : N.answers.length = answered (before ++ a) := by
    simp [N, length_answers_run, hearing]
  have hM : M.answers[answered (before ++ a)]? = some (N.node j) := by
    have hpre : N.answers ++ [N.node j] <+: M.answers :=
      answers_prefix_run (N.after id (· ∪ ·) (.answer j)) b
    rw [← hN]
    exact List.prefix_iff_getElem?.mp hpre N.answers.length (by simp) |>.trans
      (by simp)
  have hrun : heard (before ++ (a ++ .answer j :: b
        ++ .merge i (answered (before ++ a)) :: c)) i
      = ((M.after id (· ∪ ·) (.merge i (answered (before ++ a)))).run id (· ∪ ·)
          c).node i := by
    simp only [heard, M, N, Network.run, List.foldl_append, List.foldl_cons]
  rw [hrun]
  have hmerged : N.node j
      ⊆ (M.after id (· ∪ ·) (.merge i (answered (before ++ a)))).node i := by
    simp only [Network.after, Network.take, hM, Function.update_self]
    exact Finset.subset_union_right
  exact (heard_subset before a j).trans (hmerged.trans (subset_run _ _ _))

/-- Every node pulls from its neighbours. -/
def Round (E : ι → ι → Prop) (before acts : List (Action ι)) : Prop :=
  ∀ i j, E i j → Pulls before acts i j

/-- A schedule of so many rounds, one after the other. -/
inductive Rounds (E : ι → ι → Prop) : ℕ → List (Action ι) → Prop
  | zero (acts : List (Action ι)) : Rounds E 0 acts
  | succ {k : ℕ} {before acts : List (Action ι)} :
      Rounds E k before → Round E before acts → Rounds E (k + 1) (before ++ acts)

/-- Node `j` is at most so many edges away from node `i`. -/
inductive Within (E : ι → ι → Prop) : ℕ → ι → ι → Prop
  | refl (k : ℕ) (i : ι) : Within E k i i
  | step {k : ℕ} {i j l : ι} : E i j → Within E k j l → Within E (k + 1) i l

/-- So many rounds reach as far. -/
theorem mem_heard_of_rounds {E : ι → ι → Prop} {k : ℕ} {acts : List (Action ι)}
    (h : Rounds E k acts) {i j : ι} (hij : Within E k i j) : j ∈ heard acts i := by
  induction h generalizing i with
  | zero acts =>
    cases hij
    exact self_mem_heard acts _
  | succ _ hround ih =>
    cases hij with
    | refl => exact self_mem_heard _ _
    | step hedge hrest => exact heard_of_pulls (hround _ _ hedge) (ih hrest)

end

/-! ## Registers -/

section Registers

variable {α β γ : Type*} [LinearOrder β] {time : α → β} {init : ι → Option α}

/-- The register holds one of the newest values that the nodes of `H` had at
first, and is empty only if they all were. -/
def Newest (time : α → β) (init : ι → Option α) (H : Finset ι) : Option α → Prop
  | none => ∀ j ∈ H, init j = none
  | some v => (∃ j ∈ H, init j = some v) ∧ ∀ j ∈ H, ∀ w ∈ init j, time w ≤ time v

theorem newest_self (time : α → β) (init : ι → Option α) (i : ι) :
    Newest time init {i} (init i) := by
  cases h : init i with
  | none => simp [Newest, h]
  | some v => simp [Newest, h]

theorem Newest.le {H : Finset ι} {a : Option α} (h : Newest time init H a) {j : ι}
    (hj : j ∈ H) {w : α} (hw : init j = some w) : ∃ v, a = some v ∧ time w ≤ time v := by
  cases a with
  | none => rw [h j hj] at hw; cases hw
  | some v => exact ⟨v, rfl, h.2 j hj w hw⟩

/-- Merging registers is hearing both. -/
theorem Newest.newer [DecidableEq ι] {H K : Finset ι} {a b : Option α}
    (ha : Newest time init H a) (hb : Newest time init K b) :
    Newest time init (H ∪ K) (Latest.newer time a b) := by
  cases a with
  | none =>
    cases b with
    | none =>
      intro j hj
      exact (Finset.mem_union.mp hj).elim (ha j) (hb j)
    | some w =>
      obtain ⟨⟨l, hl, hlw⟩, hle⟩ := hb
      refine ⟨⟨l, Finset.mem_union_right _ hl, hlw⟩, fun j hj x hx => ?_⟩
      rcases Finset.mem_union.mp hj with hj | hj
      · rw [ha j hj] at hx
        cases hx
      · exact hle j hj x hx
  | some v =>
    obtain ⟨⟨k, hk, hkv⟩, hvle⟩ := ha
    have hkeep : (∀ j ∈ K, ∀ x ∈ init j, time x ≤ time v) →
        Newest time init (H ∪ K) (some v) := by
      intro hK
      refine ⟨⟨k, Finset.mem_union_left _ hk, hkv⟩, fun j hj x hx => ?_⟩
      exact (Finset.mem_union.mp hj).elim (fun hj => hvle j hj x hx)
        fun hj => hK j hj x hx
    cases b with
    | none =>
      refine hkeep fun j hj x hx => ?_
      rw [hb j hj] at hx
      cases hx
    | some w =>
      obtain ⟨⟨l, hl, hlw⟩, hwle⟩ := hb
      rw [Latest.newer]
      split_ifs with hlt
      · refine ⟨⟨l, Finset.mem_union_right _ hl, hlw⟩, fun j hj x hx => ?_⟩
        rcases Finset.mem_union.mp hj with hj | hj
        · exact (hvle j hj x hx).trans hlt.le
        · exact hwle j hj x hx
      · exact hkeep fun j hj x hx => (hwle j hj x hx).trans (not_lt.mp hlt)

/-- A register that has heard the others keeps its value. -/
theorem Newest.newer_eq_left {H K : Finset ι} {a b : Option α}
    (ha : Newest time init H a) (hb : Newest time init K b) (hKH : K ⊆ H) :
    Latest.newer time a b = a := by
  cases b with
  | none => simp
  | some w =>
    obtain ⟨⟨l, hl, hlw⟩, -⟩ := hb
    obtain ⟨v, rfl, hle⟩ := ha.le (hKH hl) hlw
    exact if_neg (not_lt.mpr hle)

/-- Registers that have heard the same nodes agree, as far as `g` can tell, if
it does not tell apart values of one time. -/
theorem Newest.agree {H : Finset ι} {a b : Option α} (ha : Newest time init H a)
    (hb : Newest time init H b) (g : α → γ)
    (htie : ∀ i ∈ H, ∀ j ∈ H, ∀ v ∈ init i, ∀ w ∈ init j, time v = time w →
      g v = g w) : a.map g = b.map g := by
  cases a with
  | none =>
    cases b with
    | none => rfl
    | some w =>
      obtain ⟨⟨l, hl, hlw⟩, -⟩ := hb
      rw [ha l hl] at hlw
      cases hlw
  | some v =>
    obtain ⟨⟨k, hk, hkv⟩, -⟩ := id ha
    obtain ⟨w, rfl, hvw⟩ := hb.le hk hkv
    obtain ⟨⟨l, hl, hlw⟩, -⟩ := id hb
    obtain ⟨v', hv', hwv⟩ := ha.le hl hlw
    obtain rfl := Option.some.inj hv'
    exact congrArg some (htie k hk l hl v hkv w hlw (le_antisymm hvw hwv))

end Registers

end NewZone.Gossip
