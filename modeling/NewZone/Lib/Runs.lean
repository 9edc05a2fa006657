import Mathlib.Data.List.Induction

/-!
# Runs of a labelled transition system

A system is a relation `step` between a state, a label and a state.  The label
is whatever an observer can tell about the step, so a run, which collects the
labels in order, is the history of the system as well as its path.

Four induction rules are packaged here.  `Run.invariant` is for a property of
the state, `Run.always_iff` for one that holds as long as the steps meet a
condition, `Run.history` for a property that relates the state to the whole
history, and `Run.pairwise` for a history whose labels must not clash with
each other.
-/

namespace NewZone.Runs

variable {σ ε : Type*}

/-- The runs of `step`, extended at their end. -/
inductive Run (step : σ → ε → σ → Prop) : σ → List ε → σ → Prop
  | nil (s : σ) : Run step s [] s
  | snoc {s t u : σ} {es : List ε} {e : ε} :
      Run step s es t → step t e u → Run step s (es ++ [e]) u

/-- The steps of `step` whose state before and label satisfy `cond`. -/
def Guarded (step : σ → ε → σ → Prop) (cond : σ → ε → Prop) :
    σ → ε → σ → Prop :=
  fun s e t => step s e t ∧ cond s e

variable {step step' : σ → ε → σ → Prop}

/-! ## Composition -/

theorem Run.mono (h : ∀ s e t, step s e t → step' s e t) {s t : σ}
    {es : List ε} (hrun : Run step s es t) : Run step' s es t := by
  induction hrun with
  | nil => exact .nil _
  | snoc _ hstep ih => exact .snoc ih (h _ _ _ hstep)

theorem Run.single {s t : σ} {e : ε} (h : step s e t) : Run step s [e] t :=
  .snoc (.nil s) h

theorem Run.append {s t u : σ} {es fs : List ε} (h₁ : Run step s es t)
    (h₂ : Run step t fs u) : Run step s (es ++ fs) u := by
  induction h₂ with
  | nil => simpa using h₁
  | snoc _ hstep ih =>
    rw [← List.append_assoc]
    exact .snoc ih hstep

theorem Run.cons {s t u : σ} {e : ε} {es : List ε} (h : step s e t)
    (hrun : Run step t es u) : Run step s (e :: es) u :=
  (Run.single h).append hrun

/-- A run with an empty history has not moved. -/
theorem Run.eq_of_nil {s t : σ} {es : List ε} (h : Run step s es t)
    (hes : es = []) : s = t := by
  cases h with
  | nil => rfl
  | snoc _ _ => simp at hes

/-- The last step of a run. -/
theorem Run.of_snoc {s u : σ} {es : List ε} {e : ε}
    (h : Run step s (es ++ [e]) u) : ∃ t, Run step s es t ∧ step t e u := by
  generalize hfs : es ++ [e] = fs at h
  cases h with
  | nil => simp at hfs
  | @snoc t _ es' e' hrun hstep =>
    obtain ⟨rfl, h'⟩ := List.append_inj' hfs rfl
    obtain rfl := List.singleton_inj.mp h'
    exact ⟨t, hrun, hstep⟩

/-- A run can be cut anywhere. -/
theorem Run.split {s u : σ} {es fs : List ε} (h : Run step s (es ++ fs) u) :
    ∃ t, Run step s es t ∧ Run step t fs u := by
  induction fs using List.reverseRecOn generalizing u with
  | nil => exact ⟨u, by simpa using h, .nil u⟩
  | append_singleton fs e ih =>
    rw [← List.append_assoc] at h
    obtain ⟨v, hv, hstep⟩ := h.of_snoc
    obtain ⟨t, h₁, h₂⟩ := ih hv
    exact ⟨t, h₁, .snoc h₂ hstep⟩

/-- The first step of a run. -/
theorem Run.of_cons {s u : σ} {e : ε} {es : List ε} (h : Run step s (e :: es) u) :
    ∃ t, step s e t ∧ Run step t es u := by
  have hcut : Run step s ([e] ++ es) u := h
  obtain ⟨t, hfirst, hrest⟩ := hcut.split
  have hsingle : Run step s ([] ++ [e]) t := hfirst
  obtain ⟨s', hs', hstep⟩ := hsingle.of_snoc
  obtain rfl := hs'.eq_of_nil rfl
  exact ⟨t, hstep, hrest⟩

/-- Where the label determines the step, the history determines the run. -/
theorem Run.unique (h : ∀ s e t t', step s e t → step s e t' → t = t')
    {s t t' : σ} {es : List ε} (hrun : Run step s es t)
    (hrun' : Run step s es t') : t = t' := by
  induction hrun generalizing t' with
  | nil => exact hrun'.eq_of_nil rfl
  | snoc _ hstep ih =>
    obtain ⟨v, hv, hstep'⟩ := hrun'.of_snoc
    obtain rfl := ih hv
    exact h _ _ _ _ hstep hstep'

/-! ## Induction rules -/

/-- A property of the state that every step keeps holds at the end of a run
from where it holds. -/
theorem Run.invariant {P : σ → Prop}
    (hstep : ∀ s e t, P s → step s e t → P t) {s t : σ} {es : List ε}
    (hrun : Run step s es t) (hs : P s) : P t := by
  induction hrun with
  | nil => exact hs
  | snoc _ h ih => exact hstep _ _ _ ih h

/-- A property that holds at every moment of a run, exactly when every step
meets a condition: the condition keeps the invariant `Q`, which gives the
property, and a step from the invariant that does not meet it breaks the
property. -/
theorem Run.always_iff {P Q : σ → Prop} {cond : σ → ε → Prop}
    (hunique : ∀ s e t t', step s e t → step s e t' → t = t')
    (hQ : ∀ s, Q s → P s)
    (hkeep : ∀ s e t, Q s → step s e t → cond s e → Q t)
    (hbreak : ∀ s e t, Q s → step s e t → P t → cond s e)
    {s t : σ} {es : List ε} (hs : Q s) (hrun : Run step s es t) :
    (∀ fs u, fs <+: es → Run step s fs u → P u) ↔
      Run (Guarded step cond) s es t := by
  have hinvariant : ∀ {fs u}, Run (Guarded step cond) s fs u → Q u :=
    fun h => h.invariant (fun s e t hq hstep => hkeep s e t hq hstep.1 hstep.2) hs
  constructor
  · intro halways
    induction hrun with
    | nil => exact .nil _
    | @snoc t u es e hrun hstep ih =>
      have hguarded := ih fun fs v hfs => halways fs v
        (hfs.trans (List.prefix_append _ _))
      have hP := halways _ u List.prefix_rfl (.snoc hrun hstep)
      exact .snoc hguarded
        ⟨hstep, hbreak _ _ _ (hinvariant hguarded) hstep hP⟩
  · rintro hguarded fs u ⟨gs, rfl⟩ hfs
    obtain ⟨v, hv, -⟩ := hguarded.split
    obtain rfl := hfs.unique hunique (hv.mono fun _ _ _ h => h.1)
    exact hQ _ (hinvariant hv)

/-- A relation between history and state that every step of the run keeps
holds at its end. -/
theorem Run.history {P : List ε → σ → Prop} {s t : σ} {fs : List ε}
    (hrun : Run step s fs t) (hs : P [] s)
    (hstep : ∀ es t e u, es ++ [e] <+: fs → P es t → step t e u →
      P (es ++ [e]) u) : P fs t := by
  induction hrun with
  | nil => exact hs
  | snoc _ h ih =>
    refine hstep _ _ _ _ (List.prefix_refl _) (ih ?_) h
    intro es t e u hpre
    exact hstep es t e u (hpre.trans (List.prefix_append _ _))

/-- Labels that never clash: `P` holds along the run, and a label that a step
adds is related to every label that `P` allows in the history. -/
theorem Run.pairwise {P : List ε → σ → Prop} {R : ε → ε → Prop} {s t : σ}
    {fs : List ε} (hrun : Run step s fs t) (hs : P [] s)
    (hstep : ∀ es t e u, es ++ [e] <+: fs → P es t → step t e u →
      P (es ++ [e]) u)
    (hclash : ∀ es t e u, es ++ [e] <+: fs → P es t → step t e u →
      ∀ e' ∈ es, R e' e) : fs.Pairwise R := by
  induction hrun with
  | nil => exact .nil
  | @snoc t _ es e hrun h ih =>
    have hpre : ∀ {gs : List ε}, gs <+: es → gs <+: es ++ [e] := fun hgs =>
      hgs.trans (List.prefix_append _ _)
    have hes := ih (fun gs t f u h => hstep gs t f u (hpre h))
      (fun gs t f u h => hclash gs t f u (hpre h))
    have hP := hrun.history hs fun gs t f u h => hstep gs t f u (hpre h)
    refine List.pairwise_append.mpr ⟨hes, List.pairwise_singleton R _, ?_⟩
    intro e' he' f hf
    obtain rfl := List.mem_singleton.mp hf
    exact hclash _ _ _ _ (List.prefix_refl _) hP h e' he'

/-! ## Labels that occur once -/

/-- At most one of the labels of a history satisfies `P`. -/
def AtMostOne (P : ε → Prop) (es : List ε) : Prop :=
  es.Pairwise fun e e' => ¬(P e ∧ P e')

theorem atMostOne_congr {P Q : ε → Prop} {es : List ε} (h : ∀ e ∈ es, P e ↔ Q e) :
    AtMostOne P es ↔ AtMostOne Q es := by
  refine List.Pairwise.iff_of_mem fun {e e'} he he' => ?_
  rw [h e he, h e' he']

end NewZone.Runs
