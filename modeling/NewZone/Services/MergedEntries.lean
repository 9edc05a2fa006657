import Mathlib.Logic.Function.Basic
import NewZone.Services.AcceptedEntries
import NewZone.Services.RefreshAnswers

/-!
# What becomes of a merged entry

An entry that `mergeData` has accepted should stay in the state until a newer
one for its key replaces it.  `Tracked` follows the accepted entries of a run
beside the node, together with what each refresh has been answered, and `Kept`
says that the node still has them.

Two actions can break it.  A refresh that has an answer for each of its keys
replaces the whole state by these answers, whatever was merged in the meantime
or before.  And an entry that is falsy counts as missing, so that any entry
replaces it.  `entries_kept_iff` says that nothing else can.
-/

namespace NewZone.Services.Replication

open NewZone.Js NewZone.Runs

/-! ## Accepted entries -/

/-- The entries that an action of the node accepts. -/
def acceptedBy (engine : Engine) (r : Replica) : Action → List (JsString × Json)
  | .merge incoming => accepted engine r.data.state incoming.entries
  | _ => []

/-- A node, with the entry that has been accepted for each key, unless a newer
one has replaced it, and with the answers that each refresh has been given. -/
structure Tracked extends Replica where
  held : JsString → Option Json
  answers : ℕ → List Answer

/-- A node that is not refreshing. -/
def Tracked.start (L : LocalData) : Tracked :=
  { data := L, refreshes := [], held := fun _ => none, answers := fun _ => [] }

/-- The accepted entry of a key after an action.  It changes only when the
entry in the state does, and then to a newer one. -/
def track (engine : Engine) (held : JsString → Option Json)
    (state : PlainObject Json) (new : List (JsString × Json)) (key : JsString) :
    Option Json :=
  match held key with
  | none => getProp key new.reverse
  | some e =>
    if state.get key = some e then some e
    else if (state.get key).any fun e' => isNewer engine e' e then
      getProp key new.reverse
    else some e

def hear (answers : ℕ → List Answer) : Action → ℕ → List Answer
  | .resume i answer => Function.update answers i (answers i ++ [answer])
  | _ => answers

def Tracked.after (engine : Engine) (t : Tracked) (a : Action) :
    Option Tracked :=
  (t.toReplica.after engine a).map fun r =>
    { toReplica := r
      held := track engine t.held r.data.state (acceptedBy engine t.toReplica a)
      answers := hear t.answers a }

def TrackedStep (engine : Engine) (t : Tracked) (a : Action) (t' : Tracked) :
    Prop :=
  t.after engine a = some t'

/-- Every accepted entry is in the state. -/
def Kept (t : Tracked) : Prop :=
  ∀ key e, t.held key = some e → t.data.state.get key = some e

theorem trackedStep_unique {engine : Engine} (t : Tracked) (a : Action)
    (u v : Tracked) (hu : TrackedStep engine t a u)
    (hv : TrackedStep engine t a v) : u = v :=
  Option.some.inj (hu.symm.trans hv)

/-- A tracked step is a step of the node. -/
theorem TrackedStep.replica {engine : Engine} {t t' : Tracked} {a : Action}
    (h : TrackedStep engine t a t') :
    Step engine t.toReplica a t'.toReplica ∧
      t'.held = track engine t.held t'.data.state
        (acceptedBy engine t.toReplica a) ∧
      t'.answers = hear t.answers a := by
  obtain ⟨r, hr, rfl⟩ := Option.map_eq_some_iff.mp h
  exact ⟨hr, rfl, rfl⟩

/-! ## Answers -/

/-- Every refresh agrees with its answers.  One that has not been started waits
for its keys, as one that has just been. -/
def Heard (t : Tracked) : Prop :=
  ∀ i, (t.refreshes[i]?.getD Refresh.keys).Heard (t.answers i)

theorem heard_start (L : LocalData) : Heard (.start L) := fun _ => rfl

theorem heard_step {engine : Engine} {t t' : Tracked} {a : Action} (ht : Heard t)
    (h : TrackedStep engine t a t') : Heard t' := by
  obtain ⟨hstep, -, hanswers⟩ := h.replica
  intro i
  have hi := ht i
  rw [hanswers]
  cases a with
  | merge incoming =>
    have hdata := Option.some.inj hstep
    rw [← hdata]
    exact hi
  | start =>
    have hdata := Option.some.inj hstep
    rw [← hdata]
    show ((t.refreshes ++ [.keys])[i]?.getD Refresh.keys).Heard (t.answers i)
    rw [List.getElem?_append]
    split_ifs with hlt
    · exact hi
    · rw [List.getElem?_eq_none (not_lt.mp hlt)] at hi
      cases i - t.refreshes.length <;> exact hi
  | resume j answer =>
    obtain ⟨refresh, data, refresh', hrefresh, hresume, hdata⟩ := step_resume hstep
    rw [hdata]
    show ((t.refreshes.set j refresh')[i]?.getD Refresh.keys).Heard
      (Function.update t.answers j _ i)
    by_cases hij : i = j
    · subst hij
      rw [hrefresh] at hi
      have hlt := (List.getElem?_eq_some_iff.mp hrefresh).1
      rw [List.getElem?_set_self hlt, Function.update_self]
      exact (hi.resume hresume).1
    · rw [List.getElem?_set_ne (Ne.symm hij), Function.update_of_ne hij]
      exact hi

/-! ## What an action leaves in the state -/

/-- What an action leaves under a key: the accepted entry over what was there
before, or what a refresh has been answered. -/
def Tracked.leaves (engine : Engine) (t : Tracked) (key : JsString) :
    Action → Option Json
  | .merge incoming =>
    (getProp key (accepted engine t.data.state incoming.entries).reverse).or
      (t.data.state.get key)
  | .start => t.data.state.get key
  | .resume i answer => saved t.data.state (t.answers i ++ [answer]) key

theorem get_after {engine : Engine} {t t' : Tracked} {a : Action} (ht : Heard t)
    (h : TrackedStep engine t a t') (key : JsString) :
    t'.data.state.get key = t.leaves engine key a := by
  obtain ⟨hstep, -, -⟩ := h.replica
  cases a with
  | merge incoming =>
    rw [← Option.some.inj hstep]
    show (mergeData engine t.data incoming.json).1.state.get key = _
    rw [state_mergeData_eq]
    exact get_mergeState engine t.data.state incoming.entries key
  | start =>
    rw [← Option.some.inj hstep]
    rfl
  | resume i answer =>
    obtain ⟨refresh, data, refresh', hrefresh, hresume, hdata⟩ := step_resume hstep
    have hi := ht i
    rw [hrefresh] at hi
    rw [hdata]
    exact (hi.resume hresume).2 key

/-! ## When accepted entries are kept -/

/-- There is something in the place of the entry: the entry or a newer one. -/
def Covers (engine : Engine) (e : Json) (new : Option Json) : Prop :=
  ∃ e', new = some e' ∧ (e' = e ∨ isNewer engine e' e = true)

/-- The condition under which an action keeps the accepted entries.  What a
merge brings for the key of a falsy one is equal or newer, as far as the loop
gets.  The answers that complete a refresh have an equal or newer entry for the
key of each. -/
def Keeps (engine : Engine) (t : Tracked) : Action → Prop
  | .merge incoming => ∀ key e, t.held key = some e → e.truthy = false →
      ∀ r, (key, r) ∈ reached engine t.data.state incoming.entries →
        r = e ∨ isNewer engine r e = true
  | .start => True
  | .resume i answer => ∀ pairs, fetched (t.answers i ++ [answer]) = some pairs →
      ∀ key e, t.held key = some e → Covers engine e (getProp key pairs.reverse)

/-- Accepted entries are kept if each is covered by what comes in its place. -/
theorem kept_iff_covers {engine : Engine} {t t' : Tracked} {a : Action}
    (hheard : Heard t) (h : TrackedStep engine t a t') :
    Kept t' ↔ ∀ key e, t.held key = some e →
      Covers engine e (t.leaves engine key a) := by
  obtain ⟨-, hheld, -⟩ := h.replica
  have hget := get_after hheard h
  constructor
  · intro ht' key e he
    by_contra hnot
    -- an entry that is not covered is still held, but not in the state
    have hne : t'.data.state.get key ≠ some e := by
      intro hsame
      exact hnot ⟨e, (hget key).symm.trans hsame, Or.inl rfl⟩
    refine hne (ht' key e ?_)
    rw [hheld, track, he]
    dsimp only
    rw [if_neg hne, if_neg]
    intro hany
    obtain ⟨e', he', hnew⟩ := (Option.any_eq_true _ _).mp hany
    exact hnot ⟨e', (hget key).symm.trans he', Or.inr hnew⟩
  · intro hcovers key x hx
    rw [hheld, track] at hx
    -- what is newly held has been accepted, and so is in the state
    have hnew : getProp key (acceptedBy engine t.toReplica a).reverse = some x →
        t'.data.state.get key = some x := by
      intro hx
      rw [hget]
      cases a with
      | merge incoming =>
        rw [acceptedBy] at hx
        rw [Tracked.leaves, hx]
        rfl
      | _ => cases hx
    cases he : t.held key with
    | none =>
      rw [he] at hx
      exact hnew hx
    | some e =>
      rw [he] at hx
      dsimp only at hx
      obtain ⟨e', he', hcover⟩ := hcovers key e he
      have hstate := (hget key).trans he'
      split_ifs at hx with hsame hany
      · exact hsame.trans hx
      · exact hnew hx
      · rcases hcover with rfl | hcover
        · exact absurd hstate hsame
        · exact absurd ((Option.any_eq_true _ _).mpr
              ⟨e', hstate, hcover⟩) hany

/-- A merge covers a truthy entry in any case, and a falsy one if what it has
for its key does. -/
theorem covers_merge_iff {engine : Engine} {t : Tracked} {incoming : Dump}
    {key : JsString} {e : Json} (hstate : t.data.state.get key = some e) :
    Covers engine e (t.leaves engine key (.merge incoming)) ↔
      (e.truthy = false →
        ∀ r, (key, r) ∈ reached engine t.data.state incoming.entries →
          r = e ∨ isNewer engine r e = true) := by
  have hnodup := incoming.nodupKeys_entries
  rw [Tracked.leaves, hstate]
  cases htruthy : e.truthy with
  | true =>
    refine iff_of_true ?_ fun h => absurd h (by simp)
    cases hr : getProp key
      (accepted engine t.data.state incoming.entries).reverse with
    | none => exact ⟨e, rfl, Or.inl rfl⟩
    | some r => exact ⟨r, rfl, Or.inr (isNewer_of_accepted hnodup hstate htruthy hr)⟩
  | false =>
    have hiff := fun r => @getProp_accepted_of_falsy engine _ _ hnodup key e r
      hstate htruthy
    simp only [forall_const, ← hiff]
    cases getProp key (accepted engine t.data.state incoming.entries).reverse with
    | none => simp [Covers]
    | some r => simp [Covers]

/-- **What one action keeps.**  An action that finds all accepted entries in
the state leaves them there exactly when it meets the condition. -/
theorem kept_step_iff {engine : Engine} {t t' : Tracked} {a : Action}
    (hheard : Heard t) (ht : Kept t) (h : TrackedStep engine t a t') :
    Kept t' ↔ Keeps engine t a := by
  rw [kept_iff_covers hheard h]
  cases a with
  | merge incoming =>
    exact forall_congr' fun key => forall_congr' fun e => forall_congr' fun he =>
      covers_merge_iff (ht key e he)
  | start =>
    refine iff_of_true (fun key e he => ?_) trivial
    exact ⟨e, ht key e he, Or.inl rfl⟩
  | resume i answer =>
    simp only [Keeps, Tracked.leaves, saved]
    cases fetched (t.answers i ++ [answer]) with
    | none => simpa using fun key e he => ⟨e, ht key e he, Or.inl rfl⟩
    | some pairs => simp

/-! ## Runs -/

theorem kept_start (L : LocalData) : Kept (.start L) :=
  fun _ _ h => absurd h (by simp [Tracked.start])

/-- **When merged entries are kept.**  In a run from any data, every accepted
entry stays in the state until a newer one replaces it, at every moment of the
run, exactly when every action of the run meets the condition. -/
theorem entries_kept_iff {engine : Engine} {L : LocalData} {as : List Action}
    {t : Tracked} (hrun : Run (TrackedStep engine) (.start L) as t) :
    (∀ bs u, bs <+: as → Run (TrackedStep engine) (.start L) bs u → Kept u) ↔
      Run (Guarded (TrackedStep engine) (Keeps engine)) (.start L) as t := by
  refine Run.always_iff (Q := fun t => Heard t ∧ Kept t) trackedStep_unique
    (fun t h => h.2) ?_ ?_ ⟨heard_start L, kept_start L⟩ hrun
  · rintro t a t' ⟨hheard, ht⟩ hstep hkeeps
    exact ⟨heard_step hheard hstep, (kept_step_iff hheard ht hstep).mpr hkeeps⟩
  · rintro t a t' ⟨hheard, ht⟩ hstep ht'
    exact (kept_step_iff hheard ht hstep).mp ht'

/-! ## Known runs -/

def mergedEntry : Json :=
  .obj [(js "value", .bool true), (js "ts", .num (.ofNat 5))]

/-- A dump with that entry. -/
def mergedDump : Dump where
  json := .obj [(js "state", .obj [(js "k", mergedEntry)]), (js "events", .arr []),
    (js "rules", .arr [])]
  nodup := by
    intro state h
    obtain rfl := Json.obj.inj (Option.some.inj h)
    exact List.nodup_singleton _

def noKeys : KeyList := ⟨[], List.not_mem_nil⟩

def mergedKeys : KeyList := ⟨[js "k"], by decide⟩

/-- What is not accepted is not held. -/
theorem TrackedStep.held_eq_none {engine : Engine} {t t' : Tracked} {a : Action} {key : JsString}
    (h : TrackedStep engine t a t') (hheld : t.held key = none)
    (hnew : getProp key (acceptedBy engine t.toReplica a).reverse = none) :
    t'.held key = none := by
  rw [h.replica.2.1]
  unfold track
  rw [hheld]
  exact hnew

/-- The entry is merged, and a refresh that finds it at the state server keeps it. -/
theorem entries_kept_known :
    ∃ t, Run (TrackedStep .plain) (.start .initial)
        [.merge mergedDump, .start, .resume 0 (.keys mergedKeys), .resume 0 (.json mergedEntry)]
        t ∧
      t.held (js "k") = some mergedEntry ∧ Kept t := by
  let next := fun (t : Tracked) a => (t.after .plain a).getD t
  let merged := next (.start .initial) (.merge mergedDump)
  let started := next merged .start
  let asked := next started (.resume 0 (.keys mergedKeys))
  let refreshed := next asked (.resume 0 (.json mergedEntry))
  have hmerge : TrackedStep .plain (.start .initial) (.merge mergedDump) merged := rfl
  have hstart : TrackedStep .plain merged .start started := rfl
  have hkeys : TrackedStep .plain started (.resume 0 (.keys mergedKeys)) asked := rfl
  have hvalue : TrackedStep .plain asked (.resume 0 (.json mergedEntry)) refreshed := rfl
  have hrun := Run.cons hmerge (.cons hstart (.cons hkeys (.single hvalue)))
  refine ⟨refreshed, hrun, by decide +kernel, ?_⟩
  refine (entries_kept_iff hrun).mpr ?_ _ _ (List.prefix_refl _) hrun
  refine .cons ⟨hmerge, ?_⟩ (.cons ⟨hstart, trivial⟩ (.cons ⟨hkeys, ?_⟩ (.single ⟨hvalue, ?_⟩)))
  · intro key e he
    cases he
  · intro pairs hpairs
    cases hpairs
  · intro pairs hpairs key e he
    obtain rfl := Option.some.inj hpairs
    by_cases hkey : key = js "k"
    · subst hkey
      have hheld : asked.held (js "k") = some mergedEntry := by decide +kernel
      obtain rfl := Option.some.inj (hheld.symm.trans he)
      exact ⟨_, rfl, .inl rfl⟩
    · have hnew : acceptedBy .plain (Tracked.start .initial).toReplica (.merge mergedDump)
          = [(js "k", mergedEntry)] := by decide +kernel
      have hnone := hmerge.held_eq_none rfl
        (by rw [hnew]; exact getProp_eq_none_iff.mpr (by simpa using hkey))
      have hnone := hkeys.held_eq_none (hstart.held_eq_none hnone rfl) rfl
      cases hnone.symm.trans he

/-- The entry is merged, and a refresh that finds no keys at the state server
removes it. -/
theorem entry_lost :
    ∃ t, Run (TrackedStep .plain) (.start .initial)
        [.merge mergedDump, .start, .resume 0 (.keys noKeys)] t ∧
      t.held (js "k") = some mergedEntry ∧ t.data.state.get (js "k") = none ∧
      ¬ Kept t := by
  have hrun : Run (TrackedStep .plain) (.start .initial)
      ([] ++ [.merge mergedDump] ++ [.start] ++ [.resume 0 (.keys noKeys)]) _ :=
    .snoc (.snoc (.snoc (.nil _) rfl) rfl) rfl
  refine ⟨_, hrun, by decide +kernel, by decide +kernel, fun h => ?_⟩
  have hk := h (js "k") mergedEntry (by decide +kernel)
  exact absurd hk (by decide +kernel)

end NewZone.Services.Replication
