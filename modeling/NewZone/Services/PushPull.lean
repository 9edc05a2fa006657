import NewZone.Crypto.BodyBinding
import NewZone.Services.ReplicationServer
import NewZone.Services.UnchangedMerge

/-!
# Push and pull

A node sends its data to its peers, and asks for theirs.  Both are to bring the
receiver to the same data.  But what `pushToPeer` sends is not signed, so the
peer does not merge it: the two agree where a merge has nothing to do.
-/

namespace NewZone.Services.Replication

open NewZone.Js NewZone.ExceptBind NewZone.Window NewZone.Crypto
open NewZone.Crypto.SignedPacket (Coercions knownCoercions)
open NewZone.Runs

/-- The events and the rules are arrays with numeric time stamps. -/
structure WellFormedData (L : LocalData) where
  events : List Json
  rules : List Json
  events_eq : L.events = .arr events
  rules_eq : L.rules = .arr rules
  timed_events : ∀ e ∈ events, Timed e
  timed_rules : ∀ r ∈ rules, Timed r

/-- What `A` has is nothing new to `B`: the entries of its state lose against
those of `B` or are there, its events are too old to be kept, or they come to
those of `B` when the log is full, and its rules are not newer.  The events
count if all entries of the state can be compared, and the rules if all of them
have names. -/
def NothingNew (engine : Engine) {A B : LocalData} (hA : WellFormedData A)
    (hB : WellFormedData B) : Prop :=
  Unmoved engine B.state A.state.members ∧
    ((∀ e ∈ A.state.members,
        (wins engine (B.state.lookup e.1) e.2).isOk = true) →
      Closed ts MAX_EVENTS hB.events hA.events ∧
        ((∀ r ∈ hB.rules ++ hA.rules, ∃ key, ruleKey engine r = .ok key) →
          RulesStand engine hB.rules hA.rules))

/-- A node keeps its data when it merges that of another, exactly when there is
nothing new. -/
theorem mergeData_eq_self_iff (engine : Engine) {A B : LocalData}
    (hA : WellFormedData A) (hB : WellFormedData B) :
    (mergeData engine B (dumpData A)).1 = B ↔ NothingNew engine hA hB := by
  have hrules := List.forall_mem_append.mpr ⟨hB.timed_rules, hA.timed_rules⟩
  have hmoved := @mergeState_eq_self_iff engine B.state _ A.state.nodup
  have hreturns := mergeState_returns_iff engine B.state A.state.nodup
  have hnamed := @mergeRules_timed_returns_iff engine _ _ hrules
  have hevents := @mergeEvents_timed engine (.arr hB.events) _ rfl
    hB.timed_events _ hA.timed_events
  have hstate : property (dumpData A) "state"
      = .ok (some (.obj A.state.members)) := rfl
  have hnew : Json.field (dumpData A) "events" = some (.arr hA.events) :=
    congrArg some hA.events_eq
  have hnewRules : Json.field (dumpData A) "rules" = some (.arr hA.rules) :=
    congrArg some hA.rules_eq
  rw [NothingNew, ← hmoved, ← hreturns, ← hnamed,
    ← window_append_eq_left_iff MAX_EVENTS hB.events hA.events]
  rw [mergeData, hstate, hnew, hnewRules, hB.events_eq, hB.rules_eq, hevents]
  dsimp only [enumerate]
  generalize mergeState engine B.state A.state.members = loop
  obtain ⟨state, thrown⟩ := loop
  have hdata : ∀ {state : PlainObject Json} {events rules : Json},
      ({ state, events, rules } : LocalData) = B ↔
        state = B.state ∧ events = .arr hB.events ∧ rules = .arr hB.rules := by
    intro state events rules
    rw [LocalData.ext_iff, hB.events_eq, hB.rules_eq]
  cases thrown with
  | some e =>
    -- the state loop throws
    simp [hdata]
  | none =>
    dsimp only
    cases hmerge : mergeRules engine (.arr hB.rules) (some (.arr hA.rules)) with
    | error e =>
      simp [hdata]
    | ok rules' =>
      simp [hdata, mergeRules_eq_self_iff hB.timed_rules hA.timed_rules hmerge]

/-- **When push and pull agree.**  A push leaves the peer with what a pull would
have brought it, exactly when there is nothing new to the peer. -/
theorem push_eq_pull_iff (engine : Engine) (node : NodeSign) (coerce : Coercions)
    (ctxA ctxB : Context) {A B : LocalData} (hA : WellFormedData A)
    (hB : WellFormedData B) :
    (handle engine node coerce ctxB B (pushToPeer A)).1
        = pullFromPeer engine B (handle engine node coerce ctxA A dumpRequest).2 ↔
      NothingNew engine hA hB := by
  rw [handle_pushToPeer, pullFromPeer_handle, eq_comm]
  exact mergeData_eq_self_iff engine hA hB

/-! ## A pair of nodes -/

/-- A dump with one entry of the state and one rule. -/
def entryDump : Dump where
  json := knownDump []
  nodup := by
    intro state h
    obtain rfl := Json.obj.inj (Option.some.inj h)
    exact List.nodup_singleton _

def newContext : Context := { knownNodes := .empty, clock := 0 }

/-- A node that has merged that dump. -/
def knownReplica : Replica :=
  { data := (mergeData .plain .initial entryDump.json).1, refreshes := [] }

def knownRule : Json := .obj [(js "id", .str (js "r")), (js "ts", .num (.ofNat 1))]

theorem events_knownReplica : knownReplica.data.events = .arr [] := by decide +kernel

theorem rules_knownReplica : knownReplica.data.rules = .arr [knownRule] := by decide +kernel

def knownWellFormed : WellFormedData knownReplica.data where
  events := []
  rules := [knownRule]
  events_eq := events_knownReplica
  rules_eq := rules_knownReplica
  timed_events := fun _ he => absurd he List.not_mem_nil
  timed_rules := List.forall_mem_singleton.mpr rfl

/-- Two nodes that have merged the same dump have nothing new for each other. -/
theorem push_eq_pull_known :
    (handle .plain (Tabulated.sign [] []) knownCoercions newContext knownReplica.data
        (pushToPeer knownReplica.data)).1
      = pullFromPeer .plain knownReplica.data
          (handle .plain (Tabulated.sign [] []) knownCoercions newContext knownReplica.data
            dumpRequest).2 := by
  refine (push_eq_pull_iff .plain _ _ newContext newContext knownWellFormed
    knownWellFormed).mpr ?_
  refine (mergeData_eq_self_iff .plain knownWellFormed knownWellFormed).mp ?_
  exact LocalData.ext (PlainObject.ext (by decide +kernel)) (by decide +kernel)
    (by decide +kernel)

/-- A new node gets the entry when it pulls, and nothing when it is pushed. -/
theorem push_brings_nothing :
    Run (Step .plain) .initial [.merge entryDump] knownReplica ∧
    Nonempty (WellFormedData knownReplica.data) ∧
    Nonempty (WellFormedData Replica.initial.data) ∧
    (handle .plain (Tabulated.sign [] []) knownCoercions newContext
        Replica.initial.data (pushToPeer knownReplica.data)).1
      ≠ pullFromPeer .plain Replica.initial.data
          (handle .plain (Tabulated.sign [] []) knownCoercions newContext
            knownReplica.data dumpRequest).2 := by
  refine ⟨.single rfl, ⟨knownWellFormed⟩, ⟨[], [], rfl, rfl, by simp, by simp⟩, ?_⟩
  rw [handle_pushToPeer, pullFromPeer_handle]
  intro h
  have hget := congrArg (fun L => L.state.get (js "k")) h
  exact absurd hget (by decide +kernel)

end NewZone.Services.Replication
