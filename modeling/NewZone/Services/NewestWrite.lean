import NewZone.Services.AcceptedEntries
import NewZone.Services.Snapshot
import NewZone.Services.StateStore

/-!
# A write on each of two nodes

A key is set on the state services of two nodes, both replication nodes refresh
their snapshots, and the first one merges the dump of the second.  The later
write should win.  But the state server answers `GET /get/<key>` without the
time stamp, so the snapshots have none either, and `mergeData` keeps what it
has.  `newest_write_iff` says what the first node ends up with.

Which request the server sees for a key is a matter of the URL parser of
`fetch`, which is the parameter `target`: the request target for
`http://state-service:3011/get/${key}`.
-/

namespace NewZone.Services.Replication

open NewZone.Js NewZone.Js.Json NewZone.Runs NewZone.Services.State

/-! ## A refresh without interruption -/

def keyList (STATE : Store) : KeyList :=
  ⟨listKeys STATE, proto_not_mem_listKeys STATE⟩

/-- The answer of a service, or its failure. -/
def answerOf : Option Json → Answer
  | some v => .json v
  | none => .failed

/-- A refresh against a state server, from its start to its end: the `i`-th of
the node. -/
def refreshActions (i : ℕ) (STATE : Store) (target : JsString → JsString)
    (events rules : Option Json) : List Action :=
  [.start, .resume i (.keys (keyList STATE))]
    ++ (listKeys STATE).map (fun key =>
      .resume i (.json (respond STATE (target key))))
    ++ [.resume i (answerOf events), .resume i (answerOf rules)]

/-- What it saves as the state. -/
def snapshot (STATE : Store) (target : JsString → JsString) : PlainObject Json :=
  (listKeys STATE).foldl
    (fun newState key => newState.set key (respond STATE (target key))) .empty

variable {engine : Engine}

theorem step_last {data : LocalData} {refreshes : List Refresh}
    {refresh refresh' : Refresh} {answer : Answer} {data' : LocalData}
    (h : refresh.resume data answer = some (data', refresh')) :
    Step engine { data, refreshes := refreshes ++ [refresh] }
      (.resume refreshes.length answer)
      { data := data', refreshes := refreshes ++ [refresh'] } := by
  simp [Step, Replica.after, h]

/-- The answers for the keys, one after the other. -/
theorem run_values (data : LocalData) (refreshes : List Refresh)
    (get : JsString → Json) (keys : List JsString) (newState : PlainObject Json) :
    Run (Step engine)
      { data := (nextKey data newState keys).1
        refreshes := refreshes ++ [(nextKey data newState keys).2] }
      (keys.map fun key => .resume refreshes.length (.json (get key)))
      { data := { data with
          state := keys.foldl (fun new key => new.set key (get key)) newState }
        refreshes := refreshes ++ [.events] } := by
  induction keys generalizing newState with
  | nil => exact .nil _
  | cons key rest ih => exact .cons (step_last rfl) (ih (newState.set key (get key)))

/-- A refresh can run without interruption, and saves the snapshot. -/
theorem exists_refresh (r : Replica) (STATE : Store)
    (target : JsString → JsString) (events rules : Option Json) :
    ∃ r', Run (Step engine) r
        (refreshActions r.refreshes.length STATE target events rules) r' ∧
      r'.data.state = snapshot STATE target := by
  have hstart : Step engine r .start
      { data := r.data, refreshes := r.refreshes ++ [.keys] } := rfl
  have hkeys : Step engine _ (.resume r.refreshes.length (.keys (keyList STATE))) _ :=
    @step_last engine r.data r.refreshes .keys _ _ _ rfl
  have hvalues := @run_values engine r.data r.refreshes
    (fun key => respond STATE (target key)) (listKeys STATE) .empty
  -- whatever the other services answer, the state stays
  obtain ⟨data₁, hevents, hstate₁⟩ : ∃ data₁, Step engine
      { data := { r.data with state := snapshot STATE target }
        refreshes := r.refreshes ++ [.events] }
      (.resume r.refreshes.length (answerOf events))
      { data := data₁, refreshes := r.refreshes ++ [.rules] } ∧
      data₁.state = snapshot STATE target := by
    cases events with
    | none => exact ⟨_, step_last rfl, rfl⟩
    | some v => exact ⟨_, step_last rfl, rfl⟩
  obtain ⟨data₂, hrules, hstate₂⟩ : ∃ data₂, Step engine
      { data := data₁, refreshes := r.refreshes ++ [.rules] }
      (.resume r.refreshes.length (answerOf rules))
      { data := data₂, refreshes := r.refreshes ++ [.done] } ∧
      data₂.state = data₁.state := by
    cases rules with
    | none => exact ⟨_, step_last rfl, rfl⟩
    | some v => exact ⟨_, step_last rfl, rfl⟩
  have hrun := ((Run.cons hstart (Run.single hkeys)).append hvalues).append
    (Run.cons hevents (Run.single hrules))
  exact ⟨_, hrun, hstate₂.trans hstate₁⟩

theorem state_of_refresh {r r' : Replica} {STATE : Store}
    {target : JsString → JsString} {events rules : Option Json}
    (h : Run (Step engine) r
      (refreshActions r.refreshes.length STATE target events rules) r') :
    r'.data.state = snapshot STATE target := by
  obtain ⟨s, hs, hstate⟩ := @exists_refresh engine r STATE target events rules
  rw [h.unique step_unique hs, hstate]

theorem get_snapshot (STATE : Store) (target : JsString → JsString)
    (key : JsString) :
    (snapshot STATE target).get key
      = if key ∈ listKeys STATE then some (respond STATE (target key))
        else none := by
  have hfold : ∀ (keys : List JsString) (newState : PlainObject Json),
      (keys.foldl (fun new k => new.set k (respond STATE (target k)))
        newState).get key
        = if key ∈ keys then some (respond STATE (target key))
          else newState.get key := by
    intro keys
    induction keys with
    | nil => exact fun newState => rfl
    | cons k keys ih =>
      intro newState
      rw [List.foldl_cons, ih, PlainObject.get_set]
      by_cases hk : k = key
      · subst hk
        simp
      · simp [hk, Ne.symm hk]
  exact hfold (listKeys STATE) .empty

/-! ## The merge -/

/-- The state of the node has the value `w` under the key. -/
def Carries (L : LocalData) (key : JsString) (w : Json) : Prop :=
  ∃ e, L.state.get key = some e ∧ (field e "value").map sorted = some w.sorted

/-- A snapshot that has a key keeps its entry when it merges another one. -/
theorem get_merge_snapshots {A B : LocalData} {STATE STATE' : Store}
    {target : JsString → JsString} (hA : A.state = snapshot STATE target)
    (hB : B.state = snapshot STATE' target) {key : JsString}
    (hkey : key ∈ listKeys STATE) :
    (mergeData engine A (dumpData B)).1.state.get key
      = some (respond STATE (target key)) := by
  have hget : A.state.get key = some (respond STATE (target key)) := by
    rw [hA, get_snapshot, if_pos hkey]
  rw [state_mergeData_eq]
  show (mergeState engine A.state B.state.members).1.get key = _
  rw [get_mergeState]
  cases hr : getProp key (accepted engine A.state B.state.members).reverse with
  | none => exact hget
  | some r =>
    -- an accepted entry would be newer, but answers carry no time stamps
    exfalso
    have hnew := isNewer_of_accepted B.state.nodup hget (truthy_respond _ _) hr
    have hmem : (key, r) ∈ B.state.members :=
      (accepted_sublist engine _ B.state.nodup).subset
        (List.mem_reverse.mp (mem_of_getProp hr))
    have hrB := PlainObject.get_eq_some_iff.mpr hmem
    rw [hB, get_snapshot] at hrB
    split_ifs at hrB
    rw [isNewer, ← Option.some.inj hrB, field_respond_ts, field_respond_ts] at hnew
    cases hnew

/-- A key that neither snapshot has stays away. -/
theorem get_merge_snapshots_of_notMem {A B : LocalData} {STATE STATE' : Store}
    {target : JsString → JsString} (hA : A.state = snapshot STATE target)
    (hB : B.state = snapshot STATE' target) {key : JsString}
    (hkey : key ∉ listKeys STATE) (hkey' : key ∉ listKeys STATE') :
    (mergeData engine A (dumpData B)).1.state.get key = none := by
  rw [state_mergeData_eq]
  show (mergeState engine A.state B.state.members).1.get key = _
  rw [get_mergeState, hA, get_snapshot, if_neg hkey, Option.or_none]
  apply getProp_eq_none_iff.mpr
  intro hmem
  rw [List.map_reverse, List.mem_reverse] at hmem
  have hmemB := ((accepted_sublist engine _ B.state.nodup).map Prod.fst).subset hmem
  refine getProp_eq_none_iff.mp ?_ hmemB
  show B.state.get key = none
  rw [hB, get_snapshot, if_neg hkey']

/-! ## Which write wins -/

/-- **Which write wins.**  A key is set to `v` on the first node and to `w` on
the second, both refresh their snapshots, and the first merges the dump of the
second.  It carries `w` exactly when the key is not `__proto__` and its own
store has `w` under the key that its state server sees.  Where that is the key
itself, this is when `v` is `w` already. -/
theorem newest_write_iff {target : JsString → JsString} {storeA storeB : Store}
    {key : JsString} {v w : Json} {t t' : ℕ} {rA rA' rB rB' : Replica}
    {eventsA rulesA eventsB rulesB : Option Json}
    (hA : Run (Step engine) rA (refreshActions rA.refreshes.length
      (setState storeA key (some v) t) target eventsA rulesA) rA')
    (hB : Run (Step engine) rB (refreshActions rB.refreshes.length
      (setState storeB key (some w) t') target eventsB rulesB) rB') :
    (Carries (mergeData engine rA'.data (dumpData rB'.data)).1 key w ↔
      key ≠ js "__proto__" ∧
        ∃ seen ∈ requestedKey (target key),
          ((getState (setState storeA key (some v) t) seen).bind
            Value.value).map sorted = some w.sorted) ∧
    (key ≠ js "__proto__" → requestedKey (target key) = some key →
      (Carries (mergeData engine rA'.data (dumpData rB'.data)).1 key w ↔
        Json.Same v w)) := by
  have hstateA := state_of_refresh hA
  have hstateB := state_of_refresh hB
  have hiff : Carries (mergeData engine rA'.data (dumpData rB'.data)).1 key w ↔
      key ≠ js "__proto__" ∧
        ∃ seen ∈ requestedKey (target key),
          ((getState (setState storeA key (some v) t) seen).bind
            Value.value).map sorted = some w.sorted := by
    by_cases hkey : key = js "__proto__"
    · have hget := @get_merge_snapshots_of_notMem engine _ _ _ _ _ hstateA hstateB _
        (hkey ▸ proto_not_mem_listKeys _) (hkey ▸ proto_not_mem_listKeys _)
      constructor
      · rintro ⟨e, he, -⟩
        rw [hget] at he
        cases he
      · exact fun h => absurd hkey h.1
    · have hmem : key ∈ listKeys (setState storeA key (some v) t) :=
        mem_listKeys_setState storeA hkey _ _
      have hget := @get_merge_snapshots engine _ _ _ _ _ hstateA hstateB _ hmem
      have hcarries : Carries (mergeData engine rA'.data (dumpData rB'.data)).1 key w ↔
          (field (respond (setState storeA key (some v) t) (target key))
            "value").map sorted = some w.sorted := by
        unfold Carries
        rw [hget]
        simp
      rw [hcarries, field_respond_value]
      cases requestedKey (target key) <;> simp [hkey]
  refine ⟨hiff, fun hkey hseen => ?_⟩
  rw [hiff, hseen]
  simp only [Option.mem_def, Option.some.injEq, exists_eq_left',
    getState_setState storeA hkey, Option.map_some]
  exact ⟨fun h => h.2, fun h => ⟨hkey, h⟩⟩

/-! ## Known writes -/

/-- The target of a key that the URL parser leaves alone. -/
def plainTarget (key : JsString) : JsString := js "/get/" ++ key

/-- The store of a node on which `"k"` has been set. -/
def knownStore (value now : ℕ) : Store :=
  setState .initial (js "k") (some (.num (.ofNat value))) now

/-- Two nodes that write the same value agree on it. -/
theorem newest_write_known :
    ∃ rA rB, Run (Step .plain) .initial
        (refreshActions 0 (knownStore 1 1) plainTarget none none) rA ∧
      Run (Step .plain) .initial
        (refreshActions 0 (knownStore 1 2) plainTarget none none) rB ∧
      Carries (mergeData .plain rA.data (dumpData rB.data)).1 (js "k")
        (.num (.ofNat 1)) := by
  obtain ⟨rA, hA, -⟩ := @exists_refresh .plain .initial (knownStore 1 1)
    plainTarget none none
  obtain ⟨rB, hB, -⟩ := @exists_refresh .plain .initial (knownStore 1 2)
    plainTarget none none
  exact ⟨rA, rB, hA, hB,
    ((newest_write_iff hA hB).2 (by decide) (by decide)).mpr (.refl _)⟩

/-- The later of two different writes does not win. -/
theorem older_write_wins :
    ∃ rA rB, Run (Step .plain) .initial
        (refreshActions 0 (knownStore 1 1) plainTarget none none) rA ∧
      Run (Step .plain) .initial
        (refreshActions 0 (knownStore 2 2) plainTarget none none) rB ∧
      ¬ Carries (mergeData .plain rA.data (dumpData rB.data)).1 (js "k")
        (.num (.ofNat 2)) := by
  obtain ⟨rA, hA, hstateA⟩ := @exists_refresh .plain .initial (knownStore 1 1)
    plainTarget none none
  obtain ⟨rB, hB, hstateB⟩ := @exists_refresh .plain .initial (knownStore 2 2)
    plainTarget none none
  refine ⟨rA, rB, hA, hB, ?_⟩
  rintro ⟨e, he, hvalue⟩
  have hget := @get_merge_snapshots .plain _ _ _ _ _ hstateA hstateB (js "k")
    (by decide +kernel)
  rw [hget] at he
  rw [← Option.some.inj he] at hvalue
  exact absurd hvalue (by decide +kernel)

end NewZone.Services.Replication
