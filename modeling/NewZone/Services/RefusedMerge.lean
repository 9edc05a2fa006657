import NewZone.Services.UnchangedMerge

/-!
# Dumps that are refused

`mergeData` throws where a dump is not what it expects, and its callers answer
`400` or go on as if nothing had come.  What has been merged before the throw
stays merged.  `refused_unchanged_iff` says which dumps are merged as a whole
or not at all.
-/

namespace NewZone.Services.Replication

open NewZone.Js NewZone.ExceptBind

/-- A dump that the node can merge: it is no `null`, the entries of its state
can be compared with those of the node, and so can its events and rules. -/
structure Acceptable (engine : Engine) (L : LocalData) (d : Dump) : Prop where
  present : d.json ≠ .null
  state : ∀ e ∈ d.entries, (wins engine (L.state.lookup e.1) e.2).isOk = true
  events : EventsMerge engine L.events (Json.field d.json "events")
  rules : RulesMerge engine L.rules (Json.field d.json "rules")

/-- The events of the node are an array, and those of the dump leave it as it
is. -/
def KeepsEvents (engine : Engine) (L : LocalData) (d : Dump) : Prop :=
  ∃ held brought, L.events = .arr held ∧
    spread (Json.field d.json "events") = .ok brought ∧
      EventsStay engine held brought

theorem property_state (d : Dump) (h : d.json ≠ .null) :
    property d.json "state" = .ok (Json.field d.json "state") := by
  cases hd : d.json with
  | null => exact absurd hd h
  | _ => rfl

theorem mergeData_null (engine : Engine) (L : LocalData) {d : Dump}
    (h : d.json = .null) :
    (mergeData engine L d.json).1 = L ∧ d.entries = [] := by
  rw [Dump.entries, h]
  exact ⟨rfl, rfl⟩

theorem mergeEvents_eq_self_iff_keepsEvents {engine : Engine} {L : LocalData}
    {d : Dump} {events : Json}
    (h : mergeEvents engine L.events (Json.field d.json "events") = .ok events) :
    events = L.events ↔ KeepsEvents engine L d := by
  obtain ⟨held, hheld, h'⟩ := bind_eq_ok.mp h
  obtain ⟨brought, hbrought, -⟩ := bind_eq_ok.mp h'
  rw [mergeEvents_eq_self_iff hbrought h, KeepsEvents]
  constructor
  · rintro ⟨held, hheld, hstay⟩
    exact ⟨held, brought, hheld, hbrought, hstay⟩
  · rintro ⟨held, brought', hheld, hbrought', hstay⟩
    obtain rfl := Except.ok.inj (hbrought.symm.trans hbrought')
    exact ⟨held, hheld, hstay⟩

/-- A merge gets to the end, or throws at the state, at the events or at the rules, and
what it has merged before is kept. -/
theorem mergeData_cases (engine : Engine) (L : LocalData) {d : Dump} (h : d.json ≠ .null) :
    Acceptable engine L d ∧ (mergeData engine L d.json).2 = none ∨
    ((¬∀ e ∈ d.entries, (wins engine (L.state.lookup e.1) e.2).isOk = true) ∨
        ¬EventsMerge engine L.events (Json.field d.json "events")) ∧
      (mergeData engine L d.json).2 ≠ none ∧
      (mergeData engine L d.json).1
        = { L with state := (mergeState engine L.state d.entries).1 } ∨
    (∀ e ∈ d.entries, (wins engine (L.state.lookup e.1) e.2).isOk = true) ∧
      ¬RulesMerge engine L.rules (Json.field d.json "rules") ∧
      (mergeData engine L d.json).2 ≠ none ∧
      ∃ events, mergeEvents engine L.events (Json.field d.json "events") = .ok events ∧
        (mergeData engine L d.json).1
          = { L with state := (mergeState engine L.state d.entries).1, events } := by
  have hreturns := mergeState_returns_iff engine L.state d.nodupKeys_entries
  unfold mergeData
  rw [property_state d h]
  dsimp only
  rw [← Dump.entries, ← hreturns]
  generalize mergeState engine L.state d.entries = loop at hreturns ⊢
  obtain ⟨state, thrown⟩ := loop
  cases thrown with
  | some e => exact .inr (.inl ⟨.inl (Option.some_ne_none e), Option.some_ne_none e, rfl⟩)
  | none =>
    have hall := hreturns.mp rfl
    dsimp only
    cases hevents : mergeEvents engine L.events (Json.field d.json "events") with
    | error e =>
      have hfails : ¬EventsMerge engine L.events (Json.field d.json "events") := by
        rw [← mergeEvents_returns_iff, hevents]
        simp
      exact .inr (.inl ⟨.inr hfails, Option.some_ne_none e, rfl⟩)
    | ok events =>
      dsimp only
      cases hrules : mergeRules engine L.rules (Json.field d.json "rules") with
      | error e =>
        have hfails : ¬RulesMerge engine L.rules (Json.field d.json "rules") := by
          rw [← mergeRules_returns_iff, hrules]
          simp
        exact .inr (.inr ⟨rfl, hfails, Option.some_ne_none e, events, rfl, rfl⟩)
      | ok rules =>
        exact .inl ⟨⟨h, hall, mergeEvents_returns_iff.mp ⟨events, hevents⟩,
          mergeRules_returns_iff.mp ⟨rules, hrules⟩⟩, rfl⟩

/-- **When a refused dump leaves no trace.**  If `mergeData` throws, the data is
what it was before, exactly when the dump can be merged as a whole, so that
nothing is thrown, or no entry of its state is taken before the throw, except
one that is there already, and where only the rules are at fault, its events
leave those of the node as they were. -/
theorem refused_unchanged_iff (engine : Engine) (L : LocalData) (d : Dump) :
    ((mergeData engine L d.json).2 ≠ none →
        (mergeData engine L d.json).1 = L) ↔
      Acceptable engine L d ∨
        (Unmoved engine L.state d.entries ∧
          (d.json ≠ .null →
            (∀ e ∈ d.entries,
              (wins engine (L.state.lookup e.1) e.2).isOk = true) →
            EventsMerge engine L.events (Json.field d.json "events") →
            KeepsEvents engine L d)) := by
  by_cases hnull : d.json = .null
  · obtain ⟨hsame, hnone⟩ := mergeData_null engine L hnull
    refine iff_of_true (fun _ => hsame) (.inr ⟨?_, fun h => absurd hnull h⟩)
    rw [hnone]
    exact fun e he => absurd he List.not_mem_nil
  have hmoved := @mergeState_eq_self_iff engine L.state _ d.nodupKeys_entries
  obtain ⟨hmerges, hnone⟩ | ⟨hfails, hsome, hdata⟩ |
    ⟨hall, hfails, hsome, events, hevents, hdata⟩ := mergeData_cases engine L hnull
  · exact iff_of_true (fun h => absurd hnone h) (.inl hmerges)
  · -- only the state has been touched
    have hstate : (mergeData engine L d.json).1 = L ↔ Unmoved engine L.state d.entries := by
      rw [hdata, ← hmoved]
      constructor
      · intro h
        exact congrArg LocalData.state h
      · intro h
        rw [h]
    rw [imp_iff_right hsome, hstate]
    constructor
    · intro h
      refine .inr ⟨h, fun _ hall hm => ?_⟩
      rcases hfails with hfails | hfails
      · exact absurd hall hfails
      · exact absurd hm hfails
    · rintro (h | h)
      · rcases hfails with hfails | hfails
        · exact absurd h.state hfails
        · exact absurd h.events hfails
      · exact h.1
  · -- the rules are at fault
    have hkeeps := mergeEvents_eq_self_iff_keepsEvents hevents
    rw [imp_iff_right hsome, hdata]
    constructor
    · intro h
      exact .inr ⟨hmoved.mp (congrArg LocalData.state h), fun _ _ _ =>
        hkeeps.mp (congrArg LocalData.events h)⟩
    · rintro (h | ⟨hun, hev⟩)
      · exact absurd h.rules hfails
      · rw [hmoved.mpr hun, hkeeps.mpr (hev hnull hall
          (mergeEvents_returns_iff.mp ⟨events, hevents⟩))]

/-- A dump without events. -/
def knownHalf : Dump where
  json := .obj
    [(js "state", .obj [(js "k", .obj [(js "ts", .num (.ofNat 1))])])]
  nodup := by
    intro state h
    obtain rfl := Json.obj.inj (Option.some.inj h)
    exact List.nodup_singleton _

/-- The dump is refused, and its entry is there. -/
theorem refused_dump_merged :
    (mergeData .plain .initial knownHalf.json).2 ≠ none ∧
    (mergeData .plain .initial knownHalf.json).1 ≠ .initial := by
  constructor
  · decide +kernel
  · intro h
    have hget := congrArg (fun L => L.state.get (js "k")) h
    exact absurd hget (by decide +kernel)

end NewZone.Services.Replication
