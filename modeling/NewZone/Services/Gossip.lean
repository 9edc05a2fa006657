import NewZone.Lib.Gossip
import NewZone.Services.Convergence
import NewZone.Services.MergeHistory
import NewZone.Services.PushPull

/-!
# Replication nodes that pull from each other

Any number of nodes run `pullFromPeer` against each other's `GET /dump`, and the
network delivers the dumps late, out of order, again or not at all.  Whatever
the schedule, a node holds of each key one of the newest entries of the nodes
that it has heard, directly or through others (`entries_are_newest_heard`).  When
each node has pulled from its neighbours often enough to hear all others, the
nodes agree, and no merge that follows changes an entry (`gossip_converges`).

Names that every object inherits are left out: a node takes nothing under
them.  So are refreshes, which replace what a node holds.
-/

namespace NewZone.Services.Replication

open NewZone.Js NewZone.Js.Json NewZone.ExceptBind NewZone.Latest NewZone.Crypto
open NewZone.Crypto.SignedPacket (Coercions knownCoercions)
open NewZone.Gossip (Network Related heard Newest Rounds Within newest_self
  mem_heard_of_rounds hearing)

/-! ## One merge -/

/-- What a node can pass on: state entries, events and rules with numeric time
stamps, and rules that have names. -/
structure Shareable (engine : Engine) (L : LocalData) : Prop where
  state : TimedEntries L.state
  events : ∃ events, L.events = .arr events ∧ ∀ e ∈ events, Timed e
  rules : ∃ rules, L.rules = .arr rules ∧
    ∀ r ∈ rules, Timed r ∧ ∃ key, ruleKey engine r = .ok key

/-- The first of the newest rules under an id. -/
def newestRule (engine : Engine) (key : JsString) (L : LocalData) : Option Json :=
  (rulesWith engine key L.rules).argmax ts

variable {engine : Engine} {A B : LocalData}

theorem Shareable.timedData (h : Shareable engine A) : TimedData A where
  state := h.state
  rules := by
    obtain ⟨rules, hrules, htimed⟩ := h.rules
    rw [hrules]
    exact timedItems_arr fun r hr => (htimed r hr).1

theorem Shareable.mergeable (hA : Shareable engine A) (hB : Shareable engine B) :
    Mergeable engine A B := by
  obtain ⟨as, has, hastimed⟩ := hA.events
  obtain ⟨bs, hbs, hbstimed⟩ := hB.events
  obtain ⟨rs, hrs, hrsnamed⟩ := hA.rules
  obtain ⟨ss, hss, hssnamed⟩ := hB.rules
  refine ⟨⟨as, bs, by rw [has]; rfl, by rw [hbs]; rfl, .inr fun e he => ?_⟩,
    ⟨rs, ss, by rw [hrs]; rfl, by rw [hss]; rfl, fun r hr => ?_⟩⟩
  · exact comparable_of_timed engine
      (List.forall_mem_append.mpr ⟨hastimed, hbstimed⟩ e he)
  · exact (List.forall_mem_append.mpr ⟨hrsnamed, hssnamed⟩ r hr).2

theorem eventsOf_dumpData {events : List Json} (h : A.events = .arr events) :
    eventsOf (dumpData A) = events := by
  have hfield : Json.field (dumpData A) "events" = some (.arr events) :=
    congrArg some h
  rw [eventsOf, hfield]

/-- The events after a merge are events that one of the two had. -/
theorem Shareable.events_mergeData (hA : Shareable engine A)
    (hB : Shareable engine B) :
    ∃ events, (mergeData engine A (dumpData B)).1.events = .arr events ∧
      (∀ e ∈ events, Timed e) ∧
      ∀ e ∈ events, e ∈ eventsOf (dumpData A) ∨ e ∈ eventsOf (dumpData B) := by
  obtain ⟨as, has, hastimed⟩ := hA.events
  obtain ⟨bs, hbs, hbstimed⟩ := hB.events
  have hdump : TimedDump (dumpData B) := by
    refine ⟨?_, ?_, ?_⟩
    · exact fun e he => hB.state e he
    · rw [eventsOf_dumpData hbs]
      exact congrArg some hbs
    · rw [eventsOf_dumpData hbs]
      exact hbstimed
  have hmem : ∀ e ∈ Window.window ts MAX_EVENTS (as ++ eventsOf (dumpData B)),
      e ∈ as ∨ e ∈ eventsOf (dumpData B) := fun e he =>
    List.mem_append.mp (Window.mem_of_mem_window he)
  refine ⟨_, events_mergeData_timed engine hA.state has hastimed hdump, ?_, ?_⟩
  · exact fun e he => (hmem e he).elim (hastimed e) (hdump.events e)
  · rw [eventsOf_dumpData has]
    exact hmem

/-- A merge leaves what a node can pass on. -/
theorem Shareable.mergeData (hA : Shareable engine A) (hB : Shareable engine B) :
    Shareable engine (mergeData engine A (dumpData B)).1 := by
  obtain ⟨rs, hrs, hrsnamed⟩ := hA.rules
  obtain ⟨ss, hss, hssnamed⟩ := hB.rules
  have hboth := List.forall_mem_append.mpr ⟨hrsnamed, hssnamed⟩
  have hmerged := (rules_mergeData hA.timedData hB.timedData).1 (hA.mergeable hB)
  rw [hrs, hss] at hmerged
  obtain ⟨es, hes, hrules⟩ := mergeRules_timed rfl rfl (fun r hr => (hboth r hr).1)
    hmerged
  obtain ⟨hkeys, hmem, -⟩ := ruleEntries hes
  have hentries : ∀ m ∈ (es.foldl offer .empty).members,
      Timed m.2 ∧ ∃ key, ruleKey engine m.2 = .ok key := by
    intro m hm
    have htimed : TimedEntries (es.foldl offer .empty) :=
      timedEntries_empty.foldl_offer fun e he => (hboth _ (hmem e he)).1
    have hkeyed : Keyed engine (es.foldl offer .empty) :=
      Keyed.foldl_offer (fun _ hm => absurd hm List.not_mem_nil) hkeys
    exact ⟨htimed m hm, m.1, hkeyed m hm⟩
  refine ⟨?_, ?_, ?_⟩
  · rw [state_mergeData hA.timedData hB.timedData]
    exact hA.state.foldl_offer hB.state
  · obtain ⟨events, hevents, htimed, -⟩ := hA.events_mergeData hB
    exact ⟨events, hevents, htimed⟩
  · refine ⟨_, hrules, fun r hr => ?_⟩
    obtain ⟨m, hm, rfl⟩ := List.mem_map.mp hr
    exact hentries m hm

/-- Under a name that no object inherits, a merge leaves the newer entry. -/
theorem Shareable.get_mergeData (hA : Shareable engine A) (hB : Shareable engine B)
    {key : JsString} (hkey : key ∉ objectPrototype) :
    (Replication.mergeData engine A (dumpData B)).1.state.get key
      = newer ts (A.state.get key) (B.state.get key) := by
  have hfree : Free A.state key := .inl hkey
  rw [Replication.get_mergeData hA.timedData hB.timedData, if_pos hfree, argmax_append,
    argmax_toList, argmax_toList]

/-- The same of the rules: the newer one is left, and it alone. -/
theorem Shareable.rules_mergeData (hA : Shareable engine A)
    (hB : Shareable engine B) {key : JsString} (hkey : key ∉ objectPrototype) :
    newestRule engine key (Replication.mergeData engine A (dumpData B)).1
        = newer ts (newestRule engine key A) (newestRule engine key B) ∧
      rulesWith engine key (Replication.mergeData engine A (dumpData B)).1.rules
        = (newestRule engine key
            (Replication.mergeData engine A (dumpData B)).1).toList := by
  have hrules := rulesWith_mergeData hA.timedData hB.timedData (hA.mergeable hB) key
  rw [if_neg hkey] at hrules
  simp only [newestRule, hrules, argmax_toList, argmax_append, true_and]

/-! ## Three nodes in a ring -/

/-- Each node has a later entry than the one before it. -/
def ringNode (i : Fin 3) : LocalData := knownNode i.val (i.val + 5)

/-- Each node pulls from the one after it, when so many answers are out. -/
def ringRound (n : ℕ) : List (Gossip.Action (Fin 3)) :=
  [.answer 0, .answer 1, .answer 2, .merge 0 (n + 1), .merge 1 (n + 2), .merge 2 n]

theorem shareable_ringNode (i : Fin 3) : Shareable .plain (ringNode i) where
  state := (timedData_knownNode _ _).state
  events := ⟨[], rfl, by simp⟩
  rules := ⟨_, rfl, List.forall_mem_singleton.mpr ⟨rfl, js "r", rfl⟩⟩

theorem round_ringRound (before : List (Gossip.Action (Fin 3))) :
    Gossip.Round (fun i j : Fin 3 => j = i + 1) before
      (ringRound (Gossip.answered before)) := by
  rintro i j rfl
  have hone : ∀ acts : List (Gossip.Action (Fin 3)),
      Gossip.answered (before ++ acts) = Gossip.answered before + Gossip.answered acts :=
    fun acts => List.countP_append
  match i with
  | 0 => exact ⟨[.answer 0], [.answer 2], _, by rw [hone]; rfl⟩
  | 1 => exact ⟨[.answer 0, .answer 1], [.merge 0 _], _, by rw [hone]; rfl⟩
  | 2 => exact ⟨[], [.answer 1, .answer 2, .merge 0 _, .merge 1 _], [], by rw [hone]; rfl⟩

theorem within_ring (i j : Fin 3) : Within (fun i j : Fin 3 => j = i + 1) 2 i j := by
  have hcases : j = i ∨ j = i + 1 ∨ j = i + 1 + 1 := by
    revert i j
    decide
  rcases hcases with rfl | rfl | rfl
  · exact .refl 2 _
  · exact .step rfl (.refl 1 _)
  · exact .step rfl (.step rfl (.refl 0 _))

/-! ## The network -/

section Network

variable {ι : Type*} {init : ι → LocalData}

/-- Nodes that pull: `GET /dump` is answered by the one, and `pullFromPeer` of
the other goes on with the answer. -/
def gossip [DecidableEq ι] (engine : Engine) (node : NodeSign) (coerce : Coercions) (ctx : Context)
    (init : ι → LocalData) (acts : List (Gossip.Action ι)) :
    Network ι LocalData (Option Response) :=
  Network.run (fun L => (handle engine node coerce ctx L dumpRequest).2)
    (pullFromPeer engine) { node := init, answers := [] } acts

/-- What a node holds that has heard the nodes of `H`. -/
structure Knows (engine : Engine) (init : ι → LocalData) (L : LocalData)
    (H : Finset ι) : Prop where
  shareable : Shareable engine L
  state : ∀ key ∉ objectPrototype,
    Newest ts (fun j => (init j).state.get key) H (L.state.get key)
  rules : ∀ key ∉ objectPrototype,
    Newest ts (fun j => newestRule engine key (init j)) H (newestRule engine key L)
  /-- a node that has merged keeps one rule for each id -/
  single : (∃ j, H = {j} ∧ L = init j) ∨ ∀ key ∉ objectPrototype,
    rulesWith engine key L.rules = (newestRule engine key L).toList
  events : ∀ e ∈ eventsOf (dumpData L), ∃ j ∈ H, e ∈ eventsOf (dumpData (init j))

theorem knows_init {i : ι} (h : Shareable engine (init i)) :
    Knows engine init (init i) {i} where
  shareable := h
  state _ _ := newest_self _ _ i
  rules _ _ := newest_self ts (fun j => newestRule engine _ (init j)) i
  single := .inl ⟨i, rfl, rfl⟩
  events _ he := ⟨i, Finset.mem_singleton_self i, he⟩

/-- Two nodes hold the same value under a key, and the same rules under it as an
id. -/
def AgreeOn (engine : Engine) (key : JsString) (A B : LocalData) : Prop :=
  (A.state.get key).map sorted = (B.state.get key).map sorted ∧
    (rulesWith engine key A.rules).map sorted
      = (rulesWith engine key B.rules).map sorted

/-- Entries of one key and one time are the same, and so are the rules. -/
structure TiesAreSame (engine : Engine) (init : ι → LocalData) : Prop where
  state : ∀ key i j, ∀ v ∈ (init i).state.get key, ∀ w ∈ (init j).state.get key,
    ts v = ts w → Json.Same v w
  rules : ∀ key i j, ∀ r ∈ newestRule engine key (init i),
    ∀ s ∈ newestRule engine key (init j), ts r = ts s → Json.Same r s

/-- A node that has heard another holds one rule for each id. -/
theorem Knows.rulesWith_eq {H : Finset ι} (hA : Knows engine init A H)
    (hH : ∀ j, H ≠ {j}) {key : JsString} (hkey : key ∉ objectPrototype) :
    rulesWith engine key A.rules = (newestRule engine key A).toList := by
  rcases hA.single with ⟨j, hj, -⟩ | hsingle
  · exact absurd hj (hH j)
  · exact hsingle key hkey

/-- Two nodes that have heard the same agree. -/
theorem Knows.agree {H : Finset ι} (htie : TiesAreSame engine init)
    (hA : Knows engine init A H) (hB : Knows engine init B H) (hH : ∀ j, H ≠ {j})
    {key : JsString} (hkey : key ∉ objectPrototype) : AgreeOn engine key A B := by
  have hstate : (A.state.get key).map sorted = (B.state.get key).map sorted :=
    (hA.state key hkey).agree (hB.state key hkey) sorted fun i _ j _ =>
      htie.state key i j
  have hrules : (newestRule engine key A).map sorted
      = (newestRule engine key B).map sorted :=
    (hA.rules key hkey).agree (hB.rules key hkey) sorted fun i _ j _ =>
      htie.rules key i j
  refine ⟨hstate, ?_⟩
  rw [hA.rulesWith_eq hH hkey, hB.rulesWith_eq hH hkey, ← Option.toList_map,
    ← Option.toList_map, hrules]

/-- A node that has heard the nodes that another has heard learns nothing from
it. -/
theorem Knows.mergeData_eq {H K : Finset ι} (hA : Knows engine init A H)
    (hB : Knows engine init B K) (hKH : K ⊆ H) {key : JsString}
    (hkey : key ∉ objectPrototype) :
    (Replication.mergeData engine A (dumpData B)).1.state.get key = A.state.get key ∧
      newestRule engine key (Replication.mergeData engine A (dumpData B)).1
        = newestRule engine key A := by
  rw [hA.shareable.get_mergeData hB.shareable hkey,
    (hA.shareable.rules_mergeData hB.shareable hkey).1]
  exact ⟨(hA.state key hkey).newer_eq_left (hB.state key hkey) hKH,
    (hA.rules key hkey).newer_eq_left (hB.rules key hkey) hKH⟩

variable [DecidableEq ι]

theorem Knows.mergeData {H K : Finset ι} (hA : Knows engine init A H)
    (hB : Knows engine init B K) :
    Knows engine init (Replication.mergeData engine A (dumpData B)).1 (H ∪ K) where
  shareable := hA.shareable.mergeData hB.shareable
  state key hkey := by
    rw [hA.shareable.get_mergeData hB.shareable hkey]
    exact (hA.state key hkey).newer (hB.state key hkey)
  rules key hkey := by
    rw [(hA.shareable.rules_mergeData hB.shareable hkey).1]
    exact (hA.rules key hkey).newer (hB.rules key hkey)
  single := .inr fun _ hkey => (hA.shareable.rules_mergeData hB.shareable hkey).2
  events e he := by
    obtain ⟨events, hevents, -, hmem⟩ := hA.shareable.events_mergeData hB.shareable
    rw [eventsOf_dumpData hevents] at he
    rcases hmem e he with he | he
    · obtain ⟨j, hj, hje⟩ := hA.events e he
      exact ⟨j, Finset.mem_union_left _ hj, hje⟩
    · obtain ⟨j, hj, hje⟩ := hB.events e he
      exact ⟨j, Finset.mem_union_right _ hj, hje⟩

variable (node : NodeSign) (coerce : Coercions) (ctx : Context)

/-- An answer to `GET /dump`, and whom it lets hear. -/
def Tells (engine : Engine) (node : NodeSign) (coerce : Coercions) (ctx : Context)
    (init : ι → LocalData) (res : Option Response) (H : Finset ι) : Prop :=
  ∃ L, res = (handle engine node coerce ctx L dumpRequest).2 ∧ Knows engine init L H

/-- A network of replication nodes runs beside the network of what can be
heard. -/
theorem knows_run (hinit : ∀ i, Shareable engine (init i))
    (acts : List (Gossip.Action ι)) :
    Related (Knows engine init) (Tells engine node coerce ctx init)
      (gossip engine node coerce ctx init acts)
      (Network.run id (· ∪ ·) hearing acts) := by
  refine Related.run (fun L H h => ⟨L, rfl, h⟩) ?_ ⟨fun i => knows_init (hinit i), .nil⟩
    acts
  rintro A H res K hA ⟨B, rfl, hB⟩
  rw [pullFromPeer_handle]
  exact hA.mergeData hB

/-- **A node holds the newest of what it has heard.**  After any schedule, the
entry of a key is one of the newest that the nodes it has heard began with, and
there is none only if none of them had one.  The same is true of the rule under
an id, and every event comes from one of these nodes. -/
theorem entries_are_newest_heard (hinit : ∀ i, Shareable engine (init i))
    (acts : List (Gossip.Action ι)) (i : ι) :
    (∀ key ∉ objectPrototype,
      Newest ts (fun j => (init j).state.get key) (heard acts i)
        (((gossip engine node coerce ctx init acts).node i).state.get key) ∧
      Newest ts (fun j => newestRule engine key (init j)) (heard acts i)
        (newestRule engine key ((gossip engine node coerce ctx init acts).node i))) ∧
    ∀ e ∈ eventsOf (dumpData ((gossip engine node coerce ctx init acts).node i)),
      ∃ j ∈ heard acts i, e ∈ eventsOf (dumpData (init j)) := by
  have h := (knows_run node coerce ctx hinit acts).node i
  exact ⟨fun key hkey => ⟨h.state key hkey, h.rules key hkey⟩, h.events⟩

/-- After one round, the first node has heard the second one. -/
theorem entries_are_newest_heard_ring :
    (∀ key ∉ objectPrototype,
      Newest ts (fun j => (ringNode j).state.get key) (heard (ringRound 0) 0)
        (((gossip .plain (Tabulated.sign [] []) knownCoercions newContext ringNode
          (ringRound 0)).node 0).state.get key) ∧
      Newest ts (fun j => newestRule .plain key (ringNode j)) (heard (ringRound 0) 0)
        (newestRule .plain key ((gossip .plain (Tabulated.sign [] []) knownCoercions
          newContext ringNode (ringRound 0)).node 0))) ∧
    ∀ e ∈ eventsOf (dumpData ((gossip .plain (Tabulated.sign [] []) knownCoercions
        newContext ringNode (ringRound 0)).node 0)),
      ∃ j ∈ heard (ringRound 0) 0, e ∈ eventsOf (dumpData (ringNode j)) :=
  entries_are_newest_heard (Tabulated.sign [] []) knownCoercions newContext
    shareable_ringNode (ringRound 0) 0

/-! ## Agreement -/

/-- An action leaves the entries of a node alone that has heard all others. -/
theorem entry_unchanged (hinit : ∀ i, Shareable engine (init i))
    {acts : List (Gossip.Action ι)} {i : ι} (hi : ∀ j, j ∈ heard acts i)
    (a : Gossip.Action ι) {key : JsString} (hkey : key ∉ objectPrototype) :
    ((gossip engine node coerce ctx init (acts ++ [a])).node i).state.get key
        = ((gossip engine node coerce ctx init acts).node i).state.get key ∧
      newestRule engine key ((gossip engine node coerce ctx init (acts ++ [a])).node i)
        = newestRule engine key ((gossip engine node coerce ctx init acts).node i) := by
  have hrun := knows_run node coerce ctx hinit acts
  have hstep : gossip engine node coerce ctx init (acts ++ [a])
      = (gossip engine node coerce ctx init acts).after
          (fun L => (handle engine node coerce ctx L dumpRequest).2)
          (pullFromPeer engine) a := Network.run_append _ _ _
  rw [hstep]
  generalize gossip engine node coerce ctx init acts = N at hrun ⊢
  cases a with
  | answer j => exact ⟨rfl, rfl⟩
  | merge l n =>
    rw [Network.after]
    cases hanswer : N.answers[n]? with
    | none => exact ⟨rfl, rfl⟩
    | some res =>
      by_cases hil : i = l
      · subst hil
        obtain ⟨K, -, B, rfl, hB⟩ := hrun.getElem? hanswer
        simp only [Network.take, Function.update_self, pullFromPeer_handle]
        exact (hrun.node i).mergeData_eq hB (fun j _ => hi j) hkey
      · simp only [Network.take, Function.update_of_ne hil, and_self]

/-- **The nodes converge.**  Where no two nodes are further apart than the
number of rounds in which each node has pulled from its neighbours, all nodes
agree on every key that no object inherits and on every rule with such an id, and
whatever they pull from then on changes none of it. -/
theorem gossip_converges (hinit : ∀ i, Shareable engine (init i))
    (htie : TiesAreSame engine init) {E : ι → ι → Prop} {k : ℕ}
    (hE : ∀ i j, Within E k i j) {acts : List (Gossip.Action ι)}
    (hacts : Rounds E k acts) (later : List (Gossip.Action ι)) {key : JsString}
    (hkey : key ∉ objectPrototype) :
    (∀ i j, AgreeOn engine key
      ((gossip engine node coerce ctx init (acts ++ later)).node i)
      ((gossip engine node coerce ctx init (acts ++ later)).node j)) ∧
    ∀ i, ((gossip engine node coerce ctx init (acts ++ later)).node i).state.get key
        = ((gossip engine node coerce ctx init acts).node i).state.get key ∧
      newestRule engine key ((gossip engine node coerce ctx init (acts ++ later)).node i)
        = newestRule engine key ((gossip engine node coerce ctx init acts).node i) := by
  have hall : ∀ later i j, j ∈ heard (acts ++ later) i := fun later i j =>
    Gossip.heard_subset acts later i (mem_heard_of_rounds hacts (hE i j))
  constructor
  · intro i j
    by_cases hij : i = j
    · subst hij
      exact ⟨rfl, rfl⟩
    · have hrun := knows_run node coerce ctx hinit (acts ++ later)
      have hsame : heard (acts ++ later) i = heard (acts ++ later) j := by
        ext l
        simp only [hall later]
      have hi := hrun.node i
      have hj := hrun.node j
      change Knows engine init _ (heard (acts ++ later) i) at hi
      change Knows engine init _ (heard (acts ++ later) j) at hj
      rw [← hsame] at hj
      refine hi.agree htie hj (fun l hl => hij ?_) hkey
      have hmem := hall later i
      simp only [hl, Finset.mem_singleton] at hmem
      rw [hmem i, hmem j]
  · intro i
    induction later using List.reverseRecOn with
    | nil => rw [List.append_nil]; exact ⟨rfl, rfl⟩
    | append_singleton later a ih =>
      have hstep := entry_unchanged node coerce ctx hinit (hall later i) a hkey
      rw [← List.append_assoc, hstep.1, hstep.2]
      exact ih

/-- The ties of the ring: the entries differ in time, and the rules are one. -/
theorem tiesAreSame_ringNode : TiesAreSame .plain ringNode where
  state key i j v hv w hw hts := by
    rw [ringNode, knownNode_get] at hv hw
    split_ifs at hv hw
    · rw [← Option.some.inj hv, ← Option.some.inj hw, ts_knownEntry, ts_knownEntry]
        at hts
      have hij : i = j := by
        have hval : i.val + 5 = j.val + 5 := by exact_mod_cast hts
        omega
      rw [← Option.some.inj hv, ← Option.some.inj hw, hij]
      exact .refl _
    · cases hv
  rules key i j r hr s hs _ := by
    obtain rfl := Option.some.inj (hr.symm.trans hs)
    exact .refl r

/-- Two rounds in the ring bring the first and the last node together. -/
theorem gossip_converges_ring :
    AgreeOn .plain (js "k")
      ((gossip .plain (Tabulated.sign [] []) knownCoercions newContext ringNode
        ([] ++ ringRound 0 ++ ringRound 3 ++ [])).node 0)
      ((gossip .plain (Tabulated.sign [] []) knownCoercions newContext ringNode
        ([] ++ ringRound 0 ++ ringRound 3 ++ [])).node 2) :=
  (gossip_converges (Tabulated.sign [] []) knownCoercions newContext
    shareable_ringNode tiesAreSame_ringNode within_ring
    (.succ (.succ (.zero []) (round_ringRound [])) (round_ringRound (ringRound 0))) []
    (by decide)).1 0 2

end Network

end NewZone.Services.Replication
