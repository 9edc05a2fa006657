import Mathlib.Algebra.BigOperators.Group.List.Lemmas
import NewZone.Js.Conversion
import NewZone.Lib.ExceptBind
import NewZone.Js.Operators

/-!
# Metrics

`recomputeMetrics` of `services/analytics/index.js`: how many events there are of each
source and of each type.  The counts are kept in plain objects, where a count that is
not there is taken to be `0` because it is falsy.  What a plain object inherits is not
(`conserved_iff`).
-/

namespace NewZone.Services.Analytics

open NewZone.Js NewZone.ExceptBind

/-- What a name is bound to among the counts: a number, or the text that comes of
adding to something inherited. -/
inductive Count where
  | number (n : ℕ)
  | text (s : JsString)

/-- `String(obj[name])` for a name of `Object.prototype` -/
def inheritedText (name : JsString) : JsString :=
  if name = js "__proto__" then js "[object Object]"
  else
    let function := if name = js "constructor" then js "Object" else name
    js "function " ++ function ++ js "() { [native code] }"

/-- `(obj[label] || 0) + 1` -/
def countedUp (obj : PlainObject Count) (label : JsString) : Count :=
  match obj.lookup label with
  | .own (.number n) => .number (n + 1)
  | .own (.text s) => if s = [] then .number 1 else .text (s ++ js "1")
  | .inherited => .text (inheritedText label ++ js "1")
  | .missing => .number 1

/-- `obj[label] = (obj[label] || 0) + 1`, which does nothing for `__proto__`: a setter
that takes no number and no text. -/
def countUp (obj : PlainObject Count) (label : JsString) : PlainObject Count :=
  if label = js "__proto__" then obj else obj.set label (countedUp obj label)

/-- `v || "unknown"`, as the name of a property. -/
def label (v : Option Json) : Except String JsString :=
  match v with
  | some v => if v.truthy then v.toText else .ok (js "unknown")
  | none => .ok (js "unknown")

structure Metrics where
  events_by_source : PlainObject Count
  events_by_type : PlainObject Count
  total_events : ℕ
  last_updated : Option ℕ

def METRICS : Metrics :=
  { events_by_source := .empty, events_by_type := .empty, total_events := 0
    last_updated := none }

/-- One turn of the loop. -/
def count (metrics : Metrics) (ev : Json) : Except String Metrics := do
  let src ← label (← property ev "source")
  let type ← label (← property ev "type")
  return { metrics with
    events_by_source := countUp metrics.events_by_source src
    events_by_type := countUp metrics.events_by_type type
    total_events := metrics.total_events + 1 }

/-- What `recomputeMetrics` leaves in `METRICS`, from what the two services have
answered. -/
def recomputeMetrics (loggingEvents busEvents : Json) (now : ℕ) : Except String Metrics := do
  let all := (← spread (some loggingEvents)) ++ (← spread (some busEvents))
  let counted ← all.foldlM count METRICS
  return { counted with last_updated := some now }

/-! ## Counting labels -/

/-- The labels are counted: a name is bound to the number of labels that it is, if there
are any. -/
def Counts (obj : PlainObject Count) (labels : List JsString) : Prop :=
  ∀ s, obj.get s = if labels.count s = 0 then none else some (.number (labels.count s))

/-- The values are numbers that add up to a total. -/
def AddsUp (obj : PlainObject Count) (total : ℕ) : Prop :=
  ∃ ns : List ℕ, obj.members.map Prod.snd = ns.map Count.number ∧ ns.sum = total

/-- Counts at all names that occur, and at no other, add up to the length of the
list. -/
theorem sum_count {names labels : List JsString} (hnodup : names.Nodup)
    (hmem : ∀ s, s ∈ names ↔ s ∈ labels) :
    (names.map fun s => labels.count s).sum = labels.length := by
  have hperm : names.Perm labels.dedup :=
    (List.perm_ext_iff_of_nodup hnodup labels.nodup_dedup).mpr fun s =>
      (hmem s).trans List.mem_dedup.symm
  rw [(hperm.map _).sum_eq]
  convert List.sum_map_count_dedup_eq_length labels
  rfl

/-- So the values of the map add up. -/
theorem Counts.addsUp {obj : PlainObject Count} {labels : List JsString} (h : Counts obj labels) :
    AddsUp obj labels.length := by
  refine ⟨(obj.members.map Prod.fst).map fun s => labels.count s, ?_, sum_count obj.nodup ?_⟩
  · rw [List.map_map, List.map_map]
    refine List.map_congr_left fun m hm => ?_
    have hget := PlainObject.get_eq_some_iff.mpr (show (m.1, m.2) ∈ obj.members from hm)
    rw [h] at hget
    split_ifs at hget
    exact (Option.some.inj hget).symm
  · intro s
    have hbound : s ∈ obj.members.map Prod.fst ↔ ¬ obj.get s = none :=
      (not_iff_comm.mp getProp_eq_none_iff.symm).symm
    rw [hbound, h, ← List.count_pos_iff]
    split_ifs with hzero
    · simp [hzero]
    · simpa using Nat.pos_of_ne_zero hzero

theorem countedUp_of_counts {obj : PlainObject Count} {labels : List JsString} {s : JsString}
    (h : Counts obj labels) (hs : s ∉ objectPrototype) :
    countedUp obj s = .number (labels.count s + 1) := by
  have hget := h s
  unfold countedUp
  split_ifs at hget with hzero
  · rw [PlainObject.lookup_of_notMem hget hs, hzero]
  · rw [PlainObject.lookup_of_get hget]

/-- A label that is not inherited is counted. -/
theorem Counts.countUp {obj : PlainObject Count} {labels : List JsString} {s : JsString}
    (h : Counts obj labels) (hs : s ∉ objectPrototype) : Counts (countUp obj s) (labels ++ [s]) := by
  have hproto : s ≠ js "__proto__" := by
    rintro rfl
    exact hs (by decide)
  intro t
  rw [Analytics.countUp, if_neg hproto, PlainObject.get_set, countedUp_of_counts h hs,
    List.count_append, List.count_singleton]
  by_cases hst : s = t
  · subst hst
    simp
  · rw [if_neg hst, h t]
    simp [hst]

/-- An inherited name is bound to a text, if to anything. -/
def InheritedAsText (obj : PlainObject Count) : Prop :=
  ∀ s ∈ objectPrototype, obj.get s = none ∨ ∃ t ≠ [], obj.get s = some (.text t)

theorem InheritedAsText.countUp {obj : PlainObject Count} (h : InheritedAsText obj)
    (label : JsString) : InheritedAsText (countUp obj label) := by
  intro s hs
  unfold Analytics.countUp
  by_cases hproto : label = js "__proto__"
  · rw [if_pos hproto]
    exact h s hs
  rw [if_neg hproto, PlainObject.get_set]
  by_cases hlabel : label = s
  · subst hlabel
    rw [if_pos rfl]
    refine .inr ?_
    unfold countedUp
    obtain hnone | ⟨t, ht, hget⟩ := h label hs
    · rw [PlainObject.lookup_of_mem hnone hs]
      exact ⟨_, List.append_ne_nil_of_right_ne_nil _ (by decide), rfl⟩
    · rw [PlainObject.lookup_of_get hget]
      dsimp only
      rw [if_neg ht]
      exact ⟨_, List.append_ne_nil_of_left_ne_nil ht _, rfl⟩
  · rw [if_neg hlabel]
    exact h s hs

/-- The maps after a list of labels. -/
def countAll (labels : List JsString) : PlainObject Count := labels.foldl countUp .empty

theorem inheritedAsText_countAll (labels : List JsString) : InheritedAsText (countAll labels) :=
  List.foldlRecOn labels countUp (fun _ _ => .inl rfl) fun _ h label _ => h.countUp label

/-- A map counts its labels exactly when none of them is inherited. -/
theorem counts_countAll_iff (labels : List JsString) :
    Counts (countAll labels) labels ↔ ∀ s ∈ labels, s ∉ objectPrototype := by
  constructor
  · intro h s hs hinherited
    have hget := h s
    rw [if_neg (List.count_pos_iff.mpr hs).ne'] at hget
    obtain hnone | ⟨t, -, ht⟩ := inheritedAsText_countAll labels s hinherited
    · rw [hnone] at hget
      cases hget
    · rw [ht] at hget
      cases hget
  · intro h
    induction labels using List.reverseRecOn with
    | nil => exact fun s => rfl
    | append_singleton labels label ih =>
      rw [countAll, List.foldl_append, List.foldl_cons, List.foldl_nil]
      refine (ih fun s hs => h s (List.mem_append_left _ hs)).countUp ?_
      exact h label (List.mem_append_right _ (List.mem_singleton.mpr rfl))

/-! ## Events with labels -/

/-- An object of which a property is a string, or missing. -/
structure Labelled (ev : Json) : Prop where
  object : ∃ members, ev = .obj members
  source : ∀ v, Json.field ev "source" = some v → ∃ s, v = .str s
  type : ∀ v, Json.field ev "type" = some v → ∃ s, v = .str s

/-- A label, which is `unknown` if it is missing or empty. -/
def named : Option Json → JsString
  | some (.str (u :: s)) => u :: s
  | _ => js "unknown"

def sourceOf (ev : Json) : JsString := named (Json.field ev "source")

def typeOf (ev : Json) : JsString := named (Json.field ev "type")

theorem label_eq {v : Option Json} (h : ∀ w, v = some w → ∃ s, w = .str s) :
    label v = .ok (named v) := by
  cases v with
  | none => rfl
  | some w =>
    obtain ⟨s, rfl⟩ := h w rfl
    cases s <;> rfl

theorem count_eq {ev : Json} (h : Labelled ev) (metrics : Metrics) :
    count metrics ev = .ok { metrics with
      events_by_source := countUp metrics.events_by_source (sourceOf ev)
      events_by_type := countUp metrics.events_by_type (typeOf ev)
      total_events := metrics.total_events + 1 } := by
  have hproperty : ∀ name, property ev name = .ok (Json.field ev name) := by
    obtain ⟨members, rfl⟩ := h.object
    exact fun _ => rfl
  unfold count
  rw [hproperty, hproperty]
  refine (bind_of_ok (label_eq h.source) _).trans ?_
  exact bind_of_ok (label_eq h.type) _

/-- The loop counts the labels of the events. -/
theorem foldlM_count {events : List Json} (h : ∀ ev ∈ events, Labelled ev) (metrics : Metrics) :
    events.foldlM count metrics = .ok { metrics with
      events_by_source := (events.map sourceOf).foldl countUp metrics.events_by_source
      events_by_type := (events.map typeOf).foldl countUp metrics.events_by_type
      total_events := metrics.total_events + events.length } := by
  induction events generalizing metrics with
  | nil => rfl
  | cons ev events ih =>
    obtain ⟨hev, hevents⟩ := List.forall_mem_cons.mp h
    rw [List.foldlM_cons, count_eq hev]
    refine (ih hevents _).trans ?_
    rw [List.length_cons, Nat.add_assoc, Nat.add_comm 1]
    rfl

theorem recomputeMetrics_eq {logging bus : List Json} (h : ∀ ev ∈ logging ++ bus, Labelled ev)
    (now : ℕ) :
    recomputeMetrics (.arr logging) (.arr bus) now = .ok
      { events_by_source := countAll ((logging ++ bus).map sourceOf)
        events_by_type := countAll ((logging ++ bus).map typeOf)
        total_events := (logging ++ bus).length
        last_updated := some now } := by
  refine (bind_of_ok (foldlM_count h METRICS) _).trans ?_
  rw [show METRICS.total_events = 0 from rfl, Nat.zero_add]
  rfl

/-- The metrics give the number of events, of each source and of each type. -/
structure Metrics.Conserve (metrics : Metrics) (events : List Json) : Prop where
  total : metrics.total_events = events.length
  sources : Counts metrics.events_by_source (events.map sourceOf)
  types : Counts metrics.events_by_type (events.map typeOf)
  sources_add_up : AddsUp metrics.events_by_source metrics.total_events
  types_add_up : AddsUp metrics.events_by_type metrics.total_events

/-- **Metrics conserve events** exactly when no event has a source or a type that plain
objects inherit. -/
theorem conserved_iff {logging bus : List Json} (h : ∀ ev ∈ logging ++ bus, Labelled ev) (now : ℕ) :
    (∃ metrics, recomputeMetrics (.arr logging) (.arr bus) now = .ok metrics ∧
        metrics.Conserve (logging ++ bus)) ↔
      ∀ ev ∈ logging ++ bus, sourceOf ev ∉ objectPrototype ∧ typeOf ev ∉ objectPrototype := by
  rw [recomputeMetrics_eq h]
  constructor
  · intro hmetrics ev hev
    obtain ⟨metrics, hmetrics, hconserve⟩ := hmetrics
    obtain rfl := Except.ok.inj hmetrics
    have hsources := (counts_countAll_iff _).mp hconserve.sources
    have htypes := (counts_countAll_iff _).mp hconserve.types
    exact ⟨hsources _ (List.mem_map_of_mem hev), htypes _ (List.mem_map_of_mem hev)⟩
  · intro hlabels
    have hsources : Counts (countAll ((logging ++ bus).map sourceOf))
        ((logging ++ bus).map sourceOf) := by
      refine (counts_countAll_iff _).mpr fun s hs => ?_
      obtain ⟨ev, hev, rfl⟩ := List.mem_map.mp hs
      exact (hlabels ev hev).1
    have htypes : Counts (countAll ((logging ++ bus).map typeOf))
        ((logging ++ bus).map typeOf) := by
      refine (counts_countAll_iff _).mpr fun s hs => ?_
      obtain ⟨ev, hev, rfl⟩ := List.mem_map.mp hs
      exact (hlabels ev hev).2
    refine ⟨_, rfl, rfl, hsources, htypes, ?_, ?_⟩
    · simpa only [List.length_map] using hsources.addsUp
    · simpa only [List.length_map] using htypes.addsUp

/-- An event of a source and without a type. -/
def knownEvent (source : JsString) : Json := .obj [(js "source", .str source)]

theorem labelled_knownEvent (source : JsString) : Labelled (knownEvent source) where
  object := ⟨_, rfl⟩
  source v hv := ⟨source, (Option.some.inj hv).symm⟩
  type v hv := by cases hv

theorem conserved_known :
    ∃ metrics, recomputeMetrics (.arr [knownEvent (js "a")]) (.arr [knownEvent (js "a")]) 7
        = .ok metrics ∧
      metrics.Conserve ([knownEvent (js "a")] ++ [knownEvent (js "a")]) := by
  have hknown : ∀ ev ∈ [knownEvent (js "a")] ++ [knownEvent (js "a")], ev = knownEvent (js "a") := by
    intro ev hev
    simpa using hev
  refine (conserved_iff (fun ev hev => hknown ev hev ▸ labelled_knownEvent _) 7).mpr ?_
  intro ev hev
  rw [hknown ev hev]
  decide

/-- Events of the source `constructor` are not counted. -/
theorem constructor_not_counted :
    ¬ ∃ metrics, recomputeMetrics (.arr [knownEvent (js "constructor")]) (.arr []) 7
        = .ok metrics ∧
      metrics.Conserve ([knownEvent (js "constructor")] ++ []) := by
  intro h
  obtain ⟨metrics, hmetrics, hconserve⟩ := h
  obtain rfl := Except.ok.inj hmetrics
  have hget := hconserve.sources (js "constructor")
  cases hget

end NewZone.Services.Analytics
