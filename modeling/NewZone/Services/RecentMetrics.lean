import NewZone.Crypto.BodyBinding
import NewZone.Services.EventQueries
import NewZone.Services.Logging
import NewZone.Services.Metrics

/-!
# Metrics of the log and the event bus

`POST /recompute` of `services/analytics/server.js`: the last 200 entries of the log and the
last 200 events of the bus are counted.  An entry of the log has a source and no type, so it
counts as `unknown` among the types.  One whose source has no text makes the request fail
as long as it is among the last 200 (`recomputed`).

A service that is not reached counts as one without events.  A log whose process has ended
is not reached, and its entries are lost.
-/

namespace NewZone.Services.Analytics

open NewZone.Js NewZone.Js.Json NewZone.ExceptBind NewZone.Crypto
open NewZone.Crypto.SignedPacket (Coercions)
open NewZone.Services.EventBus (Publication publishAll getEvents recent)
open NewZone.Services.Logging (Entry entries logged processAfter eventsUrl MAX_LOGS)

/-! ## The server -/

/-- What `fetchLoggingEvents` and `fetchBusEvents` make of a reply. -/
def fetched (reply : Option Response) : Json := (reply.map Response.body).getD (.arr [])

def Count.json : Count → Json
  | .number n => .num (.ofNat n)
  | .text s => .str s

def countsJson (counts : PlainObject Count) : Json :=
  .obj (counts.members.map fun m => (m.1, m.2.json))

def Metrics.json (metrics : Metrics) : Json :=
  .obj [(js "events_by_source", countsJson metrics.events_by_source),
    (js "events_by_type", countsJson metrics.events_by_type),
    (js "total_events", .num (.ofNat metrics.total_events)),
    (js "last_updated", (metrics.last_updated.map fun t => .num (.ofNat t)).getD .null)]

/-- `POST /recompute`, from the replies of the two services. -/
def recompute (METRICS : Metrics) (logging bus : Option Response) (now : ℕ) : Metrics × Response :=
  match recomputeMetrics (fetched logging) (fetched bus) now with
  | .ok metrics => (metrics, { status := 200, body := metrics.json })
  | .error _ => (METRICS, .error 500 "Recompute failed")

/-! ## Labels that can be read -/

/-- A label is missing or can be made a text. -/
def HasText (v : Option Json) : Prop := (label v).isOk = true

instance (v : Option Json) : Decidable (HasText v) := inferInstanceAs (Decidable (_ = _))

theorem hasText_iff {v : Option Json} : HasText v ↔ ∃ s, label v = .ok s := by
  rw [HasText]
  cases label v with
  | error e => exact iff_of_false nofun nofun
  | ok s => exact iff_of_true rfl ⟨s, rfl⟩

/-- The source and the type of an event have texts. -/
def Readable (ev : Json) : Prop := HasText (field ev "source") ∧ HasText (field ev "type")

instance (ev : Json) : Decidable (Readable ev) := inferInstanceAs (Decidable (_ ∧ _))

/-- The labels of some events. -/
def labels (name : String) (events : List Json) : List JsString :=
  events.map fun ev => (label (field ev name)).toOption.getD []

/-- The metrics of some events. -/
def metricsOf (events : List Json) (now : ℕ) : Metrics where
  events_by_source := countAll (labels "source" events)
  events_by_type := countAll (labels "type" events)
  total_events := events.length
  last_updated := some now

theorem total_metricsOf (events : List Json) (now : ℕ) :
    (metricsOf events now).total_events = events.length := rfl

def IsObject (ev : Json) : Prop := ∃ members, ev = .obj members

/-- The metrics after one more event. -/
def Metrics.counted (metrics : Metrics) (ev : Json) : Metrics :=
  { metrics with
    events_by_source :=
      countUp metrics.events_by_source ((label (field ev "source")).toOption.getD [])
    events_by_type := countUp metrics.events_by_type ((label (field ev "type")).toOption.getD [])
    total_events := metrics.total_events + 1 }

/-- One turn of the loop, by the texts of the two labels. -/
theorem count_eq_bind {ev : Json} (hobject : IsObject ev) (metrics : Metrics) :
    count metrics ev = do
      let src ← label (field ev "source")
      let type ← label (field ev "type")
      return { metrics with
        events_by_source := countUp metrics.events_by_source src
        events_by_type := countUp metrics.events_by_type type
        total_events := metrics.total_events + 1 } := by
  obtain ⟨members, rfl⟩ := hobject
  rfl

theorem count_readable {ev : Json} (hobject : IsObject ev) (h : Readable ev) (metrics : Metrics) :
    count metrics ev = .ok (metrics.counted ev) := by
  obtain ⟨src, hsrc⟩ := hasText_iff.mp h.1
  obtain ⟨type, htype⟩ := hasText_iff.mp h.2
  rw [count_eq_bind hobject, Metrics.counted, hsrc, htype]
  rfl

theorem count_unreadable {ev : Json} (hobject : IsObject ev) (h : ¬ Readable ev)
    (metrics : Metrics) : ∃ e, count metrics ev = .error e := by
  rw [count_eq_bind hobject]
  cases hsrc : label (field ev "source") with
  | error e => exact ⟨e, rfl⟩
  | ok src =>
    cases htype : label (field ev "type") with
    | error e => exact ⟨e, rfl⟩
    | ok type => exact absurd ⟨hasText_iff.mpr ⟨src, hsrc⟩, hasText_iff.mpr ⟨type, htype⟩⟩ h

/-- The loop counts the events, or ends at the first that it cannot read. -/
theorem foldlM_count_readable {events : List Json} (hobjects : ∀ ev ∈ events, IsObject ev)
    (h : ∀ ev ∈ events, Readable ev) (metrics : Metrics) :
    events.foldlM count metrics = .ok (events.foldl Metrics.counted metrics) := by
  induction events generalizing metrics with
  | nil => rfl
  | cons ev events ih =>
    obtain ⟨hobject, hobjects⟩ := List.forall_mem_cons.mp hobjects
    obtain ⟨hev, hevents⟩ := List.forall_mem_cons.mp h
    rw [List.foldlM_cons, count_readable hobject hev]
    exact ih hobjects hevents _

theorem foldlM_count_unreadable {events : List Json} (hobjects : ∀ ev ∈ events, IsObject ev)
    (h : ¬ ∀ ev ∈ events, Readable ev) (metrics : Metrics) :
    ∃ e, events.foldlM count metrics = .error e := by
  induction events generalizing metrics with
  | nil => exact absurd (by simp) h
  | cons ev events ih =>
    obtain ⟨hobject, hobjects⟩ := List.forall_mem_cons.mp hobjects
    rw [List.foldlM_cons]
    by_cases hev : Readable ev
    · rw [count_readable hobject hev]
      exact ih hobjects (fun hevents => h (List.forall_mem_cons.mpr ⟨hev, hevents⟩)) _
    · obtain ⟨e, he⟩ := count_unreadable hobject hev metrics
      rw [he]
      exact ⟨e, rfl⟩

theorem foldl_counted (events : List Json) (metrics : Metrics) :
    events.foldl Metrics.counted metrics = { metrics with
      events_by_source := (labels "source" events).foldl countUp metrics.events_by_source
      events_by_type := (labels "type" events).foldl countUp metrics.events_by_type
      total_events := metrics.total_events + events.length } := by
  induction events generalizing metrics with
  | nil => rfl
  | cons ev events ih =>
    rw [List.foldl_cons, ih, Metrics.counted, List.length_cons, Nat.add_assoc, Nat.add_comm 1]
    rfl

theorem metricsOf_eq (events : List Json) (now : ℕ) :
    { events.foldl Metrics.counted METRICS with last_updated := some now }
      = metricsOf events now := by
  have htotal : METRICS.total_events = 0 := rfl
  rw [foldl_counted, htotal, Nat.zero_add]
  rfl

/-- What a request does with the events that it gets. -/
theorem recompute_eq {logging bus : Option Response} {logs events : List Json}
    (hlogging : fetched logging = .arr logs) (hbus : fetched bus = .arr events)
    (hobjects : ∀ ev ∈ logs ++ events, IsObject ev) (METRICS : Metrics) (now : ℕ) :
    recompute METRICS logging bus now
      = if ∀ ev ∈ logs ++ events, Readable ev then
          (metricsOf (logs ++ events) now,
            { status := 200, body := (metricsOf (logs ++ events) now).json })
        else (METRICS, .error 500 "Recompute failed") := by
  have hmetrics : recomputeMetrics (.arr logs) (.arr events) now
      = ((logs ++ events).foldlM count Analytics.METRICS).map fun counted =>
        { counted with last_updated := some now } := by
    have hspread : recomputeMetrics (.arr logs) (.arr events) now
        = (do
          let counted ← (logs ++ events).foldlM count Analytics.METRICS
          return { counted with last_updated := some now }) := rfl
    rw [hspread]
    cases (logs ++ events).foldlM count Analytics.METRICS <;> rfl
  rw [recompute, hlogging, hbus, hmetrics]
  split_ifs with hreadable
  · rw [foldlM_count_readable hobjects hreadable, ← metricsOf_eq]
    rfl
  · obtain ⟨e, he⟩ := foldlM_count_unreadable hobjects hreadable Analytics.METRICS
    rw [he]
    rfl

/-! ## The last 200 -/

/-- The entries of the log that are fetched. -/
def lastLogged (node : NodeSign) (coerce : Coercions) (arrivals : List Arrival) : List Entry :=
  (entries node coerce arrivals).rtake 200

/-- What `fetchLoggingEvents` gets after the requests. -/
def logReply (round : ℚ → Option ℚ) (node : NodeSign) (coerce : Coercions)
    (arrivals : List Arrival) (ctx : Context) : Option Response :=
  Process.answer (Logging.serve round node coerce) (processAfter round node coerce arrivals)
    { ctx, req := { method := .get, url := eventsUrl 200, body := .empty } }

/-- The events of the bus that are fetched. -/
def lastPublished (calls : List Publication) : List EventBus.Event :=
  (calls.map Publication.event).rtake 200

/-- Both, in the order in which they are counted. -/
def fetchedEvents (node : NodeSign) (coerce : Coercions) (arrivals : List Arrival)
    (calls : List Publication) : List Json :=
  (lastLogged node coerce arrivals).map Entry.toJson
    ++ (lastPublished calls).map EventBus.Event.toJson

section Fetched

variable {round : ℚ → Option ℚ} {node : NodeSign} {coerce : Coercions}

/-- The reply of the log, if there is one. -/
theorem fetched_log (hround : round 200 = some 200) (ctx : Context) (arrivals : List Arrival) :
    fetched (logReply round node coerce arrivals ctx)
      = .arr ((lastLogged node coerce arrivals).map Entry.toJson) := by
  unfold logReply lastLogged
  obtain ⟨hprocess, hentries⟩ | hprocess := @Logging.processAfter_cases round node coerce arrivals
  · rw [hprocess, hentries]
    rfl
  · have hevents := @Logging.serve_events round node coerce 200 (by decide) hround ctx
      ((entries node coerce arrivals).rtake MAX_LOGS)
    rw [hprocess, Process.answer_some, hevents, Logging.rtake_rtake]
    rfl

/-- The reply of the bus. -/
theorem fetched_bus (calls : List Publication) :
    fetched (some (EventBus.events (publishAll calls) none 200))
      = .arr ((lastPublished calls).map EventBus.Event.toJson) := by
  have hslice : getEvents (publishAll calls) none 200 = lastPublished calls := by
    have hneg : (-200 : ℤ) < 0 := by decide
    rw [EventBus.publishAll_eq, recent]
    show EventBus.slice _ (-200) = _
    rw [EventBus.slice, if_pos hneg]
    exact Logging.rtake_rtake (calls.map Publication.event) EventBus.MAX_EVENTS 200
  rw [fetched, EventBus.events, hslice]
  rfl

theorem isObject_fetchedEvents (arrivals : List Arrival) (calls : List Publication) :
    ∀ ev ∈ fetchedEvents node coerce arrivals calls, IsObject ev := by
  intro ev hev
  rcases List.mem_append.mp hev with hev | hev
  · obtain ⟨entry, -, rfl⟩ := List.mem_map.mp hev
    exact ⟨_, rfl⟩
  · obtain ⟨event, -, rfl⟩ := List.mem_map.mp hev
    exact ⟨_, rfl⟩

/-! ## What is counted -/

theorem field_entry_source (entry : Entry) : field entry.toJson "source" = entry.source := by
  obtain ⟨ts, source, event, payload⟩ := entry
  cases source <;> cases event <;> rfl

theorem field_entry_type (entry : Entry) : field entry.toJson "type" = none := by
  obtain ⟨ts, source, event, payload⟩ := entry
  cases source <;> cases event <;> rfl

theorem field_event_source (event : EventBus.Event) :
    field event.toJson "source" = event.source := by
  obtain ⟨ts, type, source, payload⟩ := event
  cases type <;> cases source <;> rfl

theorem field_event_type (event : EventBus.Event) : field event.toJson "type" = event.type := by
  obtain ⟨ts, type, source, payload⟩ := event
  cases type <;> cases source <;> rfl

theorem readable_entry_iff (entry : Entry) : Readable entry.toJson ↔ HasText entry.source := by
  rw [Readable, field_entry_source, field_entry_type]
  exact and_iff_left rfl

theorem readable_event_iff (event : EventBus.Event) :
    Readable event.toJson ↔ HasText event.source ∧ HasText event.type := by
  rw [Readable, field_event_source, field_event_type]

/-- All labels that are fetched can be read. -/
theorem readable_fetchedEvents_iff (arrivals : List Arrival) (calls : List Publication) :
    (∀ ev ∈ fetchedEvents node coerce arrivals calls, Readable ev) ↔
      (∀ entry ∈ lastLogged node coerce arrivals, HasText entry.source) ∧
        ∀ event ∈ lastPublished calls, HasText event.source ∧ HasText event.type := by
  simp only [fetchedEvents, List.forall_mem_append, List.forall_mem_map, readable_entry_iff,
    readable_event_iff]

theorem length_rtake {α : Type} (l : List α) (n : ℕ) : (l.rtake n).length = min n l.length := by
  rw [List.rtake_eq_reverse_take_reverse, List.length_reverse, List.length_take,
    List.length_reverse]

theorem length_lastLogged (arrivals : List Arrival) :
    (lastLogged node coerce arrivals).length
      = min 200 (entries node coerce arrivals).length := length_rtake _ _

theorem length_fetchedEvents (arrivals : List Arrival) (calls : List Publication) :
    (fetchedEvents node coerce arrivals calls).length
      = min 200 (entries node coerce arrivals).length + min 200 calls.length := by
  rw [fetchedEvents, List.length_append, List.length_map, List.length_map, length_lastLogged,
    lastPublished, length_rtake, List.length_map]

/-- The types of log entries are unknown. -/
theorem labels_type_entries (entries : List Entry) :
    labels "type" (entries.map Entry.toJson) = List.replicate entries.length (js "unknown") := by
  refine List.eq_replicate_iff.mpr ⟨by simp [labels], fun t ht => ?_⟩
  obtain ⟨ev, hev, rfl⟩ := List.mem_map.mp ht
  obtain ⟨entry, -, rfl⟩ := List.mem_map.mp hev
  rw [field_entry_type]
  rfl

theorem labels_type_fetchedEvents (arrivals : List Arrival) (calls : List Publication) :
    labels "type" (fetchedEvents node coerce arrivals calls)
      = List.replicate (min 200 (entries node coerce arrivals).length) (js "unknown")
        ++ labels "type" ((lastPublished calls).map EventBus.Event.toJson) := by
  have happend : ∀ xs ys : List Json,
      labels "type" (xs ++ ys) = labels "type" xs ++ labels "type" ys :=
    fun xs ys => List.map_append
  rw [fetchedEvents, happend, labels_type_entries, length_lastLogged]

/-- **The metrics of the last 200.**  After any requests to the log and any publications, a
request counts the last 200 entries, unless the process of the log has ended and they are
lost, and the last 200 events, where an entry counts among the types as `unknown`.  It fails
exactly when the source of one of the entries, or the source or the type of one of the events,
has no text, and then leaves the metrics as they are. -/
theorem recomputed (hround : round 200 = some 200) (ctx : Context) (arrivals : List Arrival)
    (calls : List Publication) (METRICS : Metrics) (now : ℕ) :
    recompute METRICS (logReply round node coerce arrivals ctx)
        (some (EventBus.events (publishAll calls) none 200)) now
      = (if (∀ entry ∈ lastLogged node coerce arrivals, HasText entry.source) ∧
            ∀ event ∈ lastPublished calls, HasText event.source ∧ HasText event.type then
          (metricsOf (fetchedEvents node coerce arrivals calls) now,
            { status := 200
              body := (metricsOf (fetchedEvents node coerce arrivals calls) now).json })
        else (METRICS, .error 500 "Recompute failed")) ∧
      (metricsOf (fetchedEvents node coerce arrivals calls) now).total_events
        = min 200 (entries node coerce arrivals).length + min 200 calls.length ∧
      labels "type" (fetchedEvents node coerce arrivals calls)
        = List.replicate (min 200 (entries node coerce arrivals).length) (js "unknown")
          ++ labels "type" ((lastPublished calls).map EventBus.Event.toJson) := by
  rw [total_metricsOf, length_fetchedEvents]
  refine ⟨?_, rfl, labels_type_fetchedEvents arrivals calls⟩
  rw [recompute_eq (fetched_log hround ctx arrivals) (fetched_bus calls)
    (isObject_fetchedEvents arrivals calls)]
  exact if_congr (readable_fetchedEvents_iff arrivals calls) rfl rfl

end Fetched

/-- A client logs from a source that has no text. -/
def unreadable : Arrival where
  ctx := { knownNodes := .empty, clock := 7 }
  req := { method := .post, url := js "/log"
           body := .json (.obj [(js "source", .obj [(js "toString", .bool true)])]) }

def unreadableEntry : Entry where
  ts := 7
  source := some (.obj [(js "toString", .bool true)])
  event := none
  payload := .null

theorem logged_unreadable :
    logged (Tabulated.sign [] []) SignedPacket.knownCoercions unreadable
      = some unreadableEntry := by
  have hparse := @parse_plain (Tabulated.sign [] []) SignedPacket.knownCoercions
    { knownNodes := .empty, clock := 7 } (.obj [(js "source", .obj [(js "toString", .bool true)])])
    (by decide)
  have hlog : logged (Tabulated.sign [] []) SignedPacket.knownCoercions unreadable
      = Logging.entryOf (Tabulated.sign [] []) SignedPacket.knownCoercions unreadable.ctx
        unreadable.req.body (Logging.logEntry 7) := rfl
  rw [hlog, Logging.entryOf, unreadable]
  dsimp only
  rw [hparse]
  rfl

theorem entries_unreadable :
    entries (Tabulated.sign [] []) SignedPacket.knownCoercions [unreadable]
      = [unreadableEntry] := by
  have hlives : ¬ Logging.EndsProcess (Tabulated.sign [] []) SignedPacket.knownCoercions
      unreadable := fun hend => not_fatal_plain (by decide) hend.2.2
  unfold entries
  rw [if_neg (by simpa using hlives), List.filterMap_cons_some logged_unreadable]
  rfl

/-- Nothing can be counted then. -/
theorem recomputed_known :
    recompute METRICS
        (logReply some (Tabulated.sign [] []) SignedPacket.knownCoercions [unreadable]
          { knownNodes := .empty, clock := 8 })
        (some (EventBus.events (publishAll [EventBus.knownPublication]) none 200)) 9
      = (METRICS, .error 500 "Recompute failed") := by
  refine (recomputed rfl _ _ _ _ _).1.trans (if_neg fun h => ?_)
  have hlast : unreadableEntry ∈ lastLogged (Tabulated.sign [] []) SignedPacket.knownCoercions
      [unreadable] := by
    rw [lastLogged, entries_unreadable]
    exact List.mem_cons_self
  exact absurd (h.1 unreadableEntry hlast) (by decide)

end NewZone.Services.Analytics
