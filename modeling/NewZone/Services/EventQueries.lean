import NewZone.Lib.BoundedFifo
import NewZone.Services.EventBus

/-!
# Queries of the event bus

The events of the bus are the last ones that were published, as many as it has room
for.  `getEvents` takes the last of those that have the type, with a slice from the
end; and a slice from `-0` is the whole list (`newest_iff`).
-/

namespace NewZone.Services.EventBus

open NewZone.Js NewZone.BoundedFifo

/-- The arguments of a call of `publishEvent`, and the time it is made at. -/
structure Publication where
  type : Option Json
  source : Option Json
  payload : Option Json
  now : ℕ

def Publication.event (p : Publication) : Event :=
  { ts := p.now, type := p.type, source := p.source, payload := p.payload.getD .null }

/-- The events after some calls of `publishEvent`. -/
def publishAll (calls : List Publication) : List Event :=
  calls.foldl (fun EVENTS p => publishEvent EVENTS p.type p.source p.payload p.now) []

/-- The last events that the bus has room for. -/
def recent (calls : List Publication) : List Event :=
  (calls.map Publication.event).rtake MAX_EVENTS

/-- The event is of a type, if one is given. -/
def Event.HasType (type : Option JsString) (event : Event) : Prop :=
  ∀ t, type = some t → event.type = some (.str t)

instance (type : Option JsString) (event : Event) : Decidable (event.HasType type) :=
  decidable_of_iff (∀ t ∈ type, event.type = some (.str t)) Iff.rfl

/-- Those of a type, if one is given. -/
def recentOf (type : Option JsString) (calls : List Publication) : List Event :=
  (recent calls).filter fun e => e.HasType type

/-! ## The events that are there -/

/-- A call is a push. -/
theorem publishEvent_contents (q : Fifo Event MAX_EVENTS) (p : Publication) :
    publishEvent q.contents p.type p.source p.payload p.now = (q.push p.event).contents :=
  q.contents_push_eq_ite p.event

theorem foldl_publishEvent (q : Fifo Event MAX_EVENTS) (calls : List Publication) :
    calls.foldl (fun EVENTS p => publishEvent EVENTS p.type p.source p.payload p.now) q.contents
      = ((calls.map Publication.event).foldl Fifo.push q).contents := by
  induction calls generalizing q with
  | nil => rfl
  | cons p calls ih =>
    rw [List.foldl_cons, List.map_cons, List.foldl_cons, publishEvent_contents]
    exact ih _

/-- The bus keeps the most recent events. -/
theorem publishAll_eq (calls : List Publication) : publishAll calls = recent calls :=
  (foldl_publishEvent .empty calls).trans (Fifo.contents_foldl_push _)

/-! ## What a query answers -/

theorem getEvents_eq {type : Option JsString} (htype : type ≠ some []) (EVENTS : List Event)
    (limit : ℤ) :
    getEvents EVENTS type limit = slice (EVENTS.filter fun e => e.HasType type) (-limit) := by
  cases type with
  | none =>
    have hall : EVENTS.filter (fun e => e.HasType none) = EVENTS :=
      List.filter_eq_self.mpr fun e _ => decide_eq_true nofun
    rw [hall]
    rfl
  | some t =>
    cases t with
    | nil => exact absurd rfl htype
    | cons u t =>
      have hiff : ∀ e : Event, e.HasType (some (u :: t)) ↔ e.type = some (.str (u :: t)) :=
        fun e => ⟨fun h => h _ rfl, fun h t' ht' => Option.some.inj ht' ▸ h⟩
      simp only [hiff]
      rfl

/-- A slice from the end takes the last elements, unless it is to take none. -/
theorem slice_neg_eq_iff {α : Type} (list : List α) (limit : ℕ) :
    slice list (-(limit : ℤ)) = list.rtake (min limit list.length) ↔ limit ≠ 0 ∨ list = [] := by
  rcases Nat.eq_zero_or_pos limit with rfl | hpos
  · have hslice : slice list (-((0 : ℕ) : ℤ)) = list := by simp [slice]
    rw [hslice, Nat.zero_min, List.rtake_zero]
    simp
  · have hslice : slice list (-(limit : ℤ)) = list.rtake limit := by
      rw [slice, if_pos (by omega), Int.natAbs_neg, Int.natAbs_natCast]
    rw [hslice]
    refine iff_of_true ?_ (.inl hpos.ne')
    show list.drop _ = list.drop _
    congr 1
    omega

/-- **The newest events.**  A query answers with the last events of the type, as many as
its limit, exactly when the limit is not zero or there is none. -/
theorem newest_iff (calls : List Publication) {type : Option JsString} (htype : type ≠ some [])
    (limit : ℕ) :
    getEvents (publishAll calls) type limit
        = (recentOf type calls).rtake (min limit (recentOf type calls).length) ↔
      limit ≠ 0 ∨ ∀ e ∈ recent calls, ¬ e.HasType type := by
  rw [getEvents_eq htype, publishAll_eq, ← recentOf, slice_neg_eq_iff, recentOf,
    List.filter_eq_nil_iff]
  simp only [decide_eq_true_eq]

/-- An event that is published at the time 7. -/
def knownPublication : Publication :=
  { type := some (.str (js "a")), source := some (.str (js "s")), payload := none, now := 7 }

/-- It is published twice. -/
def knownCalls : List Publication := [knownPublication, knownPublication]

theorem newest_known :
    getEvents (publishAll knownCalls) (some (js "a")) 1
      = (recentOf (some (js "a")) knownCalls).rtake
        (min 1 (recentOf (some (js "a")) knownCalls).length) :=
  (newest_iff knownCalls (by decide) 1).mpr (.inl one_ne_zero)

/-- With the limit 0, all of them are answered. -/
theorem newest_limit_zero :
    getEvents (publishAll knownCalls) (some (js "a")) 0
      = [knownPublication.event, knownPublication.event] ∧
    getEvents (publishAll knownCalls) (some (js "a")) 0
      ≠ (recentOf (some (js "a")) knownCalls).rtake
        (min 0 (recentOf (some (js "a")) knownCalls).length) := by
  have hanswer : getEvents (publishAll knownCalls) (some (js "a")) 0
      = [knownPublication.event, knownPublication.event] := rfl
  refine ⟨hanswer, ?_⟩
  rw [hanswer, Nat.zero_min, List.rtake_zero]
  exact List.cons_ne_nil _ _

end NewZone.Services.EventBus
