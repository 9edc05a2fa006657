import NewZone.Crypto.BodyBinding
import NewZone.Lib.Runs
import NewZone.Services.Directory

/-!
# Dead services expire

What the registry of the directory is for: a service holds a lease from its
registration or its last heartbeat on, for as many milliseconds as the last
heartbeat with a number has asked for, and a cleanup removes the services whose
lease has run out.  The registry keeps no such number.  It stores what a
heartbeat brings, whatever that is, and compares with it, so `undefined` keeps a
service for ever.

`leases_kept` says that the registry is one of leases in every run whose
heartbeats bring numbers.
-/

namespace NewZone.Services.Directory

open NewZone.Js NewZone.Js.Json NewZone.Leases NewZone.Runs NewZone.Crypto
open NewZone.Crypto.SignedPacket (Coercions)

/-! ## The leases of a run -/

/-- A time to live that is a number. -/
def numeric : Option Json → Option ℚ
  | some (.num x) => some x.value
  | _ => none

/-- The leases after a call. -/
def leasesAfter (leases : List (Lease Service ℚ)) : Op → List (Lease Service ℚ)
  | .register id now role url =>
    let leases := leases ++ [{ holder := { id, role, url }, renewed := now, length := 10000 }]
    if leases.length > MAX_SERVICES then leases.tail else leases
  | .heartbeat now role url ttl =>
    updateFirst (fun l => l.holder.answers role url)
      (fun l => { l with renewed := now, length := (numeric ttl).getD l.length }) leases
  | .cleanup now => expire (now : ℚ) leases
  | .remove id => leases.eraseP fun l => l.holder.id = id

/-- The registry, with the leases that its services hold. -/
structure World where
  services : List Entry
  leases : List (Lease Service ℚ)

def World.initial : World := { services := [], leases := [] }

variable (node : NodeSign) (coerce : Coercions) (round : ℚ → Option ℚ)

/-- One event. -/
def Step (w : World) (e : Event) (w' : World) : Prop :=
  w'.services = handle node coerce round w.services e ∧
    w'.leases = ((e.op node coerce).map (leasesAfter w.leases)).getD w.leases

/-- A heartbeat that renews a lease brings a number, or something that is
converted to the number that is in force. -/
def NumericOp (leases : List (Lease Service ℚ)) : Op → Prop
  | .heartbeat _ role url ttl =>
    ∀ l, leases.find? (fun l => l.holder.answers role url) = some l →
      numberOf round ttl = .ok (.finite ((numeric ttl).getD l.length))
  | _ => True

def Numeric (w : World) (e : Event) : Prop :=
  ∀ op, e.op node coerce = some op → NumericOp round w.leases op

/-! ## The registry holds leases -/

variable {node coerce round}

/-- The entry is that of the service, was renewed with its lease, and stores the
length of the lease. -/
structure Holds (round : ℚ → Option ℚ) (s : Entry) (l : Lease Service ℚ) : Prop where
  service : s.service = l.holder
  renewed : (s.ts : ℚ) = l.renewed
  length : numberOf round s.ttl = .ok (.finite l.length)

theorem Holds.answers {s : Entry} {l : Lease Service ℚ} (h : Holds round s l)
    (role url : Option Json) : s.service.answers role url = l.holder.answers role url := by
  rw [h.service]

/-- An entry is expired when its lease has run out. -/
theorem Holds.expired {s : Entry} {l : Lease Service ℚ} (h : Holds round s l) (now : ℕ) :
    expired round now s = .ok (decide (l.length < (now : ℚ) - l.renewed)) := by
  rw [Directory.expired, h.length, h.renewed]
  rfl

variable {services : List Entry} {leases : List (Lease Service ℚ)}

/-- A cleanup removes the services whose lease has run out. -/
theorem cleanupExpired_of_holds (h : List.Forall₂ (Holds round) services leases) (now : ℕ) :
    cleanupExpired round services now
        = (((services.zip leases).filter fun p => (now : ℚ) - p.2.renewed ≤ p.2.length).map
            Prod.fst, none) ∧
      List.Forall₂ (Holds round) (cleanupExpired round services now).1
        (expire (now : ℚ) leases) := by
  let live := fun l : Lease Service ℚ => decide ((now : ℚ) - l.renewed ≤ l.length)
  have hjudge : ∀ s l, Holds round s l → expired round now s = .ok (!live l) := by
    intro s l hl
    rw [hl.expired, ← decide_not]
    simp only [not_le]
  exact sweep_of_forall₂ h hjudge

/-- A call keeps the registry and the leases together. -/
theorem forall₂_after (h : List.Forall₂ (Holds round) services leases) {op : Op}
    (hop : NumericOp round leases op) :
    List.Forall₂ (Holds round) (after round services op) (leasesAfter leases op) := by
  cases op with
  | register id now role url =>
    have hentry : Holds round
        { id, role, url, ts := now, ttl := some (.num (.ofNat 10000)) }
        { holder := { id, role, url }, renewed := now, length := 10000 } :=
      ⟨rfl, rfl, by rw [numberOf, toNumber, Number.value_ofNat]; rfl⟩
    have hpush := List.rel_append h (.cons hentry .nil)
    unfold after registerService leasesAfter
    dsimp only
    rw [hpush.length_eq]
    split
    · rw [← List.drop_one, ← List.drop_one]
      exact List.forall₂_drop 1 hpush
    · exact hpush
  | heartbeat now role url ttl =>
    refine forall₂_updateFirst h (fun s l hl => hl.answers role url) fun s l hfind hl => ?_
    exact ⟨hl.service, rfl, hop l hfind⟩
  | cleanup now => exact (cleanupExpired_of_holds h now).2
  | remove id =>
    refine forall₂_eraseP h fun s l hl => ?_
    rw [← hl.service]
    rfl

/-- The registry of a run whose heartbeats bring numbers is one of leases. -/
theorem holds_of_run {es : List Event} {w : World}
    (hrun : Run (Guarded (Step node coerce round) (Numeric node coerce round)) .initial es w) :
    List.Forall₂ (Holds round) w.services w.leases := by
  have hinvariant : ∀ w e w', List.Forall₂ (Holds round) w.services w.leases →
      Guarded (Step node coerce round) (Numeric node coerce round) w e w' →
      List.Forall₂ (Holds round) w'.services w'.leases := by
    intro w e w' hw hstep
    obtain ⟨⟨hservices, hleases⟩, hnumeric⟩ := hstep
    rw [hservices, hleases, handle_eq]
    cases hop : e.op node coerce with
    | none => exact hw
    | some op => exact forall₂_after hw (hnumeric op hop)
  exact hrun.invariant hinvariant .nil

/-- **Dead services expire.**  In every run whose heartbeats bring numbers, a
cleanup goes through and keeps, in their order, exactly the entries that have
been registered or renewed no longer ago than the last number that a heartbeat
has brought for them, or ten seconds. -/
theorem leases_kept {es : List Event} {w : World}
    (hrun : Run (Guarded (Step node coerce round) (Numeric node coerce round)) .initial es w)
    (now : ℕ) :
    cleanupExpired round w.services now
        = (((w.services.zip w.leases).filter fun p =>
            (now : ℚ) - p.2.renewed ≤ p.2.length).map Prod.fst, none) ∧
      List.Forall₂ (fun s l => s.service = l.holder ∧ (s.ts : ℚ) = l.renewed)
        w.services w.leases := by
  have hholds := holds_of_run hrun
  exact ⟨(cleanupExpired_of_holds hholds now).1,
    hholds.imp fun s l h => ⟨h.service, h.renewed⟩⟩

/-! ## A service that has died -/

def identity : List (JsString × Json) :=
  [(js "role", .str (js "identity")), (js "url", .str (js "http://localhost:3000"))]

def knownContext : Context := { knownNodes := .empty, clock := 0 }

/-- The service registers. -/
def registration : Event := .register knownContext (js "svc-1") 0 (.json (.obj identity))

/-- A heartbeat of the service in the same millisecond. -/
def beat (ttl : Option Json) : Event :=
  .heartbeat knownContext 0
    (.json (.obj (identity ++ (ttl.map fun v => (js "ttl", v)).toList)))

/-- The world after the two. -/
def beaten (node : NodeSign) (coerce : Coercions) (round : ℚ → Option ℚ) (ttl : Option Json) :
    World :=
  let first : World :=
    { services := handle node coerce round [] registration
      leases := ((registration.op node coerce).map (leasesAfter [])).getD [] }
  { services := handle node coerce round first.services (beat ttl)
    leases := (((beat ttl).op node coerce).map (leasesAfter first.leases)).getD first.leases }

theorem run_beaten (node : NodeSign) (coerce : Coercions) (round : ℚ → Option ℚ)
    (ttl : Option Json) :
    Run (Step node coerce round) .initial [registration, beat ttl]
      (beaten node coerce round ttl) :=
  .cons ⟨rfl, rfl⟩ (.single ⟨rfl, rfl⟩)

theorem op_registration (node : NodeSign) (coerce : Coercions) :
    registration.op node coerce
      = some (.register (js "svc-1") 0 (some (.str (js "identity")))
          (some (.str (js "http://localhost:3000")))) := by
  have hresolved := @resolved_plain node coerce knownContext (.obj identity) nofun
  rw [registration, Event.op, hresolved]
  rfl

/-- The call of a heartbeat with a time to live. -/
theorem op_beat (node : NodeSign) (coerce : Coercions) (ttl : Json) :
    (beat (some ttl)).op node coerce
      = some (.heartbeat 0 (some (.str (js "identity")))
          (some (.str (js "http://localhost:3000"))) (some ttl)) := by
  have hresolved := @resolved_plain node coerce knownContext
    (.obj (identity ++ [(js "ttl", ttl)])) nofun
  rw [beat, Event.op, Option.map_some, Option.toList_some, hresolved]
  rfl

/-- The service asks for five seconds. -/
theorem leases_kept_known :
    ∃ w, Run (Guarded (Step (Tabulated.sign [] []) SignedPacket.knownCoercions some)
          (Numeric (Tabulated.sign [] []) SignedPacket.knownCoercions some)) .initial
        [registration, beat (some (.num (.ofNat 5000)))] w ∧
      cleanupExpired some w.services 6000
        = (((w.services.zip w.leases).filter fun p =>
            ((6000 : ℕ) : ℚ) - p.2.renewed ≤ p.2.length).map Prod.fst, none) ∧
      List.Forall₂ (fun s l => s.service = l.holder ∧ (s.ts : ℚ) = l.renewed)
        w.services w.leases := by
  have hregister : Numeric (Tabulated.sign [] []) SignedPacket.knownCoercions some .initial
      registration := by
    intro op hop
    rw [op_registration] at hop
    obtain rfl := Option.some.inj hop
    exact trivial
  have hbeat : ∀ w, Numeric (Tabulated.sign [] []) SignedPacket.knownCoercions some w
      (beat (some (.num (.ofNat 5000)))) := by
    intro w op hop
    rw [op_beat] at hop
    obtain rfl := Option.some.inj hop
    exact fun l _ => rfl
  have hrun : Run (Guarded (Step (Tabulated.sign [] []) SignedPacket.knownCoercions some)
        (Numeric (Tabulated.sign [] []) SignedPacket.knownCoercions some)) .initial
      [registration, beat (some (.num (.ofNat 5000)))]
      (beaten (Tabulated.sign [] []) SignedPacket.knownCoercions some
        (some (.num (.ofNat 5000)))) :=
    .cons ⟨⟨rfl, rfl⟩, hregister⟩ (.single ⟨⟨rfl, rfl⟩, hbeat _⟩)
  exact ⟨_, hrun, leases_kept hrun 6000⟩

/-- **A dead service stays.**  Its one heartbeat came without a `ttl`. -/
theorem dead_service_stays :
    ∃ w, Run (Step (Tabulated.sign [] []) SignedPacket.knownCoercions some) .initial
        [registration, beat none] w ∧
      (cleanupExpired some w.services 1000000).1.length = 1 ∧
      ((w.services.zip w.leases).filter fun p =>
        (1000000 : ℚ) - p.2.renewed ≤ p.2.length) = [] :=
  ⟨_, run_beaten _ _ _ _, by decide +kernel, by decide +kernel⟩

end NewZone.Services.Directory
