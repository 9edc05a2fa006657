import NewZone.Lib.Process
import NewZone.Lib.Runs
import NewZone.Services.PacketCopy
import NewZone.Services.Queue

/-!
# Packets that come again

Nothing keeps the nonces of the packets that have been accepted.  So a packet
takes effect as often as a copy of it comes in time: `applied_once_iff` says for
which requests that is at most once.  It is about every service that hands the
payload of a packet to a route, with the queue service as an instance.
-/

namespace NewZone.Services

open NewZone.Js NewZone.Js.Json NewZone.ExceptBind NewZone.Runs NewZone.Crypto
open NewZone.Crypto.SignedPacket (Coercions knownCoercions)
open NewZone.Crypto.RoutingPacket

/-- A server: the routes that read the body, each with the payloads that it
takes, and what is answered elsewhere.  A payload that is refused changes
nothing. -/
structure Service (σ : Type) where
  route : Request → Option (ℕ → σ → Option Json → σ × Response)
  answer : σ → Request → σ × Option Response
  Takes : Request → σ → Option Json → Prop
  status_iff : ∀ {req f}, route req = some f → ∀ now state payload,
    (f now state payload).2.status = 200 ↔ Takes req state payload
  refused : ∀ {req f}, route req = some f → ∀ now state payload,
    ¬ Takes req state payload → (f now state payload).1 = state

namespace Service

variable {σ : Type} (service : Service σ) (node : NodeSign) (coerce : Coercions)

def handle (state : σ) (call : Arrival) : σ × Option Response :=
  match service.route call.req with
  | some f => withBody node coerce call.ctx state call.req.body (f call.ctx.clock state)
  | none => service.answer state call.req

/-- A request, and the state that it finds. -/
structure Moment (σ : Type) where
  state : σ
  call : Arrival

/-- The moments of a list of requests, one after the other, until one of them ends the
process. -/
def history (state : σ) : List Arrival → List (Moment σ)
  | [] => []
  | call :: calls =>
    ⟨state, call⟩ ::
      (Process.next (service.handle node coerce) (some state) call).elim [] fun state =>
        history state calls

/-- The body is a copy of the packet, with a signature of its own. -/
def CopyOf (c : SignCall) (body : Body) (packet : Json) : Prop :=
  body = .json packet ∧ (signedFields packet).Same c.packet.signed

/-- A route is given a copy of the packet, and answers 200. -/
def Applies (c : SignCall) (l : Moment σ) : Prop :=
  ∃ f packet response, service.route l.call.req = some f ∧
    CopyOf c l.call.req.body packet ∧
    (service.handle node coerce l.state l.call).2 = some response ∧
    response.status = 200

/-- A copy of the packet that is signed comes within 300 s to a route that takes
its payload. -/
def ComesInTime (c : SignCall) (l : Moment σ) : Prop :=
  ∃ f packet, service.route l.call.req = some f ∧
    CopyOf c l.call.req.body packet ∧ SignedFor node coerce c l.call.ctx packet ∧
    |(l.call.ctx.clock : ℚ) - c.now.value| ≤ 300000 ∧
    service.Takes l.call.req l.state (field packet "payload")

variable {service} {node} {coerce}

/-! ## What takes effect -/

/-- A copy takes effect exactly when it comes in time. -/
theorem applies_iff {c : SignCall} (hmade : c.Made node) (l : Moment σ) :
    service.Applies node coerce c l ↔ service.ComesInTime node coerce c l := by
  refine exists₂_congr fun f packet => ?_
  rw [exists_and_left]
  refine and_congr_right fun hroute => ?_
  rw [exists_and_left]
  refine and_congr_right fun hcopy => ?_
  obtain ⟨hbody, hsame⟩ := hcopy
  have hversion := (hmade.fields_of_same hsame).version
  rw [← and_assoc, ← verifyPacket_copy_iff hmade hsame,
    ← service.status_iff hroute l.call.ctx.clock]
  unfold handle
  rw [hroute]
  dsimp only
  rw [hbody]
  constructor
  · rintro ⟨response, h, hstatus⟩
    obtain ⟨payload, crypto, hparse, hanswer, -⟩ :=
      withBody_ok_iff.mp ⟨Prod.ext rfl h, hstatus⟩
    obtain ⟨node_id, haccepted⟩ := accepted_of_packet hversion hparse
    rw [← payload_of_accepted haccepted, hanswer]
    exact ⟨⟨node_id, payload, haccepted⟩, hstatus⟩
  · rintro ⟨⟨node_id, payload, haccepted⟩, hstatus⟩
    have hparse := parse_crypto_iff.mpr ⟨packet, node_id, rfl, haccepted⟩
    rw [withBody_of_payload hparse, payload_of_accepted haccepted]
    exact ⟨_, rfl, hstatus⟩

/-- **When a packet takes effect at most once.**  In every sequence of requests to
a service, the payload of a packet that has been made is applied at most once,
exactly when at most one signed copy of the packet comes within 300 s to a route
that takes the payload. -/
theorem applied_once_iff {c : SignCall} (hmade : c.Made node) (state : σ)
    (calls : List Arrival) :
    AtMostOne (service.Applies node coerce c) (service.history node coerce state calls) ↔
      AtMostOne (service.ComesInTime node coerce c)
        (service.history node coerce state calls) :=
  atMostOne_congr fun l _ => applies_iff hmade l

end Service

/-! ## The queue service -/

namespace Queue

variable (engine : Engine)

/-- The payloads that a route of the queue service takes. -/
def Takes (req : Request) (store : Store) (payload : Option Json) : Prop :=
  req.url = js "/push" ∨ ∃ name,
    engine.propertyKey (member payload "queue") = .ok name ∧
      (store.QUEUES.lookup name ≠ .inherited ∨
        req.url = js "/dequeue" ∧ name ∈ withoutParameters)

variable {engine}

theorem route_cases {req : Request} {f : ℕ → Store → Option Json → Store × Response}
    (h : route engine req = some f) :
    (req.url = js "/push" ∧ f = fun _ => push) ∨
      (req.url = js "/enqueue" ∧ f = enqueueRoute engine) ∨
      (req.url = js "/dequeue" ∧ f = fun _ => dequeueRoute engine) := by
  unfold route at h
  split_ifs at h with hpush henqueue hdequeue
  · exact .inl ⟨hpush.2, (Option.some.inj h).symm⟩
  · exact .inr (.inl ⟨henqueue.2, (Option.some.inj h).symm⟩)
  · exact .inr (.inr ⟨hdequeue.2, (Option.some.inj h).symm⟩)

/-- A route answers 200 where it takes the payload, and elsewhere it leaves the
store as it is. -/
theorem route_takes {req : Request} {f : ℕ → Store → Option Json → Store × Response}
    (h : route engine req = some f) (now : ℕ) (store : Store) (payload : Option Json) :
    ((f now store payload).2.status = 200 ↔ Takes engine req store payload) ∧
      (¬ Takes engine req store payload → (f now store payload).1 = store) := by
  obtain ⟨hurl, rfl⟩ | ⟨hurl, rfl⟩ | ⟨hurl, rfl⟩ := route_cases h
  · exact ⟨⟨fun _ => .inl hurl, fun _ => rfl⟩, fun hnot => absurd (.inl hurl) hnot⟩
  · have htakes : Takes engine req store payload ↔ ∃ r, enqueue engine store.QUEUES
        (member payload "queue") (member payload "payload") now = .ok r := by
      rw [enqueue_ok_iff]
      simp [Takes, hurl, show js "/enqueue" ≠ js "/push" by decide,
        show js "/enqueue" ≠ js "/dequeue" by decide]
    rw [htakes, enqueueRoute]
    cases enqueue engine store.QUEUES (member payload "queue")
        (member payload "payload") now with
    | ok r => exact ⟨⟨fun _ => ⟨r, rfl⟩, fun _ => rfl⟩, fun hnot => absurd ⟨r, rfl⟩ hnot⟩
    | error e => exact ⟨⟨nofun, nofun⟩, fun _ => rfl⟩
  · have htakes : Takes engine req store payload ↔
        ∃ r, dequeue engine store.QUEUES (member payload "queue") = .ok r := by
      rw [dequeue_ok_iff]
      simp [Takes, hurl, show js "/dequeue" ≠ js "/push" by decide]
    rw [htakes]
    dsimp only
    rw [dequeueRoute]
    cases dequeue engine store.QUEUES (member payload "queue") with
    | ok r => exact ⟨⟨fun _ => ⟨r, rfl⟩, fun _ => rfl⟩, fun hnot => absurd ⟨r, rfl⟩ hnot⟩
    | error e => exact ⟨⟨nofun, nofun⟩, fun _ => rfl⟩

/-- The queue service. -/
def service (engine : Engine) (query : JsString → Option (Option JsString × ℤ)) :
    Service Store where
  route := route engine
  answer := answer query
  Takes := Takes engine
  status_iff h now store payload := (route_takes h now store payload).1
  refused h now store payload := (route_takes h now store payload).2

/-! ## A job that is delivered again -/

def job : Json :=
  .obj [(js "queue", .str (js "tasks")), (js "payload", .str (js "job"))]

def jobSigned : Signed := { knownSigned with payload := some job }

/-- The Ed25519 signature of its text by the known seed. -/
def jobSignature : { s : Bytes // s.length = 64 } :=
  ⟨Tabulated.hex 32 0xd5f3764afd2504034ded233c4fff39d6742c1fee1da1468f2006eb9221aea8ce ++
    Tabulated.hex 32 0x77301bcf8b724094c98071122fdf3b405618b2ebcf9fa72fc575e77d78825507, by
    simp⟩

def jobNode : NodeSign :=
  Tabulated.signOnly [(Tabulated.knownSeed, Tabulated.knownKey)]
    [((buildSigningPayload jobSigned, Tabulated.knownKey), jobSignature)]

def jobCall : SignCall :=
  { knownCall with
    params := { knownCall.params with payload := some job }
    packet :=
      { knownCall.packet with
        payload := some job, signature := Base64.encode jobSignature.1 } }

/-- The packet comes to `POST /enqueue`, so many milliseconds after it was made. -/
def deliverJob (ms : ℕ) : Arrival where
  ctx := { knownNodes := announcedNodes, clock := 1700000000000 + ms }
  req := { method := .post, url := js "/enqueue", body := .json jobCall.packet.toJson }

def knownQueue : Service Store := service .plain fun _ => none

theorem jobCall_made : jobCall.Made jobNode :=
  made_of_entry rfl rfl rfl rfl

theorem job_copy : (signedFields jobCall.packet.toJson).Same jobCall.packet.signed := by
  rw [signedFields_toJson]
  rfl

theorem job_signed (ms : ℕ) :
    SignedFor jobNode knownCoercions jobCall (deliverJob ms).ctx
      jobCall.packet.toJson := by
  refine @signedFor_announced _ _ jobCall rfl jobSignature rfl ?_ _
  have hsigned : jobCall.packet.signed = jobSigned := rfl
  rw [hsigned]
  exact List.mem_singleton_self _

theorem job_fresh {ms : ℕ} (h : ms ≤ 300000) :
    |((deliverJob ms).ctx.clock : ℚ) - jobCall.now.value| ≤ 300000 := by
  have hage : ((deliverJob ms).ctx.clock : ℚ) - jobCall.now.value = ms := by
    simp [deliverJob, jobCall, knownCall]
  rw [hage, abs_of_nonneg (Nat.cast_nonneg _)]
  exact_mod_cast h

/-- The job comes in time, whatever is in the queue. -/
theorem job_comesInTime {ms : ℕ} (h : ms ≤ 300000) {store : Store}
    (htasks : store.QUEUES.lookup (js "tasks") ≠ .inherited) :
    knownQueue.ComesInTime jobNode knownCoercions jobCall ⟨store, deliverJob ms⟩ :=
  ⟨_, _, rfl, ⟨rfl, job_copy⟩, job_signed ms, job_fresh h,
    .inr ⟨js "tasks", rfl, .inl htasks⟩⟩

theorem handle_deliverJob {ms : ℕ} (h : ms ≤ 300000) (store : Store) :
    knownQueue.handle jobNode knownCoercions store (deliverJob ms)
      = ((enqueueRoute .plain (deliverJob ms).ctx.clock store (some job)).1,
        some (enqueueRoute .plain (deliverJob ms).ctx.clock store (some job)).2) := by
  have hparse := parse_copy jobCall_made job_copy (job_signed ms) (job_fresh h)
  show withBody _ _ _ _ (.json jobCall.packet.toJson) _ = _
  rw [withBody_of_payload hparse]
  rfl

/-- The queue after the job has been delivered once. -/
def jobQueued : Store :=
  (enqueueRoute .plain (deliverJob 0).ctx.clock .initial (some job)).1

/-- The process lives on, and gets the second request. -/
theorem history_deliverJob (ms : ℕ) :
    knownQueue.history jobNode knownCoercions .initial [deliverJob 0, deliverJob ms]
      = [⟨.initial, deliverJob 0⟩, ⟨jobQueued, deliverJob ms⟩] := by
  have hnext : Process.next (knownQueue.handle jobNode knownCoercions) (some .initial)
      (deliverJob 0) = some jobQueued :=
    Process.next_some_eq_some_iff.mpr ⟨_, handle_deliverJob (Nat.zero_le _) _⟩
  have hlast : ∀ process : Option Store, process.elim [] (fun state =>
      knownQueue.history jobNode knownCoercions state []) = [] := by
    intro process
    cases process <;> rfl
  rw [Service.history, hnext, Option.elim_some, Service.history, hlast]

/-- A job that comes again after its window is put into the queue once. -/
theorem job_applied_once :
    AtMostOne (knownQueue.Applies jobNode knownCoercions jobCall)
      (knownQueue.history jobNode knownCoercions .initial [deliverJob 0, deliverJob 300001]) := by
  refine (Service.applied_once_iff jobCall_made _ _).mpr ?_
  rw [history_deliverJob]
  refine List.pairwise_pair.mpr fun h => ?_
  obtain ⟨-, f, packet, -, -, -, hfresh, -⟩ := h
  norm_num [deliverJob, jobCall, knownCall] at hfresh

/-- **A packet takes effect twice.**  The job comes again after a second, and is in
the queue twice. -/
theorem job_applied_twice :
    jobCall.Made jobNode ∧
      ¬ AtMostOne (knownQueue.Applies jobNode knownCoercions jobCall)
        (knownQueue.history jobNode knownCoercions .initial
          [deliverJob 0, deliverJob 1000]) ∧
      (knownQueue.handle jobNode knownCoercions
          (knownQueue.handle jobNode knownCoercions .initial (deliverJob 0)).1
          (deliverJob 1000)).1.QUEUES.lookup (js "tasks")
        = .own [⟨1700000000000, some (.str (js "job"))⟩,
          ⟨1700000001000, some (.str (js "job"))⟩] := by
  refine ⟨jobCall_made, fun honce => ?_, ?_⟩
  · rw [history_deliverJob] at honce
    refine List.pairwise_pair.mp honce ⟨(Service.applies_iff jobCall_made _).mpr
      (job_comesInTime (by decide) ?_), (Service.applies_iff jobCall_made _).mpr
      (job_comesInTime (by decide) ?_)⟩
    · nofun
    · nofun
  · rw [handle_deliverJob (by decide), handle_deliverJob (by decide)]
    rfl

end Queue

end NewZone.Services
