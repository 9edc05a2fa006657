import NewZone.Lib.Process
import NewZone.Services.Consensus

/-!
# What the requests do to the proposals

A request to the consensus server proposes, or judges, or leaves the proposals
alone (`handle_store`), and of a stored proposal that changes the proof and the
status in the way that `decision_apply` says.  Or it ends the process, and the
proposals with it (`handle_eq_none_iff`).
-/

namespace NewZone.Services.Consensus

open NewZone.Js NewZone.Js.Json NewZone.ExceptBind NewZone.Crypto
open NewZone.Crypto.SignedPacket (Coercions)

/-! ## Effects -/

inductive Effect where
  | nothing
  | proposes (key : JsString) (p : Proposal)
  | judges (key : JsString) (payload proof_id : Option Json) (valid : Bool)
  deriving DecidableEq

/-- The status that a verdict sets. -/
def verdict (valid : Bool) : Status := if valid then .accepted else .rejected

def Store.apply (proposals : Store) : Effect → Store
  | .nothing => proposals
  | .proposes key p => proposals.assign key p
  | .judges key _ _ valid => proposals.assignStatus key (verdict valid)

variable (hash : NodeHash) (engine : Engine) (node : NodeSign) (coerce : Coercions)

/-- What `POST /propose` does with a payload. -/
def proposal (payload : Option Json) : Effect :=
  match proposalOf hash engine payload with
  | .ok (key, p) => .proposes key p
  | .error _ => .nothing

/-- What `POST /verify` does with a payload. -/
def judgement (payload : Option Json) : Effect :=
  let inner := member payload "payload"
  let proof_id := member payload "proof_id"
  match verifyConsensusProof hash inner proof_id, idOf engine payload with
  | .ok valid, .ok (some key) => .judges key inner proof_id valid
  | _, _ => .nothing

/-- What a route does, if the body of the request gives it a payload. -/
def ofPayload (call : Arrival) (route : Option Json → Effect) : Effect :=
  match parseRequestBodyWithCrypto node coerce call.ctx call.req.body with
  | .ok (.payload payload _) => route payload
  | _ => .nothing

def effect (call : Arrival) : Effect :=
  if call.req.method = .post ∧ call.req.url = js "/propose" then
    ofPayload node coerce call (proposal hash engine)
  else if call.req.method = .post ∧ call.req.url = js "/verify" then
    ofPayload node coerce call (judgement hash engine)
  else .nothing

theorem propose_store (proposals : Store) (payload : Option Json) :
    (propose hash engine proposals payload).1
      = proposals.apply (proposal hash engine payload) := by
  unfold propose proposal
  cases proposalOf hash engine payload with
  | ok stored => rfl
  | error response => rfl

theorem verify_store (proposals : Store) (payload : Option Json) :
    (verify hash engine proposals payload).1
      = proposals.apply (judgement hash engine payload) := by
  unfold verify judgement
  dsimp only
  cases verifyConsensusProof hash (member payload "payload")
      (member payload "proof_id") with
  | error e => rfl
  | ok valid =>
    cases idOf engine payload with
    | error e => rfl
    | ok id =>
      cases id with
      | none => rfl
      | some key => rfl

theorem withBody_store {proposals : Store} {call : Arrival}
    {route : Option Json → Store × Response} {change : Option Json → Effect}
    (h : ∀ payload, (route payload).1 = proposals.apply (change payload)) :
    (withBody node coerce call.ctx proposals call.req.body route).1
      = proposals.apply (ofPayload node coerce call change) := by
  unfold withBody ofPayload
  cases parseRequestBodyWithCrypto node coerce call.ctx call.req.body with
  | error e => rfl
  | ok parsed =>
    cases parsed with
    | answered response => rfl
    | payload payload crypto => exact h payload

/-- What a request does to the store. -/
theorem handle_store (proposals : Store) (call : Arrival) :
    (handle hash engine node coerce call.ctx proposals call.req).1
      = proposals.apply (effect hash engine node coerce call) := by
  unfold handle effect
  by_cases hget : call.req.method = .get
  · have hpost : call.req.method ≠ .post := by simp [hget]
    simp only [hpost, false_and, if_false]
    split_ifs <;> rfl
  · simp only [hget, false_and, if_false]
    split_ifs with hpropose hgenerate hverify hverify
    · exact withBody_store node coerce (propose_store hash engine proposals)
    · exact absurd (hgenerate.2.symm.trans hverify.2) (by decide)
    · have hnothing := @withBody_store node coerce proposals call
        (fun payload => (proposals, generate hash payload)) (fun _ => .nothing)
        fun _ => rfl
      rw [hnothing, ofPayload]
      split <;> rfl
    · exact withBody_store node coerce (verify_store hash engine proposals)
    · rfl

/-! ## The end of the process -/

/-- The request comes to a route that reads its body, which ends the process. -/
def EndsProcess (call : Arrival) : Prop :=
  call.req.method = .post ∧
    (call.req.url = js "/propose" ∨ call.req.url = js "/generate" ∨
      call.req.url = js "/verify") ∧
    Fatal node coerce call.ctx call.req.body

theorem handle_eq_none_iff (proposals : Store) (call : Arrival) :
    (handle hash engine node coerce call.ctx proposals call.req).2 = none ↔
      EndsProcess node coerce call := by
  unfold handle EndsProcess
  by_cases hget : call.req.method = .get
  · have hpost : call.req.method ≠ .post := by simp [hget]
    simp only [hpost, false_and, if_false, iff_false]
    split_ifs <;> nofun
  · simp only [hget, false_and, if_false]
    split_ifs with hpropose hgenerate hverify
    · rw [withBody_eq_none_iff]
      simp [hpropose]
    · rw [withBody_eq_none_iff]
      simp [hgenerate]
    · rw [withBody_eq_none_iff]
      simp [hverify]
    · refine iff_of_false nofun fun h => ?_
      obtain ⟨hmethod, hurl | hurl | hurl, -⟩ := h
      · exact hpropose ⟨hmethod, hurl⟩
      · exact hgenerate ⟨hmethod, hurl⟩
      · exact hverify ⟨hmethod, hurl⟩

/-- A request that ends the process has changed nothing before. -/
theorem effect_of_endsProcess {call : Arrival} (h : EndsProcess node coerce call) :
    effect hash engine node coerce call = .nothing := by
  obtain ⟨-, -, e, he⟩ := h
  have hpayload : ∀ route, ofPayload node coerce call route = .nothing := by
    intro route
    rw [ofPayload, he]
  unfold effect
  split_ifs <;> first | exact hpayload _ | rfl

/-! ## Decisions -/

/-- The proof of a proposal, and its status. -/
def Store.decision (proposals : Store) (key : JsString) :
    Option (JsString × Status) :=
  (proposals.proposal key).map fun p => (p.proof, p.status)

theorem decision_assign (proposals : Store) (key : JsString) (p : Proposal)
    (other : JsString) :
    (proposals.assign key p).decision other
      = if key = other then some (p.proof, p.status)
        else proposals.decision other := by
  unfold Store.assign Store.decision Store.proposal
  by_cases hkey : key = js "__proto__"
  · rw [dif_pos hkey]
    subst hkey
    by_cases hother : other = js "__proto__"
    · subst hother
      simp
    · simp [hother, Ne.symm hother]
  · rw [dif_neg hkey]
    by_cases hother : other = js "__proto__"
    · subst hother
      simp [hkey]
    · simp only [hother, if_false, PlainObject.get_set]
      split_ifs <;> rfl

theorem setMember_proof (p : Proposal) (key : JsString) (v : Json) :
    (p.setMember key v).proof = p.proof ∧ (p.setMember key v).status = p.status := by
  unfold Proposal.setMember
  split_ifs <;> exact ⟨rfl, rfl⟩

theorem decision_congr {proposals proposals' : Store}
    (hown : proposals.own = proposals'.own)
    (hproto : proposals.proto.map (fun p => (p.proof, p.status))
      = proposals'.proto.map fun p => (p.proof, p.status)) (key : JsString) :
    proposals.decision key = proposals'.decision key := by
  unfold Store.decision Store.proposal
  split_ifs
  · exact hproto
  · rw [hown]

/-- What is written where no proposal has the id is no decision. -/
theorem decision_assignStatus_of_none {proposals : Store} {key : JsString}
    (h : proposals.decision key = none) (status : Status) (other : JsString) :
    (proposals.assignStatus key status).decision other = proposals.decision other := by
  unfold Store.assignStatus
  by_cases hkey : key = js "__proto__"
  · subst hkey
    have hproto : proposals.proto = none := by
      simpa [Store.decision, Store.proposal] using h
    rw [dif_pos rfl, hproto]
    exact decision_congr rfl rfl other
  · have hown : proposals.own.get key = none := by
      simpa [Store.decision, Store.proposal, hkey] using h
    rw [dif_neg hkey, hown]
    cases hproto : proposals.proto with
    | none =>
      dsimp only
      split_ifs
      · exact decision_congr rfl rfl other
      · rfl
    | some p =>
      dsimp only
      split
      · rename_i ms hmember
        obtain ⟨hproof, hstatus⟩ := setMember_proof p key (withStatus status ms)
        apply decision_congr
        · rfl
        · simp [hproto, hproof, hstatus]
      · exact decision_congr rfl rfl other
      · rfl
      · split_ifs
        · exact decision_congr rfl rfl other
        · rfl

/-- What is written into a proposal changes the decision about it alone. -/
theorem decision_assignStatus (proposals : Store) (key : JsString)
    (status : Status) (other : JsString) :
    (proposals.assignStatus key status).decision other
      = if key = other then (proposals.decision other).map fun d => (d.1, status)
        else proposals.decision other := by
  cases hdecision : proposals.decision key with
  | none =>
    rw [decision_assignStatus_of_none hdecision]
    split_ifs with hother
    · rw [← hother, hdecision]
      rfl
    · rfl
  | some d =>
    unfold Store.assignStatus
    by_cases hkey : key = js "__proto__"
    · subst hkey
      obtain ⟨p, hproto, -⟩ : ∃ p, proposals.proto = some p ∧ (p.proof, p.status) = d := by
        simpa [Store.decision, Store.proposal] using hdecision
      rw [dif_pos rfl, hproto]
      by_cases hother : other = js "__proto__"
      · subst hother
        simp [Store.decision, Store.proposal, hproto]
      · simp [Store.decision, Store.proposal, hother, Ne.symm hother]
    · obtain ⟨p, hown, -⟩ : ∃ p, proposals.own.get key = some p ∧ (p.proof, p.status) = d := by
        simpa [Store.decision, Store.proposal, hkey] using hdecision
      rw [dif_neg hkey, hown]
      by_cases hother : key = other
      · subst hother
        simp [Store.decision, Store.proposal, hkey, hown]
      · dsimp only
        by_cases hproto : other = js "__proto__"
        · simp [Store.decision, Store.proposal, hproto, hkey]
        · simp [Store.decision, Store.proposal, hproto, hother,
            PlainObject.get_set_of_ne _ hother]

theorem status_of_proposalOf {payload : Option Json} {key : JsString}
    {p : Proposal} (h : proposalOf hash engine payload = .ok (key, p)) :
    p.status = .pending := by
  unfold proposalOf at h
  split at h
  · dsimp only at h
    split at h
    · split at h
      · obtain ⟨-, rfl⟩ := Prod.mk.inj (Except.ok.inj h)
        rfl
      · cases h
    · cases h
  · cases h
  · cases h

/-- What a request does comes from one of the two routes. -/
theorem of_effect {call : Arrival} (h : effect hash engine node coerce call ≠ .nothing) :
    ∃ payload, effect hash engine node coerce call = proposal hash engine payload ∨
      effect hash engine node coerce call = judgement hash engine payload := by
  have hpayload : ∀ {route : Option Json → Effect},
      ofPayload node coerce call route ≠ .nothing →
      ∃ payload, ofPayload node coerce call route = route payload := by
    intro route hne
    unfold ofPayload at hne ⊢
    split at hne
    · exact ⟨_, rfl⟩
    · exact absurd rfl hne
  unfold effect at h ⊢
  split_ifs at h ⊢
  · exact (hpayload h).imp fun _ h => .inl h
  · exact (hpayload h).imp fun _ h => .inr h
  · exact absurd rfl h

/-- A proposal that is made is pending. -/
theorem status_of_effect {call : Arrival} {key : JsString} {p : Proposal}
    (h : effect hash engine node coerce call = .proposes key p) :
    p.status = .pending := by
  obtain ⟨payload, hproposal | hjudgement⟩ :=
    @of_effect hash engine node coerce call (by simp [h])
  · rw [hproposal, proposal] at h
    split at h
    · rename_i hof
      obtain ⟨rfl, rfl⟩ := Effect.proposes.inj h
      exact status_of_proposalOf hash engine hof
    · cases h
  · rw [hjudgement, judgement] at h
    split at h <;> cases h

/-- A judgement says whether the payload has the proof, both as submitted. -/
theorem valid_of_effect {call : Arrival} {key : JsString}
    {payload proof_id : Option Json} {valid : Bool}
    (h : effect hash engine node coerce call = .judges key payload proof_id valid) :
    verifyConsensusProof hash payload proof_id = .ok valid := by
  obtain ⟨body, hproposal | hjudgement⟩ :=
    @of_effect hash engine node coerce call (by simp [h])
  · rw [hproposal, proposal] at h
    split at h <;> cases h
  · rw [hjudgement, judgement] at h
    split at h
    · rename_i hvalid _
      obtain ⟨-, rfl, rfl, rfl⟩ := Effect.judges.inj h
      exact hvalid
    · cases h

theorem decision_initial (key : JsString) : Store.initial.decision key = none := by
  unfold Store.decision Store.proposal
  split_ifs <;> rfl

/-- What a request does to the decisions. -/
theorem decision_apply (proposals : Store) (e : Effect) (key : JsString) :
    (proposals.apply e).decision key
      = match e with
        | .nothing => proposals.decision key
        | .proposes key' p =>
          if key' = key then some (p.proof, p.status) else proposals.decision key
        | .judges key' _ _ valid =>
          if key' = key then
            (proposals.decision key).map fun d => (d.1, verdict valid)
          else proposals.decision key := by
  cases e with
  | nothing => rfl
  | proposes key' p => exact decision_assign proposals key' p key
  | judges key' payload proof_id valid =>
    exact decision_assignStatus proposals key' (verdict valid) key

/-! ## Runs -/

/-- The proposals, and for each id the payload of the request that has set its
status, if it was a `/verify`. -/
structure Judged where
  proposals : Store
  judgedBy : JsString → Option (Option Json)

def Judged.initial : Judged :=
  { proposals := .initial, judgedBy := fun _ => none }

def note (judgedBy : JsString → Option (Option Json)) :
    Effect → JsString → Option (Option Json)
  | .nothing, key => judgedBy key
  | .proposes key' _, key => if key' = key then none else judgedBy key
  | .judges key' payload _ _, key => if key' = key then some payload else judgedBy key

def Judged.after (s : Judged) (call : Arrival) : Judged :=
  { proposals := (handle hash engine node coerce call.ctx s.proposals call.req).1
    judgedBy := note s.judgedBy (effect hash engine node coerce call) }

/-- The server, which also notes who has set a status. -/
def Judged.serve (s : Judged) (call : Arrival) : Judged × Option Response :=
  (s.after hash engine node coerce call,
    (handle hash engine node coerce call.ctx s.proposals call.req).2)

variable {hash engine node coerce}

/-- A request that the process survives. -/
theorem Judged.of_next {s t : Judged} {call : Arrival}
    (h : Process.next (Judged.serve hash engine node coerce) (some s) call = some t) :
    t = s.after hash engine node coerce call := by
  obtain ⟨response, h⟩ := Process.next_some_eq_some_iff.mp h
  exact (congrArg Prod.fst h).symm

theorem serve_eq_none_iff (s : Judged) (call : Arrival) :
    (s.serve hash engine node coerce call).2 = none ↔ EndsProcess node coerce call :=
  handle_eq_none_iff hash engine node coerce s.proposals call

/-- A request that does something leaves the process alive. -/
theorem Judged.next_of_effect (s : Judged) {call : Arrival}
    (h : effect hash engine node coerce call ≠ .nothing) :
    Process.next (Judged.serve hash engine node coerce) (some s) call
      = some (s.after hash engine node coerce call) :=
  Process.next_of_not_ends serve_eq_none_iff fun hends =>
    h (effect_of_endsProcess hash engine node coerce hends)

theorem Judged.decision_after (s : Judged) (call : Arrival) (key : JsString) :
    (s.after hash engine node coerce call).proposals.decision key
      = match effect hash engine node coerce call with
        | .nothing => s.proposals.decision key
        | .proposes key' p =>
          if key' = key then some (p.proof, .pending) else s.proposals.decision key
        | .judges key' _ _ valid =>
          if key' = key then
            (s.proposals.decision key).map fun d => (d.1, verdict valid)
          else s.proposals.decision key := by
  rw [Judged.after, handle_store, decision_apply]
  split
  · rfl
  · rename_i heffect
    rw [status_of_effect hash engine node coerce heffect]
  · rfl

end NewZone.Services.Consensus
