import NewZone.Crypto.BodyBinding
import NewZone.Services.Decisions

/-!
# What the status of a proposal says

A proposal should be accepted because its own payload has been verified, and
the decision should stay.  `/verify` does not look at the proof that is stored,
and nothing keeps a decided proposal from being judged or proposed again.
`accepted_justified_iff` and `decision_stays_iff` say which requests keep the
status meaningful, as long as none of them ends the process.
-/

namespace NewZone.Services.Consensus

open NewZone.Js NewZone.Js.Json NewZone.ExceptBind NewZone.Crypto
open NewZone.Crypto.SignedPacket (Coercions knownCoercions)

variable {hash : NodeHash} {engine : Engine} {node : NodeSign} {coerce : Coercions}

/-! ## Acceptance -/

/-- The request that has set an accepted proposal's status has verified a
payload with the proof of the proposal. -/
def Justified (hash : NodeHash) (s : Judged) : Prop :=
  ∀ key proof, s.proposals.decision key = some (proof, .accepted) →
    ∃ payload, s.judgedBy key = some payload ∧
      generateConsensusProof hash payload = .ok proof

/-- A judgement that accepts a proposal has been asked about its proof. -/
def Relevant (hash : NodeHash) (engine : Engine) (node : NodeSign)
    (coerce : Coercions) (s : Judged) (call : Arrival) : Prop :=
  ∀ key payload proof_id,
    effect hash engine node coerce call = .judges key payload proof_id true →
    ∀ d, s.proposals.decision key = some d → proof_id = some (.str d.1)

/-- What is valid has the proof that was submitted. -/
theorem valid_iff {payload proof_id : Option Json} :
    verifyConsensusProof hash payload proof_id = .ok true ↔
      ∃ proof, generateConsensusProof hash payload = .ok proof ∧
        proof_id = some (.str proof) := by
  unfold verifyConsensusProof
  rw [bind_eq_ok]
  refine exists_congr fun proof => and_congr_right fun _ => ?_
  simp [pure, Except.pure, eq_comm]

/-- What can be verified, with an id, is judged. -/
theorem judgement_of_valid {payload : Option Json} {key : JsString} {valid : Bool}
    (hkey : idOf engine payload = .ok (some key))
    (h : verifyConsensusProof hash (member payload "payload") (member payload "proof_id")
      = .ok valid) :
    judgement hash engine payload
      = .judges key (member payload "payload") (member payload "proof_id") valid := by
  unfold judgement
  dsimp only
  rw [h, hkey]

theorem verdict_eq_accepted {valid : Bool} : verdict valid = .accepted ↔ valid = true := by
  cases valid <;> simp [verdict]

theorem Justified.after {s : Judged} {call : Arrival} (h : Justified hash s)
    (hrelevant : Relevant hash engine node coerce s call) :
    Justified hash (s.after hash engine node coerce call) := by
  intro key proof hproof
  rw [Judged.decision_after] at hproof
  have hvalid := @valid_of_effect hash engine node coerce call
  unfold Relevant at hrelevant
  dsimp only [Judged.after]
  generalize effect hash engine node coerce call = e at *
  cases e with
  | nothing => exact h key proof hproof
  | proposes key' p =>
    dsimp only [note] at hproof ⊢
    split_ifs at hproof ⊢
    · cases hproof
    · exact h key proof hproof
  | judges key' payload proof_id valid =>
    dsimp only [note] at hproof ⊢
    split_ifs at hproof ⊢ with hkey
    · subst hkey
      obtain ⟨d, hd, heq⟩ := Option.map_eq_some_iff.mp hproof
      obtain ⟨rfl, hverdict⟩ := Prod.mk.inj heq
      obtain rfl := verdict_eq_accepted.mp hverdict
      obtain ⟨proof, hgenerate, hsubmitted⟩ := valid_iff.mp (hvalid rfl)
      rw [hrelevant key' payload proof_id rfl d hd] at hsubmitted
      obtain rfl := Json.str.inj (Option.some.inj hsubmitted)
      exact ⟨payload, rfl, hgenerate⟩
    · exact h key proof hproof

/-- A judgement about another proof leaves an acceptance that is not
justified. -/
theorem Justified.relevant {s : Judged} {call : Arrival}
    (h : Justified hash (s.after hash engine node coerce call)) :
    Relevant hash engine node coerce s call := by
  intro key payload proof_id heffect d hd
  have hdecision := @Judged.decision_after hash engine node coerce s call key
  simp only [heffect, if_true, hd, Option.map_some] at hdecision
  obtain ⟨payload', hjudged, hgenerate⟩ := h key d.1 hdecision
  have hnote : (s.after hash engine node coerce call).judgedBy key = some payload := by
    simp [Judged.after, heffect, note]
  obtain rfl := Option.some.inj (hnote.symm.trans hjudged)
  obtain ⟨proof, hgenerate', hsubmitted⟩ :=
    valid_iff.mp (valid_of_effect hash engine node coerce heffect)
  obtain rfl := Except.ok.inj (hgenerate.symm.trans hgenerate')
  exact hsubmitted

theorem justified_initial : Justified hash .initial := by
  intro key proof h
  rw [show Judged.initial.proposals = .initial from rfl, decision_initial] at h
  cases h

/-- **When acceptance is about the proposal.**  Whatever requests the server gets, every
accepted proposal has at every moment been accepted for its own payload, exactly when
every request that accepts a proposal submits the proof of that proposal. -/
theorem accepted_justified_iff (calls : List Arrival) :
    (∀ cs t, cs <+: calls →
        Process.after (Judged.serve hash engine node coerce) (some .initial) cs = some t →
        Justified hash t) ↔
      ∀ cs call t, cs ++ [call] <+: calls →
        Process.after (Judged.serve hash engine node coerce) (some .initial) cs = some t →
        Relevant hash engine node coerce t call := by
  refine Process.always_iff (Q := Justified hash) (fun _ h => h) ?_ ?_ justified_initial
  · intro s call t h hnext hrelevant
    rw [Judged.of_next hnext]
    exact h.after hrelevant
  · intro s call _ hafter key payload proof_id heffect
    have hnext := s.next_of_effect (by rw [heffect]; nofun)
    exact (hafter _ hnext).relevant key payload proof_id heffect

/-! ## Finality -/

/-- The request does not propose the id again, and does not judge it the other
way. -/
def Undisputed (hash : NodeHash) (engine : Engine) (node : NodeSign)
    (coerce : Coercions) (key : JsString) (status : Status) (call : Arrival) : Prop :=
  match effect hash engine node coerce call with
  | .nothing => True
  | .proposes key' _ => key' ≠ key
  | .judges key' _ _ valid => key' = key → verdict valid = status

theorem field_statusAnswer {proposals : Store} {url proof : JsString}
    {status : Status} (h : proposals.decision (requestedId url) = some (proof, status)) :
    field (statusAnswer proposals url) "status" = some (.str status.text) ∧
      field (statusAnswer proposals url) "proof" = some (.str proof) := by
  obtain ⟨p, hp, heq⟩ := Option.map_eq_some_iff.mp h
  obtain ⟨rfl, rfl⟩ := Prod.mk.inj heq
  unfold statusAnswer
  dsimp only
  rw [hp]
  exact ⟨rfl, rfl⟩

theorem Status.text_injective : Function.Injective Status.text := by
  intro a b h
  cases a <;> cases b <;> first | rfl | exact absurd h (by decide)

theorem Undisputed.after {s : Judged} {call : Arrival} {key proof : JsString}
    {status : Status} (h : Undisputed hash engine node coerce key status call)
    (hdecided : s.proposals.decision key = some (proof, status)) :
    (s.after hash engine node coerce call).proposals.decision key = some (proof, status) := by
  rw [Judged.decision_after]
  unfold Undisputed at h
  generalize effect hash engine node coerce call = e at h ⊢
  cases e with
  | nothing => exact hdecided
  | proposes key' p =>
    dsimp only
    rw [if_neg h]
    exact hdecided
  | judges key' payload proof_id valid =>
    dsimp only
    split_ifs with hkey
    · rw [hdecided, Option.map_some, h hkey]
    · exact hdecided

/-- A request after which the status is the same has not disputed it. -/
theorem undisputed_of_stays {s : Judged} {call : Arrival} {key proof : JsString}
    {status : Status} (hdecided : s.proposals.decision key = some (proof, status))
    (hstatus : status ≠ .pending)
    (hstays : ∀ t, Process.next (Judged.serve hash engine node coerce) (some s) call = some t →
      ∀ proof' status', t.proposals.decision key = some (proof', status') → status' = status) :
    Undisputed hash engine node coerce key status call := by
  have hdecision := @Judged.decision_after hash engine node coerce s call key
  have hnext := @Judged.next_of_effect hash engine node coerce s call
  unfold Undisputed
  split
  · trivial
  · rename_i key' p heffect
    rintro rfl
    simp only [heffect, if_true] at hdecision
    exact hstatus (hstays _ (hnext (by rw [heffect]; nofun)) _ _ hdecision).symm
  · rename_i key' payload proof_id valid heffect
    rintro rfl
    simp only [heffect, if_true, hdecided, Option.map_some] at hdecision
    exact hstays _ (hnext (by rw [heffect]; nofun)) _ _ hdecision

/-- `GET /status/<id>` reports the status and the proof. -/
def Reports (hash : NodeHash) (engine : Engine) (node : NodeSign) (coerce : Coercions)
    (process : Option Judged) (url : JsString) (status : Status) (proof : JsString) : Prop :=
  ∀ ctx body response, Process.answer (Judged.serve hash engine node coerce) process
      { ctx, req := { method := .get, url, body } } = some response →
    field response.body "status" = some (.str status.text) ∧
      field response.body "proof" = some (.str proof)

theorem reports_iff {s : Judged} {url proof : JsString} {status : Status}
    (hurl : (js "/status/").isPrefixOf url = true) :
    Reports hash engine node coerce (some s) url status proof ↔
      field (statusAnswer s.proposals url) "status" = some (.str status.text) ∧
        field (statusAnswer s.proposals url) "proof" = some (.str proof) := by
  have hanswer : ∀ ctx body, (s.serve hash engine node coerce
      { ctx, req := { method := .get, url, body } }).2
      = some { status := 200, body := statusAnswer s.proposals url } := by
    intro ctx body
    have hhealth : url ≠ js "/health" := by
      rintro rfl
      exact absurd hurl (by decide)
    show (handle hash engine node coerce ctx s.proposals { method := .get, url, body }).2 = _
    unfold handle
    simp [hhealth, hurl]
  constructor
  · intro h
    exact h { knownNodes := .empty, clock := 0 } .empty _ (hanswer _ _)
  · intro h ctx body response hresponse
    rw [Process.answer_some, hanswer] at hresponse
    rw [← Option.some.inj hresponse]
    exact h

/-- **How long a decision stays.**  From a state in which a proposal is accepted
or rejected, every answer of `GET /status` reports this status and this proof,
whatever requests the server gets, exactly when no request that comes before the end of the
process proposes the id again or judges it the other way.  And the process has ended exactly
when the body of one of them has ended it. -/
theorem decision_stays_iff {s : Judged} {url proof : JsString} {status : Status}
    (hurl : (js "/status/").isPrefixOf url = true)
    (hdecided : s.proposals.decision (requestedId url) = some (proof, status))
    (hstatus : status ≠ .pending) (calls : List Arrival) :
    ((∀ cs, cs <+: calls → Reports hash engine node coerce
          (Process.after (Judged.serve hash engine node coerce) (some s) cs) url status proof) ↔
        ∀ cs call, cs ++ [call] <+: calls → (∀ c ∈ cs, ¬ EndsProcess node coerce c) →
          Undisputed hash engine node coerce (requestedId url) status call) ∧
      (Process.after (Judged.serve hash engine node coerce) (some s) calls = none ↔
        ∃ call ∈ calls, EndsProcess node coerce call) := by
  have halways := @Process.always_iff Judged Arrival Response
    (Judged.serve hash engine node coerce) s calls
    (fun t => Reports hash engine node coerce (some t) url status proof)
    (fun t => t.proposals.decision (requestedId url) = some (proof, status))
    (fun _ call => Undisputed hash engine node coerce (requestedId url) status call)
    (fun t ht => (reports_iff hurl).mpr (field_statusAnswer ht))
    (fun t call u ht hnext h => by
      rw [Judged.of_next hnext]
      exact h.after ht)
    (fun t call ht hreports => by
      refine undisputed_of_stays ht hstatus fun u hu proof' status' h => ?_
      have hreported := ((reports_iff hurl).mp (hreports u hu)).1
      have htext := (field_statusAnswer h).1.symm.trans hreported
      exact Status.text_injective (Json.str.inj (Option.some.inj htext)))
    hdecided
  refine ⟨⟨fun h cs call hpre hlives => ?_, fun h cs hpre => ?_⟩,
    Process.after_eq_none_iff serve_eq_none_iff⟩
  · exact halways.mp (fun cs t hpre ht => ht ▸ h cs hpre) cs call _ hpre
      (Process.after_of_not_ends serve_eq_none_iff hlives)
  · cases hafter : Process.after (Judged.serve hash engine node coerce) (some s) cs with
    | none => nofun
    | some t =>
      refine halways.mpr (fun cs call t hpre ht => h cs call hpre ?_) cs t hpre hafter
      exact ((Process.after_eq_some_iff serve_eq_none_iff).mp ht).1

/-! ## Known requests -/

def proofOfOne : JsString :=
  js "6b86b273ff34fce19d6b804eff5a3f5747ada4eaa22f1d49c01e52ddb7875b4b"

def proofOfTwo : JsString :=
  js "d4735e3a265e16eee03f59718b9b5d03019c07d8b6c51f90da3a666eec13ab35"

/-- SHA-256 of the texts of two numbers. -/
def numberHash : NodeHash :=
  Tabulated.hash
    [(utf8 (js "1"), Tabulated.hex 32
        0x6b86b273ff34fce19d6b804eff5a3f5747ada4eaa22f1d49c01e52ddb7875b4b),
      (utf8 (js "2"), Tabulated.hex 32
        0xd4735e3a265e16eee03f59718b9b5d03019c07d8b6c51f90da3a666eec13ab35)]
    [] []

def postCall (url : String) (v : Json) : Arrival where
  ctx := { knownNodes := .empty, clock := 0 }
  req := { method := .post, url := js url, body := .json v }

/-- The number 1 is proposed under the id `p`. -/
def proposeOne : Arrival :=
  postCall "/propose" (.obj [(js "id", .str (js "p")), (js "topic", .str (js "t")),
    (js "payload", .num (.ofNat 1))])

/-- A `/verify` for the id `p`. -/
def verifyCall (payload : ℕ) (proof_id : JsString) : Arrival :=
  postCall "/verify" (.obj [(js "payload", .num (.ofNat payload)),
    (js "proof_id", .str proof_id), (js "id", .str (js "p"))])

/-- The server with the table of hashes. -/
abbrev knownServer := Judged.serve numberHash .plain (Tabulated.sign [] []) knownCoercions

abbrev knownAfter := Judged.after numberHash .plain (Tabulated.sign [] []) knownCoercions

/-- The proposal is made, and judged. -/
def judgedOnce (verifyCall : Arrival) : Judged :=
  [proposeOne, verifyCall].foldl knownAfter .initial

theorem proof_one : generateConsensusProof numberHash (some (.num (.ofNat 1)))
    = .ok proofOfOne := by
  decide +kernel

theorem proof_two : generateConsensusProof numberHash (some (.num (.ofNat 2)))
    = .ok proofOfTwo := by
  decide +kernel

theorem proofOfOne_ne_proofOfTwo : proofOfOne ≠ proofOfTwo := fun h =>
  absurd (congrArg List.head? h) (by decide +kernel)

theorem effect_proposeOne :
    effect numberHash .plain (Tabulated.sign [] []) knownCoercions proposeOne
      = .proposes (js "p")
          { id := .str (js "p"), topic := .str (js "t"), payload := some (.num (.ofNat 1))
            proof := proofOfOne, status := .pending } := by
  decide +kernel

/-- A `/verify` for `p` judges it. -/
theorem effect_verifyCall {payload : ℕ} {proof : JsString}
    (h : generateConsensusProof numberHash (some (.num (.ofNat payload))) = .ok proof)
    (proof_id : JsString) :
    effect numberHash .plain (Tabulated.sign [] []) knownCoercions
        (verifyCall payload proof_id)
      = .judges (js "p") (some (.num (.ofNat payload))) (some (.str proof_id))
          (some (Json.str proof) = some (.str proof_id)) := by
  have hvalid : verifyConsensusProof numberHash (some (.num (.ofNat payload)))
      (some (.str proof_id)) = .ok (some (Json.str proof) = some (.str proof_id)) := by
    rw [verifyConsensusProof, h]
    rfl
  exact @judgement_of_valid numberHash .plain
    (some (.obj [(js "payload", .num (.ofNat payload)), (js "proof_id", .str proof_id),
      (js "id", .str (js "p"))])) (js "p") _ rfl hvalid

theorem decision_proposeOne (s : Judged) :
    (knownAfter s proposeOne).proposals.decision (js "p") = some (proofOfOne, .pending) := by
  have hdecision := @Judged.decision_after numberHash .plain (Tabulated.sign [] [])
    knownCoercions s proposeOne (js "p")
  simpa only [effect_proposeOne, if_true] using hdecision

theorem decision_verifyCall {s : Judged} {payload : ℕ} {proof proof_id : JsString}
    {status : Status}
    (hproof : generateConsensusProof numberHash (some (.num (.ofNat payload))) = .ok proof)
    (hs : s.proposals.decision (js "p") = some (proofOfOne, status)) :
    (knownAfter s (verifyCall payload proof_id)).proposals.decision (js "p")
      = some (proofOfOne, verdict (some (Json.str proof) = some (.str proof_id))) := by
  have hdecision := @Judged.decision_after numberHash .plain (Tabulated.sign [] [])
    knownCoercions s (verifyCall payload proof_id) (js "p")
  simpa only [effect_verifyCall hproof, if_true, hs, Option.map_some] using hdecision

theorem next_proposeOne (s : Judged) :
    Process.next knownServer (some s) proposeOne = some (knownAfter s proposeOne) :=
  s.next_of_effect (by rw [effect_proposeOne]; nofun)

theorem next_verifyCall {payload : ℕ} {proof : JsString}
    (hproof : generateConsensusProof numberHash (some (.num (.ofNat payload))) = .ok proof)
    (s : Judged) (proof_id : JsString) :
    Process.next knownServer (some s) (verifyCall payload proof_id)
      = some (knownAfter s (verifyCall payload proof_id)) :=
  s.next_of_effect (by rw [effect_verifyCall hproof]; nofun)

theorem after_judgedOnce {payload : ℕ} {proof : JsString} (proof_id : JsString)
    (hproof : generateConsensusProof numberHash (some (.num (.ofNat payload))) = .ok proof) :
    Process.after knownServer (some .initial) [proposeOne, verifyCall payload proof_id]
      = some (judgedOnce (verifyCall payload proof_id)) := by
  rw [Process.after_cons, next_proposeOne, Process.after_cons, next_verifyCall hproof]
  rfl

theorem decision_judgedOnce {payload : ℕ} {proof : JsString} (proof_id : JsString)
    (hproof : generateConsensusProof numberHash (some (.num (.ofNat payload))) = .ok proof) :
    (judgedOnce (verifyCall payload proof_id)).proposals.decision (js "p")
      = some (proofOfOne, verdict (some (Json.str proof) = some (.str proof_id))) :=
  decision_verifyCall hproof (decision_proposeOne .initial)

theorem judgedBy_judgedOnce {payload : ℕ} {proof : JsString} (proof_id : JsString)
    (hproof : generateConsensusProof numberHash (some (.num (.ofNat payload))) = .ok proof) :
    (judgedOnce (verifyCall payload proof_id)).judgedBy (js "p")
      = some (some (.num (.ofNat payload))) := by
  rw [judgedOnce, List.foldl_cons, List.foldl_cons, List.foldl_nil, knownAfter, Judged.after,
    effect_verifyCall hproof]
  dsimp only [note]
  rw [if_pos rfl]

theorem accepted_one :
    (judgedOnce (verifyCall 1 proofOfOne)).proposals.decision (js "p")
      = some (proofOfOne, .accepted) := by
  rw [decision_judgedOnce proofOfOne proof_one,
    verdict_eq_accepted.mpr (decide_eq_true rfl)]

/-- The proposal is accepted for its own payload. -/
theorem accepted_for_one :
    (judgedOnce (verifyCall 1 proofOfOne)).proposals.decision (js "p")
        = some (proofOfOne, .accepted) ∧
      Justified numberHash (judgedOnce (verifyCall 1 proofOfOne)) := by
  refine ⟨accepted_one, ?_⟩
  refine (accepted_justified_iff [proposeOne, verifyCall 1 proofOfOne]).mpr ?_ _ _
    List.prefix_rfl (after_judgedOnce proofOfOne proof_one)
  intro cs call t hpre hafter
  rcases List.prefix_concat_iff.mp (show cs ++ [call] <+: [proposeOne] ++ [_] from hpre) with
    hall | hfirst
  · -- the second request accepts, with the proof that is stored
    obtain ⟨rfl, hcall⟩ := List.append_inj' hall rfl
    obtain rfl := List.singleton_inj.mp hcall
    rw [Process.after_cons, next_proposeOne, Process.after_nil] at hafter
    obtain rfl := Option.some.inj hafter
    intro key payload proof_id h d hd
    obtain ⟨rfl, -, rfl, -⟩ := Effect.judges.inj ((effect_verifyCall proof_one _).symm.trans h)
    rw [decision_proposeOne] at hd
    rw [← Option.some.inj hd]
  · intro key payload proof_id h
    have hmem := hfirst.mem (List.mem_append_right cs List.mem_cons_self)
    rw [List.mem_singleton.mp hmem, effect_proposeOne] at h
    cases h

/-- The proposal is accepted for another payload. -/
theorem accepted_for_two :
    Process.after knownServer (some .initial) [proposeOne, verifyCall 2 proofOfTwo]
        = some (judgedOnce (verifyCall 2 proofOfTwo)) ∧
      (judgedOnce (verifyCall 2 proofOfTwo)).proposals.decision (js "p")
        = some (proofOfOne, .accepted) ∧
      ¬ Justified numberHash (judgedOnce (verifyCall 2 proofOfTwo)) := by
  have haccepted : (judgedOnce (verifyCall 2 proofOfTwo)).proposals.decision (js "p")
      = some (proofOfOne, .accepted) := by
    rw [decision_judgedOnce proofOfTwo proof_two,
      verdict_eq_accepted.mpr (decide_eq_true rfl)]
  refine ⟨after_judgedOnce proofOfTwo proof_two, haccepted, fun h => ?_⟩
  obtain ⟨payload, hjudged, hgenerate⟩ := h (js "p") proofOfOne haccepted
  rw [judgedBy_judgedOnce proofOfTwo proof_two] at hjudged
  rw [← Option.some.inj hjudged, proof_two] at hgenerate
  exact proofOfOne_ne_proofOfTwo (Except.ok.inj hgenerate).symm

theorem isPrefixOf_status : (js "/status/").isPrefixOf (js "/status/p") = true := by decide

theorem requestedId_p : requestedId (js "/status/p") = js "p" := by decide +kernel

/-- A decision that is judged the same way again stays. -/
theorem decision_kept :
    Reports numberHash .plain (Tabulated.sign [] []) knownCoercions
      (Process.after knownServer (some (judgedOnce (verifyCall 1 proofOfOne)))
        [verifyCall 1 proofOfOne]) (js "/status/p") .accepted proofOfOne := by
  refine (decision_stays_iff isPrefixOf_status accepted_one (by decide)
    [verifyCall 1 proofOfOne]).1.mpr ?_ _ List.prefix_rfl
  intro cs call hpre _
  have hmem := hpre.mem (List.mem_append_right cs List.mem_cons_self)
  rw [List.mem_singleton.mp hmem, Undisputed, effect_verifyCall proof_one]
  exact fun _ => verdict_eq_accepted.mpr (decide_eq_true rfl)

/-- A decision that is judged the other way, or proposed again, changes. -/
theorem decision_changed :
    Process.after knownServer (some .initial) [proposeOne, verifyCall 1 proofOfOne]
        = some (judgedOnce (verifyCall 1 proofOfOne)) ∧
      Reports numberHash .plain (Tabulated.sign [] []) knownCoercions
        (some (judgedOnce (verifyCall 1 proofOfOne))) (js "/status/p") .accepted proofOfOne ∧
      (∃ t, Process.next knownServer (some (judgedOnce (verifyCall 1 proofOfOne)))
          (verifyCall 1 proofOfTwo) = some t ∧
        Reports numberHash .plain (Tabulated.sign [] []) knownCoercions (some t)
          (js "/status/p") .rejected proofOfOne) ∧
      ∃ t, Process.next knownServer (some (judgedOnce (verifyCall 1 proofOfOne)))
          proposeOne = some t ∧
        Reports numberHash .plain (Tabulated.sign [] []) knownCoercions (some t)
          (js "/status/p") .pending proofOfOne := by
  have hreports : ∀ {s : Judged} {status}, s.proposals.decision (js "p")
      = some (proofOfOne, status) → Reports numberHash .plain (Tabulated.sign [] [])
        knownCoercions (some s) (js "/status/p") status proofOfOne := by
    intro s status h
    exact (reports_iff isPrefixOf_status).mpr (field_statusAnswer (requestedId_p.symm ▸ h))
  refine ⟨after_judgedOnce proofOfOne proof_one, hreports accepted_one,
    ⟨_, next_verifyCall proof_one _ _, hreports ?_⟩,
    ⟨_, next_proposeOne _, hreports (decision_proposeOne _)⟩⟩
  have hne : ¬ some (Json.str proofOfOne) = some (.str proofOfTwo) := fun h =>
    proofOfOne_ne_proofOfTwo (Json.str.inj (Option.some.inj h))
  have hdecision := @decision_verifyCall _ 1 _ proofOfTwo _ proof_one accepted_one
  rw [decide_eq_false hne] at hdecision
  exact hdecision

end NewZone.Services.Consensus
