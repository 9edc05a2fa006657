import NewZone.Crypto.RoutingAcceptance

/-!
# Whether `verifyRoutingPacket` answers

Every check of `verifyRoutingPacket` has a reason to answer with, except one: the key
that the directory returns is handed to the platform as it is.  So the call answers as
long as each key that it comes to can be read and used (`packet_resolves_iff`).
-/

namespace NewZone.Crypto

open NewZone.Js NewZone.ExceptBind

/-! ## Keys that cannot be used -/

/-- The platform on which `crypto.verify` throws for some keys, such as those for key
agreement.  Nothing can be seen between reading a key and verifying with it, so here it
is the reading that throws. -/
def NodeSign.refusing (node : NodeSign) (refuses : node.PublicKey → Option String) :
    NodeSign :=
  { node with
    createPublicKey := fun der => do
      let key ← node.createPublicKey der
      match refuses key with
      | some e => .error e
      | none => .ok key }

theorem NodeSign.refusing_eq_ok_iff {node : NodeSign} {refuses : node.PublicKey → Option String}
    {der : Bytes} {key : node.PublicKey} :
    (node.refusing refuses).createPublicKey der = .ok key ↔
      node.createPublicKey der = .ok key ∧ refuses key = none := by
  refine bind_eq_ok.trans ⟨fun h => ?_, fun h => ?_⟩
  · obtain ⟨read, hread, h⟩ := h
    cases hrefuses : refuses read with
    | some e =>
      rw [hrefuses] at h
      cases h
    | none =>
      rw [hrefuses] at h
      obtain rfl := Except.ok.inj h
      exact ⟨hread, hrefuses⟩
  · obtain ⟨hread, hrefuses⟩ := h
    refine ⟨key, hread, ?_⟩
    rw [hrefuses]

namespace RoutingPacket

open NewZone.Js.Json
open NewZone.Crypto.Tabulated (knownSeed knownKey)

/-! ## The checks in front of the key -/

/-- A packet passes every check in front of the key, which is `der`. -/
structure ComesToKey (params : VerifyParams) (now : Number) (der : Bytes) : Prop where
  version : field params.packet "version" = some (.str routingVersion)
  node_id : ∃ node_id, field params.packet "node_id" = some (.str node_id) ∧ node_id ≠ [] ∧
    params.getPublicKeyByNodeId node_id = some der
  ts : ∃ ts, field params.packet "ts" = some (.num ts) ∧
    |now.value - ts.value| ≤ (params.maxSkewSec.getD (Number.ofNat 300)).value * 1000
  nonce : ∃ nonce, field params.packet "nonce" = some (.str nonce) ∧ nonce ≠ []
  signature : ∃ signature, field params.packet "signature" = some (.str signature) ∧
    signature ≠ []

theorem comesToKey_iff {params : VerifyParams} {now : Number} {der : Bytes} :
    ComesToKey params now der ↔ ∃ node_id signature, Presents params now node_id signature der := by
  constructor
  · intro h
    obtain ⟨hversion, ⟨id, hid, hne, hder⟩, hts, hnonce, ⟨signature, hsig, hsig'⟩⟩ := h
    exact ⟨id, signature, hversion, hid, hne, hts, hnonce, hsig, hsig', hder⟩
  · intro h
    obtain ⟨id, signature, h⟩ := h
    exact ⟨h.version, ⟨id, h.id, h.id_ne, h.key⟩, h.ts, h.nonce, ⟨signature, h.signed, h.signed_ne⟩⟩

/-- What is thrown is what `createPublicKey` throws. -/
theorem verifyRoutingPacket_error_iff {node : NodeSign} {params : VerifyParams} {now : Number}
    {e : String} :
    verifyRoutingPacket node params now = .error e ↔
      ∃ der, ComesToKey params now der ∧ node.createPublicKey der = .error e := by
  constructor
  · intro heq
    obtain ⟨id, signature, der, h⟩ := @exists_presents node params now fun reason hrejected => by
      rw [hrejected] at heq
      cases heq
    refine ⟨der, comesToKey_iff.mpr ⟨id, signature, h⟩, ?_⟩
    rw [verifyRoutingPacket_of_presents h] at heq
    cases hkey : node.createPublicKey der with
    | error e' =>
      rw [hkey] at heq
      exact congrArg Except.error (Except.error.inj heq)
    | ok pub =>
      -- with a key in hand, the signature decides between two answers
      rw [hkey] at heq
      replace heq := (bind_of_ok rfl _).symm.trans heq
      split at heq <;> cases heq
  · intro h
    obtain ⟨der, hcomes, hkey⟩ := h
    obtain ⟨id, signature, h⟩ := comesToKey_iff.mp hcomes
    rw [verifyRoutingPacket_of_presents h, hkey]
    rfl

/-- **When `verifyRoutingPacket` answers.**  It resolves exactly when the key it comes
to, if any, can be read and is one that `crypto.verify` takes. -/
theorem packet_resolves_iff (node : NodeSign) (refuses : node.PublicKey → Option String)
    (params : VerifyParams) (now : Number) :
    (∃ verdict, verifyRoutingPacket (node.refusing refuses) params now = .ok verdict) ↔
      ∀ der, ComesToKey params now der →
        ∃ key, node.createPublicKey der = .ok key ∧ refuses key = none := by
  constructor
  · intro h der hcomes
    obtain ⟨verdict, hverdict⟩ := h
    cases hkey : (node.refusing refuses).createPublicKey der with
    | ok key => exact ⟨key, NodeSign.refusing_eq_ok_iff.mp hkey⟩
    | error e =>
      rw [verifyRoutingPacket_error_iff.mpr ⟨der, hcomes, hkey⟩] at hverdict
      cases hverdict
  · intro h
    cases hresult : verifyRoutingPacket (node.refusing refuses) params now with
    | ok verdict => exact ⟨verdict, rfl⟩
    | error e =>
      obtain ⟨der, hcomes, hthrown⟩ := verifyRoutingPacket_error_iff.mp hresult
      obtain ⟨key, hkey⟩ := h der hcomes
      rw [NodeSign.refusing_eq_ok_iff.mpr hkey] at hthrown
      cases hthrown

/-! ## A key that cannot be read -/

/-- The directory has one byte for the node. -/
def garbledVerify : VerifyParams :=
  { packet := knownArrival
    getPublicKeyByNodeId := fun _ => some [0x01] }

/-- A packet that is fresh is not answered if the directory has something else than a
key for its node. -/
theorem garbled_key_unanswered :
    knownNode.createPublicKey [0x01] = .error "error:1E08010C:DECODER routines::unsupported" ∧
      ¬ ∃ verdict, verifyRoutingPacket (knownNode.refusing fun _ => none) garbledVerify
        (Number.ofNat 1700000000000) = .ok verdict := by
  have hkey : knownNode.createPublicKey [0x01]
      = .error "error:1E08010C:DECODER routines::unsupported" := rfl
  refine ⟨hkey, fun h => ?_⟩
  obtain ⟨verdict, hverdict⟩ := h
  have hthrown : verifyRoutingPacket (knownNode.refusing fun _ => none) garbledVerify
      (Number.ofNat 1700000000000) = .error "error:1E08010C:DECODER routines::unsupported" := by
    refine verifyRoutingPacket_error_iff.mpr ⟨[0x01], ?_, rfl⟩
    refine ⟨rfl, ⟨js "node-a", rfl, by decide, rfl⟩, ⟨_, rfl, ?_⟩, ⟨_, rfl, by decide⟩,
      ⟨_, rfl, by decide⟩⟩
    norm_num [garbledVerify]
  rw [hthrown] at hverdict
  cases hverdict

end RoutingPacket

end NewZone.Crypto
