import NewZone.Lib.Runs
import NewZone.Services.PacketCopy

/-!
# From announcements to packets

Whoever sends a datagram to the discovery service announces a key for whatever
node it names, and the services copy what has been announced.  So a packet that
is accepted has been signed with a key that somebody has announced for its node
(`announced_of_run`), and `accepted_signed` says for which announcements that is
the key of the honest node.

An answer of `GET /nodes` is on its way for any time, and may be lost.
-/

namespace NewZone.Services.Discovery

open NewZone.Js NewZone.Js.Json NewZone.ExceptBind NewZone.Runs NewZone.Crypto
open NewZone.Crypto.SignedPacket (Coercions present knownCoercions)
open NewZone.Crypto.RoutingPacket
open NewZone.Crypto.Tabulated (knownSeed knownKey)

/-- What the discovery service has heard, what it has answered to a service, and
what the service has copied. -/
structure World where
  announced : PlainObject Json
  answers : List (PlainObject Json)
  knownNodes : PlainObject Json

def World.initial : World := { announced := .empty, answers := [], knownNodes := .empty }

inductive Event where
  /-- A datagram that parses; the others are ignored. -/
  | datagram (data : Json)
  /-- `GET /nodes` -/
  | answer
  /-- `updateKnownNodes`, when an answer arrives. -/
  | refresh (knownNodes : PlainObject Json)
  /-- A request to the service, at a time. -/
  | request (clock : ℕ) (body : Body)

inductive Step (engine : Engine) : World → Event → World → Prop
  | datagram (w : World) (data : Json) :
      Step engine w (.datagram data)
        { w with announced := listen engine w.announced data }
  | answer (w : World) :
      Step engine w .answer { w with answers := w.announced :: w.answers }
  | refresh (w : World) {knownNodes : PlainObject Json} (h : knownNodes ∈ w.answers) :
      Step engine w (.refresh knownNodes) { w with knownNodes }
  | request (w : World) (clock : ℕ) (body : Body) :
      Step engine w (.request clock body) w

/-! ## What has been announced -/

variable {engine : Engine}

/-- Every entry has the key that a datagram of the history has announced. -/
def Heard (engine : Engine) (events : List Event) (knownNodes : PlainObject Json) :
    Prop :=
  ∀ nodeId entry, knownNodes.get nodeId = some entry →
    ∃ data public_key, .datagram data ∈ events ∧
      present entry "public_key" = some public_key ∧
      Announces engine data nodeId public_key

theorem Heard.mono {events events' : List Event} {knownNodes : PlainObject Json}
    (h : Heard engine events knownNodes) (hsub : events ⊆ events') :
    Heard engine events' knownNodes := by
  intro nodeId entry hentry
  obtain ⟨data, public_key, hdata, hkey⟩ := h nodeId entry hentry
  exact ⟨data, public_key, hsub hdata, hkey⟩

theorem Heard.listen {events : List Event} {knownNodes : PlainObject Json}
    (h : Heard engine events knownNodes) (data : Json) :
    Heard engine (events ++ [.datagram data]) (listen engine knownNodes data) := by
  intro nodeId entry hentry
  rcases get_listen engine knownNodes data nodeId with hold | ⟨entry', key, hnew, hkey⟩
  · rw [hold] at hentry
    exact h.mono (List.subset_append_left _ _) nodeId entry hentry
  · obtain rfl := Option.some.inj (hentry.symm.trans hnew)
    exact ⟨data, key, List.mem_append_right _ (List.mem_singleton.mpr rfl), hkey⟩

/-- All that is known anywhere has been announced. -/
structure World.Announced (engine : Engine) (events : List Event) (w : World) :
    Prop where
  announced : Heard engine events w.announced
  answers : ∀ knownNodes ∈ w.answers, Heard engine events knownNodes
  knownNodes : Heard engine events w.knownNodes

theorem World.Announced.step {events : List Event} {w w' : World} {e : Event}
    (h : w.Announced engine events) (hstep : Step engine w e w') :
    w'.Announced engine (events ++ [e]) := by
  have hsub : events ⊆ events ++ [e] := List.subset_append_left _ _
  have hanswers : ∀ knownNodes ∈ w.answers, Heard engine (events ++ [e]) knownNodes :=
    fun knownNodes hmem => (h.answers _ hmem).mono hsub
  cases hstep with
  | datagram data => exact ⟨h.announced.listen data, hanswers, h.knownNodes.mono hsub⟩
  | answer =>
    exact ⟨h.announced.mono hsub,
      List.forall_mem_cons.mpr ⟨h.announced.mono hsub, hanswers⟩, h.knownNodes.mono hsub⟩
  | refresh hmem => exact ⟨h.announced.mono hsub, hanswers, hanswers _ hmem⟩
  | request clock body =>
    exact ⟨h.announced.mono hsub, hanswers, h.knownNodes.mono hsub⟩

theorem announced_of_run {w : World} {events : List Event}
    (hrun : Run (Step engine) .initial events w) : w.Announced engine events := by
  refine hrun.history ?_ fun _ _ _ _ _ h hstep => h.step hstep
  exact ⟨nofun, nofun, nofun⟩

/-! ## What is accepted -/

variable {node : NodeSign} {coerce : Coercions}

/-- The value is read as the public key. -/
def ReadsAs (node : NodeSign) (coerce : Coercions) (public_key : Json)
    (pub : node.PublicKey) : Prop :=
  ∃ der, coerce.b64ToU8 public_key = .ok der ∧ node.createPublicKey der = .ok pub

/-- The packet verifies under a key that a datagram has announced for its node. -/
theorem verified_of_accepted {w : World} {events : List Event}
    (hrun : Run (Step engine) .initial events w) {clock : ℕ} {packet : Json}
    {node_id : JsString} {payload : Option Json}
    (h : verifyPacket node coerce { knownNodes := w.knownNodes, clock } packet
      = .ok (.accepted node_id payload)) :
    ∃ data public_key pub sig, .datagram data ∈ events ∧
      Announces engine data node_id public_key ∧
      ReadsAs node coerce public_key pub ∧
      node.verify (buildSigningPayload (signedFields packet)) pub sig = true := by
  obtain ⟨-, -, -, -, ts, nonce, signature, der, pub, -, -, -, -, -, -, hder, hpub,
    hverify⟩ := verifyRoutingPacket_accepted_iff.mp (verifyPacket_accepted_iff.mp h)
  obtain ⟨entry, public_key, hentry, hkey, hread⟩ :=
    of_getPublicKeyByNodeId (toOption_join_eq_some.mp hder)
  obtain ⟨data, public_key', hdata, hkey', hannounces⟩ :=
    (announced_of_run hrun).knownNodes node_id entry hentry
  obtain rfl := Option.some.inj (hkey.symm.trans hkey')
  exact ⟨data, public_key, pub, _, hdata, hannounces, ⟨der, hread, hpub⟩, hverify⟩

/-- What verifies under the public key of `key` is the text of a packet that one of
the calls has signed with `key`. -/
def Unforgeable (node : NodeSign) (key : node.PrivateKey) (calls : List SignCall) :
    Prop :=
  ∀ message sig, node.verify message (node.publicKeyOf key) sig = true →
    ∃ call ∈ calls, call.UsesKey node key ∧
      message = buildSigningPayload call.packet.signed

/-- No datagram has announced another key for the node. -/
def Undisputed (engine : Engine) (node : NodeSign) (coerce : Coercions)
    (events : List Event) (nodeId : JsString) (pub : node.PublicKey) : Prop :=
  ∀ data public_key pub', .datagram data ∈ events →
    Announces engine data nodeId public_key → ReadsAs node coerce public_key pub' →
    pub' = pub

/-- **When a packet is authentic.**  In every run, a packet that a service accepts for
a node was signed with the key of that node, provided that no datagram has
announced another key for it. -/
theorem accepted_signed {key : node.PrivateKey} {calls : List SignCall}
    (hunforgeable : Unforgeable node key calls) {w : World} {events : List Event}
    (hrun : Run (Step engine) .initial events w) {node_id : JsString}
    (hundisputed : Undisputed engine node coerce events node_id (node.publicKeyOf key))
    {clock : ℕ} {packet : Json} {payload : Option Json}
    (haccepted : parseRequestBodyWithCrypto node coerce
      { knownNodes := w.knownNodes, clock } (.json packet) = .ok (.payload payload true))
    (hid : field packet "node_id" = some (.str node_id)) :
    ∃ call ∈ calls, call.UsesKey node key ∧
      (signedFields packet).Same call.packet.signed := by
  obtain ⟨packet', node_id', hbody, h⟩ := parse_crypto_iff.mp haccepted
  obtain rfl := Body.json.inj hbody
  obtain ⟨-, hid', -⟩ := verifyRoutingPacket_accepted_iff.mp (verifyPacket_accepted_iff.mp h)
  obtain rfl : node_id = node_id' := by
    simpa using hid.symm.trans hid'
  obtain ⟨data, public_key, pub, sig, hdata, hannounces, hread, hverify⟩ :=
    verified_of_accepted hrun h
  obtain rfl := hundisputed data public_key pub hdata hannounces hread
  obtain ⟨call, hcall, huses, hmessage⟩ := hunforgeable _ _ hverify
  exact ⟨call, hcall, huses, buildSigningPayload_eq_iff.mp hmessage⟩

/-! ## Known announcements -/

/-- Somebody announces the key for node-a. -/
def announces (key : Tabulated.Key) : Event :=
  .datagram (announcement (js "node-a") (spkiText key) (js "worker"))

theorem readsAs_spkiText {publicKeys : List (Tabulated.Key × Tabulated.Key)}
    {signatures : List ((Bytes × Tabulated.Key) × { s : Bytes // s.length = 64 })}
    {key pub : Tabulated.Key} :
    ReadsAs (Tabulated.signOnly publicKeys signatures) knownCoercions
      (.str (spkiText key)) pub ↔ pub = key := by
  have hread : knownCoercions.b64ToU8 (.str (spkiText key))
      = .ok (spkiPrefix ++ key.1) := congrArg Except.ok (Base64.decode_encode _)
  have hkey := Tabulated.parseDer_append spkiPrefix key
  constructor
  · rintro ⟨der, hder, hpub⟩
    obtain rfl := Except.ok.inj (hread.symm.trans hder)
    exact Except.ok.inj (hpub.symm.trans hkey)
  · rintro rfl
    exact ⟨_, hread, hkey⟩

def otherSeed : Tabulated.Key :=
  ⟨Tabulated.hex 32 0x9d61b19deffd5a60ba844af492ec2cc44449c5697b326919703bac031cae7f60,
    Tabulated.length_hex _ _⟩

/-- The Ed25519 public key of that seed. -/
def otherKey : Tabulated.Key :=
  ⟨Tabulated.hex 32 0xd75a980182b10ab7d54bfed3c964073a0ee172f3daa62325af021a68f707511a,
    Tabulated.length_hex _ _⟩

/-- The known packet is all that is signed with the two keys. -/
def twoKeysNode : NodeSign :=
  Tabulated.signOnly [(knownSeed, knownKey), (otherSeed, otherKey)]
    [((buildSigningPayload knownSigned, knownKey), knownSignature)]

theorem twoKeysNode_verify {message : Bytes} {pub : twoKeysNode.PublicKey} {sig : Bytes} :
    twoKeysNode.verify message pub sig = true ↔
      message = buildSigningPayload knownSigned ∧ pub = knownKey ∧
      sig = knownSignature.1 :=
  Tabulated.signOnly_verify_singleton

theorem knownCall_made_twoKeys : knownCall.Made twoKeysNode :=
  made_of_entry rfl rfl rfl rfl

theorem knownCall_accepted :
    parseRequestBodyWithCrypto twoKeysNode knownCoercions
        { knownNodes := announcedNodes, clock := 1700000000000 }
        (.json knownCall.packet.toJson)
      = .ok (.payload knownSigned.payload true) :=
  parse_knownCall knownCall_made_twoKeys (List.mem_singleton_self _)

/-- The world after a service has copied the known key. -/
def copiedWorld : World :=
  { announced := announcedNodes, answers := [announcedNodes]
    knownNodes := announcedNodes }

theorem run_announced :
    Run (Step .plain) .initial [announces knownKey, .answer, .refresh announcedNodes]
      copiedWorld :=
  .cons (.datagram _ _) (.cons (.answer _) (.single (.refresh _ List.mem_cons_self)))

theorem otherKey_ne : otherKey ≠ knownKey := by
  intro h
  exact absurd (congrArg Subtype.val h) (by decide +kernel)

theorem twoKeys_publicKeyOf :
    twoKeysNode.publicKeyOf knownSeed = knownKey ∧
      twoKeysNode.publicKeyOf otherSeed = otherKey := by
  have hne : knownSeed ≠ otherSeed := by
    intro h
    exact absurd (congrArg Subtype.val h) (by decide +kernel)
  simp [twoKeysNode, Tabulated.signOnly, Tabulated.sign, Tabulated.lookupD, hne]

/-- Node-a announces its key, the service copies it, and accepts a packet. -/
theorem accepted_signed_known :
    ∃ call ∈ [knownCall], call.UsesKey twoKeysNode knownSeed ∧
      (signedFields knownCall.packet.toJson).Same call.packet.signed := by
  refine @accepted_signed .plain twoKeysNode knownCoercions knownSeed [knownCall] ?_ _ _
    run_announced (js "node-a") ?_ _ _ _ knownCall_accepted rfl
  · intro message sig hverify
    obtain ⟨rfl, -, -⟩ := twoKeysNode_verify.mp hverify
    exact ⟨knownCall, List.mem_singleton_self _,
      ⟨_, _, rfl, knownCall_createPrivateKey⟩, rfl⟩
  · rintro data public_key pub hdata ⟨node_id, service, -, hkey, -⟩ hread
    have hannounced : data
        = announcement (js "node-a") (spkiText knownKey) (js "worker") := by
      simpa [announces] using hdata
    subst hannounced
    obtain rfl : Json.str (spkiText knownKey) = public_key := Option.some.inj hkey
    exact (readsAs_spkiText.mp hread).trans twoKeys_publicKeyOf.1.symm

/-- **A rogue announcement.**  Somebody else announces a key for node-a, after its own
announcement, and a packet that is signed with that key is accepted, although the key
of node-a has signed nothing. -/
theorem rogue_accepted :
    twoKeysNode.publicKeyOf otherSeed = otherKey ∧ Unforgeable twoKeysNode otherSeed [] ∧
      ∃ w, Run (Step .plain) .initial
          [announces otherKey, announces knownKey, .answer, .refresh announcedNodes] w ∧
        ∃ payload, parseRequestBodyWithCrypto twoKeysNode knownCoercions
            { knownNodes := w.knownNodes, clock := 1700000000000 }
            (.json knownCall.packet.toJson) = .ok (.payload payload true) ∧
          field knownCall.packet.toJson "node_id" = some (.str (js "node-a")) := by
  refine ⟨twoKeys_publicKeyOf.2, ?_, copiedWorld, ?_, ?_⟩
  · intro message sig hverify
    obtain ⟨-, hpub, -⟩ := twoKeysNode_verify.mp hverify
    exact absurd (twoKeys_publicKeyOf.2.symm.trans hpub) otherKey_ne
  · exact .cons (.datagram _ _) (.cons (.datagram _ _)
      (.cons (.answer _) (.single (.refresh _ List.mem_cons_self))))
  · exact ⟨_, knownCall_accepted, rfl⟩

end NewZone.Services.Discovery
