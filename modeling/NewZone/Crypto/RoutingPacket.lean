import NewZone.Crypto.Node
import NewZone.Js.Base64
import NewZone.Js.JsonEqual
import NewZone.Lib.ExceptBind

/-!
# Routing packets

`lib/nz-crypto-routing.js`: packets that are signed over a text with the names
of every object in order, so that the signature survives a peer that writes
the members in another order.  The clock and the random bytes are arguments.
A field that an object does not have is `undefined`, which is `none` here.

Times are compared as exact numbers.
-/

namespace NewZone.Crypto.RoutingPacket

open NewZone.Js NewZone.Js.Json NewZone.ExceptBind

/-! ## The signed text -/

/-- `"{" + entries.join(",") + "}"`, the entries in the order of their
names. -/
def stableEntries (entries : List (JsString × JsString)) : JsString :=
  0x7B :: (joinComma ((sortNames entries).map fun e => quote e.1 ++ 0x3A :: e.2)
    ++ [0x7D])

mutual

def stableStringify : Json → JsString
  | .arr items => 0x5B :: (joinComma (stableItems items) ++ [0x5D])
  | .obj members => stableEntries (stableMembers members)
  | .null => stringify .null
  | .bool b => stringify (.bool b)
  | .num x => stringify (.num x)
  | .str s => stringify (.str s)

def stableItems : List Json → List JsString
  | [] => []
  | v :: vs => stableStringify v :: stableItems vs

/-- The texts of the members under their names. -/
def stableMembers : List (JsString × Json) → List (JsString × JsString)
  | [] => []
  | (k, v) :: ms => (k, stableStringify v) :: stableMembers ms

end

/-- `stableStringify` of a field in a concatenation, where `undefined` becomes
its name. -/
def stableField : Option Json → JsString
  | some v => stableStringify v
  | none => js "undefined"

/-- The fields that `buildSigningPayload` takes from a packet. -/
structure Signed where
  version : Option Json
  node_id : Option Json
  ts : Option Json
  nonce : Option Json
  payload : Option Json

/-- The text that is signed. -/
def signingText (packet : Signed) : JsString :=
  stableEntries
    [(js "version", stableField packet.version),
      (js "node_id", stableField packet.node_id),
      (js "ts", stableField packet.ts),
      (js "nonce", stableField packet.nonce),
      (js "payload", stableField packet.payload)]

def buildSigningPayload (packet : Signed) : Bytes := utf8 (signingText packet)

/-! ## Signing -/

def routingVersion : JsString := js "nz-routing-crypto-01"

structure NodeKeys where
  ed25519_private : Option JsString
  ed25519_public : Option JsString

structure SignParams where
  nodeKeys : Option NodeKeys
  nodeId : Option Json
  payload : Option Json

/-- The packet that `signRoutingPacket` returns. -/
structure Packet where
  version : JsString
  node_id : Option Json
  ts : Number
  nonce : JsString
  payload : Option Json
  signature : JsString

/-- The signed fields of a packet. -/
def Packet.signed (p : Packet) : Signed :=
  { version := some (.str p.version), node_id := p.node_id
    ts := some (.num p.ts), nonce := some (.str p.nonce)
    payload := p.payload }

/-- The packet as it is sent: a field that is `undefined` is left out. -/
def Packet.toJson (p : Packet) : Json :=
  .obj ([(js "version", Json.str p.version)]
    ++ (p.node_id.map fun v => (js "node_id", v)).toList
    ++ [(js "ts", .num p.ts), (js "nonce", .str p.nonce)]
    ++ (p.payload.map fun v => (js "payload", v)).toList
    ++ [(js "signature", .str p.signature)])

def signRoutingPacket (node : NodeSign) (params : SignParams) (now : Number)
    (random : Bytes) : Except String Packet := do
  match params.nodeKeys with
  | some ⟨some ed25519_private, some ed25519_public⟩ =>
    if ed25519_private = [] ∨ ed25519_public = [] then
      throw "Missing nodeKeys for signRoutingPacket"
    let signed : Signed :=
      { version := some (.str routingVersion), node_id := params.nodeId
        ts := some (.num now), nonce := some (.str (toHex random))
        payload := params.payload }
    let signingPayload := buildSigningPayload signed
    let privateKey ← node.createPrivateKey (Base64.decode ed25519_private)
    let signature := node.sign signingPayload privateKey
    return { version := routingVersion, node_id := params.nodeId, ts := now
             nonce := toHex random, payload := params.payload
             signature := Base64.encode signature }
  | _ => throw "Missing nodeKeys for signRoutingPacket"

/-! ## Verifying -/

structure VerifyParams where
  packet : Json
  getPublicKeyByNodeId : JsString → Option Bytes
  maxSkewSec : Option Number := none

/-- `{ ok: true, node_id, payload }` or `{ ok: false, reason }`. -/
inductive Verdict where
  | accepted (node_id : JsString) (payload : Option Json)
  | rejected (reason : String)

/-- The signed fields of whatever has been received. -/
def signedFields (packet : Json) : Signed :=
  { version := field packet "version", node_id := field packet "node_id"
    ts := field packet "ts", nonce := field packet "nonce"
    payload := field packet "payload" }

/-- The window is compared exactly.  `maxSkewSec * 1000` is rounded in the source, which
makes no difference for whole seconds, but does for `1.001`. -/
def verifyRoutingPacket (node : NodeSign) (params : VerifyParams)
    (now : Number) : Except String Verdict := do
  let packet := params.packet
  let maxSkewSec := params.maxSkewSec.getD (Number.ofNat 300)
  if field packet "version" ≠ some (.str routingVersion) then
    return .rejected "unsupported-version"
  let some (.str node_id) := field packet "node_id"
    | return .rejected "missing-node-id"
  if node_id = [] then
    return .rejected "missing-node-id"
  let some (.num ts) := field packet "ts"
    | return .rejected "invalid-ts"
  let some (.str nonce) := field packet "nonce"
    | return .rejected "invalid-nonce"
  if nonce = [] then
    return .rejected "invalid-nonce"
  let some (.str signature) := field packet "signature"
    | return .rejected "missing-signature"
  if signature = [] then
    return .rejected "missing-signature"
  let skewMs := |now.value - ts.value|
  if skewMs > maxSkewSec.value * 1000 then
    return .rejected "ts-skew"
  let some publicKeyRaw := params.getPublicKeyByNodeId node_id
    | return .rejected "unknown-node"
  let publicKey ← node.createPublicKey publicKeyRaw
  let signingPayload := buildSigningPayload (signedFields packet)
  let sig := Base64.decode signature
  if !node.verify signingPayload publicKey sig then
    return .rejected "invalid-signature"
  return .accepted node_id (field packet "payload")

/-! ## The signed text determines the signed values -/

theorem sortNames_map {α β : Type} (f : α → β) (ms : List (JsString × α)) :
    sortNames (ms.map fun m => (m.1, f m.2))
      = (sortNames ms).map fun m => (m.1, f m.2) := by
  have hinsert : ∀ (m : JsString × α) (ns : List (JsString × α)),
      (ns.map fun n => (n.1, f n.2)).orderedInsert (fun a b => a.1 ≤ b.1)
          (m.1, f m.2)
        = (ns.orderedInsert (fun a b => a.1 ≤ b.1) m).map
            fun n => (n.1, f n.2) := by
    intro m ns
    induction ns with
    | nil => rfl
    | cons n ns ih =>
      rw [List.map_cons, List.orderedInsert_cons, List.orderedInsert_cons]
      split_ifs
      · rfl
      · rw [ih, List.map_cons]
  induction ms with
  | nil => rfl
  | cons m ms ih =>
    show ((sortNames (ms.map fun m => (m.1, f m.2))).orderedInsert _ _) = _
    rw [ih]
    exact hinsert m (sortNames ms)

theorem stringifyMembers_eq (ms : List (JsString × Json)) :
    stringifyMembers ms
      = (ms.map fun m => (m.1, stringify m.2)).map
          fun e => quote e.1 ++ 0x3A :: e.2 := by
  induction ms with
  | nil => rfl
  | cons m ms ih =>
    obtain ⟨k, v⟩ := m
    rw [stringifyMembers, ih]
    rfl

mutual

/-- The stable text is the text of the sorted value. -/
theorem stableStringify_eq : ∀ v : Json, stableStringify v = stringify v.sorted
  | .arr items => by
    rw [stableStringify, sorted, stringify, stableItems_eq items]
  | .obj members => by
    rw [stableStringify, sorted, stringify, stringifyMembers_eq,
      stableMembers_eq members, stableEntries, sortNames_map]
  | .null => rfl
  | .bool _ => rfl
  | .num _ => rfl
  | .str _ => rfl

theorem stableItems_eq : ∀ vs : List Json,
    stableItems vs = stringifyItems (sortedItems vs)
  | [] => rfl
  | v :: vs => by
    rw [stableItems, sortedItems, stringifyItems, stableStringify_eq v,
      stableItems_eq vs]

theorem stableMembers_eq : ∀ ms : List (JsString × Json),
    stableMembers ms = (sortedMembers ms).map fun m => (m.1, stringify m.2)
  | [] => rfl
  | (k, v) :: ms => by
    rw [stableMembers, sortedMembers, List.map_cons, stableStringify_eq v,
      stableMembers_eq ms]

end

/-- Two values have the same stable text exactly when they are the same. -/
theorem stableStringify_eq_iff {v w : Json} :
    stableStringify v = stableStringify w ↔ Same v w := by
  rw [stableStringify_eq, stableStringify_eq]
  exact stringify_injective.eq_iff

/-- **The stable text is canonical.**  Two values have the same stable text exactly when
they are equal, with objects as unordered maps. -/
theorem stableStringify_canonical {v w : Json} (hv : v.DistinctNames) (hw : w.DistinctNames) :
    stableStringify v = stableStringify w ↔ Json.Equal v w := by
  rw [stableStringify_eq_iff, same_iff_equal hv hw]

/-- An object in an array, with its members in either order. -/
theorem stableStringify_canonical_known :
    Json.Equal (.arr [.obj [(js "b", .null), (js "a", .bool true)]])
      (.arr [.obj [(js "a", .bool true), (js "b", .null)]]) := by
  have hba : [js "b", js "a"].Nodup := by decide
  have hab : [js "a", js "b"].Nodup := by decide
  refine (stableStringify_canonical ?_ ?_).mp (by decide)
  · exact ⟨⟨hba, trivial, trivial, trivial⟩, trivial⟩
  · exact ⟨⟨hab, trivial, trivial, trivial⟩, trivial⟩

/-- A field is determined by its text up to the order of members, and
`undefined` is no value. -/
theorem stableField_inj {a b : Option Json} {r s : JsString} (hr : Stops r)
    (hs : Stops s) (h : stableField a ++ r = stableField b ++ s) :
    a.map sorted = b.map sorted ∧ r = s := by
  have hundefined : ∀ (v : Json) (r s : JsString),
      stringify v ++ r ≠ js "undefined" ++ s :=
    fun v r s => stringify_ne_cons rfl (by decide) rfl v _ r
  cases a with
  | none =>
    cases b with
    | none => exact ⟨rfl, List.append_cancel_left h⟩
    | some w =>
      rw [stableField, stableField, stableStringify_eq] at h
      exact absurd h.symm (hundefined _ _ _)
  | some v =>
    cases b with
    | none =>
      rw [stableField, stableField, stableStringify_eq] at h
      exact absurd h (hundefined _ _ _)
    | some w =>
      rw [stableField, stableField, stableStringify_eq, stableStringify_eq] at h
      obtain ⟨hvw, hrest⟩ := stringify_inj _ _ hr hs h
      exact ⟨congrArg some hvw, hrest⟩

/-- The text of a field under its name. -/
def entryText (e : JsString × Option Json) : JsString :=
  quote e.1 ++ 0x3A :: stableField e.2

/-- Fields with the same names are determined by their joined texts. -/
theorem fields_inj : ∀ (names : List JsString) (f g : List (Option Json))
    {r s : JsString}, f.length = names.length → g.length = names.length →
    tailText ((names.zip f).map entryText) 0x7D r
      = tailText ((names.zip g).map entryText) 0x7D s →
    f.map (Option.map sorted) = g.map (Option.map sorted)
  | [], [], [], _, _, _, _, _ => rfl
  | n :: names, a :: f, b :: g, r, s, hf, hg, h => by
    rw [List.zip_cons_cons, List.zip_cons_cons, List.map_cons, List.map_cons,
      tailText_cons, tailText_cons, entryText, entryText, List.append_assoc,
      List.append_assoc] at h
    obtain ⟨-, h⟩ := quote_inj (List.cons.inj h).2
    obtain ⟨hab, hrest⟩ := stableField_inj (stops_tailText _ rfl r)
      (stops_tailText _ rfl s) (List.cons.inj h).2
    have hfg := fields_inj names f g (by simpa using hf) (by simpa using hg) hrest
    rw [List.map_cons, List.map_cons, hab, hfg]

def signedNames : List JsString :=
  [js "node_id", js "nonce", js "payload", js "ts", js "version"]

/-- The signed fields in the order of their names. -/
def Signed.fields (p : Signed) : List (Option Json) :=
  [p.node_id, p.nonce, p.payload, p.ts, p.version]

theorem sortNames_signed (version node_id ts nonce payload : JsString) :
    sortNames [(js "version", version), (js "node_id", node_id), (js "ts", ts),
      (js "nonce", nonce), (js "payload", payload)]
    = [(js "node_id", node_id), (js "nonce", nonce), (js "payload", payload),
      (js "ts", ts), (js "version", version)] := by
  rfl

theorem signingText_eq (p : Signed) :
    signingText p
      = 0x7B :: (joinComma ((signedNames.zip p.fields).map entryText) ++ [0x7D]) := by
  rw [signingText, stableEntries, sortNames_signed]
  rfl

/-- The same signed fields, up to the order of members. -/
def Signed.Same (p q : Signed) : Prop :=
  p.fields.map (Option.map sorted) = q.fields.map (Option.map sorted)

/-- The signed text determines the signed fields. -/
theorem signingText_eq_iff {p q : Signed} :
    signingText p = signingText q ↔ p.Same q := by
  constructor
  · intro h
    rw [signingText_eq, signingText_eq] at h
    have h := congrArg (· ++ []) (List.cons.inj h).2
    exact fields_inj signedNames p.fields q.fields rfl rfl
      (tailText_eq_of_joinComma h)
  · intro h
    have hfield : ∀ a : Option Json, stableField a
        = ((a.map sorted).map stringify).getD (js "undefined") := by
      intro a
      cases a with
      | none => rfl
      | some v => exact stableStringify_eq v
    have hfields : p.fields.map stableField = q.fields.map stableField := by
      have := congrArg
        (List.map fun a => (a.map stringify).getD (js "undefined")) h
      simpa only [List.map_map, Function.comp_def, ← hfield] using this
    simp only [Signed.fields, List.map_cons, List.map_nil, List.cons.injEq,
      and_true] at hfields
    obtain ⟨h₁, h₂, h₃, h₄, h₅⟩ := hfields
    rw [signingText, signingText, h₁, h₂, h₃, h₄, h₅]

theorem wellFormed_signingText (p : Signed) : WellFormed (signingText p) := by
  have hfield : ∀ a : Option Json, WellFormed (stableField a) := by
    intro a
    cases a with
    | none => decide
    | some v =>
      rw [stableField, stableStringify_eq]
      exact wellFormed_stringify _
  rw [signingText_eq]
  refine .cons rfl ((wellFormed_joinComma ?_).append (.cons rfl wellFormed_nil))
  intro t ht
  obtain ⟨e, -, rfl⟩ := List.mem_map.mp ht
  exact (wellFormed_quote e.1).append (.cons rfl (hfield e.2))

/-- So do the signed bytes. -/
theorem buildSigningPayload_eq_iff {p q : Signed} :
    buildSigningPayload p = buildSigningPayload q ↔ p.Same q :=
  (utf8_inj (wellFormed_signingText p) (wellFormed_signingText q)).trans
    signingText_eq_iff

/-! ## What an answer means -/

/-- A packet passes every check in front of the key `der` of its sender. -/
structure Presents (params : VerifyParams) (now : Number) (node_id signature : JsString)
    (der : Bytes) : Prop where
  version : field params.packet "version" = some (.str routingVersion)
  id : field params.packet "node_id" = some (.str node_id)
  id_ne : node_id ≠ []
  ts : ∃ ts, field params.packet "ts" = some (.num ts) ∧
    |now.value - ts.value| ≤ (params.maxSkewSec.getD (Number.ofNat 300)).value * 1000
  nonce : ∃ nonce, field params.packet "nonce" = some (.str nonce) ∧ nonce ≠ []
  signed : field params.packet "signature" = some (.str signature)
  signed_ne : signature ≠ []
  key : params.getPublicKeyByNodeId node_id = some der

/-- Then the key and the signature decide. -/
theorem verifyRoutingPacket_of_presents {node : NodeSign} {params : VerifyParams} {now : Number}
    {node_id signature : JsString} {der : Bytes} (h : Presents params now node_id signature der) :
    verifyRoutingPacket node params now = (do
      let pub ← node.createPublicKey der
      if node.verify (buildSigningPayload (signedFields params.packet)) pub
        (Base64.decode signature) then
        return .accepted node_id (field params.packet "payload")
      else return .rejected "invalid-signature") := by
  obtain ⟨ts, hts, hskew⟩ := h.ts
  obtain ⟨nonce, hnonce, hnonce'⟩ := h.nonce
  unfold verifyRoutingPacket
  simp only [h.version, h.id, hts, hnonce, h.signed, h.key]
  rw [if_neg (not_not.mpr rfl), if_neg h.id_ne, if_neg hnonce', if_neg h.signed_ne,
    if_neg (not_lt.mpr hskew)]
  cases node.createPublicKey der with
  | error e => rfl
  | ok pub =>
    simp only [ok_bind]
    cases node.verify (buildSigningPayload (signedFields params.packet)) pub
      (Base64.decode signature) <;> rfl

/-- A packet that does not get there is rejected. -/
theorem verifyRoutingPacket_of_not_presents {node : NodeSign} {params : VerifyParams} {now : Number}
    (h : ∀ node_id signature der, ¬ Presents params now node_id signature der) :
    ∃ reason, verifyRoutingPacket node params now = .ok (.rejected reason) := by
  unfold verifyRoutingPacket
  dsimp only
  split
  · exact ⟨_, rfl⟩
  rename_i hversion
  split
  swap
  · exact ⟨_, rfl⟩
  rename_i id hid
  split
  · exact ⟨_, rfl⟩
  rename_i hne
  split
  swap
  · exact ⟨_, rfl⟩
  rename_i ts hts
  split
  swap
  · exact ⟨_, rfl⟩
  rename_i nonce hnonce
  split
  · exact ⟨_, rfl⟩
  rename_i hnonce'
  split
  swap
  · exact ⟨_, rfl⟩
  rename_i signature hsig
  split
  · exact ⟨_, rfl⟩
  rename_i hsig'
  split
  · exact ⟨_, rfl⟩
  rename_i hskew
  split
  swap
  · exact ⟨_, rfl⟩
  rename_i der hder
  exact absurd ⟨not_not.mp hversion, hid, hne, ⟨ts, hts, not_lt.mp hskew⟩, ⟨nonce, hnonce, hnonce'⟩,
    hsig, hsig', hder⟩ (h id signature der)

theorem exists_presents {node : NodeSign} {params : VerifyParams} {now : Number}
    (h : ∀ reason, verifyRoutingPacket node params now ≠ .ok (.rejected reason)) :
    ∃ node_id signature der, Presents params now node_id signature der := by
  by_contra hnot
  push Not at hnot
  obtain ⟨reason, hreason⟩ := @verifyRoutingPacket_of_not_presents node _ _ hnot
  exact h reason hreason

/-- Without a key, the node is unknown. -/
theorem verifyRoutingPacket_of_unknown {node : NodeSign} {params : VerifyParams} {now : Number}
    {node_id signature : JsString} {der : Bytes}
    (h : Presents { params with getPublicKeyByNodeId := fun _ => some der } now node_id
      signature der)
    (hnone : params.getPublicKeyByNodeId node_id = none) :
    verifyRoutingPacket node params now = .ok (.rejected "unknown-node") := by
  obtain ⟨ts, hts, hskew⟩ := h.ts
  obtain ⟨nonce, hnonce, hnonce'⟩ := h.nonce
  have hversion : field params.packet "version" = some (.str routingVersion) := h.version
  have hid : field params.packet "node_id" = some (.str node_id) := h.id
  have hsigned : field params.packet "signature" = some (.str signature) := h.signed
  unfold verifyRoutingPacket
  simp only [hversion, hid, hts, hnonce, hsigned, hnone]
  rw [if_neg (not_not.mpr rfl), if_neg h.id_ne, if_neg hnonce', if_neg h.signed_ne,
    if_neg (not_lt.mpr hskew)]
  rfl

/-- A packet of an unknown node passes the other checks in front of the key. -/
theorem presents_of_unknown {node : NodeSign} {params : VerifyParams} {now : Number}
    (h : verifyRoutingPacket node params now = .ok (.rejected "unknown-node")) :
    ∃ node_id signature, params.getPublicKeyByNodeId node_id = none ∧
      ∀ der, Presents { params with getPublicKeyByNodeId := fun _ => some der } now node_id
        signature der := by
  have hreason : ∀ {reason : String}, reason ≠ "unknown-node" →
      (.ok (.rejected reason) : Except String Verdict) ≠ .ok (.rejected "unknown-node") :=
    fun hne heq => hne (Verdict.rejected.inj (Except.ok.inj heq))
  unfold verifyRoutingPacket at h
  dsimp only at h
  split at h
  · exact absurd h (hreason (by decide))
  rename_i hversion
  split at h
  swap
  · exact absurd h (hreason (by decide))
  rename_i id hid
  split at h
  · exact absurd h (hreason (by decide))
  rename_i hne
  split at h
  swap
  · exact absurd h (hreason (by decide))
  rename_i ts hts
  split at h
  swap
  · exact absurd h (hreason (by decide))
  rename_i nonce hnonce
  split at h
  · exact absurd h (hreason (by decide))
  rename_i hnonce'
  split at h
  swap
  · exact absurd h (hreason (by decide))
  rename_i signature hsig
  split at h
  · exact absurd h (hreason (by decide))
  rename_i hsig'
  split at h
  · exact absurd h (hreason (by decide))
  rename_i hskew
  split at h
  · rename_i der hder
    -- with a key, the answer is another one
    cases hkey : node.createPublicKey der with
    | error e =>
      rw [hkey] at h
      cases h
    | ok pub =>
      rw [hkey, ok_bind] at h
      split at h
      · exact absurd h (hreason (by decide))
      · cases h
  · rename_i hnone
    refine ⟨id, signature, ?_, fun der => ⟨not_not.mp hversion, hid, hne,
      ⟨ts, hts, not_lt.mp hskew⟩, ⟨nonce, hnonce, hnonce'⟩, hsig, hsig', rfl⟩⟩
    exact Option.eq_none_iff_forall_ne_some.mpr hnone

/-- A packet is accepted exactly when every check passes. -/
theorem verifyRoutingPacket_accepted_iff {node : NodeSign}
    {params : VerifyParams} {now : Number} {node_id : JsString}
    {payload : Option Json} :
    verifyRoutingPacket node params now = .ok (.accepted node_id payload) ↔
      field params.packet "version" = some (.str routingVersion) ∧
      field params.packet "node_id" = some (.str node_id) ∧ node_id ≠ [] ∧
      payload = field params.packet "payload" ∧
      ∃ ts nonce signature der pub,
        field params.packet "ts" = some (.num ts) ∧
        field params.packet "nonce" = some (.str nonce) ∧ nonce ≠ [] ∧
        field params.packet "signature" = some (.str signature) ∧
        signature ≠ [] ∧
        |now.value - ts.value|
          ≤ (params.maxSkewSec.getD (Number.ofNat 300)).value * 1000 ∧
        params.getPublicKeyByNodeId node_id = some der ∧
        node.createPublicKey der = .ok pub ∧
        node.verify (buildSigningPayload (signedFields params.packet)) pub
          (Base64.decode signature) = true := by
  constructor
  · intro heq
    obtain ⟨id, signature, der, h⟩ := @exists_presents node params now fun reason hrejected => by
      rw [hrejected] at heq
      cases heq
    rw [verifyRoutingPacket_of_presents h] at heq
    obtain ⟨pub, hpub, heq⟩ := bind_eq_ok.mp heq
    split at heq
    · rename_i hverify
      obtain ⟨rfl, rfl⟩ := Verdict.accepted.inj (Except.ok.inj heq)
      obtain ⟨ts, hts, hskew⟩ := h.ts
      obtain ⟨nonce, hnonce, hnonce'⟩ := h.nonce
      exact ⟨h.version, h.id, h.id_ne, rfl, ts, nonce, signature, der, pub, hts, hnonce, hnonce',
        h.signed, h.signed_ne, hskew, h.key, hpub, hverify⟩
    · cases heq
  · rintro ⟨hversion, hid, hne, rfl, ts, nonce, signature, der, pub, hts, hnonce,
      hnonce', hsig, hsig', hskew, hder, hpub, hverify⟩
    have h : Presents params now node_id signature der :=
      ⟨hversion, hid, hne, ⟨ts, hts, hskew⟩, ⟨nonce, hnonce, hnonce'⟩, hsig, hsig', hder⟩
    rw [verifyRoutingPacket_of_presents h]
    apply (bind_of_ok hpub _).trans
    rw [if_pos hverify]
    rfl

/-- With both keys, and a private key that can be read, a packet is made. -/
theorem signRoutingPacket_ok {node : NodeSign} {params : SignParams}
    {ed25519_private ed25519_public : JsString} {key : node.PrivateKey}
    (hkeys : params.nodeKeys = some ⟨some ed25519_private, some ed25519_public⟩)
    (hprivate : ed25519_private ≠ []) (hpublic : ed25519_public ≠ [])
    (hkey : node.createPrivateKey (Base64.decode ed25519_private) = .ok key)
    (now : Number) (random : Bytes) :
    signRoutingPacket node params now random
      = .ok
        { version := routingVersion, node_id := params.nodeId, ts := now
          nonce := toHex random, payload := params.payload
          signature := Base64.encode (node.sign (buildSigningPayload
            { version := some (.str routingVersion), node_id := params.nodeId
              ts := some (.num now), nonce := some (.str (toHex random))
              payload := params.payload }) key) } := by
  unfold signRoutingPacket
  rw [hkeys]
  dsimp only
  rw [if_neg (not_or.mpr ⟨hprivate, hpublic⟩)]
  exact bind_of_ok hkey _

/-- A packet that has been made carries the signature of its signed fields
under the private key of the call. -/
theorem of_signRoutingPacket_ok {node : NodeSign} {params : SignParams}
    {now : Number} {random : Bytes} {packet : Packet}
    (h : signRoutingPacket node params now random = .ok packet) :
    ∃ ed25519_private ed25519_public key,
      params.nodeKeys = some ⟨some ed25519_private, some ed25519_public⟩ ∧
      node.createPrivateKey (Base64.decode ed25519_private) = .ok key ∧
      packet.version = routingVersion ∧ packet.node_id = params.nodeId ∧
      packet.ts = now ∧ packet.nonce = toHex random ∧
      packet.payload = params.payload ∧
      packet.signature = Base64.encode
        (node.sign (buildSigningPayload packet.signed) key) := by
  unfold signRoutingPacket at h
  split at h
  · rename_i priv pub hkeys
    split at h
    · cases h
    · obtain ⟨key, hkey, h⟩ := bind_eq_ok.mp h
      obtain rfl := Except.ok.inj h
      exact ⟨priv, pub, key, hkeys, hkey, rfl, rfl, rfl, rfl, rfl, rfl⟩
  · cases h

end NewZone.Crypto.RoutingPacket
