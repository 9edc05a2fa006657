import NewZone.Services.Gateway

/-!
# The delivery of a signed packet

A packet that has been built comes to the verifier as JSON, and on its way the
members of its objects may have been put into another order.  `auth` is hashed
in a canonical form and survives this.  The body is hashed as it is, so it does
not, and a body that is not truthy is taken to be missing.  `delivered_iff` says
that this is all that can go wrong in time.
-/

namespace NewZone.Crypto.SignedPacket

open NewZone.Js NewZone.Js.Json NewZone.ExceptBind NewZone.Crypto.Ed25519
open NewZone.Services.Gateway (toJson exists_made)

/-! ## Members in another order -/

theorem getProp_eq_of_perm {α : Type} {ms ns : List (JsString × α)} (hperm : ms.Perm ns)
    (hms : NodupKeys ms) (key : JsString) : getProp key ms = getProp key ns := by
  have hns : NodupKeys ns := (hperm.map Prod.fst).nodup_iff.mp hms
  ext v
  rw [getProp_eq_some_iff hms, getProp_eq_some_iff hns, hperm.mem_iff]

/-- The canonical form does not depend on the order of the members. -/
theorem canonicalize_eq_of_perm {obj obj' : List (JsString × Option Json)}
    (hperm : obj.Perm obj') (hobj : NodupKeys obj) : canonicalize obj = canonicalize obj' := by
  unfold canonicalize
  rw [sortNames_eq_of_perm hperm hobj]
  simp only [getProp_eq_of_perm hperm hobj]

/-- A value without members has one order only. -/
def Flat (v : Json) : Prop := ∀ w : Json, Json.Same v w → v = w

theorem flat_str (s : JsString) : Flat (.str s) := by
  intro w h
  cases w <;> simp_all [Json.Same, sorted]

theorem flat_num (x : Number) : Flat (.num x) := by
  intro w h
  cases w <;> simp_all [Json.Same, sorted]

theorem sortedMembers_eq_map (ms : List (JsString × Json)) :
    sortedMembers ms = ms.map fun m => (m.1, m.2.sorted) := by
  induction ms with
  | nil => rfl
  | cons m ms ih =>
    obtain ⟨k, v⟩ := m
    rw [sortedMembers, ih]
    rfl

/-- The same object with flat members has the same members in another order. -/
theorem perm_of_same {ms ns : List (JsString × Json)} (h : Json.Same (.obj ms) (.obj ns))
    (hms : NodupKeys ms) (hflat : ∀ m ∈ ms, Flat m.2) : ms.Perm ns := by
  have hsorted : sortNames (sortedMembers ms) = sortNames (sortedMembers ns) := by
    simpa [Json.Same, sorted] using h
  have hperm : (sortedMembers ms).Perm (sortedMembers ns) :=
    (sortNames_perm _).symm.trans (hsorted ▸ sortNames_perm _)
  have hns : NodupKeys ns := by
    have hnames := hperm.map Prod.fst
    rw [map_fst_sortedMembers, map_fst_sortedMembers] at hnames
    exact hnames.nodup_iff.mp hms
  rw [sortedMembers_eq_map, sortedMembers_eq_map] at hperm
  refine (List.perm_ext_iff_of_nodup (List.Nodup.of_map _ hms) (List.Nodup.of_map _ hns)).mpr ?_
  intro m
  constructor
  · intro hm
    obtain ⟨n, hn, heq⟩ := List.mem_map.mp (hperm.mem_iff.mp (List.mem_map.mpr ⟨m, hm, rfl⟩))
    obtain ⟨hname, hvalue⟩ := Prod.mk.inj heq
    have hsame : m.2 = n.2 := hflat m hm n.2 hvalue.symm
    rw [show m = n from Prod.ext hname.symm hsame]
    exact hn
  · intro hm
    obtain ⟨n, hn, heq⟩ := List.mem_map.mp (hperm.mem_iff.mpr (List.mem_map.mpr ⟨m, hm, rfl⟩))
    obtain ⟨hname, hvalue⟩ := Prod.mk.inj heq
    have hsame : n.2 = m.2 := hflat n hn m.2 hvalue
    rw [show m = n from Prod.ext hname.symm hsame.symm]
    exact hn

/-! ## What arrives -/

/-- The members of `auth` in a packet that has been built for a node. -/
def authMembers (nodeId : JsString) (packet : Packet) : List (JsString × Json) :=
  [(js "node_id", .str nodeId), (js "timestamp", .num packet.auth.timestamp),
    (js "nonce", .str packet.auth.nonce), (js "body_hash", .str packet.auth.body_hash),
    (js "signature", .str packet.signature)]

theorem nodupKeys_authMembers (nodeId : JsString) (packet : Packet) :
    NodupKeys (authMembers nodeId packet) := by
  show [js "node_id", js "timestamp", js "nonce", js "body_hash", js "signature"].Nodup
  decide

theorem flat_of_mem_authMembers {nodeId : JsString} {packet : Packet} {m : JsString × Json}
    (h : m ∈ authMembers nodeId packet) : Flat m.2 := by
  simp only [authMembers, List.mem_cons, List.not_mem_nil, or_false] at h
  rcases h with rfl | rfl | rfl | rfl | rfl
  · exact flat_str _
  · exact flat_num _
  · exact flat_str _
  · exact flat_str _
  · exact flat_str _

/-- `auth` arrives with its members in some order. -/
theorem exists_auth {nodeId : JsString} {packet : Packet}
    (hid : packet.auth.node_id = some (.str nodeId)) {v : Json}
    (hsame : Json.Same (toJson packet) v) :
    ∃ ms, field v "auth" = some (.obj ms) ∧ (authMembers nodeId packet).Perm ms := by
  have hauth : field (toJson packet) "auth" = some (.obj (authMembers nodeId packet)) := by
    unfold toJson Auth.properties
    rw [hid]
    rfl
  have hfield := field_same hsame "auth"
  rw [hauth] at hfield
  obtain ⟨w, hw, hsorted⟩ := Option.map_eq_some_iff.mp hfield.symm
  cases w with
  | obj ms =>
    exact ⟨ms, hw, perm_of_same hsorted.symm (nodupKeys_authMembers _ _)
      fun m hm => flat_of_mem_authMembers hm⟩
  | _ => simp [sorted] at hsorted

/-- The signed message is that of the packet that has been built. -/
theorem authMessage_of_perm {nodeId : JsString} {packet : Packet}
    (hid : packet.auth.node_id = some (.str nodeId)) {ms : List (JsString × Json)}
    (hperm : (authMembers nodeId packet).Perm ms) (hash : NodeHash) :
    authMessage hash (authWithoutSig (.obj ms)) = authMessage hash packet.auth.properties := by
  have hproperties : authWithoutSig (.obj (authMembers nodeId packet)) = packet.auth.properties := by
    unfold Auth.properties
    rw [hid]
    rfl
  have hwithout : (authWithoutSig (.obj (authMembers nodeId packet))).Perm
      (authWithoutSig (.obj ms)) := (hperm.filter _).map _
  rw [hproperties] at hwithout
  have hkeys : NodupKeys packet.auth.properties := by
    show [js "node_id", js "timestamp", js "nonce", js "body_hash"].Nodup
    decide
  unfold authMessage
  rw [canonicalize_eq_of_perm hwithout hkeys]

/-! ## What is accepted -/

/-- A packet that a node has built is presented in time to a verifier that knows
the node's key. -/
structure Presented (hash : NodeHash) (sign : NodeSign) (c : BuildCall) (nodeId : JsString)
    (body : Json) (params : VerifyParams) (clock : ℕ) : Prop where
  made : c.Made hash sign
  node_id : c.params.nodeId = some (.str nodeId)
  nonempty : nodeId ≠ []
  body : c.params.body = some body
  random : c.random.length = 16
  known : ∃ pub, ed25519GetPublicKey sign c.params.privateKey = .ok pub ∧
    params.getPublicKeyByNodeId (.str nodeId) = some pub
  fresh : |(seconds clock).value - (seconds c.clock).value| ≤ params.maxSkewSec.value

theorem truthy_ofNat {n : ℕ} : truthy (.num (.ofNat n)) = true ↔ n ≠ 0 := by
  have hvalue := Number.value_ofNat n
  show decide ((Number.ofNat n).coeff ≠ 0) = true ↔ n ≠ 0
  rw [decide_eq_true_iff, not_iff_not]
  constructor
  · intro h
    simp only [Number.value, h, Nat.cast_zero, mul_zero, zero_mul] at hvalue
    exact_mod_cast hvalue.symm
  · rintro rfl
    unfold Number.ofNat Number.ofNatExp
    rfl

/-- A timestamp is present from the second second of 1970 on. -/
theorem truthy_seconds {clock : ℕ} : truthy (.num (seconds clock)) = true ↔ 1000 ≤ clock := by
  rw [seconds, truthy_ofNat]
  omega

theorem truthy_str {s : JsString} : truthy (.str s) = true ↔ s ≠ [] := by
  cases s <;> simp [truthy]

theorem Presented.exists_signature {hash : NodeHash} {sign : NodeSign} (hsign : sign.Lawful)
    {c : BuildCall} {nodeId : JsString} {body : Json} {params : VerifyParams} {clock : ℕ}
    (h : Presented hash sign c nodeId body params clock) :
    ∃ pub sigBytes, params.getPublicKeyByNodeId (.str nodeId) = some pub ∧
      c.packet.signature = Base64.encode sigBytes ∧ sigBytes ≠ [] ∧
      ed25519Verify sign (authMessage hash c.packet.auth.properties) sigBytes pub = .ok true := by
  obtain ⟨pub, hpub, hknown⟩ := h.known
  have hseed : c.params.privateKey.length = 32 := by
    by_contra hlength
    unfold ed25519GetPublicKey at hpub
    rw [if_pos hlength] at hpub
    cases hpub
  obtain ⟨pub', hpub', hverify⟩ := exists_sign_verify hsign hseed
  obtain rfl : pub' = pub := Except.ok.inj (hpub'.symm.trans hpub)
  obtain ⟨sig, hsig, hpacket⟩ := bind_eq_ok.mp h.made
  obtain ⟨sig', hsig', hok⟩ := hverify (authMessage hash c.packet.auth.properties)
  have hauth := (of_buildSignedPacket_ok h.made).2
  rw [hauth] at hsig' hok ⊢
  obtain rfl : sig = sig' := Except.ok.inj (hsig.symm.trans hsig')
  refine ⟨pub', sig, hknown, ?_, ?_, hok⟩
  · rw [← Except.ok.inj hpacket]
  · rintro rfl
    unfold ed25519Verify at hok
    split_ifs at hok
    · cases hok
    · cases hok
    · rename_i hlength
      simp at hlength

theorem Presented.auth_node_id {hash : NodeHash} {sign : NodeSign} {c : BuildCall}
    {nodeId : JsString} {body : Json} {params : VerifyParams} {clock : ℕ}
    (h : Presented hash sign c nodeId body params clock) :
    c.packet.auth.node_id = some (.str nodeId) := by
  rw [(of_buildSignedPacket_ok h.made).2]
  exact h.node_id

theorem Presented.field_body {hash : NodeHash} {sign : NodeSign} {c : BuildCall}
    {nodeId : JsString} {body : Json} {params : VerifyParams} {clock : ℕ}
    (h : Presented hash sign c nodeId body params clock) :
    field (toJson c.packet) "body" = some body := by
  unfold toJson
  rw [(of_buildSignedPacket_ok h.made).1, h.body]
  rfl

/-- The fields of `auth` as they arrive. -/
theorem Presented.exists_fields {hash : NodeHash} {sign : NodeSign} {c : BuildCall}
    {nodeId : JsString} {body : Json} {params : VerifyParams} {clock : ℕ}
    (h : Presented hash sign c nodeId body params clock)
    (hsame : Json.Same (toJson c.packet) params.packet) :
    ∃ ms, field params.packet "auth" = some (.obj ms) ∧
      (authMembers nodeId c.packet).Perm ms ∧
      field (.obj ms) "node_id" = some (.str nodeId) ∧
      field (.obj ms) "timestamp" = some (.num (seconds c.clock)) ∧
      field (.obj ms) "nonce" = some (.str c.packet.auth.nonce) ∧
      field (.obj ms) "body_hash" = some (.str (sha256Hex hash (some body))) ∧
      field (.obj ms) "signature" = some (.str c.packet.signature) := by
  obtain ⟨ms, hms, hperm⟩ := exists_auth h.auth_node_id hsame
  have hauth := (of_buildSignedPacket_ok h.made).2
  have hmember : ∀ name : String, field (.obj ms) name
      = getProp (js name) (authMembers nodeId c.packet) := fun name =>
    (getProp_eq_of_perm hperm (nodupKeys_authMembers _ _) (js name)).symm
  refine ⟨ms, hms, hperm, hmember "node_id", ?_, hmember "nonce", ?_, hmember "signature"⟩
  · rw [hmember, ← show c.packet.auth.timestamp = seconds c.clock by rw [hauth]]
    rfl
  · rw [hmember, ← show c.packet.auth.body_hash = sha256Hex hash (some body) by
      rw [hauth, h.body]]
    rfl

/-- **When a packet is accepted that has been built.**  Its body is truthy and
arrives as it was, it was not built in the first second of 1970, and its nonce has
not been seen. -/
theorem Presented.accepted_iff {hash : NodeHash} {sign : NodeSign} {coerce : Coercions}
    (hsign : sign.Lawful) (hdigest : ∀ data, (hash.sha256 data).length = 32)
    {c : BuildCall} {nodeId : JsString} {body : Json} {params : VerifyParams} {clock : ℕ}
    (h : Presented hash sign c nodeId body params clock)
    (hsame : Json.Same (toJson c.packet) params.packet)
    (hfree : CollisionFree hash
      [utf8 (hashedText (some body)), utf8 (hashedText (field params.packet "body"))]) :
    verifySignedPacket hash sign coerce params clock = .ok (.accepted (.str nodeId)) ↔
      body.truthy = true ∧ 1000 ≤ c.clock ∧ field params.packet "body" = some body ∧
        (params.isNonceSeen.map fun seen => seen (.str nodeId) (.str c.packet.auth.nonce))
          ≠ some true := by
  obtain ⟨ms, hms, hperm, hnode, htime, hnonce, hhash, hsignature⟩ := h.exists_fields hsame
  constructor
  · intro haccepted
    obtain ⟨auth, body', timestamp, nonce, signature, pubKey, sigBytes, hauth', hbody', -,
      htime', hnonce', hhash', -, -, hseen, -⟩ := verifySignedPacket_accepted_iff.mp haccepted
    obtain rfl := eq_of_present hms hauth'
    obtain ⟨hbody', htruthy⟩ := present_eq_some_iff.mp hbody'
    obtain rfl := eq_of_present htime htime'
    obtain rfl := eq_of_present hnonce hnonce'
    -- the hash is that of the body that has been signed
    have hhex := (Json.str.inj (eq_of_present hhash hhash')).symm
    rw [hbody'] at hfree
    have htext := sha256Hex_inj hfree List.mem_cons_self
      (List.mem_cons_of_mem _ List.mem_cons_self) hhex
    have hbodies : Json.Same body body' := by
      have hfield := field_same hsame "body"
      rw [h.field_body, hbody'] at hfield
      exact Option.some.inj hfield
    obtain rfl := eq_of_hashedText (alike_of_same hbodies) htext
    exact ⟨htruthy, truthy_seconds.mp (present_eq_some_iff.mp htime').2, hbody', hseen⟩
  · rintro ⟨htruthy, hclock, hkept, hseen⟩
    obtain ⟨pub, sigBytes, hknown, hencode, hne, hverify⟩ := h.exists_signature hsign
    refine verifySignedPacket_accepted_iff.mpr ⟨.obj ms, body, .num (seconds c.clock),
      .str c.packet.auth.nonce, .str c.packet.signature, pub, sigBytes,
      present_eq_some_iff.mpr ⟨hms, rfl⟩, present_eq_some_iff.mpr ⟨hkept, htruthy⟩,
      present_eq_some_iff.mpr ⟨hnode, truthy_str.mpr h.nonempty⟩,
      present_eq_some_iff.mpr ⟨htime, truthy_seconds.mpr hclock⟩,
      present_eq_some_iff.mpr ⟨hnonce, truthy_str.mpr ?_⟩,
      present_eq_some_iff.mpr ⟨hhash, truthy_str.mpr ?_⟩,
      present_eq_some_iff.mpr ⟨hsignature, truthy_str.mpr ?_⟩, ?_, hseen, hknown, ?_, ?_⟩
    · rw [(of_buildSignedPacket_ok h.made).2]
      exact toHex_ne_nil (List.ne_nil_of_length_eq_add_one h.random)
    · exact toHex_ne_nil (List.ne_nil_of_length_eq_add_one (hdigest _))
    · rw [hencode]
      exact Base64.encode_ne_nil hne
    · exact congrArg Except.ok (decide_eq_false (not_lt.mpr h.fresh))
    · rw [hencode]
      exact congrArg Except.ok (Base64.decode_encode _)
    · rw [authMessage_of_perm h.auth_node_id hperm]
      exact hverify

/-- **When a delivered packet is accepted.**  Without a cache of nonces, a packet that
has been built for a node and comes in time is accepted, whatever the order of its
members, exactly when its body is truthy, the members of the body come as they were,
and it was not built in the first second of 1970. -/
theorem delivered_iff {hash : NodeHash} {sign : NodeSign} {coerce : Coercions}
    (hsign : sign.Lawful) (hdigest : ∀ data, (hash.sha256 data).length = 32)
    {c : BuildCall} {nodeId : JsString} {body : Json} {params : VerifyParams} {clock : ℕ}
    (h : Presented hash sign c nodeId body params clock) (hcache : params.isNonceSeen = none)
    (hsame : Json.Same (toJson c.packet) params.packet)
    (hfree : CollisionFree hash
      [utf8 (hashedText (some body)), utf8 (hashedText (field params.packet "body"))]) :
    verifySignedPacket hash sign coerce params clock = .ok (.accepted (.str nodeId)) ↔
      body.truthy = true ∧ field params.packet "body" = some body ∧ 1000 ≤ c.clock := by
  rw [h.accepted_iff hsign hdigest hsame hfree, hcache]
  constructor
  · rintro ⟨htruthy, hclock, hbody, -⟩
    exact ⟨htruthy, hbody, hclock⟩
  · rintro ⟨htruthy, hbody, hclock⟩
    exact ⟨htruthy, hclock, hbody, nofun⟩

/-! ## A body with two members -/

def orderedBody : Json := .obj [(js "b", .null), (js "a", .bool true)]

def reorderedBody : Json := .obj [(js "a", .bool true), (js "b", .null)]

def orderedAuth : Auth :=
  { knownAuth with
    body_hash := js "2f44eee3b49e42188355488d23ed5370c156aa245f2d27a80c71bc8ef22b4899" }

/-- The SHA-256 digests of the body in both orders and of the `auth` object. -/
def orderedHash : NodeHash :=
  Tabulated.hash
    [(utf8 (stringify orderedBody), Tabulated.hex 32
        0x2f44eee3b49e42188355488d23ed5370c156aa245f2d27a80c71bc8ef22b4899),
      (utf8 (stringify reorderedBody), Tabulated.hex 32
        0x426a747815b5a725d17521ef24c95d6cb990a37ae44c7dde47396d9fc0cedafa),
      (utf8 (stringify (.obj (canonicalize orderedAuth.properties))), Tabulated.hex 32
        0x8d22701ead873f12637c21b24d3b14574f679c49252756ff2590b9e9be1b0f39)]
    [] []

/-- The Ed25519 signature of its text by the known seed. -/
def orderedSignature : { s : Bytes // s.length = 64 } :=
  ⟨Tabulated.hex 32 0xa90898725233dd9a405f842c8cba602d15893b33f495322a210f0fd626d70234 ++
    Tabulated.hex 32 0xc1a5b7914c95c89d02745f5d12a38c8d5b1c1c4628a9b9e5e023be6a5cc83501, by
    simp⟩

def orderedSign : NodeSign :=
  Tabulated.sign [(Tabulated.knownSeed, Tabulated.knownKey)]
    [((authMessage orderedHash orderedAuth.properties, Tabulated.knownKey), orderedSignature)]

theorem length_orderedHash (data : Bytes) : (orderedHash.sha256 data).length = 32 := by
  refine (Tabulated.length_lookupD ?_ data).trans List.length_replicate
  simp

/-- The verifier knows the key of node-a. -/
def orderedVerify (packet : Json) : VerifyParams :=
  { packet
    getPublicKeyByNodeId := fun id =>
      if id = .str (js "node-a") then some Tabulated.knownKey.1 else none }

/-- Node-a signs a body, which comes 100 s later. -/
theorem exists_presented (body : Json) :
    ∃ c : BuildCall, c.clock = 1700000000000 ∧ ∀ packet,
      Presented orderedHash orderedSign c (js "node-a") body (orderedVerify packet)
        1700000100000 := by
  obtain ⟨c, hmade, hparams, hclock, hrandom⟩ := @exists_made orderedHash orderedSign
    (Tabulated.lawful_sign _ _) Tabulated.knownSeed.1 Tabulated.knownSeed.2
    (some (.str (js "node-a"))) (some body) 1700000000000 (List.range 16 |>.map UInt8.ofNat)
  refine ⟨c, hclock, fun packet => ⟨hmade, ?_, by decide, ?_, ?_, ⟨Tabulated.knownKey.1, ?_, rfl⟩, ?_⟩⟩
  · rw [hparams]
  · rw [hparams]
  · rw [hrandom]
    rfl
  · rw [hparams]
    have hkey : orderedSign.createPrivateKey (pkcs8Prefix ++ Tabulated.knownSeed.1)
        = .ok Tabulated.knownSeed := Tabulated.parseDer_append pkcs8Prefix Tabulated.knownSeed
    unfold ed25519GetPublicKey
    rw [if_neg (not_not.mpr Tabulated.knownSeed.2)]
    exact bind_of_ok hkey _
  · rw [hclock]
    norm_num [seconds, orderedVerify]

/-- `auth` and the body in the other order. -/
def swapped (packet : Packet) (body : Json) : Json :=
  .obj [(js "body", body), (js "auth", .obj (authMembers (js "node-a") packet))]

theorem same_swapped {packet : Packet} (hid : packet.auth.node_id = some (.str (js "node-a")))
    {body body' : Json} (hbody : packet.body = some body) (hsame : Json.Same body body') :
    Json.Same (toJson packet) (swapped packet body') := by
  have hbuilt : toJson packet
      = .obj [(js "auth", .obj (authMembers (js "node-a") packet)), (js "body", body)] := by
    unfold toJson Auth.properties
    rw [hid, hbody]
    rfl
  have hkeys : NodupKeys [(js "auth", Json.obj (authMembers (js "node-a") packet)),
      (js "body", body)] := by
    show [js "auth", js "body"].Nodup
    decide
  have hkeys' : NodupKeys [(js "body", body'),
      (js "auth", Json.obj (authMembers (js "node-a") packet))] := by
    show [js "body", js "auth"].Nodup
    decide
  rw [hbuilt, swapped, same_obj_iff hkeys hkeys']
  intro key
  simp only [getProp_cons, getProp_nil]
  by_cases hauth : js "auth" = key
  · rw [if_pos hauth, if_neg (by rw [← hauth]; decide), if_pos hauth]
  · rw [if_neg hauth, if_neg hauth]
    split_ifs
    · exact congrArg some hsame
    · rfl

theorem node_id_of_presented {c : BuildCall} {body : Json} {params : VerifyParams} {clock : ℕ}
    (h : Presented orderedHash orderedSign c (js "node-a") body params clock) :
    c.packet.auth.node_id = some (.str (js "node-a")) ∧ c.packet.body = some body := by
  obtain ⟨hbody, hauth⟩ := of_buildSignedPacket_ok h.made
  rw [hbody, hauth]
  exact ⟨h.node_id, h.body⟩

/-- With `auth` behind the body, the packet is accepted. -/
theorem delivered_known :
    ∃ (c : BuildCall) (packet : Json), Json.Same (toJson c.packet) packet ∧
      c.params.body = some orderedBody ∧
      verifySignedPacket orderedHash orderedSign knownCoercions (orderedVerify packet)
        1700000100000 = .ok (.accepted (.str (js "node-a"))) := by
  obtain ⟨c, hclock, hpresented⟩ := exists_presented orderedBody
  obtain ⟨hid, hbody⟩ := node_id_of_presented (hpresented .null)
  have hsame := same_swapped hid hbody (.refl orderedBody)
  have hfree : CollisionFree orderedHash [utf8 (hashedText (some orderedBody)),
      utf8 (hashedText (field (orderedVerify (swapped c.packet orderedBody)).packet "body"))] :=
    collisionFree_pair fun _ => rfl
  exact ⟨c, swapped c.packet orderedBody, hsame, (hpresented .null).body,
    (delivered_iff (Tabulated.lawful_sign _ _) length_orderedHash (hpresented _) rfl hsame
      hfree).mpr ⟨rfl, rfl, by rw [hclock]; decide⟩⟩

theorem orderedHash_ne : orderedHash.sha256 (utf8 (stringify orderedBody))
    ≠ orderedHash.sha256 (utf8 (stringify reorderedBody)) := by
  have hother : utf8 (stringify orderedBody) ≠ utf8 (stringify reorderedBody) := by decide +kernel
  simp only [orderedHash, Tabulated.hash, Tabulated.lookupD, List.find?_cons, hother,
    decide_true, decide_false, Option.map_some, Option.getD_some]
  decide +kernel

/-- **Another order in the body.**  With the two members of its body exchanged, the
packet is not accepted. -/
theorem reordered_refused :
    ∃ (c : BuildCall) (packet : Json), Json.Same (toJson c.packet) packet ∧
      Presented orderedHash orderedSign c (js "node-a") orderedBody (orderedVerify packet)
        1700000100000 ∧
      verifySignedPacket orderedHash orderedSign knownCoercions (orderedVerify packet)
        1700000100000 ≠ .ok (.accepted (.str (js "node-a"))) := by
  obtain ⟨c, -, hpresented⟩ := exists_presented orderedBody
  obtain ⟨hid, hbody⟩ := node_id_of_presented (hpresented .null)
  have hreordered : Json.Same orderedBody reorderedBody := by decide
  have hsame := same_swapped hid hbody hreordered
  refine ⟨c, swapped c.packet reorderedBody, hsame, hpresented _, ?_⟩
  have hfree : CollisionFree orderedHash [utf8 (hashedText (some orderedBody)),
      utf8 (hashedText (field (orderedVerify (swapped c.packet reorderedBody)).packet "body"))] :=
    collisionFree_pair fun h => absurd h orderedHash_ne
  intro haccepted
  obtain ⟨-, -, hkept, -⟩ := ((hpresented _).accepted_iff (Tabulated.lawful_sign _ _)
    length_orderedHash hsame hfree).mp haccepted
  have hbodies : reorderedBody = orderedBody := Option.some.inj hkept
  exact absurd hbodies (by decide)

end NewZone.Crypto.SignedPacket
