import NewZone.Services.SignedDelivery

/-!
# A cache of nonces

`verifySignedPacket` with an `isNonceSeen` that checks and records, as the test
of the repository has it.  It is asked when the fields of a packet and its time
have been checked, but neither its body nor its signature.  So a packet that
nobody has signed uses up the nonce that it names, and `fresh_accepted_iff` says
which packets keep another one from being accepted.
-/

namespace NewZone.Crypto.SignedPacket

open NewZone.Js NewZone.Js.Json NewZone.ExceptBind NewZone.Crypto.Ed25519
open NewZone.Services.Gateway (toJson)

/-- A call of `verifySignedPacket`. -/
structure Presentation where
  params : VerifyParams
  clock : ℕ

/-! ## The callback -/

/-- The arguments of `isNonceSeen`, if it is called. -/
def asked (coerce : Coercions) (p : Presentation) : Option (Json × Json) := do
  let auth ← present p.params.packet "auth"
  let _ ← present p.params.packet "body"
  let node_id ← present auth "node_id"
  let timestamp ← present auth "timestamp"
  let nonce ← present auth "nonce"
  let _ ← present auth "body_hash"
  let _ ← present auth "signature"
  match coerce.timestampOutOfRange (seconds p.clock) timestamp p.params.maxSkewSec with
  | .ok false => some (node_id, nonce)
  | _ => none

/-- The template string under which the pair is recorded. -/
def seenKey (engine : Engine) (node_id nonce : Json) : Except String JsString := do
  let id ← engine.propertyKey (some node_id)
  let nonce ← engine.propertyKey (some nonce)
  return id ++ js ":" ++ nonce

/-- The verdict, where the callback answers `seen`. -/
def verdictWith (hash : NodeHash) (sign : NodeSign) (coerce : Coercions) (p : Presentation)
    (seen : Bool) : Except String Verdict :=
  verifySignedPacket hash sign coerce { p.params with isNonceSeen := some fun _ _ => seen } p.clock

/-- A call of `verifySignedPacket`, and what has been recorded after it. -/
def verifyRecording (hash : NodeHash) (sign : NodeSign) (coerce : Coercions) (engine : Engine)
    (seenNonces : List JsString) (p : Presentation) : List JsString × Except String Verdict :=
  match asked coerce p with
  | none => (seenNonces, verdictWith hash sign coerce p false)
  | some (node_id, nonce) =>
    match seenKey engine node_id nonce with
    | .error message => (seenNonces, .error message)
    | .ok key =>
      if seenNonces.contains key then (seenNonces, verdictWith hash sign coerce p true)
      else (seenNonces ++ [key], verdictWith hash sign coerce p false)

/-- What has been recorded after some calls. -/
def recorded (hash : NodeHash) (sign : NodeSign) (coerce : Coercions) (engine : Engine)
    (earlier : List Presentation) : List JsString :=
  earlier.foldl (fun seenNonces p => (verifyRecording hash sign coerce engine seenNonces p).1) []

/-- What a call leads to be recorded. -/
def recordedKey (coerce : Coercions) (engine : Engine) (p : Presentation) : Option JsString :=
  (asked coerce p).bind fun pair => (seenKey engine pair.1 pair.2).toOption

variable {hash : NodeHash} {sign : NodeSign} {coerce : Coercions} {engine : Engine}

/-! ## What has been recorded -/

theorem mem_verifyRecording {seenNonces : List JsString} {p : Presentation} {key : JsString} :
    key ∈ (verifyRecording hash sign coerce engine seenNonces p).1 ↔
      key ∈ seenNonces ∨ recordedKey coerce engine p = some key := by
  unfold verifyRecording recordedKey
  cases asked coerce p with
  | none => simp
  | some pair =>
    dsimp only [Option.bind_some]
    cases seenKey engine pair.1 pair.2 with
    | error message => simp [Except.toOption]
    | ok new =>
      dsimp only [Except.toOption]
      rw [Option.some.injEq]
      by_cases hnew : new ∈ seenNonces
      · rw [if_pos (List.contains_iff_mem.mpr hnew)]
        refine (or_iff_left_of_imp ?_).symm
        rintro rfl
        exact hnew
      · rw [if_neg (mt List.contains_iff_mem.mp hnew)]
        simp [eq_comm]

theorem mem_recorded {earlier : List Presentation} {key : JsString} :
    key ∈ recorded hash sign coerce engine earlier ↔
      ∃ p ∈ earlier, recordedKey coerce engine p = some key := by
  unfold recorded
  induction earlier using List.reverseRecOn with
  | nil => simp
  | append_singleton earlier p ih =>
    rw [List.foldl_append, List.foldl_cons, List.foldl_nil, mem_verifyRecording, ih]
    simp [or_and_right, exists_or]

/-! ## A packet that has been built -/

/-- Where the callback is called, the fields are there. -/
theorem of_asked {p : Presentation} {node_id nonce : Json}
    (h : asked coerce p = some (node_id, nonce)) :
    ∃ auth, present p.params.packet "auth" = some auth ∧
      present auth "node_id" = some node_id ∧ present auth "nonce" = some nonce := by
  unfold asked at h
  obtain ⟨auth, hauth, h⟩ := Option.bind_eq_some_iff.mp h
  obtain ⟨body, -, h⟩ := Option.bind_eq_some_iff.mp h
  obtain ⟨node_id', hid, h⟩ := Option.bind_eq_some_iff.mp h
  obtain ⟨timestamp, -, h⟩ := Option.bind_eq_some_iff.mp h
  obtain ⟨nonce', hnonce, h⟩ := Option.bind_eq_some_iff.mp h
  obtain ⟨body_hash, -, h⟩ := Option.bind_eq_some_iff.mp h
  obtain ⟨signature, -, h⟩ := Option.bind_eq_some_iff.mp h
  split at h
  · obtain ⟨rfl, rfl⟩ := Prod.mk.inj (Option.some.inj h)
    exact ⟨auth, hauth, hid, hnonce⟩
  · cases h

/-- What is accepted has been asked for. -/
theorem asked_of_accepted {p : Presentation} {seen : Bool} {node_id : Json}
    (h : verdictWith hash sign coerce p seen = .ok (.accepted node_id)) :
    ∃ nonce, asked coerce p = some (node_id, nonce) := by
  obtain ⟨auth, body, timestamp, nonce, signature, pubKey, sigBytes, hauth, hbody, hid,
    htimestamp, hnonce, hhash, hsignature, hrange, -⟩ := verifySignedPacket_accepted_iff.mp h
  refine ⟨nonce, ?_⟩
  unfold asked
  simp only [hauth, hbody, hid, htimestamp, hnonce, hhash, hsignature, hrange, bind,
    Option.bind_some]

/-- Whatever the callback answers, it alone decides about a packet that has been built. -/
theorem Presented.verdictWith_iff (hsign : sign.Lawful)
    (hdigest : ∀ data, (hash.sha256 data).length = 32) {c : BuildCall} {nodeId : JsString}
    {body : Json} {p : Presentation}
    (h : Presented hash sign c nodeId body p.params p.clock)
    (hpacket : p.params.packet = toJson c.packet) (seen : Bool) :
    verdictWith hash sign coerce p seen = .ok (.accepted (.str nodeId)) ↔
      body.truthy = true ∧ 1000 ≤ c.clock ∧ seen = false := by
  have hsame : Json.Same (toJson c.packet) p.params.packet := by
    rw [hpacket]
    exact .refl _
  have hbody : field p.params.packet "body" = some body := by
    rw [hpacket]
    exact h.field_body
  have hfree : CollisionFree hash
      [utf8 (hashedText (some body)), utf8 (hashedText (field p.params.packet "body"))] := by
    rw [hbody]
    exact collisionFree_pair fun _ => rfl
  have hwith : Presented hash sign c nodeId body
      { p.params with isNonceSeen := some fun _ _ => seen } p.clock := { h with }
  unfold verdictWith
  rw [hwith.accepted_iff hsign hdigest hsame hfree]
  simp [hbody]

/-- The callback is asked for the node and the nonce that the packet was built with. -/
theorem Presented.eq_of_asked {c : BuildCall} {nodeId : JsString} {body : Json}
    {p : Presentation} (h : Presented hash sign c nodeId body p.params p.clock)
    (hpacket : p.params.packet = toJson c.packet) {node_id nonce : Json}
    (hasked : asked coerce p = some (node_id, nonce)) :
    node_id = .str nodeId ∧ nonce = .str c.packet.auth.nonce := by
  have hsame : Json.Same (toJson c.packet) p.params.packet := by
    rw [hpacket]
    exact .refl _
  obtain ⟨auth, hauth, hid, hnonce⟩ := of_asked hasked
  obtain ⟨ms, hms, -, hnode, -, hnonce', -⟩ := h.exists_fields hsame
  obtain rfl := eq_of_present hms hauth
  exact ⟨eq_of_present hnode hid, eq_of_present hnonce' hnonce⟩

/-- A call for a packet that has been built, with what has been recorded before. -/
theorem verifyRecording_accepted_iff (hsign : sign.Lawful)
    (hdigest : ∀ data, (hash.sha256 data).length = 32) {c : BuildCall} {nodeId : JsString}
    {body : Json} {p : Presentation}
    (h : Presented hash sign c nodeId body p.params p.clock)
    (hpacket : p.params.packet = toJson c.packet) (seenNonces : List JsString) :
    (verifyRecording hash sign coerce engine seenNonces p).2
        = .ok (.accepted (.str nodeId)) ↔
      body.truthy = true ∧ 1000 ≤ c.clock ∧
        nodeId ++ js ":" ++ c.packet.auth.nonce ∉ seenNonces := by
  have hverdict : ∀ seen, verdictWith hash sign coerce p seen = .ok (.accepted (.str nodeId)) ↔
      body.truthy = true ∧ 1000 ≤ c.clock ∧ seen = false :=
    h.verdictWith_iff hsign hdigest hpacket
  unfold verifyRecording
  cases hasked : asked coerce p with
  | none =>
    -- then the packet is not accepted with an empty cache either
    have hnot : ¬ (body.truthy = true ∧ 1000 ≤ c.clock) := by
      rintro ⟨htruthy, hclock⟩
      obtain ⟨nonce, hnonce⟩ := asked_of_accepted ((hverdict false).mpr ⟨htruthy, hclock, rfl⟩)
      rw [hasked] at hnonce
      cases hnonce
    dsimp only
    rw [hverdict]
    constructor
    · rintro ⟨htruthy, hclock, -⟩
      exact absurd ⟨htruthy, hclock⟩ hnot
    · rintro ⟨htruthy, hclock, -⟩
      exact absurd ⟨htruthy, hclock⟩ hnot
  | some pair =>
    obtain ⟨node_id, nonce⟩ := pair
    obtain ⟨rfl, rfl⟩ := h.eq_of_asked hpacket hasked
    have hkey : seenKey engine (.str nodeId) (.str c.packet.auth.nonce)
        = .ok (nodeId ++ js ":" ++ c.packet.auth.nonce) := rfl
    dsimp only
    rw [hkey]
    dsimp only
    by_cases hmem : nodeId ++ js ":" ++ c.packet.auth.nonce ∈ seenNonces
    · rw [if_pos (List.contains_iff_mem.mpr hmem), hverdict]
      exact ⟨fun h => absurd h.2.2 nofun, fun h => absurd hmem h.2.2⟩
    · rw [if_neg (mt List.contains_iff_mem.mp hmem), hverdict]
      exact ⟨fun h => ⟨h.1, h.2.1, hmem⟩, fun h => ⟨h.1, h.2.1, rfl⟩⟩

/-- **When a packet gets past the cache.**  After any calls, a packet that has been
built for a node and comes in time is accepted exactly when its body is truthy, it was
not built in the first second of 1970, and no earlier packet has led to its node and
nonce being recorded. -/
theorem fresh_accepted_iff (hsign : sign.Lawful)
    (hdigest : ∀ data, (hash.sha256 data).length = 32) {c : BuildCall} {nodeId : JsString}
    {body : Json} {p : Presentation}
    (h : Presented hash sign c nodeId body p.params p.clock)
    (hpacket : p.params.packet = toJson c.packet) (earlier : List Presentation) :
    (verifyRecording hash sign coerce engine (recorded hash sign coerce engine earlier) p).2
        = .ok (.accepted (.str nodeId)) ↔
      body.truthy = true ∧ 1000 ≤ c.clock ∧
        ∀ q ∈ earlier, recordedKey coerce engine q
          ≠ some (nodeId ++ js ":" ++ c.packet.auth.nonce) := by
  rw [verifyRecording_accepted_iff hsign hdigest h hpacket, mem_recorded]
  push Not
  rfl

/-! ## A packet that nobody has signed -/

/-- Some hash and some signature. -/
def forgedAuth (node_id nonce : JsString) : Json :=
  .obj [(js "node_id", .str node_id), (js "timestamp", .num (seconds 1700000000000)),
    (js "nonce", .str nonce), (js "body_hash", .str (js "0")), (js "signature", .str (js "0"))]

def forgedPacket (node_id nonce : JsString) : Json :=
  .obj [(js "auth", forgedAuth node_id nonce), (js "body", .bool true)]

theorem present_forgedPacket (node_id nonce : JsString) :
    present (forgedPacket node_id nonce) "auth" = some (forgedAuth node_id nonce) :=
  rfl

/-- A packet comes to a verifier that knows the key of node-a. -/
def presented (packet : Json) : Presentation :=
  { params := orderedVerify packet, clock := 1700000100000 }

theorem recordedKey_forgedPacket {node_id nonce : JsString} (hid : node_id ≠ [])
    (hnonce : nonce ≠ []) :
    recordedKey knownCoercions .plain (presented (forgedPacket node_id nonce))
      = some (node_id ++ js ":" ++ nonce) := by
  have hasked : asked knownCoercions (presented (forgedPacket node_id nonce))
      = some (.str node_id, .str nonce) := by
    have hnode : present (forgedAuth node_id nonce) "node_id" = some (.str node_id) :=
      present_eq_some_iff.mpr ⟨rfl, truthy_str.mpr hid⟩
    have htime : present (forgedAuth node_id nonce) "timestamp"
        = some (.num (seconds 1700000000000)) :=
      present_eq_some_iff.mpr ⟨rfl, truthy_seconds.mpr (by omega)⟩
    have hnonce' : present (forgedAuth node_id nonce) "nonce" = some (.str nonce) :=
      present_eq_some_iff.mpr ⟨rfl, truthy_str.mpr hnonce⟩
    have hrange : knownCoercions.timestampOutOfRange (seconds 1700000100000)
        (.num (seconds 1700000000000)) (Number.ofNat 300) = .ok false := by
      refine congrArg Except.ok (decide_eq_false ?_)
      norm_num [seconds]
    have hhash : present (forgedAuth node_id nonce) "body_hash" = some (.str (js "0")) := rfl
    have hsignature : present (forgedAuth node_id nonce) "signature" = some (.str (js "0")) := rfl
    have hbody : present (forgedPacket node_id nonce) "body" = some (.bool true) := rfl
    unfold asked
    rw [presented, orderedVerify]
    simp only [present_forgedPacket, hbody, hnode, htime, hnonce', hhash, hsignature, hrange,
      bind, Option.bind_some]
  unfold recordedKey
  rw [hasked]
  rfl

/-- The hash of its body would be a text of 64 digits. -/
theorem forgedPacket_refused (node_id nonce : JsString) (seen : Bool) (id : Json) :
    verdictWith orderedHash orderedSign knownCoercions (presented (forgedPacket node_id nonce))
      seen ≠ .ok (.accepted id) := by
  intro h
  obtain ⟨auth, body, -, -, -, -, -, hauth, -, -, -, -, hhash, -⟩ :=
    verifySignedPacket_accepted_iff.mp h
  have hdigest := length_orderedHash (utf8 (hashedText (some body)))
  obtain rfl : forgedAuth node_id nonce = auth := Option.some.inj hauth
  have hhex : js "0" = sha256Hex orderedHash (some body) :=
    Json.str.inj (Option.some.inj (present_eq_some_iff.mp hhash).1)
  have hlength := congrArg List.length hhex
  rw [sha256Hex, length_toHex, hdigest] at hlength
  exact absurd hlength (by decide)

/-- The packet of node-a with the two members, 100 s after it was built. -/
theorem fresh_known :
    ∃ c : BuildCall, c.params.body = some orderedBody ∧
      (verifyRecording orderedHash orderedSign knownCoercions .plain
        (recorded orderedHash orderedSign knownCoercions .plain
          [presented (forgedPacket (js "node-b") (js "0"))])
        (presented (toJson c.packet))).2 = .ok (.accepted (.str (js "node-a"))) := by
  obtain ⟨c, hclock, hpresented⟩ := exists_presented orderedBody
  refine ⟨c, (hpresented .null).body, ?_⟩
  refine (@fresh_accepted_iff _ orderedSign _ _ (Tabulated.lawful_sign _ _) length_orderedHash c
    (js "node-a") orderedBody (presented (toJson c.packet)) (hpresented _) rfl _).mpr
    ⟨rfl, ?_, ?_⟩
  · rw [hclock]
    decide
  · intro q hq
    obtain rfl := List.mem_singleton.mp hq
    rw [recordedKey_forgedPacket (by decide) (by decide)]
    intro h
    have hfront := Option.some.inj h
    rw [List.append_assoc, List.append_assoc] at hfront
    exact absurd (List.append_inj_left hfront rfl) (by decide)

/-- **A nonce that is used up.**  A packet whose signature verifies under no key is
refused, and after it the packet of node-a with the same nonce is not accepted. -/
theorem forged_first :
    (∀ message pub, ed25519Verify orderedSign message (Base64.decode (js "0")) pub ≠ .ok true) ∧
    ∃ (c : BuildCall) (p : Presentation),
      Presented orderedHash orderedSign c (js "node-a") orderedBody p.params p.clock ∧
      p.params.packet = toJson c.packet ∧
      (∀ seen id, verdictWith orderedHash orderedSign knownCoercions
        (presented (forgedPacket (js "node-a") c.packet.auth.nonce)) seen ≠ .ok (.accepted id)) ∧
      (verifyRecording orderedHash orderedSign knownCoercions .plain
        (recorded orderedHash orderedSign knownCoercions .plain
          [presented (forgedPacket (js "node-a") c.packet.auth.nonce)]) p).2
            ≠ .ok (.accepted (.str (js "node-a"))) := by
  constructor
  · intro message pub
    have hlength : (Base64.decode (js "0")).length ≠ 64 := by decide
    unfold ed25519Verify
    split_ifs
    · nofun
    · nofun
  obtain ⟨c, -, hpresented⟩ := exists_presented orderedBody
  refine ⟨c, presented (toJson c.packet), hpresented _, rfl, forgedPacket_refused _ _, ?_⟩
  have hnonce : c.packet.auth.nonce ≠ [] := by
    rw [(of_buildSignedPacket_ok (hpresented .null).made).2]
    exact toHex_ne_nil (List.ne_nil_of_length_eq_add_one (hpresented .null).random)
  intro haccepted
  refine ((@verifyRecording_accepted_iff _ orderedSign _ _ (Tabulated.lawful_sign _ _)
    length_orderedHash c (js "node-a") orderedBody (presented (toJson c.packet)) (hpresented _)
    rfl _).mp haccepted).2.2 ?_
  exact mem_recorded.mpr ⟨_, List.mem_singleton_self _, recordedKey_forgedPacket (by decide) hnonce⟩

end NewZone.Crypto.SignedPacket
