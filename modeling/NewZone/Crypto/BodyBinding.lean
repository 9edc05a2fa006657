import NewZone.Crypto.SignedPacket
import NewZone.Crypto.Tabulated

/-!
# What a signed packet says about its body

The seed of a node is used through `buildSignedPacket` only, signatures cannot
be forged, and SHA-256 has no collision among what a run hashes.  Then the
`auth` object of an accepted packet was signed by the node.  Its body was not
necessarily: `sha256Hex` hashes a string as it is, so a string has the hash of
the value whose JSON text it is, and a string with a lone surrogate has the
hash of the string with U+FFFD in its place.  `body_signed_iff` says that this
is all that can go wrong.
-/

namespace NewZone.Crypto.SignedPacket

open NewZone.Js NewZone.Js.Json NewZone.ExceptBind NewZone.Crypto.Ed25519
open NewZone.Crypto.Tabulated (knownSeed knownKey)

/-! ## What an answer means -/

theorem present_eq_some_iff {v x : Json} {name : String} :
    present v name = some x ↔ field v name = some x ∧ truthy x = true :=
  Option.filter_eq_some_iff

/-- What is present is what the field has. -/
theorem eq_of_present {v x y : Json} {name : String} (hfield : field v name = some x)
    (h : present v name = some y) : y = x :=
  Option.some.inj ((present_eq_some_iff.mp h).1.symm.trans hfield)

/-- A packet is accepted exactly when every check passes. -/
theorem verifySignedPacket_accepted_iff {hash : NodeHash} {sign : NodeSign}
    {coerce : Coercions} {params : VerifyParams} {clock : ℕ} {node_id : Json} :
    verifySignedPacket hash sign coerce params clock = .ok (.accepted node_id) ↔
      ∃ auth body timestamp nonce signature pubKey sigBytes,
        present params.packet "auth" = some auth ∧
        present params.packet "body" = some body ∧
        present auth "node_id" = some node_id ∧
        present auth "timestamp" = some timestamp ∧
        present auth "nonce" = some nonce ∧
        present auth "body_hash" = some (.str (sha256Hex hash (some body))) ∧
        present auth "signature" = some signature ∧
        coerce.timestampOutOfRange (seconds clock) timestamp params.maxSkewSec
          = .ok false ∧
        (params.isNonceSeen.map fun seen => seen node_id nonce) ≠ some true ∧
        params.getPublicKeyByNodeId node_id = some pubKey ∧
        coerce.b64ToU8 signature = .ok sigBytes ∧
        ed25519Verify sign (authMessage hash (authWithoutSig auth)) sigBytes
          pubKey = .ok true := by
  constructor
  · intro h
    unfold verifySignedPacket at h
    dsimp only at h
    split at h
    swap
    · cases h
    rename_i auth hauth
    split at h
    swap
    · cases h
    rename_i body hbody
    split at h
    swap
    · cases h
    rename_i id hid
    split at h
    swap
    · cases h
    rename_i timestamp htimestamp
    split at h
    swap
    · cases h
    rename_i nonce hnonce
    split at h
    swap
    · cases h
    rename_i body_hash hhash
    split at h
    swap
    · cases h
    rename_i signature hsignature
    obtain ⟨outOfRange, hrange, h⟩ := bind_eq_ok.mp h
    split at h
    · cases h
    rename_i hfresh
    split at h
    · cases h
    rename_i hseen
    split at h
    · cases h
    rename_i hmatch
    split at h
    swap
    · cases h
    rename_i pubKey hpub
    obtain ⟨sigBytes, hsig, h⟩ := bind_eq_ok.mp h
    obtain ⟨ok, hok, h⟩ := bind_eq_ok.mp h
    split at h
    · cases h
    rename_i hverify
    obtain rfl := Verdict.accepted.inj (Except.ok.inj h)
    obtain rfl : outOfRange = false := by simpa using hfresh
    obtain rfl : ok = true := by simpa using hverify
    rw [← not_not.mp hmatch] at hhash
    exact ⟨auth, body, timestamp, nonce, signature, pubKey, sigBytes, hauth,
      hbody, hid, htimestamp, hnonce, hhash, hsignature, hrange, hseen, hpub,
      hsig, hok⟩
  · rintro ⟨auth, body, timestamp, nonce, signature, pubKey, sigBytes, hauth,
      hbody, hid, htimestamp, hnonce, hhash, hsignature, hrange, hseen, hpub,
      hsig, hok⟩
    unfold verifySignedPacket
    simp only [hauth, hbody, hid, htimestamp, hnonce, hhash, hsignature, hpub]
    apply (bind_of_ok hrange _).trans
    rw [if_neg Bool.false_ne_true, if_neg hseen, if_neg (not_not.mpr rfl)]
    apply (bind_of_ok hsig _).trans
    exact bind_of_ok hok _

/-- A packet that has been built carries the hash of its body. -/
theorem of_buildSignedPacket_ok {hash : NodeHash} {sign : NodeSign}
    {params : BuildParams} {clock : ℕ} {random : Bytes} {packet : Packet}
    (h : buildSignedPacket hash sign params clock random = .ok packet) :
    packet.body = params.body ∧
      packet.auth =
        { node_id := params.nodeId, timestamp := seconds clock
          nonce := toHex random, body_hash := sha256Hex hash params.body } := by
  obtain ⟨sig, -, h⟩ := bind_eq_ok.mp h
  obtain rfl := Except.ok.inj h
  exact ⟨rfl, rfl⟩

/-! ## The calls of a run -/

/-- A call of `buildSignedPacket` with what it returned. -/
structure BuildCall where
  params : BuildParams
  clock : ℕ
  random : Bytes
  packet : Packet

def BuildCall.Made (hash : NodeHash) (sign : NodeSign) (c : BuildCall) : Prop :=
  buildSignedPacket hash sign c.params c.clock c.random = .ok c.packet

/-- What verifies under the public key of a seed is the message of a call with
that seed. -/
def Unforgeable (hash : NodeHash) (sign : NodeSign) (calls : List BuildCall)
    (seed pub : Bytes) : Prop :=
  ∀ message sig, ed25519Verify sign message sig pub = .ok true →
    ∃ call ∈ calls, call.params.privateKey = seed ∧
      message = authMessage hash call.packet.auth.properties

/-- The bytes of a body and of an `auth` object that are hashed. -/
def hashed (body : Option Json) (auth : List (JsString × Option Json)) :
    List Bytes :=
  [utf8 (hashedText body), utf8 (hashedText (some (.obj (canonicalize auth))))]

/-- `packet.auth`. -/
def packetAuth (packet : Json) : Json := (field packet "auth").getD .null

/-- Everything that the calls and the verification of a packet hash. -/
def hashedInputs (calls : List BuildCall) (packet : Json) : List Bytes :=
  (calls.flatMap fun c => hashed c.params.body c.packet.auth.properties)
    ++ hashed (field packet "body") (authWithoutSig (packetAuth packet))

/-- SHA-256 has no collision among the inputs. -/
def CollisionFree (hash : NodeHash) (inputs : List Bytes) : Prop :=
  ∀ x ∈ inputs, ∀ y ∈ inputs, hash.sha256 x = hash.sha256 y → x = y

theorem CollisionFree.mono {hash : NodeHash} {inputs inputs' : List Bytes}
    (hfree : CollisionFree hash inputs') (h : inputs ⊆ inputs') : CollisionFree hash inputs :=
  fun x hx y hy => hfree x (h hx) y (h hy)

theorem collisionFree_pair {hash : NodeHash} {x y : Bytes}
    (h : hash.sha256 x = hash.sha256 y → x = y) : CollisionFree hash [x, y] := by
  intro a ha b hb hab
  simp only [List.mem_cons, List.not_mem_nil, or_false] at ha hb
  rcases ha with rfl | rfl <;> rcases hb with rfl | rfl
  · rfl
  · exact h hab
  · exact (h hab.symm).symm
  · rfl

/-- The call has the node, time, nonce and body hash of `packet.auth`. -/
structure BuildCall.AuthOf (c : BuildCall) (packet : Json) : Prop where
  node_id : field (packetAuth packet) "node_id" = c.packet.auth.node_id
  timestamp : field (packetAuth packet) "timestamp"
    = some (.num c.packet.auth.timestamp)
  nonce : field (packetAuth packet) "nonce" = some (.str c.packet.auth.nonce)
  body_hash : field (packetAuth packet) "body_hash"
    = some (.str c.packet.auth.body_hash)

/-! ## Bodies with the same hash -/

/-- Both values are strings, with the same lone surrogates in the same places,
or neither is a string. -/
def Alike : Json → Json → Prop
  | .str s, .str t => loneSurrogates s = loneSurrogates t
  | .str _, _ => False
  | _, .str _ => False
  | _, _ => True

theorem alike_of_same {v w : Json} (h : Json.Same v w) : Alike v w := by
  cases v <;> cases w <;> simp_all [Alike, Json.Same, sorted]

/-- Alike bodies that are hashed as the same bytes are equal. -/
theorem eq_of_hashedText {v w : Json} (halike : Alike v w)
    (h : utf8 (hashedText (some v)) = utf8 (hashedText (some w))) : v = w := by
  cases v with
  | str s =>
    cases w with
    | str t => exact congrArg Json.str (eq_of_utf8_eq h halike)
    | _ => exact halike.elim
  | _ =>
    cases w with
    | str t => exact halike.elim
    | _ => exact utf8_stringify_injective h

theorem sha256Hex_inj {hash : NodeHash} {inputs : List Bytes}
    (hfree : CollisionFree hash inputs) {v w : Option Json}
    (hv : utf8 (hashedText v) ∈ inputs) (hw : utf8 (hashedText w) ∈ inputs)
    (h : sha256Hex hash v = sha256Hex hash w) :
    utf8 (hashedText v) = utf8 (hashedText w) :=
  hfree _ hv _ hw (toHex_injective h)

/-- The signed bytes determine the canonical form of the `auth` object. -/
theorem canonicalize_eq_of_authMessage {hash : NodeHash} {inputs : List Bytes}
    (hfree : CollisionFree hash inputs) {a b : List (JsString × Option Json)}
    (ha : utf8 (hashedText (some (.obj (canonicalize a)))) ∈ inputs)
    (hb : utf8 (hashedText (some (.obj (canonicalize b)))) ∈ inputs)
    (h : authMessage hash a = authMessage hash b) :
    canonicalize a = canonicalize b := by
  have hhex := (utf8_inj (wellFormed_toHex _) (wellFormed_toHex _)).mp h
  exact Json.obj.inj (utf8_stringify_injective (sha256Hex_inj hfree ha hb hhex))

/-! ## What is bound -/

theorem AuthOf.of_canonicalize_eq {c : BuildCall} {packet : Json}
    (h : canonicalize (authWithoutSig (packetAuth packet))
      = canonicalize c.packet.auth.properties) : c.AuthOf packet := by
  have hfield : ∀ name : String, js name ≠ js "__proto__" →
      js name ≠ js "signature" →
      field (packetAuth packet) name
        = (getProp (js name) c.packet.auth.properties).join := by
    intro name hproto hsignature
    rw [← getProp_authWithoutSig _ hsignature, ← getProp_canonicalize _ hproto, h,
      getProp_canonicalize _ hproto]
  exact
    { node_id := hfield "node_id" (by decide) (by decide)
      timestamp := hfield "timestamp" (by decide) (by decide)
      nonce := hfield "nonce" (by decide) (by decide)
      body_hash := hfield "body_hash" (by decide) (by decide) }

theorem mem_hashedInputs_of_call {calls : List BuildCall} {c : BuildCall}
    (hc : c ∈ calls) (packet : Json) {x : Bytes}
    (hx : x ∈ hashed c.params.body c.packet.auth.properties) :
    x ∈ hashedInputs calls packet :=
  List.mem_append_left _ (List.mem_flatMap.mpr ⟨c, hc, hx⟩)

section Accepted

variable {hash : NodeHash} {sign : NodeSign} {coerce : Coercions}
  {calls : List BuildCall} {seed pub : Bytes} {params : VerifyParams} {clock : ℕ}
  {node_id : Json}

/-- The `auth` object of an accepted packet is one that the node has signed. -/
theorem auth_signed (hunforgeable : Unforgeable hash sign calls seed pub)
    (hfree : CollisionFree hash (hashedInputs calls params.packet))
    (haccepted : verifySignedPacket hash sign coerce params clock
      = .ok (.accepted node_id))
    (hkey : params.getPublicKeyByNodeId node_id = some pub) :
    ∃ c ∈ calls, c.params.privateKey = seed ∧ c.AuthOf params.packet := by
  obtain ⟨auth, body, timestamp, nonce, signature, pubKey, sigBytes, hauth, -, -,
    -, -, -, -, -, -, hpub, -, hverify⟩ :=
    verifySignedPacket_accepted_iff.mp haccepted
  obtain rfl : pubKey = pub := Option.some.inj (hpub.symm.trans hkey)
  have hpacket : packetAuth params.packet = auth := by
    rw [packetAuth, (present_eq_some_iff.mp hauth).1]
    rfl
  obtain ⟨c, hc, hseed, hmessage⟩ := hunforgeable _ _ hverify
  refine ⟨c, hc, hseed, AuthOf.of_canonicalize_eq ?_⟩
  rw [hpacket]
  refine canonicalize_eq_of_authMessage hfree ?_
    (mem_hashedInputs_of_call hc _ (by simp [hashed])) hmessage
  rw [← hpacket]
  exact List.mem_append_right _ (by simp [hashed])

/-- A call with the `auth` of an accepted packet has the body of the packet as
soon as the two bodies are alike. -/
theorem body_eq_of_alike {c : BuildCall} (hc : c ∈ calls)
    (hmade : c.Made hash sign)
    (hfree : CollisionFree hash (hashedInputs calls params.packet))
    (haccepted : verifySignedPacket hash sign coerce params clock
      = .ok (.accepted node_id))
    (hauthOf : c.AuthOf params.packet) {v w : Json}
    (hv : c.params.body = some v) (hw : field params.packet "body" = some w)
    (halike : Alike v w) : v = w := by
  obtain ⟨auth, body, -, -, -, -, -, hauth, hbody, -, -, -, hhash, -⟩ :=
    verifySignedPacket_accepted_iff.mp haccepted
  have hpacket : packetAuth params.packet = auth := by
    rw [packetAuth, (present_eq_some_iff.mp hauth).1]
    rfl
  obtain rfl := eq_of_present hw hbody
  have hsame := hauthOf.body_hash
  rw [hpacket, (present_eq_some_iff.mp hhash).1,
    (of_buildSignedPacket_ok hmade).2, hv] at hsame
  have hhex := Json.str.inj (Option.some.inj hsame)
  refine eq_of_hashedText halike (sha256Hex_inj hfree ?_ ?_ hhex.symm)
  · exact mem_hashedInputs_of_call hc _ (by simp [hashed, hv])
  · exact List.mem_append_right _ (by simp [hashed, hw])

/-- **Which bodies are bound.**  The `auth` of an accepted packet comes from a
call of the node, and the body of the packet is the body of such a call
exactly when it is alike to the body of one: both no strings, or both strings
with the same lone surrogates. -/
theorem body_signed_iff (hmade : ∀ c ∈ calls, c.Made hash sign)
    (hunforgeable : Unforgeable hash sign calls seed pub)
    (hfree : CollisionFree hash (hashedInputs calls params.packet))
    (haccepted : verifySignedPacket hash sign coerce params clock
      = .ok (.accepted node_id))
    (hkey : params.getPublicKeyByNodeId node_id = some pub) :
    (∃ c ∈ calls, c.params.privateKey = seed ∧ c.AuthOf params.packet) ∧
    ((∃ c ∈ calls, c.params.privateKey = seed ∧ c.AuthOf params.packet ∧
        ∃ v w, c.params.body = some v ∧ field params.packet "body" = some w ∧
          Json.Same v w) ↔
      ∃ c ∈ calls, c.params.privateKey = seed ∧ c.AuthOf params.packet ∧
        ∃ v w, c.params.body = some v ∧ field params.packet "body" = some w ∧
          Alike v w) := by
  refine ⟨auth_signed hunforgeable hfree haccepted hkey, ?_, ?_⟩
  · rintro ⟨c, hc, hseed, hauth, v, w, hv, hw, hsame⟩
    exact ⟨c, hc, hseed, hauth, v, w, hv, hw, alike_of_same hsame⟩
  · rintro ⟨c, hc, hseed, hauth, v, w, hv, hw, halike⟩
    refine ⟨c, hc, hseed, hauth, v, w, hv, hw, ?_⟩
    rw [body_eq_of_alike hc (hmade c hc) hfree haccepted hauth hv hw halike]
    exact .refl _

end Accepted

/-! ## A known packet -/

def knownBody : Json := .obj [(js "action", .str (js "ping"))]

/-- The same body as a string. -/
def knownText : JsString := stringify knownBody

def knownAuth : Auth :=
  { node_id := some (.str (js "node-a")), timestamp := seconds 1700000000000
    nonce := toHex (List.range 16 |>.map UInt8.ofNat)
    body_hash := js "635d9a0053cd03dd01331cac31546217af248565d843de56e7e9a702d66dc6d1" }

/-- The SHA-256 digests of the body and of the `auth` object. -/
def knownHash : NodeHash :=
  Tabulated.hash
    [(utf8 knownText, Tabulated.hex 32
        0x635d9a0053cd03dd01331cac31546217af248565d843de56e7e9a702d66dc6d1),
      (utf8 (stringify (.obj (canonicalize knownAuth.properties))),
        Tabulated.hex 32
          0x589d39656adde074b7eb1432f46678e46a1eaf76f9c53b9e1860e28ba4e039bf)]
    [] []

def knownMessage : Bytes := authMessage knownHash knownAuth.properties

/-- The Ed25519 signature of that message by the known seed. -/
def knownSignature : { s : Bytes // s.length = 64 } :=
  ⟨Tabulated.hex 32
      0xf2d1785579c6d7b57e70bc29f378b7221db22ec477c30d5575c15ee62ec82e77 ++
    Tabulated.hex 32
      0x3e074dae2cbb57a00a88be6246b97b0cb527771c7d27db8ffd9a78868f9d8b0a, by
    simp⟩

def knownSign : NodeSign :=
  Tabulated.signOnly [(knownSeed, knownKey)]
    [((knownMessage, knownKey), knownSignature)]

def knownCall : BuildCall :=
  { params :=
      { nodeId := some (.str (js "node-a")), privateKey := knownSeed.1
        body := some knownBody }
    clock := 1700000000000
    random := List.range 16 |>.map UInt8.ofNat
    packet :=
      { auth := knownAuth, signature := Base64.encode knownSignature.1
        body := some knownBody } }

/-- The packet of that call with another body. -/
def knownPacket (body : Json) : Json :=
  .obj
    [(js "auth",
        .obj [(js "node_id", .str (js "node-a")),
          (js "timestamp", .num (seconds 1700000000000)),
          (js "nonce", .str knownAuth.nonce),
          (js "body_hash", .str knownAuth.body_hash),
          (js "signature", .str (Base64.encode knownSignature.1))]),
      (js "body", body)]

def knownVerify (body : Json) : VerifyParams :=
  { packet := knownPacket body
    getPublicKeyByNodeId := fun id =>
      if id = .str (js "node-a") then some knownKey.1 else none }

/-- Nothing in that packet is coerced. -/
def knownCoercions : Coercions :=
  { outOfRange := fun _ _ _ => .ok false
    bufferFrom := fun _ => .error "The first argument must be of type string" }

theorem knownText_ne_auth :
    utf8 knownText ≠ utf8 (stringify (.obj (canonicalize knownAuth.properties))) := by
  intro h
  have h := Json.obj.inj (utf8_stringify_injective h)
  have haction := congrArg (getProp (js "action")) h
  rw [getProp_canonicalize _ (by decide)] at haction
  cases haction

theorem knownHash_body : sha256Hex knownHash (some knownBody) = knownAuth.body_hash := by
  have hdigest : knownHash.sha256 (utf8 knownText) = Tabulated.hex 32
      0x635d9a0053cd03dd01331cac31546217af248565d843de56e7e9a702d66dc6d1 := by
    simp [knownHash, Tabulated.hash, Tabulated.lookupD]
  show toHex (knownHash.sha256 (utf8 knownText)) = _
  rw [hdigest]
  decide +kernel

theorem knownSign_createPrivateKey :
    knownSign.createPrivateKey (pkcs8Prefix ++ knownSeed.1) = .ok knownSeed :=
  Tabulated.parseDer_append pkcs8Prefix knownSeed

theorem knownSign_createPublicKey :
    knownSign.createPublicKey (spkiPrefix ++ knownKey.1) = .ok knownKey :=
  Tabulated.parseDer_append spkiPrefix knownKey

theorem knownSign_sign : ed25519Sign knownSign knownMessage knownSeed.1
    = .ok knownSignature.1 := by
  have hsign : knownSign.sign knownMessage knownSeed = knownSignature.1 := by
    simp [knownSign, Tabulated.signOnly, Tabulated.sign, Tabulated.lookupD]
  unfold ed25519Sign
  rw [if_neg (not_not.mpr knownSeed.2)]
  apply (bind_of_ok knownSign_createPrivateKey _).trans
  rw [hsign]
  rfl

theorem knownSign_verify {message sig : Bytes} :
    ed25519Verify knownSign message sig knownKey.1 = .ok true ↔
      message = knownMessage ∧ sig = knownSignature.1 := by
  unfold ed25519Verify
  rw [if_neg (not_not.mpr knownKey.2)]
  split_ifs with hsig
  · simp only [pure, Except.pure, Except.ok.injEq, Bool.false_eq_true, false_iff]
    rintro ⟨-, rfl⟩
    exact hsig knownSignature.2
  · rw [bind_of_ok knownSign_createPublicKey]
    simp [knownSign, Tabulated.signOnly, pure, Except.pure]

theorem knownCall_made : knownCall.Made knownHash knownSign := by
  unfold BuildCall.Made buildSignedPacket
  simp only [knownCall]
  rw [knownHash_body]
  exact bind_of_ok knownSign_sign _

theorem known_unforgeable :
    Unforgeable knownHash knownSign [knownCall] knownSeed.1 knownKey.1 := by
  intro message sig h
  exact ⟨knownCall, List.mem_singleton.mpr rfl, rfl, (knownSign_verify.mp h).1⟩

theorem knownPacket_canonical (body : Json) :
    canonicalize (authWithoutSig (packetAuth (knownPacket body)))
      = canonicalize knownAuth.properties := by
  rfl

theorem known_collisionFree {body : Json}
    (hbody : hashedText (some body) = knownText) :
    CollisionFree knownHash (hashedInputs [knownCall] (knownPacket body)) := by
  have hfield : field (knownPacket body) "body" = some body := rfl
  have hinputs : hashedInputs [knownCall] (knownPacket body) ⊆
      [utf8 knownText, utf8 (stringify (.obj (canonicalize knownAuth.properties)))] := by
    intro x hx
    simp only [hashedInputs, hashed, knownPacket_canonical, hfield, hbody] at hx
    simp only [knownCall, hashedText, knownText, knownBody, List.flatMap_cons,
      List.flatMap_nil, List.append_nil, List.mem_append, List.mem_cons,
      List.not_mem_nil, or_false] at hx ⊢
    exact hx.elim id id
  have hne : knownHash.sha256 (utf8 knownText) ≠ knownHash.sha256
      (utf8 (stringify (.obj (canonicalize knownAuth.properties)))) := by
    have hother : utf8 knownText ≠ _ := knownText_ne_auth
    simp only [knownHash, Tabulated.hash, Tabulated.lookupD, List.find?_cons,
      hother, decide_true, decide_false, Option.map_some, Option.getD_some]
    decide +kernel
  exact (collisionFree_pair fun h => absurd h hne).mono hinputs

theorem known_accepted {body : Json} (htruthy : truthy body = true)
    (hbody : hashedText (some body) = knownText) :
    verifySignedPacket knownHash knownSign knownCoercions (knownVerify body)
      1700000100000 = .ok (.accepted (.str (js "node-a"))) := by
  have hhash : sha256Hex knownHash (some body) = knownAuth.body_hash := by
    rw [← knownHash_body, sha256Hex, hbody]
    rfl
  refine verifySignedPacket_accepted_iff.mpr ⟨_, body,
    .num (seconds 1700000000000), .str knownAuth.nonce,
    .str (Base64.encode knownSignature.1), knownKey.1, knownSignature.1, rfl,
    present_eq_some_iff.mpr ⟨rfl, htruthy⟩, rfl,
    present_eq_some_iff.mpr ⟨rfl, ?_⟩, rfl, ?_,
    present_eq_some_iff.mpr ⟨rfl, ?_⟩, ?_, ?_, rfl, ?_, ?_⟩
  · decide +kernel
  · rw [hhash]
    rfl
  · decide +kernel
  · norm_num [Coercions.timestampOutOfRange, seconds, knownVerify]
  · simp [knownVerify]
  · exact congrArg Except.ok (Base64.decode_encode _)
  · exact knownSign_verify.mpr ⟨rfl, rfl⟩

/-- The packet as it was built is accepted, and its body was signed. -/
theorem body_signed_known :
    verifySignedPacket knownHash knownSign knownCoercions (knownVerify knownBody)
        1700000100000 = .ok (.accepted (.str (js "node-a"))) ∧
      ∃ c ∈ [knownCall], c.params.privateKey = knownSeed.1 ∧
        c.AuthOf (knownPacket knownBody) ∧
        ∃ v w, c.params.body = some v ∧
          field (knownPacket knownBody) "body" = some w ∧ Json.Same v w := by
  have haccepted := @known_accepted knownBody rfl rfl
  have hauth : knownCall.AuthOf (knownPacket knownBody) :=
    AuthOf.of_canonicalize_eq (knownPacket_canonical knownBody)
  refine ⟨haccepted, (body_signed_iff
    (fun c hc => List.mem_singleton.mp hc ▸ knownCall_made) known_unforgeable
    (known_collisionFree rfl) haccepted rfl).2.mpr ⟨knownCall,
      List.mem_singleton.mpr rfl, rfl, hauth, knownBody, knownBody, rfl, rfl, ?_⟩⟩
  simp [knownBody, Alike]

/-- With its body replaced by the JSON text of the body, the packet is accepted
as well. -/
theorem text_for_body :
    knownCall.Made knownHash knownSign ∧
    ed25519GetPublicKey knownSign knownSeed.1 = .ok knownKey.1 ∧
    Unforgeable knownHash knownSign [knownCall] knownSeed.1 knownKey.1 ∧
    CollisionFree knownHash
      (hashedInputs [knownCall] (knownPacket (.str knownText))) ∧
    verifySignedPacket knownHash knownSign knownCoercions
        (knownVerify (.str knownText)) 1700000100000
      = .ok (.accepted (.str (js "node-a"))) ∧
    (knownVerify (.str knownText)).getPublicKeyByNodeId (.str (js "node-a"))
      = some knownKey.1 ∧
    ¬ ∃ c ∈ [knownCall], c.params.privateKey = knownSeed.1 ∧
      c.AuthOf (knownPacket (.str knownText)) ∧
      ∃ v w, c.params.body = some v ∧
        field (knownPacket (.str knownText)) "body" = some w ∧
        Json.Same v w := by
  refine ⟨knownCall_made, ?_, known_unforgeable, known_collisionFree rfl,
    known_accepted rfl rfl, rfl, ?_⟩
  · unfold ed25519GetPublicKey
    rw [if_neg (not_not.mpr knownSeed.2)]
    exact bind_of_ok knownSign_createPrivateKey _
  · rintro ⟨c, hc, -, -, v, w, hv, hw, hsame⟩
    obtain rfl := List.mem_singleton.mp hc
    obtain rfl : knownBody = v := Option.some.inj hv
    obtain rfl : Json.str knownText = w := Option.some.inj hw
    simp [Json.Same, knownBody, sorted] at hsame

end NewZone.Crypto.SignedPacket
