import Mathlib.Tactic.Linarith
import NewZone.Crypto.BodyBinding
import NewZone.Js.Conversion

/-!
# The expiry of a signed packet

`verifySignedPacket` compares the distance of `timestamp` from the clock with a
window.  A timestamp that converts to a number is in the window for twice its
length.  One that converts to `NaN` is in every window at every time, since no
comparison with `NaN` holds, so a packet with it never expires (`expires_iff`).
-/

namespace NewZone.Crypto.SignedPacket

open NewZone.Js NewZone.Js.Json NewZone.ExceptBind NewZone.Crypto.Ed25519
open NewZone.Crypto.Tabulated (knownSeed knownKey)

/-! ## The window -/

/-- `Math.abs(now - timestamp) > maxSkewSec` -/
def skewExceeds (now : Number) (timestamp : Double) (maxSkewSec : Number) : Bool :=
  match timestamp with
  | .nan => false
  | .infinite _ => true
  | .finite t => decide (|now.value - t| > maxSkewSec.value)

/-- The coercions of the language, with the rounding and `Buffer.from` of the
platform. -/
def jsCoercions (round : ℚ → Option ℚ) (bufferFrom : Json → Except String Bytes) : Coercions :=
  { outOfRange := fun now timestamp maxSkewSec => do
      return skewExceeds now (← timestamp.toNumber round) maxSkewSec
    bufferFrom }

variable {round : ℚ → Option ℚ} {bufferFrom : Json → Except String Bytes}

theorem timestampOutOfRange_eq_ok {now maxSkewSec : Number} {timestamp : Json} {b : Bool} :
    (jsCoercions round bufferFrom).timestampOutOfRange now timestamp maxSkewSec = .ok b ↔
      ∃ t, timestamp.toNumber round = .ok t ∧ skewExceeds now t maxSkewSec = b := by
  have hcoerced : ∀ v : Json, ((do
        return skewExceeds now (← v.toNumber round) maxSkewSec : Except String Bool) = .ok b) ↔
      ∃ t, v.toNumber round = .ok t ∧ skewExceeds now t maxSkewSec = b := by
    intro v
    rw [bind_eq_ok]
    simp [pure, Except.pure]
  cases timestamp with
  | num t => simp [Coercions.timestampOutOfRange, toNumber, skewExceeds]
  | null => exact hcoerced _
  | bool => exact hcoerced _
  | str => exact hcoerced _
  | arr => exact hcoerced _
  | obj => exact hcoerced _

/-- A number is in the window at two times only if these are near. -/
theorem near_of_skew {now now' maxSkewSec : Number} {t : Double} (hnan : t ≠ .nan)
    (h : skewExceeds now t maxSkewSec = false) (h' : skewExceeds now' t maxSkewSec = false) :
    |now.value - now'.value| ≤ 2 * maxSkewSec.value := by
  cases t with
  | nan => exact absurd rfl hnan
  | infinite => cases h
  | finite t =>
    have hnow : |now.value - t| ≤ maxSkewSec.value := not_lt.mp (of_decide_eq_false h)
    have hnow' : |now'.value - t| ≤ maxSkewSec.value := not_lt.mp (of_decide_eq_false h')
    calc |now.value - now'.value|
        ≤ |now.value - t| + |t - now'.value| := abs_sub_le _ _ _
      _ = |now.value - t| + |now'.value - t| := by rw [abs_sub_comm t]
      _ ≤ 2 * maxSkewSec.value := by linarith

/-! ## The other checks -/

/-- The packet passes every check except that of its time. -/
def PassesOtherChecks (hash : NodeHash) (sign : NodeSign) (coerce : Coercions)
    (params : VerifyParams) : Prop :=
  ∃ auth body node_id timestamp nonce signature pubKey sigBytes,
    present params.packet "auth" = some auth ∧
    present params.packet "body" = some body ∧
    present auth "node_id" = some node_id ∧
    present auth "timestamp" = some timestamp ∧
    present auth "nonce" = some nonce ∧
    present auth "body_hash" = some (.str (sha256Hex hash (some body))) ∧
    present auth "signature" = some signature ∧
    (params.isNonceSeen.map fun seen => seen node_id nonce) ≠ some true ∧
    params.getPublicKeyByNodeId node_id = some pubKey ∧
    coerce.b64ToU8 signature = .ok sigBytes ∧
    ed25519Verify sign (authMessage hash (authWithoutSig auth)) sigBytes pubKey = .ok true

/-- The number that the time of a packet converts to. -/
def timeOf (round : ℚ → Option ℚ) (packet : Json) : Except String Double :=
  (((present packet "auth").bind fun auth => present auth "timestamp").getD .null).toNumber round

theorem timeOf_eq {packet auth timestamp : Json} (hauth : present packet "auth" = some auth)
    (htimestamp : present auth "timestamp" = some timestamp) :
    timeOf round packet = timestamp.toNumber round := by
  rw [timeOf, hauth, Option.bind_some, htimestamp, Option.getD_some]

/-- `{ ok: true }` -/
def Accepted (hash : NodeHash) (sign : NodeSign) (coerce : Coercions) (params : VerifyParams)
    (clock : ℕ) : Prop :=
  ∃ node_id, verifySignedPacket hash sign coerce params clock = .ok (.accepted node_id)

theorem accepted_iff_checks {hash : NodeHash} {sign : NodeSign} {params : VerifyParams}
    {clock : ℕ} :
    Accepted hash sign (jsCoercions round bufferFrom) params clock ↔
      PassesOtherChecks hash sign (jsCoercions round bufferFrom) params ∧
        ∃ t, timeOf round params.packet = .ok t ∧
          skewExceeds (seconds clock) t params.maxSkewSec = false := by
  constructor
  · rintro ⟨node_id, h⟩
    obtain ⟨auth, body, timestamp, nonce, signature, pubKey, sigBytes, hauth, hbody, hid,
      htimestamp, hnonce, hhash, hsignature, hrange, hseen, hkey, hsig, hok⟩ :=
      verifySignedPacket_accepted_iff.mp h
    refine ⟨⟨auth, body, node_id, timestamp, nonce, signature, pubKey, sigBytes, hauth, hbody,
      hid, htimestamp, hnonce, hhash, hsignature, hseen, hkey, hsig, hok⟩, ?_⟩
    rw [timeOf_eq hauth htimestamp]
    exact timestampOutOfRange_eq_ok.mp hrange
  · rintro ⟨⟨auth, body, node_id, timestamp, nonce, signature, pubKey, sigBytes, hauth, hbody,
      hid, htimestamp, hnonce, hhash, hsignature, hseen, hkey, hsig, hok⟩, hrange⟩
    rw [timeOf_eq hauth htimestamp] at hrange
    exact ⟨node_id, verifySignedPacket_accepted_iff.mpr ⟨auth, body, timestamp, nonce, signature,
      pubKey, sigBytes, hauth, hbody, hid, htimestamp, hnonce, hhash, hsignature,
      timestampOutOfRange_eq_ok.mpr hrange, hseen, hkey, hsig, hok⟩⟩

/-- **When a packet expires.**  A packet is not accepted at two times that lie further
apart than twice the window, in whatever two calls, exactly when its time does not
convert to `NaN` or another check refuses it in one of them. -/
theorem expires_iff {hash : NodeHash} {sign : NodeSign} {params params' : VerifyParams}
    {clock clock' : ℕ} (hpacket : params.packet = params'.packet)
    (hwindow : params.maxSkewSec = params'.maxSkewSec)
    (hfar : |(seconds clock).value - (seconds clock').value| > 2 * params.maxSkewSec.value) :
    ¬ (Accepted hash sign (jsCoercions round bufferFrom) params clock ∧
        Accepted hash sign (jsCoercions round bufferFrom) params' clock') ↔
      timeOf round params.packet ≠ .ok .nan ∨
        ¬ PassesOtherChecks hash sign (jsCoercions round bufferFrom) params ∨
        ¬ PassesOtherChecks hash sign (jsCoercions round bufferFrom) params' := by
  rw [accepted_iff_checks, accepted_iff_checks, ← hpacket, ← hwindow]
  constructor
  · intro h
    by_contra hnot
    push Not at hnot
    obtain ⟨hnan, hchecks, hchecks'⟩ := hnot
    exact h ⟨⟨hchecks, .nan, hnan, rfl⟩, hchecks', .nan, hnan, rfl⟩
  · rintro h ⟨⟨hchecks, t, ht, hskew⟩, hchecks', t', ht', hskew'⟩
    obtain rfl : t = t' := Except.ok.inj (ht.symm.trans ht')
    rcases h with h | h | h
    · refine absurd (near_of_skew ?_ hskew hskew') (not_le.mpr hfar)
      rintro rfl
      exact h ht
    · exact h hchecks
    · exact h hchecks'

/-- Exact numbers, and no value but a text for a signature. -/
def exactCoercions : Coercions :=
  jsCoercions some fun _ => .error "The first argument must be of type string"

/-- The packet of node-a from 2023 is not accepted in 2033 as well. -/
theorem expires_known :
    ¬ (Accepted knownHash knownSign exactCoercions (knownVerify knownBody) 1700000000000 ∧
        Accepted knownHash knownSign exactCoercions (knownVerify knownBody) 2000000000000) := by
  have htime : timeOf some (knownPacket knownBody)
      = toNumber some (.num (seconds 1700000000000)) :=
    timeOf_eq rfl (present_eq_some_iff.mpr ⟨rfl, by decide +kernel⟩)
  refine (expires_iff rfl rfl ?_).mpr (.inl ?_)
  · norm_num [seconds, knownVerify]
  · show timeOf some (knownPacket knownBody) ≠ _
    rw [htime]
    intro hnumber
    cases hnumber

/-! ## A timestamp that is no number -/

/-- The `auth` object that node-a signs, with a text for a time. -/
def undatedAuth : List (JsString × Json) :=
  [(js "node_id", .str (js "node-a")), (js "timestamp", .str (js "x")), (js "nonce", .str (js "0")),
    (js "body_hash",
      .str (js "b5bea41b6c623f7c09f1bf24dcae58ebab3c0cdd90ad966bc43a45b44867e12b"))]

def undatedProperties : List (JsString × Option Json) :=
  undatedAuth.map fun m => (m.1, some m.2)

/-- The SHA-256 digests of the body `true` and of the `auth` object. -/
def undatedHash : NodeHash :=
  Tabulated.hash
    [(utf8 (js "true"), Tabulated.hex 32
        0xb5bea41b6c623f7c09f1bf24dcae58ebab3c0cdd90ad966bc43a45b44867e12b),
      (utf8 (stringify (.obj (canonicalize undatedProperties))), Tabulated.hex 32
        0x8fbf1801b69247940fdb8b7d13db14f212a323b69992a41b4503db96aae1cfde)]
    [] []

/-- The Ed25519 signature of its text by the known seed. -/
def undatedSignature : { s : Bytes // s.length = 64 } :=
  ⟨Tabulated.hex 32 0x829d8684afb21e92c971a7dc45b3dab2e7cc2cc3b71e99d926c8fd252d20e85b ++
    Tabulated.hex 32 0x366cd971081e862b3f5e2923a9172051f5da2bb9dedd49fcb563489455a8830f, by
    simp⟩

def undatedSign : NodeSign :=
  Tabulated.sign [(knownSeed, knownKey)]
    [((authMessage undatedHash undatedProperties, knownKey), undatedSignature)]

/-- A verifier that knows the key of node-a. -/
def undatedVerify : VerifyParams :=
  { packet := .obj [(js "auth", .obj (undatedAuth
        ++ [(js "signature", .str (Base64.encode undatedSignature.1))])),
      (js "body", .bool true)]
    getPublicKeyByNodeId := fun id => if id = .str (js "node-a") then some knownKey.1 else none }

theorem undatedHash_body : sha256Hex undatedHash (some (.bool true))
    = js "b5bea41b6c623f7c09f1bf24dcae58ebab3c0cdd90ad966bc43a45b44867e12b" := by
  have hdigest : undatedHash.sha256 (utf8 (js "true")) = Tabulated.hex 32
      0xb5bea41b6c623f7c09f1bf24dcae58ebab3c0cdd90ad966bc43a45b44867e12b := by
    simp [undatedHash, Tabulated.hash, Tabulated.lookupD]
  show toHex (undatedHash.sha256 (utf8 (js "true"))) = _
  rw [hdigest]
  decide +kernel

theorem undatedSign_verify :
    ed25519Verify undatedSign (authMessage undatedHash undatedProperties) undatedSignature.1
      knownKey.1 = .ok true := by
  have hkey : undatedSign.createPublicKey (spkiPrefix ++ knownKey.1) = .ok knownKey :=
    Tabulated.parseDer_append spkiPrefix knownKey
  unfold ed25519Verify
  rw [if_neg (not_not.mpr knownKey.2), if_neg (not_not.mpr undatedSignature.2),
    bind_of_ok hkey]
  simp [undatedSign, Tabulated.sign, Tabulated.lookupD, pure, Except.pure]

theorem undated_passes :
    PassesOtherChecks undatedHash undatedSign exactCoercions undatedVerify := by
  refine ⟨_, .bool true, .str (js "node-a"), .str (js "x"), .str (js "0"),
    .str (Base64.encode undatedSignature.1), knownKey.1, undatedSignature.1,
    rfl, rfl, rfl, rfl, rfl, ?_, ?_, nofun, rfl, ?_, undatedSign_verify⟩
  · rw [undatedHash_body]
    rfl
  · exact present_eq_some_iff.mpr ⟨rfl, rfl⟩
  · exact congrArg Except.ok (Base64.decode_encode _)

/-- **A packet that never expires.**  It is accepted in 2023 and in 2033. -/
theorem undated_accepted :
    |(seconds 1700000000000).value - (seconds 2000000000000).value|
        > 2 * undatedVerify.maxSkewSec.value ∧
      Accepted undatedHash undatedSign exactCoercions undatedVerify 1700000000000 ∧
      Accepted undatedHash undatedSign exactCoercions undatedVerify 2000000000000 := by
  have htime : timeOf some undatedVerify.packet = .ok .nan := by decide +kernel
  refine ⟨?_, accepted_iff_checks.mpr ⟨undated_passes, .nan, htime, rfl⟩,
    accepted_iff_checks.mpr ⟨undated_passes, .nan, htime, rfl⟩⟩
  norm_num [seconds, undatedVerify]

end NewZone.Crypto.SignedPacket
