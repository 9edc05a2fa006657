import NewZone.Crypto.Ed25519
import NewZone.Js.Base64
import NewZone.Js.JsonOrder

/-!
# Signed packets

`buildSignedPacket` and `verifySignedPacket` of `lib/nz-crypto.js`.  The
signature covers the hash of the `auth` object, and `auth` covers the body by
another hash.  The clock, in milliseconds since 1970, and the random bytes are
arguments.

What a check does with a value of an unexpected type is a matter of coercion.
`Coercions` lists the two places where that is left to the platform.
-/

namespace NewZone.Crypto.SignedPacket

open NewZone.Js NewZone.Js.Json NewZone.ExceptBind NewZone.Crypto.Ed25519

/-! ## Helpers -/

/-- What `sha256Hex` hashes: a string as it is and everything else as JSON.
`TextEncoder` encodes `undefined` as nothing. -/
def hashedText : Option Json → JsString
  | some (.str s) => s
  | some v => stringify v
  | none => []

def sha256Hex (hash : NodeHash) (obj : Option Json) : JsString :=
  toHex (hash.sha256 (utf8 (hashedText obj)))

/-- `canonicalize` of an object whose properties may be `undefined`. -/
def canonicalize (obj : List (JsString × Option Json)) :
    List (JsString × Json) :=
  let keys := (sortNames obj).map Prod.fst
  keys.foldl
    (fun res k =>
      match getProp k obj with
      | some (some v) => assignProp k v res
      | _ => res)
    []

/-- The bytes that are signed for an `auth` object without its signature. -/
def authMessage (hash : NodeHash) (auth : List (JsString × Option Json)) :
    Bytes :=
  let canonicalAuth := canonicalize auth
  let authHashHex := sha256Hex hash (some (.obj canonicalAuth))
  utf8 authHashHex

/-- `Math.floor(Date.now() / 1000)`. -/
def seconds (clock : ℕ) : Number := Number.ofNat (clock / 1000)

/-! ## Building -/

structure BuildParams where
  nodeId : Option Json
  privateKey : Bytes
  body : Option Json

structure Auth where
  node_id : Option Json
  timestamp : Number
  nonce : JsString
  body_hash : JsString

/-- The properties of the object, in the order of the source. -/
def Auth.properties (auth : Auth) : List (JsString × Option Json) :=
  [(js "node_id", auth.node_id), (js "timestamp", some (.num auth.timestamp)),
    (js "nonce", some (.str auth.nonce)),
    (js "body_hash", some (.str auth.body_hash))]

/-- `{ auth: { ...auth, signature }, body }`. -/
structure Packet where
  auth : Auth
  signature : JsString
  body : Option Json

def buildSignedPacket (hash : NodeHash) (sign : NodeSign) (params : BuildParams)
    (clock : ℕ) (random : Bytes) : Except String Packet := do
  let bodyHash := sha256Hex hash params.body
  let auth : Auth :=
    { node_id := params.nodeId, timestamp := seconds clock
      nonce := toHex random, body_hash := bodyHash }
  let msgBytes := authMessage hash auth.properties
  let sigBytes ← ed25519Sign sign msgBytes params.privateKey
  let signature := Base64.encode sigBytes
  return { auth, signature, body := params.body }

/-! ## Verifying -/

/-- `Math.abs(now - timestamp) > maxSkewSec` for a timestamp that is not a
number, and `Buffer.from(v, "base64")` for a value that is not a string.  Both
may throw. -/
structure Coercions where
  outOfRange : (now : Number) → (timestamp : Json) → (maxSkewSec : Number) →
    Except String Bool
  bufferFrom : Json → Except String Bytes

def Coercions.timestampOutOfRange (coerce : Coercions) (now : Number)
    (timestamp : Json) (maxSkewSec : Number) : Except String Bool :=
  match timestamp with
  | .num t => .ok (decide (|now.value - t.value| > maxSkewSec.value))
  | v => coerce.outOfRange now v maxSkewSec

def Coercions.b64ToU8 (coerce : Coercions) (b64 : Json) : Except String Bytes :=
  match b64 with
  | .str s => .ok (Base64.decode s)
  | v => coerce.bufferFrom v

structure VerifyParams where
  packet : Json
  getPublicKeyByNodeId : Json → Option Bytes
  maxSkewSec : Number := Number.ofNat 300
  isNonceSeen : Option ((node_id nonce : Json) → Bool) := none

/-- `{ ok: true, node_id }` or `{ ok: false, reason }`. -/
inductive Verdict where
  | accepted (node_id : Json)
  | rejected (reason : String)
  deriving DecidableEq

/-- A field that the source tests with `!`. -/
def present (v : Json) (name : String) : Option Json :=
  (field v name).filter truthy

/-- `const { signature: _, ...authWithoutSig } = auth`. -/
def authWithoutSig (auth : Json) : List (JsString × Option Json) :=
  match auth with
  | .obj members =>
    (members.filter fun m => m.1 ≠ js "signature").map fun m => (m.1, some m.2)
  | _ => []

def verifySignedPacket (hash : NodeHash) (sign : NodeSign) (coerce : Coercions)
    (params : VerifyParams) (clock : ℕ) : Except String Verdict := do
  -- a packet that is not an object has neither, as `packet || {}` says
  let some auth := present params.packet "auth"
    | return .rejected "missing_auth_or_body"
  let some body := present params.packet "body"
    | return .rejected "missing_auth_or_body"
  let some node_id := present auth "node_id"
    | return .rejected "missing_auth_fields"
  let some timestamp := present auth "timestamp"
    | return .rejected "missing_auth_fields"
  let some nonce := present auth "nonce"
    | return .rejected "missing_auth_fields"
  let some body_hash := present auth "body_hash"
    | return .rejected "missing_auth_fields"
  let some signature := present auth "signature"
    | return .rejected "missing_auth_fields"
  let now := seconds clock
  let outOfRange ← coerce.timestampOutOfRange now timestamp params.maxSkewSec
  if outOfRange then
    return .rejected "timestamp_out_of_range"
  if (params.isNonceSeen.map fun isNonceSeen => isNonceSeen node_id nonce)
      = some true then
    return .rejected "replay_nonce"
  let realBodyHash := sha256Hex hash (some body)
  if Json.str realBodyHash ≠ body_hash then
    return .rejected "body_hash_mismatch"
  let msgBytes := authMessage hash (authWithoutSig auth)
  let some pubKey := params.getPublicKeyByNodeId node_id
    | return .rejected "unknown_node"
  let sigBytes ← coerce.b64ToU8 signature
  let ok ← ed25519Verify sign msgBytes sigBytes pubKey
  if !ok then
    return .rejected "invalid_signature"
  return .accepted node_id

/-! ## What the canonical form keeps -/

/-- The properties that the loop of `canonicalize` has assigned so far. -/
theorem getProp_foldl_assignProp {obj : List (JsString × Option Json)}
    {key : JsString} (hkey : key ≠ js "__proto__") (keys : List JsString)
    (res : List (JsString × Json)) :
    getProp key (keys.foldl
        (fun res k =>
          match getProp k obj with
          | some (some v) => assignProp k v res
          | _ => res)
        res)
      = if key ∈ keys then (getProp key obj).join.or (getProp key res)
        else getProp key res := by
  induction keys generalizing res with
  | nil => rfl
  | cons k keys ih =>
    rw [List.foldl_cons, ih]
    by_cases hk : k = key
    · subst hk
      rw [if_pos List.mem_cons_self]
      cases hv : (getProp k obj).join with
      | none =>
        have hres : (match getProp k obj with
            | some (some v) => assignProp k v res
            | _ => res) = res := by
          split
          · rename_i v h
            rw [h] at hv
            cases hv
          · rfl
        rw [hres]
        simp
      | some v =>
        have hobj : getProp k obj = some (some v) := Option.join_eq_some_iff.mp hv
        rw [hobj]
        simp [assignProp, hkey]
    · have hres : getProp key (match getProp k obj with
            | some (some v) => assignProp k v res
            | _ => res) = getProp key res := by
        split
        · unfold assignProp
          split_ifs
          · rfl
          · exact getProp_setProp_of_ne hk _ _
        · rfl
      rw [hres]
      simp [Ne.symm hk]

/-- The canonical form has the properties of the object, without those that
are `undefined` and without `__proto__`. -/
theorem getProp_canonicalize (obj : List (JsString × Option Json))
    {key : JsString} (hkey : key ≠ js "__proto__") :
    getProp key (canonicalize obj) = (getProp key obj).join := by
  apply (getProp_foldl_assignProp hkey _ _).trans
  rw [getProp_nil, Option.or_none]
  split_ifs with h
  · rfl
  · have hmem : key ∉ obj.map Prod.fst := by
      intro hmem
      exact h (((sortNames_perm obj).map Prod.fst).mem_iff.mpr hmem)
    rw [getProp_eq_none_iff.mpr hmem]
    rfl

theorem getProp_authWithoutSig (auth : Json) {name : String}
    (h : js name ≠ js "signature") :
    (getProp (js name) (authWithoutSig auth)).join = field auth name := by
  cases auth with
  | obj members =>
    simp only [authWithoutSig, field]
    induction members with
    | nil => rfl
    | cons m ms ih =>
      obtain ⟨k, v⟩ := m
      rw [List.filter_cons, getProp_cons]
      by_cases hk : k = js name
      · rw [if_pos (by simpa [hk] using h), if_pos hk, List.map_cons,
          getProp_cons, if_pos hk]
        rfl
      · rw [if_neg hk]
        split_ifs
        · rw [List.map_cons, getProp_cons, if_neg hk, ih]
        · exact ih
  | _ => rfl

end NewZone.Crypto.SignedPacket
