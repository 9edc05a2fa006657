import NewZone.Crypto.Node
import NewZone.Lib.ExceptBind

/-!
# HKDF

`lib/blake2b.js` and `lib/hkdf.js`: HKDF over HMAC-SHA-512 or HMAC-BLAKE2b.
The output of `hkdfExpand` is a zeroed array that the loop overwrites block by
block, so its length is the requested one whatever the hash returns.
`length_hkdf` is that fact, and it is all that the key schedule above needs to
know.
-/

namespace NewZone.Crypto

open NewZone.Js NewZone.ExceptBind

/-! ## BLAKE2b -/

/-- `blake2b(input, outLen)`.  This file has its own `toBytes`, which takes no
`null`; the optional key is passed by no caller. -/
def blake2b (node : NodeHash) (input : Input) (outLen : Int) :
    Except String Bytes :=
  if outLen ≤ 0 ∨ outLen > 64 then
    .error "blake2b: outLen must be between 1 and 64 bytes"
  else
    match input with
    | .bytes b => .ok ((node.blake2b512 b).take outLen.toNat)
    | .text s => .ok ((node.blake2b512 (utf8 s)).take outLen.toNat)
    | .nullish => .error "blake2b: unsupported input type"
    | .other => .error "blake2b: unsupported input type"

namespace Hkdf

/-- `toBytes` of `hkdf.js`. -/
def toBytes : Input → Except String Bytes := toBytesWith "hkdf"

/-! ## HMAC -/

/-- The two pads of HMAC: the key, filled up with zeros, against a constant. -/
def padKey (k : Bytes) (c : UInt8) : Bytes :=
  (k ++ List.replicate (128 - k.length) 0).map (· ^^^ c)

def hmacBlake2b (node : NodeHash) (key data : Bytes) : Except String Bytes := do
  let k ← if key.length > 128 then blake2b node (.bytes key) 64 else .ok key
  let oKeyPad := padKey k 0x5c
  let iKeyPad := padKey k 0x36
  let inner ← blake2b node (.bytes (concatBytes iKeyPad data)) 64
  blake2b node (.bytes (concatBytes oKeyPad inner)) 64

/-- What `getHashParams` returns. -/
structure HashParams where
  name : String
  hLen : Nat
  hmac : (key data : Bytes) → Except String Bytes

/-- `toLowerCase`, as far as a comparison with an ASCII name can see it:
besides `A` to `Z` only the Kelvin sign has an ASCII lower case. -/
def toLowerAscii (s : JsString) : JsString :=
  s.map fun u =>
    if 0x41 ≤ u.toNat ∧ u.toNat ≤ 0x5A then u + 0x20
    else if u = 0x212A then 0x6B
    else u

/-- `getHashParams`; a missing or empty hash name means SHA-512. -/
def getHashParams (node : NodeHash) (hash : Option JsString) :
    Except String HashParams :=
  let name := hash.getD []
  let h := toLowerAscii (if name = [] then js "sha512" else name)
  if h = js "sha512" then
    .ok { name := "sha512", hLen := 64,
          hmac := fun key data => .ok (node.hmacSha512 key data) }
  else if h = js "blake2b" then
    .ok { name := "blake2b", hLen := 64, hmac := hmacBlake2b node }
  else .error ("hkdf: unsupported hash: " ++ String.ofList (scalars name))

/-! ## Extract and expand -/

def hkdfExtract (node : NodeHash) (hash : Option JsString) (salt ikm : Input) :
    Except String Bytes := do
  let params ← getHashParams node hash
  let ikmBytes ← toBytes ikm
  let saltBytes ← toBytes salt
  let saltBytes :=
    if saltBytes.length = 0 then List.replicate params.hLen 0 else saltBytes
  params.hmac saltBytes ikmBytes

/-- `TypedArray.prototype.set`, for a source that fits. -/
def setBytes (dst src : Bytes) (pos : Nat) : Bytes :=
  dst.take pos ++ src ++ dst.drop (pos + src.length)

/-- The variables of the loop of `hkdfExpand`. -/
structure Expand where
  t : Bytes
  okm : Bytes
  pos : Nat

def expandStep (params : HashParams) (prk info : Bytes) (length : Nat)
    (s : Expand) (i : Nat) : Except String Expand := do
  let input := concatBytes (concatBytes s.t info) [UInt8.ofNat i]
  let t ← params.hmac prk input
  let slice := t.take (min params.hLen (length - s.pos))
  return { t := t, okm := setBytes s.okm slice s.pos,
           pos := s.pos + slice.length }

/-- The loop of `hkdfExpand` from `i` on, with `n` iterations to go. -/
def expandLoop (params : HashParams) (prk info : Bytes) (length : Nat) :
    (n i : Nat) → Expand → Except String Expand
  | 0, _, s => .ok s
  | n + 1, i, s => do
    let s ← expandStep params prk info length s i
    expandLoop params prk info length n (i + 1) s

def hkdfExpand (node : NodeHash) (hash : Option JsString) (prk info : Input)
    (length : Int) : Except String Bytes := do
  let params ← getHashParams node hash
  if length ≤ 0 ∨ length > 255 * params.hLen then
    .error "hkdfExpand: invalid length"
  else
    let prkBytes ← toBytes prk
    let infoBytes ← toBytes info
    let len := length.toNat
    let n := (len + params.hLen - 1) / params.hLen
    let s ← expandLoop params prkBytes infoBytes len n 1
      { t := [], okm := List.replicate len 0, pos := 0 }
    return s.okm

def hkdf (node : NodeHash) (hash : Option JsString) (salt ikm info : Input)
    (length : Int) : Except String Bytes := do
  let prk ← hkdfExtract node hash salt ikm
  hkdfExpand node hash (.bytes prk) info length

/-! ## The output has the requested length -/

/-- A MAC that always answers. -/
def HashParams.Total (params : HashParams) : Prop :=
  ∀ key data, ∃ mac, params.hmac key data = .ok mac

theorem exists_hmacBlake2b (node : NodeHash) (key data : Bytes) :
    ∃ mac, hmacBlake2b node key data = .ok mac := by
  unfold hmacBlake2b
  split_ifs
  · exact ⟨_, rfl⟩
  · exact ⟨_, rfl⟩

/-- The hash names that `getHashParams` accepts: the two of the source, in any
case, and the empty one. -/
def SupportedHash (hash : JsString) : Prop :=
  toLowerAscii (if hash = [] then js "sha512" else hash)
    ∈ [js "sha512", js "blake2b"]

instance (hash : JsString) : Decidable (SupportedHash hash) :=
  inferInstanceAs (Decidable (_ ∈ _))

theorem exists_getHashParams (node : NodeHash) {hash : JsString}
    (h : SupportedHash hash) :
    ∃ params, getHashParams node (some hash) = .ok params ∧
      params.hLen = 64 ∧ params.Total := by
  simp only [getHashParams, Option.getD_some]
  rcases List.mem_pair.mp h with h | h
  · rw [h, if_pos rfl]
    exact ⟨_, rfl, rfl, fun key data => ⟨_, rfl⟩⟩
  · rw [h, if_neg (by decide), if_pos rfl]
    exact ⟨_, rfl, rfl, exists_hmacBlake2b node⟩

theorem supportedHash_of_getHashParams {node : NodeHash} {hash : JsString}
    {params : HashParams} (h : getHashParams node (some hash) = .ok params) :
    SupportedHash hash := by
  simp only [getHashParams, Option.getD_some] at h
  by_contra hno
  rw [SupportedHash, List.mem_pair, not_or] at hno
  rw [if_neg hno.1, if_neg hno.2] at h
  cases h

/-- `hkdf` answers for supported hash names only. -/
theorem supportedHash_of_hkdf {node : NodeHash} {hash : JsString}
    {salt ikm info : Input} {length : Int} {okm : Bytes}
    (h : hkdf node (some hash) salt ikm info length = .ok okm) :
    SupportedHash hash := by
  obtain ⟨prk, hprk, -⟩ := bind_eq_ok.mp h
  obtain ⟨params, hparams, -⟩ := bind_eq_ok.mp hprk
  exact supportedHash_of_getHashParams hparams

theorem length_setBytes {dst src : Bytes} {pos : Nat}
    (h : pos + src.length ≤ dst.length) :
    (setBytes dst src pos).length = dst.length := by
  simp only [setBytes, List.length_append, List.length_take, List.length_drop]
  omega

/-- One block keeps the array at its length and the position inside it. -/
theorem expandStep_length {params : HashParams} {prk info : Bytes}
    {length i : Nat} {s s' : Expand} (hokm : s.okm.length = length)
    (hpos : s.pos ≤ length)
    (h : expandStep params prk info length s i = .ok s') :
    s'.okm.length = length ∧ s'.pos ≤ length := by
  obtain ⟨t, -, hs⟩ := bind_eq_ok.mp h
  obtain rfl := Except.ok.inj hs
  have hslice : (t.take (min params.hLen (length - s.pos))).length
      ≤ length - s.pos := by
    rw [List.length_take]
    omega
  dsimp only
  rw [length_setBytes (by omega)]
  exact ⟨hokm, by omega⟩

/-- The loop never fails on a total MAC, and it ends with an array of the
length that it started with. -/
theorem exists_expandLoop {params : HashParams} (htotal : params.Total)
    (prk info : Bytes) (length : Nat) :
    ∀ (n i : Nat) (s : Expand), s.okm.length = length → s.pos ≤ length →
      ∃ s', expandLoop params prk info length n i s = .ok s' ∧
        s'.okm.length = length := by
  intro n
  induction n with
  | zero =>
    intro i s hokm _
    exact ⟨s, rfl, hokm⟩
  | succ n ih =>
    intro i s hokm hpos
    obtain ⟨mac, hmac⟩ := htotal prk
      (concatBytes (concatBytes s.t info) [UInt8.ofNat i])
    obtain ⟨s₁, hs₁⟩ : ∃ s₁, expandStep params prk info length s i = .ok s₁ :=
      ⟨_, bind_of_ok hmac _⟩
    obtain ⟨hokm₁, hpos₁⟩ := expandStep_length hokm hpos hs₁
    obtain ⟨s', hs', hlen⟩ := ih (i + 1) s₁ hokm₁ hpos₁
    exact ⟨s', (bind_of_ok hs₁ _).trans hs', hlen⟩

/-- For a supported hash and a length that the RFC allows, `hkdf` returns that
many bytes. -/
theorem exists_hkdf (node : NodeHash) {hash : JsString} (h : SupportedHash hash)
    (salt ikm info : Bytes) {length : Int} (hpos : 0 < length)
    (hle : length ≤ 16320) :
    ∃ okm, hkdf node (some hash) (.bytes salt) (.bytes ikm) (.bytes info) length
        = .ok okm ∧ okm.length = length.toNat := by
  obtain ⟨params, hparams, hLen, htotal⟩ := exists_getHashParams node h
  obtain ⟨prk, hprk⟩ := htotal
    (if salt.length = 0 then List.replicate params.hLen 0 else salt) ikm
  have hextract : hkdfExtract node (some hash) (.bytes salt) (.bytes ikm)
      = .ok prk :=
    (bind_of_ok hparams _).trans hprk
  obtain ⟨s', hs', hlen⟩ := exists_expandLoop htotal prk info length.toNat
    ((length.toNat + params.hLen - 1) / params.hLen) 1
    { t := [], okm := List.replicate length.toNat 0, pos := 0 }
    List.length_replicate (Nat.zero_le _)
  have hbound : ¬(length ≤ 0 ∨ length > 255 * (params.hLen : Int)) := by
    rw [hLen]
    omega
  refine ⟨s'.okm, ?_, hlen⟩
  refine (bind_of_ok hextract _).trans ((bind_of_ok hparams _).trans ?_)
  rw [if_neg hbound]
  exact bind_of_ok hs' _

end Hkdf

end NewZone.Crypto
