import NewZone.Crypto.Hkdf
import NewZone.Crypto.Tabulated
import NewZone.Lib.KeyDerivation

/-!
# HKDF is that of the RFC

`hkdfExpand` writes the blocks `T(1)`, `T(2)`, ... into a zeroed array and cuts
the last one off.  `Expanded` says what the variables of its loop are after `i`
iterations, in terms of the blocks of RFC 5869.  That the length of a block and
of a digest is 64 is what the loop relies on: `hLen` is written down in the
source, and not read off the hash.
-/

namespace NewZone.Crypto.Hkdf

open NewZone.Js NewZone.ExceptBind NewZone.KeyDerivation

/-! ## The two hashes -/

inductive HashName where
  | sha512
  | blake2b
  deriving DecidableEq

def HashName.text : HashName → JsString
  | sha512 => js "sha512"
  | blake2b => js "blake2b"

/-- The platform computes HMAC-SHA-512 as RFC 2104 says, and its digests have 64 bytes. -/
structure Conforms (node : NodeHash) (sha512 : Bytes → Bytes) : Prop where
  hmacSha512_eq : ∀ key data, node.hmacSha512 key data = hmac sha512 128 key data
  length_sha512 : ∀ data, (sha512 data).length = 64
  length_blake2b512 : ∀ data, (node.blake2b512 data).length = 64

/-- The hash function with the name. -/
def HashName.digest (node : NodeHash) (sha512 : Bytes → Bytes) : HashName → Bytes → Bytes
  | .sha512 => sha512
  | .blake2b => node.blake2b512

/-- RFC 5869 with HMAC over a hash with blocks of 128 bytes and digests of 64. -/
def rfcHkdf (H : Bytes → Bytes) (salt ikm info : Bytes) (length : ℕ) : Bytes :=
  let PRK := hmac H 128 (if salt = [] then List.replicate 64 0 else salt) ikm
  okm (hmac H 128 PRK) UInt8.ofNat info length

variable {node : NodeHash} {sha512 : Bytes → Bytes}

theorem Conforms.length_digest (h : Conforms node sha512) (name : HashName) (data : Bytes) :
    (name.digest node sha512 data).length = 64 := by
  cases name with
  | sha512 => exact h.length_sha512 data
  | blake2b => exact h.length_blake2b512 data

theorem Conforms.blake2b_eq (h : Conforms node sha512) (data : Bytes) :
    blake2b node (.bytes data) 64 = .ok (node.blake2b512 data) := by
  have htake : (node.blake2b512 data).take (64 : Int).toNat = node.blake2b512 data :=
    List.take_of_length_le (h.length_blake2b512 data).le
  unfold blake2b
  rw [if_neg (by decide)]
  exact congrArg Except.ok htake

/-- The HMAC of the source is the one of the RFC, for keys of every length. -/
theorem Conforms.hmacBlake2b_eq (h : Conforms node sha512) (key data : Bytes) :
    hmacBlake2b node key data = .ok (hmac node.blake2b512 128 key data) := by
  have hrest : ∀ k : Bytes, (do
      let inner ← blake2b node (.bytes (concatBytes (padKey k 0x36) data)) 64
      blake2b node (.bytes (concatBytes (padKey k 0x5c) inner)) 64)
        = .ok (node.blake2b512 (padKey k 0x5c ++ node.blake2b512 (padKey k 0x36 ++ data))) :=
    fun k => (bind_of_ok (h.blake2b_eq _) _).trans (h.blake2b_eq _)
  unfold hmacBlake2b hmac blockKey
  dsimp only
  split_ifs with hkey
  · exact (bind_of_ok (h.blake2b_eq key) _).trans (hrest _)
  · exact hrest key

theorem Conforms.getHashParams_eq (h : Conforms node sha512) (name : HashName) :
    ∃ params, getHashParams node (some name.text) = .ok params ∧ params.hLen = 64 ∧
      ∀ key data, params.hmac key data = .ok (hmac (name.digest node sha512) 128 key data) := by
  cases name with
  | sha512 => exact ⟨_, rfl, rfl, fun key data => congrArg Except.ok (h.hmacSha512_eq key data)⟩
  | blake2b => exact ⟨_, rfl, rfl, h.hmacBlake2b_eq⟩

/-! ## The loop -/

/-- The variables of the loop after `i` blocks. -/
structure Expanded (mac : Bytes → Bytes) (info : Bytes) (length i : ℕ) (s : Expand) : Prop where
  t_eq : s.t = block mac UInt8.ofNat info i
  pos_eq : s.pos = min (i * 64) length
  okm_eq : s.okm = (blocks mac UInt8.ofNat info i).take length
    ++ List.replicate (length - i * 64) 0

theorem expanded_init (mac : Bytes → Bytes) (info : Bytes) (length : ℕ) :
    Expanded mac info length 0
      { t := [], okm := List.replicate length 0, pos := 0 } where
  t_eq := rfl
  pos_eq := by simp
  okm_eq := by simp [blocks]

section Loop

variable {params : HashParams} {prk info : Bytes} {mac : Bytes → Bytes} {length : ℕ}
  (hLen : params.hLen = 64) (hhmac : ∀ data, params.hmac prk data = .ok (mac data))
  (hmac : ∀ data, (mac data).length = 64)
include hLen hhmac hmac

/-- One iteration appends one block, or what there is room for. -/
theorem Expanded.step {i : ℕ} {s : Expand} (h : Expanded mac info length i s) :
    ∃ s', expandStep params prk info length s (i + 1) = .ok s' ∧
      Expanded mac info length (i + 1) s' := by
  have hblock : mac (s.t ++ info ++ [UInt8.ofNat (i + 1)])
      = block mac UInt8.ofNat info (i + 1) := by
    rw [h.t_eq]
    rfl
  have hlength : (block mac UInt8.ofNat info (i + 1)).length = 64 := hmac _
  have hblocks := @length_blocks _ mac UInt8.ofNat info _ hmac i
  -- the slice is what the requested length leaves of the block
  have hslice : (block mac UInt8.ofNat info (i + 1)).take (min params.hLen (length - s.pos))
      = (block mac UInt8.ofNat info (i + 1)).take (length - i * 64) := by
    have hrest : length - s.pos = length - i * 64 := by
      rw [h.pos_eq]
      omega
    rw [hLen, hrest, List.take_eq_take_iff, hlength]
    omega
  refine ⟨_, bind_of_ok (hhmac _) _, ?_⟩
  dsimp only [concatBytes]
  rw [hblock, hslice]
  have hsliceLength : ((block mac UInt8.ofNat info (i + 1)).take (length - i * 64)).length
      = min (length - i * 64) 64 := by
    rw [List.length_take, hlength]
  have hfront : ((blocks mac UInt8.ofNat info i).take length).length = s.pos := by
    rw [List.length_take, hblocks, h.pos_eq, min_comm]
  constructor
  · rfl
  · dsimp only
    rw [hsliceLength, h.pos_eq]
    omega
  · dsimp only
    rw [setBytes, h.okm_eq, hsliceLength, List.take_left' hfront, ← List.drop_drop,
      List.drop_left' hfront, List.drop_replicate, blocks_succ, List.take_append, hblocks]
    congr 2
    omega

/-- The loop appends block after block. -/
theorem Expanded.loop (n : ℕ) {i : ℕ} {s : Expand} (h : Expanded mac info length i s) :
    ∃ s', expandLoop params prk info length n (i + 1) s = .ok s' ∧
      Expanded mac info length (i + n) s' := by
  induction n generalizing i s with
  | zero => exact ⟨s, rfl, h⟩
  | succ n ih =>
    obtain ⟨s₁, hs₁, h₁⟩ := h.step hLen hhmac hmac
    obtain ⟨s', hs', h'⟩ := ih h₁
    refine ⟨s', (bind_of_ok hs₁ _).trans hs', ?_⟩
    rw [show i + (n + 1) = i + 1 + n by omega]
    exact h'

/-- The loop of `hkdfExpand` ends with the output keying material. -/
theorem exists_expandLoop_okm (hle : length ≤ 255 * 64) :
    ∃ s, expandLoop params prk info length ((length + params.hLen - 1) / params.hLen) 1
        { t := [], okm := List.replicate length 0, pos := 0 } = .ok s ∧
      s.okm = okm mac UInt8.ofNat info length := by
  rw [hLen]
  obtain ⟨s, hs, h⟩ := (expanded_init mac info length).loop hLen hhmac hmac
    ((length + 64 - 1) / 64)
  refine ⟨s, hs, ?_⟩
  rw [Nat.zero_add] at h
  have hfull : length - (length + 64 - 1) / 64 * 64 = 0 := by omega
  rw [h.okm_eq, hfull, List.replicate_zero, List.append_nil]
  exact take_blocks hmac (by omega) (by omega)

end Loop

/-! ## The whole function -/

/-- The first step takes 64 zeros for a missing salt. -/
theorem Conforms.hkdfExtract_eq (h : Conforms node sha512) (name : HashName)
    (salt ikm : Bytes) :
    hkdfExtract node (some name.text) (.bytes salt) (.bytes ikm)
      = .ok (hmac (name.digest node sha512) 128
          (if salt = [] then List.replicate 64 0 else salt) ikm) := by
  obtain ⟨params, hparams, hLen, hhmac⟩ := h.getHashParams_eq name
  have hsalt : (if salt.length = 0 then List.replicate params.hLen 0 else salt)
      = if salt = [] then List.replicate 64 0 else salt := by
    simp only [hLen, List.length_eq_zero_iff]
  refine (bind_of_ok hparams _).trans ?_
  rw [← hsalt]
  exact hhmac _ _

/-- Within the bounds, `hkdf` returns the output of the RFC. -/
theorem Conforms.hkdf_eq (h : Conforms node sha512) (name : HashName) (salt ikm info : Bytes)
    {length : ℤ} (hlength : ¬ (length ≤ 0 ∨ 16320 < length)) :
    hkdf node (some name.text) (.bytes salt) (.bytes ikm) (.bytes info) length
      = .ok (rfcHkdf (name.digest node sha512) salt ikm info length.toNat) := by
  obtain ⟨params, hparams, hLen, hhmac⟩ := h.getHashParams_eq name
  have hbound : ¬ (length ≤ 0 ∨ length > 255 * (params.hLen : ℤ)) := by
    rw [hLen]
    exact hlength
  obtain ⟨s, hs, hokm⟩ := @exists_expandLoop_okm params _ info _ length.toNat hLen (hhmac _)
    (fun data => h.length_digest name _) (by omega)
  refine (bind_of_ok (h.hkdfExtract_eq name salt ikm) _).trans ?_
  refine (bind_of_ok hparams _).trans ?_
  rw [if_neg hbound]
  refine (bind_of_ok hs _).trans ?_
  exact congrArg Except.ok hokm

/-- Outside of the bounds, `hkdf` throws. -/
theorem Conforms.hkdf_error (h : Conforms node sha512) (name : HashName)
    (salt ikm info : Bytes) {length : ℤ} (hlength : length ≤ 0 ∨ 16320 < length) :
    hkdf node (some name.text) (.bytes salt) (.bytes ikm) (.bytes info) length
      = .error "hkdfExpand: invalid length" := by
  obtain ⟨params, hparams, hLen, -⟩ := h.getHashParams_eq name
  have hbound : length ≤ 0 ∨ length > 255 * (params.hLen : ℤ) := by
    rw [hLen]
    exact hlength
  refine (bind_of_ok (h.hkdfExtract_eq name salt ikm) _).trans ?_
  refine (bind_of_ok hparams _).trans ?_
  rw [if_pos hbound]

theorem Conforms.length_rfcHkdf (h : Conforms node sha512) (name : HashName)
    (salt ikm info : Bytes) {length : ℕ} (hle : length ≤ 16320) :
    (rfcHkdf (name.digest node sha512) salt ikm info length).length = length :=
  length_okm (fun _ => h.length_digest name _) hle

/-- **HKDF is RFC 5869.**  It throws exactly outside of 1 to 16320, it returns the
requested number of bytes of the blocks of the RFC, and a shorter output is a prefix
of a longer one. -/
theorem hkdf_is_rfc5869 (h : Conforms node sha512) (name : HashName)
    (salt ikm info : Bytes) :
    (∀ length : ℤ,
        ((∃ e, hkdf node (some name.text) (.bytes salt) (.bytes ikm) (.bytes info) length
            = .error e) ↔ length ≤ 0 ∨ 16320 < length) ∧
        (¬ (length ≤ 0 ∨ 16320 < length) →
          ∃ out, hkdf node (some name.text) (.bytes salt) (.bytes ikm) (.bytes info) length
              = .ok out ∧ (out.length : ℤ) = length ∧
            out = rfcHkdf (name.digest node sha512) salt ikm info length.toNat)) ∧
      ∀ (short long : ℤ) (out out' : Bytes), short ≤ long →
        hkdf node (some name.text) (.bytes salt) (.bytes ikm) (.bytes info) short = .ok out →
        hkdf node (some name.text) (.bytes salt) (.bytes ikm) (.bytes info) long = .ok out' →
        out <+: out' := by
  have hin : ∀ {length : ℤ} {out : Bytes},
      hkdf node (some name.text) (.bytes salt) (.bytes ikm) (.bytes info) length = .ok out →
      out = rfcHkdf (name.digest node sha512) salt ikm info length.toNat := by
    intro length out hout
    by_cases hlength : length ≤ 0 ∨ 16320 < length
    · rw [h.hkdf_error name salt ikm info hlength] at hout
      cases hout
    · rw [h.hkdf_eq name salt ikm info hlength] at hout
      exact (Except.ok.inj hout).symm
  refine ⟨fun length => ⟨⟨?_, ?_⟩, fun hlength => ?_⟩, ?_⟩
  · rintro ⟨e, he⟩
    by_contra hlength
    rw [h.hkdf_eq name salt ikm info hlength] at he
    cases he
  · exact fun hlength => ⟨_, h.hkdf_error name salt ikm info hlength⟩
  · refine ⟨_, h.hkdf_eq name salt ikm info hlength, ?_, rfl⟩
    rw [h.length_rfcHkdf name salt ikm info (by omega)]
    omega
  · intro short long out out' hle hout hout'
    rw [hin hout, hin hout']
    exact okm_mono (Int.toNat_le_toNat hle)

/-! ## A known key -/

/-- What BLAKE2b makes of the four texts that one block of output needs. -/
def knownInner : Bytes :=
  Tabulated.hex 32 0x9c2ebca85be998e041c4052b5547d502e914a5d100bf7c65a1d0bbeb34cbc631 ++
    Tabulated.hex 32 0x1de683999f1617747de1e366fba380434f63912732bf4f19457d0db0d4139ed7

def knownPrk : Bytes :=
  Tabulated.hex 32 0xaba1cf92cc7bf4c41157cdfa9bb15f7114bdf9ba6b22125f080404f2a60472bd ++
    Tabulated.hex 32 0x158a3c5f1a0eeda652baacda144473e9dfab1b1c0687a862b5ab26c0d9f5e963

def knownBlockInner : Bytes :=
  Tabulated.hex 32 0xe5bfb4899ebc4fdfdc3d684487d953beda25d8ec8efce9c3a80038097e837a4f ++
    Tabulated.hex 32 0xc2496e92fbdb04a6778157e76d83026e245042f68ca0597f6bd2249f34450d7a

def knownBlock : Bytes :=
  Tabulated.hex 32 0x54ed122fe2b53a2d84cd6895a98f2602a33a676cbf1b6879642316d232ed11dd ++
    Tabulated.hex 32 0x47c2267e5883136d22803bf7c1906bcfbcae7a0739c577e34f501b21aa13ace7

/-- The bytes of `secret`. -/
def knownIkm : Bytes := utf8 (js "secret")

/-- A platform that knows these digests. -/
def rfcNode : NodeHash :=
  { Tabulated.hash []
      [(padKey (List.replicate 64 0) 0x36 ++ knownIkm, knownInner),
        (padKey (List.replicate 64 0) 0x5c ++ knownInner, knownPrk),
        (padKey knownPrk 0x36 ++ [1], knownBlockInner),
        (padKey knownPrk 0x5c ++ knownBlockInner, knownBlock)] [] with
    hmacSha512 := hmac (fun _ => List.replicate 64 0) 128 }

theorem rfcNode_conforms : Conforms rfcNode fun _ => List.replicate 64 0 where
  hmacSha512_eq _ _ := rfl
  length_sha512 _ := List.length_replicate
  length_blake2b512 data := by
    have hentries : ∀ entry ∈ ([(padKey (List.replicate 64 0) 0x36 ++ knownIkm, knownInner),
        (padKey (List.replicate 64 0) 0x5c ++ knownInner, knownPrk),
        (padKey knownPrk 0x36 ++ [1], knownBlockInner),
        (padKey knownPrk 0x5c ++ knownBlockInner, knownBlock)] : List (Bytes × Bytes)),
        entry.2.length = (List.replicate 64 (0 : UInt8)).length := by
      simp [knownInner, knownPrk, knownBlockInner, knownBlock]
    exact (Tabulated.length_lookupD hentries data).trans List.length_replicate

/-- Sixteen bytes without a salt. -/
theorem hkdf_is_rfc5869_known :
    ∃ out, hkdf rfcNode (some (js "blake2b")) (.bytes []) (.bytes knownIkm) (.bytes []) 16
        = .ok out ∧ (out.length : ℤ) = 16 ∧
      out = rfcHkdf rfcNode.blake2b512 [] knownIkm [] 16 :=
  ((hkdf_is_rfc5869 rfcNode_conforms .blake2b [] knownIkm []).1 16).2 (by decide)

end NewZone.Crypto.Hkdf
