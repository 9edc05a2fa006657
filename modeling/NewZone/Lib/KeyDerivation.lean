import Mathlib.Data.List.Basic
import Mathlib.Data.List.Range

/-!
# HMAC and HKDF

The two constructions as RFC 2104 and RFC 5869 describe them.  `hmac` is over
any hash function with any block size.  `okm` cuts the output keying material
out of the blocks `T(1)`, `T(2)`, ..., which `block` chains through any
pseudorandom function.  A hash answers bytes; what a byte is, is left open for
the expansion.
-/

namespace NewZone.KeyDerivation

/-! ## HMAC -/

section Hmac

variable (H : List UInt8 → List UInt8) (B : ℕ)

/-- The key of one block: a longer one is hashed first, and zeros fill it up. -/
def blockKey (key : List UInt8) : List UInt8 :=
  let k := if key.length > B then H key else key
  k ++ List.replicate (B - k.length) 0

/-- `H(K XOR opad, H(K XOR ipad, text))` -/
def hmac (key text : List UInt8) : List UInt8 :=
  H ((blockKey H B key).map (· ^^^ 0x5c) ++ H ((blockKey H B key).map (· ^^^ 0x36) ++ text))

end Hmac

/-! ## The blocks of HKDF -/

variable {α : Type*} (prf : List α → List α) (octet : ℕ → α) (info : List α)

/-- `T(i)`, with `T(0)` empty. -/
def block : ℕ → List α
  | 0 => []
  | i + 1 => prf (block i ++ info ++ [octet (i + 1)])

/-- `T(1) || ... || T(n)` -/
def blocks (n : ℕ) : List α := (List.range n).flatMap fun i => block prf octet info (i + 1)

/-- The first `length` elements of the blocks, of which there are 255. -/
def okm (length : ℕ) : List α := (blocks prf octet info 255).take length

variable {prf octet info}

theorem blocks_succ (n : ℕ) :
    blocks prf octet info (n + 1) = blocks prf octet info n ++ block prf octet info (n + 1) := by
  simp [blocks, List.range_succ]

section Length

variable {len : ℕ} (hprf : ∀ input, (prf input).length = len)
include hprf

theorem length_blocks (n : ℕ) : (blocks prf octet info n).length = n * len := by
  induction n with
  | zero => simp [blocks]
  | succ n ih =>
    rw [blocks_succ, List.length_append, ih, block, hprf, Nat.succ_mul]

theorem length_okm {length : ℕ} (h : length ≤ 255 * len) :
    (okm prf octet info length).length = length := by
  rw [okm, List.length_take, length_blocks hprf]
  omega

end Length

/-- More blocks go on where fewer end. -/
theorem blocks_mono {m n : ℕ} (h : m ≤ n) :
    blocks prf octet info m <+: blocks prf octet info n := by
  induction n, h using Nat.le_induction with
  | base => exact List.prefix_refl _
  | succ n _ ih =>
    rw [blocks_succ]
    exact ih.trans (List.prefix_append _ _)

/-- As many blocks as are needed give the output. -/
theorem take_blocks {len n length : ℕ} (hprf : ∀ input, (prf input).length = len)
    (hn : n ≤ 255) (h : length ≤ n * len) :
    (blocks prf octet info n).take length = okm prf octet info length := by
  obtain ⟨rest, hrest⟩ := @blocks_mono _ prf octet info _ _ hn
  have hlength := @length_blocks _ prf octet info _ hprf n
  rw [okm, ← hrest, List.take_append_of_le_length (by omega)]

/-- A shorter output is a prefix of a longer one. -/
theorem okm_mono {m n : ℕ} (h : m ≤ n) : okm prf octet info m <+: okm prf octet info n := by
  unfold okm
  exact List.take_prefix_take_left h

end NewZone.KeyDerivation
