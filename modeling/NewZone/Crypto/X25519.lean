import NewZone.Js.Text

/-!
# X25519

`lib/x25519.js`: a Montgomery ladder on JavaScript bigints.  A bigint is an
`Int` where the code can make it negative, and a `Nat` where it only ever
shifts and masks non-negative values.  An error that the code throws is
`Except.error` with the text of the source.

The definitions are in the order of the source and under its names.  What
they compute is in `NewZone.Crypto.X25519Field` and
`NewZone.Crypto.X25519Agreement`.
-/

namespace NewZone.X25519

open NewZone.Js

/-- The field prime. -/
def P : Int := (1 <<< 255) - 19

def A24 : Int := 121665

/-! ## Field arithmetic -/

/-- The remainder of a bigint takes the sign of the dividend, so the source
repairs a negative one. -/
def mod (a : Int) : Int :=
  let r := a.tmod P
  if 0 ≤ r then r else r + P

def add (a b : Int) : Int := mod (a + b)

def sub (a b : Int) : Int := mod (a - b)

def mul (a b : Int) : Int := mod (a * b)

/-- The `while` loop of `inv`, from its three variables. -/
def invLoop (r x : Int) (e : Nat) : Int :=
  if 0 < e then
    invLoop (if e &&& 1 = 1 then mul r x else r) (mul x x) (e >>> 1)
  else r
termination_by e
decreasing_by
  rw [Nat.shiftRight_eq_div_pow]
  omega

def inv (a : Int) : Int := invLoop 1 (mod a) (P.toNat - 2)

/-! ## Montgomery ladder -/

/-- The variables that `montgomeryLadder` carries through its loop. -/
structure Ladder where
  x2 : Int
  z2 : Int
  x3 : Int
  z3 : Int
  swap : Nat

/-- The conditional swap of the two pairs. -/
def Ladder.cswap (s : Ladder) : Ladder :=
  if s.swap = 0 then s
  else { s with x2 := s.x3, z2 := s.z3, x3 := s.x2, z3 := s.z2 }

/-- The arithmetic of one iteration, after the swap. -/
def Ladder.arith (x1 : Int) (s : Ladder) : Ladder :=
  let A := add s.x2 s.z2
  let AA := mul A A
  let B := sub s.x2 s.z2
  let BB := mul B B
  let E := sub AA BB
  let C := add s.x3 s.z3
  let D := sub s.x3 s.z3
  let DA := mul D A
  let CB := mul C B
  { s with
    x3 := mul (add DA CB) (add DA CB)
    z3 := mul x1 (mul (sub DA CB) (sub DA CB))
    x2 := mul AA BB
    z2 := mul E (add AA (mul A24 E)) }

/-- One iteration: `swap` holds the previous bit on entry and the bit `t` of
the scalar on exit. -/
def ladderStep (k : Nat) (x1 : Int) (s : Ladder) (t : Nat) : Ladder :=
  let kt := (k >>> t) &&& 1
  { Ladder.arith x1 (Ladder.cswap { s with swap := s.swap ^^^ kt }) with
    swap := kt }

/-- The `for` loop over `t - 1`, ..., `0`. -/
def ladderLoop (k : Nat) (x1 : Int) (s : Ladder) : Nat → Ladder
  | 0 => s
  | t + 1 => ladderLoop k x1 (ladderStep k x1 s t) t

def montgomeryLadder (k : Nat) (u : Int) : Int :=
  let s := ladderLoop k u { x2 := 1, z2 := 0, x3 := u, z3 := 1, swap := 0 } 255
  let s := s.cswap
  mul s.x2 (inv s.z2)

/-! ## Encoding and decoding, little-endian -/

def bytesToBigIntLE (bytes : Bytes) : Nat :=
  bytes.zipIdx.foldl (fun r b => r ||| b.1.toNat <<< (8 * b.2)) 0

def bigIntToBytesLE (x : Nat) : (size : Nat) → Bytes
  | 0 => []
  | size + 1 => UInt8.ofNat (x &&& 0xFF) :: bigIntToBytesLE (x >>> 8) size

/-! ## Scalar clamping and u-coordinate masking -/

def clampScalarBytes (kBytes : Bytes) : Except String Nat :=
  if kBytes.length ≠ 32 then .error "X25519 scalar must be 32 bytes"
  else
    let k := kBytes.modify 0 (· &&& 248)
    let k := k.modify 31 (· &&& 127)
    let k := k.modify 31 (· ||| 64)
    .ok (bytesToBigIntLE k)

def decodeUCoordinateBytes (uBytes : Bytes) : Except String Nat :=
  if uBytes.length ≠ 32 then .error "X25519 u-coordinate must be 32 bytes"
  else
    let u := uBytes.modify 31 (· &&& 0x7F)
    .ok (bytesToBigIntLE u)

/-! ## Public API -/

def x25519 (scalarBytes uBytes : Bytes) : Except String Bytes := do
  let k ← clampScalarBytes scalarBytes
  let u ← decodeUCoordinateBytes uBytes
  let r := montgomeryLadder k u
  return bigIntToBytesLE r.toNat 32

def x25519Base (scalarBytes : Bytes) : Except String Bytes := do
  let k ← clampScalarBytes scalarBytes
  let r := montgomeryLadder k 9
  return bigIntToBytesLE r.toNat 32

end NewZone.X25519
