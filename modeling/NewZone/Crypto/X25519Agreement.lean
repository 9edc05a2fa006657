import NewZone.Crypto.X25519Field
import NewZone.Lib.MontgomeryCurve

/-!
# X25519 computes multiples of a point

`lib/x25519.js` against the group law of Curve25519.  The lazy swap of the
source keeps the two rungs of the textbook ladder in the two slots, in the
order that the last bit says.  `rungs` undoes the swap, and `rungs_ladderStep`
is the simulation: one iteration of the source is one textbook step in the
field.  The loop follows by induction, and `cast_montgomeryLadder` states what
the whole function returns, for every point and every scalar.

Agreement is then commutativity of the group.  It needs no fact about the
order of the base point: a point at infinity is encoded as `0`, decoded as the
`x` coordinate `0`, and the ladder answers `0` on it.
-/

namespace NewZone.X25519

open NewZone.Js NewZone.MontgomeryCurve WeierstrassCurve

/-! ## Curve25519 -/

/-- The coefficient of Curve25519. -/
abbrev A : Fp := 486662

theorem two_ne_zero_Fp : (2 : Fp) ≠ 0 := by decide

theorem A_eq : A = 4 * ((A24 : ℤ) : Fp) + 2 := by decide

theorem A_sq_ne_four : A ^ 2 ≠ 4 := by decide

/-- The `y` coordinate of the base point. -/
def baseY : Fp :=
  14781619447589544791020593568409986887264606134616475288964881837755586237401

theorem base_nonsingular : (curve A).Nonsingular 9 baseY := by
  rw [Affine.nonsingular_iff]
  refine ⟨equation_iff.mpr (by decide +kernel), Or.inr ?_⟩
  simp only [curve]
  decide +kernel

/-- The base point of X25519. -/
def basePoint : Point A := Affine.Point.some 9 baseY base_nonsingular

/-! ## The source ladder simulates the textbook ladder -/

/-- The rungs that the slots of the source hold, read in the field.  The slot
`x2, z2` holds the rung of the last bit. -/
def rungs (s : Ladder) : Rungs Fp :=
  if s.swap = 0 then ⟨((s.x2 : Fp), (s.z2 : Fp)), ((s.x3 : Fp), (s.z3 : Fp))⟩
  else ⟨((s.x3 : Fp), (s.z3 : Fp)), ((s.x2 : Fp), (s.z2 : Fp))⟩

theorem ladderStep_swap (k : ℕ) (x1 : ℤ) (s : Ladder) (t : ℕ) :
    (X25519.ladderStep k x1 s t).swap = (k.testBit t).toNat := by
  show k >>> t &&& 1 = _
  rw [Nat.and_one_is_mod, Nat.shiftRight_eq_div_pow, Nat.toNat_testBit]

/-- One iteration of the source is one step of the textbook ladder.  The cases
are the previous bit, which the slots still show, and the bit being read. -/
theorem rungs_ladderStep (k : ℕ) (x1 : ℤ) (s : Ladder) (t : ℕ)
    (hswap : s.swap < 2) :
    rungs (X25519.ladderStep k x1 s t)
      = MontgomeryCurve.ladderStep ((A24 : ℤ) : Fp) (x1 : Fp) (k.testBit t)
          (rungs s) := by
  have hkt : k >>> t &&& 1 = (k.testBit t).toNat := ladderStep_swap k x1 s t
  have hprev : s.swap = 0 ∨ s.swap = 1 := by omega
  unfold X25519.ladderStep
  rw [hkt]
  cases hbit : k.testBit t <;> rcases hprev with hs | hs <;>
    simp only [rungs, MontgomeryCurve.ladderStep, Ladder.cswap, Ladder.arith,
      hs, Bool.toNat_false, Bool.toNat_true, Nat.xor_self, Nat.xor_zero,
      Nat.zero_xor, one_ne_zero, if_true, if_false, Bool.false_eq_true,
      cast_mul, cast_add, cast_sub, double, diffAdd, Rungs.mk.injEq,
      Prod.mk.injEq, and_true]
  -- What is left are the two iterations that swap: the sum reads its summands
  -- in the other order.
  all_goals constructor <;> ring

theorem rungs_ladderLoop (k : ℕ) (x1 : ℤ) :
    ∀ (t : ℕ) (s : Ladder), s.swap < 2 →
      rungs (X25519.ladderLoop k x1 s t)
        = MontgomeryCurve.ladderLoop ((A24 : ℤ) : Fp) (x1 : Fp) k (rungs s) t := by
  intro t
  induction t with
  | zero =>
    intro s _
    rfl
  | succ t ih =>
    intro s hs
    have hswap : (X25519.ladderStep k x1 s t).swap < 2 := by
      rw [ladderStep_swap]
      exact Bool.toNat_lt _
    show rungs (X25519.ladderLoop k x1 (X25519.ladderStep k x1 s t) t) = _
    rw [ih _ hswap, rungs_ladderStep k x1 s t hs]
    rfl

/-- The last swap puts the left rung into the first slot. -/
theorem rungs_left_eq_cswap (s : Ladder) :
    (rungs s).R₀ = ((s.cswap.x2 : Fp), (s.cswap.z2 : Fp)) := by
  unfold rungs Ladder.cswap
  split_ifs <;> rfl

/-- `montgomeryLadder` on the `x` coordinate of a point returns the `x`
coordinate of its multiple by the 255 bits of the scalar. -/
theorem cast_montgomeryLadder (k : ℕ) (u : ℤ) (Q : Point A)
    (hu : (u : Fp) = xCoord Q) :
    ((montgomeryLadder k u : ℤ) : Fp) = xCoord ((k % 2 ^ 255) • Q) := by
  have hloop := rungs_ladderLoop k u 255
    { x2 := 1, z2 := 0, x3 := u, z3 := 1, swap := 0 } Nat.zero_lt_two
  have hinit : rungs { x2 := 1, z2 := 0, x3 := u, z3 := 1, swap := 0 }
      = ladderInit (xCoord Q) := by
    simp [rungs, ladderInit, hu]
  have hquot := @ladder_quotient Fp _ A _ ((A24 : ℤ) : Fp) Q k 254
    two_ne_zero_Fp A_eq A_sq_ne_four
  rw [hinit, hu] at hloop
  have hleft := rungs_left_eq_cswap
    (X25519.ladderLoop k u { x2 := 1, z2 := 0, x3 := u, z3 := 1, swap := 0 } 255)
  rw [hloop] at hleft
  rw [hleft] at hquot
  rw [montgomeryLadder, cast_mul, cast_inv]
  exact hquot

theorem montgomeryLadder_nonneg (k : ℕ) (u : ℤ) : 0 ≤ montgomeryLadder k u :=
  mod_nonneg _

theorem montgomeryLadder_lt (k : ℕ) (u : ℤ) : montgomeryLadder k u < p :=
  mod_lt _

/-! ## The public functions -/

/-- Clearing bit 255 of 32 bytes reduces their number to 255 bits. -/
theorem leValue_modify_and (bytes : Bytes) (hlen : bytes.length = 32) :
    leValue (bytes.modify 31 (· &&& 0x7F)) = leValue bytes % 2 ^ 255 := by
  obtain ⟨front, last, rfl⟩ : ∃ front last, bytes = front ++ [last] :=
    ⟨_, _, (List.dropLast_append_getLast (by
      intro h
      rw [h] at hlen
      exact absurd hlen (by decide))).symm⟩
  have hfront : front.length = 31 := by simpa using hlen
  have hmod : (front ++ [last]).modify 31 (· &&& 0x7F)
      = front ++ [last &&& 0x7F] := by
    rw [List.modify_eq_take_cons_drop (by simp [hfront])]
    simp [← hfront]
  have happ : ∀ b : UInt8,
      leValue (front ++ [b]) = leValue front + 256 ^ 31 * b.toNat := by
    intro b
    rw [leValue_append, hfront]
    simp [leValue]
  have hand : (last &&& 0x7F).toNat = last.toNat % 128 := by
    rw [UInt8.toNat_and]
    exact Nat.and_two_pow_sub_one_eq_mod _ 7
  have hlt := leValue_lt front
  rw [hfront] at hlt
  have hlast : last.toNat < 256 := last.toNat_lt
  rw [hmod, happ, happ, hand]
  omega

/-- A 32-byte encoding of a residue is decoded to that residue. -/
theorem decodeUCoordinateBytes_encode {x : ℕ} (hx : x < p) :
    decodeUCoordinateBytes (bigIntToBytesLE x 32) = .ok x := by
  have hlen : (bigIntToBytesLE x 32).length = 32 := length_bigIntToBytesLE x 32
  have hx255 : x < 2 ^ 255 := lt_of_lt_of_le hx (by decide)
  have h256 : (256 : ℕ) ^ 32 = 2 ^ 256 := by norm_num
  rw [decodeUCoordinateBytes, if_neg (not_not.mpr hlen)]
  dsimp only
  rw [bytesToBigIntLE_eq,
    leValue_modify_and _ hlen, leValue_bigIntToBytesLE, h256,
    Nat.mod_eq_of_lt (lt_trans hx255 (by norm_num)), Nat.mod_eq_of_lt hx255]

theorem exists_clampScalarBytes {k : Bytes} (hk : k.length = 32) :
    ∃ n, clampScalarBytes k = .ok n :=
  ⟨_, if_neg (not_not.mpr hk)⟩

theorem x25519Base_eq {k : Bytes} {n : ℕ} (h : clampScalarBytes k = .ok n) :
    x25519Base k = .ok (bigIntToBytesLE (montgomeryLadder n 9).toNat 32) := by
  rw [x25519Base, h]
  rfl

theorem x25519_eq {k u : Bytes} {n x : ℕ} (hk : clampScalarBytes k = .ok n)
    (hu : decodeUCoordinateBytes u = .ok x) :
    x25519 k u = .ok (bigIntToBytesLE (montgomeryLadder n x).toNat 32) := by
  rw [x25519, hk, hu]
  rfl

/-- The public key of a 32-byte secret is 32 bytes. -/
theorem exists_x25519Base {k : Bytes} (hk : k.length = 32) :
    ∃ pub, x25519Base k = .ok pub ∧ pub.length = 32 := by
  obtain ⟨n, hn⟩ := exists_clampScalarBytes hk
  exact ⟨_, x25519Base_eq hn, length_bigIntToBytesLE _ _⟩

/-- X25519 of two 32-byte inputs is 32 bytes. -/
theorem exists_x25519 {k u : Bytes} (hk : k.length = 32) (hu : u.length = 32) :
    ∃ out, x25519 k u = .ok out ∧ out.length = 32 := by
  obtain ⟨n, hn⟩ := exists_clampScalarBytes hk
  exact ⟨_, x25519_eq hn (if_neg (not_not.mpr hu)), length_bigIntToBytesLE _ _⟩

/-- X25519 of a public key is the encoding of a multiple of the base point. -/
theorem x25519_of_base {a b : Bytes} {m n : ℕ} {pub : Bytes}
    (ha : clampScalarBytes a = .ok m) (hb : clampScalarBytes b = .ok n)
    (hpub : x25519Base b = .ok pub) :
    ∃ r : ℤ, 0 ≤ r ∧ r < p ∧ x25519 a pub = .ok (bigIntToBytesLE r.toNat 32) ∧
      (r : Fp) = xCoord ((m % 2 ^ 255) • (n % 2 ^ 255) • basePoint) := by
  rw [x25519Base_eq hb] at hpub
  obtain rfl := Except.ok.inj hpub
  have hcast := cast_montgomeryLadder n 9 basePoint (by rfl)
  have hnn := montgomeryLadder_nonneg n 9
  have hto : ((montgomeryLadder n 9).toNat : ℤ) = montgomeryLadder n 9 :=
    Int.toNat_of_nonneg hnn
  have hlt : (montgomeryLadder n 9).toNat < p := by
    have := montgomeryLadder_lt n 9
    omega
  refine ⟨_, montgomeryLadder_nonneg _ _, montgomeryLadder_lt _ _,
    x25519_eq ha (decodeUCoordinateBytes_encode hlt), ?_⟩
  apply cast_montgomeryLadder m _ _
  rw [hto, hcast]

/-- **Agreement of X25519.**  Both parties compute the same 32 bytes from
their own secret and the public key of the other. -/
theorem x25519_agree {a b pubA pubB : Bytes} (ha : a.length = 32)
    (hb : b.length = 32) (hA : x25519Base a = .ok pubA)
    (hB : x25519Base b = .ok pubB) :
    x25519 a pubB = x25519 b pubA := by
  obtain ⟨m, hm⟩ := exists_clampScalarBytes ha
  obtain ⟨n, hn⟩ := exists_clampScalarBytes hb
  obtain ⟨r, hr0, hrp, hr, hrc⟩ := x25519_of_base hm hn hB
  obtain ⟨s, hs0, hsp, hs, hsc⟩ := x25519_of_base hn hm hA
  have hrs : r = s := by
    apply eq_of_cast_eq hr0 hrp hs0 hsp
    rw [hrc, hsc, smul_smul, smul_smul, Nat.mul_comm]
  rw [hr, hs, hrs]

end NewZone.X25519
