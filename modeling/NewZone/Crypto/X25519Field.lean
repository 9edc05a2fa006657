import NewZone.Crypto.X25519
import NewZone.Lib.PrimeCertificate
import Mathlib.FieldTheory.Finite.Basic
import Mathlib.Data.Nat.Digits.Defs

/-!
# The field and the byte codecs of X25519

The bigint arithmetic of `lib/x25519.js` is the arithmetic of the field of
`2 ^ 255 - 19` elements.  `prime_p` proves the modulus prime, by Lucas' test
down a chain of factored predecessors.  The `cast_` lemmas then read each
source function in the field, and the `_nonneg` and `_lt` facts say that its
value is the canonical residue, so the field value determines the bigint.

The codecs are the base 256 digits.  `bytesToBigIntLE_eq` names the number
that a byte list spells, and the two round trips follow.
-/

namespace NewZone.X25519

open NewZone.Js NewZone.PrimeCertificate

/-- The field prime as a natural number. -/
def p : ℕ := 2 ^ 255 - 19

theorem P_eq : P = (p : ℤ) := by decide

/-! ## The modulus is prime -/

private theorem prime_2773320623 : Nat.Prime 2773320623 := by
  refine @prime_of_lucas _ 5 32 [2, 2437, 569003] (by decide) (by decide)
    (by decide) ?_ (by decide +kernel) (by decide +kernel)
  norm_num

private theorem prime_72106336199 : Nat.Prime 72106336199 := by
  refine @prime_of_lucas _ 7 37 [2, 13, 2773320623] (by decide) (by decide)
    (by decide) ?_ (by decide +kernel) (by decide +kernel)
  simp only [List.forall_mem_cons]
  refine ⟨by norm_num, by norm_num, prime_2773320623, by simp⟩

private theorem prime_1919519569386763 : Nat.Prime 1919519569386763 := by
  refine @prime_of_lucas _ 2 51 [2, 3, 7, 19, 47, 47, 127, 8574133]
    (by decide) (by decide) (by decide) ?_ (by decide +kernel)
    (by decide +kernel)
  norm_num

private theorem prime_31757755568855353 : Nat.Prime 31757755568855353 := by
  refine @prime_of_lucas _ 10 55 [2, 2, 2, 3, 31, 107, 223, 4153, 430751]
    (by decide) (by decide) (by decide) ?_ (by decide +kernel)
    (by decide +kernel)
  norm_num

private theorem prime_75445702479781427272750846543864801 :
    Nat.Prime 75445702479781427272750846543864801 := by
  refine @prime_of_lucas _ 7 116
    [2, 2, 2, 2, 2, 3, 3, 5, 5, 75707, 72106336199, 1919519569386763]
    (by decide) (by decide) (by decide) ?_ (by decide +kernel)
    (by decide +kernel)
  simp only [List.forall_mem_cons]
  refine ⟨by norm_num, by norm_num, by norm_num, by norm_num, by norm_num,
    by norm_num, by norm_num, by norm_num, by norm_num, by norm_num,
    prime_72106336199, prime_1919519569386763, by simp⟩

private theorem prime_largest_factor : Nat.Prime
    74058212732561358302231226437062788676166966415465897661863160754340907 := by
  refine @prime_of_lucas _ 2 236
    [2, 3, 353, 57467, 132049, 1923133, 31757755568855353,
      75445702479781427272750846543864801]
    (by decide) (by decide) (by decide) ?_ (by decide +kernel)
    (by decide +kernel)
  simp only [List.forall_mem_cons]
  refine ⟨by norm_num, by norm_num, by norm_num, by norm_num, by norm_num,
    by norm_num, prime_31757755568855353,
    prime_75445702479781427272750846543864801, by simp⟩

/-- The modulus of X25519 is prime. -/
theorem prime_p : Nat.Prime p := by
  refine @prime_of_lucas _ 2 255
    [2, 2, 3, 65147,
      74058212732561358302231226437062788676166966415465897661863160754340907]
    (by decide) (by decide) (by decide) ?_ (by decide +kernel)
    (by decide +kernel)
  simp only [List.forall_mem_cons]
  refine ⟨by norm_num, by norm_num, by norm_num, by norm_num,
    prime_largest_factor, by simp⟩

instance : Fact (Nat.Prime p) := ⟨prime_p⟩

/-- The field of X25519. -/
abbrev Fp := ZMod p

/-! ## Field arithmetic -/

theorem mod_eq_emod (a : ℤ) : mod a = a % (p : ℤ) := by
  have hp : (0 : ℤ) < p := by decide
  have hlt := Int.emod_lt_of_pos a hp
  have hnn := Int.emod_nonneg a hp.ne'
  have habs : ((p : ℤ).natAbs : ℤ) = p := by simp
  unfold mod
  rw [P_eq, Int.tmod_eq_emod]
  split_ifs with hsign
  · simp [hnn]
  · rw [habs, if_neg (by omega)]
    omega

theorem mod_nonneg (a : ℤ) : 0 ≤ mod a := by
  rw [mod_eq_emod]
  exact Int.emod_nonneg a (by decide)

theorem mod_lt (a : ℤ) : mod a < p := by
  rw [mod_eq_emod]
  exact Int.emod_lt_of_pos a (by decide)

@[simp] theorem cast_mod (a : ℤ) : ((mod a : ℤ) : Fp) = a := by
  rw [mod_eq_emod, ZMod.intCast_mod]

@[simp] theorem cast_add (a b : ℤ) : ((add a b : ℤ) : Fp) = a + b := by
  rw [add, cast_mod, Int.cast_add]

@[simp] theorem cast_sub (a b : ℤ) : ((sub a b : ℤ) : Fp) = a - b := by
  rw [sub, cast_mod, Int.cast_sub]

@[simp] theorem cast_mul (a b : ℤ) : ((mul a b : ℤ) : Fp) = a * b := by
  rw [mul, cast_mod, Int.cast_mul]

/-- A value that the source has reduced is determined by its field value. -/
theorem eq_of_cast_eq {a b : ℤ} (ha : 0 ≤ a) (ha' : a < p) (hb : 0 ≤ b)
    (hb' : b < p) (h : (a : Fp) = b) : a = b := by
  rw [ZMod.intCast_eq_intCast_iff'] at h
  rwa [Int.emod_eq_of_lt ha ha', Int.emod_eq_of_lt hb hb'] at h

/-- The loop of `inv` is square and multiply.  The induction is the recursion
of the loop, on the exponent that is left. -/
theorem cast_invLoop (r x : ℤ) (e : ℕ) :
    ((invLoop r x e : ℤ) : Fp) = r * (x : Fp) ^ e := by
  fun_induction invLoop r x e with
  | case1 r x e he ih =>
    have hsplit : (x : Fp) ^ e
        = ((x : Fp) * x) ^ (e >>> 1) * (x : Fp) ^ (e % 2) := by
      rw [← pow_two, ← pow_mul, ← pow_add, Nat.shiftRight_eq_div_pow]
      congr 1
      omega
    simp only [dite_eq_ite] at ih
    rw [ih, cast_mul, hsplit]
    simp only [Nat.and_one_is_mod]
    split_ifs with hodd
    · rw [cast_mul, hodd, pow_one]
      ring
    · have heven : e % 2 = 0 := by omega
      rw [heven, pow_zero, mul_one]
  | case2 r x e he =>
    obtain rfl : e = 0 := by omega
    rw [pow_zero, mul_one]

/-- Fermat's inverse. -/
theorem pow_sub_two_eq_inv (z : Fp) : z ^ (p - 2) = z⁻¹ := by
  by_cases hz : z = 0
  · rw [hz, inv_zero, zero_pow (by decide)]
  · apply eq_inv_of_mul_eq_one_left
    have hsucc : p - 2 + 1 = p - 1 := by decide
    rw [← pow_succ, hsucc, ZMod.pow_card_sub_one_eq_one hz]

/-- `inv` is the inverse of the field, with `0` for `0`. -/
@[simp] theorem cast_inv (a : ℤ) : ((inv a : ℤ) : Fp) = (a : Fp)⁻¹ := by
  have hexp : P.toNat - 2 = p - 2 := by
    rw [P_eq]
    rfl
  rw [inv, cast_invLoop, cast_mod, Int.cast_one, one_mul, hexp, pow_sub_two_eq_inv]

theorem mul_range (a b : ℤ) : 0 ≤ mul a b ∧ mul a b < p :=
  ⟨mod_nonneg (a * b), mod_lt (a * b)⟩

/-- An accumulator that starts as a canonical residue stays one. -/
theorem invLoop_range (r x : ℤ) (e : ℕ) (hr : 0 ≤ r ∧ r < p) :
    0 ≤ invLoop r x e ∧ invLoop r x e < p := by
  fun_induction invLoop r x e with
  | case1 r x e he ih =>
    simp only [dite_eq_ite] at ih
    apply ih
    split_ifs
    · exact mul_range r x
    · exact hr
  | case2 r x e he => exact hr

theorem inv_range (a : ℤ) : 0 ≤ inv a ∧ inv a < p :=
  invLoop_range 1 (mod a) (P.toNat - 2) (by decide)

theorem cast_eq_zero_iff (a : ℤ) : (a : Fp) = 0 ↔ (p : ℤ) ∣ a :=
  ZMod.intCast_zmod_eq_zero_iff_dvd a p

theorem inv_eq_pow (a : ℤ) : inv a = a ^ (p - 2) % p := by
  have hp : (0 : ℤ) < p := by decide
  apply eq_of_cast_eq (inv_range a).1 (inv_range a).2
    (Int.emod_nonneg _ hp.ne') (Int.emod_lt_of_pos _ hp)
  rw [cast_inv, ZMod.intCast_mod, Int.cast_pow, pow_sub_two_eq_inv]

theorem mul_inv_eq_one (a : ℤ) (ha : ¬ (p : ℤ) ∣ a) : mul a (inv a) = 1 := by
  have hne : (a : Fp) ≠ 0 := fun hzero => ha ((cast_eq_zero_iff a).mp hzero)
  have hrange := mul_range a (inv a)
  apply eq_of_cast_eq hrange.1 hrange.2 (by decide) (by decide)
  rw [cast_mul, cast_inv, mul_inv_cancel₀ hne, Int.cast_one]

theorem inv_eq_zero (a : ℤ) (ha : (p : ℤ) ∣ a) : inv a = 0 := by
  apply eq_of_cast_eq (inv_range a).1 (inv_range a).2 le_rfl (by decide)
  rw [cast_inv, (cast_eq_zero_iff a).mpr ha, inv_zero, Int.cast_zero]

/-- `inv` inverts in the field and gives a canonical residue, for a bigint of
either sign. -/
theorem inv_correct (a : ℤ) :
    0 ≤ inv a ∧ inv a < p ∧ inv a = a ^ (p - 2) % p
      ∧ (¬ (p : ℤ) ∣ a → mul a (inv a) = 1) ∧ ((p : ℤ) ∣ a → inv a = 0) :=
  ⟨(inv_range a).1, (inv_range a).2, inv_eq_pow a, mul_inv_eq_one a,
    inv_eq_zero a⟩

/-! ## The little-endian codecs -/

/-- The number that a byte list spells in base 256, least significant first. -/
def leValue (bytes : Bytes) : ℕ := Nat.ofDigits 256 (bytes.map UInt8.toNat)

theorem leValue_cons (b : UInt8) (bs : Bytes) :
    leValue (b :: bs) = b.toNat + 256 * leValue bs := rfl

theorem leValue_append (xs ys : Bytes) :
    leValue (xs ++ ys) = leValue xs + 256 ^ xs.length * leValue ys := by
  simp [leValue, Nat.ofDigits_append]

/-- The `for` loop of `bytesToBigIntLE` from the index `j` on. -/
private theorem foldl_zipIdx (bs : Bytes) :
    ∀ (j r : ℕ),
      (bs.zipIdx j).foldl (fun r b => r ||| b.1.toNat <<< (8 * b.2)) r
        = r ||| leValue bs <<< (8 * j) := by
  induction bs with
  | nil =>
    intro j r
    simp [leValue]
  | cons b bs ih =>
    intro j r
    have hb : b.toNat < 2 ^ 8 := b.toNat_lt
    have hval : leValue (b :: bs) = leValue bs <<< 8 ||| b.toNat := by
      rw [leValue_cons, ← Nat.shiftLeft_add_eq_or_of_lt hb, Nat.shiftLeft_eq]
      omega
    rw [List.zipIdx_cons, List.foldl_cons, ih, hval, Nat.shiftLeft_or_distrib,
      ← Nat.shiftLeft_add, Nat.or_assoc]
    congr 1
    rw [Nat.or_comm]
    congr 2
    omega

theorem bytesToBigIntLE_eq (bytes : Bytes) :
    bytesToBigIntLE bytes = leValue bytes := by
  rw [bytesToBigIntLE, foldl_zipIdx, Nat.zero_or, Nat.mul_zero,
    Nat.shiftLeft_zero]

theorem leValue_lt (bytes : Bytes) : leValue bytes < 256 ^ bytes.length := by
  induction bytes with
  | nil => simp [leValue]
  | cons b bs ih =>
    have hb : b.toNat < 256 := b.toNat_lt
    rw [leValue_cons, List.length_cons, pow_succ]
    omega

@[simp] theorem length_bigIntToBytesLE (x size : ℕ) :
    (bigIntToBytesLE x size).length = size := by
  induction size generalizing x with
  | zero => rfl
  | succ size ih => rw [bigIntToBytesLE, List.length_cons, ih]

theorem bigIntToBytesLE_succ (x size : ℕ) :
    bigIntToBytesLE x (size + 1)
      = UInt8.ofNat (x % 256) :: bigIntToBytesLE (x / 256) size := by
  have hand : x &&& 0xFF = x % 256 := Nat.and_two_pow_sub_one_eq_mod x 8
  rw [bigIntToBytesLE, hand, Nat.shiftRight_eq_div_pow]

/-- Writing a number and reading it back reduces it to the bytes written. -/
theorem leValue_bigIntToBytesLE (x size : ℕ) :
    leValue (bigIntToBytesLE x size) = x % 256 ^ size := by
  induction size generalizing x with
  | zero =>
    rw [pow_zero, Nat.mod_one]
    rfl
  | succ size ih =>
    have hbyte : (UInt8.ofNat (x % 256)).toNat = x % 256 :=
      UInt8.toNat_ofNat_of_lt' (Nat.mod_lt x (by decide))
    rw [bigIntToBytesLE_succ, leValue_cons, ih, hbyte, pow_succ', Nat.mod_mul]

/-- Reading a byte list and writing it back gives the same bytes. -/
theorem bigIntToBytesLE_leValue (bytes : Bytes) :
    bigIntToBytesLE (leValue bytes) bytes.length = bytes := by
  induction bytes with
  | nil => rfl
  | cons b bs ih =>
    have hb : b.toNat < 256 := b.toNat_lt
    have hmod : leValue (b :: bs) % 256 = b.toNat := by
      rw [leValue_cons]
      omega
    have hdiv : leValue (b :: bs) / 256 = leValue bs := by
      rw [leValue_cons]
      omega
    rw [List.length_cons, bigIntToBytesLE_succ, hmod, hdiv, ih,
      UInt8.ofNat_toNat]

/-- The two codecs are inverse.  A number that does not fit its size loses the
digits above it. -/
theorem codecs_inverse :
    (∀ bytes, bigIntToBytesLE (bytesToBigIntLE bytes) bytes.length = bytes)
      ∧ ∀ x size,
        bytesToBigIntLE (bigIntToBytesLE x size) = x % 2 ^ (8 * size)
          ∧ (bigIntToBytesLE x size).length = size := by
  refine ⟨fun bytes => ?_, fun x size => ⟨?_, length_bigIntToBytesLE x size⟩⟩
  · rw [bytesToBigIntLE_eq, bigIntToBytesLE_leValue]
  · have hbase : 2 ^ (8 * size) = 256 ^ size := by
      rw [pow_mul]
      norm_num
    rw [bytesToBigIntLE_eq, leValue_bigIntToBytesLE, hbase]

end NewZone.X25519
