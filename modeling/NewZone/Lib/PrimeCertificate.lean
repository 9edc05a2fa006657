import Mathlib.NumberTheory.LucasPrimality
import Mathlib.Tactic.NormNum.Prime
import Mathlib.Tactic.Ring

/-!
# Primality from a factored predecessor

Lucas' test proves a number prime from a primitive root and the prime factors
of its predecessor.  For a cryptographic modulus the powers have exponents of
hundreds of bits, so they are evaluated by repeated squaring: `powMod` is the
evaluator, `powMod_eq` says that it computes the power, and
`prime_of_lucas` is the test with both of its side conditions in a form that
the kernel decides.
-/

namespace NewZone.PrimeCertificate

/-- `a ^ e % m` by repeated squaring, for exponents of at most `fuel` bits. -/
def powMod (a m : ℕ) : ℕ → ℕ → ℕ
  | 0, _ => 1 % m
  | fuel + 1, e =>
    let half := powMod a m fuel (e / 2)
    if e % 2 = 1 then half * half % m * a % m else half * half % m

theorem powMod_eq (a m : ℕ) :
    ∀ (fuel e : ℕ), e < 2 ^ fuel → powMod a m fuel e = a ^ e % m := by
  intro fuel
  induction fuel with
  | zero =>
    intro e he
    obtain rfl : e = 0 := by omega
    rw [powMod, pow_zero]
  | succ fuel ih =>
    intro e he
    have hhalf := ih (e / 2) (by rw [pow_succ] at he; omega)
    rw [powMod, hhalf]
    split_ifs with hodd
    · have hpow : a ^ e = a ^ (e / 2) * a ^ (e / 2) * a := by
        rw [← pow_add, ← pow_succ]
        congr 1
        omega
      rw [hpow]
      simp only [Nat.mul_mod, Nat.mod_mod]
    · have hpow : a ^ e = a ^ (e / 2) * a ^ (e / 2) := by
        rw [← pow_add]
        congr 1
        omega
      rw [hpow]
      simp only [Nat.mul_mod, Nat.mod_mod]

/-- A power in `ZMod m` is `1` exactly when its evaluation is `1`. -/
theorem natCast_pow_eq_one_iff {a m fuel e : ℕ} (hm : 1 < m)
    (he : e < 2 ^ fuel) :
    (a : ZMod m) ^ e = 1 ↔ powMod a m fuel e = 1 := by
  have hcast : (a : ZMod m) ^ e = ((a ^ e : ℕ) : ZMod m) := by push_cast; rfl
  have hone : (1 : ZMod m) = ((1 : ℕ) : ZMod m) := by push_cast; rfl
  rw [hcast, hone, ZMod.natCast_eq_natCast_iff', powMod_eq a m fuel e he,
    Nat.mod_eq_of_lt hm]

/-- Lucas' test.  `factors` lists the prime factors of `p - 1`, with
repetitions, and `a` is a primitive root; the two power conditions are
decidable by evaluation. -/
theorem prime_of_lucas {p a fuel : ℕ} {factors : List ℕ} (hp : 1 < p)
    (hfuel : p ≤ 2 ^ fuel) (hprod : factors.prod = p - 1)
    (hprime : ∀ q ∈ factors, q.Prime)
    (hfermat : powMod a p fuel (p - 1) = 1)
    (horder : ∀ q ∈ factors, powMod a p fuel ((p - 1) / q) ≠ 1) :
    p.Prime := by
  refine lucas_primality p (a : ZMod p) ?_ ?_
  · exact (natCast_pow_eq_one_iff hp (by omega)).mpr hfermat
  · intro q hq hdvd
    have hmem : q ∈ factors := by
      rw [← hprod] at hdvd
      obtain ⟨r, hr, hqr⟩ := (Nat.Prime.prime hq).dvd_prod_iff.mp hdvd
      rw [(Nat.prime_dvd_prime_iff_eq hq (hprime r hr)).mp hqr]
      exact hr
    have hlt : (p - 1) / q < 2 ^ fuel :=
      lt_of_le_of_lt (Nat.div_le_self _ _) (by omega)
    exact fun h => horder q hmem ((natCast_pow_eq_one_iff hp hlt).mp h)

end NewZone.PrimeCertificate
