import Mathlib.AlgebraicGeometry.EllipticCurve.Affine.Point
import Mathlib.Tactic.LinearCombination
import Mathlib.Tactic.FieldSimp

/-!
# x-only arithmetic on a Montgomery curve

The curve `y² = x³ + A x² + x` over a field is a Weierstrass curve, so its
points form a group in Mathlib.  A Montgomery ladder never sees a `y`: it
works on pairs `(X : Z)` that stand for the `x` coordinate `X / Z` of a point.
This file says what such a pair stands for and proves the two formulas of the
ladder against the group law.

There are four groups.

* The curve, its points, and `xCoord`, the `x` coordinate with the convention
  that the point at infinity reads as `0`.
* `Represents`, the relation between a pair and the point it stands for.
* `double` and `diffAdd`, the doubling and the differential addition.
  `double_represents` and `diffAdd_represents` are the two theorems, and every
  exceptional case of the group law is inside them.
* The ladder.  `ladderStep` and `ladderLoop` are the textbook ladder on pairs,
  `LadderInv` is its loop invariant, and `ladder_quotient` reads the `x`
  coordinate of a multiple off its result.  When the fixed difference has
  `x = 0` the differential addition is worthless, and `Degenerate` is the
  invariant that survives instead.
-/

namespace NewZone.MontgomeryCurve

open WeierstrassCurve

variable {F : Type*} [Field F] {A : F}

/-- The curve `y² = x³ + A x² + x`. -/
def curve (A : F) : Affine F where
  a₁ := 0
  a₂ := A
  a₃ := 0
  a₄ := 1
  a₆ := 0

/-- The group of points, the point at infinity included. -/
abbrev Point (A : F) := (curve A).Point

theorem equation_iff {x y : F} :
    (curve A).Equation x y ↔ y ^ 2 = x ^ 3 + A * x ^ 2 + x := by
  rw [Affine.equation_iff]
  simp [curve]

@[simp] theorem negY_eq (x y : F) : (curve A).negY x y = -y := by
  simp [Affine.negY, curve]

@[simp] theorem addX_eq (x₁ x₂ l : F) :
    (curve A).addX x₁ x₂ l = l ^ 2 - A - x₁ - x₂ := by
  simp [Affine.addX, curve]

/-- The `x` coordinate of a point, with `0` for the point at infinity. -/
def xCoord : Point A → F
  | .zero => 0
  | .some x _ _ => x

/-! ## What a pair stands for -/

/-- The pair `(X : Z)` stands for the point: it is `(x : 1)` up to scale for a
finite point and `(1 : 0)` up to scale for the point at infinity. -/
def Represents (X Z : F) : Point A → Prop
  | .zero => X ≠ 0 ∧ Z = 0
  | .some x _ _ => Z ≠ 0 ∧ X = x * Z

@[simp] theorem represents_zero {X Z : F} :
    Represents X Z (0 : Point A) ↔ X ≠ 0 ∧ Z = 0 := Iff.rfl

@[simp] theorem represents_some {X Z x y : F}
    (h : (curve A).Nonsingular x y) :
    Represents X Z (Affine.Point.some x y h) ↔ Z ≠ 0 ∧ X = x * Z := Iff.rfl

/-- Reading the quotient off a pair gives the `x` coordinate.  Division by
zero is zero in a field of Mathlib, which is the convention of `xCoord`. -/
theorem Represents.div_eq {X Z : F} {Q : Point A} (h : Represents X Z Q) :
    X * Z⁻¹ = xCoord Q := by
  rcases Q with _ | ⟨x, y, hxy⟩
  · obtain ⟨_, rfl⟩ := h
    simp [xCoord]
  · obtain ⟨hZ, rfl⟩ := h
    rw [mul_assoc, mul_inv_cancel₀ hZ, mul_one]
    rfl

/-! ## The two formulas -/

/-- The doubling of the ladder, with `a24 = (A - 2) / 4`. -/
def double (a24 X Z : F) : F × F :=
  let AA := (X + Z) * (X + Z)
  let BB := (X - Z) * (X - Z)
  let E := AA - BB
  (AA * BB, E * (AA + a24 * E))

/-- The differential addition of the ladder, with fixed difference `u`. -/
def diffAdd (u X₂ Z₂ X₃ Z₃ : F) : F × F :=
  let DA := (X₃ - Z₃) * (X₂ + Z₂)
  let CB := (X₃ + Z₃) * (X₂ - Z₂)
  ((DA + CB) * (DA + CB), u * ((DA - CB) * (DA - CB)))

theorem double_fst (a24 X Z : F) :
    (double a24 X Z).1 = (X ^ 2 - Z ^ 2) ^ 2 := by
  unfold double
  ring

theorem double_snd {a24 : F} (hA : A = 4 * a24 + 2) (X Z : F) :
    (double a24 X Z).2 = 4 * X * Z * (X ^ 2 + A * X * Z + Z ^ 2) := by
  unfold double
  rw [hA]
  ring

theorem diffAdd_fst (u X₂ Z₂ X₃ Z₃ : F) :
    (diffAdd u X₂ Z₂ X₃ Z₃).1 = 4 * (X₂ * X₃ - Z₂ * Z₃) ^ 2 := by
  unfold diffAdd
  ring

theorem diffAdd_snd (u X₂ Z₂ X₃ Z₃ : F) :
    (diffAdd u X₂ Z₂ X₃ Z₃).2 = 4 * u * (X₃ * Z₂ - X₂ * Z₃) ^ 2 := by
  unfold diffAdd
  ring

section GroupLaw

variable [DecidableEq F]

/-- A point with `y = 0` is its own negative. -/
theorem some_add_self_of_y_eq_zero {x : F} (h : (curve A).Nonsingular x 0) :
    Affine.Point.some x 0 h + Affine.Point.some x 0 h = 0 :=
  Affine.Point.add_self_of_Y_eq (by rw [negY_eq, neg_zero])

/-- The double of a finite point with `y ≠ 0` is finite, and its `x`
coordinate is given by the doubling formula without a division. -/
theorem exists_double {x y : F} (h2 : (2 : F) ≠ 0)
    (h : (curve A).Nonsingular x y) (hy : y ≠ 0) :
    ∃ (s t : F) (hst : (curve A).Nonsingular s t),
      Affine.Point.some x y h + Affine.Point.some x y h
        = Affine.Point.some s t hst ∧
      s * (4 * y ^ 2) = (x ^ 2 - 1) ^ 2 := by
  have hyn : y ≠ (curve A).negY x y := by
    rw [negY_eq]
    intro he
    have h2y : 2 * y = 0 := by linear_combination he
    exact hy ((mul_eq_zero.mp h2y).resolve_left h2)
  refine ⟨_, _, _, Affine.Point.add_self_of_Y_ne hyn, ?_⟩
  have hslope : (curve A).slope x x y y
      = (3 * x ^ 2 + 2 * A * x + 1) / (2 * y) := by
    rw [Affine.slope_of_Y_ne rfl hyn, negY_eq]
    simp only [curve]
    congr 1 <;> ring
  have heq : y ^ 2 = x ^ 3 + A * x ^ 2 + x := equation_iff.mp h.1
  rw [addX_eq, hslope]
  field_simp
  linear_combination (-16 * A - 32 * x) * heq

/-- The sum and the difference of two finite points with different `x`
coordinates are finite, and their `x` coordinates have the product that the
differential addition rests on. -/
theorem exists_add_sub {x₁ y₁ x₂ y₂ : F} (h₁ : (curve A).Nonsingular x₁ y₁)
    (h₂ : (curve A).Nonsingular x₂ y₂) (hx : x₁ ≠ x₂) :
    ∃ (s t : F) (hst : (curve A).Nonsingular s t)
      (d e : F) (hde : (curve A).Nonsingular d e),
      Affine.Point.some x₁ y₁ h₁ + Affine.Point.some x₂ y₂ h₂
        = Affine.Point.some s t hst ∧
      Affine.Point.some x₁ y₁ h₁ - Affine.Point.some x₂ y₂ h₂
        = Affine.Point.some d e hde ∧
      s * d * (x₁ - x₂) ^ 2 = (x₁ * x₂ - 1) ^ 2 := by
  have hsub : Affine.Point.some x₁ y₁ h₁ - Affine.Point.some x₂ y₂ h₂
      = Affine.Point.some x₁ y₁ h₁
        + Affine.Point.some _ _ ((Affine.nonsingular_neg x₂ y₂).mpr h₂) := by
    rw [sub_eq_add_neg, Affine.Point.neg_some]
  refine ⟨_, _, _, _, _, _, Affine.Point.add_of_X_ne hx,
    hsub.trans (Affine.Point.add_of_X_ne hx), ?_⟩
  have hd : x₁ - x₂ ≠ 0 := sub_ne_zero.mpr hx
  have heq₁ : y₁ ^ 2 = x₁ ^ 3 + A * x₁ ^ 2 + x₁ := equation_iff.mp h₁.1
  have heq₂ : y₂ ^ 2 = x₂ ^ 3 + A * x₂ ^ 2 + x₂ := equation_iff.mp h₂.1
  rw [addX_eq, addX_eq, Affine.slope_of_X_ne hx, Affine.slope_of_X_ne hx,
    negY_eq]
  field_simp
  -- The product of the two numerators only sees `y₁ ^ 2` and `y₂ ^ 2`.
  linear_combination
    (y₁ ^ 2 - y₂ ^ 2 + (x₁ ^ 3 + A * x₁ ^ 2 + x₁) - (x₂ ^ 3 + A * x₂ ^ 2 + x₂)
        - 2 * (x₁ - x₂) ^ 2 * (A + x₁ + x₂)) * heq₁
      + (-(y₁ ^ 2 - y₂ ^ 2) - (x₁ ^ 3 + A * x₁ ^ 2 + x₁)
        + (x₂ ^ 3 + A * x₂ ^ 2 + x₂)
        - 2 * (x₁ - x₂) ^ 2 * (A + x₁ + x₂)) * heq₂

/-- The doubling stands for the double of the point, also at infinity and at
the points of order two. -/
theorem double_represents {a24 X Z : F} {Q : Point A} (h2 : (2 : F) ≠ 0)
    (hA : A = 4 * a24 + 2) (hA4 : A ^ 2 ≠ 4) (h : Represents X Z Q) :
    Represents (double a24 X Z).1 (double a24 X Z).2 (Q + Q) := by
  rw [double_fst, double_snd hA]
  rcases Q with _ | ⟨x, y, hxy⟩
  · obtain ⟨hX, rfl⟩ := h
    show Represents _ _ ((0 : Point A) + 0)
    rw [add_zero, represents_zero]
    exact ⟨by simpa using hX, by ring⟩
  · obtain ⟨hZ, rfl⟩ := h
    have heq : y ^ 2 = x ^ 3 + A * x ^ 2 + x := equation_iff.mp hxy.1
    by_cases hy : y = 0
    · subst hy
      rw [some_add_self_of_y_eq_zero, represents_zero]
      have hx0 : x * (x ^ 2 + A * x + 1) = 0 := by linear_combination -heq
      constructor
      · -- At `x = ±1` the curve equation would read `A = ∓2`.
        intro hX
        have hx1 : x ^ 2 = 1 := by
          have hXZ : (x ^ 2 - 1) * Z ^ 2 = 0 := by
            have := (pow_eq_zero_iff two_ne_zero).mp hX
            linear_combination this
          have := (mul_eq_zero.mp hXZ).resolve_right (pow_ne_zero 2 hZ)
          linear_combination this
        have hAx : A = -2 * x := by
          linear_combination hx0 - (x + A) * hx1
        apply hA4
        rw [hAx]
        linear_combination 4 * hx1
      · linear_combination 4 * Z ^ 4 * hx0
    · obtain ⟨s, t, hst, hsum, hs⟩ := exists_double h2 hxy hy
      rw [hsum, represents_some]
      have hZ2 : 4 * (x * Z) * Z * ((x * Z) ^ 2 + A * (x * Z) * Z + Z ^ 2)
          = 4 * y ^ 2 * Z ^ 4 := by
        linear_combination -4 * Z ^ 4 * heq
      rw [hZ2]
      constructor
      · have h4 : (4 : F) ≠ 0 := by
          have : (4 : F) = 2 * 2 := by norm_num
          rw [this]
          exact mul_ne_zero h2 h2
        exact mul_ne_zero (mul_ne_zero h4 (pow_ne_zero 2 hy))
          (pow_ne_zero 4 hZ)
      · linear_combination -Z ^ 4 * hs

/-- The differential addition stands for the sum of two points whose
difference has the nonzero `x` coordinate `u`, also when one summand or the
sum is at infinity. -/
theorem diffAdd_represents {u v X₂ Z₂ X₃ Z₃ : F} {Q R : Point A}
    (h2 : (2 : F) ≠ 0) (hu : u ≠ 0) (huv : (curve A).Nonsingular u v)
    (hdiff : R = Q + Affine.Point.some u v huv)
    (hQ : Represents X₂ Z₂ Q) (hR : Represents X₃ Z₃ R) :
    Represents (diffAdd u X₂ Z₂ X₃ Z₃).1 (diffAdd u X₂ Z₂ X₃ Z₃).2 (Q + R) := by
  have h4 : (4 : F) ≠ 0 := by
    have : (4 : F) = 2 * 2 := by norm_num
    rw [this]
    exact mul_ne_zero h2 h2
  rw [diffAdd_fst, diffAdd_snd]
  rcases Q with _ | ⟨x₂, y₂, hxy₂⟩
  · -- `Q` is at infinity, so `R` is the difference itself.
    change R = (0 : Point A) + _ at hdiff
    rw [zero_add] at hdiff
    subst hdiff
    obtain ⟨hX₂, rfl⟩ := hQ
    obtain ⟨hZ₃, rfl⟩ := hR
    show Represents _ _ ((0 : Point A) + _)
    rw [zero_add, represents_some]
    refine ⟨?_, by ring⟩
    rw [mul_zero, zero_sub, neg_sq]
    exact mul_ne_zero (mul_ne_zero h4 hu)
      (pow_ne_zero 2 (mul_ne_zero hX₂ hZ₃))
  rcases R with _ | ⟨x₃, y₃, hxy₃⟩
  · -- `R` is at infinity, so `Q` is the negative of the difference.
    have hneg : Affine.Point.some x₂ y₂ hxy₂ = -Affine.Point.some u v huv :=
      eq_neg_of_add_eq_zero_left hdiff.symm
    rw [Affine.Point.neg_some, Affine.Point.some.injEq] at hneg
    obtain ⟨rfl, -⟩ := hneg
    obtain ⟨hZ₂, rfl⟩ := hQ
    obtain ⟨hX₃, rfl⟩ := hR
    show Represents _ _ (_ + (0 : Point A))
    rw [add_zero, represents_some]
    refine ⟨?_, by ring⟩
    rw [mul_zero, sub_zero]
    exact mul_ne_zero (mul_ne_zero h4 hu)
      (pow_ne_zero 2 (mul_ne_zero hX₃ hZ₂))
  obtain ⟨hZ₂, rfl⟩ := hQ
  obtain ⟨hZ₃, rfl⟩ := hR
  have hsub : Affine.Point.some x₃ y₃ hxy₃ - Affine.Point.some x₂ y₂ hxy₂
      = Affine.Point.some u v huv := by
    rw [hdiff, add_sub_cancel_left]
  by_cases hx : x₃ = x₂
  · -- Equal `x` coordinates: the points are opposite, as their difference is
    -- not zero, and the sum is at infinity.
    subst hx
    have hopp : Affine.Point.some x₃ y₂ hxy₂
        = -Affine.Point.some x₃ y₃ hxy₃ := by
      have hor : Affine.Point.some x₃ y₂ hxy₂ = Affine.Point.some x₃ y₃ hxy₃ ∨
          Affine.Point.some x₃ y₂ hxy₂ = -Affine.Point.some x₃ y₃ hxy₃ :=
        Affine.Point.X_eq_iff.mp rfl
      rcases hor with heq | heq
      · rw [heq, sub_self] at hsub
        exact absurd hsub.symm (Affine.Point.some_ne_zero huv)
      · exact heq
    rw [hopp, neg_add_cancel, represents_zero]
    rw [hopp, sub_neg_eq_add] at hsub
    refine ⟨?_, by ring⟩
    have hy : y₃ ≠ 0 := by
      rintro rfl
      rw [some_add_self_of_y_eq_zero] at hsub
      exact Affine.Point.some_ne_zero huv hsub.symm
    obtain ⟨s, t, hst, hsum, hs⟩ := exists_double h2 hxy₃ hy
    rw [hsum, Affine.Point.some.injEq] at hsub
    obtain ⟨rfl, -⟩ := hsub
    have hx1 : x₃ ^ 2 - 1 ≠ 0 := by
      intro h0
      rw [h0, zero_pow two_ne_zero] at hs
      exact mul_ne_zero hu (mul_ne_zero h4 (pow_ne_zero 2 hy)) hs
    have hfac : x₃ * Z₂ * (x₃ * Z₃) - Z₂ * Z₃ = (x₃ ^ 2 - 1) * (Z₂ * Z₃) := by
      ring
    rw [hfac]
    exact mul_ne_zero h4
      (pow_ne_zero 2 (mul_ne_zero hx1 (mul_ne_zero hZ₂ hZ₃)))
  · obtain ⟨s, t, hst, d, e, hde, hsum, hdif, hprod⟩ :=
      exists_add_sub hxy₃ hxy₂ hx
    rw [hdif, Affine.Point.some.injEq] at hsub
    obtain ⟨rfl, -⟩ := hsub
    rw [add_comm, hsum, represents_some]
    have hfac : x₃ * Z₃ * Z₂ - x₂ * Z₂ * Z₃ = (x₃ - x₂) * (Z₂ * Z₃) := by ring
    rw [hfac]
    constructor
    · exact mul_ne_zero (mul_ne_zero h4 hu) (pow_ne_zero 2
        (mul_ne_zero (sub_ne_zero.mpr hx) (mul_ne_zero hZ₂ hZ₃)))
    · linear_combination (-4 * Z₂ ^ 2 * Z₃ ^ 2) * hprod

end GroupLaw

/-! ## The ladder -/

/-- The two running pairs of the ladder. -/
structure Rungs (F : Type*) where
  R₀ : F × F
  R₁ : F × F

/-- One step of the textbook ladder: a `0` bit doubles the left rung, a `1`
bit doubles the right one, and the other rung becomes the sum. -/
def ladderStep (a24 u : F) (bit : Bool) (s : Rungs F) : Rungs F :=
  let sum := diffAdd u s.R₀.1 s.R₀.2 s.R₁.1 s.R₁.2
  if bit then ⟨sum, double a24 s.R₁.1 s.R₁.2⟩
  else ⟨double a24 s.R₀.1 s.R₀.2, sum⟩

/-- The ladder over the bits `t - 1`, ..., `0` of `k`. -/
def ladderLoop (a24 u : F) (k : ℕ) (s : Rungs F) : ℕ → Rungs F
  | 0 => s
  | t + 1 => ladderLoop a24 u k (ladderStep a24 u (k.testBit t) s) t

/-- The start of the ladder: the point at infinity and the base point. -/
def ladderInit (u : F) : Rungs F := ⟨(1, 0), (u, 1)⟩

/-- The bits below `t + 1` are the bit `t` and the bits below `t`. -/
theorem mod_two_pow_succ_eq (k t : ℕ) :
    k % 2 ^ (t + 1) = (k.testBit t).toNat * 2 ^ t + k % 2 ^ t := by
  rw [Nat.mod_pow_succ, Nat.toNat_testBit, Nat.mul_comm, Nat.add_comm]

section GroupLaw

variable [DecidableEq F]

/-- The loop invariant of the ladder: the rungs stand for `n • P` and its
successor. -/
structure LadderInv (P : Point A) (n : ℕ) (s : Rungs F) : Prop where
  left : Represents s.R₀.1 s.R₀.2 (n • P)
  right : Represents s.R₁.1 s.R₁.2 ((n + 1) • P)

theorem ladderInv_init {u v : F} (huv : (curve A).Nonsingular u v) :
    LadderInv (Affine.Point.some u v huv) 0 (ladderInit u) := by
  constructor
  · rw [zero_nsmul]
    exact ⟨one_ne_zero, rfl⟩
  · rw [zero_add, one_nsmul]
    exact ⟨one_ne_zero, (mul_one u).symm⟩

/-- One step appends one bit to the multiple. -/
theorem ladderInv_step {a24 u v : F} {n : ℕ} {s : Rungs F}
    (h2 : (2 : F) ≠ 0) (hA : A = 4 * a24 + 2) (hA4 : A ^ 2 ≠ 4) (hu : u ≠ 0)
    (huv : (curve A).Nonsingular u v) (bit : Bool)
    (h : LadderInv (Affine.Point.some u v huv) n s) :
    LadderInv (Affine.Point.some u v huv) (bit.toNat + 2 * n)
      (ladderStep a24 u bit s) := by
  have hsum := diffAdd_represents h2 hu huv
    (succ_nsmul (Affine.Point.some u v huv) n) h.left h.right
  rw [← add_nsmul] at hsum
  cases bit with
  | false =>
    have hdbl := double_represents h2 hA hA4 h.left
    rw [← add_nsmul] at hdbl
    have hn : false.toNat + 2 * n = n + n := by
      rw [Bool.toNat_false]
      omega
    rw [hn]
    exact ⟨hdbl, hsum⟩
  | true =>
    have hdbl := double_represents h2 hA hA4 h.right
    rw [← add_nsmul] at hdbl
    have hn : true.toNat + 2 * n = n + (n + 1) := by
      rw [Bool.toNat_true]
      omega
    have hn' : n + (n + 1) + 1 = n + 1 + (n + 1) := by omega
    rw [hn]
    exact ⟨hsum, by rw [hn']; exact hdbl⟩

/-- The whole loop.  The induction is on the number of bits still to read. -/
theorem ladderInv_loop {a24 u v : F} (k : ℕ) (h2 : (2 : F) ≠ 0)
    (hA : A = 4 * a24 + 2) (hA4 : A ^ 2 ≠ 4) (hu : u ≠ 0)
    (huv : (curve A).Nonsingular u v) :
    ∀ (t n : ℕ) (s : Rungs F), LadderInv (Affine.Point.some u v huv) n s →
      LadderInv (Affine.Point.some u v huv) (n * 2 ^ t + k % 2 ^ t)
        (ladderLoop a24 u k s t) := by
  intro t
  induction t with
  | zero =>
    intro n s h
    rw [pow_zero, mul_one, Nat.mod_one, add_zero]
    exact h
  | succ t ih =>
    intro n s h
    have hstep := ih _ _
      (ladderInv_step h2 hA hA4 hu huv (k.testBit t) h)
    have hval : n * 2 ^ (t + 1) + k % 2 ^ (t + 1)
        = ((k.testBit t).toNat + 2 * n) * 2 ^ t + k % 2 ^ t := by
      rw [mod_two_pow_succ_eq]
      ring
    rw [hval]
    exact hstep

end GroupLaw

/-! ### The degenerate difference -/

/-- Both rungs have a zero component. -/
def Degenerate (s : Rungs F) : Prop :=
  s.R₀.1 * s.R₀.2 = 0 ∧ s.R₁.1 * s.R₁.2 = 0

theorem double_snd_of_mul_eq_zero {a24 X Z : F} (h : X * Z = 0) :
    (double a24 X Z).2 = 0 := by
  have hE : (X + Z) * (X + Z) - (X - Z) * (X - Z) = 0 := by
    linear_combination 4 * h
  simp [double, hE]

theorem diffAdd_snd_of_zero (X₂ Z₂ X₃ Z₃ : F) :
    (diffAdd 0 X₂ Z₂ X₃ Z₃).2 = 0 := by
  simp [diffAdd]

/-- With difference `0`, one step sends both denominators to zero. -/
theorem ladderStep_snd_of_degenerate {a24 : F} {s : Rungs F} (bit : Bool)
    (h : Degenerate s) :
    (ladderStep a24 0 bit s).R₀.2 = 0 ∧ (ladderStep a24 0 bit s).R₁.2 = 0 := by
  cases bit with
  | false =>
    exact ⟨double_snd_of_mul_eq_zero h.1, diffAdd_snd_of_zero _ _ _ _⟩
  | true =>
    exact ⟨diffAdd_snd_of_zero _ _ _ _, double_snd_of_mul_eq_zero h.2⟩

/-- With difference `0`, every loop of at least one step ends with a zero
denominator on the left. -/
theorem ladderLoop_snd_of_degenerate {a24 : F} (k : ℕ) :
    ∀ (t : ℕ) (s : Rungs F), Degenerate s →
      (ladderLoop a24 0 k s (t + 1)).R₀.2 = 0 := by
  intro t
  induction t with
  | zero =>
    intro s h
    exact (ladderStep_snd_of_degenerate (k.testBit 0) h).1
  | succ t ih =>
    intro s h
    obtain ⟨h₀, h₁⟩ :=
      @ladderStep_snd_of_degenerate F _ a24 s (k.testBit (t + 1)) h
    exact ih _ ⟨by rw [h₀, mul_zero], by rw [h₁, mul_zero]⟩

/-- A point whose `x` coordinate reads `0` is at infinity or is the point of
order two at the origin, and then so is every multiple of it. -/
theorem xCoord_nsmul_of_xCoord_eq_zero [DecidableEq F] {P : Point A}
    (h : xCoord P = 0) (n : ℕ) : xCoord (n • P) = 0 := by
  have hP2 : P + P = 0 := by
    rcases P with _ | ⟨x, y, hxy⟩
    · exact add_zero 0
    · obtain rfl : x = 0 := h
      have heq : y ^ 2 = 0 ^ 3 + A * 0 ^ 2 + 0 := equation_iff.mp hxy.1
      obtain rfl : y = 0 := by
        have hy : y ^ 2 = 0 := by linear_combination heq
        exact (pow_eq_zero_iff two_ne_zero).mp hy
      exact some_add_self_of_y_eq_zero hxy
  have hcases : ∀ m : ℕ, m • P = 0 ∨ m • P = P := by
    intro m
    induction m with
    | zero => exact Or.inl (zero_nsmul P)
    | succ m ih =>
      rw [succ_nsmul]
      rcases ih with hm | hm
      · exact Or.inr (by rw [hm, zero_add])
      · exact Or.inl (by rw [hm, hP2])
  rcases hcases n with hn | hn
  · rw [hn]
    rfl
  · rw [hn, h]

/-- **The ladder computes `x` coordinates.**  For every point `P`, the
quotient of the left rung after `t` steps on the bits of `k`, started from the
`x` coordinate of `P`, is the `x` coordinate of `(k mod 2 ^ t) • P`. -/
theorem ladder_quotient [DecidableEq F] {a24 : F} (P : Point A) (k t : ℕ)
    (h2 : (2 : F) ≠ 0) (hA : A = 4 * a24 + 2) (hA4 : A ^ 2 ≠ 4) :
    (ladderLoop a24 (xCoord P) k (ladderInit (xCoord P)) (t + 1)).R₀.1
        * (ladderLoop a24 (xCoord P) k (ladderInit (xCoord P)) (t + 1)).R₀.2⁻¹
      = xCoord ((k % 2 ^ (t + 1)) • P) := by
  by_cases hu : xCoord P = 0
  · rw [xCoord_nsmul_of_xCoord_eq_zero hu, hu,
      ladderLoop_snd_of_degenerate k t _ ⟨by simp [ladderInit],
        by simp [ladderInit]⟩, inv_zero, mul_zero]
  · rcases P with _ | ⟨x, y, hxy⟩
    · exact absurd rfl hu
    · have hinv := ladderInv_loop k h2 hA hA4 hu hxy (t + 1) 0 _
        (ladderInv_init hxy)
      rw [Nat.zero_mul, Nat.zero_add] at hinv
      exact hinv.left.div_eq

end NewZone.MontgomeryCurve
