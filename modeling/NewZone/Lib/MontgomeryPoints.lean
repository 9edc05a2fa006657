import Mathlib.FieldTheory.IsAlgClosed.AlgebraicClosure
import NewZone.Lib.MontgomeryCurve

/-!
# Every `x` is a coordinate

A ladder takes any field element for an `x` coordinate, also one that belongs to
no point of the curve over that field.  Over the algebraic closure there is
always a point, and the ladder commutes with the embedding.  So what the ladder
does to an arbitrary input is multiplication by a scalar after all:
multiplications commute (`ladderX_comm`), and a multiple of eight is lost on a
point exactly when three doublings are (`ladderX_eq_zero_of_triple`,
`triple_of_ladderX_eq_zero`).

The second half is about doubling alone.  `dbl` is the doubling of an `x`
coordinate, and its preimages are found in the field itself, by asking which of
the quantities are squares.
-/

namespace NewZone.MontgomeryCurve

open WeierstrassCurve

variable {F K : Type*} [Field F] [Field K] {A : F}

/-! ## Points over an algebraically closed field -/

theorem exists_point [IsAlgClosed K] {A : K} (h2 : (2 : K) ≠ 0) (hA4 : A ^ 2 ≠ 4)
    (x : K) : ∃ P : Point A, xCoord P = x := by
  obtain ⟨y, hy⟩ := IsAlgClosed.exists_pow_nat_eq (x ^ 3 + A * x ^ 2 + x) zero_lt_two
  have hns : (curve A).Nonsingular x y := by
    rw [Affine.nonsingular_iff]
    refine ⟨equation_iff.mpr hy, ?_⟩
    by_contra hsingular
    rw [not_or, not_not, not_not] at hsingular
    obtain ⟨hx, hyy⟩ := hsingular
    have hy0 : y = 0 := by
      have hdouble : 2 * y = 0 := by
        simp only [curve] at hyy
        linear_combination hyy
      exact (mul_eq_zero.mp hdouble).resolve_left h2
    simp only [curve] at hx
    have hroot : x * (x ^ 2 + A * x + 1) = 0 := by
      rw [hy0] at hy
      linear_combination -hy
    have hx0 : x ≠ 0 := by
      rintro rfl
      apply one_ne_zero (α := K)
      linear_combination -hx
    have hquad : x ^ 2 + A * x + 1 = 0 := (mul_eq_zero.mp hroot).resolve_left hx0
    -- a double root makes the discriminant vanish
    have hlin : 2 * x + A = 0 := by
      have hprod : x * (2 * x + A) = 0 := by linear_combination -hx - hquad
      exact (mul_eq_zero.mp hprod).resolve_left hx0
    apply hA4
    linear_combination (A - 2 * x) * hlin - 4 * hquad + 4 * x * hlin
  exact ⟨Affine.Point.some x y hns, rfl⟩

theorem two_ne_zero_map (φ : F →+* K) (h2 : (2 : F) ≠ 0) : (2 : K) ≠ 0 := by
  rw [← map_ofNat φ 2]
  exact (map_ne_zero φ).mpr h2

theorem map_sq_ne_four (φ : F →+* K) (hA4 : A ^ 2 ≠ 4) : φ A ^ 2 ≠ 4 := by
  rw [← map_pow, ← map_ofNat φ 4]
  exact fun h => hA4 (φ.injective h)

/-- The same for the coordinates that come from a smaller field. -/
theorem exists_point_map [IsAlgClosed K] (φ : F →+* K) (h2 : (2 : F) ≠ 0)
    (hA4 : A ^ 2 ≠ 4) (u : F) : ∃ P : Point (φ A), xCoord P = φ u :=
  exists_point (two_ne_zero_map φ h2) (map_sq_ne_four φ hA4) (φ u)

/-! ## The ladder under an embedding -/

/-- The quotient that the ladder ends with. -/
def ladderX (a24 u : F) (k t : ℕ) : F :=
  (ladderLoop a24 u k (ladderInit u) t).R₀.1
    * (ladderLoop a24 u k (ladderInit u) t).R₀.2⁻¹

/-- Both rungs under a map of fields. -/
def Rungs.map (φ : F →+* K) (s : Rungs F) : Rungs K :=
  ⟨(φ s.R₀.1, φ s.R₀.2), (φ s.R₁.1, φ s.R₁.2)⟩

theorem ladderStep_map (φ : F →+* K) (a24 u : F) (bit : Bool) (s : Rungs F) :
    (ladderStep a24 u bit s).map φ = ladderStep (φ a24) (φ u) bit (s.map φ) := by
  cases bit <;> simp [ladderStep, Rungs.map, double, diffAdd]

theorem ladderLoop_map (φ : F →+* K) (a24 u : F) (k : ℕ) :
    ∀ (t : ℕ) (s : Rungs F),
      (ladderLoop a24 u k s t).map φ = ladderLoop (φ a24) (φ u) k (s.map φ) t := by
  intro t
  induction t with
  | zero =>
    intro s
    rfl
  | succ t ih =>
    intro s
    rw [ladderLoop, ih, ladderStep_map]
    rfl

theorem map_ladderX (φ : F →+* K) (a24 u : F) (k t : ℕ) :
    φ (ladderX a24 u k t) = ladderX (φ a24) (φ u) k t := by
  have hinit : (ladderInit u).map φ = ladderInit (φ u) := by
    simp [ladderInit, Rungs.map]
  rw [ladderX, ladderX, ← hinit, ← ladderLoop_map, map_mul, map_inv₀]
  rfl

/-! ## Scalars act on every field element -/

section Action

variable {a24 : F}

/-- The ladder computes the multiples of a point of an extension field. -/
theorem map_ladderX_eq [DecidableEq K] (φ : F →+* K) {P : Point (φ A)} {u : F}
    (h2 : (2 : F) ≠ 0) (hA : A = 4 * a24 + 2) (hA4 : A ^ 2 ≠ 4)
    (hP : xCoord P = φ u) (k t : ℕ) :
    φ (ladderX a24 u k (t + 1)) = xCoord ((k % 2 ^ (t + 1)) • P) := by
  have hA' : φ A = 4 * φ a24 + 2 := by
    rw [hA, map_add, map_mul, map_ofNat, map_ofNat]
  rw [map_ladderX, ← hP]
  exact ladder_quotient P k t (two_ne_zero_map φ h2) hA' (map_sq_ne_four φ hA4)

/-- **Multiplications by scalars commute.**  The order in which a field element
goes through two ladders does not matter, whether or not it belongs to a point
of the curve. -/
theorem ladderX_comm (h2 : (2 : F) ≠ 0) (hA : A = 4 * a24 + 2) (hA4 : A ^ 2 ≠ 4)
    (u : F) (k l t : ℕ) :
    ladderX a24 (ladderX a24 u l (t + 1)) k (t + 1)
      = ladderX a24 (ladderX a24 u k (t + 1)) l (t + 1) := by
  classical
  obtain ⟨P, hP⟩ := exists_point_map (algebraMap F (AlgebraicClosure F)) h2 hA4 u
  apply (algebraMap F (AlgebraicClosure F)).injective
  have hk := map_ladderX_eq _ h2 hA hA4 hP k t
  have hl := map_ladderX_eq _ h2 hA hA4 hP l t
  rw [map_ladderX_eq _ h2 hA hA4 hl.symm, map_ladderX_eq _ h2 hA hA4 hk.symm,
    smul_smul, smul_smul, Nat.mul_comm]

end Action

/-! ## Doubling -/

/-- The doubling of an `x` coordinate. -/
def dbl (A x : F) : F := (x ^ 2 - 1) ^ 2 * (4 * x * (x ^ 2 + A * x + 1))⁻¹

theorem map_dbl (φ : F →+* K) (x : F) : φ (dbl A x) = dbl (φ A) (φ x) := by
  simp only [dbl, map_mul, map_pow, map_sub, map_add, map_one, map_inv₀, map_ofNat]

theorem four_ne_zero_of_two (h2 : (2 : F) ≠ 0) : (4 : F) ≠ 0 := by
  have h4 : (4 : F) = 2 * 2 := by norm_num
  rw [h4]
  exact mul_ne_zero h2 h2

theorem y_eq_zero_of_nonsingular {y : F} (h : (curve A).Nonsingular 0 y) : y = 0 := by
  have heq : y ^ 2 = 0 ^ 3 + A * 0 ^ 2 + 0 := equation_iff.mp h.1
  have hy : y ^ 2 = 0 := by linear_combination heq
  exact (pow_eq_zero_iff two_ne_zero).mp hy

section GroupLaw

variable [DecidableEq F]

theorem xCoord_add_self (h2 : (2 : F) ≠ 0) (hA4 : A ^ 2 ≠ 4) (P : Point A) :
    xCoord (P + P) = dbl A (xCoord P) := by
  rcases P with _ | ⟨x, y, hxy⟩
  · show xCoord ((0 : Point A) + 0) = dbl A 0
    rw [add_zero]
    simp [xCoord, dbl]
  · have h4 := four_ne_zero_of_two h2
    have hA : A = 4 * ((A - 2) / 4) + 2 := by
      field_simp
      ring
    have hP : Represents x 1 (Affine.Point.some x y hxy : Point A) :=
      ⟨one_ne_zero, (mul_one x).symm⟩
    have hdouble := (double_represents h2 hA hA4 hP).div_eq
    rw [double_fst, double_snd hA] at hdouble
    rw [← hdouble]
    simp only [xCoord, dbl, one_pow, mul_one]

/-- The points that read as `0` are closed under differences: they are the
point at infinity and one point of order two. -/
theorem xCoord_sub_eq_zero {P Q : Point A} (hP : xCoord P = 0) (hQ : xCoord Q = 0) :
    xCoord (P - Q) = 0 := by
  rcases P with _ | ⟨x, y, hxy⟩
  · rcases Q with _ | ⟨x', y', hxy'⟩
    · exact congrArg xCoord (sub_self (0 : Point A))
    · have hneg : (0 : Point A) - Affine.Point.some x' y' hxy'
          = Affine.Point.some x' _ ((Affine.nonsingular_neg x' y').mpr hxy') := by
        rw [zero_sub, Affine.Point.neg_some]
      exact (congrArg xCoord hneg).trans hQ
  · rcases Q with _ | ⟨x', y', hxy'⟩
    · exact (congrArg xCoord (sub_zero _)).trans hP
    · obtain rfl : x = 0 := hP
      obtain rfl : x' = 0 := hQ
      obtain rfl := y_eq_zero_of_nonsingular hxy
      obtain rfl := y_eq_zero_of_nonsingular hxy'
      exact congrArg xCoord (sub_self (Affine.Point.some 0 0 hxy))

/-- Three doublings. -/
theorem xCoord_eight_nsmul (h2 : (2 : F) ≠ 0) (hA4 : A ^ 2 ≠ 4) (P : Point A) :
    xCoord (8 • P) = dbl A (dbl A (dbl A (xCoord P))) := by
  have h8 : 8 • P = (P + P + (P + P)) + (P + P + (P + P)) := by
    simp only [← two_nsmul, smul_smul]
    rfl
  rw [h8, xCoord_add_self h2 hA4, xCoord_add_self h2 hA4, xCoord_add_self h2 hA4]

end GroupLaw

/-- The same in an extension field. -/
theorem xCoord_eight_eq_map [DecidableEq K] (φ : F →+* K) {P : Point (φ A)} {u : F}
    (h2 : (2 : F) ≠ 0) (hA4 : A ^ 2 ≠ 4) (hP : xCoord P = φ u) :
    xCoord (8 • P) = φ (dbl A (dbl A (dbl A u))) := by
  rw [xCoord_eight_nsmul (two_ne_zero_map φ h2) (map_sq_ne_four φ hA4), hP, map_dbl,
    map_dbl, map_dbl]

section Eight

variable {a24 : F} (h2 : (2 : F) ≠ 0) (hA : A = 4 * a24 + 2) (hA4 : A ^ 2 ≠ 4)
include h2 hA hA4

/-- Scalars that are multiples of eight send everything to `0` that three
doublings do. -/
theorem ladderX_eq_zero_of_triple {u : F} (hu : dbl A (dbl A (dbl A u)) = 0)
    {k t : ℕ} (hk : 8 ∣ k % 2 ^ (t + 1)) : ladderX a24 u k (t + 1) = 0 := by
  classical
  obtain ⟨P, hP⟩ := exists_point_map (algebraMap F (AlgebraicClosure F)) h2 hA4 u
  obtain ⟨m, hm⟩ := hk
  have h8 : xCoord (8 • P) = 0 := by
    rw [xCoord_eight_eq_map _ h2 hA4 hP, hu, map_zero]
  apply (algebraMap F (AlgebraicClosure F)).injective
  rw [map_ladderX_eq _ h2 hA hA4 hP, map_zero, hm, Nat.mul_comm, ← smul_smul]
  exact xCoord_nsmul_of_xCoord_eq_zero h8 m

/-- Two scalars whose difference is eight send to `0` only what three doublings
do. -/
theorem triple_of_ladderX_eq_zero {u : F} {k l t : ℕ}
    (hkl : l % 2 ^ (t + 1) = 8 + k % 2 ^ (t + 1)) (hk : ladderX a24 u k (t + 1) = 0)
    (hl : ladderX a24 u l (t + 1) = 0) : dbl A (dbl A (dbl A u)) = 0 := by
  classical
  obtain ⟨P, hP⟩ := exists_point_map (algebraMap F (AlgebraicClosure F)) h2 hA4 u
  have hPk := map_ladderX_eq _ h2 hA hA4 hP k t
  have hPl := map_ladderX_eq _ h2 hA hA4 hP l t
  rw [hk, map_zero] at hPk
  rw [hl, map_zero] at hPl
  have hdiff : (l % 2 ^ (t + 1)) • P - (k % 2 ^ (t + 1)) • P = 8 • P := by
    rw [hkl, add_smul, add_sub_cancel_right]
  have h8 : xCoord (8 • P) = 0 := by
    rw [← hdiff]
    exact xCoord_sub_eq_zero hPl.symm hPk.symm
  rw [xCoord_eight_eq_map _ h2 hA4 hP] at h8
  exact (map_eq_zero _).mp h8

end Eight

/-! ## What doubles to what -/

section Preimages

variable {x r : F}

theorem denominator_ne_zero (h : dbl A x ≠ 0) : 4 * x * (x ^ 2 + A * x + 1) ≠ 0 := by
  intro hD
  apply h
  rw [dbl, hD, inv_zero, mul_zero]

theorem dbl_eq_iff (hD : 4 * x * (x ^ 2 + A * x + 1) ≠ 0) :
    dbl A x = r ↔ (x ^ 2 - 1) ^ 2 = r * (4 * x * (x ^ 2 + A * x + 1)) := by
  rw [dbl, ← div_eq_mul_inv, div_eq_iff hD]

/-- What is the double of something makes this a square. -/
theorem isSquare_of_dbl_eq (hr : r ≠ 0) (h : dbl A x = r) :
    IsSquare (r ^ 2 + A * r + 1) := by
  have hD := denominator_ne_zero (h.trans_ne hr)
  have hx := (dbl_eq_iff hD).mp h
  refine ⟨((x ^ 2 + 1) ^ 2 + 2 * A * x * (x ^ 2 + 1) + 4 * x ^ 2)
    / (4 * x * (x ^ 2 + A * x + 1)), ?_⟩
  rw [div_mul_div_comm, eq_div_iff (mul_ne_zero hD hD)]
  generalize hd : 4 * x * (x ^ 2 + A * x + 1) = D at hx ⊢
  have hexpand : (r ^ 2 + A * r + 1) * (D * D)
      = (r * D) ^ 2 + A * (r * D) * D + D ^ 2 := by ring
  rw [hexpand, ← hx, ← hd]
  ring

/-- Points of order two and four. -/
theorem dbl_eq_zero_iff (h2 : (2 : F) ≠ 0) (hdisc : ¬IsSquare (A ^ 2 - 4)) :
    dbl A x = 0 ↔ x = 0 ∨ x = 1 ∨ x = -1 := by
  have hquad : x ^ 2 + A * x + 1 ≠ 0 := by
    intro h
    exact hdisc ⟨2 * x + A, by linear_combination -4 * h⟩
  rw [dbl, mul_eq_zero, inv_eq_zero, mul_eq_zero, mul_eq_zero, pow_eq_zero_iff two_ne_zero,
    or_iff_left hquad, or_iff_right (four_ne_zero_of_two h2), sub_eq_zero, sq_eq_one_iff]
  exact or_comm

/-- Which of the quantities are squares, where `r` and `r'` are the `x`
coordinates of order eight and nothing doubles to them. -/
structure OrderEight (A s r r' : F) : Prop where
  sq : s ^ 2 = A + 2
  add : r + r' = 2 + 2 * s
  mul : r * r' = 1
  disc : ¬IsSquare (A ^ 2 - 4)
  twist : ¬IsSquare (2 - A)
  other : ¬IsSquare ((1 - s) ^ 2 - 1)
  above : ¬IsSquare (r ^ 2 + A * r + 1)

variable {s r' : F}

theorem OrderEight.odd (h : OrderEight A s r r') : (2 : F) ≠ 0 := by
  intro h2
  exact h.disc ⟨A, by linear_combination -2 * h2⟩

theorem OrderEight.swap (h : OrderEight A s r r') : OrderEight A s r' r where
  sq := h.sq
  add := by rw [add_comm, h.add]
  mul := by rw [mul_comm, h.mul]
  disc := h.disc
  twist := h.twist
  other := h.other
  above := by
    rintro ⟨y, hy⟩
    refine h.above ⟨r * y, ?_⟩
    linear_combination r ^ 2 * hy - (1 + A * r + r * r') * h.mul

/-- Nothing doubles to `-1`. -/
theorem OrderEight.dbl_ne_neg_one (h : OrderEight A s r r') : dbl A x ≠ -1 := by
  intro hx
  have hne : (-1 : F) ≠ 0 := neg_ne_zero.mpr one_ne_zero
  have hD := denominator_ne_zero (hx.trans_ne hne)
  have hx0 : 2 * x ≠ 0 := by
    intro h0
    apply hD
    linear_combination 2 * (x ^ 2 + A * x + 1) * h0
  rw [dbl_eq_iff hD] at hx
  refine h.twist ⟨(x + 1) ^ 2 / (2 * x), ?_⟩
  rw [div_mul_div_comm, eq_div_iff (mul_ne_zero hx0 hx0)]
  linear_combination -hx

/-- Two values double to `1`. -/
theorem OrderEight.dbl_eq_one_iff (h : OrderEight A s r r') :
    dbl A x = 1 ↔ x = r ∨ x = r' := by
  have hfactor : (x ^ 2 - 1) ^ 2 - 4 * x * (x ^ 2 + A * x + 1)
      = (x - r) * (x - r') * (x ^ 2 - (2 - 2 * s) * x + 1) := by
    linear_combination (4 * x ^ 2) * h.sq + (x * (x ^ 2 - (2 - 2 * s) * x + 1)) * h.add
      - (x ^ 2 - (2 - 2 * s) * x + 1) * h.mul
  constructor
  · intro hx
    have hD := denominator_ne_zero (hx.trans_ne one_ne_zero)
    rw [dbl_eq_iff hD, one_mul] at hx
    have hzero : (x - r) * (x - r') * (x ^ 2 - (2 - 2 * s) * x + 1) = 0 := by
      rw [← hfactor, hx, sub_self]
    have hother : x ^ 2 - (2 - 2 * s) * x + 1 ≠ 0 := by
      intro h0
      exact h.other ⟨x - (1 - s), by linear_combination -h0⟩
    have hroots := (mul_eq_zero.mp hzero).resolve_right hother
    exact (mul_eq_zero.mp hroots).imp sub_eq_zero.mp sub_eq_zero.mp
  · intro hx
    have hzero : (x - r) * (x - r') = 0 :=
      mul_eq_zero.mpr (hx.imp sub_eq_zero.mpr sub_eq_zero.mpr)
    rw [hzero, zero_mul, sub_eq_zero] at hfactor
    have hD : 4 * x * (x ^ 2 + A * x + 1) ≠ 0 := by
      intro h0
      rw [h0] at hfactor
      have hx1 : x ^ 2 = 1 := sub_eq_zero.mp ((pow_eq_zero_iff two_ne_zero).mp hfactor)
      -- `A` would be `-2 * x`
      have hA : 4 * (A + 2 * x) = 0 := by
        linear_combination h0 - (4 * x + 4 * A) * hx1
      have hA' : A + 2 * x = 0 :=
        (mul_eq_zero.mp hA).resolve_left (four_ne_zero_of_two h.odd)
      exact h.disc ⟨0, by linear_combination (A - 2 * x) * hA' + 4 * hx1⟩
    rw [dbl_eq_iff hD, one_mul, hfactor]

/-- **What three doublings send to `0`**: the values of order one, two, four and
eight. -/
theorem OrderEight.triple_eq_zero_iff (h : OrderEight A s r r') :
    dbl A (dbl A (dbl A x)) = 0 ↔ x = 0 ∨ x = 1 ∨ x = -1 ∨ x = r ∨ x = r' := by
  have hr : ∀ {s' r r'}, OrderEight A s' r r' → dbl A x ≠ r := by
    intro s' r r' h hx
    have hr0 : r ≠ 0 := left_ne_zero_of_mul_eq_one h.mul
    exact h.above (isSquare_of_dbl_eq hr0 hx)
  have hzero := fun y => dbl_eq_zero_iff (x := y) h.odd h.disc
  rw [hzero, hzero, hzero, h.dbl_eq_one_iff, h.dbl_eq_one_iff]
  simp only [hr h, hr h.swap, h.dbl_ne_neg_one, or_false]
  tauto

end Preimages

end NewZone.MontgomeryCurve
