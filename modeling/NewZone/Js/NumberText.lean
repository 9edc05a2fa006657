import NewZone.Js.Number
import Mathlib.Data.Rat.Defs
import Mathlib.Algebra.Order.Field.Rat
import Mathlib.Tactic.Ring
import Mathlib.Tactic.Positivity
import Mathlib.Tactic.FieldSimp
import Mathlib.Tactic.NormNum

/-!
# Numbers and their text

`Number::toString` prints the shortest decimal that reads back as the number,
in one of four layouts.  A finite number is represented here by that decimal:
a sign, the digits as a natural number that does not end in `0`, and the power
of ten of the last digit.  Two numbers are equal exactly when their decimals
are, and a difference of integers below `2 ^ 53` is exact.  A negative zero is
the zero, as it is for `===` and for `JSON.stringify`.

`text_injective` says that the layouts can be told apart: the text of a number
determines the number.

`NaN` and the infinities are no numbers here.  In particular a numeral like `1e400`, of
which `JSON.parse` makes an infinity, is left out.
-/

namespace NewZone.Js

/-- A finite JavaScript number: plus or minus `coeff * 10 ^ exp`. -/
structure Number where
  neg : Bool
  coeff : ℕ
  exp : ℤ
  canonical : coeff % 10 ≠ 0 ∨ (neg = false ∧ coeff = 0 ∧ exp = 0)
  deriving DecidableEq

namespace Number

/-- The number itself. -/
def value (x : Number) : ℚ :=
  (if x.neg then -1 else 1) * x.coeff * 10 ^ x.exp

def zero : Number := ⟨false, 0, 0, .inr ⟨rfl, rfl, rfl⟩⟩

instance : Inhabited Number := ⟨zero⟩

/-! ## Layout -/

def digit0 : UInt16 := 0x30

/-- The parts of the text of a positive number: the digits before the point,
those after it, and the exponent. -/
@[ext]
structure Layout where
  int : JsString
  frac : JsString
  exp : Option ℤ

/-- The four layouts of `Number::toString`, for the shortest digits and the
position `n` of the point in them. -/
def layout (digits : JsString) (n : ℤ) : Layout :=
  let k : ℤ := digits.length
  if k ≤ n ∧ n ≤ 21 then
    ⟨digits ++ List.replicate (n - k).toNat digit0, [], none⟩
  else if 0 < n ∧ n ≤ 21 then
    ⟨digits.take n.toNat, digits.drop n.toNat, none⟩
  else if -6 < n ∧ n ≤ 0 then
    ⟨[digit0], List.replicate (-n).toNat digit0 ++ digits, none⟩
  else ⟨digits.take 1, digits.drop 1, some (n - 1)⟩

def expText : Option ℤ → JsString
  | none => []
  | some e => 0x65 :: (if e < 0 then 0x2D else 0x2B) :: decimal e.natAbs

def Layout.text (l : Layout) : JsString :=
  l.int ++ (if l.frac = [] then [] else 0x2E :: l.frac) ++ expText l.exp

/-- `Number::toString`. -/
def text (x : Number) : JsString :=
  if x.coeff = 0 then [digit0]
  else
    let digits := decimal x.coeff
    (if x.neg then [0x2D] else []) ++
      (layout digits (x.exp + digits.length)).text

/-! ## Reading a layout -/

/-- The number that a string of digits reads as. -/
def digitsVal (ds : JsString) : ℕ :=
  ds.foldl (fun acc u => 10 * acc + (u.toNat - 48)) 0

theorem digitsVal_foldl (ds : JsString) (acc : ℕ) :
    ds.foldl (fun acc u => 10 * acc + (u.toNat - 48)) acc
      = acc * 10 ^ ds.length + digitsVal ds := by
  induction ds generalizing acc with
  | nil => simp [digitsVal]
  | cons u ds ih =>
    have h0 := ih (10 * 0 + (u.toNat - 48))
    rw [digitsVal, List.foldl_cons, List.foldl_cons, h0, ih,
      List.length_cons, pow_succ]
    ring

theorem digitsVal_append (ds es : JsString) :
    digitsVal (ds ++ es) = digitsVal ds * 10 ^ es.length + digitsVal es := by
  rw [digitsVal, List.foldl_append, digitsVal_foldl]
  rfl

theorem digitsVal_zeros (m : ℕ) : digitsVal (List.replicate m digit0) = 0 := by
  induction m with
  | zero => rfl
  | succ m ih =>
    rw [List.replicate_succ', digitsVal_append, ih]
    rfl

/-- The decimal text of a number reads as that number. -/
theorem digitsVal_decimal (n : ℕ) : digitsVal (decimal n) = n := by
  have hdigit : ∀ c ∈ Nat.toDigits 10 n, (UInt16.ofNat c.toNat).toNat = c.toNat := by
    intro c hc
    have := digit_toNat (Nat.isDigit_of_mem_toDigits (by decide) (by decide) hc)
    exact UInt16.toNat_ofNat_of_lt' (lt_of_le_of_lt this.2 (by decide))
  have hfold : ∀ (cs : List Char) (acc : ℕ),
      (∀ c ∈ cs, (UInt16.ofNat c.toNat).toNat = c.toNat) →
      (cs.map fun c => UInt16.ofNat c.toNat).foldl
          (fun acc u => 10 * acc + (u.toNat - 48)) acc
        = Nat.ofDigitChars 10 cs acc := by
    intro cs
    induction cs with
    | nil => exact fun _ _ => rfl
    | cons c cs ih =>
      intro acc h
      rw [List.map_cons, List.foldl_cons, h c List.mem_cons_self,
        ih _ fun d hd => h d (List.mem_cons_of_mem c hd)]
      rfl
  exact (hfold _ 0 hdigit).trans Nat.ofDigitChars_ten_toDigits

/-- What a layout reads as. -/
def Layout.value (l : Layout) : ℚ :=
  digitsVal (l.int ++ l.frac) * 10 ^ (l.exp.getD 0 - l.frac.length)

/-- Every layout of the digits `c` with the point at `n` reads as `c`, moved to
that point. -/
theorem value_layout {digits : JsString} (hne : digits ≠ []) (n : ℤ) :
    (layout digits n).value
      = digitsVal digits * 10 ^ (n - digits.length) := by
  unfold layout Layout.value
  dsimp only
  split_ifs with h₁ h₂ h₃
  · rw [List.append_nil, digitsVal_append, digitsVal_zeros]
    have hz : ((n - digits.length).toNat : ℤ) = n - digits.length := by omega
    rw [← hz]
    simp
  · rw [List.take_append_drop]
    have hlen : ((digits.drop n.toNat).length : ℤ) = digits.length - n := by
      rw [List.length_drop]
      omega
    rw [hlen]
    simp
  · rw [← List.append_assoc, digitsVal_append]
    have hz : digitsVal ([digit0] ++ List.replicate (-n).toNat digit0) = 0 :=
      digitsVal_zeros ((-n).toNat + 1)
    have hlen : ((List.replicate (-n).toNat digit0 ++ digits).length : ℤ)
        = digits.length - n := by
      rw [List.length_append, List.length_replicate]
      push_cast
      omega
    rw [hz, hlen]
    simp
  · have hpos := List.length_pos_iff.mpr hne
    have hlen : ((digits.drop 1).length : ℤ) = digits.length - 1 := by
      rw [List.length_drop]
      omega
    rw [List.take_append_drop, hlen, Option.getD_some]
    congr 2
    ring

/-! ## Telling the layouts apart -/

/-- Two texts that start with stretches of the same kind, and go on with
something of another kind, agree on the stretch and on the rest. -/
theorem append_inj_of_stops {p : UInt16 → Bool} {a b r s : JsString}
    (ha : ∀ u ∈ a, p u = true) (hb : ∀ u ∈ b, p u = true)
    (hr : ∀ u ∈ r.head?, p u = false) (hs : ∀ u ∈ s.head?, p u = false)
    (h : a ++ r = b ++ s) : a = b ∧ r = s := by
  have htake : ∀ {c t : JsString}, (∀ u ∈ c, p u = true) →
      (∀ u ∈ t.head?, p u = false) → (c ++ t).takeWhile p = c := by
    intro c t hc ht
    rw [List.takeWhile_append_of_pos hc]
    cases t with
    | nil => simp
    | cons u t => simp [ht u rfl]
  have hab : a = b := by rw [← htake ha hr, h, htake hb hs]
  exact ⟨hab, List.append_cancel_left (hab ▸ h)⟩

/-- The digits of a layout are digits, and there is one before the point. -/
structure Layout.Digits (l : Layout) : Prop where
  int : ∀ u ∈ l.int, isDigitUnit u = true
  int_ne : l.int ≠ []
  frac : ∀ u ∈ l.frac, isDigitUnit u = true

theorem digits_layout {digits : JsString} (hne : digits ≠ [])
    (hdigits : ∀ u ∈ digits, isDigitUnit u = true) (n : ℤ) :
    (layout digits n).Digits := by
  have hzero : isDigitUnit digit0 = true := rfl
  have hzeros : ∀ m, ∀ u ∈ List.replicate m digit0, isDigitUnit u = true := by
    intro m u hu
    rw [List.eq_of_mem_replicate hu]
    exact hzero
  have happend : ∀ {a b : JsString}, (∀ u ∈ a, isDigitUnit u = true) →
      (∀ u ∈ b, isDigitUnit u = true) → ∀ u ∈ a ++ b, isDigitUnit u = true :=
    fun ha hb u hu => (List.mem_append.mp hu).elim (ha u) (hb u)
  have hpos := List.length_pos_iff.mpr hne
  have htake : ∀ m, ∀ u ∈ digits.take m, isDigitUnit u = true :=
    fun m u hu => hdigits u (List.mem_of_mem_take hu)
  have hdrop : ∀ m, ∀ u ∈ digits.drop m, isDigitUnit u = true :=
    fun m u hu => hdigits u (List.mem_of_mem_drop hu)
  have htake_ne : ∀ m, 0 < m → digits.take m ≠ [] := by
    intro m hm h
    have := congrArg List.length h
    rw [List.length_take, List.length_nil] at this
    omega
  unfold layout
  dsimp only
  split_ifs with h₁ h₂ h₃
  · exact ⟨happend hdigits (hzeros _), by simp [hne], by simp⟩
  · exact ⟨htake _, htake_ne _ (by omega), hdrop _⟩
  · exact ⟨by simp [hzero], by simp, happend (hzeros _) hdigits⟩
  · exact ⟨htake _, htake_ne _ (by omega), hdrop _⟩

theorem expText_head (e : Option ℤ) :
    ∀ u ∈ (expText e).head?, isDigitUnit u = false ∧ u ≠ 0x2E := by
  cases e with
  | none => simp [expText]
  | some e =>
    intro u hu
    simp only [expText, List.head?_cons, Option.mem_def, Option.some.injEq] at hu
    subst hu
    decide

theorem expText_injective {e f : Option ℤ} (h : expText e = expText f) :
    e = f := by
  cases e with
  | none =>
    cases f with
    | none => rfl
    | some f => cases h
  | some e =>
    cases f with
    | none => cases h
    | some f =>
      have h' := (List.cons.inj h).2
      obtain ⟨hsign, habs⟩ := List.cons.inj h'
      have habs := decimal_injective habs
      have hneg : e < 0 ↔ f < 0 := by
        by_cases he : e < 0 <;> by_cases hf : f < 0 <;> simp [he, hf] at hsign ⊢
      congr 1
      omega

/-- A layout is determined by its text. -/
theorem layout_text_injective {l m : Layout} (hl : l.Digits) (hm : m.Digits)
    (h : l.text = m.text) : l = m := by
  unfold Layout.text at h
  rw [List.append_assoc, List.append_assoc] at h
  have hnodigit : ∀ e : Option ℤ, ∀ u ∈ (expText e).head?,
      isDigitUnit u = false := fun e u hu => (expText_head e u hu).1
  have hrest : ∀ (frac : JsString) (e : Option ℤ),
      ∀ u ∈ ((if frac = [] then [] else 0x2E :: frac) ++ expText e).head?,
        isDigitUnit u = false := by
    intro frac e u hu
    split_ifs at hu with hfrac
    · exact hnodigit e u (by simpa using hu)
    · simp only [List.cons_append, List.head?_cons, Option.mem_def,
        Option.some.injEq] at hu
      subst hu
      decide
  have hpoint : ∀ {f : JsString} {e e' : Option ℤ},
      expText e ≠ 0x2E :: f ++ expText e' := by
    intro f e e' heq
    exact (expText_head e 0x2E (by rw [heq]; rfl)).2 rfl
  obtain ⟨hint, h⟩ := append_inj_of_stops hl.int hm.int (hrest _ _)
    (hrest _ _) h
  split_ifs at h with h₁ h₂ h₃
  · exact Layout.ext hint (h₁.trans h₂.symm) (expText_injective h)
  · exact absurd h hpoint
  · exact absurd h.symm hpoint
  · obtain ⟨hfrac, hexp⟩ := append_inj_of_stops hl.frac hm.frac (hnodigit _)
      (hnodigit _) (List.cons.inj h).2
    exact Layout.ext hint hfrac (expText_injective hexp)

/-! ## The text determines the number -/

/-- The layout of the number without its sign. -/
def absLayout (x : Number) : Layout :=
  if x.coeff = 0 then ⟨[digit0], [], none⟩
  else
    layout (decimal x.coeff) (x.exp + (decimal x.coeff).length)

theorem text_eq (x : Number) :
    x.text = (if x.neg then [0x2D] else []) ++ x.absLayout.text := by
  unfold text absLayout
  split_ifs with h₁ h₂ h₂
  · rcases x.canonical with h | h
    · simp [h₁] at h
    · simp [h.1] at h₂
  · rfl
  · rfl
  · rfl

theorem digits_absLayout (x : Number) : x.absLayout.Digits := by
  unfold absLayout
  split_ifs
  · exact ⟨List.forall_mem_singleton.mpr rfl, List.cons_ne_nil _ _, by simp⟩
  · exact digits_layout (decimal_ne_nil _)
      (fun _ hu => isDigitUnit_of_mem_decimal hu) _

theorem value_absLayout (x : Number) :
    x.absLayout.value = x.coeff * 10 ^ x.exp := by
  unfold absLayout
  split_ifs with h
  · rw [h]
    simp [Layout.value, digitsVal, digit0]
  · rw [value_layout (decimal_ne_nil _), digitsVal_decimal, add_sub_cancel_right]

/-- Digits that do not end in `0` have one power of ten. -/
theorem exp_le_of_mul_pow_eq {c d : ℕ} {e f : ℤ} (hc : c % 10 ≠ 0)
    (h : (c : ℚ) * 10 ^ e = d * 10 ^ f) : f ≤ e := by
  by_contra hlt
  obtain ⟨k, hk⟩ : ∃ k : ℕ, f = e + (k + 1 : ℕ) := ⟨(f - e - 1).toNat, by omega⟩
  have hpow : (10 : ℚ) ^ e ≠ 0 := zpow_ne_zero e (by norm_num)
  rw [hk, zpow_add₀ (by norm_num), zpow_natCast] at h
  have hcd : (c : ℚ) = d * 10 ^ (k + 1) := by
    apply mul_right_cancel₀ hpow
    rw [h]
    ring
  have hnat : c = d * 10 ^ (k + 1) := by exact_mod_cast hcd
  rw [pow_succ, ← mul_assoc] at hnat
  omega

/-- The parts of a number are determined by its size. -/
theorem eq_of_mul_pow_eq {x y : Number}
    (h : (x.coeff : ℚ) * 10 ^ x.exp = y.coeff * 10 ^ y.exp) :
    x.coeff = y.coeff ∧ x.exp = y.exp := by
  have hpow : ∀ e : ℤ, (10 : ℚ) ^ e ≠ 0 := fun e => zpow_ne_zero e (by norm_num)
  have hexp : x.exp = y.exp := by
    rcases x.canonical with hx | ⟨-, hx, hx'⟩
    · rcases y.canonical with hy | ⟨-, hy, -⟩
      · exact le_antisymm (exp_le_of_mul_pow_eq hy h.symm)
          (exp_le_of_mul_pow_eq hx h)
      · rw [hy] at h
        simp [hpow] at h
        omega
    · rcases y.canonical with hy | ⟨-, -, hy'⟩
      · rw [hx] at h
        simp [hpow] at h
        omega
      · rw [hx', hy']
  rw [hexp] at h
  exact ⟨by exact_mod_cast mul_right_cancel₀ (hpow _) h, hexp⟩

theorem head_absLayout (x : Number) :
    ∃ u rest, x.absLayout.text = u :: rest ∧ isDigitUnit u = true := by
  have hd := digits_absLayout x
  cases hint : x.absLayout.int with
  | nil => exact absurd hint hd.int_ne
  | cons u rest =>
    refine ⟨u, _, by rw [Layout.text, hint]; rfl, hd.int u ?_⟩
    rw [hint]
    exact List.mem_cons_self

/-- **The text determines the number.** -/
theorem text_injective : Function.Injective text := by
  intro x y h
  rw [text_eq, text_eq] at h
  obtain ⟨u, r, hu, hud⟩ := head_absLayout x
  obtain ⟨v, s, hv, hvd⟩ := head_absLayout y
  have hminus : isDigitUnit 0x2D = false := rfl
  have hneg : x.neg = y.neg := by
    cases hx : x.neg <;> cases hy : y.neg
    · rfl
    · rw [hx, hy, hu] at h
      rw [(List.cons.inj h).1] at hud
      exact absurd hud (by simp [hminus])
    · rw [hx, hy, hv] at h
      rw [← (List.cons.inj h).1] at hvd
      exact absurd hvd (by simp [hminus])
    · rfl
  rw [hneg] at h
  have hlayout := layout_text_injective (digits_absLayout x) (digits_absLayout y)
    (List.append_cancel_left h)
  have hvalue := congrArg Layout.value hlayout
  rw [value_absLayout, value_absLayout] at hvalue
  obtain ⟨hcoeff, hexp⟩ := eq_of_mul_pow_eq hvalue
  cases x
  cases y
  simp_all

/-- The units that the text of a number is made of. -/
def isNumberUnit (u : UInt16) : Bool :=
  isDigitUnit u || u = 0x2D || u = 0x2B || u = 0x2E || u = 0x65

theorem isNumberUnit_of_mem_text {x : Number} {u : UInt16}
    (h : u ∈ x.text) : isNumberUnit u = true := by
  have hd := digits_absLayout x
  have hdigit : ∀ {v}, isDigitUnit v = true → isNumberUnit v = true := by
    intro v hv
    simp [isNumberUnit, hv]
  have hexp : ∀ e : Option ℤ, ∀ v ∈ expText e, isNumberUnit v = true := by
    intro e v hv
    cases e with
    | none => cases hv
    | some e =>
      simp only [expText, List.mem_cons] at hv
      rcases hv with rfl | rfl | hv
      · rfl
      · split_ifs <;> rfl
      · exact hdigit (isDigitUnit_of_mem_decimal hv)
  rw [text_eq, Layout.text] at h
  simp only [List.mem_append] at h
  rcases h with h | (h | h) | h
  · split_ifs at h
    · rw [List.mem_singleton.mp h]
      rfl
    · cases h
  · exact hdigit (hd.int u h)
  · split_ifs at h
    · cases h
    · rcases List.mem_cons.mp h with rfl | h
      · rfl
      · exact hdigit (hd.frac u h)
  · exact hexp _ u h

theorem text_head (x : Number) :
    ∃ u rest, x.text = u :: rest ∧ (u = 0x2D ∨ isDigitUnit u = true) := by
  obtain ⟨u, r, hu, hud⟩ := head_absLayout x
  rw [text_eq]
  cases x.neg with
  | true => exact ⟨0x2D, _, rfl, .inl rfl⟩
  | false => exact ⟨u, r, hu, .inr hud⟩

/-! ## Integers -/

/-- The decimal of a natural number, without its final zeros. -/
def ofNatExp (n : ℕ) (exp : ℤ) : Number :=
  if h : n % 10 = 0 then
    if h₀ : n = 0 then zero else ofNatExp (n / 10) (exp + 1)
  else ⟨false, n, exp, .inl h⟩
termination_by n
decreasing_by omega

/-- A non-negative integer. -/
def ofNat (n : ℕ) : Number := ofNatExp n 0

theorem value_ofNatExp (n : ℕ) (exp : ℤ) :
    (ofNatExp n exp).value = n * 10 ^ exp := by
  fun_induction ofNatExp n exp with
  | case1 exp => simp [value, zero]
  | case2 n exp h h₀ ih =>
    rw [ih, zpow_add₀ (by norm_num), zpow_one]
    have hn : ((n / 10 : ℕ) : ℚ) * 10 = n := by
      exact_mod_cast (by omega : n / 10 * 10 = n)
    rw [← hn]
    ring
  | case3 n exp h => simp [value]

@[simp] theorem value_ofNat (n : ℕ) : (ofNat n).value = n := by
  simp [ofNat, value_ofNatExp]

end Number

end NewZone.Js
