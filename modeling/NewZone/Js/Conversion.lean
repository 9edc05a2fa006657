import Mathlib.Data.List.DropRight
import NewZone.Lib.ExceptBind
import NewZone.Js.Json
import NewZone.Js.Object

/-!
# Conversion to a number

An arithmetic operator converts its operands.  `toNumber` is that conversion for
a JSON value: an array or an object is a text first, and a text is read by the
grammar of `StringNumericLiteral`.  What is no number in that grammar is `NaN`.

The value of a numeral is a rational number, which the engine rounds to a
double.  `round` is that rounding, with `none` where it overflows.
`stringToNumber_text` says that the text of a number reads as that number.
-/

namespace NewZone.Js

/-- A number, or one of the values that are no finite number. -/
inductive Double where
  | nan
  | infinite (neg : Bool)
  | finite (value : ℚ)
  deriving DecidableEq

/-- The double for a rational number. -/
def rounded (round : ℚ → Option ℚ) (value : ℚ) : Double :=
  match round value with
  | some double => .finite double
  | none => .infinite (value < 0)

/-! ## The text of a number -/

/-- `WhiteSpace` and `LineTerminator` -/
def isSpace (u : UInt16) : Bool :=
  let n := u.toNat
  (0x09 ≤ n && n ≤ 0x0D) || n = 0x20 || n = 0xA0 || n = 0x1680 || (0x2000 ≤ n && n ≤ 0x200A)
    || n = 0x2028 || n = 0x2029 || n = 0x202F || n = 0x205F || n = 0x3000 || n = 0xFEFF

/-- `trim` -/
def trim (s : JsString) : JsString := (s.dropWhile isSpace).rdropWhile isSpace

/-- A digit of a radix up to 16. -/
def digitOf (u : UInt16) : Option ℕ :=
  let n := u.toNat
  if 0x30 ≤ n ∧ n ≤ 0x39 then some (n - 0x30)
  else if 0x61 ≤ n ∧ n ≤ 0x66 then some (n - 0x61 + 10)
  else if 0x41 ≤ n ∧ n ≤ 0x46 then some (n - 0x41 + 10)
  else none

/-- The letter behind the `0`, in either case. -/
def radixOf (u : UInt16) : Option ℕ :=
  if u = 0x78 ∨ u = 0x58 then some 16
  else if u = 0x6F ∨ u = 0x4F then some 8
  else if u = 0x62 ∨ u = 0x42 then some 2
  else none

def radixDigits (radix acc : ℕ) : JsString → Option ℕ
  | [] => some acc
  | u :: rest =>
    match digitOf u with
    | some d => if d < radix then radixDigits radix (radix * acc + d) rest else none
    | none => none

/-- `NonDecimalIntegerLiteral` -/
def nonDecimal : JsString → Option ℕ
  | zero :: letter :: d :: rest =>
    if zero = Number.digit0 then
      (radixOf letter).bind fun radix => radixDigits radix 0 (d :: rest)
    else none
  | _ => none

/-- A sign in front. -/
def splitSign : JsString → Bool × JsString
  | [] => (false, [])
  | u :: rest =>
    if u = 0x2D then (true, rest) else if u = 0x2B then (false, rest) else (false, u :: rest)

/-- `SignedInteger` -/
def signedInteger (s : JsString) : Option ℤ :=
  let (neg, digits) := splitSign s
  if digits ≠ [] ∧ digits.all isDigitUnit then
    some (if neg then -(Number.digitsVal digits) else Number.digitsVal digits)
  else none

/-- `ExponentPart`, or nothing. -/
def exponentPart : JsString → Option ℤ
  | [] => some 0
  | u :: rest => if u = 0x65 ∨ u = 0x45 then signedInteger rest else none

/-- The digits behind a point, and what follows them. -/
def fraction : JsString → JsString × JsString
  | [] => ([], [])
  | u :: rest =>
    if u = 0x2E then (rest.takeWhile isDigitUnit, rest.dropWhile isDigitUnit)
    else ([], u :: rest)

/-- `StrUnsignedDecimalLiteral`, but not `Infinity` -/
def unsignedDecimal (s : JsString) : Option ℚ :=
  let int := s.takeWhile isDigitUnit
  let (frac, rest) := fraction (s.dropWhile isDigitUnit)
  if int = [] ∧ frac = [] then none
  else
    (exponentPart rest).map fun e : ℤ =>
      (Number.digitsVal (int ++ frac) : ℚ) * 10 ^ (e - frac.length)

/-- `StringToNumber` -/
def stringToNumber (round : ℚ → Option ℚ) (s : JsString) : Double :=
  let text := trim s
  if text = [] then .finite 0
  else
    match nonDecimal text with
    | some n => rounded round n
    | none =>
      let (neg, text) := splitSign text
      if text = js "Infinity" then .infinite neg
      else
        match unsignedDecimal text with
        | some value => rounded round (if neg then -value else value)
        | none => .nan

/-! ## `ToNumber` -/

namespace Json

mutual

/-- `ToString`.  An object that has a member of the name `toString` has no text, as
that member is not a function. -/
def toText : Json → Except String JsString
  | .null => .ok (js "null")
  | .bool true => .ok (js "true")
  | .bool false => .ok (js "false")
  | .num x => .ok x.text
  | .str s => .ok s
  | .arr items => do return joinComma (← itemTexts items)
  | .obj members =>
    if (getProp (js "toString") members).isSome then
      .error "Cannot convert object to primitive value"
    else .ok (js "[object Object]")

/-- The parts of `join(",")`, where `null` is empty. -/
def itemTexts : List Json → Except String (List JsString)
  | [] => .ok []
  | .null :: items => do return [] :: (← itemTexts items)
  | item :: items => do return (← toText item) :: (← itemTexts items)

end

/-- `ToNumber` -/
def toNumber (round : ℚ → Option ℚ) : Json → Except String Double
  | .null => .ok (.finite 0)
  | .bool b => .ok (.finite (if b then 1 else 0))
  | .num x => .ok (.finite x.value)
  | .str s => .ok (stringToNumber round s)
  | v => do return stringToNumber round (← toText v)

end Json

/-! ## Reading the text of a number -/

theorem not_isSpace_of_isNumberUnit {u : UInt16} (h : Number.isNumberUnit u = true) :
    isSpace u = false := by
  simp only [Number.isNumberUnit, isDigitUnit, Bool.or_eq_true, Bool.and_eq_true,
    decide_eq_true_eq] at h
  rcases h with (((h | rfl) | rfl) | rfl) | rfl
  · have hne : ∀ n ∈ [0x20, 0xA0, 0x1680, 0x2028, 0x2029, 0x202F, 0x205F, 0x3000, 0xFEFF],
        u.toNat ≠ n := by
      intro n hn
      simp only [List.mem_cons, List.not_mem_nil, or_false] at hn
      omega
    simp only [List.forall_mem_cons, List.not_mem_nil, false_imp_iff, implies_true,
      and_true] at hne
    simp [isSpace, hne]
    omega
  · rfl
  · rfl
  · rfl
  · rfl

theorem trim_of_forall {s : JsString} (h : ∀ u ∈ s, isSpace u = false) : trim s = s := by
  have hfront : s.dropWhile isSpace = s := by
    cases s with
    | nil => rfl
    | cons u rest => rw [List.dropWhile_cons, h u List.mem_cons_self, if_neg (by decide)]
  unfold trim
  rw [hfront, List.rdropWhile_eq_self_iff]
  intro hs
  simp [h _ (List.getLast_mem hs)]

theorem radixOf_eq_none {u : UInt16} (h : Number.isNumberUnit u = true) : radixOf u = none := by
  unfold radixOf
  split_ifs with h₁ h₂ h₃
  · rcases h₁ with rfl | rfl <;> exact absurd h (by decide)
  · rcases h₂ with rfl | rfl <;> exact absurd h (by decide)
  · rcases h₃ with rfl | rfl <;> exact absurd h (by decide)
  · rfl

theorem nonDecimal_eq_none {s : JsString} (h : ∀ u ∈ s, Number.isNumberUnit u = true) :
    nonDecimal s = none := by
  unfold nonDecimal
  split
  · rename_i zero letter d rest
    rw [radixOf_eq_none (h letter (by simp))]
    exact ite_self _
  · rfl

/-- The digits in front of something else. -/
theorem span_digits {a r : JsString} (ha : ∀ u ∈ a, isDigitUnit u = true)
    (hr : ∀ u ∈ r.head?, isDigitUnit u = false) :
    (a ++ r).takeWhile isDigitUnit = a ∧ (a ++ r).dropWhile isDigitUnit = r := by
  rw [List.takeWhile_append_of_pos ha, List.dropWhile_append_of_pos ha]
  cases r with
  | nil => simp
  | cons u r =>
    have hu : isDigitUnit u = false := hr u rfl
    simp [hu]

theorem signedInteger_digits {e : ℤ} :
    signedInteger ((if e < 0 then 0x2D else 0x2B) :: decimal e.natAbs) = some e := by
  have hall : (decimal e.natAbs).all isDigitUnit = true :=
    List.all_eq_true.mpr fun u hu => isDigitUnit_of_mem_decimal hu
  unfold signedInteger splitSign
  by_cases he : e < 0
  · simp [he, decimal_ne_nil, hall, Number.digitsVal_decimal, abs_of_neg he]
  · simp [he, decimal_ne_nil, hall, Number.digitsVal_decimal]
    omega

theorem exponentPart_expText (e : Option ℤ) :
    exponentPart (Number.expText e) = some (e.getD 0) := by
  cases e with
  | none => rfl
  | some e => exact signedInteger_digits

/-- The text of a layout reads as the layout. -/
theorem unsignedDecimal_text {l : Number.Layout} (h : l.Digits) :
    unsignedDecimal l.text = some l.value := by
  have hexp : ∀ u ∈ (Number.expText l.exp).head?, isDigitUnit u = false :=
    fun u hu => (Number.expText_head l.exp u hu).1
  have hfraction : fraction ((if l.frac = [] then [] else 0x2E :: l.frac)
      ++ Number.expText l.exp) = (l.frac, Number.expText l.exp) := by
    by_cases hfrac : l.frac = []
    · rw [if_pos hfrac, List.nil_append, hfrac]
      cases hhead : Number.expText l.exp with
      | nil => rfl
      | cons u rest =>
        have hpoint := (Number.expText_head l.exp u (by rw [hhead]; rfl)).2
        rw [fraction, if_neg hpoint]
    · obtain ⟨htake, hdrop⟩ := span_digits h.frac hexp
      rw [if_neg hfrac, List.cons_append, fraction, if_pos rfl, htake, hdrop]
  have hrest : ∀ u ∈ ((if l.frac = [] then [] else 0x2E :: l.frac)
      ++ Number.expText l.exp).head?, isDigitUnit u = false := by
    intro u hu
    split_ifs at hu
    · exact hexp u hu
    · obtain rfl : 0x2E = u := Option.some.inj hu
      rfl
  obtain ⟨hint, hdrop⟩ := span_digits h.int hrest
  unfold unsignedDecimal Number.Layout.text
  rw [List.append_assoc, hint, hdrop, hfraction]
  dsimp only
  rw [if_neg fun hnil => h.int_ne hnil.1, exponentPart_expText]
  rfl

/-- **A numeral is read as it is written.** -/
theorem stringToNumber_text (round : ℚ → Option ℚ) (x : Number) :
    stringToNumber round x.text = rounded round x.value := by
  have hunits : ∀ u ∈ x.text, Number.isNumberUnit u = true :=
    fun _ hu => Number.isNumberUnit_of_mem_text hu
  have htrim : trim x.text = x.text :=
    trim_of_forall fun u hu => not_isSpace_of_isNumberUnit (hunits u hu)
  obtain ⟨u, rest, hhead, hdigit⟩ := Number.head_absLayout x
  have hsign : splitSign x.text = (x.neg, x.absLayout.text) := by
    rw [Number.text_eq]
    cases x.neg with
    | true => rfl
    | false =>
      have hminus : u ≠ 0x2D := by
        rintro rfl
        cases hdigit
      have hplus : u ≠ 0x2B := by
        rintro rfl
        cases hdigit
      rw [hhead]
      show splitSign (u :: rest) = _
      rw [splitSign, if_neg hminus, if_neg hplus]
  have hne : x.text ≠ [] := by
    intro h
    rw [Number.text_eq, hhead] at h
    simp at h
  have hinfinity : x.absLayout.text ≠ js "Infinity" := by
    intro h
    rw [hhead] at h
    rw [(List.cons.inj h).1] at hdigit
    cases hdigit
  unfold stringToNumber
  dsimp only
  rw [htrim, if_neg hne, nonDecimal_eq_none hunits, hsign]
  dsimp only
  rw [if_neg hinfinity, unsignedDecimal_text (Number.digits_absLayout x)]
  dsimp only
  rw [Number.value_absLayout]
  congr 1
  unfold Number.value
  cases x.neg <;> simp

end NewZone.Js
