import Mathlib.Algebra.Group.Nat.Defs
import NewZone.Js.Text

/-!
# Counters

A counter in the source is a JavaScript number that starts at an integer and
is only ever incremented.  It is a natural number here, with the one thing
that a double does and a natural number does not: at `2 ^ 53` the increment
rounds back, so the counter stays there.  `incr` is that increment, and
`decimal` is the text of such a counter in a template string.
-/

namespace NewZone.Js

/-- `x + 1` for a non-negative integer double up to `2 ^ 53`. -/
def incr (n : ℕ) : ℕ := if n < 2 ^ 53 then n + 1 else n

theorem incr_of_lt {n : ℕ} (h : n < 2 ^ 53) : incr n = n + 1 := if_pos h

/-- A counter after `n` increments from `0`. -/
def countTo (n : ℕ) : ℕ := min n (2 ^ 53)

theorem incr_countTo (n : ℕ) : incr (countTo n) = countTo (n + 1) := by
  unfold incr countTo
  split_ifs <;> omega

/-- `ToUint32`, the first step of every shift and mask. -/
def toUint32 (n : ℕ) : ℕ := n % 2 ^ 32

/-- The text of a non-negative integer in a template string. -/
def decimal (n : ℕ) : JsString :=
  (Nat.toDigits 10 n).map fun c => UInt16.ofNat c.toNat

/-- The code unit of a decimal digit. -/
def isDigitUnit (u : UInt16) : Bool := 0x30 ≤ u.toNat && u.toNat ≤ 0x39

theorem digit_toNat {c : Char} (h : c.isDigit = true) :
    48 ≤ c.toNat ∧ c.toNat ≤ 57 := by
  simp only [Char.isDigit, Bool.and_eq_true, decide_eq_true_eq] at h
  exact ⟨h.1, h.2⟩

theorem isDigitUnit_of_mem_decimal {n : ℕ} {u : UInt16} (h : u ∈ decimal n) :
    isDigitUnit u = true := by
  obtain ⟨c, hc, rfl⟩ := List.mem_map.mp h
  have hdigit := digit_toNat
    (Nat.isDigit_of_mem_toDigits (by decide) (by decide) hc)
  have hval : (UInt16.ofNat c.toNat).toNat = c.toNat :=
    UInt16.toNat_ofNat_of_lt' (lt_of_le_of_lt hdigit.2 (by decide))
  simp only [isDigitUnit, hval, Bool.and_eq_true, decide_eq_true_eq]
  exact hdigit

theorem decimal_ne_nil (n : ℕ) : decimal n ≠ [] := by
  intro h
  exact Nat.toDigits_ne_nil (List.map_eq_nil_iff.mp h)

/-- The decimal text determines the number. -/
theorem decimal_injective : Function.Injective decimal := by
  intro m n h
  have hback : ∀ k : ℕ,
      (decimal k).map (fun u => Char.ofNat u.toNat) = Nat.toDigits 10 k := by
    intro k
    rw [decimal, List.map_map]
    refine (List.map_congr_left fun c hc => ?_).trans (List.map_id _)
    have hdigit := digit_toNat
      (Nat.isDigit_of_mem_toDigits (by decide) (by decide) hc)
    have hval : (UInt16.ofNat c.toNat).toNat = c.toNat :=
      UInt16.toNat_ofNat_of_lt' (lt_of_le_of_lt hdigit.2 (by decide))
    rw [Function.comp_apply, hval]
    exact Char.ofNat_toNat c
  have hdigits : Nat.toDigits 10 m = Nat.toDigits 10 n := by
    rw [← hback m, ← hback n, h]
  rw [← @Nat.ofDigitChars_ten_toDigits m, hdigits,
    Nat.ofDigitChars_ten_toDigits]

end NewZone.Js
