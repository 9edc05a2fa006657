import NewZone.Js.Json

/-!
# Bytes in texts

`buf.toString("base64")` and `Buffer.from(s, "base64")`.  The reader is
lenient: it also takes the URL-safe alphabet, skips what is in neither
alphabet, stops at the first `=`, and drops bits that do not fill a byte.
Whatever the writer wrote it reads back (`decode_encode`).

`toHex` is `buf.toString("hex")`.
-/

namespace NewZone.Js

namespace Base64

/-- The character of a value below `64`. -/
def digit (n : ℕ) : UInt16 :=
  UInt16.ofNat
    (if n < 26 then 0x41 + n
    else if n < 52 then 0x61 + (n - 26)
    else if n < 62 then 0x30 + (n - 52)
    else if n = 62 then 0x2B
    else 0x2F)

/-- `toString("base64")`. -/
def encode : Bytes → JsString
  | [] => []
  | [a] => [digit (a.toNat / 4), digit (a.toNat % 4 * 16), 0x3D, 0x3D]
  | [a, b] =>
    [digit (a.toNat / 4), digit (a.toNat % 4 * 16 + b.toNat / 16),
      digit (b.toNat % 16 * 4), 0x3D]
  | a :: b :: c :: rest =>
    digit (a.toNat / 4) :: digit (a.toNat % 4 * 16 + b.toNat / 16) ::
      digit (b.toNat % 16 * 4 + c.toNat / 64) :: digit (c.toNat % 64) ::
      encode rest

/-- The value of a character of either alphabet. -/
def sextet (u : UInt16) : Option ℕ :=
  let n := u.toNat
  if 0x41 ≤ n ∧ n ≤ 0x5A then some (n - 0x41)
  else if 0x61 ≤ n ∧ n ≤ 0x7A then some (n - 0x61 + 26)
  else if 0x30 ≤ n ∧ n ≤ 0x39 then some (n - 0x30 + 52)
  else if n = 0x2B ∨ n = 0x2D then some 62
  else if n = 0x2F ∨ n = 0x5F then some 63
  else none

def joinSextets : List ℕ → Bytes
  | a :: b :: c :: d :: rest =>
    UInt8.ofNat (a * 4 + b / 16) :: UInt8.ofNat (b % 16 * 16 + c / 4) ::
      UInt8.ofNat (c % 4 * 64 + d) :: joinSextets rest
  | [a, b, c] => [UInt8.ofNat (a * 4 + b / 16), UInt8.ofNat (b % 16 * 16 + c / 4)]
  | [a, b] => [UInt8.ofNat (a * 4 + b / 16)]
  | [_] => []
  | [] => []

/-- `Buffer.from(s, "base64")`. -/
def decode (s : JsString) : Bytes :=
  joinSextets ((s.takeWhile (· ≠ 0x3D)).filterMap sextet)

/-! ## Round trip -/

theorem sextet_digit {n : ℕ} (h : n < 64) : sextet (digit n) = some n := by
  revert n
  decide

theorem digit_ne_pad {n : ℕ} (h : n < 64) : digit n ≠ 0x3D := by
  revert n
  decide

/-- The values that the reader sees. -/
def sextets (s : JsString) : List ℕ :=
  (s.takeWhile (· ≠ 0x3D)).filterMap sextet

theorem sextets_digit_cons {n : ℕ} (h : n < 64) (s : JsString) :
    sextets (digit n :: s) = n :: sextets s := by
  rw [sextets, List.takeWhile_cons_of_pos (by simpa using digit_ne_pad h),
    List.filterMap_cons, sextet_digit h]
  rfl

theorem sextets_pad_cons (s : JsString) : sextets (0x3D :: s) = [] := by
  rw [sextets, List.takeWhile_cons_of_neg (by simp)]
  rfl

theorem ofNat_eq_of_toNat {n : ℕ} {a : UInt8} (h : n = a.toNat) :
    UInt8.ofNat n = a := by
  rw [h]
  simp

/-- What the writer wrote is read back. -/
theorem decode_encode (b : Bytes) : decode (encode b) = b := by
  show joinSextets (sextets (encode b)) = b
  fun_induction encode b with
  | case1 => rfl
  | case2 a =>
    have ha := a.toNat_lt
    rw [sextets_digit_cons (by omega), sextets_digit_cons (by omega),
      sextets_pad_cons, joinSextets, @ofNat_eq_of_toNat _ a (by omega)]
  | case3 a b =>
    have ha := a.toNat_lt
    have hb := b.toNat_lt
    rw [sextets_digit_cons (by omega), sextets_digit_cons (by omega),
      sextets_digit_cons (by omega), sextets_pad_cons, joinSextets,
      @ofNat_eq_of_toNat _ a (by omega), @ofNat_eq_of_toNat _ b (by omega)]
  | case4 a b c rest ih =>
    have ha := a.toNat_lt
    have hb := b.toNat_lt
    have hc := c.toNat_lt
    rw [sextets_digit_cons (by omega), sextets_digit_cons (by omega),
      sextets_digit_cons (by omega), sextets_digit_cons (by omega),
      joinSextets, @ofNat_eq_of_toNat _ a (by omega),
      @ofNat_eq_of_toNat _ b (by omega), @ofNat_eq_of_toNat _ c (by omega), ih]

theorem encode_ne_nil {b : Bytes} (h : b ≠ []) : encode b ≠ [] := by
  intro hnil
  have := decode_encode b
  rw [hnil] at this
  exact h this.symm

end Base64

/-! ## Hexadecimal -/

/-- `buf.toString("hex")`. -/
def toHex (b : Bytes) : JsString :=
  b.flatMap fun x => [Json.hexDigit (x.toNat / 16), Json.hexDigit (x.toNat % 16)]

theorem toHex_cons (x : UInt8) (b : Bytes) :
    toHex (x :: b)
      = Json.hexDigit (x.toNat / 16) :: Json.hexDigit (x.toNat % 16) :: toHex b :=
  rfl

theorem length_toHex (b : Bytes) : (toHex b).length = 2 * b.length := by
  induction b with
  | nil => rfl
  | cons x b ih =>
    rw [toHex_cons, List.length_cons, List.length_cons, List.length_cons, ih]
    omega

theorem toHex_ne_nil {b : Bytes} (h : b ≠ []) : toHex b ≠ [] := by
  cases b with
  | nil => exact absurd rfl h
  | cons x b => simp [toHex]

theorem hexDigit_inj {m n : ℕ} (hm : m < 16) (hn : n < 16)
    (h : Json.hexDigit m = Json.hexDigit n) : m = n := by
  rw [← Json.hexVal_hexDigit hm, h, Json.hexVal_hexDigit hn]

theorem toHex_injective : Function.Injective toHex := by
  intro a b h
  induction a generalizing b with
  | nil =>
    cases b with
    | nil => rfl
    | cons y b => cases h
  | cons x a ih =>
    cases b with
    | nil => cases h
    | cons y b =>
      have hx := x.toNat_lt
      have hy := y.toNat_lt
      rw [toHex_cons, toHex_cons] at h
      obtain ⟨hhigh, h⟩ := List.cons.inj h
      obtain ⟨hlow, h⟩ := List.cons.inj h
      have hdiv := hexDigit_inj (by omega) (by omega) hhigh
      have hmod := hexDigit_inj (by omega) (by omega) hlow
      have hxy : x = y := UInt8.toNat_inj.mp (by omega)
      rw [hxy, ih h]

theorem wellFormed_toHex (b : Bytes) : WellFormed (toHex b) := by
  have hhex : ∀ n < 16, Json.isAscii (Json.hexDigit n) = true := by decide
  apply Json.wellFormed_of_ascii
  intro u hu
  obtain ⟨x, -, hu⟩ := List.mem_flatMap.mp hu
  have hx := x.toNat_lt
  rcases List.mem_cons.mp hu with rfl | hu
  · exact hhex _ (by omega)
  · obtain rfl := List.mem_singleton.mp hu
    exact hhex _ (by omega)

end NewZone.Js
