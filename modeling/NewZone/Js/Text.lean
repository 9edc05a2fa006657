import Mathlib.Data.List.Basic
import Mathlib.Data.List.Lex
import Mathlib.Order.Basic
import Mathlib.Tactic.SplitIfs

/-!
# JavaScript strings and their bytes

A JavaScript string is a list of 16-bit code units, and nothing makes the
surrogates among them come in pairs.  Two conversions leave that world.
`TextEncoder.encode` and `Buffer.from(s, "utf8")` read the string as Unicode
scalar values, with U+FFFD for every surrogate that has no partner, and write
those in UTF-8.  So the conversion to bytes is not injective, and this file
says exactly how far it is: `utf8_eq_iff` states that two strings have the
same bytes exactly when they agree once every lone surrogate is replaced.

`WellFormed` is the strings on which the conversion loses nothing.
-/

namespace NewZone.Js

/-- A `Uint8Array` or a `Buffer`. -/
abbrev Bytes := List UInt8

/-- A JavaScript string, as its UTF-16 code units. -/
abbrev JsString := List UInt16

/-- Code units are compared as numbers, which is the order that the default
comparator of `Array.prototype.sort` applies to strings, unit by unit. -/
instance uint16LinearOrder : LinearOrder UInt16 where
  le := @LE.le UInt16 instLEUInt16
  lt := @LT.lt UInt16 instLTUInt16
  le_refl := UInt16.le_refl
  le_trans _ _ _ := UInt16.le_trans
  le_antisymm _ _ := UInt16.le_antisymm
  lt_iff_le_not_ge a b := by
    rw [UInt16.lt_iff_toNat_lt, UInt16.le_iff_toNat_le, UInt16.le_iff_toNat_le]
    omega
  le_total := UInt16.le_total
  toDecidableLE := UInt16.decLe
  toDecidableEq := instDecidableEqUInt16
  toDecidableLT := UInt16.decLt

/-! ## Scalar values and code units -/

/-- U+FFFD, the replacement character. -/
def replacement : Char := Char.ofNat 0xFFFD

/-- A unit that opens a surrogate pair. -/
def isHigh (u : UInt16) : Bool := 0xD800 ≤ u.toNat && u.toNat < 0xDC00

/-- A unit that closes a surrogate pair. -/
def isLow (u : UInt16) : Bool := 0xDC00 ≤ u.toNat && u.toNat < 0xE000

/-- The scalar value of a surrogate pair. -/
def pairChar (u v : UInt16) : Char :=
  Char.ofNat (0x10000 + (u.toNat - 0xD800) * 0x400 + (v.toNat - 0xDC00))

/-- The scalar values of a string, with the replacement character for every
surrogate that has no partner. -/
def scalars : JsString → List Char
  | [] => []
  | [u] => if isHigh u || isLow u then [replacement] else [Char.ofNat u.toNat]
  | u :: v :: rest =>
    if isHigh u && isLow v then pairChar u v :: scalars rest
    else if isHigh u || isLow u then replacement :: scalars (v :: rest)
    else Char.ofNat u.toNat :: scalars (v :: rest)

/-- `String.prototype.toWellFormed`: every lone surrogate becomes U+FFFD. -/
def toWellFormed : JsString → JsString
  | [] => []
  | [u] => if isHigh u || isLow u then [0xFFFD] else [u]
  | u :: v :: rest =>
    if isHigh u && isLow v then u :: v :: toWellFormed rest
    else if isHigh u || isLow u then 0xFFFD :: toWellFormed (v :: rest)
    else u :: toWellFormed (v :: rest)

/-- The string has no lone surrogate. -/
def WellFormed (s : JsString) : Prop := toWellFormed s = s

instance (s : JsString) : Decidable (WellFormed s) :=
  inferInstanceAs (Decidable (toWellFormed s = s))

/-- The code units of one scalar value. -/
def charUnits (c : Char) : JsString :=
  if c.toNat < 0x10000 then [UInt16.ofNat c.toNat]
  else [UInt16.ofNat (0xD800 + (c.toNat - 0x10000) / 0x400),
    UInt16.ofNat (0xDC00 + (c.toNat - 0x10000) % 0x400)]

/-- A string literal of the source. -/
def js (s : String) : JsString := s.toList.flatMap charUnits

/-- `TextEncoder.encode` and `Buffer.from(s, "utf8")`. -/
def utf8 (s : JsString) : Bytes := (scalars s).flatMap String.utf8EncodeChar

theorem toNat_ofNat_of_isValidChar {n : Nat} (h : n.isValidChar) :
    (Char.ofNat n).toNat = n := by
  rw [Char.ofNat, dif_pos h]
  rfl

theorem charUnits_replacement : charUnits replacement = [0xFFFD] := by decide

/-- A unit that is no surrogate is the one unit of its scalar value. -/
theorem charUnits_ofNat {u : UInt16} (h : (isHigh u || isLow u) = false) :
    charUnits (Char.ofNat u.toNat) = [u] := by
  have hlt : u.toNat < 65536 := u.toNat_lt
  have hvalid : u.toNat.isValidChar := by
    simp only [isHigh, isLow, Bool.or_eq_false_iff, Bool.and_eq_false_iff,
      decide_eq_false_iff_not] at h
    unfold Nat.isValidChar
    omega
  rw [charUnits, toNat_ofNat_of_isValidChar hvalid, if_pos hlt]
  simp

/-- A surrogate pair is the two units of its scalar value. -/
theorem charUnits_pairChar {u v : UInt16} (hu : isHigh u = true)
    (hv : isLow v = true) : charUnits (pairChar u v) = [u, v] := by
  simp only [isHigh, isLow, Bool.and_eq_true, decide_eq_true_eq] at hu hv
  have hvalid : (0x10000 + (u.toNat - 0xD800) * 0x400
      + (v.toNat - 0xDC00)).isValidChar := by
    unfold Nat.isValidChar
    omega
  rw [charUnits, pairChar, toNat_ofNat_of_isValidChar hvalid,
    if_neg (by omega)]
  have hhi : 0xD800 + (0x10000 + (u.toNat - 0xD800) * 0x400
      + (v.toNat - 0xDC00) - 0x10000) / 0x400 = u.toNat := by omega
  have hlo : 0xDC00 + (0x10000 + (u.toNat - 0xD800) * 0x400
      + (v.toNat - 0xDC00) - 0x10000) % 0x400 = v.toNat := by omega
  rw [hhi, hlo]
  simp

/-- Writing the scalar values back as code units gives the string with its
lone surrogates replaced. -/
theorem flatMap_charUnits_scalars (s : JsString) :
    (scalars s).flatMap charUnits = toWellFormed s := by
  fun_induction scalars s with
  | case1 => rfl
  | case2 u h =>
    rw [toWellFormed, if_pos h]
    simp [charUnits_replacement]
  | case3 u h =>
    rw [toWellFormed, if_neg h]
    simp [charUnits_ofNat (by simpa using h)]
  | case4 u v rest h ih =>
    rw [toWellFormed, if_pos h, List.flatMap_cons, ih]
    rw [Bool.and_eq_true] at h
    rw [charUnits_pairChar h.1 h.2]
    rfl
  | case5 u v rest h h' ih =>
    rw [toWellFormed, if_neg h, if_pos h', List.flatMap_cons, ih,
      charUnits_replacement]
    rfl
  | case6 u v rest h h' ih =>
    rw [toWellFormed, if_neg h, if_neg h', List.flatMap_cons, ih,
      charUnits_ofNat (by simpa using h')]
    rfl

/-! ## What the conversion to bytes identifies -/

/-- A unit that is no surrogate stands for itself in front of any string. -/
theorem scalars_cons {u : UInt16} (h : (isHigh u || isLow u) = false)
    (s : JsString) : scalars (u :: s) = Char.ofNat u.toNat :: scalars s := by
  have hh : isHigh u = false := (Bool.or_eq_false_iff.mp h).1
  cases s with
  | nil => simp [scalars, h]
  | cons v rest => rw [scalars, if_neg (by simp [hh]), if_neg (by simp [h])]

theorem toWellFormed_cons {u : UInt16} (h : (isHigh u || isLow u) = false)
    (s : JsString) : toWellFormed (u :: s) = u :: toWellFormed s := by
  have hh : isHigh u = false := (Bool.or_eq_false_iff.mp h).1
  cases s with
  | nil => simp [toWellFormed, h]
  | cons v rest =>
    rw [toWellFormed, if_neg (by simp [hh]), if_neg (by simp [h])]

/-- Replacing the lone surrogates first changes no scalar value. -/
theorem scalars_toWellFormed (s : JsString) :
    scalars (toWellFormed s) = scalars s := by
  have hrep : (isHigh 0xFFFD || isLow 0xFFFD) = false := by decide
  fun_induction toWellFormed s with
  | case1 => rfl
  | case2 u h => rw [scalars_cons hrep, scalars, scalars, if_pos h]; rfl
  | case3 u h => rfl
  | case4 u v rest h ih =>
    rw [scalars, if_pos h, ih, scalars, if_pos h]
  | case5 u v rest h h' ih =>
    rw [scalars_cons hrep, ih, scalars, if_neg h, if_pos h']
    rfl
  | case6 u v rest h h' ih =>
    have hu : (isHigh u || isLow u) = false := by simpa using h'
    rw [scalars_cons hu, ih, scalars_cons hu]

theorem scalars_eq_iff {s t : JsString} :
    scalars s = scalars t ↔ toWellFormed s = toWellFormed t := by
  constructor
  · intro h
    rw [← flatMap_charUnits_scalars, h, flatMap_charUnits_scalars]
  · intro h
    rw [← scalars_toWellFormed, h, scalars_toWellFormed]

/-- Two strings have the same bytes exactly when they agree once their lone
surrogates are replaced. -/
theorem utf8_eq_iff {s t : JsString} :
    utf8 s = utf8 t ↔ toWellFormed s = toWellFormed t := by
  rw [← scalars_eq_iff]
  constructor
  · intro h
    have henc : (scalars s).utf8Encode = (scalars t).utf8Encode :=
      congrArg List.toByteArray h
    have hdec := congrArg ByteArray.utf8Decode? henc
    rw [List.utf8Decode?_utf8Encode, List.utf8Decode?_utf8Encode] at hdec
    exact congrArg Array.toList (Option.some.inj hdec)
  · intro h
    rw [utf8, h]
    rfl

/-- The conversion to bytes is injective on well-formed strings. -/
theorem utf8_inj {s t : JsString} (hs : WellFormed s) (ht : WellFormed t) :
    utf8 s = utf8 t ↔ s = t := by
  rw [utf8_eq_iff, hs, ht]

/-- The lone surrogates of a string, position by position. -/
def loneSurrogates : JsString → List (Option UInt16)
  | [] => []
  | [u] => if isHigh u || isLow u then [some u] else [none]
  | u :: v :: rest =>
    if isHigh u && isLow v then none :: none :: loneSurrogates rest
    else if isHigh u || isLow u then some u :: loneSurrogates (v :: rest)
    else none :: loneSurrogates (v :: rest)

/-- A string is its well-formed version with the lone surrogates put back. -/
theorem zipWith_loneSurrogates (s : JsString) :
    (loneSurrogates s).zipWith (fun lone unit => lone.getD unit)
      (toWellFormed s) = s := by
  fun_induction toWellFormed s with
  | case1 => rfl
  | case2 u h => simp [loneSurrogates, h]
  | case3 u h => simp [loneSurrogates, h]
  | case4 u v rest h ih => simp [loneSurrogates, h, ih]
  | case5 u v rest h h' ih => simp [loneSurrogates, h, h', ih]
  | case6 u v rest h h' ih => simp [loneSurrogates, h, h', ih]

/-- Strings with the same bytes are equal as soon as they have the same lone
surrogates in the same places. -/
theorem eq_of_utf8_eq {s t : JsString} (h : utf8 s = utf8 t)
    (hlone : loneSurrogates s = loneSurrogates t) : s = t := by
  rw [← zipWith_loneSurrogates s, ← zipWith_loneSurrogates t, hlone,
    utf8_eq_iff.mp h]

/-! ## Well-formed strings -/

theorem wellFormed_nil : WellFormed [] := rfl

/-- A unit that is no surrogate keeps a string well formed. -/
theorem WellFormed.cons {u : UInt16} {s : JsString}
    (h : (isHigh u || isLow u) = false) (hs : WellFormed s) :
    WellFormed (u :: s) := by
  rw [WellFormed, toWellFormed_cons h, hs]

/-- A surrogate pair keeps a string well formed. -/
theorem WellFormed.pair {u v : UInt16} {s : JsString} (hu : isHigh u = true)
    (hv : isLow v = true) (hs : WellFormed s) : WellFormed (u :: v :: s) := by
  rw [WellFormed, toWellFormed, if_pos (by simp [hu, hv]), hs]

/-- A well-formed string is read off unit by unit and pair by pair.  No other
case arises, since U+FFFD in the place of a surrogate is a change. -/
theorem WellFormed.induct {motive : ∀ s, WellFormed s → Prop}
    (nil : motive [] wellFormed_nil)
    (cons : ∀ {u s} (h : (isHigh u || isLow u) = false) (hs : WellFormed s),
      motive s hs → motive (u :: s) (.cons h hs))
    (pair : ∀ {u v s} (hu : isHigh u = true) (hv : isLow v = true) (hs : WellFormed s),
      motive s hs → motive (u :: v :: s) (.pair hu hv hs))
    {s : JsString} (hs : WellFormed s) : motive s hs := by
  have hrep : ∀ u : UInt16, (isHigh u || isLow u) = true → 0xFFFD ≠ u := by
    rintro u hu rfl
    exact absurd hu (by decide)
  have hchanged := hs
  unfold WellFormed at hchanged
  fun_induction toWellFormed s with
  | case1 => exact nil
  | case2 u h => exact absurd (List.cons.inj hchanged).1 (hrep u h)
  | case3 u h => exact cons (by simpa using h) wellFormed_nil nil
  | case4 u v rest h ih =>
    have hrest : WellFormed rest := (List.cons.inj (List.cons.inj hchanged).2).2
    rw [Bool.and_eq_true] at h
    exact pair h.1 h.2 hrest (ih hrest hrest)
  | case5 u v rest h h' ih => exact absurd (List.cons.inj hchanged).1 (hrep u h')
  | case6 u v rest h h' ih =>
    have hrest : WellFormed (v :: rest) := (List.cons.inj hchanged).2
    exact cons (by simpa using h') hrest (ih hrest hrest)

/-- A well-formed string in front changes nothing behind it: it cannot end in
the first half of a pair. -/
theorem toWellFormed_append {s : JsString} (hs : WellFormed s) (t : JsString) :
    toWellFormed (s ++ t) = s ++ toWellFormed t := by
  induction hs using WellFormed.induct with
  | nil => rfl
  | cons h _ ih => rw [List.cons_append, toWellFormed_cons h, ih, List.cons_append]
  | pair hu hv _ ih =>
    rw [List.cons_append, List.cons_append, toWellFormed, if_pos (by simp [hu, hv]), ih]
    rfl

theorem WellFormed.append {s t : JsString} (hs : WellFormed s)
    (ht : WellFormed t) : WellFormed (s ++ t) := by
  rw [WellFormed, toWellFormed_append hs, ht]

/-- A string without surrogates is well formed. -/
theorem wellFormed_of_forall {s : JsString}
    (h : ∀ u ∈ s, (isHigh u || isLow u) = false) : WellFormed s := by
  induction s with
  | nil => exact wellFormed_nil
  | cons u s ih =>
    exact .cons (h u List.mem_cons_self)
      (ih fun v hv => h v (List.mem_cons_of_mem u hv))

/-- The units of a scalar value are read as that value in front of any
string. -/
theorem scalars_charUnits_append (c : Char) (s : JsString) :
    scalars (charUnits c ++ s) = c :: scalars s := by
  have hvalid : c.toNat.isValidChar := c.valid
  unfold Nat.isValidChar at hvalid
  by_cases hlt : c.toNat < 0x10000
  · have hunit : (UInt16.ofNat c.toNat).toNat = c.toNat := UInt16.toNat_ofNat_of_lt' hlt
    have hsurrogate :
        (isHigh (UInt16.ofNat c.toNat) || isLow (UInt16.ofNat c.toNat)) = false := by
      simp only [isHigh, isLow, hunit, Bool.or_eq_false_iff, Bool.and_eq_false_iff,
        decide_eq_false_iff_not]
      omega
    rw [charUnits, if_pos hlt, List.singleton_append, scalars_cons hsurrogate, hunit,
      Char.ofNat_toNat]
  · obtain ⟨n, hn, hc⟩ : ∃ n, n < 0x100000 ∧ c.toNat = 0x10000 + n :=
      ⟨c.toNat - 0x10000, by omega, by omega⟩
    have hsub : c.toNat - 0x10000 = n := by omega
    have hhi : (UInt16.ofNat (0xD800 + n / 0x400)).toNat = 0xD800 + n / 0x400 :=
      UInt16.toNat_ofNat_of_lt' (show _ < 0x10000 by omega)
    have hlo : (UInt16.ofNat (0xDC00 + n % 0x400)).toNat = 0xDC00 + n % 0x400 :=
      UInt16.toNat_ofNat_of_lt' (show _ < 0x10000 by omega)
    have hpair : (isHigh (UInt16.ofNat (0xD800 + n / 0x400))
        && isLow (UInt16.ofNat (0xDC00 + n % 0x400))) = true := by
      simp only [isHigh, isLow, hhi, hlo, Bool.and_eq_true, decide_eq_true_eq]
      omega
    have hvalue : 0x10000 + (0xD800 + n / 0x400 - 0xD800) * 0x400
        + (0xDC00 + n % 0x400 - 0xDC00) = c.toNat := by omega
    rw [charUnits, if_neg hlt, hsub, List.cons_append, List.singleton_append, scalars,
      if_pos hpair, pairChar, hhi, hlo, hvalue, Char.ofNat_toNat]

theorem scalars_flatMap_append (cs : List Char) (s : JsString) :
    scalars (cs.flatMap charUnits ++ s) = cs ++ scalars s := by
  induction cs with
  | nil => rfl
  | cons c cs ih =>
    rw [List.flatMap_cons, List.append_assoc, scalars_charUnits_append, ih, List.cons_append]

theorem scalars_flatMap_charUnits (cs : List Char) : scalars (cs.flatMap charUnits) = cs := by
  have h := scalars_flatMap_append cs []
  rwa [List.append_nil, scalars, List.append_nil] at h

/-- A string of whole scalar values is well formed. -/
theorem wellFormed_flatMap_charUnits (cs : List Char) : WellFormed (cs.flatMap charUnits) := by
  rw [WellFormed, ← flatMap_charUnits_scalars, scalars_flatMap_charUnits]

/-! ## Strings that no other string has the bytes of -/

theorem length_toWellFormed (s : JsString) : (toWellFormed s).length = s.length := by
  fun_induction toWellFormed s with
  | case1 => rfl
  | case2 => rfl
  | case3 => rfl
  | case4 u v rest h ih => rw [List.length_cons, List.length_cons, ih]; rfl
  | case5 u v rest h h' ih => rw [List.length_cons, ih]; rfl
  | case6 u v rest h h' ih => rw [List.length_cons, ih]; rfl

/-- A unit that is no surrogate keeps what is before it apart from what is behind. -/
theorem toWellFormed_append_cons (s : JsString) {u : UInt16}
    (h : (isHigh u || isLow u) = false) (t : JsString) :
    toWellFormed (s ++ u :: t) = toWellFormed s ++ u :: toWellFormed t := by
  have hlow : isLow u = false := (Bool.or_eq_false_iff.mp h).2
  fun_induction toWellFormed s with
  | case1 => exact toWellFormed_cons h t
  | case2 v hv =>
    rw [List.singleton_append, toWellFormed, if_neg (by simp [hlow]), if_pos hv,
      toWellFormed_cons h]
    rfl
  | case3 v hv =>
    rw [List.singleton_append, toWellFormed, if_neg (by simp [hlow]), if_neg hv,
      toWellFormed_cons h]
    rfl
  | case4 v w rest hv ih =>
    rw [List.cons_append, List.cons_append, toWellFormed, if_pos hv, ih]
    rfl
  | case5 v w rest hv hv' ih =>
    rw [List.cons_append, List.cons_append, toWellFormed, if_neg hv, if_pos hv',
      ← List.cons_append, ih]
    rfl
  | case6 v w rest hv hv' ih =>
    rw [List.cons_append, List.cons_append, toWellFormed, if_neg hv, if_neg hv',
      ← List.cons_append, ih]
    rfl

/-- Where no U+FFFD comes out, there was no lone surrogate. -/
theorem wellFormed_of_notMem {s : JsString} (h : 0xFFFD ∉ toWellFormed s) : WellFormed s := by
  unfold WellFormed
  fun_induction toWellFormed s with
  | case1 => rfl
  | case2 u hu => simp at h
  | case3 => rfl
  | case4 u v rest hu ih =>
    rw [ih fun hmem => h (List.mem_cons_of_mem _ (List.mem_cons_of_mem _ hmem))]
  | case5 u v rest hu hu' ih => simp at h
  | case6 u v rest hu hu' ih => rw [ih fun hmem => h (List.mem_cons_of_mem _ hmem)]

/-- A well-formed string does not begin with the second half of a pair. -/
theorem isLow_head_of_wellFormed {s : JsString} (hs : WellFormed s) :
    ∀ u ∈ s.head?, isLow u = false := by
  intro u hu
  cases hs using WellFormed.induct with
  | nil => cases hu
  | cons h _ _ =>
    obtain rfl := Option.some.inj hu
    exact (Bool.or_eq_false_iff.mp h).2
  | pair hhigh _ _ _ =>
    obtain rfl := Option.some.inj hu
    simp only [isHigh, isLow, Bool.and_eq_true, Bool.and_eq_false_iff, decide_eq_true_eq,
      decide_eq_false_iff_not] at hhigh ⊢
    omega

/-- **Which strings their bytes determine.**  No other string has the same bytes
exactly when the string is well formed and has no U+FFFD, which a lone surrogate could
stand for. -/
theorem utf8_unique_iff {s : JsString} :
    (∀ t, utf8 t = utf8 s → t = s) ↔ WellFormed s ∧ 0xFFFD ∉ s := by
  have hrep : (isHigh 0xFFFD || isLow 0xFFFD) = false := by decide
  constructor
  · intro h
    have hs : WellFormed s := by
      refine h (toWellFormed s) (utf8_eq_iff.mpr (scalars_eq_iff.mp ?_))
      exact scalars_toWellFormed s
    refine ⟨hs, fun hmem => ?_⟩
    obtain ⟨a, b, rfl⟩ := List.append_of_mem hmem
    -- the parts before and behind U+FFFD are well formed
    rw [WellFormed, toWellFormed_append_cons _ hrep] at hs
    obtain ⟨ha, hb⟩ := List.append_inj hs (length_toWellFormed a)
    have hb : WellFormed b := (List.cons.inj hb).2
    have hlone : toWellFormed (0xD800 :: b) = 0xFFFD :: b := by
      cases b with
      | nil => rfl
      | cons v rest =>
        have hv := isLow_head_of_wellFormed hb v rfl
        rw [toWellFormed, if_neg (by simp [hv]), if_pos (by decide), hb]
    have hother := h (a ++ 0xD800 :: b) (utf8_eq_iff.mpr ?_)
    · exact absurd (List.cons.inj (List.append_cancel_left hother)).1 (by decide)
    · rw [toWellFormed_append ha, hlone, toWellFormed_append_cons _ hrep, ha, hb]
  · rintro ⟨hs, hrep⟩ t ht
    have ht := utf8_eq_iff.mp ht
    rw [hs] at ht
    have hwell : WellFormed t := wellFormed_of_notMem (by rw [ht]; exact hrep)
    rw [← hwell, ht]

end NewZone.Js
