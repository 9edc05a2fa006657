import NewZone.Js.Conversion
import NewZone.Lib.Words

/-!
# Lower case

`String.prototype.toLowerCase` maps the code points of a string by the
Unicode default case conversion.  The mappings are data of the Unicode version
that the engine has, and `CaseData` is a parameter for them.  `Lawful` lists
what every version says of them.

One mapping depends on the context: a capital sigma at the end of a word
becomes a final sigma.  A string without such letters is lower-cased one
letter at a time (`toLowerCase_flatMap`).
-/

namespace NewZone.Js

open NewZone.Words

/-! ## Code points -/

/-- A lone surrogate is a code point of its own. -/
inductive CodePoint where
  | scalar (c : Char)
  | surrogate (u : UInt16)
  deriving DecidableEq

/-- `StringToCodePoints` -/
def stringToCodePoints : JsString → List CodePoint
  | [] => []
  | [u] => if isHigh u || isLow u then [.surrogate u] else [.scalar (Char.ofNat u.toNat)]
  | u :: v :: rest =>
    if isHigh u && isLow v then .scalar (pairChar u v) :: stringToCodePoints rest
    else if isHigh u || isLow u then .surrogate u :: stringToCodePoints (v :: rest)
    else .scalar (Char.ofNat u.toNat) :: stringToCodePoints (v :: rest)

/-- `UTF16EncodeCodePoint` -/
def CodePoint.units : CodePoint → JsString
  | .scalar c => charUnits c
  | .surrogate u => [u]

/-- A well-formed string has no other code points than its scalar values. -/
theorem stringToCodePoints_of_wellFormed {s : JsString} (hs : WellFormed s) :
    stringToCodePoints s = (scalars s).map .scalar := by
  induction hs using WellFormed.induct with
  | nil => rfl
  | @cons u s h _ ih =>
    have hh : isHigh u = false := (Bool.or_eq_false_iff.mp h).1
    rw [scalars_cons h, List.map_cons, ← ih]
    cases s with
    | nil => simp [stringToCodePoints, h]
    | cons v rest => rw [stringToCodePoints, if_neg (by simp [hh]), if_neg (by simp [h])]
  | pair hu hv _ ih =>
    have hpair := Bool.and_eq_true_iff.mpr ⟨hu, hv⟩
    rw [stringToCodePoints, if_pos hpair, scalars, if_pos hpair, ih, List.map_cons]

/-! ## The case conversion -/

/-- The case data of a Unicode version. -/
structure CaseData where
  /-- The mapping to lower case that has no condition. -/
  lowercase : Char → List Char
  cased : Char → Bool
  caseIgnorable : Char → Bool

/-- What Unicode says of the mapping: no letter is lost, what it gives is lower
case already, and a space is no capital letter. -/
structure CaseData.Lawful (unicode : CaseData) : Prop where
  lowercase_ne_nil : ∀ c, unicode.lowercase c ≠ []
  lowercase_lowercase : ∀ c, ∀ d ∈ unicode.lowercase c, unicode.lowercase d = [d]
  lowercase_sigma : unicode.lowercase 'Σ' = ['σ']
  lowercase_space : unicode.lowercase ' ' = [' ']

variable (unicode : CaseData)

/-- A cased letter follows, behind any number of case-ignorable ones. -/
def CaseData.reachesCased : List CodePoint → Bool
  | .scalar c :: rest => unicode.cased c || unicode.caseIgnorable c && CaseData.reachesCased rest
  | _ => false

/-- `Final_Sigma`.  What stands before the letter is given nearest first. -/
def finalSigma (before after : List CodePoint) : Bool :=
  unicode.reachesCased before && !unicode.reachesCased after

/-- The lower case of a code point in its context. -/
def lowerPoint (before : List CodePoint) (point : CodePoint) (after : List CodePoint) :
    List CodePoint :=
  match point with
  | .scalar c =>
    if c = 'Σ' ∧ finalSigma unicode before after then [.scalar 'ς']
    else (unicode.lowercase c).map .scalar
  | .surrogate u => [.surrogate u]

/-- The code points from `point` on, behind the ones in `before`. -/
def lowerPoints (before : List CodePoint) : List CodePoint → List CodePoint
  | [] => []
  | point :: after =>
    lowerPoint unicode before point after ++ lowerPoints (point :: before) after

/-- `toLowerCase` -/
def toLowerCase (s : JsString) : JsString :=
  (lowerPoints unicode [] (stringToCodePoints s)).flatMap CodePoint.units

/-! ## Letters with a lower case of their own -/

/-- The code units of the lower case of a letter. -/
def lowerUnits (c : Char) : JsString := (unicode.lowercase c).flatMap charUnits

/-- The lower case of the letter is the same in every context. -/
def ContextFree (c : Char) : Prop :=
  ∀ before after before' after', lowerPoint unicode before (.scalar c) after
    = lowerPoint unicode before' (.scalar c) after'

/-- A letter that is white space.  It is one code unit. -/
def isSpaceChar (c : Char) : Bool := decide (c.toNat < 0x10000) && isSpace (UInt16.ofNat c.toNat)

/-- The lower case of the letter is white space exactly if the letter is. -/
def KeepsSpace (c : Char) : Prop := ∀ d ∈ unicode.lowercase c, isSpaceChar d = isSpaceChar c

variable {unicode : CaseData}

theorem ContextFree.lowerPoint_eq {c : Char} (h : ContextFree unicode c)
    (before after : List CodePoint) :
    lowerPoint unicode before (.scalar c) after = (unicode.lowercase c).map .scalar := by
  rw [h before after [] []]
  exact if_neg fun hfinal => Bool.false_ne_true hfinal.2

/-- Only a capital sigma looks at its context. -/
theorem contextFree_of_ne {c : Char} (hc : c ≠ 'Σ') : ContextFree unicode c := by
  intro before after before' after'
  simp [lowerPoint, hc]

theorem lowerPoints_of_contextFree {cs : List Char} (h : ∀ c ∈ cs, ContextFree unicode c)
    (before : List CodePoint) :
    lowerPoints unicode before (cs.map .scalar)
      = (cs.flatMap unicode.lowercase).map .scalar := by
  induction cs generalizing before with
  | nil => rfl
  | cons c cs ih =>
    obtain ⟨hc, h⟩ := List.forall_mem_cons.mp h
    rw [List.map_cons, lowerPoints, hc.lowerPoint_eq, ih h, List.flatMap_cons, List.map_append]

theorem flatMap_lowerUnits (cs : List Char) :
    cs.flatMap (lowerUnits unicode) = (cs.flatMap unicode.lowercase).flatMap charUnits :=
  List.flatMap_assoc.symm

/-- Lower-casing goes letter by letter where no context matters. -/
theorem toLowerCase_flatMap {cs : List Char} (h : ∀ c ∈ cs, ContextFree unicode c) :
    toLowerCase unicode (cs.flatMap charUnits) = cs.flatMap (lowerUnits unicode) := by
  rw [toLowerCase, stringToCodePoints_of_wellFormed (wellFormed_flatMap_charUnits cs),
    scalars_flatMap_charUnits, lowerPoints_of_contextFree h, List.flatMap_map, flatMap_lowerUnits]
  rfl

/-! ## Lower case that is lower case already -/

theorem CaseData.Lawful.contextFree (hlaw : unicode.Lawful) {c d : Char}
    (hd : d ∈ unicode.lowercase c) : ContextFree unicode d := by
  apply contextFree_of_ne
  rintro rfl
  have hfixed := hlaw.lowercase_lowercase c 'Σ' hd
  rw [hlaw.lowercase_sigma] at hfixed
  exact absurd hfixed (by decide)

theorem CaseData.Lawful.keepsSpace (hlaw : unicode.Lawful) {c d : Char}
    (hd : d ∈ unicode.lowercase c) : KeepsSpace unicode d := by
  intro e he
  rw [hlaw.lowercase_lowercase c d hd, List.mem_singleton] at he
  rw [he]

/-- Lower-casing a second time changes nothing. -/
theorem CaseData.Lawful.toLowerCase_lowerUnits (hlaw : unicode.Lawful) (cs : List Char) :
    toLowerCase unicode (cs.flatMap (lowerUnits unicode)) = cs.flatMap (lowerUnits unicode) := by
  have hfree : ∀ d ∈ cs.flatMap unicode.lowercase, ContextFree unicode d := by
    intro d hd
    obtain ⟨c, _, hd⟩ := List.mem_flatMap.mp hd
    exact hlaw.contextFree hd
  rw [flatMap_lowerUnits, toLowerCase_flatMap hfree]
  apply List.flatMap_congr
  intro d hd
  obtain ⟨c, _, hd⟩ := List.mem_flatMap.mp hd
  rw [lowerUnits, hlaw.lowercase_lowercase c d hd, List.flatMap_singleton]

/-! ## White space -/

theorem isSpace_of_surrogate {u : UInt16} (h : 0xD800 ≤ u.toNat ∧ u.toNat < 0xE000) :
    isSpace u = false := by
  simp only [isSpace, Bool.or_eq_false_iff, Bool.and_eq_false_iff, decide_eq_false_iff_not]
  omega

/-- The units of a letter are white space exactly if the letter is. -/
theorem keeps_charUnits (c : Char) : Keeps isSpaceChar isSpace charUnits c := by
  have hvalid : c.toNat.isValidChar := c.valid
  unfold Nat.isValidChar at hvalid
  by_cases hlt : c.toNat < 0x10000
  · constructor <;> simp [charUnits, isSpaceChar, hlt]
  · have hspace : isSpaceChar c = false := by simp [isSpaceChar, hlt]
    constructor
    · simp [charUnits, hlt]
    · intro u hu
      rw [hspace]
      apply isSpace_of_surrogate
      rw [charUnits, if_neg hlt] at hu
      rcases List.mem_pair.mp hu with rfl | rfl
      · rw [UInt16.toNat_ofNat_of_lt' (show _ < 0x10000 by omega)]
        omega
      · rw [UInt16.toNat_ofNat_of_lt' (show _ < 0x10000 by omega)]
        omega

/-- Where lower-casing keeps white space, no word begins or ends in a new place. -/
theorem CaseData.Lawful.keeps_lowercase (hlaw : unicode.Lawful) {c : Char}
    (hc : KeepsSpace unicode c) : Keeps isSpaceChar isSpaceChar unicode.lowercase c :=
  ⟨hlaw.lowercase_ne_nil c, hc⟩

theorem CaseData.Lawful.keeps_lowerUnits (hlaw : unicode.Lawful) {c : Char}
    (hc : KeepsSpace unicode c) : Keeps isSpaceChar isSpace (lowerUnits unicode) c :=
  (hlaw.keeps_lowercase hc).trans fun d _ => keeps_charUnits d

end NewZone.Js
