import NewZone.Js.NumberText

/-!
# JSON

A JSON value as the program holds it after `JSON.parse`: the members of an
object are listed in the order in which the object enumerates them, and its numbers are
finite, so texts with numerals that overflow are left out.
`stringify` is `JSON.stringify` on such values; it quotes a lone surrogate as
an escape, so its output is well formed whatever the strings are.

`stringify_inj` is the fact that the signatures rest on: one text belongs to
one value, even when it is followed by more text.  It is proved by reading the
text from the left, so no part of a parser for JSON is needed.
-/

namespace NewZone.Js

inductive Json where
  | null
  | bool (b : Bool)
  | num (x : Number)
  | str (s : JsString)
  | arr (items : List Json)
  | obj (members : List (JsString × Json))

namespace Json

/-! ## Quoting -/

/-- A lower-case hexadecimal digit. -/
def hexDigit (n : ℕ) : UInt16 :=
  UInt16.ofNat (if n < 10 then 0x30 + n else 0x61 + (n - 10))

/-- `\uXXXX`. -/
def unicodeEscape (u : UInt16) : JsString :=
  [0x5C, 0x75, hexDigit (u.toNat / 4096), hexDigit (u.toNat / 256 % 16),
    hexDigit (u.toNat / 16 % 16), hexDigit (u.toNat % 16)]

/-- What `QuoteJSONString` writes for a unit that is not half of a surrogate
pair. -/
def escapeUnit (u : UInt16) : JsString :=
  if u = 0x08 then [0x5C, 0x62]
  else if u = 0x09 then [0x5C, 0x74]
  else if u = 0x0A then [0x5C, 0x6E]
  else if u = 0x0C then [0x5C, 0x66]
  else if u = 0x0D then [0x5C, 0x72]
  else if u = 0x22 then [0x5C, 0x22]
  else if u = 0x5C then [0x5C, 0x5C]
  else if u.toNat < 0x20 ∨ (isHigh u || isLow u) = true then unicodeEscape u
  else [u]

def escape : JsString → JsString
  | [] => []
  | [u] => escapeUnit u
  | u :: v :: rest =>
    if isHigh u && isLow v then u :: v :: escape rest
    else escapeUnit u ++ escape (v :: rest)

/-- `QuoteJSONString`. -/
def quote (s : JsString) : JsString := 0x22 :: (escape s ++ [0x22])

/-! ## `JSON.stringify` -/

/-- `join(",")`. -/
def joinComma : List JsString → JsString
  | [] => []
  | t :: ts => t ++ ts.flatMap fun u => 0x2C :: u

mutual

def stringify : Json → JsString
  | .null => js "null"
  | .bool true => js "true"
  | .bool false => js "false"
  | .num x => x.text
  | .str s => quote s
  | .arr items => 0x5B :: (joinComma (stringifyItems items) ++ [0x5D])
  | .obj members => 0x7B :: (joinComma (stringifyMembers members) ++ [0x7D])

def stringifyItems : List Json → List JsString
  | [] => []
  | v :: vs => stringify v :: stringifyItems vs

def stringifyMembers : List (JsString × Json) → List JsString
  | [] => []
  | (k, v) :: ms => (quote k ++ 0x3A :: stringify v) :: stringifyMembers ms

end

/-! ## Reading a quoted string back -/

def hexVal (u : UInt16) : ℕ :=
  if u.toNat < 0x3A then u.toNat - 0x30 else u.toNat - 0x61 + 10

/-- The unit behind a backslash. -/
def unescapeLetter (u : UInt16) : UInt16 :=
  if u = 0x62 then 0x08
  else if u = 0x74 then 0x09
  else if u = 0x6E then 0x0A
  else if u = 0x66 then 0x0C
  else if u = 0x72 then 0x0D
  else u

/-- The first unit of a quoted text and what follows it, or nothing at the
closing quote. -/
def readUnit : JsString → Option (UInt16 × JsString)
  | [] => none
  | u :: r =>
    if u = 0x22 then none
    else if u = 0x5C then
      if r.head? = some 0x75 then
        some (UInt16.ofNat (hexVal (r.getD 1 0) * 4096
          + hexVal (r.getD 2 0) * 256 + hexVal (r.getD 3 0) * 16
          + hexVal (r.getD 4 0)), r.drop 5)
      else some (unescapeLetter (r.getD 0 0), r.drop 1)
    else some (u, r)

/-- The string in front of the closing quote, and what follows the quote; at
most `fuel` units are read. -/
def unquote : (fuel : ℕ) → JsString → JsString × JsString
  | 0, t => ([], t)
  | fuel + 1, t =>
    match readUnit t with
    | none => ([], t.drop 1)
    | some (u, r) => (u :: (unquote fuel r).1, (unquote fuel r).2)

theorem hexVal_hexDigit {n : ℕ} (h : n < 16) : hexVal (hexDigit n) = n := by
  revert n
  decide

theorem readUnit_plain {u : UInt16} (h₁ : u ≠ 0x22) (h₂ : u ≠ 0x5C)
    (t : JsString) : readUnit (u :: t) = some (u, t) := by
  rw [readUnit, if_neg h₁, if_neg h₂]

theorem readUnit_escapeUnit (u : UInt16) (t : JsString) :
    readUnit (escapeUnit u ++ t) = some (u, t) := by
  have hlt : u.toNat < 65536 := u.toNat_lt
  unfold escapeUnit
  split_ifs with h₁ h₂ h₃ h₄ h₅ h₆ h₇ h₈
  · rw [h₁]
    rfl
  · rw [h₂]
    rfl
  · rw [h₃]
    rfl
  · rw [h₄]
    rfl
  · rw [h₅]
    rfl
  · rw [h₆]
    rfl
  · rw [h₇]
    rfl
  · have hval : u.toNat / 4096 * 4096 + u.toNat / 256 % 16 * 256
        + u.toNat / 16 % 16 * 16 + u.toNat % 16 = u.toNat := by omega
    show some (UInt16.ofNat (hexVal (hexDigit (u.toNat / 4096)) * 4096
      + hexVal (hexDigit (u.toNat / 256 % 16)) * 256
      + hexVal (hexDigit (u.toNat / 16 % 16)) * 16
      + hexVal (hexDigit (u.toNat % 16))), t) = some (u, t)
    rw [hexVal_hexDigit (by omega), hexVal_hexDigit (by omega),
      hexVal_hexDigit (by omega), hexVal_hexDigit (by omega), hval]
    simp
  · exact readUnit_plain h₆ h₇ t

theorem unquote_of_readUnit {t r : JsString} {u : UInt16} {fuel : ℕ}
    (h : readUnit t = some (u, r)) :
    unquote (fuel + 1) t = (u :: (unquote fuel r).1, (unquote fuel r).2) := by
  rw [unquote, h]

/-- A quoted string is read back, whatever follows it. -/
theorem unquote_escape (s r : JsString) :
    ∀ {fuel : ℕ}, s.length < fuel →
      unquote fuel (escape s ++ 0x22 :: r) = (s, r) := by
  fun_induction escape s with
  | case1 =>
    intro fuel hfuel
    obtain ⟨n, rfl⟩ := Nat.exists_eq_succ_of_ne_zero (Nat.ne_of_gt hfuel)
    rfl
  | case2 u =>
    intro fuel hfuel
    obtain ⟨n, rfl⟩ : ∃ n, fuel = n + 2 := ⟨fuel - 2, by simp at hfuel; omega⟩
    rw [unquote_of_readUnit (readUnit_escapeUnit u _)]
    rfl
  | case3 u v rest h ih =>
    intro fuel hfuel
    obtain ⟨n, rfl⟩ : ∃ n, fuel = n + 2 := ⟨fuel - 2, by simp at hfuel; omega⟩
    have hplain : ∀ w : UInt16, (isHigh w || isLow w) = true →
        w ≠ 0x22 ∧ w ≠ 0x5C := by
      rintro w hw
      constructor <;> rintro rfl <;> exact absurd hw (by decide)
    rw [Bool.and_eq_true] at h
    obtain ⟨hu₁, hu₂⟩ := hplain u (by simp [h.1])
    obtain ⟨hv₁, hv₂⟩ := hplain v (by simp [h.2])
    rw [List.cons_append, List.cons_append,
      unquote_of_readUnit (readUnit_plain hu₁ hu₂ _),
      unquote_of_readUnit (readUnit_plain hv₁ hv₂ _),
      ih (by simp at hfuel; omega)]
  | case4 u v rest h ih =>
    intro fuel hfuel
    obtain ⟨n, rfl⟩ : ∃ n, fuel = n + 1 := ⟨fuel - 1, by simp at hfuel; omega⟩
    rw [List.append_assoc, unquote_of_readUnit (readUnit_escapeUnit u _),
      ih (by simp at hfuel ⊢; omega)]

/-- A quoted string ends where its text says. -/
theorem quote_inj {s t r r' : JsString} (h : quote s ++ r = quote t ++ r') :
    s = t ∧ r = r' := by
  rw [quote, quote, List.cons_append, List.cons_append, List.append_assoc,
    List.append_assoc, List.singleton_append, List.singleton_append] at h
  have h' := (List.cons.inj h).2
  have hs := unquote_escape s r (Nat.lt_succ_of_le (Nat.le_max_left _ t.length))
  have ht := unquote_escape t r' (Nat.lt_succ_of_le (Nat.le_max_right s.length _))
  rw [h', ht] at hs
  exact ⟨(Prod.mk.inj hs).1.symm, (Prod.mk.inj hs).2.symm⟩

/-! ## One text, one value -/

/-- The type of a value, with the two booleans apart. -/
inductive Kind where
  | null
  | true
  | false
  | num
  | str
  | arr
  | obj
  deriving DecidableEq

def kind : Json → Kind
  | .null => .null
  | .bool true => .true
  | .bool false => .false
  | .num _ => .num
  | .str _ => .str
  | .arr _ => .arr
  | .obj _ => .obj

/-- The type that the first unit of a text announces. -/
def kindOf (u : UInt16) : Kind :=
  if u = 0x6E then .null
  else if u = 0x74 then .true
  else if u = 0x66 then .false
  else if u = 0x22 then .str
  else if u = 0x5B then .arr
  else if u = 0x7B then .obj
  else .num

theorem exists_stringify_head (v : Json) :
    ∃ u rest, stringify v = u :: rest ∧ kindOf u = v.kind := by
  cases v with
  | null => exact ⟨_, _, rfl, rfl⟩
  | bool b => cases b <;> exact ⟨_, _, rfl, rfl⟩
  | num x =>
    obtain ⟨u, rest, h, hu⟩ := x.text_head
    refine ⟨u, rest, h, ?_⟩
    rcases hu with rfl | hu
    · rfl
    · have hne : ∀ w : UInt16, isDigitUnit w = Bool.false → u ≠ w := by
        rintro w hw rfl
        rw [hu] at hw
        cases hw
      rw [kindOf, if_neg (hne _ (by decide)), if_neg (hne _ (by decide)),
        if_neg (hne _ (by decide)), if_neg (hne _ (by decide)),
        if_neg (hne _ (by decide)), if_neg (hne _ (by decide))]
      rfl
  | str s => exact ⟨_, _, rfl, rfl⟩
  | arr items => exact ⟨_, _, rfl, rfl⟩
  | obj members => exact ⟨_, _, rfl, rfl⟩

/-- What follows a value does not go on with the text of a number. -/
def Stops (r : JsString) : Prop := ∀ u ∈ r.head?, Number.isNumberUnit u = Bool.false

theorem stops_cons {u : UInt16} (h : Number.isNumberUnit u = Bool.false) (r : JsString) :
    Stops (u :: r) := by
  intro v hv
  obtain rfl := Option.some.inj hv
  exact h

theorem kind_eq_of_stringify {v w : Json} {r s : JsString}
    (h : stringify v ++ r = stringify w ++ s) : v.kind = w.kind := by
  obtain ⟨a, r', hv, ha⟩ := exists_stringify_head v
  obtain ⟨b, s', hw, hb⟩ := exists_stringify_head w
  rw [hv, hw] at h
  rw [← ha, ← hb, (List.cons.inj h).1]

/-- The texts of a list after the first, in front of the closing bracket. -/
def tailText (texts : List JsString) (close : UInt16) (r : JsString) :
    JsString :=
  (texts.flatMap fun u => 0x2C :: u) ++ close :: r

theorem tailText_cons (t : JsString) (ts : List JsString) (close : UInt16)
    (r : JsString) :
    tailText (t :: ts) close r = 0x2C :: (t ++ tailText ts close r) := by
  simp [tailText]

theorem stops_tailText (ts : List JsString) {close : UInt16}
    (h : Number.isNumberUnit close = Bool.false) (r : JsString) :
    Stops (tailText ts close r) := by
  cases ts with
  | nil => exact stops_cons h r
  | cons t ts =>
    rw [tailText_cons]
    exact stops_cons rfl _

theorem joinComma_cons (t : JsString) (ts : List JsString) (close : UInt16)
    (r : JsString) :
    joinComma (t :: ts) ++ [close] ++ r = t ++ tailText ts close r := by
  simp [joinComma, tailText]

theorem tailText_eq_of_joinComma {t u : JsString} {ts us : List JsString}
    {close : UInt16} {r s : JsString}
    (h : joinComma (t :: ts) ++ [close] ++ r
      = joinComma (u :: us) ++ [close] ++ s) :
    tailText (t :: ts) close r = tailText (u :: us) close s := by
  rw [joinComma_cons, joinComma_cons] at h
  rw [tailText_cons, tailText_cons, h]

/-- No value starts with a unit that announces nothing. -/
theorem stringify_ne_cons {u : UInt16} (hkind : kindOf u = .num)
    (hminus : u ≠ 0x2D) (hdigit : isDigitUnit u = Bool.false) (v : Json)
    (r s : JsString) : stringify v ++ s ≠ u :: r := by
  intro h
  obtain ⟨u', rest, hv, hu⟩ := exists_stringify_head v
  rw [hv] at h
  obtain rfl := (List.cons.inj h).1
  rw [hkind] at hu
  cases v with
  | num x =>
    obtain ⟨w, rest', hw, hw'⟩ := x.text_head
    obtain rfl := (List.cons.inj (hv.symm.trans hw)).1
    rcases hw' with h | h
    · exact hminus h
    · rw [h] at hdigit
      cases hdigit
  | bool b => cases b <;> cases hu
  | _ => cases hu

/-- No value starts with the bracket that closes a list. -/
theorem stringify_ne_close (v : Json) (r s : JsString) :
    stringify v ++ s ≠ 0x5D :: r := stringify_ne_cons rfl (by decide) rfl v r s

mutual

theorem stringify_inj : ∀ (v w : Json) {r s : JsString}, Stops r → Stops s →
    stringify v ++ r = stringify w ++ s → v = w ∧ r = s
  | .null, w, r, s, _, _, h => by
    have hkind := kind_eq_of_stringify h
    cases w with
    | null => exact ⟨rfl, List.append_cancel_left h⟩
    | bool b => cases b <;> cases hkind
    | _ => cases hkind
  | .bool b, w, r, s, _, _, h => by
    have hkind := kind_eq_of_stringify h
    cases w with
    | bool b' =>
      cases b <;> cases b' <;>
        first
          | exact ⟨rfl, List.append_cancel_left h⟩
          | cases hkind
    | _ => cases b <;> cases hkind
  | .num x, w, r, s, hr, hs, h => by
    have hkind := kind_eq_of_stringify h
    cases w with
    | num y =>
      obtain ⟨htext, hrest⟩ := Number.append_inj_of_stops
        (fun _ hu => Number.isNumberUnit_of_mem_text hu)
        (fun _ hu => Number.isNumberUnit_of_mem_text hu) hr hs h
      exact ⟨congrArg _ (Number.text_injective htext), hrest⟩
    | bool b => cases b <;> cases hkind
    | _ => cases hkind
  | .str a, w, r, s, _, _, h => by
    have hkind := kind_eq_of_stringify h
    cases w with
    | str b =>
      obtain ⟨hab, hrest⟩ := quote_inj h
      exact ⟨congrArg _ hab, hrest⟩
    | bool b => cases b <;> cases hkind
    | _ => cases hkind
  | .arr vs, w, r, s, _, _, h => by
    have hkind := kind_eq_of_stringify h
    cases w with
    | arr ws =>
      have h := (List.cons.inj h).2
      cases vs with
      | nil =>
        cases ws with
        | nil => exact ⟨rfl, (List.cons.inj h).2⟩
        | cons w ws =>
          rw [stringifyItems, stringifyItems] at h
          exact absurd ((joinComma_cons _ _ _ _).symm.trans h.symm)
            (stringify_ne_close w _ _)
      | cons v vs =>
        cases ws with
        | nil =>
          rw [stringifyItems, stringifyItems] at h
          exact absurd ((joinComma_cons _ _ _ _).symm.trans h)
            (stringify_ne_close v _ _)
        | cons w ws =>
          rw [stringifyItems, stringifyItems] at h
          obtain ⟨hvs, hr⟩ := stringifyItems_inj (v :: vs) (w :: ws)
            (tailText_eq_of_joinComma h)
          exact ⟨by rw [hvs], hr⟩
    | bool b => cases b <;> cases hkind
    | _ => cases hkind
  | .obj ms, w, r, s, _, _, h => by
    have hkind := kind_eq_of_stringify h
    cases w with
    | obj ns =>
      have h := (List.cons.inj h).2
      cases ms with
      | nil =>
        cases ns with
        | nil => exact ⟨rfl, (List.cons.inj h).2⟩
        | cons n ns =>
          rw [stringifyMembers, stringifyMembers] at h
          cases (List.cons.inj h).1
      | cons m ms =>
        cases ns with
        | nil =>
          rw [stringifyMembers, stringifyMembers] at h
          cases (List.cons.inj h).1
        | cons n ns =>
          rw [stringifyMembers, stringifyMembers] at h
          obtain ⟨hms, hr⟩ := stringifyMembers_inj (m :: ms) (n :: ns)
            (tailText_eq_of_joinComma h)
          exact ⟨by rw [hms], hr⟩
    | bool b => cases b <;> cases hkind
    | _ => cases hkind

theorem stringifyItems_inj : ∀ (vs ws : List Json) {r s : JsString},
    tailText (stringifyItems vs) 0x5D r = tailText (stringifyItems ws) 0x5D s →
    vs = ws ∧ r = s
  | [], [], r, s, h => ⟨rfl, (List.cons.inj h).2⟩
  | [], w :: ws, r, s, h => by
    rw [stringifyItems, stringifyItems, tailText_cons] at h
    cases (List.cons.inj h).1
  | v :: vs, [], r, s, h => by
    rw [stringifyItems, stringifyItems, tailText_cons] at h
    cases (List.cons.inj h).1
  | v :: vs, w :: ws, r, s, h => by
    rw [stringifyItems, stringifyItems, tailText_cons, tailText_cons] at h
    obtain ⟨hv, hrest⟩ := stringify_inj v w (stops_tailText _ rfl r)
      (stops_tailText _ rfl s) (List.cons.inj h).2
    obtain ⟨hvs, hr⟩ := stringifyItems_inj vs ws hrest
    exact ⟨by rw [hv, hvs], hr⟩

theorem stringifyMembers_inj : ∀ (ms ns : List (JsString × Json))
    {r s : JsString},
    tailText (stringifyMembers ms) 0x7D r
      = tailText (stringifyMembers ns) 0x7D s →
    ms = ns ∧ r = s
  | [], [], r, s, h => ⟨rfl, (List.cons.inj h).2⟩
  | [], (k, v) :: ns, r, s, h => by
    rw [stringifyMembers, stringifyMembers, tailText_cons] at h
    cases (List.cons.inj h).1
  | (k, v) :: ms, [], r, s, h => by
    rw [stringifyMembers, stringifyMembers, tailText_cons] at h
    cases (List.cons.inj h).1
  | (k, v) :: ms, (l, w) :: ns, r, s, h => by
    rw [stringifyMembers, stringifyMembers, tailText_cons, tailText_cons,
      List.append_assoc, List.append_assoc] at h
    obtain ⟨hk, h⟩ := quote_inj (List.cons.inj h).2
    obtain ⟨hv, hrest⟩ := stringify_inj v w (stops_tailText _ rfl r)
      (stops_tailText _ rfl s) (List.cons.inj h).2
    obtain ⟨hms, hr⟩ := stringifyMembers_inj ms ns hrest
    exact ⟨by rw [hk, hv, hms], hr⟩

end

/-- **One text, one value.** -/
theorem stringify_injective : Function.Injective stringify := by
  intro v w h
  have hstops : Stops [] := by simp [Stops]
  exact (stringify_inj v w hstops hstops (by rw [h])).1

/-! ## The text is well formed -/

/-- The unit stands for itself in UTF-8. -/
def isAscii (u : UInt16) : Bool := u.toNat < 0x80

theorem wellFormed_of_ascii {s : JsString} (h : ∀ u ∈ s, isAscii u = true) :
    WellFormed s := by
  apply wellFormed_of_forall
  intro u hu
  have := h u hu
  simp only [isAscii, decide_eq_true_eq] at this
  simp only [isHigh, isLow, Bool.or_eq_false_iff, Bool.and_eq_false_iff,
    decide_eq_false_iff_not]
  omega

theorem wellFormed_escapeUnit (u : UInt16) : WellFormed (escapeUnit u) := by
  have hhex : ∀ n < 16, isAscii (hexDigit n) = true := by decide
  have hlt : u.toNat < 65536 := u.toNat_lt
  unfold escapeUnit
  split_ifs with h₁ h₂ h₃ h₄ h₅ h₆ h₇ h₈
  · decide
  · decide
  · decide
  · decide
  · decide
  · decide
  · decide
  · apply wellFormed_of_ascii
    intro v hv
    simp only [unicodeEscape, List.mem_cons, List.not_mem_nil, or_false] at hv
    rcases hv with rfl | rfl | rfl | rfl | rfl | rfl
    · rfl
    · rfl
    · exact hhex _ (by omega)
    · exact hhex _ (by omega)
    · exact hhex _ (by omega)
    · exact hhex _ (by omega)
  · exact .cons (by simpa using (not_or.mp h₈).2) wellFormed_nil

theorem wellFormed_escape (s : JsString) : WellFormed (escape s) := by
  fun_induction escape s with
  | case1 => exact wellFormed_nil
  | case2 u => exact wellFormed_escapeUnit u
  | case3 u v rest h ih =>
    rw [Bool.and_eq_true] at h
    exact .pair h.1 h.2 ih
  | case4 u v rest h ih => exact (wellFormed_escapeUnit u).append ih

theorem wellFormed_quote (s : JsString) : WellFormed (quote s) :=
  .cons rfl ((wellFormed_escape s).append (.cons rfl wellFormed_nil))

theorem wellFormed_text (x : Number) : WellFormed x.text := by
  apply wellFormed_of_ascii
  intro u hu
  have := Number.isNumberUnit_of_mem_text hu
  simp only [Number.isNumberUnit, isDigitUnit, Bool.or_eq_true,
    Bool.and_eq_true, decide_eq_true_eq] at this
  rcases this with (((h | rfl) | rfl) | rfl) | rfl
  · simp only [isAscii, decide_eq_true_eq]
    omega
  all_goals rfl

/-- Texts that are well formed stay so when they are joined. -/
theorem wellFormed_joinComma {texts : List JsString}
    (h : ∀ t ∈ texts, WellFormed t) : WellFormed (joinComma texts) := by
  cases texts with
  | nil => exact wellFormed_nil
  | cons t ts =>
    apply (h t List.mem_cons_self).append
    have hts : ∀ u ∈ ts, WellFormed u := fun u hu => h u (List.mem_cons_of_mem t hu)
    clear h
    induction ts with
    | nil => exact wellFormed_nil
    | cons u us ih =>
      rw [List.flatMap_cons]
      exact WellFormed.append (.cons rfl (hts u List.mem_cons_self))
        (ih fun v hv => hts v (List.mem_cons_of_mem u hv))

mutual

theorem wellFormed_stringify : ∀ v : Json, WellFormed (stringify v)
  | .null => by decide
  | .bool true => by decide
  | .bool false => by decide
  | .num x => wellFormed_text x
  | .str s => wellFormed_quote s
  | .arr items =>
    .cons rfl ((wellFormed_joinComma (wellFormed_stringifyItems items)).append
      (.cons rfl wellFormed_nil))
  | .obj members =>
    .cons rfl ((wellFormed_joinComma
      (wellFormed_stringifyMembers members)).append (.cons rfl wellFormed_nil))

theorem wellFormed_stringifyItems : ∀ vs : List Json,
    ∀ t ∈ stringifyItems vs, WellFormed t
  | [], _, h => absurd h List.not_mem_nil
  | v :: vs, t, h => by
    rw [stringifyItems] at h
    rcases List.mem_cons.mp h with rfl | h
    · exact wellFormed_stringify v
    · exact wellFormed_stringifyItems vs t h

theorem wellFormed_stringifyMembers : ∀ ms : List (JsString × Json),
    ∀ t ∈ stringifyMembers ms, WellFormed t
  | [], _, h => absurd h List.not_mem_nil
  | (k, v) :: ms, t, h => by
    rw [stringifyMembers] at h
    rcases List.mem_cons.mp h with rfl | h
    · exact (wellFormed_quote k).append (.cons rfl (wellFormed_stringify v))
    · exact wellFormed_stringifyMembers ms t h

end

/-- The bytes of the text determine the value too. -/
theorem utf8_stringify_injective :
    Function.Injective fun v => utf8 (stringify v) := by
  intro v w h
  exact stringify_injective
    ((utf8_inj (wellFormed_stringify v) (wellFormed_stringify w)).mp h)

/-- Values are compared by their texts. -/
instance : DecidableEq Json := fun v w =>
  decidable_of_iff (stringify v = stringify w) stringify_injective.eq_iff

/-! ## Truthiness -/

def truthy : Json → Bool
  | .null => false
  | .bool b => b
  | .num x => x.coeff ≠ 0
  | .str s => !s.isEmpty
  | .arr _ => true
  | .obj _ => true

end Json

end NewZone.Js
