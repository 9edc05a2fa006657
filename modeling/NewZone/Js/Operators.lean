import NewZone.Js.Json
import NewZone.Js.JsonOrder

/-!
# Operators on JSON values

Property access, comparison, conversion to a property name, spreading and
`for … in`, for values that come from `JSON.parse`.  Strings and numbers are
compared and converted here; what an array or an object turns into is a matter
of its methods, and is left to the `Engine`.  Exceptions carry the text of the
error.
-/

namespace NewZone.Js

/-- What the model leaves to the JavaScript engine. -/
structure Engine where
  /-- `a > b` for null, booleans, numbers and strings, not both numbers -/
  gtOther : Json → Json → Bool
  /-- `String(v)` of an array or an object -/
  toText : Json → Except String JsString
  /-- `list.sort((a, b) => a.ts - b.ts)` where a `ts` is not a number, so that
  the order depends on the implementation -/
  sortOther : List Json → List Json

/-- An engine for data in which nothing is coerced. -/
def Engine.plain : Engine :=
  { gtOther := fun _ _ => false
    toText := fun _ => .error "Cannot convert object to primitive value"
    sortOther := id }

/-- `v.name`, where `undefined` is `none`. -/
def property (v : Json) (name : String) : Except String (Option Json) :=
  match v with
  | .null => .error s!"Cannot read properties of null (reading '{name}')"
  | v => .ok (Json.field v name)

/-- What has a property can be asked for it. -/
theorem property_of_field {v w : Json} {name : String}
    (h : Json.field v name = some w) : property v name = .ok (some w) := by
  cases v with
  | null => cases h
  | _ => exact congrArg Except.ok h

/-- What an operand is compared as. -/
def Engine.primitive (engine : Engine) : Json → Except String Json
  | .arr items => .str <$> engine.toText (.arr items)
  | .obj members => .str <$> engine.toText (.obj members)
  | v => .ok v

/-- `a > b`; `undefined` is neither greater nor smaller than anything. -/
def Engine.gt (engine : Engine) : Option Json → Option Json → Except String Bool
  | some (.num a), some (.num b) => .ok (decide (b.value < a.value))
  | a, b => do
    let a ← a.mapM engine.primitive
    let b ← b.mapM engine.primitive
    match a, b with
    | some a, some b => return engine.gtOther a b
    | _, _ => return false

/-- The comparison is made, and it holds. -/
def holds : Except String Bool → Bool
  | .ok b => b
  | .error _ => false

/-- The name that `obj[v]` looks up. -/
def Engine.propertyKey (engine : Engine) :
    Option Json → Except String JsString
  | none => .ok (js "undefined")
  | some .null => .ok (js "null")
  | some (.bool b) => .ok (js (if b then "true" else "false"))
  | some (.num x) => .ok x.text
  | some (.str s) => .ok s
  | some v => engine.toText v

/-- The code points of a string, each as a string. -/
def codePoints : JsString → List JsString
  | [] => []
  | [u] => [[u]]
  | u :: v :: rest =>
    if isHigh u && isLow v then [u, v] :: codePoints rest
    else [u] :: codePoints (v :: rest)

/-- `[...v]` -/
def spread : Option Json → Except String (List Json)
  | some (.arr items) => .ok items
  | some (.str s) => .ok ((codePoints s).map .str)
  | _ => .error "Spread syntax requires ...iterable[Symbol.iterator] to be a function"

/-- Values under their indices. -/
def indexed {α : Type} (values : List α) : List (JsString × α) :=
  values.zipIdx.map fun v => (decimal v.2, v.1)

/-- What `for (const key in v)` passes through, with `v[key]`. -/
def enumerate : Option Json → List (JsString × Json)
  | some (.obj members) => members
  | some (.arr items) => indexed items
  | some (.str s) => indexed (s.map fun u => .str [u])
  | _ => []

theorem nodupKeys_indexed {α : Type} (values : List α) :
    NodupKeys (indexed values) := by
  have hkeys : (indexed values).map Prod.fst
      = (List.range' 0 values.length).map decimal := by
    rw [← List.zipIdx_map_snd 0 values, indexed, List.map_map, List.map_map]
    rfl
  rw [NodupKeys, hkeys]
  exact List.Nodup.map decimal_injective List.nodup_range'

/-- No name comes twice, if that is so for the members of an object. -/
theorem nodupKeys_enumerate {v : Option Json}
    (h : ∀ members, v = some (.obj members) → NodupKeys members) :
    NodupKeys (enumerate v) := by
  unfold enumerate
  split
  · exact h _ rfl
  · exact nodupKeys_indexed _
  · exact nodupKeys_indexed _
  · exact List.nodup_nil

/-! ## Time stamps -/

/-- The `ts` of a value, if it is a number. -/
def tsOf (v : Json) : Option ℚ :=
  match Json.field v "ts" with
  | some (.num x) => some x.value
  | _ => none

/-- The value carries a numeric `ts`. -/
def Timed (v : Json) : Prop := (tsOf v).isSome

instance (v : Json) : Decidable (Timed v) :=
  inferInstanceAs (Decidable ((tsOf v).isSome = true))

/-- The numeric `ts` of a value. -/
def ts (v : Json) : ℚ := (tsOf v).getD 0

theorem Timed.field_eq {v : Json} (h : Timed v) :
    ∃ x : Number, Json.field v "ts" = some (.num x) ∧ ts v = x.value := by
  unfold Timed tsOf at h
  split at h
  · rename_i x hx
    refine ⟨x, hx, ?_⟩
    rw [ts, tsOf, hx]
    rfl
  · cases h

/-- Only an object carries a numeric `ts`. -/
theorem Timed.exists_obj {v : Json} (h : Timed v) : ∃ ms, v = .obj ms := by
  obtain ⟨x, hx, -⟩ := h.field_eq
  cases v with
  | obj ms => exact ⟨ms, rfl⟩
  | _ => cases hx

theorem Timed.truthy {v : Json} (h : Timed v) : v.truthy = true := by
  obtain ⟨ms, rfl⟩ := h.exists_obj
  rfl

theorem Timed.property_eq {v : Json} (h : Timed v) (name : String) :
    property v name = .ok (Json.field v name) := by
  obtain ⟨ms, rfl⟩ := h.exists_obj
  rfl

/-- Numeric time stamps are compared as numbers. -/
theorem Engine.gt_timed (engine : Engine) {v w : Json} (hv : Timed v)
    (hw : Timed w) :
    engine.gt (Json.field v "ts") (Json.field w "ts")
      = .ok (decide (ts w < ts v)) := by
  obtain ⟨x, hx, hxv⟩ := hv.field_eq
  obtain ⟨y, hy, hyw⟩ := hw.field_eq
  rw [hx, hy, hxv, hyw]
  rfl

end NewZone.Js
