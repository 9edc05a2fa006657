import NewZone.Js.Json
import NewZone.Js.Object

/-!
# Objects with another prototype

`obj[key] = value` and `obj[key]` for any name.  Under `__proto__` an object finds a
setter in `Object.prototype`: it makes an array or another object the prototype, or takes
it away for `null`, and ignores all other values.  The setter is found like any other
name, so it is lost with the last prototype, and hidden by a member `__proto__` of a new
one.

A value may be `undefined`, which is `none` here.
-/

namespace NewZone.Js

open Json

/-- The names that an array inherits from `Array.prototype`, all of them functions. -/
def arrayPrototype : List JsString :=
  [js "at", js "concat", js "copyWithin", js "fill", js "find", js "findIndex", js "findLast",
    js "findLastIndex", js "lastIndexOf", js "pop", js "push", js "reverse", js "shift",
    js "unshift", js "slice", js "sort", js "splice", js "includes", js "indexOf", js "join",
    js "keys", js "entries", js "values", js "forEach", js "filter", js "flat", js "flatMap",
    js "map", js "every", js "some", js "reduce", js "reduceRight", js "toLocaleString",
    js "toString", js "toReversed", js "toSorted", js "toSpliced", js "with", js "constructor"]

/-- What an object inherits from. -/
inductive Prototype where
  /-- `Object.prototype` -/
  | standard
  /-- an array or an object, which inherits in the standard way -/
  | assigned (v : Json)
  | null

namespace Prototype

/-- The own property of an array or an object, as far as it has a JSON text. -/
def member : Json → JsString → Option Json
  | .obj members, key => getProp key members
  | .arr items, key =>
    if key = js "length" then some (.num (.ofNat items.length))
    else (arrayIndex key).bind fun n => items[n]?
  | _, _ => none

def own : Prototype → JsString → Option Json
  | assigned v, key => member v key
  | _, _ => none

/-- The names of functions. -/
def functions : Prototype → List JsString
  | standard => objectPrototype
  | assigned (.arr _) => arrayPrototype ++ objectPrototype
  | assigned _ => objectPrototype
  | null => []

instance decidableMemFunctions (proto : Prototype) (key : JsString) :
    Decidable (key ∈ proto.functions) :=
  decidable_of_iff (proto.functions.contains key = true) List.contains_iff_mem

/-- What `__proto__` gives; `Object.prototype` has the JSON text `{}`. -/
def value : Prototype → Json
  | standard => .obj []
  | assigned v => v
  | null => .null

/-- What is inherited under a name, where a function is `some none`. -/
def find : Prototype → JsString → Option (Option Json)
  | null, _ => none
  | proto, key =>
    if (proto.own key).isSome then some (proto.own key)
    else if key = js "__proto__" then some (some proto.value)
    else if key ∈ proto.functions then some none
    else none

/-- Assigning `__proto__` finds the setter. -/
def hasSetter : Prototype → Bool
  | standard => true
  | assigned v => (member v (js "__proto__")).isNone
  | null => false

/-- The setter -/
def assign (proto : Prototype) : Option Json → Prototype
  | some .null => null
  | some (.arr items) => assigned (.arr items)
  | some (.obj members) => assigned (.obj members)
  | _ => proto

/-- What a value does that is assigned to `__proto__`. -/
def next (proto : Prototype) (value : Option Json) : Prototype :=
  if proto.hasSetter then proto.assign value else proto

end Prototype

/-- A plain object with its prototype. -/
structure ProtoObject where
  own : PlainObject (Option Json)
  proto : Prototype
  /-- as long as there is a setter, it is not hidden -/
  plain : proto.hasSetter = true → own.get (js "__proto__") = none

namespace ProtoObject

/-- `{}` -/
def empty : ProtoObject := { own := .empty, proto := .standard, plain := fun _ => rfl }

/-- `obj[key]`, if `key in obj` -/
def find (obj : ProtoObject) (key : JsString) : Option (Option Json) :=
  (obj.own.get key).or (obj.proto.find key)

/-- `obj[key] = value` -/
def assign (obj : ProtoObject) (key : JsString) (value : Option Json) : ProtoObject :=
  if h : key = js "__proto__" ∧ obj.proto.hasSetter = true then
    { own := obj.own
      proto := obj.proto.assign value
      plain := fun _ => obj.plain h.2 }
  else
    { own := obj.own.set key value
      proto := obj.proto
      plain := fun hsetter => by
        rw [PlainObject.get_set_of_ne _ fun hkey => h ⟨hkey, hsetter⟩]
        exact obj.plain hsetter }

/-- Several assignments in a row -/
def assignAll (obj : ProtoObject) (sets : List (JsString × Option Json)) : ProtoObject :=
  sets.foldl (fun obj s => obj.assign s.1 s.2) obj

/-- The value that is assigned to a name last. -/
def lastUnder (key : JsString) (sets : List (JsString × Option Json)) : Option (Option Json) :=
  (sets.reverse.find? fun s => s.1 = key).map Prod.snd

/-- The values that are assigned to `__proto__`. -/
def protos (sets : List (JsString × Option Json)) : List (Option Json) :=
  (sets.filter fun s => s.1 = js "__proto__").map Prod.snd

theorem get_assign (obj : ProtoObject) {key : JsString} (hkey : key ≠ js "__proto__")
    (name : JsString) (value : Option Json) :
    (obj.assign name value).own.get key = if name = key then some value else obj.own.get key := by
  unfold assign
  split_ifs with h hname
  · exact absurd (hname ▸ h.1) hkey
  · rfl
  · subst name
    exact PlainObject.get_set_self _ _ _
  · exact PlainObject.get_set_of_ne _ ‹_› _

theorem proto_assign (obj : ProtoObject) (name : JsString) (value : Option Json) :
    (obj.assign name value).proto
      = if name = js "__proto__" then obj.proto.next value else obj.proto := by
  unfold assign Prototype.next
  by_cases hname : name = js "__proto__"
  · by_cases hsetter : obj.proto.hasSetter = true
    · rw [dif_pos ⟨hname, hsetter⟩, if_pos hname, if_pos hsetter]
    · rw [dif_neg fun h => hsetter h.2, if_pos hname, if_neg hsetter]
  · rw [dif_neg fun h => hname h.1, if_neg hname]

theorem get_assignAll (obj : ProtoObject) {key : JsString} (hkey : key ≠ js "__proto__")
    (sets : List (JsString × Option Json)) :
    (obj.assignAll sets).own.get key = (lastUnder key sets).or (obj.own.get key) := by
  induction sets generalizing obj with
  | nil => rfl
  | cons s sets ih =>
    have hlast : lastUnder key (s :: sets)
        = (lastUnder key sets).or (if s.1 = key then some s.2 else none) := by
      unfold lastUnder
      rw [List.reverse_cons, List.find?_append, Option.map_or]
      by_cases hs : s.1 = key <;> simp [hs]
    show ((obj.assign s.1 s.2).assignAll sets).own.get key = _
    rw [ih, get_assign obj hkey, hlast, Option.or_assoc]
    congr 1
    split_ifs <;> rfl

theorem proto_assignAll (obj : ProtoObject) (sets : List (JsString × Option Json)) :
    (obj.assignAll sets).proto = (protos sets).foldl Prototype.next obj.proto := by
  induction sets generalizing obj with
  | nil => rfl
  | cons s sets ih =>
    show ((obj.assign s.1 s.2).assignAll sets).proto = _
    rw [ih, proto_assign, protos, protos]
    by_cases hs : s.1 = js "__proto__" <;> simp [hs]

/-- **What is found under a name.**  The value that has been assigned to it last, or else
what the prototype has, which only the assignments to `__proto__` decide. -/
theorem find_assignAll {key : JsString} (hkey : key ≠ js "__proto__")
    (sets : List (JsString × Option Json)) :
    (empty.assignAll sets).find key
      = (lastUnder key sets).or (((protos sets).foldl Prototype.next .standard).find key) := by
  rw [find, get_assignAll empty hkey, proto_assignAll]
  show ((lastUnder key sets).or none).or _ = _
  rw [Option.or_none]
  rfl

end ProtoObject

end NewZone.Js
