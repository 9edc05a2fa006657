import NewZone.Crypto.BodyBinding
import NewZone.Services.RequestBody

/-!
# The copies of the request parser

Each server carries its own `parseRequestBodyWithCrypto`.  Those of the event,
messaging, state, queue and storage servers differ in one place: three of them
ask whether there is a value before they read its `version`, and two do not.
The value `null` has no `version` to read, so that two servers throw where three
resolve, and leave the request without an answer.
-/

namespace NewZone.Services.RequestParsers

open NewZone.Js NewZone.Js.Json NewZone.ExceptBind NewZone.Crypto
open NewZone.Crypto.SignedPacket (Coercions)
open NewZone.Crypto.RoutingPacket (routingVersion)

/-- `parsed.version === "nz-routing-crypto-01"`, with `parsed &&` in front of it
where the copy is guarded. -/
def isPacket (guarded : Bool) (parsed : Json) : Except String Bool :=
  if guarded && !parsed.truthy then .ok false
  else do
    let version ← property parsed "version"
    return version = some (.str routingVersion)

/-- A copy of `parseRequestBodyWithCrypto`. -/
def parse (guarded : Bool) (node : NodeSign) (coerce : Coercions) (ctx : Context) :
    Body → Except String Parsed
  | .empty => .ok (.payload (some .null) false)
  | .invalid => .ok (.answered (.error 400 "Invalid JSON"))
  | .json parsed => do
    if ← isPacket guarded parsed then
      match ← verifyPacket node coerce ctx parsed with
      | .accepted _ payload => return .payload payload true
      | .rejected reason => return .answered (.error 403 reason)
    else return .payload (some parsed) false

/-! ## The five servers -/

def event := parse false

def p2p_messaging := parse false

def state := parse true

def queue := parse true

def storage := parse true

def copies : List (NodeSign → Coercions → Context → Body → Except String Parsed) :=
  [event, p2p_messaging, state, queue, storage]

variable {node : NodeSign} {coerce : Coercions} {ctx : Context}

theorem isPacket_of_ne_null (guarded : Bool) {parsed : Json} (h : parsed ≠ .null) :
    isPacket guarded parsed
      = .ok (decide (field parsed "version" = some (.str routingVersion))) := by
  have hproperty : property parsed "version" = .ok (field parsed "version") := by
    cases parsed with
    | null => exact absurd rfl h
    | _ => rfl
  unfold isPacket
  split
  · rename_i hfalsy
    -- what is falsy has no properties
    cases parsed with
    | obj members => simp [truthy] at hfalsy
    | _ => rfl
  · rw [hproperty, ok_bind]
    rfl

/-- The copies read alike what is not `null`. -/
theorem parse_of_ne_null (guarded : Bool) {body : Body} (h : body ≠ .json .null) :
    parse guarded node coerce ctx body
      = parseRequestBodyWithCrypto node coerce ctx body := by
  cases body with
  | empty => rfl
  | invalid => rfl
  | json parsed =>
    have hparsed : parsed ≠ .null := fun hnull => h (hnull ▸ rfl)
    rw [parse, isPacket_of_ne_null guarded hparsed, ok_bind, parseRequestBodyWithCrypto]
    by_cases hversion : field parsed "version" = some (.str routingVersion)
    · rw [if_pos hversion, decide_eq_true hversion]
      rfl
    · rw [if_neg hversion, decide_eq_false hversion]
      rfl

/-- A guarded copy resolves `null`. -/
theorem parse_guarded_null :
    parse true node coerce ctx (.json .null) = .ok (.payload (some .null) false) := rfl

/-- A copy without the guard throws. -/
theorem parse_unguarded_null :
    parse false node coerce ctx (.json .null)
      = .error "Cannot read properties of null (reading 'version')" := rfl

/-- **One parser.**  The five copies come to the same outcome, and none of them
throws where another one does not, exactly for the bodies that are not the JSON
value `null`. -/
theorem copies_agree_iff (node : NodeSign) (coerce : Coercions) (ctx : Context)
    (body : Body) :
    (∀ f ∈ copies, ∀ g ∈ copies,
      f node coerce ctx body = g node coerce ctx body ∧
        ((f node coerce ctx body).isOk → (g node coerce ctx body).isOk)) ↔
      body ≠ .json .null := by
  constructor
  · rintro h rfl
    obtain ⟨hsame, -⟩ := h event (by simp [copies]) state (by simp [copies])
    rw [event, state, parse_unguarded_null, parse_guarded_null] at hsame
    cases hsame
  · intro hbody
    have hall : ∀ f ∈ copies,
        f node coerce ctx body = parseRequestBodyWithCrypto node coerce ctx body := by
      simp only [copies, List.forall_mem_cons, List.not_mem_nil, false_imp_iff,
        implies_true, event, p2p_messaging, state, queue, storage,
        parse_of_ne_null _ hbody, and_self]
    intro f hf g hg
    rw [hall f hf, hall g hg]
    exact ⟨rfl, id⟩

/-- The event server throws on `null`, and the state server resolves it. -/
theorem null_unanswered :
    let ctx : Context := { knownNodes := .empty, clock := 0 }
    event (Tabulated.sign [] []) SignedPacket.knownCoercions ctx (.json .null)
        = .error "Cannot read properties of null (reading 'version')" ∧
      state (Tabulated.sign [] []) SignedPacket.knownCoercions ctx (.json .null)
        = .ok (.payload (some .null) false) ∧
      event ∈ copies ∧ state ∈ copies :=
  ⟨rfl, rfl, by simp [copies], by simp [copies]⟩

end NewZone.Services.RequestParsers
