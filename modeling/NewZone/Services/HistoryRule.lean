import NewZone.Crypto.BodyBinding
import NewZone.Js.Conversion
import NewZone.Js.JsonEqual
import NewZone.Js.Operators
import NewZone.Lib.Process
import NewZone.Services.RulesServer

/-!
# The history rule

`services/rules/index.js`, and `POST /set` of `server.js`.  A request writes `RULES`,
from which `GET /get/history_rule` answers, and merges its value into `HISTORY_RULE`,
which `evaluateRules` applies.  What an update leaves out stays as it was in the second
and is gone from the first, so the two agree on the actions that the reported value has
as members (`rule_applied`).  A body that ends the process ends all this: nothing is
reported any more, and nothing is performed.
-/

namespace NewZone.Services.Rules

open NewZone.Js NewZone.Js.Json NewZone.Crypto
open NewZone.Crypto.SignedPacket (Coercions)

/-! ## The core -/

inductive Action where
  | replicate
  | log
  | analytics
  deriving DecidableEq

def Action.name : Action → String
  | .replicate => "replicate"
  | .log => "log"
  | .analytics => "analytics"

/-- `HISTORY_RULE` as it is declared. -/
def initialRule : PlainObject Json :=
  ((PlainObject.empty.set (js "replicate") (.bool false)).set (js "log") (.bool false)).set
    (js "analytics") (.bool false)

/-- `{ ...rule, ...value }` -/
def spreadInto (rule : PlainObject Json) (value : Json) : PlainObject Json :=
  (enumerate (some value)).foldl (fun rule m => rule.set m.1 m.2) rule

def setHistoryRule (HISTORY_RULE : PlainObject Json) : Option Json → PlainObject Json
  | some (.arr items) => spreadInto HISTORY_RULE (.arr items)
  | some (.obj members) => spreadInto HISTORY_RULE (.obj members)
  | _ => HISTORY_RULE

/-- The actions that `evaluateRules` performs, in order. -/
def evaluateRules (HISTORY_RULE : PlainObject Json) : List Action :=
  [.replicate, .log, .analytics].filter fun a => (HISTORY_RULE.get (js a.name)).any truthy

/-! ## The server -/

/-- `RULES`, whose prototype is the last object or `null` that `__proto__` has been set
to, and `HISTORY_RULE`. -/
structure State where
  own : PlainObject (Option Json)
  proto : Option Json
  HISTORY_RULE : PlainObject Json

def State.initial : State := { own := .empty, proto := none, HISTORY_RULE := initialRule }

/-- What `Array.prototype` has beside the names of `Object.prototype`, all functions. -/
def arrayPrototype : List JsString :=
  ["at", "concat", "copyWithin", "fill", "find", "findIndex", "findLast", "findLastIndex",
    "lastIndexOf", "pop", "push", "reverse", "shift", "unshift", "slice", "sort", "splice",
    "includes", "indexOf", "join", "keys", "entries", "values", "forEach", "filter", "flat",
    "flatMap", "map", "every", "some", "reduce", "reduceRight", "toReversed", "toSorted",
    "toSpliced", "with"].map js

instance decidableMemArrayPrototype (key : JsString) : Decidable (key ∈ arrayPrototype) :=
  decidable_of_iff (arrayPrototype.contains key = true) List.contains_iff_mem

/-- What an array has in addition. -/
def arrayMember (proto : Option Json) (key : JsString) : Option (Option Json) :=
  match proto with
  | some (.arr items) =>
    if key = js "length" then some (some (.num (.ofNat items.length)))
    else if key ∈ arrayPrototype then some none
    else none
  | _ => none

/-- What `RULES` inherits, where functions are left out of JSON. -/
def inherited (proto : Option Json) (key : JsString) : Option (Option Json) :=
  if proto = some .null then none
  else
    match getProp key (enumerate proto) with
    | some v => some (some v)
    | none =>
      (arrayMember proto key).or
        (if key = js "__proto__" then some (some (proto.getD (.obj [])))
        else if key ∈ objectPrototype then some none
        else none)

/-- `RULES[key]`, if `key in RULES`. -/
def State.lookup (s : State) (key : JsString) : Option (Option Json) :=
  (s.own.get key).or (inherited s.proto key)

/-- What the requests to `GET` read. -/
def State.store (s : State) : Store :=
  { RULES := s.lookup, HISTORY_RULE := .obj s.HISTORY_RULE.members }

/-- Assigning `__proto__` sets the prototype, as long as nothing else has that name. -/
def State.hasSetter (s : State) : Bool :=
  (s.own.get (js "__proto__")).isNone && s.proto ≠ some .null &&
    (getProp (js "__proto__") (enumerate s.proto)).isNone

/-- A value that can be a prototype. -/
def isPrototype : Option Json → Bool
  | some .null => true
  | some (.arr _) => true
  | some (.obj _) => true
  | _ => false

/-- `RULES[key] = value` -/
def State.assign (s : State) (key : JsString) (value : Option Json) : State :=
  if key = js "__proto__" ∧ s.hasSetter = true then
    if isPrototype value then { s with proto := value } else s
  else { s with own := s.own.set key value }

def historyKey : JsString := js "history_rule"

def invalidRule : Response := .error 400 "Invalid rule"

/-- `POST /set` -/
def set (s : State) (payload : Option Json) : State × Response :=
  match (member payload "key").filter truthy with
  | none => (s, invalidRule)
  | some key =>
    match key.toText with
    | .error _ => (s, invalidRule)
    | .ok name =>
      let value := member payload "value"
      let s := s.assign name value
      let s :=
        if key = .str historyKey then
          { s with HISTORY_RULE := setHistoryRule s.HISTORY_RULE value }
        else s
      (s, { status := 200
            body := .obj ([(js "key", key)] ++ (value.map fun v => (js "value", v)).toList) })

/-- The HTTP server. -/
def handle (node : NodeSign) (coerce : Coercions) (ctx : Context) (s : State) (req : Request) :
    State × Option Response :=
  match req.method with
  | .get => (s, some (respond s.store req.url))
  | .post =>
    if req.url = js "/set" then withBody node coerce ctx s req.body (set s)
    else (s, some (.error 404 "Not found"))
  | .other => (s, some (.error 404 "Not found"))

/-! ## What an update changes -/

/-- The members that a payload has for `HISTORY_RULE`. -/
def update (payload : Option Json) : List (JsString × Json) :=
  if member payload "key" = some (.str historyKey) then
    match member payload "value" with
    | some (.arr items) => indexed items
    | some (.obj members) => members
    | _ => []
  else []

theorem get_foldl_set {rule : PlainObject Json} {members : List (JsString × Json)}
    (hmembers : NodupKeys members) (key : JsString) :
    (members.foldl (fun rule m => rule.set m.1 m.2) rule).get key
      = (getProp key members).or (rule.get key) := by
  induction members generalizing rule with
  | nil => rfl
  | cons m members ih =>
    obtain ⟨name, value⟩ := m
    obtain ⟨hname, hmembers⟩ := List.nodup_cons.mp hmembers
    rw [List.foldl_cons, ih hmembers, PlainObject.get_set, getProp_cons]
    split_ifs with hkey
    · subst hkey
      rw [getProp_eq_none_iff.mpr hname]
      rfl
    · rfl

theorem nodupKeys_update {payload : Option Json}
    (h : ∀ v, payload = some v → v.DistinctNames) : NodupKeys (update payload) := by
  unfold update
  split_ifs
  · cases hvalue : member payload "value" with
    | none => exact List.nodup_nil
    | some value =>
      obtain ⟨v, hv, hfield⟩ := Option.bind_eq_some_iff.mp hvalue
      cases value with
      | arr items => exact nodupKeys_indexed items
      | obj members => exact ((h v hv).of_field hfield).1
      | _ => exact List.nodup_nil
  · exact List.nodup_nil

theorem HISTORY_RULE_assign (s : State) (name : JsString) (value : Option Json) :
    (s.assign name value).HISTORY_RULE = s.HISTORY_RULE := by
  unfold State.assign
  split_ifs <;> rfl

/-- A request is refused, or it assigns its value under the text of its key, and merges it
if the key is the one of the history rule. -/
theorem set_cases (s : State) (payload : Option Json) :
    (set s payload).1 = s ∧ member payload "key" ≠ some (.str historyKey) ∨
      ∃ key name, member payload "key" = some key ∧ key.toText = .ok name ∧
        (set s payload).1 = { s.assign name (member payload "value") with
          HISTORY_RULE :=
            if key = .str historyKey then setHistoryRule s.HISTORY_RULE (member payload "value")
            else s.HISTORY_RULE } := by
  unfold set
  cases hkey : (member payload "key").filter truthy with
  | none =>
    refine .inl ⟨rfl, fun hname => ?_⟩
    rw [hname] at hkey
    cases hkey
  | some key =>
    obtain ⟨hmember, -⟩ := Option.filter_eq_some_iff.mp hkey
    dsimp only
    cases htext : key.toText with
    | error e =>
      refine .inl ⟨rfl, fun hname => ?_⟩
      obtain rfl := Option.some.inj (hmember.symm.trans hname)
      cases htext
    | ok name =>
      refine .inr ⟨key, name, hmember, htext, ?_⟩
      dsimp only
      split_ifs
      · rw [HISTORY_RULE_assign]
      · rw [← HISTORY_RULE_assign s name (member payload "value")]

theorem get_setHistoryRule {payload : Option Json}
    (hkey : member payload "key" = some (.str historyKey))
    (h : ∀ v, payload = some v → v.DistinctNames) (rule : PlainObject Json) (name : JsString) :
    (setHistoryRule rule (member payload "value")).get name
      = (getProp name (update payload)).or (rule.get name) := by
  have hnodup := nodupKeys_update h
  unfold update at hnodup ⊢
  rw [if_pos hkey] at hnodup ⊢
  cases hvalue : member payload "value" with
  | none => rfl
  | some value =>
    rw [hvalue] at hnodup
    cases value with
    | arr items => exact get_foldl_set hnodup name
    | obj members => exact get_foldl_set hnodup name
    | _ => rfl

/-- A request gives `HISTORY_RULE` what it has for it, and leaves the rest. -/
theorem get_set_HISTORY_RULE {payload : Option Json}
    (h : ∀ v, payload = some v → v.DistinctNames) (s : State) (name : JsString) :
    (set s payload).1.HISTORY_RULE.get name
      = (getProp name (update payload)).or (s.HISTORY_RULE.get name) := by
  have hother : member payload "key" ≠ some (.str historyKey) → update payload = [] :=
    fun hkey => if_neg hkey
  obtain ⟨hset, hkey⟩ | ⟨key, _, hkey, -, hset⟩ := set_cases s payload
  · rw [hset, hother hkey]
    rfl
  · rw [hset]
    dsimp only
    split_ifs with hhistory
    · exact get_setHistoryRule (hhistory ▸ hkey) h _ _
    · rw [hother fun hname => hhistory (Option.some.inj (hkey.symm.trans hname))]
      rfl

/-! ## What is shown -/

/-- A payload that writes the prototype of `RULES`, or `history_rule` with a key that is
not this string but has it as its text. -/
def Bypasses (payload : Option Json) : Prop :=
  ∃ key name, member payload "key" = some key ∧ key.toText = .ok name ∧
    (name = js "__proto__" ∨ name = historyKey ∧ key ≠ .str historyKey)

/-- What `GET /get/history_rule` reports. -/
def reported (s : State) : Option Json :=
  field (respond s.store (js "/get/history_rule")).body "value"

/-- What is reported is what is applied, where it says something. -/
structure Shown (s : State) : Prop where
  proto : s.proto = none
  agrees : ∀ v, s.own.get historyKey = some (some v) →
    ∀ name w, field v name = some w → s.HISTORY_RULE.get (js name) = some w

theorem shown_initial : Shown State.initial where
  proto := rfl
  agrees v hv := by cases hv

/-- A request that does not bypass the history rule keeps the two in step. -/
theorem Shown.set {s : State} (hs : Shown s) {payload : Option Json}
    (h : ∀ v, payload = some v → v.DistinctNames) (hbypass : ¬ Bypasses payload) :
    Shown (set s payload).1 := by
  obtain ⟨hset, -⟩ | ⟨key, name, hkey, htext, hset⟩ := set_cases s payload
  · rw [hset]
    exact hs
  have hname : name ≠ js "__proto__" := fun hname =>
    hbypass ⟨key, name, hkey, htext, .inl hname⟩
  have hassign : s.assign name (member payload "value")
      = { s with own := s.own.set name (member payload "value") } :=
    if_neg fun hsetter => hname hsetter.1
  refine ⟨?_, fun v hv field_name w hw => ?_⟩
  · rw [hset, hassign]
    exact hs.proto
  · have hrule := get_set_HISTORY_RULE h s (js field_name)
    rw [hset, hassign] at hv
    replace hv : (s.own.set name (member payload "value")).get historyKey = some (some v) := hv
    rw [PlainObject.get_set] at hv
    split_ifs at hv with hhistory
    · -- the history rule has been written under its own name
      have hstr : key = .str historyKey := by
        by_contra hne
        exact hbypass ⟨key, name, hkey, htext, .inr ⟨hhistory, hne⟩⟩
      have hvalue : member payload "value" = some v := Option.some.inj hv
      have hupdate : getProp (js field_name) (update payload) = some w := by
        unfold update
        rw [if_pos (hstr ▸ hkey), hvalue]
        cases v with
        | obj members => exact hw
        | _ => cases hw
      rw [hrule, hupdate]
      rfl
    · have hkeep : update payload = [] := by
        refine if_neg fun hstr => hhistory ?_
        obtain rfl := Option.some.inj (hkey.symm.trans hstr)
        exact (Except.ok.inj htext).symm
      rw [hrule, hkeep]
      exact hs.agrees v hv field_name w hw

theorem own_of_reported {s : State} (hs : Shown s) {v : Json} (h : reported s = some v) :
    s.own.get historyKey = some (some v) := by
  have hlookup : s.lookup historyKey = s.own.get historyKey := by
    unfold State.lookup
    rw [hs.proto]
    exact Option.or_none
  have hrules : s.store.RULES (js "history_rule") = s.own.get historyKey := hlookup
  unfold reported respond at h
  rw [if_neg (by decide), if_pos (by decide),
    show (js "/get/history_rule").drop 5 = js "history_rule" from rfl] at h
  dsimp only at h
  rw [hrules] at h
  cases hown : s.own.get historyKey with
  | none =>
    rw [hown] at h
    cases h
  | some value =>
    rw [hown] at h
    cases value with
    | none => cases h
    | some w =>
      obtain rfl := Option.some.inj h
      rfl

/-! ## Runs -/

variable (node : NodeSign) (coerce : Coercions)

/-- What the server knows when a request to `POST /set` comes, and the body. -/
abbrev SetCall := Context × Body

/-- The payload of a request that gets to its route. -/
def payloadOf (call : SetCall) : Option (Option Json) :=
  match parseRequestBodyWithCrypto node coerce call.1 call.2 with
  | .ok (.payload payload _) => some payload
  | _ => none

def serve (s : State) (call : SetCall) : State × Option Response :=
  handle node coerce call.1 s { method := .post, url := js "/set", body := call.2 }

def after (s : State) (call : SetCall) : State := (serve node coerce s call).1

def stateAfter (calls : List SetCall) : State := calls.foldl (after node coerce) .initial

/-- What the requests leave of the server. -/
def processAfter (calls : List SetCall) : Option State :=
  Process.after (serve node coerce) (some .initial) calls

/-- The actions that the server performs for an event. -/
def performed (process : Option State) : List Action :=
  process.elim [] fun s => evaluateRules s.HISTORY_RULE

/-- The values that the requests give an action in `HISTORY_RULE`. -/
def given (a : Action) (calls : List SetCall) : List Json :=
  (calls.filterMap (payloadOf node coerce)).filterMap fun payload =>
    getProp (js a.name) (update payload)

/-- A body is JSON, in which no object has a name twice. -/
def ReadsJson (body : Body) : Prop := ∀ v, body = .json v → v.DistinctNames

variable {node coerce}

theorem after_eq (s : State) (call : SetCall) :
    after node coerce s call
      = (payloadOf node coerce call).elim s fun payload => (set s payload).1 := by
  show (withBody node coerce call.1 s call.2 (set s)).1 = _
  unfold withBody payloadOf
  cases parseRequestBodyWithCrypto node coerce call.1 call.2 with
  | error e => rfl
  | ok parsed => cases parsed <;> rfl

theorem distinctNames_of_payload {call : SetCall} (hjson : ReadsJson call.2) {v : Json}
    (h : payloadOf node coerce call = some (some v)) : v.DistinctNames := by
  unfold payloadOf at h
  obtain ⟨ctx, body⟩ := call
  cases body with
  | empty =>
    obtain rfl := Option.some.inj (Option.some.inj h)
    trivial
  | invalid => cases h
  | json packet =>
    have hpacket := hjson packet rfl
    split at h
    · rename_i payload crypto hparse
      obtain rfl := Option.some.inj h
      by_cases hversion : field packet "version" = some (.str RoutingPacket.routingVersion)
      · obtain ⟨node_id, haccepted⟩ := accepted_of_packet hversion hparse
        exact hpacket.of_field (payload_of_accepted haccepted).symm
      · rw [parse_plain hversion] at hparse
        cases hparse
        exact hpacket
    · cases h

/-- After any requests, an action has the last value that they give it. -/
theorem get_stateAfter {calls : List SetCall} (hjson : ∀ call ∈ calls, ReadsJson call.2)
    (a : Action) :
    (stateAfter node coerce calls).HISTORY_RULE.get (js a.name)
      = some ((given node coerce a calls).getLast?.getD (.bool false)) := by
  induction calls using List.reverseRecOn with
  | nil => cases a <;> rfl
  | append_singleton calls call ih =>
    have ih := ih fun c hc => hjson c (List.mem_append_left _ hc)
    rw [stateAfter, List.foldl_append, List.foldl_cons, List.foldl_nil, ← stateAfter, after_eq,
      given, List.filterMap_append, List.filterMap_append, ← given]
    cases hpayload : payloadOf node coerce call with
    | none =>
      rw [List.filterMap_cons_none hpayload, List.filterMap_nil, List.filterMap_nil,
        List.append_nil]
      exact ih
    | some payload =>
      have hdistinct : ∀ v, payload = some v → v.DistinctNames := fun v hv =>
        distinctNames_of_payload (hjson call (List.mem_append_right _ (List.mem_singleton.mpr rfl)))
          (hv ▸ hpayload)
      rw [List.filterMap_cons_some hpayload, List.filterMap_nil, Option.elim_some]
      rw [get_set_HISTORY_RULE hdistinct, ih, List.getLast?_append]
      cases hgiven : getProp (js a.name) (update payload) with
      | none => simp [hgiven]
      | some w => simp [hgiven]

theorem shown_stateAfter {calls : List SetCall} (hjson : ∀ call ∈ calls, ReadsJson call.2)
    (hbypass : ∀ call ∈ calls, ∀ payload, payloadOf node coerce call = some payload →
      ¬ Bypasses payload) :
    Shown (stateAfter node coerce calls) := by
  refine List.foldlRecOn calls (after node coerce) shown_initial fun s hs call hcall => ?_
  rw [after_eq]
  cases hpayload : payloadOf node coerce call with
  | none => exact hs
  | some payload =>
    exact hs.set (fun v hv => distinctNames_of_payload (hjson call hcall) (hv ▸ hpayload))
      (hbypass call hcall payload hpayload)

theorem mem_evaluateRules {rule : PlainObject Json} {a : Action} :
    a ∈ evaluateRules rule ↔ ∃ w, rule.get (js a.name) = some w ∧ w.truthy = true := by
  have hmem : a ∈ [Action.replicate, .log, .analytics] := by cases a <;> decide
  rw [evaluateRules, List.mem_filter, Option.any_eq_true]
  simp [hmem]

/-- The requests leave the state that each of them has changed, or one of them has ended
the process. -/
theorem processAfter_cases (calls : List SetCall) :
    processAfter node coerce calls = some (stateAfter node coerce calls) ∧
        (∀ call ∈ calls, ¬ Fatal node coerce call.1 call.2) ∨
      processAfter node coerce calls = none ∧
        ∃ call ∈ calls, Fatal node coerce call.1 call.2 := by
  have hends : ∀ (s : State) (call : SetCall), (serve node coerce s call).2 = none ↔
      Fatal node coerce call.1 call.2 := fun s call => withBody_eq_none_iff
  by_cases hlives : ∀ call ∈ calls, ¬ Fatal node coerce call.1 call.2
  · exact .inl ⟨Process.after_of_not_ends hends hlives, hlives⟩
  · push Not at hlives
    exact .inr ⟨(Process.after_eq_none_iff hends).mpr hlives, hlives⟩

/-- **The rule that is applied.**  After any requests to `POST /set`, an action is performed
exactly when none of them has ended the process and the last value that an update gives it
is truthy.  And unless a request bypasses the history rule, this is what the reported value
says, for every action that it has as a member. -/
theorem rule_applied {calls : List SetCall} (hjson : ∀ call ∈ calls, ReadsJson call.2) :
    (∀ a, a ∈ performed (processAfter node coerce calls) ↔
      (∀ call ∈ calls, ¬ Fatal node coerce call.1 call.2) ∧
        ∃ w, (given node coerce a calls).getLast? = some w ∧ w.truthy = true) ∧
    ((∀ call ∈ calls, ∀ payload, payloadOf node coerce call = some payload →
        ¬ Bypasses payload) →
      ∀ v, (processAfter node coerce calls).bind reported = some v →
        ∀ (a : Action) (w : Json), field v a.name = some w →
          (a ∈ performed (processAfter node coerce calls) ↔ w.truthy = true)) := by
  obtain ⟨hprocess, hlives⟩ | ⟨hprocess, hends⟩ := @processAfter_cases node coerce calls
  · rw [hprocess]
    constructor
    · intro a
      rw [performed, Option.elim_some, mem_evaluateRules, get_stateAfter hjson,
        and_iff_right hlives]
      cases (given node coerce a calls).getLast? with
      | none => simp [truthy]
      | some w => simp
    · intro hbypass v hv a w hw
      have hshown := shown_stateAfter hjson hbypass
      have hrule := hshown.agrees v (own_of_reported hshown hv) a.name w hw
      rw [performed, Option.elim_some, mem_evaluateRules, hrule]
      simp
  · rw [hprocess]
    constructor
    · intro a
      refine iff_of_false List.not_mem_nil fun h => ?_
      obtain ⟨call, hcall, hend⟩ := hends
      exact h.1 call hcall hend
    · intro _ v hv
      cases hv

/-! ## Two partial updates -/

/-- A request that enables one action and leaves out the others. -/
def enabling (a : Action) : SetCall :=
  ({ knownNodes := .empty, clock := 0 },
    .json (.obj [(js "key", .str historyKey), (js "value", .obj [(js a.name, .bool true)])]))

theorem readsJson_enabling (a : Action) : ReadsJson (enabling a).2 := by
  intro v hv
  obtain rfl := Body.json.inj hv
  have hnames : [js "key", js "value"].Nodup := by decide
  exact ⟨hnames, trivial, ⟨List.nodup_singleton _, trivial, trivial⟩, trivial⟩

theorem not_fatal_enabling (a : Action) :
    ¬ Fatal (Tabulated.sign [] []) SignedPacket.knownCoercions (enabling a).1 (enabling a).2 :=
  not_fatal_plain nofun

theorem not_bypasses_enabling (a : Action) (payload : Option Json)
    (h : payloadOf (Tabulated.sign [] []) SignedPacket.knownCoercions (enabling a)
      = some payload) : ¬ Bypasses payload := by
  obtain rfl := Option.some.inj h
  intro hbypass
  obtain ⟨key, name, hkey, htext, hname⟩ := hbypass
  obtain rfl := Option.some.inj hkey
  obtain rfl := Except.ok.inj htext
  rcases hname with hname | hname
  · exact absurd hname (by decide)
  · exact hname.2 rfl

/-- Two updates, each of which leaves out an action of the other. -/
def partialUpdates : List SetCall := [enabling .replicate, enabling .log]

def partialProcess : Option State :=
  processAfter (Tabulated.sign [] []) SignedPacket.knownCoercions partialUpdates

/-- Both actions are performed, and the second one is reported. -/
theorem rule_applied_known :
    Action.replicate ∈ performed partialProcess ∧
      (Action.log ∈ performed partialProcess ↔ (Json.bool true).truthy = true) := by
  have hcalls : ∀ call ∈ partialUpdates, ∃ a, call = enabling a := by
    intro call hcall
    simp only [partialUpdates, List.mem_cons, List.not_mem_nil, or_false] at hcall
    rcases hcall with rfl | rfl
    · exact ⟨_, rfl⟩
    · exact ⟨_, rfl⟩
  have hjson : ∀ call ∈ partialUpdates, ReadsJson call.2 := by
    intro call hcall
    obtain ⟨a, rfl⟩ := hcalls call hcall
    exact readsJson_enabling a
  obtain ⟨hperformed, hreported⟩ := @rule_applied (Tabulated.sign [] [])
    SignedPacket.knownCoercions partialUpdates hjson
  constructor
  · refine (hperformed .replicate).mpr ⟨fun call hcall => ?_, .bool true, by decide, rfl⟩
    obtain ⟨a, rfl⟩ := hcalls call hcall
    exact not_fatal_enabling a
  · refine hreported ?_ (.obj [(js "log", .bool true)]) (by decide) .log (.bool true) (by decide)
    intro call hcall payload hpayload
    obtain ⟨a, rfl⟩ := hcalls call hcall
    exact not_bypasses_enabling a payload hpayload

/-- What is reported does not enable the first action, which is performed. -/
theorem left_out_performed :
    partialProcess.bind reported = some (.obj [(js "log", .bool true)]) ∧
      field (.obj [(js "log", .bool true)]) "replicate" = none ∧
      Action.replicate ∈ performed partialProcess :=
  ⟨by decide, by decide, by decide⟩

end NewZone.Services.Rules
