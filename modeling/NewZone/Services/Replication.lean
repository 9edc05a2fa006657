import NewZone.Js.Operators
import NewZone.Lib.Window

/-!
# The replication core

`mergeData` and `dumpData` of `services/replication/index.js`.  `mergeData`
updates three things one after the other and may throw in between, so it
returns the data as it leaves them together with the error, if there is one.

A dump travels as JSON text and is parsed on the other side, which gives back
the value that was dumped.
-/

namespace NewZone.Services.Replication

open NewZone.Js

/-- `LOCAL_DATA`.  The events and the rules are arrays, unless a service has
answered with something else. -/
@[ext] structure LocalData where
  state : PlainObject Json
  events : Json
  rules : Json

def LocalData.initial : LocalData :=
  { state := .empty, events := .arr [], rules := .arr [] }

def MAX_EVENTS : ℕ := 200

/-- `dumpData`, as it arrives. -/
def dumpData (LOCAL_DATA : LocalData) : Json :=
  .obj [(js "state", .obj LOCAL_DATA.state.members),
    (js "events", LOCAL_DATA.events), (js "rules", LOCAL_DATA.rules)]

/-! ## State and rules -/

/-- `!local || remote.ts > local.ts`, the condition of both loops. -/
def wins (engine : Engine) (localEntry : Found Json) (remote : Json) :
    Except String Bool :=
  match localEntry with
  | .missing => .ok true
  | .own v =>
    if v.truthy then do
      let ts ← property remote "ts"
      engine.gt ts (Json.field v "ts")
    else .ok true
  | .inherited => do
    let ts ← property remote "ts"
    -- a function has no `ts`
    engine.gt ts none

/-- The loop over `incoming.state`. -/
def mergeState (engine : Engine) (state : PlainObject Json) :
    List (JsString × Json) → PlainObject Json × Option String
  | [] => (state, none)
  | (key, remote) :: rest =>
    match wins engine (state.lookup key) remote with
    | .ok true => mergeState engine (state.set key remote) rest
    | .ok false => mergeState engine state rest
    | .error e => (state, some e)

/-- The loop over the rules, which fills `ruleMap`. -/
def mergeRuleMap (engine : Engine) (ruleMap : PlainObject Json) :
    List Json → Except String (PlainObject Json)
  | [] => .ok ruleMap
  | r :: rest => do
    let id ← property r "id"
    let key ← engine.propertyKey id
    let win ← wins engine (ruleMap.lookup key) r
    mergeRuleMap engine (if win then ruleMap.set key r else ruleMap) rest

def mergeRules (engine : Engine) (rules : Json) (incoming : Option Json) :
    Except String Json := do
  let a ← spread (some rules)
  let b ← spread incoming
  let ruleMap ← mergeRuleMap engine .empty (a ++ b)
  return .arr (ruleMap.members.map Prod.snd)

/-! ## Events -/

/-- `a.ts - b.ts` asks each event for a number. -/
def compareAll (engine : Engine) : List Json → Except String Unit
  | [] => .ok ()
  | e :: es => do
    let ts ← property e "ts"
    let _ ← ts.mapM engine.primitive
    compareAll engine es

/-- `combinedEvents.sort((a, b) => a.ts - b.ts)` -/
def sortEvents (engine : Engine) (events : List Json) :
    Except String (List Json) :=
  if ∀ e ∈ events, Timed e then .ok (Window.sortByTime ts events)
  else if events.length < 2 then .ok events
  else do
    -- each event is compared with some other
    compareAll engine events
    return engine.sortOther events

def mergeEvents (engine : Engine) (events : Json) (incoming : Option Json) :
    Except String Json := do
  let a ← spread (some events)
  let b ← spread incoming
  let combinedEvents ← sortEvents engine (a ++ b)
  return .arr (combinedEvents.rtake MAX_EVENTS)

/-! ## Merging -/

/-- `mergeData`: the data after the call, and the error that it throws. -/
def mergeData (engine : Engine) (LOCAL_DATA : LocalData) (incoming : Json) :
    LocalData × Option String :=
  match property incoming "state" with
  | .error e => (LOCAL_DATA, some e)
  | .ok remote =>
    match mergeState engine LOCAL_DATA.state (enumerate remote) with
    | (state, some e) => ({ LOCAL_DATA with state }, some e)
    | (state, none) =>
      match mergeEvents engine LOCAL_DATA.events (Json.field incoming "events") with
      | .error e => ({ LOCAL_DATA with state }, some e)
      | .ok events =>
        match mergeRules engine LOCAL_DATA.rules (Json.field incoming "rules") with
        | .error e => ({ LOCAL_DATA with state, events }, some e)
        | .ok rules => ({ state, events, rules }, none)

/-- An assignment leaves the keys of the other entries alone. -/
theorem lookup_set_of_notMem (state : PlainObject Json) (remote : Json)
    {key : JsString} {rest : List (JsString × Json)}
    (hkey : key ∉ rest.map Prod.fst) :
    ∀ e ∈ rest, (state.set key remote).lookup e.1 = state.lookup e.1 := by
  intro e he
  refine PlainObject.lookup_congr (PlainObject.get_set_of_ne _ ?_ _)
  rintro rfl
  exact hkey (List.mem_map.mpr ⟨e, he, rfl⟩)

/-- The state loop leaves the keys of other entries alone. -/
theorem get_mergeState_of_notMem (engine : Engine) (state : PlainObject Json)
    {es : List (JsString × Json)} {key : JsString} (h : key ∉ es.map Prod.fst) :
    (mergeState engine state es).1.get key = state.get key := by
  fun_induction mergeState engine state es with
  | case1 state => rfl
  | case2 state k remote rest hwin ih =>
    rw [List.map_cons, List.mem_cons, not_or] at h
    rw [ih h.2, PlainObject.get_set_of_ne _ (Ne.symm h.1)]
  | case3 state k remote rest hwin ih =>
    rw [List.map_cons, List.mem_cons, not_or] at h
    exact ih h.2
  | case4 state k remote rest e hwin => rfl

/-- The state loop comes first, so nothing that fails later undoes it. -/
theorem state_mergeData_eq (engine : Engine) (L : LocalData) (incoming : Json) :
    (mergeData engine L incoming).1.state
      = (mergeState engine L.state (enumerate (Json.field incoming "state"))).1 := by
  unfold mergeData
  cases incoming with
  | null => rfl
  | _ =>
    simp only [property]
    split
    · rename_i h
      rw [h]
    · rename_i h
      rw [h]
      split
      · rfl
      · split <;> rfl

end NewZone.Services.Replication
