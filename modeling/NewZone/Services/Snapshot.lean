import NewZone.Lib.Runs
import NewZone.Services.Replication

/-!
# The replication node while it runs

`refreshLocalSnapshot` waits for a service at every `await`, and whatever else
the node does can happen in between: `mergeData` for a peer, or a step of
another refresh, since a timer starts one every four seconds whether or not the
last one is done.  A refresh is therefore a state of its own here, `Refresh`,
and an action of the node resumes one of them with an answer, or with the
failure that its `catch` swallows.

`await fetch(…)` and the `await` of the body that follows touch nothing shared
in between, so they are one action.
-/

namespace NewZone.Services.Replication

open NewZone.Js NewZone.Runs

/-- What the state server answers to `GET /keys`: the own names of its store.
`__proto__` is never among them, since assigning it sets a prototype. -/
structure KeyList where
  keys : List JsString
  plain : js "__proto__" ∉ keys

/-- A dump that has arrived.  What `JSON.parse` returns binds each name of an
object once. -/
structure Dump where
  json : Json
  nodup : ∀ state, Json.field json "state" = some (.obj state) → NodupKeys state

/-- The entries that the state loop goes through. -/
def Dump.entries (d : Dump) : List (JsString × Json) :=
  enumerate (Json.field d.json "state")

theorem Dump.nodupKeys_entries (d : Dump) : NodupKeys d.entries :=
  nodupKeys_enumerate d.nodup

/-- Where a refresh waits. -/
inductive Refresh where
  /-- for `GET /keys` -/
  | keys
  /-- for `GET /get/<key>`, with the keys that come after it -/
  | value (key : JsString) (rest : List JsString) (newState : PlainObject Json)
  /-- for `GET /events` -/
  | events
  /-- for `GET /rules` -/
  | rules
  | done

/-- What a refresh resumes with. -/
inductive Answer where
  | keys (list : KeyList)
  | json (v : Json)
  | failed

/-- The loop over the keys: ask for the next one, or save the snapshot. -/
def nextKey (LOCAL_DATA : LocalData) (newState : PlainObject Json) :
    List JsString → LocalData × Refresh
  | [] => ({ LOCAL_DATA with state := newState }, .events)
  | key :: rest => (LOCAL_DATA, .value key rest newState)

/-- `refreshLocalSnapshot` from one `await` to the next. -/
def Refresh.resume (LOCAL_DATA : LocalData) :
    Refresh → Answer → Option (LocalData × Refresh)
  | .keys, .keys list => some (nextKey LOCAL_DATA .empty list.keys)
  | .value key rest newState, .json v =>
    some (nextKey LOCAL_DATA (newState.set key v) rest)
  | .keys, .failed => some (LOCAL_DATA, .events)
  | .value _ _ _, .failed => some (LOCAL_DATA, .events)
  | .events, .json v => some ({ LOCAL_DATA with events := v }, .rules)
  | .events, .failed => some (LOCAL_DATA, .rules)
  | .rules, .json v => some ({ LOCAL_DATA with rules := v }, .done)
  | .rules, .failed => some (LOCAL_DATA, .done)
  | _, _ => none

/-- The node: its data and the refreshes that it has started. -/
structure Replica where
  data : LocalData
  refreshes : List Refresh

def Replica.initial : Replica := { data := .initial, refreshes := [] }

inductive Action where
  | merge (incoming : Dump)
  | start
  | resume (i : ℕ) (answer : Answer)

def Replica.after (engine : Engine) (r : Replica) : Action → Option Replica
  | .merge incoming =>
    some { r with data := (mergeData engine r.data incoming.json).1 }
  | .start => some { r with refreshes := r.refreshes ++ [.keys] }
  | .resume i answer => do
    let refresh ← r.refreshes[i]?
    let (data, refresh) ← refresh.resume r.data answer
    return { data, refreshes := r.refreshes.set i refresh }

/-- One action of the node. -/
def Step (engine : Engine) (r : Replica) (a : Action) (r' : Replica) : Prop :=
  r.after engine a = some r'

theorem step_unique {engine : Engine} (r : Replica) (a : Action)
    (s t : Replica) (hs : Step engine r a s) (ht : Step engine r a t) : s = t :=
  Option.some.inj (hs.symm.trans ht)

/-- What a resumed refresh does to the data. -/
theorem step_resume {engine : Engine} {r r' : Replica} {i : ℕ} {answer : Answer}
    (h : Step engine r (.resume i answer) r') :
    ∃ refresh data refresh', r.refreshes[i]? = some refresh ∧
      refresh.resume r.data answer = some (data, refresh') ∧
      r' = { data, refreshes := r.refreshes.set i refresh' } := by
  obtain ⟨refresh, hrefresh, h⟩ := Option.bind_eq_some_iff.mp h
  obtain ⟨⟨data, refresh'⟩, hresume, h⟩ := Option.bind_eq_some_iff.mp h
  exact ⟨refresh, data, refresh', hrefresh, hresume, (Option.some.inj h).symm⟩

end NewZone.Services.Replication
