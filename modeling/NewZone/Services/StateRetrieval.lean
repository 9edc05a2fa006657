import NewZone.Crypto.BodyBinding
import NewZone.Js.Conversion
import NewZone.Js.Url
import NewZone.Services.RequestBody
import NewZone.Services.StateStore

/-!
# Keys in URLs

`POST /set` and the answers of `services/state/server.js` to `GET`, with their status, and
the request by which `refreshLocalSnapshot` of `services/replication/index.js` asks for a
key.  The key is written into the URL as it is, and read from the target as it is.  A value
comes back when the URL parser leaves the key alone, and the key has no `/get/` in it
(`retrieved_iff`).
-/

namespace NewZone.Services.State

open NewZone.Js NewZone.Js.Json NewZone.Js.Url NewZone.Crypto
open NewZone.Crypto.SignedPacket (Coercions)

/-- `POST /set` -/
def set (STATE : Store) (payload : Option Json) (now : ℕ) : Store × Response :=
  let key := member payload "key"
  let value := member payload "value"
  match key.elim (.ok (js "undefined")) toText with
  | .ok name =>
    (setState STATE name value now,
      { status := 200
        body := .obj ((key.map fun v => (js "key", v)).toList
          ++ (value.map fun v => (js "value", v)).toList) })
  | .error _ => (STATE, .error 400 "Invalid state")

/-- The answer to `GET`. -/
def answer (STATE : Store) (url : JsString) : Response :=
  if url = js "/health" then
    { status := 200, body := .obj [(js "status", .str (js "ok"))] }
  else
    match requestedKey url with
    | some key =>
      match getState STATE key with
      | some result =>
        { status := 200
          body := .obj ([(js "key", .str key)]
            ++ (result.value.map fun v => (js "value", v)).toList) }
      | none => .error 404 "Not found"
    | none =>
      if url = js "/keys" then { status := 200, body := .arr ((listKeys STATE).map .str) }
      else .error 404 "Not found"

/-- What `refreshLocalSnapshot` sends for a key, behind the name of the service. -/
def keyTarget (client : Client) (key : JsString) : JsString :=
  requestTarget client (js "/get/" ++ key)

/-- The bodies are those of `respond`. -/
theorem body_answer (STATE : Store) (url : JsString) : (answer STATE url).body = respond STATE url := by
  unfold answer respond
  by_cases hhealth : url = js "/health"
  · rw [if_pos hhealth, if_pos hhealth]
  · rw [if_neg hhealth, if_neg hhealth]
    cases requestedKey url with
    | none =>
      dsimp only
      split_ifs <;> rfl
    | some key =>
      dsimp only
      cases getState STATE key <;> rfl

theorem answer_of_get {STATE : Store} {url key : JsString} {result : Value}
    (hurl : requestedKey url = some key) (hget : getState STATE key = some result) :
    answer STATE url = { status := 200
                         body := .obj ([(js "key", .str key)]
                           ++ (result.value.map fun v => (js "value", v)).toList) } := by
  have hhealth : url ≠ js "/health" := by
    rintro rfl
    cases hurl
  unfold answer
  rw [if_neg hhealth, hurl]
  dsimp only
  rw [hget]

/-- A value is answered when the store has it under the key that is asked for. -/
theorem answer_value_iff {STATE : Store} {url : JsString} {v : Json} :
    (answer STATE url).status = 200 ∧ field (answer STATE url).body "value" = some v ↔
      ∃ key, requestedKey url = some key ∧ (getState STATE key).bind Value.value = some v := by
  rw [body_answer, field_respond_value, Option.bind_eq_some_iff]
  constructor
  · intro h
    exact h.2
  · intro h
    obtain ⟨key, hkey, hvalue⟩ := h
    obtain ⟨result, hresult, -⟩ := Option.bind_eq_some_iff.mp hvalue
    refine ⟨?_, key, hkey, hvalue⟩
    rw [answer_of_get hkey hresult]

/-! ## The key that is asked for -/

theorem beforeGet_prefix (s : JsString) : beforeGet s <+: s := by
  induction s with
  | nil => exact List.prefix_rfl
  | cons u s ih =>
    unfold beforeGet
    split_ifs
    · exact List.nil_prefix
    · exact List.cons_prefix_cons.mpr ⟨rfl, ih⟩

/-- A text without the separator is not cut. -/
theorem beforeGet_eq_self_iff {s : JsString} : beforeGet s = s ↔ ¬ js "/get/" <:+: s := by
  induction s with
  | nil => exact iff_of_true rfl (by decide)
  | cons u s ih =>
    unfold beforeGet
    rw [List.infix_cons_iff, not_or]
    split_ifs with hfront
    · rw [List.isPrefixOf_iff_prefix] at hfront
      exact iff_of_false nofun fun h => h.1 hfront
    · rw [List.isPrefixOf_iff_prefix] at hfront
      rw [List.cons.injEq, and_iff_right rfl, ih, and_iff_right hfront]

theorem requestedKey_eq_some_iff {url key : JsString} :
    requestedKey url = some key ↔ ∃ rest, url = js "/get/" ++ rest ∧ beforeGet rest = key := by
  unfold requestedKey
  split_ifs with hfront
  · obtain ⟨rest, rfl⟩ := List.isPrefixOf_iff_prefix.mp hfront
    have hdrop : (js "/get/" ++ rest).drop 5 = rest := rfl
    rw [hdrop, Option.some.injEq]
    constructor
    · intro h
      exact ⟨rest, rfl, h⟩
    · intro h
      obtain ⟨rest', hrest, h⟩ := h
      rw [List.append_cancel_left hrest]
      exact h
  · refine iff_of_false nofun fun h => hfront ?_
    obtain ⟨rest, rfl, -⟩ := h
    exact List.isPrefixOf_iff_prefix.mpr (List.prefix_append _ _)

/-- A key that comes back: the URL parser leaves it alone, and the separator is not in it. -/
structure Retrievable (client : Client) (key : JsString) : Prop where
  kept : Kept client (scalars key)
  separator : ¬ js "/get/" <:+: key

/-- The front of the path has nothing that the parser would change. -/
theorem kept_get_iff {client : Client} (text : List Char) :
    Kept client (['g', 'e', 't', '/'] ++ text) ↔ Kept client text := by
  have hchars : ∀ c ∈ ['g', 'e', 't', '/'], keptInPath client c = true := by
    have hall : ∀ caret empty, ['g', 'e', 't', '/'].all (keptInPath ⟨caret, empty⟩) = true := by
      decide
    exact List.all_eq_true.mp (hall _ _)
  have hfront : ∀ c ∈ ['g', 'e', 't', '/'], decide (c ≠ '?') = true := fun c hc =>
    decide_eq_true (ne_of_kept (hchars c hc)).1
  have htake : (['g', 'e', 't', '/'] ++ text).takeWhile (· ≠ '?')
      = ['g', 'e', 't', '/'] ++ text.takeWhile (· ≠ '?') :=
    List.takeWhile_append_of_pos hfront
  have hdrop : (['g', 'e', 't', '/'] ++ text).dropWhile (· ≠ '?') = text.dropWhile (· ≠ '?') :=
    List.dropWhile_append_of_pos hfront
  have hsplit : (['g', 'e', 't', '/'] ++ text.takeWhile (· ≠ '?')).splitOn '/'
      = ['g', 'e', 't'] :: (text.takeWhile (· ≠ '?')).splitOn '/' := by
    have hget : '/' ∉ ['g', 'e', 't'] := by decide
    exact List.splitOn_append_cons_self_of_not_mem hget _
  constructor
  · intro h
    obtain ⟨hpath, hsegments, hquery, hmark⟩ := h
    rw [htake] at hpath hsegments
    rw [hsplit] at hsegments
    rw [hdrop] at hquery hmark
    exact ⟨(List.forall_mem_append.mp hpath).2, (List.forall_mem_cons.mp hsegments).2, hquery, hmark⟩
  · intro h
    obtain ⟨hpath, hsegments, hquery, hmark⟩ := h
    constructor
    · rw [htake]
      exact List.forall_mem_append.mpr ⟨hchars, hpath⟩
    · rw [htake, hsplit]
      exact List.forall_mem_cons.mpr ⟨by decide, hsegments⟩
    · rw [hdrop]
      exact hquery
    · rw [hdrop]
      exact hmark

theorem scalars_get (key : JsString) :
    scalars (js "/get/" ++ key) = '/' :: (['g', 'e', 't', '/'] ++ scalars key) :=
  scalars_flatMap_append ['/', 'g', 'e', 't', '/'] key

/-- A key that the parser leaves alone is sent as it is. -/
theorem keyTarget_of_kept {client : Client} {key : JsString} (hkey : WellFormed key)
    (h : Kept client (scalars key)) : keyTarget client key = js "/get/" ++ key := by
  have hget : WellFormed (js "/get/") := by decide
  rw [keyTarget, requestTarget, scalars_get, target_of_kept ((kept_get_iff _).mpr h), ← scalars_get,
    flatMap_charUnits_scalars]
  exact hget.append hkey

theorem requestedKey_keyTarget_iff {client : Client} {key : JsString} (hkey : WellFormed key) :
    requestedKey (keyTarget client key) = some key ↔ Retrievable client key := by
  constructor
  · intro h
    obtain ⟨rest, hrest, hbefore⟩ := requestedKey_eq_some_iff.mp h
    have hprefix : js "/get/" ++ key <+: keyTarget client key := by
      rw [hrest]
      exact (List.prefix_append_right_inj _).mpr (hbefore ▸ beforeGet_prefix rest)
    rw [keyTarget, requestTarget] at hprefix
    have hkept := scalars_prefix_of_ascii (ascii_target client _) hprefix
    rw [scalars_get] at hkept
    have hkept := (kept_get_iff _).mp ((prefix_target_iff _).mp hkept)
    -- so the target ends with the key
    rw [keyTarget_of_kept hkey hkept] at hrest
    rw [← List.append_cancel_left hrest] at hbefore
    exact ⟨hkept, beforeGet_eq_self_iff.mp hbefore⟩
  · intro h
    rw [keyTarget_of_kept hkey h.kept]
    exact requestedKey_eq_some_iff.mpr ⟨key, rfl, beforeGet_eq_self_iff.mpr h.separator⟩

/-! ## What comes back -/

theorem setState_initial (key : JsString) (value : Option Json) (now : ℕ) :
    setState .initial key value now = Store.initial.assign key { value, ts := now } := by
  have hempty : ¬ (Store.initial.own.members.length ≥ MAX_KEYS ∧
      (Store.initial.lookup key).any Value.truthy = false) := fun h => absurd h.1 (by decide)
  unfold setState
  dsimp only
  rw [if_neg hempty]

/-- In a store with one key, the value is under no other. -/
theorem getState_initial_iff {key : JsString} (hkey : key ≠ js "__proto__") (v : Json) (now : ℕ)
    (other : JsString) :
    (getState (setState .initial key (some v) now) other).bind Value.value = some v ↔ other = key := by
  constructor
  · intro h
    by_contra hne
    have hget : (setState .initial key (some v) now).own.get other = none := by
      rw [setState_initial, Store.assign, dif_neg hkey]
      exact PlainObject.get_set_of_ne _ (Ne.symm hne) _
    have hproto : (setState .initial key (some v) now).proto = none := by
      rw [setState_initial, Store.assign, dif_neg hkey]
      rfl
    rw [getState, Store.lookup, hget, hproto] at h
    dsimp only at h
    split_ifs at h
    · cases h
    · cases h
  · intro h
    rw [h]
    exact getState_setState .initial hkey (some v) now

/-- `{ key, value }` -/
def setBody (key : JsString) (value : Json) : Json :=
  .obj [(js "key", .str key), (js "value", value)]

/-- The store after `POST /set` on an empty one. -/
def afterSet (node : NodeSign) (coerce : Coercions) (ctx : Context) (key : JsString) (value : Json)
    (now : ℕ) : Store :=
  (withBody node coerce ctx Store.initial (.json (setBody key value)) fun payload =>
    set .initial payload now).1

theorem afterSet_eq (node : NodeSign) (coerce : Coercions) (ctx : Context) (key : JsString)
    (value : Json) (now : ℕ) :
    afterSet node coerce ctx key value now = setState .initial key (some value) now := by
  have hversion : field (setBody key value) "version" ≠ some (.str RoutingPacket.routingVersion) :=
    nofun
  unfold afterSet
  rw [withBody_of_payload (parse_plain hversion)]
  rfl

theorem getState_proto (v : Json) (now : ℕ) :
    (getState (setState .initial (js "__proto__") (some v) now) (js "__proto__")).bind Value.value
      = some v := by
  rw [setState_initial]
  rfl

theorem retrievable_proto (client : Client) : Retrievable client (js "__proto__") := by
  have hpath : ∀ caret empty, ((scalars (js "__proto__")).takeWhile (· ≠ '?')).all
      (keptInPath ⟨caret, empty⟩) = true := by decide
  have hquery : (scalars (js "__proto__")).dropWhile (· ≠ '?') = [] := by decide
  refine ⟨⟨List.all_eq_true.mp (hpath _ _), by decide, ?_, ?_⟩, by decide⟩
  · rw [hquery]
    exact nofun
  · rw [hquery]
    exact nofun

/-- **Which keys come back.**  The value that has been set under a key is what the request for
the key is answered with exactly when the parser leaves the key alone, and the separator is not
in it. -/
theorem retrieved_iff (client : Client) {key : JsString} (hkey : WellFormed key) (v : Json)
    (node : NodeSign) (coerce : Coercions) (ctx : Context) (now : ℕ) :
    ((answer (afterSet node coerce ctx key v now) (keyTarget client key)).status = 200 ∧
        field (answer (afterSet node coerce ctx key v now) (keyTarget client key)).body "value"
          = some v) ↔
      Retrievable client key := by
  rw [answer_value_iff, afterSet_eq, ← requestedKey_keyTarget_iff hkey]
  by_cases hproto : key = js "__proto__"
  · rw [hproto]
    have hrequested := (requestedKey_keyTarget_iff (by decide)).mpr (retrievable_proto client)
    exact iff_of_true ⟨_, hrequested, getState_proto v now⟩ hrequested
  · constructor
    · intro h
      obtain ⟨other, hother, hvalue⟩ := h
      rw [hother, (getState_initial_iff hproto v now other).mp hvalue]
    · intro h
      exact ⟨key, h, (getState_initial_iff hproto v now key).mpr rfl⟩

/-- A key with a query in it. -/
theorem retrievable_user : Retrievable ⟨true, false⟩ (js "user/1?x") := by
  have hquery : (scalars (js "user/1?x")).dropWhile (· ≠ '?') = ['?', 'x'] := by decide
  refine ⟨⟨List.all_eq_true.mp (by decide), by decide, ?_, ?_⟩, by decide⟩
  · rw [hquery]
    exact List.forall_mem_singleton.mpr (by decide)
  · rw [hquery]
    exact fun h => absurd h (by decide)

theorem retrieved_known :
    (answer (afterSet (Tabulated.sign [] []) SignedPacket.knownCoercions
        { knownNodes := .empty, clock := 7 } (js "user/1?x") .null 7)
      (keyTarget ⟨true, false⟩ (js "user/1?x"))).status = 200 ∧
    field (answer (afterSet (Tabulated.sign [] []) SignedPacket.knownCoercions
        { knownNodes := .empty, clock := 7 } (js "user/1?x") .null 7)
      (keyTarget ⟨true, false⟩ (js "user/1?x"))).body "value" = some .null :=
  (retrieved_iff ⟨true, false⟩ (by decide) .null _ _ _ 7).mpr
    retrievable_user

/-- A key with a space in it is asked for with `%20` in its place, and is not found. -/
theorem space_not_found :
    keyTarget ⟨true, false⟩ (js "a b") = js "/get/a%20b" ∧
      (answer (afterSet (Tabulated.sign [] []) SignedPacket.knownCoercions
        { knownNodes := .empty, clock := 7 } (js "a b") .null 7)
      (keyTarget ⟨true, false⟩ (js "a b"))).status = 404 := by
  decide

end NewZone.Services.State
