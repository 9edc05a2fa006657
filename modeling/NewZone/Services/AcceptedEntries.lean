import NewZone.Services.Replication

/-!
# What the state loop accepts

The loop over `incoming.state` assigns some of the entries.  With different
keys these are told apart by what was in the state before the loop: they are
the entries that the loop gets to and that win there (`getProp_accepted_iff`).
-/

namespace NewZone.Services.Replication

open NewZone.Js

/-- The entries that the loop over `incoming.state` assigns. -/
def accepted (engine : Engine) (state : PlainObject Json) :
    List (JsString × Json) → List (JsString × Json)
  | [] => []
  | (key, remote) :: rest =>
    match wins engine (state.lookup key) remote with
    | .ok true => (key, remote) :: accepted engine (state.set key remote) rest
    | .ok false => accepted engine state rest
    | .error _ => []

/-- `e'` has a larger time stamp than `e`. -/
def isNewer (engine : Engine) (e' e : Json) : Bool :=
  holds (engine.gt (Json.field e' "ts") (Json.field e "ts"))

/-- The loop assigns what it accepts. -/
theorem get_mergeState (engine : Engine) (state : PlainObject Json)
    (es : List (JsString × Json)) (key : JsString) :
    (mergeState engine state es).1.get key
      = (getProp key (accepted engine state es).reverse).or (state.get key) := by
  fun_induction mergeState engine state es with
  | case1 state => rfl
  | case2 state k remote rest hwin ih =>
    rw [ih, accepted, hwin, List.reverse_cons, getProp_append, Option.or_assoc,
      PlainObject.get_set, getProp_cons]
    split_ifs <;> rfl
  | case3 state k remote rest hwin ih => rw [ih, accepted, hwin]
  | case4 state k remote rest e hwin => rw [accepted, hwin]; rfl

/-- The entries that the state loop gets to.  It ends early where a comparison
throws. -/
def reached (engine : Engine) (state : PlainObject Json)
    (es : List (JsString × Json)) : List (JsString × Json) :=
  es.takeWhile fun e => (wins engine (state.lookup e.1) e.2).isOk

theorem reached_congr (engine : Engine) {state state' : PlainObject Json}
    {es : List (JsString × Json)}
    (h : ∀ e ∈ es, state.lookup e.1 = state'.lookup e.1) :
    reached engine state es = reached engine state' es := by
  induction es with
  | nil => rfl
  | cons e es ih =>
    have hrest := ih fun e' he' => h e' (List.mem_cons_of_mem _ he')
    unfold reached at hrest ⊢
    rw [List.takeWhile_cons, List.takeWhile_cons, h e List.mem_cons_self, hrest]

/-- With different keys, the loop accepts those of the entries that it gets to
which win against what was there before. -/
theorem accepted_eq (engine : Engine) (state : PlainObject Json)
    {es : List (JsString × Json)} (hes : NodupKeys es) :
    accepted engine state es
      = (reached engine state es).filter fun e =>
          holds (wins engine (state.lookup e.1) e.2) := by
  fun_induction accepted engine state es with
  | case1 state => rfl
  | case2 state key remote rest hwin ih =>
    obtain ⟨hkey, hrest⟩ := List.nodup_cons.mp hes
    have hlookup := lookup_set_of_notMem state remote hkey
    have hcongr := reached_congr engine hlookup
    rw [ih hrest, hcongr, reached, reached, List.takeWhile_cons, hwin]
    simp only [Except.isOk, Except.toBool, if_true, List.filter_cons, hwin, holds]
    congr 1
    apply List.filter_congr
    intro e he
    rw [hlookup e ((List.takeWhile_sublist _).subset he)]
  | case3 state key remote rest hwin ih =>
    rw [ih (List.nodup_cons.mp hes).2, reached, reached, List.takeWhile_cons, hwin]
    simp [Except.isOk, Except.toBool, hwin, holds]
  | case4 state key remote rest e hwin =>
    rw [reached, List.takeWhile_cons, hwin]
    simp [Except.isOk, Except.toBool]

theorem accepted_sublist (engine : Engine) (state : PlainObject Json)
    {es : List (JsString × Json)} (hes : NodupKeys es) :
    (accepted engine state es).Sublist es := by
  rw [accepted_eq engine state hes]
  exact List.filter_sublist.trans (List.takeWhile_sublist _)

/-- An entry is accepted if the loop gets to it and it wins. -/
theorem getProp_accepted_iff {engine : Engine} {state : PlainObject Json}
    {es : List (JsString × Json)} (hes : NodupKeys es) {key : JsString} {r : Json} :
    getProp key (accepted engine state es).reverse = some r ↔
      (key, r) ∈ reached engine state es ∧
        holds (wins engine (state.lookup key) r) = true := by
  have hnodup : NodupKeys (accepted engine state es).reverse := by
    rw [NodupKeys, List.map_reverse, List.nodup_reverse]
    exact hes.sublist ((accepted_sublist engine state hes).map _)
  rw [getProp_eq_some_iff hnodup, List.mem_reverse, accepted_eq engine state hes,
    List.mem_filter]

/-- What is accepted in the place of a truthy entry is newer. -/
theorem isNewer_of_accepted {engine : Engine} {state : PlainObject Json}
    {es : List (JsString × Json)} (hes : NodupKeys es) {key : JsString}
    {e r : Json} (he : state.get key = some e) (htruthy : e.truthy = true)
    (hr : getProp key (accepted engine state es).reverse = some r) :
    isNewer engine r e = true := by
  have hwin := ((getProp_accepted_iff hes).mp hr).2
  rw [PlainObject.lookup_of_get he, wins, if_pos htruthy] at hwin
  cases r with
  | null => cases hwin
  | _ => exact hwin

/-- Whatever the loop gets to is accepted in the place of a falsy entry. -/
theorem getProp_accepted_of_falsy {engine : Engine} {state : PlainObject Json}
    {es : List (JsString × Json)} (hes : NodupKeys es) {key : JsString}
    {e r : Json} (he : state.get key = some e) (hfalsy : e.truthy = false) :
    getProp key (accepted engine state es).reverse = some r ↔
      (key, r) ∈ reached engine state es := by
  rw [getProp_accepted_iff hes, PlainObject.lookup_of_get he, wins,
    if_neg (by simp [hfalsy])]
  exact and_iff_left rfl

end NewZone.Services.Replication
