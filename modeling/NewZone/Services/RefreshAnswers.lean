import NewZone.Services.Snapshot

/-!
# What a refresh makes of its answers

The snapshot that a refresh saves is what the state server has answered for the
keys that it has listed, whatever was done in between (`Refresh.Heard.resume`).
So the state after a refresh can be told from the answers alone.
-/

namespace NewZone.Services.Replication

open NewZone.Js

/-- The value of an answer that has one. -/
def Answer.value : Answer → Option Json
  | .json v => some v
  | _ => none

/-- What a refresh has been answered under each key, when that was the last
answer that it needed. -/
def fetched : List Answer → Option (List (JsString × Json))
  | .keys list :: answers => do
    let values ← answers.mapM Answer.value
    if values.length = list.keys.length then some (list.keys.zip values)
    else none
  | _ => none

theorem mapM_value_iff {answers : List Answer} {values : List Json} :
    answers.mapM Answer.value = some values ↔ answers = values.map .json := by
  induction answers generalizing values with
  | nil => cases values <;> simp
  | cons answer answers ih =>
    rw [List.mapM_cons]
    cases values with
    | nil => cases answer <;> simp [Answer.value, Option.bind_eq_some_iff]
    | cons v values =>
      cases answer with
      | json w => simp [Answer.value, Option.bind_eq_some_iff, ih, and_comm]
      | _ => simp [Answer.value]

theorem fetched_eq_some_iff {answers : List Answer}
    {pairs : List (JsString × Json)} :
    fetched answers = some pairs ↔ ∃ list values,
      answers = .keys list :: values.map .json ∧
        values.length = list.keys.length ∧ pairs = list.keys.zip values := by
  constructor
  · intro h
    cases answers with
    | nil => cases h
    | cons answer answers =>
      cases answer with
      | keys list =>
        obtain ⟨values, hvalues, h⟩ := Option.bind_eq_some_iff.mp h
        split_ifs at h with hlength
        exact ⟨list, values, by rw [mapM_value_iff.mp hvalues], hlength,
          (Option.some.inj h).symm⟩
      | _ => cases h
  · rintro ⟨list, values, rfl, hlength, rfl⟩
    rw [fetched, mapM_value_iff.mpr rfl]
    exact if_pos hlength

/-- A refresh agrees with the answers that it has been given. -/
def Refresh.Heard : Refresh → List Answer → Prop
  | .keys, answers => answers = []
  | .value key rest newState, answers => ∃ list values,
      answers = .keys list :: values.map .json ∧
        list.keys.drop values.length = key :: rest ∧
        ∀ k, newState.get k = getProp k (list.keys.zip values).reverse
  | _, answers => ∀ later, later ≠ [] → fetched (answers ++ later) = none

/-- What the state binds a key to after the answers. -/
def saved (state : PlainObject Json) (answers : List Answer) (key : JsString) :
    Option Json :=
  match fetched answers with
  | some pairs => getProp key pairs.reverse
  | none => state.get key

theorem fetched_of_failed {answers : List Answer} (h : .failed ∈ answers) :
    fetched answers = none := by
  by_contra hne
  obtain ⟨pairs, hpairs⟩ := Option.ne_none_iff_exists'.mp hne
  obtain ⟨list, values, rfl, -, -⟩ := fetched_eq_some_iff.mp hpairs
  simp at h

theorem zip_snoc {keys rest : List JsString} {key : JsString} {values : List Json}
    (h : keys.drop values.length = key :: rest) (v : Json) :
    keys.zip (values ++ [v]) = keys.zip values ++ [(key, v)] := by
  induction values generalizing keys with
  | nil =>
    obtain rfl : keys = key :: rest := h
    simp
  | cons w values ih =>
    cases keys with
    | nil => cases h
    | cons k keys =>
      rw [List.cons_append, List.zip_cons_cons, List.zip_cons_cons, ih h]
      rfl

/-- The loop over the keys, with as many answers as `values`. -/
theorem heard_nextKey (L : LocalData) {newState : PlainObject Json}
    {list : KeyList} {values : List Json} {rest : List JsString}
    (hlength : values.length ≤ list.keys.length)
    (hrest : list.keys.drop values.length = rest)
    (hget : ∀ k, newState.get k = getProp k (list.keys.zip values).reverse) :
    (nextKey L newState rest).2.Heard (.keys list :: values.map .json) ∧
      ∀ key, (nextKey L newState rest).1.state.get key
        = saved L.state (.keys list :: values.map .json) key := by
  have hfetched : ∀ {later pairs},
      fetched (.keys list :: values.map .json ++ later) = some pairs →
      values.length + later.length = list.keys.length ∧
        (later = [] → pairs = list.keys.zip values) := by
    intro later pairs h
    obtain ⟨list', values', heq, hlength', rfl⟩ := fetched_eq_some_iff.mp h
    obtain ⟨hlist, hvalues⟩ := List.cons.inj heq
    obtain rfl := Answer.keys.inj hlist
    have hlen := congrArg List.length heq
    simp only [List.length_append, List.length_cons, List.length_map] at hlen
    refine ⟨by omega, ?_⟩
    rintro rfl
    have hinj : Function.Injective Answer.json := fun _ _ => Answer.json.inj
    rw [hinj.list_map ((List.append_nil _).symm.trans hvalues)]
  cases rest with
  | nil =>
    have hall : values.length = list.keys.length :=
      le_antisymm hlength (List.drop_eq_nil_iff.mp hrest)
    constructor
    · intro later hlater
      by_contra hne
      obtain ⟨pairs, hpairs⟩ := Option.ne_none_iff_exists'.mp hne
      have hlen := (hfetched hpairs).1
      have hpos := List.length_pos_iff.mpr hlater
      omega
    · intro key
      have hpairs : fetched (.keys list :: values.map .json)
          = some (list.keys.zip values) :=
        fetched_eq_some_iff.mpr ⟨list, values, rfl, hall, rfl⟩
      rw [saved, hpairs]
      exact hget key
  | cons key rest =>
    refine ⟨⟨list, values, rfl, hrest, hget⟩, fun k => ?_⟩
    have hnone : fetched (.keys list :: values.map .json) = none := by
      by_contra hne
      obtain ⟨pairs, hpairs⟩ := Option.ne_none_iff_exists'.mp hne
      have hlen := (@hfetched [] pairs (by rwa [List.append_nil])).1
      have hdrop := congrArg List.length hrest
      rw [List.length_drop, List.length_cons] at hdrop
      rw [List.length_nil] at hlen
      omega
    rw [saved, hnone]
    rfl

/-- A resumed refresh agrees with its answers again, and what it leaves in the
state is what these say. -/
theorem Refresh.Heard.resume {L data : LocalData} {refresh refresh' : Refresh}
    {answers : List Answer} {answer : Answer} (h : refresh.Heard answers)
    (hresume : refresh.resume L answer = some (data, refresh')) :
    refresh'.Heard (answers ++ [answer]) ∧
      ∀ key, data.state.get key = saved L.state (answers ++ [answer]) key := by
  -- after the state part, an answer fetches nothing
  have hlater : ∀ {answers : List Answer},
      (∀ later, later ≠ [] → fetched (answers ++ later) = none) →
      (∀ later, later ≠ [] → fetched (answers ++ [answer] ++ later) = none) ∧
        ∀ key, L.state.get key = saved L.state (answers ++ [answer]) key := by
    intro answers h
    constructor
    · intro later _
      rw [List.append_assoc]
      exact h _ (List.cons_ne_nil _ _)
    · intro key
      rw [saved, h _ (List.cons_ne_nil _ _)]
  have hfailed : ∀ {answers : List Answer}, answer = .failed →
      (∀ later, later ≠ [] → fetched (answers ++ [answer] ++ later) = none) ∧
        ∀ key, L.state.get key = saved L.state (answers ++ [answer]) key := by
    rintro answers rfl
    refine ⟨fun later _ => fetched_of_failed (by simp), fun key => ?_⟩
    rw [saved, fetched_of_failed (by simp)]
  unfold Refresh.resume at hresume
  split at hresume
  · rename_i list
    obtain ⟨rfl, rfl⟩ := Prod.mk.inj (Option.some.inj hresume)
    obtain rfl : answers = [] := h
    exact @heard_nextKey L .empty list [] _ (Nat.zero_le _) rfl (by simp)
  · rename_i key rest newState v
    obtain ⟨rfl, rfl⟩ := Prod.mk.inj (Option.some.inj hresume)
    obtain ⟨list, values, rfl, hrest, hget⟩ := h
    have hlt : values.length < list.keys.length := by
      by_contra hle
      rw [List.drop_eq_nil_iff.mpr (not_lt.mp hle)] at hrest
      cases hrest
    have hnew := @heard_nextKey L (newState.set key v) list (values ++ [v]) rest
      (by rw [List.length_append]; exact hlt)
      (by rw [List.length_append, ← List.drop_drop, hrest]; rfl)
    rw [List.map_append] at hnew
    apply hnew
    intro k
    rw [zip_snoc hrest, List.reverse_append, PlainObject.get_set, hget]
    exact (getProp_cons _ _ _ _).symm
  · cases hresume
    exact hfailed rfl
  · cases hresume
    exact hfailed rfl
  · cases hresume
    exact hlater h
  · cases hresume
    exact hlater h
  · cases hresume
    exact hlater h
  · cases hresume
    exact hlater h
  · cases hresume

end NewZone.Services.Replication
