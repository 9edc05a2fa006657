import NewZone.Lib.BoundedMap
import NewZone.Services.StateStore

/-!
# The state store as a bounded map

As long as no name that every object inherits gets in the way, the store is a
map of `MAX_KEYS` keys that drops an oldest entry for a new key.  `Fits` says
which calls keep it so: `__proto__` is not set, another inherited name is new
only where there is room, and an inherited name is looked up only when it is
listed.
-/

namespace NewZone.Services.State

open NewZone.Js NewZone.Js.Json NewZone.Runs
open NewZone.BoundedMap (Map lastSet)

/-- The calls of the core. -/
abbrev Call := BoundedMap.Op JsString (Option Json) ℕ

def after (STATE : Store) : Call → Store
  | .set key value now => setState STATE key value now
  | .get _ => STATE
  | .delete key => deleteState STATE key
  | .list => STATE

def Step (STATE : Store) (call : Call) (STATE' : Store) : Prop := STATE' = after STATE call

/-- No inherited name is taken for an entry. -/
def Fits (STATE : Store) : Call → Prop
  | .set key _ _ => key ≠ js "__proto__" ∧
    (key ∈ objectPrototype → key ∈ listKeys STATE ∨ (listKeys STATE).length < MAX_KEYS)
  | .get key => key ∈ objectPrototype → key ∈ listKeys STATE
  | .delete _ => True
  | .list => True

/-! ## The simulation -/

/-- The store has the entries of the map, and its prototype is still
`Object.prototype`. -/
structure Refines (STATE : Store) (M : Map JsString (Option Json) ℕ MAX_KEYS) : Prop where
  proto : STATE.proto = none
  entry : ∀ key, M.entry key = (STATE.own.get key).map fun e => (e.value, e.ts)

variable {STATE : Store} {M : Map JsString (Option Json) ℕ MAX_KEYS}

theorem mem_listKeys_iff {key : JsString} : key ∈ listKeys STATE ↔ STATE.own.get key ≠ none := by
  rw [← not_iff_not, not_not]
  exact getProp_eq_none_iff.symm

theorem Refines.mem_keys (h : Refines STATE M) (key : JsString) :
    key ∈ M.keys ↔ key ∈ listKeys STATE := by
  rw [M.mem_keys, h.entry, mem_listKeys_iff, ne_eq, ne_eq, Option.map_eq_none_iff]

theorem Refines.card_keys (h : Refines STATE M) : M.keys.card = (listKeys STATE).length := by
  have hkeys : M.keys = (listKeys STATE).toFinset := by
    ext key
    rw [List.mem_toFinset, h.mem_keys]
  rw [hkeys]
  exact List.toFinset_card_of_nodup STATE.own.nodup

/-- What is looked up is listed or inherited. -/
theorem Refines.lookup (h : Refines STATE M) (key : JsString) :
    STATE.lookup key = match STATE.own.get key with
      | some e => some (.entry e)
      | none => if key ∈ objectPrototype then some .builtin else none := by
  unfold Store.lookup
  rw [h.proto]
  cases STATE.own.get key <;> rfl

theorem Refines.getState_eq (h : Refines STATE M) (key : JsString) :
    getState STATE key = match STATE.own.get key with
      | some e => some (.entry e)
      | none => if key ∈ objectPrototype then some .builtin else none := by
  rw [getState, h.lookup]
  cases STATE.own.get key with
  | some e => rfl
  | none =>
    dsimp only
    split_ifs <;> rfl

/-- The first of the keys with the smallest `ts` is as old as any. -/
theorem Refines.oldest (h : Refines STATE M) {m : JsString × Entry}
    (hm : STATE.own.members.argmin (fun m => m.2.ts) = some m) : M.Oldest m.1 := by
  have hmem := List.argmin_mem hm
  refine ⟨m.2.value, m.2.ts, ?_, ?_⟩
  · rw [h.entry, PlainObject.get_eq_some_iff.mpr hmem]
    rfl
  · intro key value t hentry
    rw [h.entry] at hentry
    obtain ⟨e, he, hvalue⟩ := Option.map_eq_some_iff.mp hentry
    obtain ⟨-, rfl⟩ := Prod.mk.inj hvalue
    exact @List.le_of_mem_argmin _ _ _ (fun m : JsString × Entry => m.2.ts) _ _ _
      (PlainObject.get_eq_some_iff.mp he) hm

theorem Refines.put (h : Refines STATE M) {key : JsString} (hkey : key ≠ js "__proto__")
    (value : Option Json) (now : ℕ) (hroom : M.Room key) :
    Refines (STATE.assign key { value, ts := now }) (M.put key value now hroom) := by
  unfold Store.assign
  rw [dif_neg hkey]
  refine ⟨h.proto, fun other => ?_⟩
  rw [Map.entry_put, PlainObject.get_set, h.entry]
  by_cases hother : other = key
  · rw [if_pos hother, if_pos hother.symm]
    rfl
  · rw [if_neg hother, if_neg (Ne.symm hother)]

theorem Refines.erase (h : Refines STATE M) (key : JsString) :
    Refines (STATE.delete key) (M.erase key) := by
  refine ⟨h.proto, fun other => ?_⟩
  show _ = ((STATE.own.erase key).get other).map _
  rw [Map.entry_erase, PlainObject.get_erase, h.entry]
  by_cases hother : other = key
  · rw [if_pos hother, if_pos hother.symm]
    rfl
  · rw [if_neg hother, if_neg (Ne.symm hother)]

/-- Where there is room, no entry goes, and else one that is as old as any. -/
theorem Refines.set (h : Refines STATE M) {key : JsString} {value : Option Json} {now : ℕ}
    (hfits : Fits STATE (.set key value now)) :
    ∃ M', BoundedMap.Step M (.set key value now) M' ∧ Refines (setState STATE key value now) M' := by
  obtain ⟨hkey, hinherited⟩ := hfits
  have hlength : STATE.own.members.length = (listKeys STATE).length :=
    (List.length_map Prod.fst).symm
  unfold setState
  dsimp only
  rw [h.lookup, hlength]
  by_cases hroom : M.Room key
  · refine ⟨_, .set hroom, ?_⟩
    rw [if_neg]
    · exact h.put hkey value now hroom
    · rintro ⟨hfull, hknown⟩
      rcases hroom with hmem | hlt
      · rw [h.mem_keys, mem_listKeys_iff] at hmem
        cases hget : STATE.own.get key with
        | none => exact hmem hget
        | some e =>
          rw [hget] at hknown
          cases hknown
      · rw [h.card_keys] at hlt
        omega
  · have hfull := hroom
    rw [Map.Room, not_or, not_lt, h.card_keys, h.mem_keys] at hfull
    obtain ⟨hnew, hle⟩ := hfull
    have hget : STATE.own.get key = none := not_not.mp (mt mem_listKeys_iff.mpr hnew)
    have hname : key ∉ objectPrototype := by
      intro hname
      rcases hinherited hname with hmem | hlt
      · exact hnew hmem
      · omega
    rw [hget]
    dsimp only
    rw [if_neg hname, if_pos ⟨hle, rfl⟩]
    cases hold : STATE.own.members.argmin fun m => m.2.ts with
    | none =>
      rw [List.argmin_eq_none] at hold
      rw [← hlength, hold] at hle
      simp [MAX_KEYS] at hle
    | some m =>
      have holdest := h.oldest hold
      exact ⟨_, .replace hroom holdest, (h.erase m.1).put hkey value now (holdest.room key)⟩

theorem Refines.step {call : Call} (h : Refines STATE M) (hfits : Fits STATE call) :
    ∃ M', BoundedMap.Step M call M' ∧ Refines (after STATE call) M' := by
  cases call with
  | set key value now => exact h.set hfits
  | get key => exact ⟨M, .get M key, h⟩
  | delete key => exact ⟨_, .delete M key, h.erase key⟩
  | list => exact ⟨M, .list M, h⟩

/-- What the map answers to a lookup. -/
def Answers (STATE : Store) (M : Map JsString (Option Json) ℕ MAX_KEYS) : Call → Prop
  | .get key => getState STATE key ≠ none ↔ key ∈ M.keys
  | _ => True

/-- A lookup is answered as by the map, unless the name is inherited. -/
theorem Refines.answers_iff (h : Refines STATE M) (key : JsString) :
    Answers STATE M (.get key) ↔ Fits STATE (.get key) := by
  show (getState STATE key ≠ none ↔ key ∈ M.keys) ↔ (key ∈ objectPrototype → key ∈ listKeys STATE)
  rw [h.getState_eq, h.mem_keys, mem_listKeys_iff]
  cases STATE.own.get key with
  | some e => simp
  | none => by_cases hname : key ∈ objectPrototype <;> simp [hname]

/-- A new entry that no other gives way to needs room. -/
theorem Refines.fits_of_set (h : Refines STATE M) {key : JsString} {value : Option Json} {now : ℕ}
    {M' : Map JsString (Option Json) ℕ MAX_KEYS}
    (hstep : BoundedMap.Step M (.set key value now) M')
    (h' : Refines (setState STATE key value now) M') : Fits STATE (.set key value now) := by
  have hkey : key ≠ js "__proto__" := by
    rintro rfl
    have hproto := h'.proto
    unfold setState Store.assign at hproto
    dsimp only at hproto
    rw [dif_pos rfl] at hproto
    cases hproto
  refine ⟨hkey, fun hname => ?_⟩
  by_contra hnot
  rw [not_or, not_lt] at hnot
  obtain ⟨hnew, hfull⟩ := hnot
  have hget : STATE.own.get key = none := not_not.mp (mt mem_listKeys_iff.mpr hnew)
  have hset : setState STATE key value now = STATE.assign key { value, ts := now } := by
    unfold setState
    dsimp only
    rw [h.lookup, hget]
    dsimp only
    rw [if_pos hname, if_neg fun hcond => absurd hcond.2 nofun]
  cases hstep with
  | set hroom =>
    rcases hroom with hmem | hlt
    · exact hnew ((h.mem_keys key).mp hmem)
    · rw [h.card_keys] at hlt
      omega
  | @replace _ old _ _ hroom hold =>
    -- the oldest entry is still there
    have hmem := (h.mem_keys old).mp hold.mem_keys
    have hne : old ≠ key := fun he => hnew (he ▸ hmem)
    have hentry := h'.entry old
    rw [Map.entry_put, Map.entry_erase, if_neg hne, if_pos rfl, hset, Store.assign, dif_neg hkey]
      at hentry
    dsimp only at hentry
    rw [PlainObject.get_set_of_ne _ hne.symm] at hentry
    exact mem_listKeys_iff.mp hmem (Option.map_eq_none_iff.mp hentry.symm)

/-- A call is a step of the map exactly when it fits. -/
theorem Refines.step_iff (h : Refines STATE M) (call : Call) :
    (∃ M', BoundedMap.Step M call M' ∧ Refines (after STATE call) M' ∧ Answers STATE M call) ↔
      Fits STATE call := by
  constructor
  · rintro ⟨M', hstep, h', hanswers⟩
    cases call with
    | set key value now => exact h.fits_of_set hstep h'
    | get key => exact (h.answers_iff key).mp hanswers
    | delete key => trivial
    | list => trivial
  · intro hfits
    obtain ⟨M', hstep, h'⟩ := h.step hfits
    refine ⟨M', hstep, h', ?_⟩
    cases call with
    | set key value now => trivial
    | get key => exact (h.answers_iff key).mpr hfits
    | delete key => trivial
    | list => trivial

theorem refines_of_run {calls : List Call} (hrun : Run (Guarded Step Fits) .initial calls STATE) :
    ∃ M, Run BoundedMap.Step (.empty : Map JsString (Option Json) ℕ MAX_KEYS) calls M ∧
      Refines STATE M := by
  refine hrun.history (P := fun calls STATE => ∃ M, Run BoundedMap.Step .empty calls M ∧
    Refines STATE M) ⟨.empty, .nil _, rfl, fun _ => rfl⟩ ?_
  rintro calls STATE call STATE' - ⟨M, hM, h⟩ ⟨rfl, hfits⟩
  obtain ⟨M', hstep, h'⟩ := h.step hfits
  exact ⟨M', .snoc hM hstep, h'⟩

/-! ## What holds in a reached state -/

/-- What a bounded map promises about a state, and about the next call. -/
structure Bounded (calls : List Call) (STATE : Store) : Prop where
  size : (listKeys STATE).length ≤ MAX_KEYS
  found : ∀ key, Fits STATE (.get key) →
    (getState STATE key ≠ none ↔ key ∈ listKeys STATE)
  value : ∀ key ∈ listKeys STATE, ∃ e, getState STATE key = some (.entry e) ∧
    lastSet key calls = some e.value
  gone : ∀ call, Fits STATE call → ∀ key ∈ listKeys STATE, key ∉ listKeys (after STATE call) →
    call = .delete key ∨ ∃ new value now, call = .set new value now ∧
      new ∉ listKeys STATE ∧ (listKeys STATE).length = MAX_KEYS ∧
      (∃ e, STATE.own.get key = some e ∧
        ∀ other e', STATE.own.get other = some e' → e.ts ≤ e'.ts) ∧
      ∀ other ∈ listKeys STATE, other ≠ key → other ∈ listKeys (after STATE call)

/-- **When the store is a bounded map.**  Every state that is reached by calls that
fit is the state of a bounded map. -/
theorem bounded_of_run {calls : List Call}
    (hrun : Run (Guarded Step Fits) .initial calls STATE) : Bounded calls STATE := by
  obtain ⟨M, hM, h⟩ := refines_of_run hrun
  constructor
  case size =>
    rw [← h.card_keys]
    exact M.card_le
  case found =>
    intro key hfits
    rw [← h.mem_keys]
    exact (h.answers_iff key).mpr hfits
  case value =>
    intro key hkey
    obtain ⟨e, he⟩ := Option.ne_none_iff_exists'.mp (mem_listKeys_iff.mp hkey)
    refine ⟨e, by rw [h.getState_eq, he], ?_⟩
    have hentry : M.entry key = some (e.value, e.ts) := by
      rw [h.entry, he]
      rfl
    exact BoundedMap.lastSet_of_run hM hentry
  case gone =>
    intro call hfits key hkey hgone
    obtain ⟨M', hstep, h'⟩ := h.step hfits
    rw [← h.mem_keys] at hkey
    rw [← h'.mem_keys] at hgone
    rcases hstep.gone hkey hgone with hdelete | ⟨new, value, now, hset, hnew, hcard, hold, hkept⟩
    · exact .inl hdelete
    · refine .inr ⟨new, value, now, hset, ?_, ?_, ?_, ?_⟩
      · rwa [← h.mem_keys]
      · rw [← h.card_keys, hcard]
      · obtain ⟨v, t, hentry, hle⟩ := hold
        rw [h.entry] at hentry
        obtain ⟨e, he, hvalue⟩ := Option.map_eq_some_iff.mp hentry
        obtain ⟨-, rfl⟩ := Prod.mk.inj hvalue
        refine ⟨e, he, fun other e' he' => hle other e'.value e'.ts ?_⟩
        rw [h.entry, he']
        rfl
      · intro other hother hne
        rw [← h.mem_keys] at hother
        rw [← h'.mem_keys]
        exact hkept other hother hne

/-! ## Known runs -/

def knownCalls : List Call :=
  [.set (js "a") (some (.bool true)) 7, .get (js "a"), .set (js "b") none 8, .delete (js "a"),
    .list]

theorem run_known :
    ∃ STATE, Run (Guarded Step Fits) .initial knownCalls STATE ∧ listKeys STATE = [js "b"] := by
  have hname : ∀ STATE key value now, key ∉ objectPrototype →
      Fits STATE (.set key value now) := fun _ _ _ _ hname =>
    ⟨fun he => hname (he ▸ by decide), fun hmem => absurd hmem hname⟩
  refine ⟨_, .cons ⟨rfl, hname _ _ _ _ (by decide)⟩ (.cons ⟨rfl, fun hmem => absurd hmem (by decide)⟩
    (.cons ⟨rfl, hname _ _ _ _ (by decide)⟩ (.cons ⟨rfl, trivial⟩ (.single ⟨rfl, trivial⟩)))), ?_⟩
  rfl

theorem bounded_known :
    ∃ STATE, Bounded knownCalls STATE ∧ listKeys STATE = [js "b"] := by
  obtain ⟨STATE, hrun, hkeys⟩ := run_known
  exact ⟨STATE, bounded_of_run hrun, hkeys⟩

/-- **A key that no one has set.**  Nothing is listed, and `constructor` is found. -/
theorem unset_key_found :
    Run Step .initial [.get (js "constructor")] .initial ∧
      listKeys .initial = [] ∧ getState .initial (js "constructor") = some .builtin :=
  ⟨.single rfl, rfl, rfl⟩

end NewZone.Services.State
