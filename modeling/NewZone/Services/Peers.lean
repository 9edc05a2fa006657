import Mathlib.Data.List.MinMax
import NewZone.Js.Conversion
import NewZone.Js.Operators
import NewZone.Lib.ExceptBind
import NewZone.Lib.Runs

/-!
# The peer table

`services/p2p_node/index.js`.  A peer is first written into the table, and if there are
then too many, the first of those with the smallest `ts` goes.  That may be the new one:
`Date.now()` is often the same for many, and among equals the order of the keys decides,
in which array indices come first (`add_keeps_iff`).

The clock is an argument, in milliseconds since 1970.
-/

namespace NewZone.Services.Peers

open NewZone.Js NewZone.Js.Json NewZone.ExceptBind NewZone.Runs

def MAX_PEERS : ℕ := 200

/-- `{ id, url, ts: Date.now() }` -/
structure Peer where
  id : Option Json
  url : Option Json
  ts : ℕ

/-- `PEERS`: its own properties, and its prototype once that has been set. -/
@[ext]
structure Table where
  own : PlainObject Peer
  proto : Option Peer
  /-- assigning `__proto__` makes no property -/
  plain : own.get (js "__proto__") = none

def Table.initial : Table := { own := .empty, proto := none, plain := rfl }

/-- `PEERS[key]`, if it is a peer. -/
def Table.get (PEERS : Table) (key : JsString) : Option Peer :=
  if key = js "__proto__" then PEERS.proto else PEERS.own.get key

/-- `PEERS[key] = peer` -/
def Table.assign (PEERS : Table) (key : JsString) (peer : Peer) : Table :=
  if h : key = js "__proto__" then { PEERS with proto := some peer }
  else
    { own := PEERS.own.set key peer
      proto := PEERS.proto
      plain := by rw [PlainObject.get_set_of_ne _ h, PEERS.plain] }

/-- `delete PEERS[key]` -/
def Table.delete (PEERS : Table) (key : JsString) : Table :=
  { own := PEERS.own.erase key
    proto := PEERS.proto
    plain := by
      rw [PlainObject.get_erase, PEERS.plain]
      exact ite_self _ }

/-- Bounded memory: with too many keys, the first of those that are sorted by `ts` goes. -/
def Table.bounded (PEERS : Table) : Table :=
  if PEERS.own.members.length > MAX_PEERS then
    match PEERS.own.members.argmin fun m => m.2.ts with
    | some oldest => PEERS.delete oldest.1
    | none => PEERS
  else PEERS

/-- The name that `PEERS[id]` looks up. -/
def keyOf : Option Json → Except String JsString
  | none => .ok (js "undefined")
  | some id => id.toText

def addPeer (PEERS : Table) (id url : Option Json) (now : ℕ) :
    Except String (Table × Option Peer) := do
  let key ← keyOf id
  let PEERS := (PEERS.assign key { id, url, ts := now }).bounded
  return (PEERS, PEERS.get key)

/-- What a `for … of` loop goes through. -/
def iterate : Option Json → Except String (List Json)
  | some (.arr items) => .ok items
  | some (.str s) => .ok ((codePoints s).map .str)
  | _ => .error "list is not iterable"

/-- The turns of the loop, the first of which has the time `clock 0`.  An exception leaves
what has been added. -/
def mergeFrom (PEERS : Table) (clock : ℕ → ℕ) : List Json → Table × Option String
  | [] => (PEERS, none)
  | p :: list =>
    match (do addPeer PEERS (← property p "id") (← property p "url") (clock 0) :
      Except String (Table × Option Peer)) with
    | .ok (PEERS, _) => mergeFrom PEERS (fun i => clock (i + 1)) list
    | .error e => (PEERS, some e)

def mergePeers (PEERS : Table) (list : Option Json) (clock : ℕ → ℕ) : Table × Option String :=
  match iterate list with
  | .ok items => mergeFrom PEERS clock items
  | .error e => (PEERS, some e)

/-! ## Writing a peer -/

/-- What a write leaves of the own properties. -/
def place (own : PlainObject Peer) (key : JsString) (peer : Peer) : PlainObject Peer :=
  let own := own.set key peer
  if own.members.length > MAX_PEERS then
    match own.members.argmin fun m => m.2.ts with
    | some oldest => own.erase oldest.1
    | none => own
  else own

theorem own_bounded_assign {PEERS : Table} {key : JsString} (hkey : key ≠ js "__proto__")
    (peer : Peer) : (PEERS.assign key peer).bounded.own = place PEERS.own key peer := by
  have hassign : (PEERS.assign key peer).own = PEERS.own.set key peer := by
    rw [Table.assign, dif_neg hkey]
  unfold Table.bounded place
  rw [hassign]
  dsimp only
  split_ifs
  · cases List.argmin (fun m => m.2.ts) (PEERS.own.set key peer).members with
    | none => exact hassign
    | some oldest => exact congrArg (PlainObject.erase · oldest.1) hassign
  · exact hassign

theorem proto_bounded (PEERS : Table) : PEERS.bounded.proto = PEERS.proto := by
  unfold Table.bounded
  split_ifs
  · cases List.argmin (fun m => m.2.ts) PEERS.own.members <;> rfl
  · rfl

/-- `__proto__` is not among the peers that are counted. -/
theorem bounded_assign_proto {PEERS : Table} (hlength : PEERS.own.members.length ≤ MAX_PEERS)
    (peer : Peer) :
    (PEERS.assign (js "__proto__") peer).bounded = { PEERS with proto := some peer } := by
  have hassign : PEERS.assign (js "__proto__") peer = { PEERS with proto := some peer } :=
    dif_pos rfl
  rw [hassign]
  exact if_neg (not_lt.mpr hlength)

theorem length_set_of_get {own : PlainObject Peer} {key : JsString} (h : own.get key ≠ none)
    (peer : Peer) : (own.set key peer).members.length = own.members.length := by
  show (setProp key peer own.members).length = _
  have hsome : (getProp key own.members).isSome = true := Option.isSome_iff_ne_none.mpr h
  rw [setProp, if_pos hsome]
  have hnames := congrArg List.length (map_fst_replaceProp key peer own.members)
  simpa only [List.length_map] using hnames

theorem members_set_of_new {own : PlainObject Peer} {key : JsString} (h : own.get key = none)
    (peer : Peer) : (own.set key peer).members = insertProp key peer own.members := by
  show setProp key peer own.members = _
  rw [setProp, if_neg]
  rw [← PlainObject.get, h]
  exact Bool.false_ne_true

theorem length_set_of_new {own : PlainObject Peer} {key : JsString} (h : own.get key = none)
    (peer : Peer) : (own.set key peer).members.length = own.members.length + 1 := by
  rw [members_set_of_new h]
  exact (insertProp_perm key peer own.members).length_eq

theorem place_of_length {own : PlainObject Peer} {key : JsString} {peer : Peer}
    (h : (own.set key peer).members.length ≤ MAX_PEERS) : place own key peer = own.set key peer :=
  if_neg (not_lt.mpr h)

theorem place_of_get {own : PlainObject Peer} (hlength : own.members.length ≤ MAX_PEERS)
    {key : JsString} (h : own.get key ≠ none) (peer : Peer) :
    place own key peer = own.set key peer :=
  place_of_length ((length_set_of_get h peer).trans_le hlength)

theorem place_of_room {own : PlainObject Peer} (hlength : own.members.length < MAX_PEERS)
    {key : JsString} (h : own.get key = none) (peer : Peer) :
    place own key peer = own.set key peer :=
  place_of_length ((length_set_of_new h peer).trans_le hlength)

/-- A new peer goes away again: the table is full, nobody in it is older, and the names
of all of them come later. -/
def EvictsItself (own : PlainObject Peer) (key : JsString) (peer : Peer) : Prop :=
  own.get key = none ∧ own.members.length = MAX_PEERS ∧
    (∀ m ∈ own.members, m.2.ts = peer.ts) ∧ ∀ m ∈ own.members, before key m.1 = true

/-- The first of several that are minimal is found. -/
theorem argmin_cons_of_forall {α : Type} {f : α → ℕ} {a : α} {l : List α}
    (h : ∀ b ∈ l, f a ≤ f b) : (a :: l).argmin f = some a := by
  rw [List.argmin_cons]
  cases hl : l.argmin f with
  | none => rfl
  | some b => exact if_neg (not_lt.mpr (h b (List.argmin_mem hl)))

/-- A new name that is deleted leaves nothing. -/
theorem eraseProp_insertProp {key : JsString} {peer : Peer} {ms : List (JsString × Peer)}
    (h : key ∉ ms.map Prod.fst) : eraseProp key (insertProp key peer ms) = ms := by
  have hkeep : ∀ ns : List (JsString × Peer), key ∉ ns.map Prod.fst → eraseProp key ns = ns := by
    intro ns hns
    refine List.filter_eq_self.mpr fun m hm => decide_eq_true fun he => hns ?_
    exact List.mem_map.mpr ⟨m, hm, he⟩
  have hself : ∀ ns, eraseProp key ((key, peer) :: ns) = eraseProp key ns := fun ns =>
    List.filter_cons_of_neg (by simp)
  induction ms with
  | nil => exact hself []
  | cons m ms ih =>
    obtain ⟨k, v⟩ := m
    rw [List.map_cons, List.mem_cons, not_or] at h
    obtain ⟨hk, hms⟩ := h
    unfold insertProp
    split_ifs
    · rw [hself]
      refine hkeep _ ?_
      rw [List.map_cons, List.mem_cons, not_or]
      exact ⟨hk, hms⟩
    · unfold eraseProp at ih ⊢
      rw [List.filter_cons, if_pos (decide_eq_true (Ne.symm hk)), ih hms]

theorem erase_set_of_new {own : PlainObject Peer} {key : JsString} (h : own.get key = none)
    (peer : Peer) : (own.set key peer).erase key = own := by
  apply PlainObject.ext
  show eraseProp key (own.set key peer).members = own.members
  rw [members_set_of_new h]
  exact eraseProp_insertProp (getProp_eq_none_iff.mp h)

/-- What comes before the first name comes before all. -/
theorem before_of_before_head {key : JsString} {h : JsString × Peer} {ms : List (JsString × Peer)}
    (hordered : OrderedKeys (h :: ms)) (hbefore : before key h.1 = true) :
    ∀ m ∈ h :: ms, before key m.1 = true := by
  intro m hm
  rcases List.mem_cons.mp hm with rfl | hm
  · exact hbefore
  · have hafter : before m.1 h.1 = false :=
      (List.pairwise_cons.mp hordered).1 m.1 (List.mem_map_of_mem hm)
    unfold before at *
    cases hkey : arrayIndex key with
    | none => simp [hkey] at hbefore
    | some n =>
      cases hm : arrayIndex m.1 with
      | none => rfl
      | some j =>
        cases hh : arrayIndex h.1 with
        | none => simp [hm, hh] at hafter
        | some i =>
          simp only [hkey, hm, hh, decide_eq_true_eq, decide_eq_false_iff_not] at hbefore hafter ⊢
          omega

/-- Among peers of one time, the first is the oldest. -/
theorem argmin_insertProp_of_same {key : JsString} {peer : Peer} {h : JsString × Peer}
    {ms : List (JsString × Peer)} (hsame : ∀ m ∈ h :: ms, m.2.ts = peer.ts) :
    (insertProp key peer (h :: ms)).argmin (fun m => m.2.ts)
      = some (if before key h.1 then (key, peer) else h) := by
  show List.argmin _ (if before key h.1 then (key, peer) :: h :: ms
    else h :: insertProp key peer ms) = _
  split_ifs
  · exact argmin_cons_of_forall fun m hm => (hsame m hm).ge
  · refine argmin_cons_of_forall fun m hm => ?_
    rw [hsame h List.mem_cons_self]
    rcases mem_insertProp.mp hm with rfl | hm
    · exact le_rfl
    · exact (hsame m (List.mem_cons_of_mem _ hm)).ge

/-- In a full table a new peer takes the place of the first of those that are oldest then. -/
theorem place_of_new {own : PlainObject Peer} (hfull : own.members.length = MAX_PEERS)
    {key : JsString} (hnew : own.get key = none) (peer : Peer) :
    ∃ old, (insertProp key peer own.members).argmin (fun m => m.2.ts) = some old ∧
      place own key peer = (own.set key peer).erase old.1 := by
  have hmembers := members_set_of_new hnew peer
  have hlong : (own.set key peer).members.length > MAX_PEERS := by
    rw [length_set_of_new hnew, hfull]
    exact Nat.lt_succ_self _
  obtain ⟨old, hold⟩ : ∃ old, (own.set key peer).members.argmin (fun m => m.2.ts) = some old := by
    refine Option.ne_none_iff_exists'.mp fun hnone => ?_
    rw [List.argmin_eq_none.mp hnone] at hlong
    cases hlong
  refine ⟨old, hmembers ▸ hold, ?_⟩
  unfold place
  dsimp only
  rw [if_pos hlong, hold]

/-- A full table evicts the new peer, or one that is as old as any. -/
theorem place_of_full {own : PlainObject Peer} (hfull : own.members.length = MAX_PEERS)
    {key : JsString} (hnew : own.get key = none) {peer : Peer}
    (hle : ∀ m ∈ own.members, m.2.ts ≤ peer.ts) :
    EvictsItself own key peer ∧ place own key peer = own ∨
      ¬ EvictsItself own key peer ∧ ∃ old ∈ own.members,
        (∀ m ∈ own.members, old.2.ts ≤ m.2.ts) ∧
        place own key peer = (own.set key peer).erase old.1 := by
  obtain ⟨old, hold, hplace⟩ := place_of_new hfull hnew peer
  have hmem := List.argmin_mem hold
  have hmin : ∀ m ∈ own.members, old.2.ts ≤ m.2.ts := fun m hm =>
    @List.le_of_mem_argmin _ _ _ (fun m : JsString × Peer => m.2.ts) _ _ _
      (mem_insertProp.mpr (.inr hm)) hold
  -- where nobody is older than the new peer, the first of all goes
  have hfirst : (∀ m ∈ own.members, m.2.ts = peer.ts) →
      ∃ h ∈ own.members, old = (if before key h.1 then (key, peer) else h) ∧
        (before key h.1 = true → ∀ m ∈ own.members, before key m.1 = true) := by
    intro hsame
    cases hms : own.members with
    | nil =>
      rw [hms] at hfull
      cases hfull
    | cons h ms =>
      rw [hms] at hsame hold
      refine ⟨h, List.mem_cons_self, ?_, before_of_before_head (hms ▸ own.ordered)⟩
      exact Option.some.inj (hold.symm.trans (argmin_insertProp_of_same hsame))
  by_cases hself : EvictsItself own key peer
  · refine .inl ⟨hself, ?_⟩
    obtain ⟨-, -, hsame, hbefore⟩ := hself
    obtain ⟨h, hh, hold, -⟩ := hfirst hsame
    rw [if_pos (hbefore h hh)] at hold
    rw [hplace, hold]
    exact erase_set_of_new hnew peer
  · refine .inr ⟨hself, old, ?_, hmin, hplace⟩
    rcases mem_insertProp.mp hmem with rfl | hmem
    · have hsame : ∀ m ∈ own.members, m.2.ts = peer.ts := fun m hm =>
        le_antisymm (hle m hm) (hmin m hm)
      obtain ⟨h, hh, hold, hall⟩ := hfirst hsame
      by_cases hbefore : before key h.1 = true
      · exact absurd ⟨hnew, hfull, hsame, hall hbefore⟩ hself
      · rw [if_neg hbefore] at hold
        rw [hold]
        exact hh
    · exact hmem

/-- What is in the table has been there, or has been added. -/
theorem forall_place {P : JsString × Peer → Prop} {own : PlainObject Peer}
    (h : ∀ m ∈ own.members, P m) {key : JsString} {peer : Peer} (hpeer : P (key, peer)) :
    ∀ m ∈ (place own key peer).members, P m := by
  have hset := PlainObject.forall_members_set h hpeer
  unfold place
  dsimp only
  split_ifs
  · cases List.argmin (fun m => m.2.ts) (own.set key peer).members with
    | none => exact hset
    | some old => exact fun m hm => hset m (List.mem_filter.mp hm).1
  · exact hset

theorem length_erase {own : PlainObject Peer} {key : JsString} (h : own.get key ≠ none) :
    (own.erase key).members.length + 1 = own.members.length := by
  have hmem : key ∈ own.members.map Prod.fst := by
    by_contra hnot
    exact h (getProp_eq_none_iff.mpr hnot)
  have hnames : (own.erase key).members.map Prod.fst = (own.members.map Prod.fst).erase key := by
    rw [List.Nodup.erase_eq_filter own.nodup, List.filter_map]
    refine congrArg (List.map Prod.fst) (List.filter_congr fun m _ => ?_)
    by_cases hm : m.1 = key
    · simp [hm]
    · simp [hm]
  have hlength := congrArg List.length hnames
  rw [List.length_erase_of_mem hmem, List.length_map, List.length_map] at hlength
  have hpos : 0 < own.members.length := by
    have := List.length_pos_of_mem hmem
    rwa [List.length_map] at this
  omega

theorem get_set_ne_none {own : PlainObject Peer} {m : JsString × Peer} (hm : m ∈ own.members)
    (key : JsString) (peer : Peer) : (own.set key peer).get m.1 ≠ none := by
  rw [PlainObject.get_set, PlainObject.get_eq_some_iff.mpr hm]
  split_ifs
  · nofun
  · nofun

/-- The three things that a write may do to a table that is not too large. -/
theorem place_cases {own : PlainObject Peer} (hlength : own.members.length ≤ MAX_PEERS)
    {key : JsString} {peer : Peer} (hle : ∀ m ∈ own.members, m.2.ts ≤ peer.ts) :
    (¬ EvictsItself own key peer ∧ place own key peer = own.set key peer ∧
        (own.set key peer).members.length ≤ MAX_PEERS) ∨
      (EvictsItself own key peer ∧ place own key peer = own) ∨
      ¬ EvictsItself own key peer ∧ own.get key = none ∧ ∃ old ∈ own.members,
        (∀ m ∈ own.members, old.2.ts ≤ m.2.ts) ∧
        place own key peer = (own.set key peer).erase old.1 ∧
        (place own key peer).members.length = MAX_PEERS := by
  by_cases hnew : own.get key = none
  · rcases Nat.lt_or_ge own.members.length MAX_PEERS with hroom | hfull
    · refine .inl ⟨fun hself => ?_, place_of_room hroom hnew peer, ?_⟩
      · have := hself.2.1
        omega
      · rw [length_set_of_new hnew]
        exact hroom
    · have hfull := le_antisymm hlength hfull
      rcases place_of_full hfull hnew hle with hself | ⟨hself, old, hold, hmin, hplace⟩
      · exact .inr (.inl hself)
      · refine .inr (.inr ⟨hself, hnew, old, hold, hmin, hplace, ?_⟩)
        have herase := length_erase (get_set_ne_none hold key peer)
        rw [length_set_of_new hnew, hfull, ← hplace] at herase
        omega
  · refine .inl ⟨fun hself => hnew hself.1, place_of_get hlength hnew peer, ?_⟩
    rw [length_set_of_get hnew]
    exact hlength

theorem length_place_le {own : PlainObject Peer} (hlength : own.members.length ≤ MAX_PEERS)
    {key : JsString} {peer : Peer} (hle : ∀ m ∈ own.members, m.2.ts ≤ peer.ts) :
    (place own key peer).members.length ≤ MAX_PEERS := by
  rcases place_cases hlength hle with
    ⟨-, hplace, hset⟩ | ⟨-, hplace⟩ | ⟨-, -, old, -, -, -, hfull⟩
  · rw [hplace]
    exact hset
  · rw [hplace]
    exact hlength
  · exact hfull.le

/-! ## Tables that are reached -/

/-- What is asked of the core, with the readings of the clock. -/
inductive Op where
  | add (id url : Option Json) (now : ℕ)
  | merge (list : Option Json) (clock : ℕ → ℕ)

/-- The table after a call.  An exception leaves it as it is at that moment. -/
def after (PEERS : Table) : Op → Table
  | .add id url now =>
    match addPeer PEERS id url now with
    | .ok (PEERS, _) => PEERS
    | .error _ => PEERS
  | .merge list clock => (mergePeers PEERS list clock).1

/-- How often a call reads the clock, at most. -/
def readings : Op → ℕ
  | .add _ _ _ => 1
  | .merge list _ =>
    match iterate list with
    | .ok items => items.length
    | .error _ => 0

/-- A call whose readings are not before `s.2`, which becomes the last of them. -/
inductive Step : Table × ℕ → Op → Table × ℕ → Prop
  | add {PEERS : Table} {t : ℕ} {id url : Option Json} {now : ℕ} (h : t ≤ now) :
    Step (PEERS, t) (.add id url now) (after PEERS (.add id url now), now)
  | merge {PEERS : Table} {t : ℕ} {list : Option Json} {clock : ℕ → ℕ} (hmono : Monotone clock)
      (h : t ≤ clock 0) :
    Step (PEERS, t) (.merge list clock)
      (after PEERS (.merge list clock), clock (readings (.merge list clock)))

/-- Not too many peers, and none from the future. -/
structure Valid (PEERS : Table) (t : ℕ) : Prop where
  size : PEERS.own.members.length ≤ MAX_PEERS
  ts : ∀ m ∈ PEERS.own.members, m.2.ts ≤ t

theorem valid_initial : Valid .initial 0 where
  size := Nat.zero_le _
  ts := by
    intro m hm
    cases hm

theorem Valid.mono {PEERS : Table} {t t' : ℕ} (h : Valid PEERS t) (hle : t ≤ t') :
    Valid PEERS t' := ⟨h.size, fun m hm => (h.ts m hm).trans hle⟩

theorem Valid.write {PEERS : Table} {t : ℕ} (h : Valid PEERS t) (key : JsString) {peer : Peer}
    (hpeer : peer.ts = t) : Valid (PEERS.assign key peer).bounded t := by
  by_cases hkey : key = js "__proto__"
  · rw [hkey, bounded_assign_proto h.size]
    exact ⟨h.size, h.ts⟩
  · have hown := @own_bounded_assign PEERS _ hkey peer
    constructor
    · rw [hown]
      exact length_place_le h.size fun m hm => (h.ts m hm).trans_eq hpeer.symm
    · rw [hown]
      exact forall_place h.ts hpeer.le

/-- An added peer is written under the text of its id. -/
theorem addPeer_eq_ok_iff {PEERS PEERS' : Table} {id url : Option Json} {now : ℕ}
    {found : Option Peer} :
    addPeer PEERS id url now = .ok (PEERS', found) ↔
      ∃ key, keyOf id = .ok key ∧ PEERS' = (PEERS.assign key { id, url, ts := now }).bounded ∧
        found = PEERS'.get key := by
  refine bind_eq_ok.trans ⟨fun h => ?_, fun h => ?_⟩
  · obtain ⟨key, hkey, h⟩ := h
    obtain ⟨rfl, rfl⟩ := Prod.mk.inj (Except.ok.inj h)
    exact ⟨key, hkey, rfl, rfl⟩
  · obtain ⟨key, hkey, rfl, rfl⟩ := h
    exact ⟨key, hkey, rfl⟩

theorem Valid.add {PEERS PEERS' : Table} {t : ℕ} (h : Valid PEERS t) {id url : Option Json}
    {found : Option Peer} (hadd : addPeer PEERS id url t = .ok (PEERS', found)) :
    Valid PEERS' t := by
  obtain ⟨key, -, rfl, -⟩ := addPeer_eq_ok_iff.mp hadd
  exact h.write key rfl

theorem Valid.mergeFrom {PEERS : Table} {t : ℕ} (h : Valid PEERS t) {clock : ℕ → ℕ}
    (hmono : Monotone clock) (hclock : t ≤ clock 0) (list : List Json) :
    Valid (mergeFrom PEERS clock list).1 (clock list.length) := by
  induction list generalizing PEERS t clock with
  | nil => exact h.mono hclock
  | cons p list ih =>
    unfold Peers.mergeFrom
    split
    · rename_i PEERS' found hadd
      obtain ⟨id, -, hadd⟩ := bind_eq_ok.mp hadd
      obtain ⟨url, -, hadd⟩ := bind_eq_ok.mp hadd
      exact ih ((h.mono hclock).add hadd) (fun i j hij => hmono (Nat.succ_le_succ hij))
        (hmono (Nat.zero_le 1))
    · exact h.mono (hclock.trans (hmono (Nat.zero_le _)))

theorem Valid.step {PEERS PEERS' : Table} {t t' : ℕ} {op : Op} (h : Valid PEERS t)
    (hstep : Step (PEERS, t) op (PEERS', t')) : Valid PEERS' t' := by
  cases hstep with
  | @add _ _ id url now hnow =>
    cases hadd : addPeer PEERS id url t' with
    | ok result =>
      obtain ⟨PEERS', found⟩ := result
      have hafter : after PEERS (.add id url t') = PEERS' := by rw [after, hadd]
      rw [hafter]
      exact (h.mono hnow).add hadd
    | error e =>
      have hafter : after PEERS (.add id url t') = PEERS := by rw [after, hadd]
      rw [hafter]
      exact h.mono hnow
  | @merge _ _ list clock hmono hclock =>
    rw [after, mergePeers, readings]
    cases iterate list with
    | ok items => exact h.mergeFrom hmono hclock items
    | error e => exact h.mono hclock

theorem valid_of_run {ops : List Op} {PEERS : Table} {t : ℕ}
    (hrun : Run Step (.initial, 0) ops (PEERS, t)) : Valid PEERS t :=
  hrun.invariant (P := fun s : Table × ℕ => Valid s.1 s.2) (fun _ _ _ h hstep => h.step hstep) valid_initial

/-! ## What is kept -/

/-- Another peer than `id` is no longer there. -/
def Removed (PEERS PEERS' : Table) (id key : JsString) : Prop :=
  key ≠ id ∧ PEERS.own.get key ≠ none ∧ PEERS'.own.get key = none

/-- A peer is in the table and has been returned, and at most one other has been removed,
an oldest one. -/
structure Keeps (PEERS PEERS' : Table) (id : JsString) (peer : Peer) (found : Option Peer) :
    Prop where
  size : PEERS'.own.members.length ≤ MAX_PEERS
  added : PEERS'.own.get id = some peer
  returned : found = some peer
  others : ∀ key ≠ id, ¬ Removed PEERS PEERS' id key →
    PEERS'.own.get key = PEERS.own.get key
  one : ∀ key key', Removed PEERS PEERS' id key → Removed PEERS PEERS' id key' → key = key'
  oldest : ∀ key, Removed PEERS PEERS' id key → ∃ old, PEERS.own.get key = some old ∧
    ∀ other p, other ≠ id → PEERS.own.get other = some p → old.ts ≤ p.ts

/-- What `addPeer` writes. -/
def newPeer (id : JsString) (url : Option Json) (now : ℕ) : Peer :=
  { id := some (.str id), url, ts := now }

/-- A write that neither evicts the peer nor is one of the prototype keeps it. -/
theorem keeps_of_place {PEERS PEERS' : Table} {id : JsString} {peer : Peer}
    (hlength : PEERS.own.members.length ≤ MAX_PEERS)
    (hle : ∀ m ∈ PEERS.own.members, m.2.ts ≤ peer.ts)
    (hown : PEERS'.own = place PEERS.own id peer) (hself : ¬ EvictsItself PEERS.own id peer) :
    Keeps PEERS PEERS' id peer (PEERS'.own.get id) := by
  have hsize : PEERS'.own.members.length ≤ MAX_PEERS := hown ▸ length_place_le hlength hle
  rcases place_cases hlength hle with
    ⟨-, hplace, -⟩ | ⟨hevicts, -⟩ | ⟨-, hnew, old, hold, hmin, hplace, -⟩
  · have hget : ∀ key, PEERS'.own.get key = if id = key then some peer else PEERS.own.get key := by
      intro key
      rw [hown, hplace, PlainObject.get_set]
    have hadded : PEERS'.own.get id = some peer := by rw [hget, if_pos rfl]
    have hother : ∀ key ≠ id, PEERS'.own.get key = PEERS.own.get key := fun key hkey => by
      rw [hget, if_neg (Ne.symm hkey)]
    have hnone : ∀ key, ¬ Removed PEERS PEERS' id key := by
      intro key hremoved
      obtain ⟨hkey, hbefore, hafter⟩ := hremoved
      exact hbefore (hother key hkey ▸ hafter)
    exact ⟨hsize, hadded, hadded, fun key hkey _ => hother key hkey,
      fun key _ h => absurd h (hnone key), fun key h => absurd h (hnone key)⟩
  · exact absurd hevicts hself
  · have holdget : PEERS.own.get old.1 = some old.2 := PlainObject.get_eq_some_iff.mpr hold
    have hne : old.1 ≠ id := by
      intro he
      rw [he, hnew] at holdget
      cases holdget
    have hget : ∀ key, PEERS'.own.get key
        = if old.1 = key then none else if id = key then some peer else PEERS.own.get key := by
      intro key
      rw [hown, hplace, PlainObject.get_erase, PlainObject.get_set]
    have hadded : PEERS'.own.get id = some peer := by rw [hget, if_neg hne, if_pos rfl]
    have hremoved : ∀ key, Removed PEERS PEERS' id key → key = old.1 := by
      intro key h
      obtain ⟨hkey, hbefore, hafter⟩ := h
      by_contra hkept
      rw [hget, if_neg (Ne.symm hkept), if_neg (Ne.symm hkey)] at hafter
      exact hbefore hafter
    refine ⟨hsize, hadded, hadded, fun key hkey hkept => ?_, fun key key' h h' => ?_,
      fun key h => ?_⟩
    · by_cases he : old.1 = key
      · refine absurd ⟨hkey, ?_, ?_⟩ hkept
        · rw [← he, holdget]
          nofun
        · rw [hget, if_pos he]
      · rw [hget, if_neg he, if_neg (Ne.symm hkey)]
    · rw [hremoved key h, hremoved key' h']
    · rw [hremoved key h]
      exact ⟨old.2, holdget, fun other p _ hp => hmin (other, p) (PlainObject.get_eq_some_iff.mp hp)⟩

/-- **When adding a peer keeps it.**  In every table that is reached, an added peer is in the
table afterwards, in the place of an oldest one if need be, exactly when its id is not
`__proto__` and it does not evict itself. -/
theorem add_keeps_iff {ops : List Op} {PEERS : Table} {t : ℕ}
    (hrun : Run Step (.initial, 0) ops (PEERS, t)) {now : ℕ} (hnow : t ≤ now) (id : JsString)
    (url : Option Json) :
    (∃ PEERS' found, addPeer PEERS (some (.str id)) url now = .ok (PEERS', found) ∧
        Keeps PEERS PEERS' id (newPeer id url now) found) ↔
      id ≠ js "__proto__" ∧ ¬ EvictsItself PEERS.own id (newPeer id url now) := by
  have hvalid := (valid_of_run hrun).mono hnow
  have hle : ∀ m ∈ PEERS.own.members, m.2.ts ≤ (newPeer id url now).ts := hvalid.ts
  have hadd : addPeer PEERS (some (.str id)) url now
      = .ok ((PEERS.assign id (newPeer id url now)).bounded,
        (PEERS.assign id (newPeer id url now)).bounded.get id) :=
    addPeer_eq_ok_iff.mpr ⟨id, rfl, rfl, rfl⟩
  rw [hadd]
  constructor
  · intro h
    obtain ⟨PEERS', found, hok, hkeeps⟩ := h
    obtain ⟨rfl, -⟩ := Prod.mk.inj (Except.ok.inj hok)
    have hadded := hkeeps.added
    have hid : id ≠ js "__proto__" := by
      rintro rfl
      rw [Table.plain] at hadded
      cases hadded
    refine ⟨hid, fun hself => ?_⟩
    rw [own_bounded_assign hid] at hadded
    rcases place_of_full hself.2.1 hself.1 hle with ⟨-, hplace⟩ | ⟨hnot, -⟩
    · rw [hplace, hself.1] at hadded
      cases hadded
    · exact hnot hself
  · intro h
    obtain ⟨hid, hself⟩ := h
    refine ⟨_, _, rfl, ?_⟩
    have hget : (PEERS.assign id (newPeer id url now)).bounded.get id
        = (PEERS.assign id (newPeer id url now)).bounded.own.get id := if_neg hid
    rw [hget]
    exact keeps_of_place hvalid.size hle (own_bounded_assign hid _) hself

/-! ## A full table -/

/-- A name that is no array index. -/
def pName (i : ℕ) : JsString := js "p" ++ decimal i

/-- A peer without a URL. -/
def pPeer (i : ℕ) : JsString × Peer := (pName i, newPeer (pName i) none 7)

def pJson (i : ℕ) : Json := .obj [(js "id", .str (pName i))]

theorem arrayIndex_pName (i : ℕ) : arrayIndex (pName i) = none := by
  unfold arrayIndex
  refine if_neg fun h => ?_
  have hmem : 0x70 ∈ decimal (Number.digitsVal (pName i)) := by
    rw [h.1]
    exact List.mem_cons_self
  exact absurd (isDigitUnit_of_mem_decimal hmem) (by decide)

theorem pName_injective : Function.Injective pName := fun _ _ h =>
  decimal_injective (List.append_cancel_left h)

/-- As long as there is room, peers with new names come at the end. -/
theorem mergeFrom_pJson {PEERS : Table} (is : List ℕ) (hnodup : is.Nodup)
    (hnew : ∀ i ∈ is, PEERS.own.get (pName i) = none)
    (hroom : PEERS.own.members.length + is.length ≤ MAX_PEERS) :
    (mergeFrom PEERS (fun _ => 7) (is.map pJson)).1.own.members
      = PEERS.own.members ++ is.map pPeer := by
  induction is generalizing PEERS with
  | nil => exact (List.append_nil _).symm
  | cons i is ih =>
    obtain ⟨hi, hnodup⟩ := List.nodup_cons.mp hnodup
    rw [List.length_cons] at hroom
    have hget := hnew i List.mem_cons_self
    have hproto : pName i ≠ js "__proto__" := by
      intro h
      have := congrArg List.head? h
      cases this
    have hown : (PEERS.assign (pName i) (newPeer (pName i) none 7)).bounded.own
        = PEERS.own.set (pName i) (newPeer (pName i) none 7) := by
      rw [own_bounded_assign hproto]
      exact place_of_room (by omega) hget _
    have hmembers : (PEERS.own.set (pName i) (newPeer (pName i) none 7)).members
        = PEERS.own.members ++ [pPeer i] := by
      exact PlainObject.members_set _ hget fun m _ => before_of_no_index (arrayIndex_pName i) m.1
    rw [← hown] at hmembers
    have hturn : mergeFrom PEERS (fun _ => 7) ((i :: is).map pJson)
        = mergeFrom (PEERS.assign (pName i) (newPeer (pName i) none 7)).bounded (fun _ => 7)
          (is.map pJson) := rfl
    rw [hturn]
    refine (ih hnodup (fun j hj => ?_) ?_).trans ?_
    · rw [hown, PlainObject.get_set_of_ne, hnew j (List.mem_cons_of_mem _ hj)]
      intro h
      exact hi (pName_injective h ▸ hj)
    · rw [hmembers, List.length_append, List.length_singleton]
      omega
    · rw [hmembers, List.append_assoc]
      rfl

/-- A merge of new peers at one time. -/
def pMerge (n : ℕ) : Op := .merge (some (.arr ((List.range n).map pJson))) fun _ => 7

theorem members_pMerge {n : ℕ} (hn : n ≤ MAX_PEERS) :
    (after .initial (pMerge n)).own.members = (List.range n).map pPeer := by
  have hroom : Table.initial.own.members.length + (List.range n).length ≤ MAX_PEERS := by
    rw [List.length_range]
    exact (Nat.zero_add n).trans_le hn
  exact mergeFrom_pJson _ List.nodup_range (fun _ _ => rfl) hroom

/-- As many as there is room for. -/
def fullTable : Table := after .initial (pMerge MAX_PEERS)

theorem members_fullTable : fullTable.own.members = (List.range MAX_PEERS).map pPeer := by
  unfold fullTable
  exact members_pMerge le_rfl

theorem run_fullTable : ∃ t, t ≤ 7 ∧ Run Step (.initial, 0) [pMerge MAX_PEERS] (fullTable, t) :=
  ⟨_, le_rfl, .single (.merge monotone_const (Nat.zero_le 7))⟩

theorem fullTable_evicts : EvictsItself fullTable.own (js "5") (newPeer (js "5") none 7) := by
  have hmem : ∀ m ∈ fullTable.own.members, ∃ i, m = pPeer i := by
    intro m hm
    rw [members_fullTable] at hm
    obtain ⟨i, -, rfl⟩ := List.mem_map.mp hm
    exact ⟨i, rfl⟩
  refine ⟨?_, ?_, fun m hm => ?_, fun m hm => ?_⟩
  · refine getProp_eq_none_iff.mpr fun h => ?_
    obtain ⟨m, hm, hname⟩ := List.mem_map.mp h
    obtain ⟨i, rfl⟩ := hmem m hm
    have := congrArg List.head? hname
    cases this
  · rw [members_fullTable, List.length_map, List.length_range]
  · obtain ⟨i, rfl⟩ := hmem m hm
    rfl
  · obtain ⟨i, rfl⟩ := hmem m hm
    exact before_of_index (i := 5) (by decide) (arrayIndex_pName i)

/-- A later peer is added to the full table, in the place of one of those. -/
theorem add_keeps_known :
    ∃ PEERS' found, addPeer fullTable (some (.str (js "5"))) none 8 = .ok (PEERS', found) ∧
      Keeps fullTable PEERS' (js "5") (newPeer (js "5") none 8) found := by
  obtain ⟨t, ht, hrun⟩ := run_fullTable
  refine (add_keeps_iff hrun (ht.trans (by decide)) (js "5") none).mpr ⟨by decide, fun hself => ?_⟩
  have hfirst : pPeer 0 ∈ fullTable.own.members := by
    rw [members_fullTable]
    exact List.mem_map_of_mem (List.mem_range.mpr (by decide))
  exact absurd (hself.2.2.1 _ hfirst) (by decide)

/-- A new peer with an array index for an id is not added to a full table of one time. -/
theorem index_not_added :
    (∃ t ≤ 7, Run Step (.initial, 0) [pMerge MAX_PEERS] (fullTable, t)) ∧
      ∀ PEERS' found, addPeer fullTable (some (.str (js "5"))) none 7 = .ok (PEERS', found) →
        found.isNone = true ∧ (PEERS'.own.get (js "5")).isNone = true := by
  refine ⟨run_fullTable, fun PEERS' found h => ?_⟩
  obtain ⟨key, hkey, rfl, rfl⟩ := addPeer_eq_ok_iff.mp h
  obtain rfl : js "5" = key := Except.ok.inj hkey
  have hnone : (fullTable.assign (js "5") (newPeer (js "5") none 7)).bounded.own.get (js "5")
      = none := by
    rw [own_bounded_assign (by decide)]
    rcases place_of_full fullTable_evicts.2.1 fullTable_evicts.1
      (fun m hm => (fullTable_evicts.2.2.1 m hm).le) with ⟨-, hplace⟩ | ⟨hnot, -⟩
    · rw [hplace]
      exact fullTable_evicts.1
    · exact absurd fullTable_evicts hnot
  have hget : (fullTable.assign (js "5") (newPeer (js "5") none 7)).bounded.get (js "5")
      = none := (if_neg (by decide)).trans hnone
  exact ⟨Option.isNone_iff_eq_none.mpr hget, Option.isNone_iff_eq_none.mpr hnone⟩

end NewZone.Services.Peers
