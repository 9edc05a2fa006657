import NewZone.Lib.FifoCache
import NewZone.Services.Peers

/-!
# Peers that are added in a row

When several additions leave the peer table as it was (`placeAll_eq_iff`).  Either nothing
has come in: every name was there already, or was evicted at once.  Or everything has gone
round within one millisecond, in which a full table is a first-in first-out cache of its
names (`names_placeAll`).
-/

namespace NewZone.Services.Peers

open NewZone.Js NewZone.FifoCache

/-- The own properties after some additions. -/
def placeAll (own : PlainObject Peer) (adds : List (JsString × Peer)) : PlainObject Peer :=
  adds.foldl (fun own added => place own added.1 added.2) own

def names (own : PlainObject Peer) : List JsString := own.members.map Prod.fst

/-- What has been added last under a name. -/
def lastOf (key : JsString) (adds : List (JsString × Peer)) : Option Peer :=
  (adds.reverse.find? fun added => added.1 = key).map Prod.snd

/-- Additions to a table that is not too large, in the order of their times. -/
structure Fit (own : PlainObject Peer) (adds : List (JsString × Peer)) : Prop where
  size : own.members.length ≤ MAX_PEERS
  ts : ∀ m ∈ own.members, ∀ added ∈ adds, m.2.ts ≤ added.2.ts
  ordered : adds.Pairwise fun a b => a.2.ts ≤ b.2.ts

/-! ## What is added last -/

theorem lastOf_append (key : JsString) (xs ys : List (JsString × Peer)) :
    lastOf key (xs ++ ys) = (lastOf key ys).or (lastOf key xs) := by
  unfold lastOf
  rw [List.reverse_append, List.find?_append]
  cases ys.reverse.find? fun added => decide (added.1 = key) <;> rfl

theorem lastOf_singleton (key : JsString) (added : JsString × Peer) :
    lastOf key [added] = if added.1 = key then some added.2 else none := by
  unfold lastOf
  rw [List.reverse_singleton, List.find?_singleton]
  by_cases h : added.1 = key
  · simp [h]
  · simp [h]

theorem mem_of_lastOf {key : JsString} {adds : List (JsString × Peer)} {peer : Peer}
    (h : lastOf key adds = some peer) : (key, peer) ∈ adds := by
  obtain ⟨added, hadded, rfl⟩ := Option.map_eq_some_iff.mp h
  have hmem := List.mem_reverse.mp (List.mem_of_find?_eq_some hadded)
  have hkey := List.find?_some hadded
  obtain rfl := of_decide_eq_true hkey
  exact hmem

theorem placeAll_snoc (own : PlainObject Peer) (adds : List (JsString × Peer))
    (added : JsString × Peer) :
    placeAll own (adds ++ [added]) = place (placeAll own adds) added.1 added.2 := by
  rw [placeAll, List.foldl_append]
  rfl

theorem placeAll_append (own : PlainObject Peer) (xs ys : List (JsString × Peer)) :
    placeAll own (xs ++ ys) = placeAll (placeAll own xs) ys := List.foldl_append

theorem get_eq_none_iff_names {own : PlainObject Peer} {key : JsString} :
    own.get key = none ↔ key ∉ names own := getProp_eq_none_iff

theorem mem_names_iff {own : PlainObject Peer} {key : JsString} :
    key ∈ names own ↔ ∃ peer, own.get key = some peer := by
  rw [← Option.ne_none_iff_exists', ne_eq, get_eq_none_iff_names, not_not]

/-- A write leaves what it writes and what was there, or evicts it. -/
theorem get_place (own : PlainObject Peer) (key : JsString) (peer : Peer) (other : JsString) :
    (place own key peer).get other = none ∨
      (place own key peer).get other = if key = other then some peer else own.get other := by
  have hset := PlainObject.get_set own key other peer
  unfold place
  dsimp only
  by_cases hlong : (own.set key peer).members.length > MAX_PEERS
  · rw [if_pos hlong]
    cases List.argmin (fun m => m.2.ts) (own.set key peer).members with
    | none => exact .inr hset
    | some old =>
      dsimp only
      by_cases hold : old.1 = other
      · rw [PlainObject.get_erase, if_pos hold]
        exact .inl rfl
      · rw [PlainObject.get_erase, if_neg hold]
        exact .inr hset
  · rw [if_neg hlong]
    exact .inr hset

/-- So a name is bound to what has been added last, if to anything. -/
theorem get_placeAll (own : PlainObject Peer) (adds : List (JsString × Peer)) (key : JsString) :
    (placeAll own adds).get key = none ∨
      (placeAll own adds).get key = (lastOf key adds).or (own.get key) := by
  induction adds using List.reverseRecOn with
  | nil => exact .inr rfl
  | append_singleton adds added ih =>
    rw [placeAll_snoc, lastOf_append, lastOf_singleton]
    rcases get_place (placeAll own adds) added.1 added.2 key with hnone | hget
    · exact .inl hnone
    · rw [hget]
      split_ifs
      · exact .inr rfl
      · exact ih

theorem forall_placeAll {P : JsString × Peer → Prop} {own : PlainObject Peer}
    (h : ∀ m ∈ own.members, P m) {adds : List (JsString × Peer)} (hadds : ∀ a ∈ adds, P a) :
    ∀ m ∈ (placeAll own adds).members, P m := by
  induction adds generalizing own with
  | nil => exact h
  | cons a adds ih =>
    obtain ⟨ha, hadds⟩ := List.forall_mem_cons.mp hadds
    exact ih (forall_place h ha) hadds

/-! ## Names and values -/

/-- The values agree: what has been added last under a name of the table is what is there. -/
def Stands (own : PlainObject Peer) (adds : List (JsString × Peer)) : Prop :=
  ∀ key peer, lastOf key adds = some peer → own.get key ≠ none → own.get key = some peer

/-- Additions change nothing when names and values come out the same. -/
theorem placeAll_eq_iff_names {own : PlainObject Peer} {adds : List (JsString × Peer)} :
    placeAll own adds = own ↔ names (placeAll own adds) = names own ∧ Stands own adds := by
  constructor
  · intro h
    refine ⟨congrArg names h, fun key peer hlast hget => ?_⟩
    rcases get_placeAll own adds key with hnone | hsome
    · rw [h] at hnone
      exact absurd hnone hget
    · rw [h, hlast] at hsome
      exact hsome
  · intro h
    obtain ⟨hnames, hstands⟩ := h
    refine PlainObject.ext_get hnames fun key => ?_
    by_cases hget : own.get key = none
    · rw [hget, get_eq_none_iff_names, hnames, ← get_eq_none_iff_names, hget]
    · have hthere : (placeAll own adds).get key ≠ none := by
        rw [ne_eq, get_eq_none_iff_names, hnames, ← get_eq_none_iff_names]
        exact hget
      rcases get_placeAll own adds key with hnone | hsome
      · exact absurd hnone hthere
      · rw [hsome]
        cases hlast : lastOf key adds with
        | none => rfl
        | some peer => exact (hstands key peer hlast hget).symm

theorem Fit.append_left {own : PlainObject Peer} {xs ys : List (JsString × Peer)}
    (h : Fit own (xs ++ ys)) : Fit own xs :=
  ⟨h.size, fun m hm a ha => h.ts m hm a (List.mem_append_left _ ha),
    (List.pairwise_append.mp h.ordered).1⟩

/-- What comes next is added to a table that is not too large either. -/
theorem Fit.append_right {own : PlainObject Peer} {xs ys : List (JsString × Peer)}
    (h : Fit own (xs ++ ys)) : Fit (placeAll own xs) ys := by
  obtain ⟨hxs, hys, hle⟩ := List.pairwise_append.mp h.ordered
  have hts : ∀ m ∈ (placeAll own xs).members, ∀ added ∈ ys, m.2.ts ≤ added.2.ts :=
    forall_placeAll (fun m hm a ha => h.ts m hm a (List.mem_append_right _ ha)) hle
  refine ⟨?_, hts, hys⟩
  clear hts
  induction xs using List.reverseRecOn generalizing ys with
  | nil => exact h.size
  | append_singleton xs x ih =>
    rw [List.append_assoc] at h
    obtain ⟨hxs, hx, hle⟩ := List.pairwise_append.mp h.ordered
    rw [placeAll_snoc]
    refine length_place_le (ih h hxs hx hle) ?_
    exact forall_placeAll (fun m hm => h.ts m hm x (by simp)) fun a ha => hle a ha x (by simp)

/-! ## Additions that are held off -/

/-- No addition brings a new name: what is not in the table is evicted at once. -/
def HeldOff (own : PlainObject Peer) (adds : List (JsString × Peer)) : Prop :=
  ∀ a ∈ adds, own.get a.1 ≠ none ∨ EvictsItself own a.1 a.2

theorem names_set_of_get {own : PlainObject Peer} {key : JsString} (h : own.get key ≠ none)
    (peer : Peer) : names (own.set key peer) = names own := by
  have hsome : (getProp key own.members).isSome = true := Option.isSome_iff_ne_none.mpr h
  show (setProp key peer own.members).map Prod.fst = _
  rw [setProp, if_pos hsome]
  exact map_fst_replaceProp key peer own.members

theorem length_eq_of_names {own own' : PlainObject Peer} (h : names own' = names own) :
    own'.members.length = own.members.length := by
  have hlength := congrArg List.length h
  rwa [names, names, List.length_map, List.length_map] at hlength

theorem forall_before_iff_names {own : PlainObject Peer} {key : JsString} :
    (∀ m ∈ own.members, before key m.1 = true) ↔ ∀ name ∈ names own, before key name = true := by
  rw [names, List.forall_mem_map]

/-- The peers of a table that all have the time of what is added keep it. -/
theorem ts_placeAll_of_same {own : PlainObject Peer} {xs : List (JsString × Peer)}
    {a : JsString × Peer} (hfit : Fit own (xs ++ [a])) (hne : own.members ≠ [])
    (hsame : ∀ m ∈ own.members, m.2.ts = a.2.ts) :
    ∀ m ∈ (placeAll own xs).members, m.2.ts = a.2.ts := by
  refine forall_placeAll hsame fun x hx => ?_
  obtain ⟨m, hm⟩ := List.exists_mem_of_ne_nil _ hne
  have hlate : a.2.ts ≤ x.2.ts :=
    (hsame m hm).symm.trans_le (hfit.ts m hm x (List.mem_append_left _ hx))
  have hearly : x.2.ts ≤ a.2.ts :=
    (List.pairwise_append.mp hfit.ordered).2.2 x hx a (List.mem_singleton_self a)
  exact le_antisymm hearly hlate

theorem EvictsItself.members_ne_nil {own : PlainObject Peer} {key : JsString} {peer : Peer}
    (h : EvictsItself own key peer) : own.members ≠ [] := by
  intro hnil
  have hfull := h.2.1
  rw [hnil] at hfull
  cases hfull

/-- What would be evicted at first is still evicted as long as the names are the same. -/
theorem EvictsItself.placeAll {own : PlainObject Peer} {xs : List (JsString × Peer)}
    {a : JsString × Peer} (hfit : Fit own (xs ++ [a])) (h : EvictsItself own a.1 a.2)
    (hnames : names (placeAll own xs) = names own) :
    EvictsItself (Peers.placeAll own xs) a.1 a.2 := by
  have hne := h.members_ne_nil
  obtain ⟨hnew, hfull, hsame, hbefore⟩ := h
  refine ⟨?_, ?_, ts_placeAll_of_same hfit hne hsame, ?_⟩
  · rw [get_eq_none_iff_names, hnames]
    exact get_eq_none_iff_names.mp hnew
  · rw [length_eq_of_names hnames, hfull]
  · rw [forall_before_iff_names, hnames]
    exact forall_before_iff_names.mp hbefore

/-- Additions that are held off leave the names. -/
theorem names_placeAll_of_heldOff {own : PlainObject Peer} {adds : List (JsString × Peer)}
    (hfit : Fit own adds) (h : HeldOff own adds) : names (placeAll own adds) = names own := by
  induction adds using List.reverseRecOn with
  | nil => rfl
  | append_singleton xs a ih =>
    have hnames := ih hfit.append_left fun x hx => h x (List.mem_append_left _ hx)
    have hnext := hfit.append_right
    have hle : ∀ m ∈ (placeAll own xs).members, m.2.ts ≤ a.2.ts := fun m hm =>
      hnext.ts m hm a (List.mem_singleton_self a)
    rw [placeAll_snoc, ← hnames]
    rcases h a (List.mem_append_right _ (List.mem_singleton_self a)) with hget | hself
    · have hget : (placeAll own xs).get a.1 ≠ none := by
        rw [ne_eq, get_eq_none_iff_names, hnames, ← get_eq_none_iff_names]
        exact hget
      rw [place_of_get hnext.size hget]
      exact names_set_of_get hget _
    · have hself := hself.placeAll hfit hnames
      rcases place_of_full hself.2.1 hself.1 hle with ⟨-, hplace⟩ | ⟨hnot, -⟩
      · rw [hplace]
      · exact absurd hself hnot

/-- When the values agree, no peer of the table gets another time on the way. -/
theorem Stands.ts {own : PlainObject Peer} {xs ys : List (JsString × Peer)}
    (h : Stands own (xs ++ ys)) (hfit : Fit own (xs ++ ys)) {key : JsString} {p q : Peer}
    (hp : (placeAll own xs).get key = some p) (hq : own.get key = some q) : p.ts = q.ts := by
  rcases get_placeAll own xs key with hnone | hsome
  · rw [hnone] at hp
    cases hp
  · rw [hsome] at hp
    cases hlast : lastOf key xs with
    | none =>
      rw [hlast, hq] at hp
      exact congrArg Peer.ts (Option.some.inj hp).symm
    | some peer =>
      rw [hlast] at hp
      obtain rfl : peer = p := Option.some.inj hp
      have hpeer := mem_of_lastOf hlast
      have hearly : q.ts ≤ peer.ts := hfit.ts (key, q) (PlainObject.get_eq_some_iff.mp hq)
        (key, peer) (List.mem_append_left _ hpeer)
      refine le_antisymm ?_ hearly
      -- what is there at the end has been added last, and not before `peer`
      have hthere : own.get key ≠ none := by
        rw [hq]
        nofun
      cases hlater : lastOf key ys with
      | none =>
        have hall : lastOf key (xs ++ ys) = some peer := by rw [lastOf_append, hlater, hlast]; rfl
        rw [h key peer hall hthere] at hq
        exact (congrArg Peer.ts (Option.some.inj hq)).le
      | some later =>
        have hall : lastOf key (xs ++ ys) = some later := by rw [lastOf_append, hlater]; rfl
        rw [h key later hall hthere] at hq
        obtain rfl := Option.some.inj hq
        exact (List.pairwise_append.mp hfit.ordered).2.2 _ hpeer _ (mem_of_lastOf hlater)

/-! ## One millisecond -/

/-- All peers of a full table, and all that are added, have one time. -/
structure OneTime (own : PlainObject Peer) (adds : List (JsString × Peer)) (r : ℕ) : Prop where
  full : own.members.length = MAX_PEERS
  peers : ∀ m ∈ own.members, m.2.ts = r
  adds : ∀ a ∈ adds, a.2.ts = r

/-- In one millisecond the first name is let go, unless the new one would come before it. -/
theorem place_of_one_time {own : PlainObject Peer} (hfull : own.members.length = MAX_PEERS)
    {h : JsString × Peer} {ms : List (JsString × Peer)} (hms : own.members = h :: ms)
    {key : JsString} (hnew : own.get key = none) {peer : Peer}
    (hsame : ∀ m ∈ own.members, m.2.ts = peer.ts) :
    (place own key peer).members
      = if before key h.1 then own.members else insertProp key peer ms := by
  have hmembers := members_set_of_new hnew peer
  obtain ⟨old, hold, hplace⟩ := place_of_new hfull hnew peer
  obtain rfl : (if before key h.1 then (key, peer) else h) = old := by
    rw [hms] at hold hsame
    exact Option.some.inj ((argmin_insertProp_of_same hsame).symm.trans hold)
  rw [hplace]
  split_ifs with hbefore
  · exact congrArg PlainObject.members (erase_set_of_new hnew peer)
  · have hnodup := own.nodup
    rw [NodupKeys, hms, List.map_cons, List.nodup_cons] at hnodup
    have hne : key ≠ h.1 := by
      rintro rfl
      rw [PlainObject.get, hms, getProp_cons_self] at hnew
      cases hnew
    show eraseProp h.1 (own.set key peer).members = _
    rw [hmembers, hms]
    show eraseProp h.1 (if before key h.1 then (key, peer) :: h :: ms
      else h :: insertProp key peer ms) = _
    rw [if_neg hbefore]
    unfold eraseProp
    rw [List.filter_cons_of_neg (by simp)]
    refine List.filter_eq_self.mpr fun m hm => decide_eq_true fun he => ?_
    rcases mem_insertProp.mp hm with rfl | hm
    · exact hne he
    · exact hnodup.1 (List.mem_map.mpr ⟨m, hm, he⟩)

theorem length_le_length_place {own : PlainObject Peer} (hlength : own.members.length ≤ MAX_PEERS)
    {key : JsString} {peer : Peer} (hle : ∀ m ∈ own.members, m.2.ts ≤ peer.ts) :
    own.members.length ≤ (place own key peer).members.length := by
  rcases place_cases hlength hle with
    ⟨-, hplace, -⟩ | ⟨-, hplace⟩ | ⟨-, -, old, -, -, -, hfull⟩
  · rw [hplace]
    by_cases hnew : own.get key = none
    · rw [length_set_of_new hnew]
      exact Nat.le_succ _
    · rw [length_set_of_get hnew]
  · rw [hplace]
  · rw [hfull]
    exact hlength

theorem length_le_length_placeAll {own : PlainObject Peer} {adds : List (JsString × Peer)}
    (hfit : Fit own adds) : own.members.length ≤ (placeAll own adds).members.length := by
  induction adds using List.reverseRecOn with
  | nil => exact le_rfl
  | append_singleton xs a ih =>
    have hnext := hfit.append_right
    rw [placeAll_snoc]
    exact (ih hfit.append_left).trans (length_le_length_place hnext.size fun m hm =>
      hnext.ts m hm a (List.mem_singleton_self a))

theorem OneTime.place {own : PlainObject Peer} {a : JsString × Peer} {adds : List (JsString × Peer)}
    {r : ℕ} (h : OneTime own (a :: adds) r) : OneTime (place own a.1 a.2) adds r := by
  obtain ⟨ha, hadds⟩ := List.forall_mem_cons.mp h.adds
  have hle : ∀ m ∈ own.members, m.2.ts ≤ a.2.ts := fun m hm => (h.peers m hm).trans_le ha.ge
  refine ⟨le_antisymm (length_place_le h.full.le hle) ?_, forall_place h.peers ha, hadds⟩
  rw [← h.full]
  exact length_le_length_place h.full.le hle

theorem OneTime.exists_cons {own : PlainObject Peer} {adds : List (JsString × Peer)} {r : ℕ}
    (h : OneTime own adds r) : ∃ m ms, own.members = m :: ms :=
  List.exists_cons_of_length_pos (h.full ▸ Nat.succ_pos _)

/-- What is written in one millisecond. -/
theorem OneTime.members_place {own : PlainObject Peer} {a : JsString × Peer}
    {adds : List (JsString × Peer)} {r : ℕ} (h : OneTime own (a :: adds) r)
    (hnew : own.get a.1 = none) {m : JsString × Peer} {ms : List (JsString × Peer)}
    (hms : own.members = m :: ms) :
    (Peers.place own a.1 a.2).members
      = if before a.1 m.1 then own.members else insertProp a.1 a.2 ms :=
  place_of_one_time h.full hms hnew fun n hn =>
    (h.peers n hn).trans (h.adds a List.mem_cons_self).symm

/-- An array index that is not among the names, as they are all greater, does not come in. -/
theorem index_lt_of_placeAll {own : PlainObject Peer} {adds : List (JsString × Peer)} {r n : ℕ}
    (h : OneTime own adds r) (hnames : ∀ name ∈ names own, ∀ i ∈ arrayIndex name, n < i) :
    ∀ name ∈ names (placeAll own adds), ∀ i ∈ arrayIndex name, n < i := by
  induction adds generalizing own with
  | nil => exact hnames
  | cons a adds ih =>
    refine ih h.place ?_
    show ∀ name ∈ names (place own a.1 a.2), _
    by_cases hnew : own.get a.1 = none
    · obtain ⟨m, ms, hms⟩ := h.exists_cons
      rw [names, h.members_place hnew hms]
      split_ifs with hbefore
      · exact hnames
      · intro name hname i hi
        rw [names, hms] at hnames
        obtain ⟨m', hm', rfl⟩ := List.mem_map.mp hname
        rcases mem_insertProp.mp hm' with rfl | hm'
        · -- the first name is not after the new one
          have hhead := hnames m.1 List.mem_cons_self
          unfold before at hbefore
          rw [Option.mem_def.mp hi] at hbefore
          cases hm : arrayIndex m.1 with
          | none => simp [hm] at hbefore
          | some j =>
            simp only [hm, decide_eq_true_eq, not_lt] at hbefore
            exact (hhead j hm).trans_le hbefore
        · exact hnames m'.1 (List.mem_cons_of_mem _ (List.mem_map_of_mem hm')) i hi
    · rw [place_of_get h.full.le hnew, names_set_of_get hnew]
      exact hnames

/-- Without array indices among them, the names are a first-in first-out cache. -/
theorem names_place {own : PlainObject Peer} {a : JsString × Peer} {adds : List (JsString × Peer)}
    {r : ℕ} (h : OneTime own (a :: adds) r) (hnames : ∀ name ∈ names own, arrayIndex name = none) :
    names (place own a.1 a.2) = step (fun name => arrayIndex name = none) (names own) a.1 := by
  unfold step
  by_cases hnew : own.get a.1 = none
  · obtain ⟨m, ms, hms⟩ := h.exists_cons
    have hm : arrayIndex m.1 = none := by
      refine hnames m.1 ?_
      rw [names, hms]
      exact List.mem_cons_self
    have hnot := get_eq_none_iff_names.mp hnew
    rw [names, h.members_place hnew hms]
    cases ha : arrayIndex a.1 with
    | none =>
      have hlast := before_of_no_index ha
      rw [if_neg (by simp [hlast]), if_neg (by simp [hnot, ha]),
        insertProp_eq_append _ fun n _ => hlast n.1, List.map_append, names, hms]
      rfl
    | some i =>
      rw [if_pos (before_of_index ha hm), if_pos (by simp [ha])]
      rfl
  · rw [place_of_get h.full.le hnew, names_set_of_get hnew, if_pos]
    exact .inl (not_not.mp fun hnot => hnew (get_eq_none_iff_names.mpr hnot))

theorem names_placeAll {own : PlainObject Peer} {adds : List (JsString × Peer)} {r : ℕ}
    (h : OneTime own adds r) (hnames : ∀ name ∈ names own, arrayIndex name = none) :
    names (placeAll own adds)
      = run (fun name => arrayIndex name = none) (names own) (adds.map Prod.fst) := by
  induction adds generalizing own with
  | nil => rfl
  | cons a adds ih =>
    have hstep := names_place h hnames
    show names (placeAll (place own a.1 a.2) adds) = run _ (step _ (names own) a.1) _
    rw [← hstep]
    refine ih h.place fun name hname => ?_
    rw [hstep] at hname
    unfold step at hname
    split_ifs at hname with hleft
    · exact hnames name hname
    · rcases List.mem_append.mp hname with hname | hname
      · exact hnames name (List.mem_of_mem_tail hname)
      · rw [List.mem_singleton.mp hname]
        exact not_not.mp fun hindex => hleft (.inr hindex)

/-! ## When additions change nothing -/

/-- In one millisecond, the names of a full table have gone round. -/
structure Rotates (own : PlainObject Peer) (adds : List (JsString × Peer)) : Prop where
  oneTime : ∃ r, OneTime own adds r
  names : ∀ name ∈ names own, arrayIndex name = none
  round : (newcomers (fun name => arrayIndex name = none) (Peers.names own)
    (adds.map Prod.fst)).rtake MAX_PEERS = Peers.names own

/-- A write leaves a peer with its time. -/
theorem exists_ts_place {own : PlainObject Peer} (hlength : own.members.length ≤ MAX_PEERS)
    {key : JsString} {peer : Peer} (hle : ∀ m ∈ own.members, m.2.ts ≤ peer.ts) :
    ∃ m ∈ (place own key peer).members, m.2.ts = peer.ts := by
  rcases place_cases hlength hle with
    ⟨-, hplace, -⟩ | ⟨hself, hplace⟩ | ⟨-, hnew, old, hold, -, hplace, -⟩
  · refine ⟨(key, peer), ?_, rfl⟩
    rw [hplace]
    exact PlainObject.get_eq_some_iff.mp (PlainObject.get_set_self _ _ _)
  · obtain ⟨m, hm⟩ := List.exists_mem_of_ne_nil _ hself.members_ne_nil
    rw [hplace]
    exact ⟨m, hm, hself.2.2.1 m hm⟩
  · refine ⟨(key, peer), ?_, rfl⟩
    have hne : old.1 ≠ key := by
      rintro rfl
      rw [PlainObject.get_eq_some_iff.mpr hold] at hnew
      cases hnew
    rw [hplace]
    refine PlainObject.get_eq_some_iff.mp ?_
    rw [PlainObject.get_erase, if_neg hne, PlainObject.get_set_self]

/-- While the names are the same and the values agree, the peers have the times that they have
at first. -/
theorem Stands.exists_peer {own : PlainObject Peer} {xs ys : List (JsString × Peer)}
    (h : Stands own (xs ++ ys)) (hfit : Fit own (xs ++ ys))
    (hnames : names (placeAll own xs) = names own) {m : JsString × Peer} (hm : m ∈ own.members) :
    ∃ p, (m.1, p) ∈ (placeAll own xs).members ∧ p.ts = m.2.ts := by
  have hmem : m.1 ∈ names (placeAll own xs) := hnames ▸ List.mem_map_of_mem hm
  obtain ⟨p, hp⟩ := mem_names_iff.mp hmem
  exact ⟨p, PlainObject.get_eq_some_iff.mp hp, h.ts hfit hp (PlainObject.get_eq_some_iff.mpr hm)⟩

/-- A table that takes a new name, and is the same in the end, is full. -/
theorem full_of_placeAll {own : PlainObject Peer} {xs ys : List (JsString × Peer)}
    {a : JsString × Peer} (hfit : Fit own (xs ++ a :: ys))
    (hnames : names (placeAll own xs) = names own) (hnew : (placeAll own xs).get a.1 = none)
    (h : placeAll own (xs ++ a :: ys) = own) : own.members.length = MAX_PEERS := by
  refine le_antisymm hfit.size (not_lt.mp fun hroom => ?_)
  have hnext : Fit (placeAll own (xs ++ [a])) ys := by
    refine Fit.append_right ?_
    rwa [List.append_assoc]
  have hgrows := length_le_length_placeAll hnext
  have hlength := length_eq_of_names hnames
  rw [← placeAll_append, List.append_assoc, List.singleton_append, h, placeAll_snoc,
    place_of_room (hlength.trans_lt hroom) hnew, length_set_of_new hnew, hlength] at hgrows
  omega

/-- What has been evicted, and is there in the end, has been added again. -/
theorem mem_of_placeAll_erase {own own' : PlainObject Peer} {ys : List (JsString × Peer)}
    {name : JsString} {q : Peer} (hgone : own'.get name = none) (hq : own.get name = some q)
    (h : placeAll own' ys = own) : (name, q) ∈ ys := by
  refine mem_of_lastOf ?_
  rcases get_placeAll own' ys name with hnone | hsome
  · rw [h, hq] at hnone
    cases hnone
  · rw [h, hq, hgone, Option.or_none] at hsome
    exact hsome.symm

/-- The last addition has the time of a peer that is there in the end. -/
theorem exists_ts_placeAll {own : PlainObject Peer} {adds : List (JsString × Peer)}
    (hfit : Fit own adds) {b : JsString × Peer} (hb : b ∈ adds) :
    ∃ m ∈ (placeAll own adds).members, b.2.ts ≤ m.2.ts := by
  induction adds using List.reverseRecOn with
  | nil => cases hb
  | append_singleton zs c _ =>
    have hlast := hfit.append_right
    have hle : ∀ m ∈ (placeAll own zs).members, m.2.ts ≤ c.2.ts := fun m hm =>
      hlast.ts m hm c (List.mem_singleton_self c)
    obtain ⟨m, hm, hmc⟩ := @exists_ts_place _ hlast.size c.1 _ hle
    rw [placeAll_snoc]
    refine ⟨m, hm, ?_⟩
    rw [hmc]
    rcases List.mem_append.mp hb with hb | hb
    · exact (List.pairwise_append.mp hfit.ordered).2.2 b hb c (List.mem_singleton_self c)
    · rw [List.mem_singleton.mp hb]

/-- When a name comes in, and the table is the same in the end, everything happens in one
millisecond: the peer that has been evicted has been added again, so that no peer is older
than the last addition. -/
theorem oneTime_of_placeAll {own : PlainObject Peer} {xs ys : List (JsString × Peer)}
    {a : JsString × Peer} (hfit : Fit own (xs ++ a :: ys))
    (hnames : names (placeAll own xs) = names own) (hnew : own.get a.1 = none)
    (hself : ¬ EvictsItself own a.1 a.2) (h : placeAll own (xs ++ a :: ys) = own) :
    ∃ r, OneTime own (xs ++ a :: ys) r := by
  have hstands := (placeAll_eq_iff_names.mp h).2
  have hcur := hfit.append_right
  have hcurnew : (placeAll own xs).get a.1 = none := by
    rw [get_eq_none_iff_names, hnames]
    exact get_eq_none_iff_names.mp hnew
  have hfull := full_of_placeAll hfit hnames hcurnew h
  have hle : ∀ m ∈ (placeAll own xs).members, m.2.ts ≤ a.2.ts := fun m hm =>
    hcur.ts m hm a List.mem_cons_self
  rcases place_of_full ((length_eq_of_names hnames).trans hfull) hcurnew hle with
    ⟨hevicts, -⟩ | ⟨-, old, hold, hmin, hplace⟩
  · refine absurd ⟨hnew, hfull, fun m hm => ?_, ?_⟩ hself
    · obtain ⟨p, hp, hts⟩ := hstands.exists_peer hfit hnames hm
      exact hts.symm.trans (hevicts.2.2.1 _ hp)
    · rw [forall_before_iff_names, ← hnames]
      exact forall_before_iff_names.mp hevicts.2.2.2
  · have holdmem : old.1 ∈ names own := hnames ▸ List.mem_map_of_mem hold
    obtain ⟨q, hq⟩ := mem_names_iff.mp holdmem
    have hgone : (place (placeAll own xs) a.1 a.2).get old.1 = none := by
      rw [hplace, PlainObject.get_erase, if_pos rfl]
    have hagain : (old.1, q) ∈ ys := by
      refine mem_of_placeAll_erase hgone hq ?_
      rw [placeAll_append] at h
      exact h
    have hoq : old.2.ts = q.ts := hstands.ts hfit (PlainObject.get_eq_some_iff.mpr hold) hq
    have haq : a.2.ts ≤ q.ts := (List.pairwise_cons.mp hcur.ordered).1 _ hagain
    have hpeers : ∀ m ∈ own.members, m.2.ts = q.ts := by
      intro m hm
      obtain ⟨p, hp, hts⟩ := hstands.exists_peer hfit hnames hm
      refine le_antisymm ((hfit.ts m hm a (by simp)).trans haq) ?_
      rw [← hoq, ← hts]
      exact hmin _ hp
    refine ⟨q.ts, hfull, hpeers, fun b hb => le_antisymm ?_ ?_⟩
    · obtain ⟨m, hm, hbm⟩ := exists_ts_placeAll hfit hb
      rw [h] at hm
      rw [← hpeers m hm]
      exact hbm
    · exact hfit.ts _ (PlainObject.get_eq_some_iff.mp hq) b hb

theorem OneTime.placeAll {own : PlainObject Peer} {xs ys : List (JsString × Peer)} {r : ℕ}
    (h : OneTime own (xs ++ ys) r) : OneTime (placeAll own xs) ys r := by
  induction xs generalizing own with
  | nil => exact h
  | cons x xs ih => exact ih h.place

/-- An array index that is let go in one millisecond does not come back. -/
theorem names_of_one_time {own : PlainObject Peer} {a : JsString × Peer}
    {adds : List (JsString × Peer)} {r : ℕ} (h : OneTime own (a :: adds) r)
    (hnew : own.get a.1 = none) (hself : ¬ EvictsItself own a.1 a.2)
    (hsame : names (placeAll own (a :: adds)) = names own) :
    ∀ name ∈ names own, arrayIndex name = none := by
  obtain ⟨m, ms, hms⟩ := h.exists_cons
  have hsts : ∀ n ∈ own.members, n.2.ts = a.2.ts := fun n hn =>
    (h.peers n hn).trans (h.adds a List.mem_cons_self).symm
  have hordered := own.ordered
  rw [hms] at hordered
  have hbefore : ¬ before a.1 m.1 = true := by
    intro hbefore
    refine hself ⟨hnew, h.full, hsts, ?_⟩
    rw [hms]
    exact before_of_before_head hordered hbefore
  have hplace : (place own a.1 a.2).members = insertProp a.1 a.2 ms := by
    rw [h.members_place hnew hms, if_neg hbefore]
  have hhead : m.1 ∈ names own := by
    rw [names, hms]
    exact List.mem_cons_self
  cases hindex : arrayIndex m.1 with
  | none =>
    rw [names, hms]
    exact hordered.no_index hindex
  | some n =>
    have hnodup := own.nodup
    rw [hms] at hnodup
    have hnames : ∀ name ∈ names (place own a.1 a.2), ∀ i ∈ arrayIndex name, n < i := by
      intro name hname i hi
      rw [names, hplace] at hname
      obtain ⟨m', hm', rfl⟩ := List.mem_map.mp hname
      rcases mem_insertProp.mp hm' with rfl | hm'
      · refine lt_of_not_before hindex hi (fun he => ?_) hbefore
        exact get_eq_none_iff_names.mp hnew (he ▸ hhead)
      · exact hordered.index_lt hnodup hindex m'.1 (List.mem_map_of_mem hm') i hi
    have hlt := index_lt_of_placeAll h.place hnames m.1 (hsame ▸ hhead) n hindex
    exact absurd hlt (lt_irrefl n)

/-- Of what does not hold of all, there is a first. -/
theorem exists_first_not {α : Type} {P : α → Prop} {l : List α} (h : ¬ ∀ a ∈ l, P a) :
    ∃ xs a ys, l = xs ++ a :: ys ∧ ¬ P a ∧ ∀ x ∈ xs, P x := by
  classical
  cases hfind : l.find? fun a => ¬ P a with
  | none =>
    refine absurd (fun a ha => ?_) h
    simpa using List.find?_eq_none.mp hfind a ha
  | some a =>
    obtain ⟨ha, xs, ys, hl, hxs⟩ := List.find?_eq_some_iff_append.mp hfind
    exact ⟨xs, a, ys, hl, by simpa using ha, fun x hx => by simpa using hxs x hx⟩

/-- In one millisecond the names are the same when none comes in, or all have gone round. -/
theorem names_placeAll_eq_iff {own : PlainObject Peer} {adds : List (JsString × Peer)} {r : ℕ}
    (h : OneTime own adds r) (hnames : ∀ name ∈ names own, arrayIndex name = none) :
    names (placeAll own adds) = names own ↔
      (∀ x ∈ adds.map Prod.fst, x ∈ names own ∨ ¬ arrayIndex x = none) ∨
        (newcomers (fun name => arrayIndex name = none) (names own)
          (adds.map Prod.fst)).rtake MAX_PEERS = names own := by
  obtain ⟨m, ms, hms⟩ := h.exists_cons
  have hne : names own ≠ [] := by
    rw [names, hms]
    nofun
  have hlength : (names own).length = MAX_PEERS := by
    rw [names, List.length_map, h.full]
  rw [names_placeAll h hnames, run_eq_self_iff hne own.nodup, hlength]

/-- **When additions change nothing.**  The values agree, and either no addition brings a new
name, or the names have gone round. -/
theorem placeAll_eq_iff {own : PlainObject Peer} {adds : List (JsString × Peer)}
    (hfit : Fit own adds) :
    placeAll own adds = own ↔ Stands own adds ∧ (HeldOff own adds ∨ Rotates own adds) := by
  constructor
  · intro h
    obtain ⟨hnames, hstands⟩ := placeAll_eq_iff_names.mp h
    refine ⟨hstands, or_iff_not_imp_left.mpr fun hheld => ?_⟩
    obtain ⟨xs, a, ys, rfl, ha, hxs⟩ : ∃ xs a ys, adds = xs ++ a :: ys ∧
        ¬ (own.get a.1 ≠ none ∨ EvictsItself own a.1 a.2) ∧ HeldOff own xs :=
      exists_first_not hheld
    obtain ⟨hnew, hnot⟩ := not_or.mp ha
    have hnew := not_not.mp hnew
    have hxsnames := names_placeAll_of_heldOff hfit.append_left hxs
    obtain ⟨r, htime⟩ := oneTime_of_placeAll hfit hxsnames hnew hnot h
    have hsame : ∀ m ∈ own.members, m.2.ts = a.2.ts := fun m hm =>
      (htime.peers m hm).trans (htime.adds a (by simp)).symm
    have hindices : ∀ name ∈ names own, arrayIndex name = none := by
      rw [← hxsnames]
      refine names_of_one_time htime.placeAll ?_ ?_ ?_
      · rw [get_eq_none_iff_names, hxsnames]
        exact get_eq_none_iff_names.mp hnew
      · intro hself
        refine hnot ⟨hnew, htime.full, hsame, ?_⟩
        rw [forall_before_iff_names, ← hxsnames]
        exact forall_before_iff_names.mp hself.2.2.2
      · rw [← placeAll_append, hnames, hxsnames]
    have hround := (names_placeAll_eq_iff htime hindices).mp hnames
    refine ⟨⟨r, htime⟩, hindices, hround.resolve_left fun hall => ?_⟩
    rcases hall a.1 (by simp) with hthere | hindex
    · exact get_eq_none_iff_names.mp hnew hthere
    · refine hnot ⟨hnew, htime.full, hsame, ?_⟩
      rw [forall_before_iff_names]
      intro name hname
      obtain ⟨i, hi⟩ := Option.ne_none_iff_exists'.mp hindex
      exact before_of_index hi (hindices name hname)
  · intro h
    obtain ⟨hstands, hheld | hrotates⟩ := h
    · exact placeAll_eq_iff_names.mpr ⟨names_placeAll_of_heldOff hfit hheld, hstands⟩
    · obtain ⟨⟨r, htime⟩, hnames, hround⟩ := hrotates
      exact placeAll_eq_iff_names.mpr
        ⟨(names_placeAll_eq_iff htime hnames).mpr (.inr hround), hstands⟩

end NewZone.Services.Peers
