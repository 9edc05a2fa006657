import NewZone.Crypto.BodyBinding
import NewZone.Services.PeerRounds
import NewZone.Services.RequestBody

/-!
# Peer merges that are refused

`POST /p2p/merge` of `services/p2p_node/server.js`.  `mergePeers` writes the peers of the
list one by one, and an element that cannot be read ends it with an exception.  The request
is then refused, and what has been written stays (`refused_merge_iff`).
-/

namespace NewZone.Services.Peers

open NewZone.Js NewZone.Js.Json NewZone.ExceptBind NewZone.Runs NewZone.Crypto
open NewZone.Crypto.SignedPacket (Coercions)

/-! ## The server -/

def invalidMerge : Response := .error 400 "Invalid merge"

/-- `POST /p2p/merge`, where the clock says what the calls of `addPeer` read. -/
def merge (clock : ℕ → ℕ) (PEERS : Table) (payload : Option Json) : Table × Response :=
  match mergePeers PEERS (member payload "peers") clock with
  | (PEERS, none) => (PEERS, { status := 200, body := .obj [(js "ok", .bool true)] })
  | (PEERS, some _) => (PEERS, invalidMerge)

/-! ## What is added -/

/-- What an element of a list adds. -/
def additionOf (p : Json) (now : ℕ) : Except String (JsString × Peer) := do
  let id ← property p "id"
  let url ← property p "url"
  return (← keyOf id, { id, url, ts := now })

/-- What is added before the first element that cannot be. -/
def additions (clock : ℕ → ℕ) : List Json → List (JsString × Peer)
  | [] => []
  | p :: list =>
    match additionOf p (clock 0) with
    | .ok added => added :: additions (fun i => clock (i + 1)) list
    | .error _ => []

def write (PEERS : Table) (added : JsString × Peer) : Table :=
  (PEERS.assign added.1 added.2).bounded

theorem additionOf_eq (PEERS : Table) (p : Json) (now : ℕ) :
    (do addPeer PEERS (← property p "id") (← property p "url") now)
      = (additionOf p now).map fun added => (write PEERS added, (write PEERS added).get added.1) := by
  unfold additionOf addPeer
  cases property p "id" with
  | error e => rfl
  | ok id =>
    cases property p "url" with
    | error e => rfl
    | ok url =>
      simp only [ok_bind]
      cases keyOf id <;> rfl

/-- The loop writes what is added. -/
theorem mergeFrom_eq (PEERS : Table) (clock : ℕ → ℕ) (list : List Json) :
    (mergeFrom PEERS clock list).1 = (additions clock list).foldl write PEERS := by
  induction list generalizing PEERS clock with
  | nil => rfl
  | cons p list ih =>
    rw [mergeFrom, additions, additionOf_eq]
    cases additionOf p (clock 0) with
    | error e => rfl
    | ok added => exact ih _ _

/-- The readings of the clock go into what is added, in order. -/
theorem pairwise_additions {clock : ℕ → ℕ} (hmono : Monotone clock) (list : List Json) :
    (∀ added ∈ additions clock list, clock 0 ≤ added.2.ts) ∧
      (additions clock list).Pairwise fun a b => a.2.ts ≤ b.2.ts := by
  induction list generalizing clock with
  | nil => exact ⟨nofun, .nil⟩
  | cons p list ih =>
    have hnext : Monotone fun i => clock (i + 1) := fun i j hij => hmono (Nat.succ_le_succ hij)
    obtain ⟨hlater, hpairwise⟩ := ih hnext
    rw [additions]
    cases hadded : additionOf p (clock 0) with
    | error e => exact ⟨nofun, .nil⟩
    | ok added =>
      have hts : added.2.ts = clock 0 := by
        obtain ⟨id, -, hadded⟩ := bind_eq_ok.mp hadded
        obtain ⟨url, -, hadded⟩ := bind_eq_ok.mp hadded
        obtain ⟨key, -, hadded⟩ := bind_eq_ok.mp hadded
        obtain rfl := Except.ok.inj hadded
        rfl
      have hlater : ∀ b ∈ additions (fun i => clock (i + 1)) list, added.2.ts ≤ b.2.ts :=
        fun b hb => hts ▸ (hmono (Nat.zero_le 1)).trans (hlater b hb)
      refine ⟨List.forall_mem_cons.mpr ⟨hts.ge, fun b hb => ?_⟩,
        List.pairwise_cons.mpr ⟨hlater, hpairwise⟩⟩
      rw [← hts]
      exact hlater b hb

/-- An element is added at every time or at none. -/
def Readable (p : Json) : Prop := ∃ added, additionOf p 0 = .ok added

theorem readable_iff {p : Json} (now : ℕ) : Readable p ↔ ∃ added, additionOf p now = .ok added := by
  unfold Readable additionOf
  cases property p "id" with
  | error e => exact Iff.rfl
  | ok id =>
    cases property p "url" with
    | error e => exact Iff.rfl
    | ok url =>
      simp only [ok_bind]
      cases keyOf id with
      | error e => exact Iff.rfl
      | ok key => exact iff_of_true ⟨_, rfl⟩ ⟨_, rfl⟩

/-- A list is merged to its end when all of its elements can be read. -/
theorem mergeFrom_eq_none_iff (PEERS : Table) (clock : ℕ → ℕ) (list : List Json) :
    (mergeFrom PEERS clock list).2 = none ↔ ∀ p ∈ list, Readable p := by
  induction list generalizing PEERS clock with
  | nil => exact iff_of_true rfl nofun
  | cons p list ih =>
    rw [mergeFrom, additionOf_eq, List.forall_mem_cons, readable_iff (clock 0)]
    cases additionOf p (clock 0) with
    | error e => exact iff_of_false nofun fun h => nomatch h.1.choose_spec
    | ok added => exact (ih _ _).trans (and_iff_right ⟨added, rfl⟩).symm

/-! ## The table after a list -/

/-- The additions that are counted. -/
def counted (adds : List (JsString × Peer)) : List (JsString × Peer) :=
  adds.filter fun a => a.1 ≠ js "__proto__"

theorem own_write {PEERS : Table} {a : JsString × Peer} {adds : List (JsString × Peer)}
    (hfit : Fit PEERS.own (a :: adds)) : (write PEERS a).own = placeAll PEERS.own (counted [a]) := by
  unfold write counted
  by_cases ha : a.1 = js "__proto__"
  · rw [ha, bounded_assign_proto hfit.size, List.filter_cons_of_neg (by simpa using ha)]
    rfl
  · rw [own_bounded_assign ha, List.filter_cons_of_pos (by simpa using ha)]
    rfl

theorem proto_write {PEERS : Table} (a : JsString × Peer) :
    (write PEERS a).proto = (lastOf (js "__proto__") [a]).or PEERS.proto := by
  rw [write, proto_bounded, lastOf_singleton, Table.assign]
  split_ifs <;> rfl

theorem Fit.write {PEERS : Table} {a : JsString × Peer} {adds : List (JsString × Peer)}
    (hfit : Fit PEERS.own (a :: adds)) : Fit (write PEERS a).own adds := by
  have hcounted : (counted [a] ++ adds).Sublist (a :: adds) :=
    (List.filter_sublist (l := [a])).append_right adds
  rw [own_write hfit]
  refine Fit.append_right ⟨hfit.size, fun m hm b hb => ?_, hfit.ordered.sublist hcounted⟩
  exact hfit.ts m hm b (hcounted.subset hb)

theorem own_foldl_write {PEERS : Table} {adds : List (JsString × Peer)}
    (hfit : Fit PEERS.own adds) :
    (adds.foldl write PEERS).own = placeAll PEERS.own (counted adds) := by
  induction adds generalizing PEERS with
  | nil => rfl
  | cons a adds ih =>
    have hsplit : counted (a :: adds) = counted [a] ++ counted adds := List.filter_append [a] adds
    rw [List.foldl_cons, ih hfit.write, own_write hfit, hsplit, placeAll_append]

theorem proto_foldl_write (PEERS : Table) (adds : List (JsString × Peer)) :
    (adds.foldl write PEERS).proto = (lastOf (js "__proto__") adds).or PEERS.proto := by
  induction adds generalizing PEERS with
  | nil => rfl
  | cons a adds ih =>
    rw [List.foldl_cons, ih, proto_write, ← Option.or_assoc, ← lastOf_append]
    rfl

/-- The additions write what is there.  The prototype is the same, and so are the values;
and no addition brings a new name, or the names have gone round. -/
structure Unchanged (PEERS : Table) (adds : List (JsString × Peer)) : Prop where
  proto : ∀ peer, lastOf (js "__proto__") adds = some peer → PEERS.proto = some peer
  stands : Stands PEERS.own (counted adds)
  held : HeldOff PEERS.own (counted adds) ∨ Rotates PEERS.own (counted adds)

theorem foldl_write_eq_iff {PEERS : Table} {adds : List (JsString × Peer)}
    (hfit : Fit PEERS.own adds) : adds.foldl write PEERS = PEERS ↔ Unchanged PEERS adds := by
  have hcounted : Fit PEERS.own (counted adds) :=
    ⟨hfit.size, fun m hm a ha => hfit.ts m hm a (List.mem_of_mem_filter ha),
      hfit.ordered.sublist List.filter_sublist⟩
  have hown := placeAll_eq_iff hcounted
  rw [← own_foldl_write hfit] at hown
  have hproto : (adds.foldl write PEERS).proto = PEERS.proto ↔
      ∀ peer, lastOf (js "__proto__") adds = some peer → PEERS.proto = some peer := by
    rw [proto_foldl_write]
    cases lastOf (js "__proto__") adds with
    | none => exact iff_of_true rfl nofun
    | some last =>
      constructor
      · intro h peer hpeer
        rw [← h, ← Option.some.inj hpeer]
        rfl
      · intro h
        exact (h last rfl).symm
  rw [Table.ext_iff, hown, hproto]
  constructor
  · intro h
    exact ⟨h.2, h.1.1, h.1.2⟩
  · intro h
    exact ⟨⟨h.stands, h.held⟩, h.proto⟩

/-! ## Refused lists -/

theorem merge_of_iterate {clock : ℕ → ℕ} {PEERS : Table} {payload : Option Json}
    {list : List Json} (h : iterate (member payload "peers") = .ok list) :
    (merge clock PEERS payload).1 = (additions clock list).foldl write PEERS ∧
      ((merge clock PEERS payload).2 = invalidMerge ↔ ∃ p ∈ list, ¬ Readable p) := by
  have hmerge : mergePeers PEERS (member payload "peers") clock = mergeFrom PEERS clock list := by
    rw [mergePeers, h]
  have hnone := mergeFrom_eq_none_iff PEERS clock list
  have hadds := mergeFrom_eq PEERS clock list
  unfold merge
  rw [hmerge]
  generalize mergeFrom PEERS clock list = result at hnone hadds
  obtain ⟨PEERS', thrown⟩ := result
  cases thrown with
  | none =>
    refine ⟨hadds, iff_of_false (fun h => ?_) ?_⟩
    · cases congrArg Response.status h
    · push Not
      exact hnone.mp rfl
  | some e =>
    refine ⟨hadds, iff_of_true rfl ?_⟩
    by_contra hall
    push Not at hall
    cases hnone.mpr hall

/-- When a payload that is refused leaves the table. -/
theorem merge_keeps_iff {clock : ℕ → ℕ} {PEERS : Table} {payload : Option Json}
    (hfit : ∀ list, Fit PEERS.own (additions clock list)) :
    ((merge clock PEERS payload).2 = invalidMerge → (merge clock PEERS payload).1 = PEERS) ↔
      ∀ list, iterate (member payload "peers") = .ok list → (∃ p ∈ list, ¬ Readable p) →
        Unchanged PEERS (additions clock list) := by
  cases hlist : iterate (member payload "peers") with
  | error e =>
    have hmerge : mergePeers PEERS (member payload "peers") clock = (PEERS, some e) := by
      rw [mergePeers, hlist]
    refine iff_of_true (fun _ => ?_) fun list hlist' => ?_
    · rw [merge, hmerge]
    · cases hlist'
  | ok list =>
    obtain ⟨hadds, hinvalid⟩ := @merge_of_iterate clock PEERS _ _ hlist
    rw [hinvalid, hadds, foldl_write_eq_iff (hfit list)]
    constructor
    · intro h list' hlist'
      rwa [← Except.ok.inj hlist']
    · intro h
      exact h list rfl

/-- **When a refused merge changes nothing.**  In every table that is reached, an
`Invalid merge` has left the table as it was exactly when, where a list has an element that
cannot be read, the elements in front of it write what is there. -/
theorem refused_merge_iff {ops : List Op} {PEERS : Table} {t : ℕ}
    (hrun : Run Step (.initial, 0) ops (PEERS, t)) {clock : ℕ → ℕ} (hmono : Monotone clock)
    (hclock : t ≤ clock 0) (node : NodeSign) (coerce : Coercions) (ctx : Context) (body : Body) :
    (∀ PEERS', withBody node coerce ctx PEERS body (merge clock PEERS) = (PEERS', some invalidMerge) →
        PEERS' = PEERS) ↔
      ∀ payload crypto list,
        parseRequestBodyWithCrypto node coerce ctx body = .ok (.payload payload crypto) →
        iterate (member payload "peers") = .ok list → (∃ p ∈ list, ¬ Readable p) →
        Unchanged PEERS (additions clock list) := by
  have hvalid := valid_of_run hrun
  have hfit : ∀ list, Fit PEERS.own (additions clock list) := by
    intro list
    obtain ⟨hlate, hordered⟩ := pairwise_additions hmono list
    exact ⟨hvalid.size, fun m hm a ha => ((hvalid.ts m hm).trans hclock).trans (hlate a ha), hordered⟩
  unfold withBody
  cases parseRequestBodyWithCrypto node coerce ctx body with
  | error e => exact iff_of_true nofun nofun
  | ok parsed =>
    cases parsed with
    | answered response =>
      refine iff_of_true (fun PEERS' h => ?_) nofun
      exact (congrArg Prod.fst h).symm
    | payload payload crypto =>
      have hkeeps := @merge_keeps_iff _ _ payload hfit
      constructor
      · intro h payload' crypto' list hparsed
        cases hparsed
        refine hkeeps.mp (fun hresponse => ?_) list
        exact h _ (Prod.ext rfl (congrArg some hresponse))
      · intro h PEERS' heq
        obtain ⟨rfl, hresponse⟩ := Prod.mk.inj heq
        exact hkeeps.mpr (fun list => h payload crypto list rfl) (Option.some.inj hresponse)

/-- A peer that can be added, and something that cannot. -/
def halfList : Json := .obj [(js "peers", .arr [.obj [(js "id", .str (js "a"))], .null])]

theorem parse_halfList : parseRequestBodyWithCrypto (Tabulated.sign [] [])
    SignedPacket.knownCoercions { knownNodes := .empty, clock := 7 } (.json halfList)
      = .ok (.payload (some halfList) false) := parse_plain (by decide)

/-- The table in which the peer is already. -/
def heldTable : Table := after .initial (.add (some (.str (js "a"))) none 7)

theorem unchanged_heldTable :
    Unchanged heldTable [(js "a", newPeer (js "a") none 7)] := by
  have hget : heldTable.own.get (js "a") = some (newPeer (js "a") none 7) := rfl
  have hcounted : counted [(js "a", newPeer (js "a") none 7)]
      = [(js "a", newPeer (js "a") none 7)] := List.filter_cons_of_pos (by decide)
  constructor
  · intro peer hlast
    cases hlast
  · intro key peer hlast _
    rw [hcounted, lastOf_singleton] at hlast
    obtain ⟨rfl, hpeer⟩ := Option.ite_none_right_eq_some.mp hlast
    exact hget.trans hpeer
  · refine .inl fun a ha => .inl ?_
    rw [hcounted] at ha
    rw [List.mem_singleton.mp ha, hget]
    nofun

/-- In the millisecond in which it has been added, nothing changes. -/
theorem refused_merge_known :
    withBody (Tabulated.sign [] []) SignedPacket.knownCoercions { knownNodes := .empty, clock := 7 }
      heldTable (.json halfList) (merge (fun _ => 7) heldTable)
      = (heldTable, some invalidMerge) := by
  have hresponse : (withBody (Tabulated.sign [] []) SignedPacket.knownCoercions
      { knownNodes := .empty, clock := 7 } heldTable (.json halfList)
      (merge (fun _ => 7) heldTable)).2 = some invalidMerge := by
    rw [withBody, parse_halfList]
    rfl
  refine Prod.ext ((refused_merge_iff (.single (.add (Nat.zero_le 7))) monotone_const le_rfl _ _ _ _).mpr
    ?_ _ (Prod.ext rfl hresponse)) hresponse
  intro payload crypto list hparsed hlist _
  rw [parse_halfList] at hparsed
  cases hparsed
  obtain rfl := Except.ok.inj hlist
  exact unchanged_heldTable

/-- In another table it is added, and the merge is refused. -/
theorem half_merge_kept :
    (withBody (Tabulated.sign [] []) SignedPacket.knownCoercions { knownNodes := .empty, clock := 7 }
        .initial (.json halfList) (merge (fun _ => 7) .initial)).2 = some invalidMerge ∧
      (withBody (Tabulated.sign [] []) SignedPacket.knownCoercions { knownNodes := .empty, clock := 7 }
        .initial (.json halfList) (merge (fun _ => 7) .initial)).1.own.get (js "a")
        = some (newPeer (js "a") none 7) ∧
      Table.initial.own.get (js "a") = none := by
  rw [withBody, parse_halfList]
  exact ⟨rfl, rfl, rfl⟩

end NewZone.Services.Peers
