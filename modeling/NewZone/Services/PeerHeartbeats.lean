import Mathlib.Logic.Function.Basic
import NewZone.Services.PeerMerges

/-!
# Heartbeats between nodes

`services/p2p_node/server.js`: any number of nodes on hosts of their own, each of which posts
`SELF_INFO` to its peers every three seconds.  What a node says of itself is its id and
`http://localhost:3015`, so who hears of a node by a heartbeat learns an address of its own.
A node hears only of those that a client has told of it (`listed_introduced`), and after a
heartbeat from a peer it sends none back (`one_way`).

The fetch of a heartbeat is settled at any time, and the request that it made is handled or
lost at any time.
-/

namespace NewZone.Services.Peers

open NewZone.Js NewZone.Js.Json NewZone.ExceptBind NewZone.Crypto
open NewZone.Crypto.SignedPacket (Coercions)

/-! ## The server -/

def SELF_URL : JsString := js "http://localhost:3015"

/-- What is answered: a status, and a body unless `JSON.stringify` gives none. -/
structure Answer where
  status : ℕ
  body : Option Json

def Response.answer (response : Response) : Answer :=
  { status := response.status, body := some response.body }

/-- `JSON.stringify` leaves members out that are `undefined`. -/
def Peer.json (peer : Peer) : Json :=
  .obj (peer.id.toList.map (js "id", ·) ++ peer.url.toList.map (js "url", ·)
    ++ [(js "ts", .num (Number.ofNat peer.ts))])

def listPeers (PEERS : Table) : List Peer := PEERS.own.members.map Prod.snd

/-- `POST /p2p/announce` -/
def announce (now : ℕ) (PEERS : Table) (payload : Option Json) : Table × Answer :=
  match addPeer PEERS (member payload "id") (member payload "url") now with
  | .ok (PEERS, peer) => (PEERS, { status := 200, body := peer.map Peer.json })
  | .error _ => (PEERS, Response.answer (.error 400 "Invalid announce"))

/-- `POST /p2p/heartbeat` -/
def heartbeat (now : ℕ) (PEERS : Table) (payload : Option Json) : Table × Answer :=
  match addPeer PEERS (member payload "id") (member payload "url") now with
  | .ok (PEERS, _) => (PEERS, { status := 200, body := some (.obj [(js "ok", .bool true)]) })
  | .error _ => (PEERS, Response.answer (.error 400 "Invalid heartbeat"))

section Server

variable (node : NodeSign) (coerce : Coercions)

/-- A route that reads the body. -/
def withPayload (ctx : Context) (PEERS : Table) (body : Body)
    (route : Option Json → Table × Answer) : Table × Option Answer :=
  match parseRequestBodyWithCrypto node coerce ctx body with
  | .error _ => (PEERS, none)
  | .ok (.answered response) => (PEERS, some (Response.answer response))
  | .ok (.payload payload _) => ((route payload).1, some (route payload).2)

def handle (SELF_ID : JsString) (ctx : Context) (clock : ℕ → ℕ) (PEERS : Table)
    (req : Request) : Table × Option Answer :=
  if req.method = .get ∧ req.url = js "/health" then
    (PEERS, some { status := 200
                   body := some (.obj [(js "status", .str (js "ok")), (js "id", .str SELF_ID)]) })
  else if req.method = .get ∧ req.url = js "/peers" then
    (PEERS, some { status := 200, body := some (.arr ((listPeers PEERS).map Peer.json)) })
  else if req.method = .post ∧ req.url = js "/p2p/announce" then
    withPayload node coerce ctx PEERS req.body (announce (clock 0) PEERS)
  else if req.method = .post ∧ req.url = js "/p2p/heartbeat" then
    withPayload node coerce ctx PEERS req.body (heartbeat (clock 0) PEERS)
  else if req.method = .post ∧ req.url = js "/p2p/merge" then
    withPayload node coerce ctx PEERS req.body fun payload =>
      ((merge clock PEERS payload).1, Response.answer (merge clock PEERS payload).2)
  else (PEERS, some (Response.answer (.error 404 "Not found")))

/-! ## What a request adds -/

/-- `addPeer(id, url)` of a payload. -/
def pairOf (now : ℕ) (payload : Option Json) : List (JsString × Peer) :=
  (keyOf (member payload "id")).toOption.toList.map fun key =>
    (key, { id := member payload "id", url := member payload "url", ts := now })

def listOf (clock : ℕ → ℕ) (payload : Option Json) : List (JsString × Peer) :=
  (iterate (member payload "peers")).toOption.toList.flatMap (additions clock)

/-- What a payload adds on a path. -/
def addedAt (url : JsString) (clock : ℕ → ℕ) (payload : Option Json) : List (JsString × Peer) :=
  if url = js "/p2p/announce" ∨ url = js "/p2p/heartbeat" then pairOf (clock 0) payload
  else if url = js "/p2p/merge" then listOf clock payload
  else []

/-- What a body adds, if it is read. -/
def addedBy (ctx : Context) (body : Body) (adds : Option Json → List (JsString × Peer)) :
    List (JsString × Peer) :=
  match parseRequestBodyWithCrypto node coerce ctx body with
  | .ok (.payload payload _) => adds payload
  | _ => []

/-- What a request adds. -/
def requested (ctx : Context) (clock : ℕ → ℕ) (req : Request) : List (JsString × Peer) :=
  if req.method = .post then addedBy node coerce ctx req.body (addedAt req.url clock) else []

end Server

variable {node : NodeSign} {coerce : Coercions}

theorem after_add (PEERS : Table) (now : ℕ) (payload : Option Json) :
    after PEERS (.add (member payload "id") (member payload "url") now)
      = (pairOf now payload).foldl write PEERS := by
  rw [after, addPeer, pairOf]
  cases keyOf (member payload "id") <;> rfl

theorem announce_fst (now : ℕ) (PEERS : Table) (payload : Option Json) :
    (announce now PEERS payload).1 = (pairOf now payload).foldl write PEERS := by
  rw [← after_add, announce, after]
  cases addPeer PEERS (member payload "id") (member payload "url") now <;> rfl

theorem heartbeat_fst (now : ℕ) (PEERS : Table) (payload : Option Json) :
    (heartbeat now PEERS payload).1 = (pairOf now payload).foldl write PEERS := by
  rw [← after_add, heartbeat, after]
  cases addPeer PEERS (member payload "id") (member payload "url") now <;> rfl

theorem merge_fst (clock : ℕ → ℕ) (PEERS : Table) (payload : Option Json) :
    (merge clock PEERS payload).1 = (listOf clock payload).foldl write PEERS := by
  have hfst : (merge clock PEERS payload).1
      = (mergePeers PEERS (member payload "peers") clock).1 := by
    rw [merge]
    split
    · rename_i hmerge
      rw [hmerge]
    · rename_i hmerge
      rw [hmerge]
  rw [hfst, mergePeers, listOf]
  cases iterate (member payload "peers") with
  | ok items => simpa [Except.toOption] using mergeFrom_eq PEERS clock items
  | error e => rfl

theorem withPayload_fst {ctx : Context} {PEERS : Table} {body : Body}
    {route : Option Json → Table × Answer} {adds : Option Json → List (JsString × Peer)}
    (h : ∀ payload, (route payload).1 = (adds payload).foldl write PEERS) :
    (withPayload node coerce ctx PEERS body route).1
      = (addedBy node coerce ctx body adds).foldl write PEERS := by
  rw [withPayload, addedBy]
  cases parseRequestBodyWithCrypto node coerce ctx body with
  | error e => rfl
  | ok parsed =>
    cases parsed with
    | answered response => rfl
    | payload payload crypto => exact h payload

/-- A request writes what it adds, and nothing else. -/
theorem handle_fst (SELF_ID : JsString) (ctx : Context) (clock : ℕ → ℕ) (PEERS : Table)
    (req : Request) :
    (handle node coerce SELF_ID ctx clock PEERS req).1
      = (requested node coerce ctx clock req).foldl write PEERS := by
  unfold handle requested
  by_cases hpost : req.method = .post
  · simp only [hpost, reduceCtorEq, false_and, true_and, if_true, if_false]
    split_ifs with hannounce hheartbeat hmerge
    · rw [withPayload_fst (announce_fst _ _), hannounce]
      congr
    · rw [withPayload_fst (heartbeat_fst _ _), hheartbeat]
      congr
    · rw [withPayload_fst fun payload => merge_fst _ _ payload, hmerge]
      congr
    · have hnone : addedAt req.url clock = fun _ => [] := by
        funext payload
        simp only [addedAt, hannounce, hheartbeat, hmerge, or_self, if_false]
      rw [hnone, addedBy]
      split <;> rfl
  · simp only [hpost, false_and, if_false]
    split_ifs <;> rfl

/-! ## The nodes -/

/-- Where a host's requests go: the node whose server gets one, and its target there. -/
structure Hosts (ι : Type) where
  reach : ι → JsString → Option (ι × JsString)
  /-- `localhost` is the host itself. -/
  loopback : ∀ i, reach i (SELF_URL ++ js "/p2p/heartbeat") = some (i, js "/p2p/heartbeat")

/-- A node, with the peers that each of its heartbeat loops still has before it. -/
structure Node where
  PEERS : Table
  loops : List (List Peer)

/-- A heartbeat under way. -/
structure Beat (ι : Type) where
  sender : ι
  receiver : ι
  url : JsString

structure Network (ι : Type) where
  node : ι → Node
  sent : List (Beat ι)

inductive Event (ι : Type) where
  /-- The timer of a node begins a loop. -/
  | timer (i : ι)
  /-- A loop comes to its next peer. -/
  | beat (i : ι) (loop : ℕ)
  /-- A heartbeat is handled. -/
  | deliver (k : ℕ) (ctx : Context) (clock : ℕ → ℕ)
  | lose (k : ℕ)
  /-- A node handles a request of somebody else. -/
  | client (i : ι) (ctx : Context) (clock : ℕ → ℕ) (req : Request)

variable {ι : Type}

def Network.initial : Network ι :=
  { node := fun _ => { PEERS := .initial, loops := [] }, sent := [] }

section Network

variable (hosts : Hosts ι)

/-- `peer.url + "/p2p/heartbeat"`, and where it leads. -/
def target (i : ι) (peer : Peer) : Option (ι × JsString) :=
  (keyOf peer.url).toOption.bind fun url => hosts.reach i (url ++ js "/p2p/heartbeat")

variable (SELF_ID : ι → JsString)

def SELF_INFO (i : ι) : Json := .obj [(js "id", .str (SELF_ID i)), (js "url", .str SELF_URL)]

/-- The request that `sendHeartbeat` makes. -/
def Beat.request (m : Beat ι) : Request :=
  { method := .post, url := m.url, body := .json (SELF_INFO SELF_ID m.sender) }

variable (node : NodeSign) (coerce : Coercions) [DecidableEq ι]

def Network.handle (N : Network ι) (i : ι) (ctx : Context) (clock : ℕ → ℕ) (req : Request) :
    Network ι :=
  let PEERS := (Peers.handle node coerce (SELF_ID i) ctx clock (N.node i).PEERS req).1
  { N with node := Function.update N.node i { N.node i with PEERS } }

def Network.after (N : Network ι) : Event ι → Network ι
  | .timer i =>
    let loops := (N.node i).loops ++ [listPeers (N.node i).PEERS]
    { N with node := Function.update N.node i { N.node i with loops } }
  | .beat i loop =>
    match (N.node i).loops[loop]? with
    | some (peer :: peers) =>
      let loops := (N.node i).loops.set loop peers
      let beat := (target hosts i peer).map fun r => { sender := i, receiver := r.1, url := r.2 }
      { node := Function.update N.node i { N.node i with loops }, sent := N.sent ++ beat.toList }
    | _ => N
  | .deliver k ctx clock =>
    match N.sent[k]? with
    | some m =>
      { Network.handle SELF_ID node coerce N m.receiver ctx clock (m.request SELF_ID) with
        sent := N.sent.eraseIdx k }
    | none => N
  | .lose k => { N with sent := N.sent.eraseIdx k }
  | .client i ctx clock req => Network.handle SELF_ID node coerce N i ctx clock req

def Network.run (N : Network ι) (events : List (Event ι)) : Network ι :=
  events.foldl (Network.after hosts SELF_ID node coerce) N

/-- A client has given a node this peer, under this name. -/
def Given (events : List (Event ι)) (i : ι) (a : JsString × Peer) : Prop :=
  ∃ ctx clock req, .client i ctx clock req ∈ events ∧ a ∈ requested node coerce ctx clock req

/-- A heartbeat to the peer gets to a node. -/
def Reaches (i : ι) (peer : Peer) (j : ι) : Prop := ∃ url, target hosts i peer = some (j, url)

/-- A client has given a node an address of another. -/
def Introduced (events : List (Event ι)) (j i : ι) : Prop :=
  ∃ a, Given node coerce events j a ∧ Reaches hosts j a.2 i

/-- A peer that a client has given a node, or that has sent it a heartbeat: the node itself,
or one to whom a client has given an address of it. -/
def Known (events : List (Event ι)) (i : ι) (peer : Peer) : Prop :=
  (∃ key, Given node coerce events i (key, peer)) ∨
    ∃ j, peer.id = some (.str (SELF_ID j)) ∧ peer.url = some (.str SELF_URL) ∧
      (j = i ∨ Introduced hosts node coerce events j i)

/-- What an event adds to the table of a node. -/
def Network.adds (N : Network ι) (i : ι) : Event ι → List (JsString × Peer)
  | .timer _ | .beat _ _ | .lose _ => []
  | .deliver k ctx clock =>
    (N.sent[k]?.filter (·.receiver = i)).toList.flatMap fun m =>
      requested node coerce ctx clock (m.request SELF_ID)
  | .client i' ctx clock req => if i' = i then requested node coerce ctx clock req else []

end Network

/-! ## What an event does -/

/-- What is in a table has been written last, or was there under another name. -/
theorem mem_write {PEERS : Table} {a m : JsString × Peer} (hm : m ∈ (write PEERS a).own.members) :
    m = a ∨ m ∈ PEERS.own.members ∧ m.1 ≠ a.1 := by
  have hbounded : ∀ PEERS : Table, m ∈ PEERS.bounded.own.members → m ∈ PEERS.own.members := by
    intro PEERS h
    unfold Table.bounded at h
    split at h
    · split at h
      · exact (List.mem_filter.mp h).1
      · exact h
    · exact h
  have hassign := hbounded _ hm
  by_cases ha : a.1 = js "__proto__"
  · rw [Table.assign, dif_pos ha] at hassign
    refine .inr ⟨hassign, fun hname => ?_⟩
    have hget := PlainObject.get_eq_some_iff.mpr (show (m.1, m.2) ∈ PEERS.own.members from hassign)
    rw [hname, ha, PEERS.plain] at hget
    cases hget
  · rw [Table.assign, dif_neg ha] at hassign
    have hget := PlainObject.get_eq_some_iff.mpr
      (show (m.1, m.2) ∈ (PEERS.own.set a.1 a.2).members from hassign)
    rw [PlainObject.get_set] at hget
    split_ifs at hget with hname
    · exact .inl (Prod.ext hname.symm (Option.some.inj hget).symm)
    · exact .inr ⟨PlainObject.get_eq_some_iff.mp hget, fun h => hname h.symm⟩

theorem forall_foldl_write {P : JsString × Peer → Prop} {PEERS : Table}
    (h : ∀ m ∈ PEERS.own.members, P m) {adds : List (JsString × Peer)} (hadds : ∀ a ∈ adds, P a) :
    ∀ m ∈ (adds.foldl write PEERS).own.members, P m := by
  induction adds generalizing PEERS with
  | nil => exact h
  | cons a adds ih =>
    obtain ⟨ha, hadds⟩ := List.forall_mem_cons.mp hadds
    refine ih (fun m hm => ?_) hadds
    rcases mem_write hm with rfl | hm
    · exact ha
    · exact h m hm.1

/-- `{ id, url }` adds a peer on two of the paths. -/
theorem requested_pair (id peerUrl url : JsString) (ctx : Context) (clock : ℕ → ℕ) :
    requested node coerce ctx clock
        { method := .post, url
          body := .json (.obj [(js "id", .str id), (js "url", .str peerUrl)]) }
      = if url = js "/p2p/announce" ∨ url = js "/p2p/heartbeat" then
          [(id, { id := some (.str id), url := some (.str peerUrl), ts := clock 0 })]
        else [] := by
  set info : Json := .obj [(js "id", .str id), (js "url", .str peerUrl)] with hinfo
  have hversion : field info "version" = none := rfl
  have hparse : parseRequestBodyWithCrypto node coerce ctx (.json info)
      = .ok (.payload (some info) false) := parse_plain (by simp [hversion])
  have hlist : listOf clock (some info) = [] := rfl
  rw [requested, if_pos rfl, addedBy, hparse]
  dsimp only [addedAt]
  rw [hlist, ite_self]
  rfl

/-- What a heartbeat adds: the sender, under its id. -/
def Beat.peer (SELF_ID : ι → JsString) (m : Beat ι) (now : ℕ) : JsString × Peer :=
  (SELF_ID m.sender,
    { id := some (.str (SELF_ID m.sender)), url := some (.str SELF_URL), ts := now })

theorem requested_beat (SELF_ID : ι → JsString) (m : Beat ι) (ctx : Context) (clock : ℕ → ℕ) :
    requested node coerce ctx clock (m.request SELF_ID)
      = if m.url = js "/p2p/announce" ∨ m.url = js "/p2p/heartbeat" then [m.peer SELF_ID (clock 0)]
        else [] := requested_pair _ _ _ _ _

section After

variable {hosts : Hosts ι} {SELF_ID : ι → JsString} [DecidableEq ι] {N : Network ι} {e : Event ι}

theorem peers_after (i : ι) :
    ((N.after hosts SELF_ID node coerce e).node i).PEERS
      = (N.adds SELF_ID node coerce i e).foldl write (N.node i).PEERS := by
  have hhandle : ∀ (i' : ι) (ctx : Context) (clock : ℕ → ℕ) (req : Request),
      ((N.handle SELF_ID node coerce i' ctx clock req).node i).PEERS
        = (if i' = i then requested node coerce ctx clock req else []).foldl write
          (N.node i).PEERS := by
    intro i' ctx clock req
    by_cases h : i' = i
    · subst h
      simp [Network.handle, handle_fst]
    · simp [Network.handle, h, Function.update_of_ne (Ne.symm h)]
  cases e with
  | timer i' =>
    by_cases h : i' = i
    · subst h
      simp [Network.after, Network.adds]
    · simp [Network.after, Network.adds, Function.update_of_ne (Ne.symm h)]
  | beat i' loop =>
    rw [Network.after, Network.adds]
    split
    · by_cases h : i' = i
      · subst h
        simp
      · simp [Function.update_of_ne (Ne.symm h)]
    · rfl
  | deliver k ctx clock =>
    rw [Network.after, Network.adds]
    cases hk : N.sent[k]? with
    | none => rfl
    | some m =>
      refine (hhandle _ _ _ _).trans ?_
      by_cases h : m.receiver = i <;> simp [Option.filter, h]
  | lose k => rfl
  | client i' ctx clock req => exact hhandle i' ctx clock req

theorem loops_handle (i i' : ι) (ctx : Context) (clock : ℕ → ℕ) (req : Request) :
    ((N.handle SELF_ID node coerce i' ctx clock req).node i).loops = (N.node i).loops := by
  by_cases hi : i' = i
  · subst hi
    simp [Network.handle]
  · simp [Network.handle, Function.update_of_ne (Ne.symm hi)]

/-- A loop has been there, further from its end, or begins with all peers. -/
theorem loops_after {i : ι} {k : ℕ} {loop : List Peer}
    (h : ((N.after hosts SELF_ID node coerce e).node i).loops[k]? = some loop) :
    (∃ loop', (N.node i).loops[k]? = some loop' ∧ loop ⊆ loop') ∨
      loop = listPeers (N.node i).PEERS := by
  have hkeep : ∀ {N' : Network ι}, (N'.node i).loops = (N.node i).loops →
      (N'.node i).loops[k]? = some loop → ∃ loop', (N.node i).loops[k]? = some loop' ∧
        loop ⊆ loop' := fun hloops hk => ⟨loop, hloops ▸ hk, List.Subset.refl _⟩
  cases e with
  | timer i' =>
    by_cases hi : i' = i
    · subst hi
      simp only [Network.after, Function.update_self, List.getElem?_append,
        List.getElem?_singleton] at h
      split_ifs at h
      · exact .inl ⟨loop, h, List.Subset.refl _⟩
      · exact .inr (Option.some.inj h).symm
    · exact .inl (hkeep (by simp [Network.after, Function.update_of_ne (Ne.symm hi)]) h)
  | beat i' at' =>
    rw [Network.after] at h
    split at h
    · rename_i peer peers hat
      by_cases hi : i' = i
      · subst hi
        simp only [Function.update_self, List.getElem?_set] at h
        split_ifs at h with hk
        · subst hk
          obtain rfl := Option.some.inj h
          exact .inl ⟨_, hat, List.subset_cons_self _ _⟩
        · exact .inl ⟨loop, h, List.Subset.refl _⟩
      · simp only [Function.update_of_ne (Ne.symm hi)] at h
        exact .inl ⟨loop, h, List.Subset.refl _⟩
    · exact .inl ⟨loop, h, List.Subset.refl _⟩
  | deliver k' ctx clock =>
    rw [Network.after] at h
    split at h
    · exact .inl (hkeep (loops_handle _ _ _ _ _) h)
    · exact .inl ⟨loop, h, List.Subset.refl _⟩
  | lose k' => exact .inl ⟨loop, h, List.Subset.refl _⟩
  | client i' ctx clock req => exact .inl (hkeep (loops_handle _ _ _ _ _) h)

/-- A heartbeat is sent to a peer that a loop has before it. -/
theorem sent_after {m : Beat ι} (h : m ∈ (N.after hosts SELF_ID node coerce e).sent) :
    m ∈ N.sent ∨ ∃ (k : ℕ) (loop : List Peer), (N.node m.sender).loops[k]? = some loop ∧
      ∃ peer ∈ loop, target hosts m.sender peer = some (m.receiver, m.url) := by
  cases e with
  | timer i => exact .inl h
  | beat i loop =>
    rw [Network.after] at h
    split at h
    · rename_i peer peers hloop
      rcases List.mem_append.mp h with h | h
      · exact .inl h
      · obtain ⟨r, hr, rfl⟩ := Option.map_eq_some_iff.mp (Option.mem_toList.mp h)
        exact .inr ⟨loop, peer :: peers, hloop, peer, List.mem_cons_self, hr⟩
    · exact .inl h
  | deliver k ctx clock =>
    rw [Network.after] at h
    split at h
    · exact .inl (List.mem_of_mem_eraseIdx h)
    · exact .inl h
  | lose k => exact .inl (List.mem_of_mem_eraseIdx h)
  | client i ctx clock req => exact .inl h

/-- What is added to a table: something that a client gives, or the sender of a heartbeat. -/
theorem mem_adds {i : ι} {a : JsString × Peer} (ha : a ∈ N.adds SELF_ID node coerce i e) :
    Given node coerce [e] i a ∨ ∃ m ∈ N.sent, m.receiver = i ∧ ∃ now, a = m.peer SELF_ID now := by
  cases e with
  | deliver k ctx clock =>
    obtain ⟨m, hm, ha⟩ := List.mem_flatMap.mp ha
    obtain ⟨hm, hreceiver⟩ := Option.filter_eq_some_iff.mp (Option.mem_toList.mp hm)
    rw [requested_beat] at ha
    split_ifs at ha
    · exact .inr ⟨m, List.mem_of_getElem? hm, of_decide_eq_true hreceiver, clock 0,
        List.mem_singleton.mp ha⟩
    · cases ha
  | client i' ctx clock req =>
    rw [Network.adds] at ha
    split_ifs at ha with hi
    · subst hi
      exact .inl ⟨ctx, clock, req, List.mem_cons_self, ha⟩
    · cases ha
  | _ => cases ha

end After

/-! ## Who hears of whom -/

section Runs

variable {hosts : Hosts ι} {SELF_ID : ι → JsString} {events later : List (Event ι)}

theorem Given.mono {i : ι} {a : JsString × Peer} (h : Given node coerce events i a)
    (hsub : events ⊆ later) : Given node coerce later i a := by
  obtain ⟨ctx, clock, req, hmem, ha⟩ := h
  exact ⟨ctx, clock, req, hsub hmem, ha⟩

theorem Introduced.mono {i j : ι} (h : Introduced hosts node coerce events j i)
    (hsub : events ⊆ later) : Introduced hosts node coerce later j i := by
  obtain ⟨a, hgiven, ha⟩ := h
  exact ⟨a, hgiven.mono hsub, ha⟩

theorem Known.mono {i : ι} {peer : Peer} (h : Known hosts SELF_ID node coerce events i peer)
    (hsub : events ⊆ later) : Known hosts SELF_ID node coerce later i peer := by
  rcases h with ⟨key, hgiven⟩ | ⟨j, hid, hurl, hj⟩
  · exact .inl ⟨key, hgiven.mono hsub⟩
  · exact .inr ⟨j, hid, hurl, hj.imp_right fun hintroduced => hintroduced.mono hsub⟩

/-- `SELF_URL` leads back to the host. -/
theorem target_self {i : ι} {peer : Peer} (h : peer.url = some (.str SELF_URL)) :
    target hosts i peer = some (i, js "/p2p/heartbeat") := by
  rw [target, h]
  exact hosts.loopback i

theorem eq_of_reaches_self {i j : ι} {peer : Peer} (h : peer.url = some (.str SELF_URL))
    (hreaches : Reaches hosts i peer j) : j = i := by
  obtain ⟨url, htarget⟩ := hreaches
  rw [target_self h] at htarget
  exact (Prod.mk.inj (Option.some.inj htarget)).1.symm

/-- A heartbeat to a peer that is known gets to the node itself, or to one of which a client
has given the address. -/
theorem Known.reaches {i j : ι} {peer : Peer} (h : Known hosts SELF_ID node coerce events i peer)
    (hreaches : Reaches hosts i peer j) : i = j ∨ Introduced hosts node coerce events i j := by
  rcases h with ⟨key, hgiven⟩ | ⟨_, -, hurl, -⟩
  · exact .inr ⟨(key, peer), hgiven, hreaches⟩
  · exact .inl (eq_of_reaches_self hurl hreaches).symm

/-- What holds in every run: the peers are known, and the heartbeats are sent to nodes whose
address the sender was given. -/
structure Introductions (hosts : Hosts ι) (SELF_ID : ι → JsString) (node : NodeSign)
    (coerce : Coercions) (events : List (Event ι)) (N : Network ι) : Prop where
  peers : ∀ i, ∀ m ∈ (N.node i).PEERS.own.members, Known hosts SELF_ID node coerce events i m.2
  loops : ∀ i (k : ℕ) loop, (N.node i).loops[k]? = some loop →
    ∀ peer ∈ loop, Known hosts SELF_ID node coerce events i peer
  sent : ∀ m ∈ N.sent, m.sender = m.receiver ∨
    Introduced hosts node coerce events m.sender m.receiver

variable [DecidableEq ι]

theorem Introductions.after {N : Network ι} (h : Introductions hosts SELF_ID node coerce events N)
    (e : Event ι) : Introductions hosts SELF_ID node coerce (events ++ [e])
      (N.after hosts SELF_ID node coerce e) := by
  have hleft : events ⊆ events ++ [e] := List.subset_append_left _ _
  constructor
  · intro i
    rw [peers_after]
    refine forall_foldl_write (fun m hm => (h.peers i m hm).mono hleft) fun a ha => ?_
    rcases mem_adds ha with hgiven | ⟨m, hm, rfl, now, rfl⟩
    · exact .inl ⟨a.1, hgiven.mono (List.subset_append_right _ _)⟩
    · exact .inr ⟨m.sender, rfl, rfl, (h.sent m hm).imp_right fun hto => hto.mono hleft⟩
  · intro i k loop hk peer hpeer
    rcases loops_after hk with ⟨loop', hloop', hsub⟩ | rfl
    · exact (h.loops i k loop' hloop' peer (hsub hpeer)).mono hleft
    · obtain ⟨m, hm, rfl⟩ := List.mem_map.mp hpeer
      exact (h.peers i m hm).mono hleft
  · intro m hm
    rcases sent_after hm with hm | ⟨k, loop, hk, peer, hpeer, htarget⟩
    · exact (h.sent m hm).imp_right fun hto => hto.mono hleft
    · exact ((h.loops _ k loop hk peer hpeer).mono hleft).reaches ⟨m.url, htarget⟩

theorem introductions_run (events : List (Event ι)) :
    Introductions hosts SELF_ID node coerce events
      (Network.run hosts SELF_ID node coerce .initial events) := by
  induction events using List.reverseRecOn with
  | nil =>
    constructor
    · intro i m hm
      cases hm
    · intro i k loop hk
      cases hk
    · intro m hm
      cases hm
  | append_singleton events e ih =>
    have hrun : Network.run hosts SELF_ID node coerce .initial (events ++ [e])
        = (Network.run hosts SELF_ID node coerce .initial events).after hosts SELF_ID node
          coerce e :=
      List.foldl_concat _ _ _ _
    rw [hrun]
    exact ih.after e

/-- **Nobody is heard of who was not introduced.**  In every run, a peer that a node lists is
one that a client has given it, the node itself, or a node to which a client has given an
address of this one.  And a heartbeat goes back to its sender, or to a node whose address a
client has given the sender. -/
theorem listed_introduced (hosts : Hosts ι) (SELF_ID : ι → JsString) (node : NodeSign)
    (coerce : Coercions) (events : List (Event ι)) :
    (∀ i, ∀ peer ∈ listPeers ((Network.run hosts SELF_ID node coerce .initial events).node i).PEERS,
        Known hosts SELF_ID node coerce events i peer) ∧
      ∀ m ∈ (Network.run hosts SELF_ID node coerce .initial events).sent,
        m.sender = m.receiver ∨ Introduced hosts node coerce events m.sender m.receiver := by
  have hrun : Introductions hosts SELF_ID node coerce events _ := introductions_run events
  refine ⟨fun i peer hpeer => ?_, hrun.sent⟩
  obtain ⟨m, hm, rfl⟩ := List.mem_map.mp hpeer
  exact hrun.peers i m hm

/-! ## One way -/

/-- The peers in the table meet a condition, and so do those of the loops from the `n`th on. -/
structure AllMeet (P : JsString × Peer → Prop) (n : ℕ) (s : Node) : Prop where
  peers : ∀ m ∈ s.PEERS.own.members, P m
  loops : ∀ k ≥ n, ∀ loop, s.loops[k]? = some loop → ∀ peer ∈ loop, ∃ key, P (key, peer)

/-- The condition is kept where it is met by what clients give a node and by what nodes say of
themselves. -/
theorem AllMeet.run {P : JsString × Peer → Prop} {n : ℕ} {N : Network ι} {i : ι}
    (h : AllMeet P n (N.node i)) (hgiven : ∀ a, Given node coerce events i a → P a)
    (hself : ∀ (m : Beat ι) (now : ℕ), P (m.peer SELF_ID now)) :
    AllMeet P n ((N.run hosts SELF_ID node coerce events).node i) := by
  induction events generalizing N with
  | nil => exact h
  | cons e events ih =>
    have hafter : AllMeet P n ((N.after hosts SELF_ID node coerce e).node i) := by
      constructor
      · rw [peers_after]
        refine forall_foldl_write h.peers fun a ha => ?_
        rcases mem_adds ha with ha | ⟨m, -, -, now, rfl⟩
        · exact hgiven a (ha.mono (by simp))
        · exact hself m now
      · intro k hk loop hloop peer hpeer
        rcases loops_after hloop with ⟨loop', hloop', hsub⟩ | rfl
        · exact h.loops k hk loop' hloop' peer (hsub hpeer)
        · obtain ⟨m, hm, rfl⟩ := List.mem_map.mp hpeer
          exact ⟨m.1, h.peers m hm⟩
    exact ih hafter fun a ha => hgiven a (ha.mono (List.subset_cons_self _ _))

/-- A heartbeat that is handled replaces the peer whose name it has. -/
theorem members_deliver {N : Network ι} {k : ℕ} {m : Beat ι} (hm : N.sent[k]? = some m)
    (hurl : m.url = js "/p2p/heartbeat") (ctx : Context) (clock : ℕ → ℕ) {p : JsString × Peer}
    (hp : p ∈ ((N.after hosts SELF_ID node coerce (.deliver k ctx clock)).node
      m.receiver).PEERS.own.members) :
    p = m.peer SELF_ID (clock 0) ∨
      p ∈ (N.node m.receiver).PEERS.own.members ∧ p.1 ≠ SELF_ID m.sender := by
  have hadds : N.adds SELF_ID node coerce m.receiver (.deliver k ctx clock)
      = [m.peer SELF_ID (clock 0)] := by
    rw [Network.adds, hm]
    simp [Option.filter, requested_beat, hurl]
  rw [peers_after, hadds] at hp
  exact mem_write hp

theorem loops_deliver (N : Network ι) (i : ι) (k : ℕ) (ctx : Context) (clock : ℕ → ℕ) :
    ((N.after hosts SELF_ID node coerce (.deliver k ctx clock)).node i).loops
      = (N.node i).loops := by
  rw [Network.after]
  split
  · exact loops_handle _ _ _ _ _
  · rfl

/-- **Heartbeats go one way.**  Once a node has handled a heartbeat of another, which clients
had named to it only by its id, it lists nobody and begins no loop by which a heartbeat gets to
the other, until a client gives it an address of the other again. -/
theorem one_way {before later : List (Event ι)} {k : ℕ} {m : Beat ι}
    (hm : (Network.run hosts SELF_ID node coerce .initial before).sent[k]? = some m)
    (hurl : m.url = js "/p2p/heartbeat") (hne : m.sender ≠ m.receiver) (ctx : Context)
    (clock : ℕ → ℕ)
    (hbefore : ∀ a, Given node coerce before m.receiver a →
      Reaches hosts m.receiver a.2 m.sender → a.1 = SELF_ID m.sender)
    (hlater : ∀ a, Given node coerce later m.receiver a →
      ¬ Reaches hosts m.receiver a.2 m.sender) :
    (∀ peer ∈ listPeers ((Network.run hosts SELF_ID node coerce .initial
          (before ++ .deliver k ctx clock :: later)).node m.receiver).PEERS,
        ¬ Reaches hosts m.receiver peer m.sender) ∧
      ∀ n ≥ ((Network.run hosts SELF_ID node coerce .initial before).node m.receiver).loops.length,
        ∀ loop, ((Network.run hosts SELF_ID node coerce .initial
            (before ++ .deliver k ctx clock :: later)).node m.receiver).loops[n]? = some loop →
          ∀ peer ∈ loop, ¬ Reaches hosts m.receiver peer m.sender := by
  have hself : ∀ (m' : Beat ι) (now : ℕ),
      ¬ Reaches hosts m.receiver (m'.peer SELF_ID now).2 m.sender :=
    fun m' now hreaches => hne (eq_of_reaches_self rfl hreaches)
  set N := Network.run hosts SELF_ID node coerce .initial before with hN
  have hnamed : AllMeet (fun a => Reaches hosts m.receiver a.2 m.sender → a.1 = SELF_ID m.sender) 0
      (N.node m.receiver) := by
    refine AllMeet.run ⟨nofun, nofun⟩ hbefore fun m' now hreaches => ?_
    exact absurd hreaches (hself m' now)
  have hdelivered : AllMeet (fun a => ¬ Reaches hosts m.receiver a.2 m.sender)
      (N.node m.receiver).loops.length
      ((N.after hosts SELF_ID node coerce (.deliver k ctx clock)).node m.receiver) := by
    constructor
    · intro p hp
      rcases members_deliver hm hurl ctx clock hp with rfl | ⟨hold, hname⟩
      · exact hself m _
      · exact fun hreaches => hname (hnamed.peers p hold hreaches)
    · intro n hn loop hloop
      rw [loops_deliver, List.getElem?_eq_none hn] at hloop
      cases hloop
  have hrun : Network.run hosts SELF_ID node coerce .initial
        (before ++ .deliver k ctx clock :: later)
      = (N.after hosts SELF_ID node coerce (.deliver k ctx clock)).run hosts SELF_ID node coerce
        later := List.foldl_append
  rw [hrun]
  have hend : AllMeet _ _ ((Network.run hosts SELF_ID node coerce _ later).node m.receiver) :=
    hdelivered.run hlater hself
  refine ⟨fun peer hpeer => ?_, fun n hn loop hloop peer hpeer => ?_⟩
  · obtain ⟨p, hp, rfl⟩ := List.mem_map.mp hpeer
    exact hend.peers p hp
  · obtain ⟨key, hkey⟩ := hend.loops n hn loop hloop peer hpeer
    exact hkey

end Runs

/-! ## Two nodes -/

def twoNames (i : Fin 2) : JsString := if i = 0 then js "node-a" else js "node-b"

def twoUrls (i : Fin 2) : JsString :=
  if i = 0 then js "http://node-a:3015" else js "http://node-b:3015"

def twoHosts : Hosts (Fin 2) where
  reach i url :=
    ([(SELF_URL, i), (twoUrls 0, 0), (twoUrls 1, 1)].find? fun m =>
      m.1 ++ js "/p2p/heartbeat" = url).map fun m => (m.2, js "/p2p/heartbeat")
  loopback i := by simp

/-- A client announces the other node. -/
def announced (i : Fin 2) : Event (Fin 2) :=
  .client i { knownNodes := .empty, clock := 7 } (fun _ => 7)
    { method := .post, url := js "/p2p/announce"
      body := .json (.obj
        [(js "id", .str (twoNames (1 - i))), (js "url", .str (twoUrls (1 - i)))]) }

/-- Both are announced to each other, and the first sends a heartbeat. -/
def twoEvents : List (Event (Fin 2)) := [announced 0, announced 1, .timer 0, .beat 0 0]

def twoRun (events : List (Event (Fin 2))) : Network (Fin 2) :=
  Network.run twoHosts twoNames (Tabulated.sign [] []) SignedPacket.knownCoercions .initial events

theorem given_twoEvents {i : Fin 2} {a : JsString × Peer}
    (h : Given (Tabulated.sign [] []) SignedPacket.knownCoercions twoEvents i a) :
    a.1 = twoNames (1 - i) := by
  obtain ⟨ctx, clock, req, hmem, ha⟩ := h
  have hevent : .client i ctx clock req = announced i := by
    simp only [twoEvents, List.mem_cons, List.not_mem_nil, reduceCtorEq, or_false] at hmem
    rcases hmem with hmem | hmem
    · obtain rfl : i = 0 := (Event.client.inj hmem).1
      exact hmem
    · obtain rfl : i = 1 := (Event.client.inj hmem).1
      exact hmem
  obtain ⟨-, rfl, rfl, rfl⟩ := Event.client.inj hevent
  rw [requested_pair, if_pos (.inl rfl), List.mem_singleton] at ha
  rw [ha]

/-- The second node has handled the heartbeat of the first. -/
def twoDelivered : Event (Fin 2) := .deliver 0 { knownNodes := .empty, clock := 8 } fun _ => 8

/-- Then the first still reaches the second, and the second no longer the first. -/
theorem one_way_known :
    (∃ peer ∈ listPeers ((twoRun twoEvents).node 1).PEERS, Reaches twoHosts 1 peer 0) ∧
      (∃ peer ∈ listPeers ((twoRun (twoEvents ++ [twoDelivered])).node 0).PEERS,
        Reaches twoHosts 0 peer 1) ∧
      ∀ peer ∈ listPeers ((twoRun (twoEvents ++ [twoDelivered])).node 1).PEERS,
        ¬ Reaches twoHosts 1 peer 0 := by
  refine ⟨?_, ?_, ?_⟩
  · exact ⟨_, List.mem_cons_self, js "/p2p/heartbeat", by decide⟩
  · exact ⟨_, List.mem_cons_self, js "/p2p/heartbeat", by decide⟩
  · have hm : (twoRun twoEvents).sent[0]? = some ⟨0, 1, js "/p2p/heartbeat"⟩ := by rfl
    refine (@one_way (Tabulated.sign [] []) SignedPacket.knownCoercions _ twoHosts twoNames _
      twoEvents [] _ _ hm rfl (by decide) _ _ (fun a ha _ => given_twoEvents ha) fun a ha => ?_).1
    obtain ⟨_, _, _, hmem, -⟩ := ha
    cases hmem

end NewZone.Services.Peers
