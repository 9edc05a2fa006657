import NewZone.Crypto.ChannelRuns

/-!
# Messages that come again

The receiver of a channel counts the messages that it opens, and compares the
counter with nothing.  So a message is opened as often as it is delivered:
`accepted_once_iff` says for which schedules of the network that is at most
once.

A moment is a call with the pair of channels that it finds, so that the result
of the call can be read off a history of moments.
-/

namespace NewZone.Crypto.SecureChannel

open NewZone.Js NewZone.Runs NewZone.ExceptBind

/-- A call, and the pair before it. -/
structure Moment where
  pair : Pair
  event : Event

/-- One call, observed. -/
def Observed (node : NodeHash) (cipher : NodeCipher) (p : Pair) (l : Moment)
    (p' : Pair) : Prop :=
  l.pair = p ∧ p' = after node cipher p l.event

/-- The call without the pair. -/
def Moment.call (cipher : NodeCipher) (l : Moment) : Call :=
  { event := l.event, sealedUnder := sealsUnder cipher l.pair l.event }

variable {node : NodeHash} {cipher : NodeCipher} {secret : Bytes}
  {baseContext hash : JsString} {S : Schedule node secret baseContext hash}

theorem run_of_observed {p p' : Pair} {ls : List Moment}
    (h : Run (Observed node cipher) p ls p') :
    Run (Step node cipher) p (ls.map (Moment.call cipher)) p' := by
  induction h with
  | nil => exact .nil _
  | snoc _ hstep ih =>
    rw [List.map_append]
    refine .snoc ih ⟨?_, hstep.2⟩
    rw [← hstep.1]
    rfl

/-- Both ends are coherent at every moment of a run. -/
theorem tracks_of_mem {p' : Pair} {ls : List Moment}
    (hrun : Run (Observed node cipher) S.fresh ls p') {l : Moment} (hl : l ∈ ls)
    (role : Role) :
    Coherent S role (l.pair role) ∧
      (l.pair role).epoch ≤ rekeys (ls.map (Moment.call cipher)) := by
  obtain ⟨before, later, rfl⟩ := List.append_of_mem hl
  obtain ⟨q, hq, hlater⟩ := hrun.split
  obtain ⟨t, hstep, -⟩ := hlater.of_cons
  obtain ⟨hcoh, hepoch⟩ := tracks_of_run (run_of_observed hq) role
  rw [hstep.1, hepoch]
  refine ⟨hcoh, (min_le_left _ _).trans ?_⟩
  have hprefix : before.map (Moment.call cipher)
      <+: (before ++ l :: later).map (Moment.call cipher) := by
    rw [List.map_append]
    exact List.prefix_append _ _
  exact (rekeysBy_mono role hprefix).trans (rekeysBy_le_rekeys role _)

/-! ## Messages -/

/-- The call seals the message, with the associated data `a`. -/
def Moment.Sends (cipher : NodeCipher) (l : Moment) (role : Role) (a : Bytes)
    (m : Message) : Prop :=
  ∃ plaintext aad, l.event = .encrypt role plaintext aad ∧ toBytes aad = .ok a ∧
    (encryptToPeer cipher (l.pair role) plaintext aad).1 = .ok m

/-- The call brings the bytes of the message to `role`, with the associated data
`a`. -/
def Moment.Brings (l : Moment) (role : Role) (a : Bytes) (m : Message) : Prop :=
  ∃ nonce ciphertext tag aad, l.event = .decrypt role nonce ciphertext tag aad ∧
    toBytes nonce = .ok m.nonce ∧ toBytes ciphertext = .ok m.ciphertext ∧
    toBytes tag = .ok m.tag ∧ toBytes aad = .ok a

/-- The call opens what it has been given. -/
def Moment.Opens (cipher : NodeCipher) (l : Moment) : Prop :=
  ∃ role nonce ciphertext tag aad pt,
    l.event = .decrypt role nonce ciphertext tag aad ∧
    (decryptFromPeer cipher (l.pair role) nonce ciphertext tag aad).1
      = .ok (some pt)

/-- The call opens the message. -/
def Moment.Accepts (cipher : NodeCipher) (l : Moment) (role : Role) (m : Message) :
    Prop :=
  (∃ a, l.Brings role a m) ∧ l.Opens cipher

/-- The same bytes. -/
def Message.Same (m m' : Message) : Prop :=
  m.nonce = m'.nonce ∧ m.ciphertext = m'.ciphertext ∧ m.tag = m'.tag

/-- The call brings the message to the peer of `role` in the epoch in which
`role` has sealed these bytes, and with the associated data. -/
def Moment.Delivers (cipher : NodeCipher) (ls : List Moment) (l : Moment)
    (role : Role) (m : Message) : Prop :=
  ∃ a, l.Brings role.peer a m ∧
    ∃ s ∈ ls, ∃ m', s.Sends cipher role a m' ∧ m'.Same m ∧
      m'.epoch = (l.pair role.peer).epoch

/-- What opens has been sealed in the run, under the same key and nonce and with
the same associated data. -/
def Authentic (cipher : NodeCipher) (ls : List Moment) : Prop :=
  ∀ l ∈ ls, ∀ role a m, l.Brings role a m → l.Opens cipher →
    ∃ s ∈ ls, ∃ sender m', s.Sends cipher sender a m' ∧ m'.Same m ∧
      (s.pair sender).sendKey = (l.pair role).recvKey

/-- Every message that is sent is opened by the peer at most once. -/
def AcceptedOnce (cipher : NodeCipher) (ls : List Moment) : Prop :=
  ∀ s ∈ ls, ∀ role a m, s.Sends cipher role a m →
    AtMostOne (fun l => l.Accepts cipher role.peer m) ls

/-- Every message that is sent is delivered at most once in the epoch in which
it was sealed, and with its associated data. -/
def DeliveredOnce (cipher : NodeCipher) (ls : List Moment) : Prop :=
  ∀ s ∈ ls, ∀ role a m, s.Sends cipher role a m →
    AtMostOne (fun l => l.Delivers cipher ls role m) ls

/-! ## What is accepted -/

/-- `decryptFromPeer` looks at the bytes of its arguments only. -/
theorem decryptFromPeer_congr {c : SecureChannel}
    {nonce ciphertext tag aad nonce' ciphertext' tag' aad' : Input}
    (hnonce : toBytes nonce = toBytes nonce')
    (hciphertext : toBytes ciphertext = toBytes ciphertext')
    (htag : toBytes tag = toBytes tag') (haad : toBytes aad = toBytes aad') :
    decryptFromPeer cipher c nonce ciphertext tag aad
      = decryptFromPeer cipher c nonce' ciphertext' tag' aad' := by
  simp only [decryptFromPeer, openWith, hnonce, hciphertext, htag, haad]

/-- A message carries the epoch in which it was sealed. -/
theorem epoch_of_encryptToPeer {c : SecureChannel} {plaintext aad : Input}
    {m : Message} (h : (encryptToPeer cipher c plaintext aad).1 = .ok m) :
    m.epoch = c.epoch := by
  unfold encryptToPeer at h
  split at h
  · cases h
  · cases h
  · obtain ⟨nonce, -, h⟩ := bind_eq_ok.mp h
    obtain ⟨out, -, h⟩ := bind_eq_ok.mp h
    obtain rfl := Except.ok.inj h
    rfl

theorem exists_toBytes {input : Input} (h : input ≠ .other) :
    ∃ b, toBytes input = .ok b := by
  cases input with
  | other => exact absurd rfl h
  | _ => exact ⟨_, rfl⟩

theorem Role.peer_peer (role : Role) : role.peer.peer = role := by
  cases role <;> rfl

/-- In a run, a call opens a message exactly when the message is delivered. -/
theorem accepts_iff (hcipher : cipher.Lawful) {p' : Pair} {ls : List Moment}
    (hrun : Run (Observed node cipher) S.fresh ls p')
    (hkeys : DistinctKeys node secret baseContext hash
      (rekeys (ls.map (Moment.call cipher))))
    (hauth : Authentic cipher ls) {l : Moment} (hl : l ∈ ls) (role : Role)
    (m : Message) :
    l.Accepts cipher role.peer m ↔ l.Delivers cipher ls role m := by
  obtain ⟨hcoh, hle⟩ := tracks_of_mem hrun hl role.peer
  constructor
  · rintro ⟨⟨a, hbrings⟩, hopens⟩
    obtain ⟨s, hs, sender, m', hsends, hsame, hkey⟩ := hauth l hl _ a m hbrings hopens
    obtain ⟨hscoh, hsle⟩ := tracks_of_mem hrun hs sender
    rw [hscoh.sendKey, hcoh.recvKey, Role.peer_peer] at hkey
    -- one key belongs to one epoch and one direction
    obtain ⟨hepoch, rfl⟩ : (s.pair sender).epoch = (l.pair role.peer).epoch ∧
        sender = role := by
      by_contra hne
      exact hkeys _ hsle _ hle sender role
        (fun hctx => hne (directionContext_inj.mp hctx)) _ _
        (S.derived _ sender) (S.derived _ role) hkey
    obtain ⟨plaintext, aad, -, -, hm'⟩ := id hsends
    exact ⟨a, hbrings, s, hs, m', hsends, hsame,
      (epoch_of_encryptToPeer hm').trans hepoch⟩
  · rintro ⟨a, hbrings, s, hs, m', ⟨plaintext, aad, -, haad, hm'⟩, hsame, hepoch⟩
    refine ⟨⟨a, hbrings⟩, ?_⟩
    obtain ⟨nonce, ciphertext, tag, aad', hevent, hnonce, hciphertext, htag, haad'⟩ :=
      hbrings
    obtain ⟨hscoh, -⟩ := tracks_of_mem hrun hs role
    obtain ⟨-, hplaintext, -, -⟩ := hscoh.of_encryptToPeer_ok hm'
    obtain ⟨pt, hpt⟩ := exists_toBytes hplaintext
    obtain ⟨m'', hm'', hopened⟩ := opened hcipher hscoh hcoh
      (hepoch.symm.trans (epoch_of_encryptToPeer hm')) hpt haad
    obtain rfl := Except.ok.inj (hm'.symm.trans hm'')
    refine ⟨role.peer, nonce, ciphertext, tag, aad', pt, hevent, ?_⟩
    rw [← hopened]
    refine congrArg Prod.fst (decryptFromPeer_congr ?_ ?_ ?_ ?_)
    · rw [hnonce, hsame.1]
      rfl
    · rw [hciphertext, hsame.2.1]
      rfl
    · rw [htag, hsame.2.2]
      rfl
    · rw [haad', haad]

/-- **When a message is opened at most once.**  In every run of a pair, each
message that is sent is opened by the peer at most once, exactly when each is
delivered at most once in the epoch in which it was sealed, and with its
associated data. -/
theorem accepted_once_iff {sharedSecret : Input} {hash : Option JsString}
    {p p' : Pair} {ls : List Moment} (hcipher : cipher.Lawful)
    (hsecret : toBytes sharedSecret = .ok secret)
    (hnew : ∀ role, new node (paramsOf sharedSecret baseContext hash role)
      = .ok (p role))
    (hkeys : DistinctKeys node secret baseContext (hash.getD (js "sha512"))
      (rekeys (ls.map (Moment.call cipher))))
    (hrun : Run (Observed node cipher) p ls p') (hauth : Authentic cipher ls) :
    AcceptedOnce cipher ls ↔ DeliveredOnce cipher ls := by
  obtain ⟨S, rfl⟩ := exists_fresh hsecret hnew
  have haccepts := @accepts_iff node cipher secret baseContext _ S hcipher p' ls hrun
    hkeys hauth
  refine forall₂_congr fun s hs => forall₃_congr fun role a m =>
    forall_congr' fun _ => ?_
  exact atMostOne_congr fun l hl => haccepts hl role m

/-! ## A message of the known pair -/

/-- The moments of a list of calls, one after the other. -/
def history (node : NodeHash) (cipher : NodeCipher) (p : Pair) :
    List Event → List Moment
  | [] => []
  | e :: es => ⟨p, e⟩ :: history node cipher (after node cipher p e) es

theorem run_history (p : Pair) (es : List Event) :
    Run (Observed node cipher) p (history node cipher p es)
      (es.foldl (after node cipher) p) := by
  induction es generalizing p with
  | nil => exact .nil p
  | cons e es ih => exact .cons ⟨rfl, rfl⟩ (ih _)

theorem map_event_history (p : Pair) (es : List Event) :
    (history node cipher p es).map Moment.event = es := by
  induction es generalizing p with
  | nil => rfl
  | cons e es ih => rw [history, List.map_cons, ih]

def sendHi : Event := .encrypt .alice (.text (js "hi")) .nullish

/-- The network hands the message to Bob. -/
def handOver (m : Message) : Event :=
  .decrypt .bob (.bytes m.nonce) (.bytes m.ciphertext) (.bytes m.tag) .nullish

theorem brings_handOver {l : Moment} {m : Message} (h : l.event = handOver m) :
    l.Brings .bob [] m :=
  ⟨_, _, _, _, h, rfl, rfl, rfl, rfl⟩

/-- Nothing else is brought by these calls. -/
theorem of_brings {l : Moment} {m m' : Message} {role : Role} {a : Bytes}
    (h : l.event = sendHi ∨ l.event = handOver m) (hbrings : l.Brings role a m') :
    l.event = handOver m ∧ role = .bob ∧ a = [] ∧ m.Same m' := by
  obtain ⟨nonce, ciphertext, tag, aad, hevent, hnonce, hciphertext, htag, haad⟩ :=
    hbrings
  rcases h with h | h
  · rw [h] at hevent
    cases hevent
  · obtain ⟨rfl, rfl, rfl, rfl, rfl⟩ := Event.decrypt.inj (h.symm.trans hevent)
    exact ⟨h, rfl, (Except.ok.inj haad).symm, Except.ok.inj hnonce,
      Except.ok.inj hciphertext, Except.ok.inj htag⟩

/-- Alice sends a message and the network hands it over `n` times. -/
theorem handed_over (cipher : NodeCipher) (S : Schedule node secret baseContext hash)
    (n : ℕ) :
    ∃ m, let ls := history node cipher S.fresh (sendHi :: List.replicate n (handOver m))
      (Moment.mk S.fresh sendHi).Sends cipher .alice [] m ∧ Authentic cipher ls ∧
        rekeys (ls.map (Moment.call cipher)) = 0 ∧
        ∀ l ∈ ls, l.event = handOver m → l.Delivers cipher ls .alice m := by
  have hpt : toBytes (.text (js "hi")) = .ok (utf8 (js "hi")) := rfl
  obtain ⟨out, -, hcall⟩ := (S.coherent_fresh .alice).encryptToPeer cipher hpt
    (rfl : toBytes .nullish = .ok [])
  obtain ⟨m, hm⟩ : ∃ m, (encryptToPeer cipher (S.fresh .alice) (.text (js "hi"))
      .nullish).1 = .ok m := ⟨_, congrArg Prod.fst hcall⟩
  refine ⟨m, ?_⟩
  intro ls
  have hrun : Run (Observed node cipher) S.fresh ls _ := run_history _ _
  have hsends : (Moment.mk S.fresh sendHi).Sends cipher .alice [] m :=
    ⟨_, _, rfl, rfl, hm⟩
  have hfirst : Moment.mk S.fresh sendHi ∈ ls := List.mem_cons_self
  have hevents : ∀ l ∈ ls, l.event = sendHi ∨ l.event = handOver m := by
    intro l hl
    have hmem : l.event ∈ sendHi :: List.replicate n (handOver m) := by
      rw [← @map_event_history node cipher S.fresh (sendHi :: List.replicate n (handOver m))]
      exact List.mem_map.mpr ⟨l, hl, rfl⟩
    exact (List.mem_cons.mp hmem).imp_right List.eq_of_mem_replicate
  have hrekeys : rekeys (ls.map (Moment.call cipher)) = 0 := by
    have hnone : ∀ role, rekeysBy role (ls.map (Moment.call cipher)) = 0 := by
      intro role
      apply List.countP_eq_zero.mpr
      intro call hcall
      obtain ⟨l, hl, rfl⟩ := List.mem_map.mp hcall
      rcases hevents l hl with h | h <;>
        simp [Call.rekeys, Moment.call, h, sendHi, handOver]
    rw [rekeys, hnone, hnone]
  have hepoch : ∀ l ∈ ls, ∀ role, (l.pair role).epoch = 0 := fun l hl role =>
    Nat.le_zero.mp (hrekeys ▸ (tracks_of_mem hrun hl role).2)
  refine ⟨hsends, ?_, hrekeys, ?_⟩
  · intro l hl role a m' hbrings _
    obtain ⟨-, rfl, rfl, hsame⟩ := of_brings (hevents l hl) hbrings
    refine ⟨_, hfirst, .alice, m, hsends, hsame, ?_⟩
    rw [(tracks_of_mem hrun hl .bob).1.recvKey, hepoch l hl]
    rfl
  · intro l hl hevent
    refine ⟨[], brings_handOver hevent, _, hfirst, m, hsends, ⟨rfl, rfl, rfl⟩, ?_⟩
    rw [epoch_of_encryptToPeer hm, hepoch l hl]
    rfl

/-- The known pair, and a message of Alice that is handed over once. -/
theorem accepted_once_known :
    ∃ p : Pair,
      (∀ role, new knownHash (paramsOf (.bytes knownSecret) knownContext none
        role) = .ok (p role)) ∧
      ∃ m p' ls, Run (Observed knownHash (Tabulated.cipher knownMessage)) p ls p' ∧
        (Moment.mk p sendHi).Sends (Tabulated.cipher knownMessage) .alice [] m ∧
        ls.map Moment.event = [sendHi, handOver m] ∧
        AcceptedOnce (Tabulated.cipher knownMessage) ls := by
  obtain ⟨S⟩ := exists_schedule knownHash (by decide : knownSecret ≠ [])
    knownContext (by decide : Hkdf.SupportedHash (js "sha512"))
  have hnew := @new_ok knownHash _ _ _ none S (rfl : toBytes (.bytes knownSecret) = _)
    rfl (by decide)
  obtain ⟨m, hsends, hauth, hrekeys, -⟩ :=
    handed_over (Tabulated.cipher knownMessage) S 1
  refine ⟨S.fresh, hnew, m, _, _, run_history _ _, hsends, map_event_history _ _, ?_⟩
  refine (accepted_once_iff (Tabulated.lawful_cipher knownMessage)
    (rfl : toBytes (.bytes knownSecret) = .ok knownSecret) hnew ?_ (run_history _ _)
    hauth).mpr ?_
  · rw [hrekeys]
    exact distinctKeys_known
  · intro s hs role a m' _
    -- the first of the two calls brings nothing
    refine List.pairwise_pair.mpr fun h => ?_
    obtain ⟨a, ⟨nonce, ciphertext, tag, aad, hevent, -⟩, -⟩ := h.1
    cases hevent

/-- **A message is opened twice.**  The network of the known pair hands the first
message over again. -/
theorem message_replayed :
    ∃ p : Pair,
      (∀ role, new knownHash (paramsOf (.bytes knownSecret) knownContext none
        role) = .ok (p role)) ∧
      ∃ ls p', Run (Observed knownHash (Tabulated.cipher knownMessage)) p ls p' ∧
        DistinctKeys knownHash knownSecret knownContext (js "sha512")
          (rekeys (ls.map (Moment.call (Tabulated.cipher knownMessage)))) ∧
        Authentic (Tabulated.cipher knownMessage) ls ∧
        ¬ AcceptedOnce (Tabulated.cipher knownMessage) ls := by
  obtain ⟨S⟩ := exists_schedule knownHash (by decide : knownSecret ≠ [])
    knownContext (by decide : Hkdf.SupportedHash (js "sha512"))
  have hnew := @new_ok knownHash _ _ _ none S (rfl : toBytes (.bytes knownSecret) = _)
    rfl (by decide)
  obtain ⟨m, hsends, hauth, hrekeys, hdelivers⟩ :=
    handed_over (Tabulated.cipher knownMessage) S 2
  have hkeys : DistinctKeys knownHash knownSecret knownContext (js "sha512") (rekeys
      ((history knownHash (Tabulated.cipher knownMessage) S.fresh
        (sendHi :: List.replicate 2 (handOver m))).map
          (Moment.call (Tabulated.cipher knownMessage)))) := by
    rw [hrekeys]
    exact distinctKeys_known
  refine ⟨S.fresh, hnew, _, _, run_history _ _, hkeys, hauth, fun h => ?_⟩
  have haccepts := fun {l} hl hevent =>
    (@accepts_iff knownHash _ _ _ _ S (Tabulated.lawful_cipher knownMessage) _ _
      (run_history _ _) hkeys hauth l hl .alice m).mpr (hdelivers l hl hevent)
  have honce := h _ List.mem_cons_self .alice [] m hsends
  have hpair := List.rel_of_pairwise_cons (List.pairwise_cons.mp honce).2
    List.mem_cons_self
  exact hpair ⟨haccepts (List.mem_cons_of_mem _ List.mem_cons_self) rfl,
    haccepts (List.mem_cons_of_mem _ (List.mem_cons_of_mem _ List.mem_cons_self)) rfl⟩

end NewZone.Crypto.SecureChannel
