import NewZone.Crypto.ChannelKeys
import NewZone.Crypto.Tabulated
import NewZone.Lib.Runs

/-!
# Two ends of a secure channel

A pair of channels that were built from the same secret and context, and the
calls that are made on them in any order.  The network is not part of the
state: `decryptFromPeer` may be called with any bytes at any time, which
covers messages that are lost, repeated, reordered or forged.

`Tracks` is the invariant of all runs: each end is coherent with one and the
same schedule, at the epoch that its own rekeys have counted.  `opened` is
what follows for messages, and `nonces_distinct` what follows for the pairs of
key and nonce that are sealed under.  The second is not unconditional, since
`makeNonce` keeps 32 bits of the counter: `nonce_reused` is the run that
repeats a pair.
-/

namespace NewZone.Crypto.SecureChannel

open NewZone.Js NewZone.Runs

/-! ## Runs of a pair -/

/-- The channels of the two parties. -/
abbrev Pair := Role → SecureChannel

/-- A call on one of the two channels. -/
inductive Event where
  | encrypt (role : Role) (plaintext aad : Input)
  | decrypt (role : Role) (nonce ciphertext tag aad : Input)
  | rekey (role : Role)

/-- A call, with the key and nonce that it sealed under, if it sealed. -/
structure Call where
  event : Event
  sealedUnder : Option (Bytes × Bytes)

/-- The key and nonce that a call seals under, if it seals. -/
def sealsUnder (cipher : NodeCipher) (p : Pair) : Event → Option (Bytes × Bytes)
  | .encrypt role plaintext aad =>
    match (encryptToPeer cipher (p role) plaintext aad).1 with
    | .ok m => some ((p role).sendKey, m.nonce)
    | .error _ => none
  | .decrypt _ _ _ _ _ => none
  | .rekey _ => none

/-- The pair after a call. -/
def after (node : NodeHash) (cipher : NodeCipher) (p : Pair) : Event → Pair
  | .encrypt role plaintext aad =>
    Function.update p role (encryptToPeer cipher (p role) plaintext aad).2
  | .decrypt role nonce ciphertext tag aad =>
    Function.update p role
      (decryptFromPeer cipher (p role) nonce ciphertext tag aad).2
  | .rekey role => Function.update p role (SecureChannel.rekey node (p role)).2

/-- One call. -/
def Step (node : NodeHash) (cipher : NodeCipher) (p : Pair) (call : Call)
    (p' : Pair) : Prop :=
  call.sealedUnder = sealsUnder cipher p call.event ∧
    p' = after node cipher p call.event

/-- The call is a rekey by `role`. -/
def Call.rekeys (role : Role) (call : Call) : Bool :=
  match call.event with
  | .rekey r => r = role
  | _ => false

/-- How many rekeys `role` has performed. -/
def rekeysBy (role : Role) (calls : List Call) : ℕ :=
  calls.countP (Call.rekeys role)

theorem rekeysBy_append (role : Role) (calls : List Call) (call : Call) :
    rekeysBy role (calls ++ [call])
      = rekeysBy role calls + if call.rekeys role then 1 else 0 := by
  simp [rekeysBy, List.countP_append, List.countP_singleton]

/-! ## The invariant of all runs -/

variable {node : NodeHash} {cipher : NodeCipher} {secret : Bytes}
  {baseContext hash : JsString} {S : Schedule node secret baseContext hash}

/-- Each end is coherent with the schedule, at the epoch that its rekeys have
counted. -/
def Tracks (S : Schedule node secret baseContext hash) (calls : List Call)
    (p : Pair) : Prop :=
  ∀ role, Coherent S role (p role) ∧
    (p role).epoch = countTo (rekeysBy role calls)

theorem tracks_fresh : Tracks S [] S.fresh :=
  fun role => ⟨S.coherent_fresh role, rfl⟩

/-- A call other than a rekey leaves the configuration, the keys and the epoch
of both ends. -/
theorem after_frame {p : Pair} {e : Event} (he : ∀ role, e ≠ .rekey role)
    (role : Role) :
    (after node cipher p e role).toConfig = (p role).toConfig ∧
      (after node cipher p e role).toEpochKeys = (p role).toEpochKeys ∧
      (after node cipher p e role).epoch = (p role).epoch := by
  cases e with
  | encrypt r plaintext aad =>
    rcases eq_or_ne role r with rfl | hne
    · rw [after, Function.update_self]
      rcases encryptToPeer_frame cipher (p role) plaintext aad
        with h | ⟨-, -, h⟩ <;> rw [h] <;> exact ⟨rfl, rfl, rfl⟩
    · rw [after, Function.update_of_ne hne]
      exact ⟨rfl, rfl, rfl⟩
  | decrypt r nonce ciphertext tag aad =>
    rcases eq_or_ne role r with rfl | hne
    · rw [after, Function.update_self]
      rcases decryptFromPeer_frame cipher (p role) nonce ciphertext tag aad
        with h | h <;> rw [h] <;> exact ⟨rfl, rfl, rfl⟩
    · rw [after, Function.update_of_ne hne]
      exact ⟨rfl, rfl, rfl⟩
  | rekey r => exact absurd rfl (he r)

/-- Every call keeps the invariant. -/
theorem Tracks.step {calls : List Call} {p p' : Pair} {call : Call}
    (h : Tracks S calls p) (hstep : Step node cipher p call p') :
    Tracks S (calls ++ [call]) p' := by
  intro role
  obtain ⟨hcoh, hepoch⟩ := h role
  rw [hstep.2, rekeysBy_append]
  cases he : call.event with
  | rekey r =>
    rw [after]
    rcases eq_or_ne role r with rfl | hne
    · rw [Function.update_self]
      refine ⟨hcoh.of_rekey, ?_⟩
      rw [hcoh.rekey, if_pos (by simp [Call.rekeys, he]), ← incr_countTo,
        ← hepoch]
    · rw [Function.update_of_ne hne, if_neg (by simp [Call.rekeys, he, hne.symm])]
      exact ⟨hcoh, hepoch⟩
  | encrypt r plaintext aad =>
    obtain ⟨hc, hk, hep⟩ := @after_frame node cipher p
      (.encrypt r plaintext aad) (fun _ => by simp) role
    rw [if_neg (by simp [Call.rekeys, he])]
    exact ⟨⟨hc.trans hcoh.config, by rw [hk, hep, hcoh.keys]⟩, hep.trans hepoch⟩
  | decrypt r nonce ciphertext tag aad =>
    obtain ⟨hc, hk, hep⟩ := @after_frame node cipher p
      (.decrypt r nonce ciphertext tag aad) (fun _ => by simp) role
    rw [if_neg (by simp [Call.rekeys, he])]
    exact ⟨⟨hc.trans hcoh.config, by rw [hk, hep, hcoh.keys]⟩, hep.trans hepoch⟩

/-- The invariant holds at the end of every run of a fresh pair. -/
theorem tracks_of_run {calls : List Call} {p : Pair}
    (hrun : Run (Step node cipher) S.fresh calls p) : Tracks S calls p :=
  hrun.history tracks_fresh fun _ _ _ _ _ h hstep => h.step hstep

/-! ## A known pair -/

/-- A shared secret to try the channel with. -/
def knownSecret : Bytes := (List.range 32).map fun i => UInt8.ofNat (i + 1)

def knownContext : JsString := js "NZ-CRYPTO-02/channel"

/-- What BLAKE2b-512 and HMAC-SHA-512 return while the keys of one direction
are derived. -/
structure KnownDirection where
  contextDigest : Bytes
  sessionDigest : Bytes
  prk : Bytes
  t1 : Bytes
  t2 : Bytes

/-- The values for epoch `0` of `knownSecret` and `knownContext`. -/
def knownDirection : Role → KnownDirection
  | .alice =>
    { contextDigest :=
        Tabulated.hex 32 0xb379c1e7a3881b2ba60cad34389e544cc7dd19eac2595bee5e9044b2a707c327 ++
        Tabulated.hex 32 0xeb6a35101c5a6dccad6c28576659a9e7ec65fa34b8b766f3c736baa5409465ec
      sessionDigest :=
        Tabulated.hex 32 0x986fc78f55d6bca6f5fc8848ffd7dd5d481ec0ef4ccf9fc6cfd09f2eb09fe423 ++
        Tabulated.hex 32 0x1e6b81e72b318a5e5ce185183ee240b93f20603aabfaa5a7d9c6dcbca4470dc5
      prk :=
        Tabulated.hex 32 0x55806800cef192512f105f1dfdf7010eeb49c72a8ceae06d9cc5836ccc1ad0f9 ++
        Tabulated.hex 32 0x3bfbc66a74be374f6f5e2ed031286b7dc05b321dae972897b97c774bfea48f0c
      t1 :=
        Tabulated.hex 32 0x824b818f07712768f2d2457f5da7384c300396704e052495b3af89cb044bc7c4 ++
        Tabulated.hex 32 0x2d7fe3e37c6eb9dfcc0bc43a1ccc457fe85046172b3a950cc2d4c9ebc65a0313
      t2 :=
        Tabulated.hex 32 0x9da2be35059eadd79a9e6a6d9119a029d6c61c730c6dc5c1067e6e203eb2ccb3 ++
        Tabulated.hex 32 0xb9b205b7266539835bf4aacf125a8bfe1065091dab551ebd44d9ac14516e6b3c }
  | .bob =>
    { contextDigest :=
        Tabulated.hex 32 0x90ba42b6e32989d2edad0489d8d452db26f8223bdfc9471353bedd360f2eb7de ++
        Tabulated.hex 32 0x34513352f408e35af2d542a860cd6fdbb3d4d7a4d5cb1e04bd4a71b3f9fa51cf
      sessionDigest :=
        Tabulated.hex 32 0x8503da6bad61ca78fdd2b9112f2990662fdc81e1518a6080add48d73e1d31875 ++
        Tabulated.hex 32 0x709e6e5d865f19610a9ec64832c9f869e4fa88700fc06422d2938f93dce68fe5
      prk :=
        Tabulated.hex 32 0xff70244f40b69594c77b2e0b334f9a20822c7889ec02c976d102bddfea3d6447 ++
        Tabulated.hex 32 0xe68168d124f4048ebd1a548ebdb4398207348259bfd451891694016e1fd2ec62
      t1 :=
        Tabulated.hex 32 0xb0cbfe3f57bd90807ef726f648e467ee8eba53dfbe18c710e966664baf7db1cb ++
        Tabulated.hex 32 0xa520ca8e6658ea4541a89af7be9195d19d67efbb4dcb03853075cb193601d12c
      t2 :=
        Tabulated.hex 32 0xe7dd16b4948a491a60e7fc6943b04bb0e88cc36534e50f26295e8d0e2836f72d ++
        Tabulated.hex 32 0x59b660abc839fc6f6006bb758341f776816c3c4ac3601f4dd55720d75beff402 }

/-- The hashes with those values. -/
def knownHash : NodeHash :=
  let context := fun role => utf8 (directionContext knownContext 0 role)
  let salt := fun role => (knownDirection role).contextDigest.take 32
  let info := fun role => salt role ++ utf8 (js "NZ-CRYPTO-02/session-keys")
  let roles := [Role.alice, Role.bob]
  Tabulated.hash []
    (roles.flatMap fun role =>
      [(context role, (knownDirection role).contextDigest),
        (knownSecret ++ context role, (knownDirection role).sessionDigest)])
    (roles.flatMap fun role =>
      [((salt role, knownSecret), (knownDirection role).prk),
        (((knownDirection role).prk, info role ++ [1]), (knownDirection role).t1),
        (((knownDirection role).prk, (knownDirection role).t1 ++ info role ++ [2]),
          (knownDirection role).t2)])

/-- The first message of Alice to Bob, `hi` without associated data. -/
def knownMessage : Tabulated.KnownSealing where
  key := (knownDirection .alice).t1.take 32
  nonce := Tabulated.hex 12 0x9da2be35059eadd700000001
  aad := none
  plaintext := utf8 (js "hi")
  ciphertext := [0x1b, 0x17]
  tag := Tabulated.hex 16 0x3b6536a9c163ec049ea99dbf6561723b
  tag_length := Tabulated.length_hex _ _
  tag_ne := by decide

/-! ## Delivery -/

/-- A decryption that answers `null` or throws changes nothing. -/
theorem decryptFromPeer_unchanged {c : SecureChannel}
    {nonce ciphertext tag aad : Input}
    (h : ∀ pt, (decryptFromPeer cipher c nonce ciphertext tag aad).1
      ≠ .ok (some pt)) :
    (decryptFromPeer cipher c nonce ciphertext tag aad).2 = c := by
  unfold decryptFromPeer at h ⊢
  split at h
  · exact absurd rfl (h _)
  · rfl
  · rfl

/-- What one end seals the other end opens, in the same epoch. -/
theorem opened (hcipher : cipher.Lawful) {role : Role} {c d : SecureChannel}
    (hc : Coherent S role c) (hd : Coherent S role.peer d)
    (hepoch : d.epoch = c.epoch) {plaintext aad : Input} {pt a : Bytes}
    (hpt : toBytes plaintext = .ok pt) (ha : toBytes aad = .ok a) :
    ∃ m, (encryptToPeer cipher c plaintext aad).1 = .ok m ∧
      (decryptFromPeer cipher d (.bytes m.nonce) (.bytes m.ciphertext)
        (.bytes m.tag) aad).1 = .ok (some pt) := by
  obtain ⟨out, hout, hcall⟩ := hc.encryptToPeer cipher hpt ha
  refine ⟨_, congrArg Prod.fst hcall, ?_⟩
  have hpeer : role.peer.peer = role := by cases role <;> rfl
  have hkey : d.recvKey = (S.keys c.epoch role).encKey := by
    rw [hd.recvKey, hepoch, hpeer]
  have hopen := Aead.decrypt_encrypt hcipher (S.encKey_length c.epoch role)
    ((length_writeCounter _ c.sendCounter).trans
      (S.nonceBase_length c.epoch role)) hout
  rw [← hkey] at hopen
  have hwith : openWith cipher d
      (.bytes (writeCounter (S.keys c.epoch role).nonceBase c.sendCounter))
      (.bytes out.ciphertext) (.bytes out.tag) aad = .ok (some pt) :=
    (ExceptBind.bind_of_ok rfl _).trans ((ExceptBind.bind_of_ok rfl _).trans
      ((ExceptBind.bind_of_ok ha _).trans
        ((ExceptBind.bind_of_ok rfl _).trans hopen)))
  simp only [decryptFromPeer, hwith]

/-- **Delivery.**  The constructors answer.  After any run, a message that one
end seals is opened to its plaintext by the other end after any run with the
same number of rekeys, and a decryption that does not open changes nothing. -/
theorem delivery (hcipher : cipher.Lawful) {sharedSecret : Input}
    (hsecret : toBytes sharedSecret = .ok secret) (hne : secret ≠ [])
    (hbase : baseContext ≠ [])
    (hhash : hash = js "sha512" ∨ hash = js "blake2b") :
    ∃ p : Pair,
      (∀ role, new node (paramsOf sharedSecret baseContext (some hash) role)
        = .ok (p role)) ∧
      (∀ {before : List Call} {q : Pair},
        Run (Step node cipher) p before q →
        ∀ (role : Role) {plaintext aad : Input} {pt a : Bytes},
          toBytes plaintext = .ok pt → toBytes aad = .ok a →
          ∃ m, (encryptToPeer cipher (q role) plaintext aad).1 = .ok m ∧
            ∀ {later : List Call} {s : Pair},
              Run (Step node cipher) p later s →
              rekeysBy role.peer later = rekeysBy role before →
              (decryptFromPeer cipher (s role.peer) (.bytes m.nonce)
                (.bytes m.ciphertext) (.bytes m.tag) aad).1
                  = .ok (some pt)) ∧
      (∀ (c : SecureChannel) (nonce ciphertext tag aad : Input),
        (∀ pt, (decryptFromPeer cipher c nonce ciphertext tag aad).1
          ≠ .ok (some pt)) →
        (decryptFromPeer cipher c nonce ciphertext tag aad).2 = c) := by
  have htruthy : sharedSecret.truthy = true := by
    cases sharedSecret with
    | nullish => exact absurd (Except.ok.inj hsecret).symm hne
    | bytes b => rfl
    | text s =>
      cases s with
      | nil => exact absurd (Except.ok.inj hsecret).symm hne
      | cons u s => rfl
    | other => rfl
  have hsupported : Hkdf.SupportedHash hash := by
    rcases hhash with rfl | rfl <;> decide
  obtain ⟨S⟩ := exists_schedule node hne baseContext hsupported
  refine ⟨S.fresh, @new_ok node _ _ _ (some hash) S hsecret htruthy hbase, ?_,
    fun c nonce ciphertext tag aad => decryptFromPeer_unchanged⟩
  intro before q hq role plaintext aad pt a hpt ha
  obtain ⟨hc, hcepoch⟩ := tracks_of_run hq role
  obtain ⟨out, -, hcall⟩ := hc.encryptToPeer cipher hpt ha
  refine ⟨_, congrArg Prod.fst hcall, ?_⟩
  intro later s hs hrekeys
  obtain ⟨hd, hdepoch⟩ := tracks_of_run hs role.peer
  obtain ⟨m, hm, hopen⟩ := opened hcipher hc hd
    (by rw [hdepoch, hcepoch, hrekeys]) hpt ha
  rw [hcall] at hm
  obtain rfl := Except.ok.inj hm
  exact hopen

/-- The known pair delivers its first message. -/
theorem delivery_known :
    ∃ p : Pair,
      (∀ role, new knownHash (paramsOf (.bytes knownSecret) knownContext
        (some (js "sha512")) role) = .ok (p role)) ∧
      ∃ m, (encryptToPeer (Tabulated.cipher knownMessage) (p .alice)
          (.text (js "hi")) .nullish).1 = .ok m ∧
        (decryptFromPeer (Tabulated.cipher knownMessage) (p .bob)
          (.bytes m.nonce) (.bytes m.ciphertext) (.bytes m.tag) .nullish).1
            = .ok (some (utf8 (js "hi"))) := by
  obtain ⟨p, hnew, hdelivery, -⟩ := @delivery knownHash
    (Tabulated.cipher knownMessage) knownSecret knownContext (js "sha512")
    (Tabulated.lawful_cipher knownMessage) (.bytes knownSecret) rfl (by decide)
    (by decide) (.inl rfl)
  obtain ⟨m, hm, hopen⟩ := hdelivery (.nil p) .alice
    (rfl : toBytes (.text (js "hi")) = .ok (utf8 (js "hi")))
    (rfl : toBytes .nullish = .ok [])
  exact ⟨p, hnew, m, hm, hopen (.nil p) rfl⟩

/-! ## Nonces -/

/-- The state before a call leaves its counters room: an encryption whose
arguments convert still finds a counter that `makeNonce` writes in full, and a
rekey an epoch that the increment moves. -/
def Fits (p : Pair) (call : Call) : Prop :=
  match call.event with
  | .encrypt role plaintext aad =>
    plaintext ≠ .other → aad ≠ .other → (p role).sendCounter ≤ 2 ^ 32
  | .decrypt _ _ _ _ _ => True
  | .rekey role => (p role).epoch < 2 ^ 53

/-- The key schedule gives different encryption keys to different contexts, as
far as epoch `n`. -/
def DistinctKeys (node : NodeHash) (secret : Bytes)
    (baseContext hash : JsString) (n : ℕ) : Prop :=
  ∀ e ≤ n, ∀ e' ≤ n, ∀ d d' : Role,
    directionContext baseContext e d ≠ directionContext baseContext e' d' →
    ∀ keys keys',
      SessionKeys.deriveSessionKeys node (.bytes secret)
        (.text (directionContext baseContext e d)) (some hash) (some 32)
        = .ok keys →
      SessionKeys.deriveSessionKeys node (.bytes secret)
        (.text (directionContext baseContext e' d')) (some hash) (some 32)
        = .ok keys' →
      keys.encKey ≠ keys'.encKey

/-- The number of rekeys in a history, by either party. -/
def rekeys (calls : List Call) : ℕ :=
  rekeysBy .alice calls + rekeysBy .bob calls

theorem rekeysBy_le_rekeys (role : Role) (calls : List Call) :
    rekeysBy role calls ≤ rekeys calls := by
  unfold rekeys
  cases role <;> omega

theorem rekeysBy_mono {calls calls' : List Call} (role : Role)
    (h : calls <+: calls') : rekeysBy role calls ≤ rekeysBy role calls' :=
  h.sublist.countP_le

/-- The place of a sealed message: who sealed it, in which epoch and under
which counter. -/
structure Slot where
  role : Role
  epoch : ℕ
  counter : ℕ

/-- The key and nonce of a slot. -/
def Schedule.under (S : Schedule node secret baseContext hash) (s : Slot) :
    Bytes × Bytes :=
  ((S.keys s.epoch s.role).encKey,
    writeCounter (S.keys s.epoch s.role).nonceBase s.counter)

/-- Different slots with counters that `ToUint32` keeps apart have different
keys or different nonces. -/
theorem Schedule.under_inj {n : ℕ}
    (hkeys : DistinctKeys node secret baseContext hash n) {s t : Slot}
    (hs : s.epoch ≤ n) (ht : t.epoch ≤ n)
    (hs1 : 1 ≤ s.counter) (hs2 : s.counter ≤ 2 ^ 32)
    (ht1 : 1 ≤ t.counter) (ht2 : t.counter ≤ 2 ^ 32)
    (h : S.under s = S.under t) : s = t := by
  obtain ⟨hkey, hnonce⟩ := Prod.mk.inj h
  obtain ⟨hepoch, hrole⟩ : s.epoch = t.epoch ∧ s.role = t.role := by
    by_contra hne
    exact hkeys s.epoch hs t.epoch ht s.role t.role
      (fun hctx => hne (directionContext_inj.mp hctx)) _ _
      (S.derived s.epoch s.role) (S.derived t.epoch t.role) hkey
  rw [← hepoch, ← hrole,
    writeCounter_eq_iff (S.nonceBase_length s.epoch s.role)] at hnonce
  have hcounter : s.counter = t.counter := by
    unfold toUint32 at hnonce
    omega
  cases s
  cases t
  simp_all

/-- The slot is behind the channel: an earlier epoch, or an earlier counter of
the current one. -/
def Slot.Behind (s : Slot) (c : SecureChannel) : Prop :=
  s.epoch < c.epoch ∨ s.epoch = c.epoch ∧ s.counter < c.sendCounter

/-- The invariant of the runs that fit: no counter has passed `2 ^ 32`, and
what has been sealed belongs to slots that both ends have left behind. -/
structure Spent (S : Schedule node secret baseContext hash)
    (calls : List Call) (p : Pair) : Prop where
  tracks : Tracks S calls p
  counter_pos : ∀ role, 1 ≤ (p role).sendCounter
  counter_le : ∀ role, (p role).sendCounter ≤ 2 ^ 32 + 1
  past : ∀ call ∈ calls, ∀ u, call.sealedUnder = some u →
    ∃ s : Slot, u = S.under s ∧ s.Behind (p s.role) ∧
      1 ≤ s.counter ∧ s.counter ≤ 2 ^ 32

theorem spent_fresh : Spent S [] S.fresh where
  tracks := tracks_fresh
  counter_pos _ := Nat.le_refl 1
  counter_le _ := by
    show 1 ≤ 2 ^ 32 + 1
    omega
  past _ h := absurd h List.not_mem_nil

/-- What a call can seal under: the slot that its channel is at. -/
theorem sealsUnder_eq {p : Pair} {e : Event} {u : Bytes × Bytes}
    (hcoh : ∀ role, Coherent S role (p role))
    (h : sealsUnder cipher p e = some u) :
    ∃ role plaintext aad, e = .encrypt role plaintext aad ∧
      plaintext ≠ .other ∧ aad ≠ .other ∧
      u = S.under ⟨role, (p role).epoch, (p role).sendCounter⟩ ∧
      (encryptToPeer cipher (p role) plaintext aad).2
        = { p role with sendCounter := incr (p role).sendCounter } := by
  cases e with
  | encrypt role plaintext aad =>
    refine ⟨role, plaintext, aad, rfl, ?_⟩
    cases hm : (encryptToPeer cipher (p role) plaintext aad).1 with
    | error e => simp [sealsUnder, hm] at h
    | ok m =>
      simp only [sealsUnder, hm, Option.some.injEq] at h
      obtain ⟨hnonce, hpt, ha, hafter⟩ := (hcoh role).of_encryptToPeer_ok hm
      rw [← h, hnonce, (hcoh role).sendKey]
      exact ⟨hpt, ha, rfl, hafter⟩
  | decrypt _ _ _ _ _ => simp [sealsUnder] at h
  | rekey _ => simp [sealsUnder] at h

/-- What a call that fits does to the epoch and the send counter of an end. -/
theorem after_cases {p : Pair} {call : Call}
    (hcoh : ∀ role, Coherent S role (p role)) (hfits : Fits p call)
    (role : Role) :
    let c := p role
    let c' := after node cipher p call.event role
    (c'.epoch = c.epoch ∧ c'.sendCounter = c.sendCounter) ∨
      (c'.epoch = c.epoch ∧ c.sendCounter ≤ 2 ^ 32 ∧
        c'.sendCounter = c.sendCounter + 1) ∨
      (c'.epoch = c.epoch + 1 ∧ c'.sendCounter = 1) := by
  intro c c'
  unfold Fits at hfits
  cases he : call.event with
  | encrypt r plaintext aad =>
    simp only [he] at hfits
    rcases eq_or_ne role r with rfl | hne
    · have hc' : c' = (encryptToPeer cipher c plaintext aad).2 := by
        simp only [c', c, he, after, Function.update_self]
      rcases encryptToPeer_frame cipher c plaintext aad with h | ⟨hpt, ha, h⟩
      · exact .inl (by rw [hc', h]; exact ⟨rfl, rfl⟩)
      · have hle := hfits hpt ha
        refine .inr (.inl ?_)
        rw [hc', h]
        exact ⟨rfl, hle, incr_of_lt (lt_of_le_of_lt hle (by decide))⟩
    · apply Or.inl
      simp only [c', c, he, after, Function.update_of_ne hne, and_self]
  | decrypt r nonce ciphertext tag aad =>
    apply Or.inl
    rcases eq_or_ne role r with rfl | hne
    · have hc' : c' = (decryptFromPeer cipher c nonce ciphertext tag aad).2 := by
        simp only [c', c, he, after, Function.update_self]
      rcases decryptFromPeer_frame cipher c nonce ciphertext tag aad
        with h | h <;> rw [hc', h] <;> exact ⟨rfl, rfl⟩
    · simp only [c', c, he, after, Function.update_of_ne hne, and_self]
  | rekey r =>
    simp only [he] at hfits
    rcases eq_or_ne role r with rfl | hne
    · have hc' : c' = (SecureChannel.rekey node c).2 := by
        simp only [c', c, he, after, Function.update_self]
      refine .inr (.inr ?_)
      rw [hc', (hcoh role).rekey]
      exact ⟨incr_of_lt hfits, rfl⟩
    · apply Or.inl
      simp only [c', c, he, after, Function.update_of_ne hne, and_self]

/-- A call that fits keeps the invariant. -/
theorem Spent.step {calls : List Call} {p p' : Pair} {call : Call}
    (h : Spent S calls p)
    (hstep : Guarded (Step node cipher) Fits p call p') :
    Spent S (calls ++ [call]) p' := by
  obtain ⟨hcall, hfits⟩ := hstep
  have hcoh : ∀ role, Coherent S role (p role) := fun role =>
    (h.tracks role).1
  have hcases := fun role =>
    @after_cases node cipher secret baseContext hash S p call hcoh hfits role
  simp only [← hcall.2] at hcases
  refine ⟨h.tracks.step hcall, ?_, ?_, ?_⟩
  · intro role
    have := h.counter_pos role
    have := hcases role
    omega
  · intro role
    have := h.counter_le role
    have := hcases role
    omega
  · intro old hold u hu
    rcases List.mem_append.mp hold with hmem | hmem
    · -- an old slot stays behind, since its end only moves on
      obtain ⟨s, hus, hbehind, hs⟩ := h.past old hmem u hu
      refine ⟨s, hus, ?_, hs⟩
      have := hcases s.role
      unfold Slot.Behind at hbehind ⊢
      omega
    · -- the new slot is the one that the call has just left
      obtain rfl := List.mem_singleton.mp hmem
      rw [hcall.1] at hu
      obtain ⟨role, plaintext, aad, he, hpt, ha, hus, hafter⟩ :=
        sealsUnder_eq hcoh hu
      simp only [Fits, he] at hfits
      have hle := hfits hpt ha
      refine ⟨_, hus, ?_, h.counter_pos role, hle⟩
      have hp' : p' role
          = { p role with sendCounter := incr (p role).sendCounter } := by
        rw [hcall.2, he, after, Function.update_self, hafter]
      apply Or.inr
      show (p role).epoch = (p' role).epoch ∧
        (p role).sendCounter < (p' role).sendCounter
      rw [hp', incr_of_lt (lt_of_le_of_lt hle (by decide))]
      exact ⟨rfl, Nat.lt_succ_self _⟩

/-- Two calls that do not seal under the same key and nonce. -/
def Call.Apart (a b : Call) : Prop :=
  ∀ u, a.sealedUnder = some u → b.sealedUnder ≠ some u

/-- **No nonce is used twice.**  Along every run of a pair whose calls fit,
the pairs of key and nonce that are sealed under are pairwise different, as
long as the key schedule separates the contexts that the run derives from. -/
theorem nonces_distinct {sharedSecret : Input} {hash : Option JsString}
    {p p' : Pair} {calls : List Call}
    (hsecret : toBytes sharedSecret = .ok secret)
    (hnew : ∀ role, new node (paramsOf sharedSecret baseContext hash role)
      = .ok (p role))
    (hkeys : DistinctKeys node secret baseContext
      (hash.getD (js "sha512")) (rekeys calls))
    (hrun : Run (Guarded (Step node cipher) Fits) p calls p') :
    calls.Pairwise Call.Apart := by
  obtain ⟨S, rfl⟩ := exists_fresh hsecret hnew
  refine hrun.pairwise (P := Spent S) spent_fresh
    (fun _ _ _ _ _ h hstep => h.step hstep) ?_
  intro es t e u hpre hspent hstep e' he' w hw' hw
  obtain ⟨s, hs, hbehind, hs1, hs2⟩ := hspent.past e' he' w hw'
  have hcoh : ∀ role, Coherent S role (t role) := fun role =>
    (hspent.tracks role).1
  rw [hstep.1.1] at hw
  obtain ⟨role, plaintext, aad, he, hpt, ha, hus, -⟩ := sealsUnder_eq hcoh hw
  have hfits := hstep.2
  simp only [Fits, he] at hfits
  have hle := hfits hpt ha
  have hepoch : ∀ r, (t r).epoch ≤ rekeys calls := by
    intro r
    have h₁ := rekeysBy_mono r
      ((List.prefix_append es [e]).trans hpre)
    have h₂ := rekeysBy_le_rekeys r calls
    rw [(hspent.tracks r).2]
    unfold countTo
    omega
  have hsepoch : s.epoch ≤ rekeys calls := by
    have := hepoch s.role
    unfold Slot.Behind at hbehind
    omega
  -- both slots are in range, so they are one slot, but the first lies behind
  have hslot := S.under_inj hkeys hsepoch (hepoch role) hs1 hs2
    (hspent.counter_pos role) hle (hs.symm.trans hus)
  subst hslot
  unfold Slot.Behind at hbehind
  simp at hbehind

/-! ## The run that wraps -/

/-- The history of `n` empty messages from Alice in epoch `0`. -/
def sends (S : Schedule node secret baseContext hash) (n : ℕ) : List Call :=
  (List.range n).map fun i =>
    { event := .encrypt .alice (.bytes []) .nullish
      sealedUnder := some (S.under ⟨.alice, 0, i + 1⟩) }

theorem sends_succ (n : ℕ) :
    sends S (n + 1) = sends S n ++
      [{ event := .encrypt .alice (.bytes []) .nullish
         sealedUnder := some (S.under ⟨.alice, 0, n + 1⟩) }] := by
  simp [sends, List.range_succ]

theorem rekeys_sends (n : ℕ) : rekeys (sends S n) = 0 := by
  have hnone : ∀ role, rekeysBy role (sends S n) = 0 := by
    intro role
    apply List.countP_eq_zero.mpr
    intro call hcall
    obtain ⟨i, -, rfl⟩ := List.mem_map.mp hcall
    simp [Call.rekeys]
  rw [rekeys, hnone, hnone]

/-- Nothing stops Alice from sending for a long time in one epoch; the first
`2 ^ 32` calls fit. -/
theorem run_sends (cipher : NodeCipher)
    (S : Schedule node secret baseContext hash) :
    ∀ n < 2 ^ 53, ∃ p, Run (Step node cipher) S.fresh (sends S n) p ∧
      (n ≤ 2 ^ 32 →
        Run (Guarded (Step node cipher) Fits) S.fresh (sends S n) p) ∧
      (p .alice).epoch = 0 ∧ (p .alice).sendCounter = n + 1 := by
  intro n
  induction n with
  | zero => exact fun _ => ⟨S.fresh, .nil _, fun _ => .nil _, rfl, rfl⟩
  | succ n ih =>
    intro hn
    obtain ⟨p, hrun, hfit, hepoch, hcounter⟩ := ih (by omega)
    obtain ⟨hcoh, -⟩ := tracks_of_run hrun .alice
    obtain ⟨out, -, hcall⟩ := hcoh.encryptToPeer cipher
      (rfl : toBytes (.bytes []) = .ok []) (rfl : toBytes .nullish = .ok [])
    have hseals : sealsUnder cipher p (.encrypt .alice (.bytes []) .nullish)
        = some (S.under ⟨.alice, 0, n + 1⟩) := by
      simp only [sealsUnder, hcall, hcoh.sendKey, hepoch, hcounter]
      rfl
    refine ⟨after node cipher p (.encrypt .alice (.bytes []) .nullish),
      ?_, ?_, ?_⟩
    · rw [sends_succ]
      exact .snoc hrun ⟨hseals.symm, rfl⟩
    · intro hle
      rw [sends_succ]
      refine .snoc (hfit (by omega)) ⟨⟨hseals.symm, rfl⟩, fun _ _ => ?_⟩
      rw [hcounter]
      exact hle
    · simp only [after, Function.update_self, hcall, hepoch, hcounter]
      exact ⟨trivial, incr_of_lt (by omega)⟩

/-- The counter that comes `2 ^ 32` later has the same nonce. -/
theorem under_wraps (role : Role) (epoch : ℕ) :
    S.under ⟨role, epoch, 2 ^ 32 + 1⟩ = S.under ⟨role, epoch, 1⟩ :=
  Prod.ext rfl ((writeCounter_eq_iff (S.nonceBase_length epoch role)).mpr
    (by decide : (2 ^ 32 + 1) % 2 ^ 32 = 1 % 2 ^ 32))

theorem not_pairwise_sends : ¬(sends S (2 ^ 32 + 1)).Pairwise Call.Apart := by
  intro h
  rw [List.pairwise_iff_getElem] at h
  have hapart := h 0 (2 ^ 32) (by simp [sends]) (by simp [sends]) (by decide)
  simp only [sends, List.getElem_map, List.getElem_range] at hapart
  exact hapart _ rfl (congrArg some (under_wraps .alice 0))

/-- The known pair separates the keys of its two directions. -/
theorem distinctKeys_known :
    DistinctKeys knownHash knownSecret knownContext (js "sha512") 0 := by
  have hne : ∀ d d' : Role, d ≠ d' →
      ((SessionKeys.deriveSessionKeys knownHash (.bytes knownSecret)
        (.text (directionContext knownContext 0 d)) (some (js "sha512"))
        (some 32)).toOption.map SessionKeys.Keys.encKey)
        ≠ ((SessionKeys.deriveSessionKeys knownHash (.bytes knownSecret)
          (.text (directionContext knownContext 0 d')) (some (js "sha512"))
          (some 32)).toOption.map SessionKeys.Keys.encKey) := by
    intro d d' hd
    cases d <;> cases d' <;> first | exact absurd rfl hd | decide +kernel
  intro e he e' he' d d' hctx keys keys' hkeys hkeys'
  obtain rfl := Nat.le_zero.mp he
  obtain rfl := Nat.le_zero.mp he'
  have hd : d ≠ d' := by
    rintro rfl
    exact hctx rfl
  have := hne d d' hd
  rw [hkeys, hkeys'] at this
  exact fun h => this (congrArg some h)

/-- Two messages of the known pair are sealed apart. -/
theorem nonces_distinct_known :
    ∃ p : Pair,
      (∀ role, new knownHash (paramsOf (.bytes knownSecret) knownContext none
        role) = .ok (p role)) ∧
      ∃ (a b : Call) (p' : Pair),
        Run (Step knownHash (Tabulated.cipher knownMessage)) p [a, b] p' ∧
        a.sealedUnder.isSome ∧ b.sealedUnder.isSome ∧
        a.sealedUnder ≠ b.sealedUnder := by
  obtain ⟨S⟩ := exists_schedule knownHash (by decide : knownSecret ≠ [])
    knownContext (by decide : Hkdf.SupportedHash (js "sha512"))
  obtain ⟨p', hrun, hfit, -⟩ := run_sends (Tabulated.cipher knownMessage) S 2
    (by decide)
  have hnew : ∀ role, new knownHash (paramsOf (.bytes knownSecret)
      knownContext none role) = .ok (S.fresh role) :=
    @new_ok knownHash _ _ _ none S rfl rfl (by decide)
  have hpairwise := @nonces_distinct knownHash (Tabulated.cipher knownMessage)
    knownSecret knownContext (.bytes knownSecret) none S.fresh p' (sends S 2)
    rfl hnew (by rw [rekeys_sends]; exact distinctKeys_known)
    (hfit (by decide))
  refine ⟨S.fresh, hnew, _, _, p', hrun, rfl, rfl, fun h => ?_⟩
  have hapart := List.rel_of_pairwise_cons hpairwise List.mem_cons_self
  exact hapart _ rfl h.symm

/-- **A nonce is used twice.**  In one epoch of the known pair, message
`2 ^ 32 + 1` is sealed under the key and nonce of message `1`. -/
theorem nonce_reused :
    ∃ p : Pair,
      (∀ role, new knownHash (paramsOf (.bytes knownSecret) knownContext none
        role) = .ok (p role)) ∧
      ∃ (calls : List Call) (p' : Pair),
        Run (Step knownHash (Tabulated.cipher knownMessage)) p calls p' ∧
        DistinctKeys knownHash knownSecret knownContext (js "sha512")
          (rekeys calls) ∧
        ¬calls.Pairwise Call.Apart := by
  obtain ⟨S⟩ := exists_schedule knownHash (by decide : knownSecret ≠ [])
    knownContext (by decide : Hkdf.SupportedHash (js "sha512"))
  obtain ⟨p', hrun, -⟩ := run_sends (Tabulated.cipher knownMessage) S
    (2 ^ 32 + 1) (by decide)
  refine ⟨S.fresh, @new_ok knownHash _ _ _ none S rfl rfl (by decide), _, p',
    hrun, ?_, not_pairwise_sends⟩
  rw [rekeys_sends]
  exact distinctKeys_known
end NewZone.Crypto.SecureChannel
