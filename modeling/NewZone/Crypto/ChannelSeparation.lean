import NewZone.Crypto.ChannelRuns

/-!
# Channels that do not hear each other

The context of a key is written without an escape: a base context that the
caller chooses, the epoch and the direction, one behind the other.  It can be
read back from its end (`context_injective`), even where the base context ends
like an epoch or a direction.

Any number of channels, each with its own secret, context and role, are used in
any order.  `contexts_separate` says that a message is opened in the context in
which it was sealed, if keys are not shared between contexts.
-/

namespace NewZone.Crypto.SecureChannel

open NewZone.Js NewZone.Runs NewZone.ExceptBind

/-! ## Channels that are used -/

/-- A call on a channel. -/
inductive Op where
  | encrypt (plaintext aad : Input)
  | decrypt (nonce ciphertext tag aad : Input)
  | rekey

/-- The channel after a call. -/
def afterOp (node : NodeHash) (cipher : NodeCipher) (c : SecureChannel) :
    Op → SecureChannel
  | .encrypt plaintext aad => (encryptToPeer cipher c plaintext aad).2
  | .decrypt nonce ciphertext tag aad =>
    (decryptFromPeer cipher c nonce ciphertext tag aad).2
  | .rekey => (SecureChannel.rekey node c).2

/-- A call on one of several channels, and that channel before it. -/
structure Use (ι : Type) where
  who : ι
  channel : SecureChannel
  op : Op

/-- One call. -/
def Used {ι : Type} [DecidableEq ι] (node : NodeHash) (cipher : NodeCipher)
    (p : ι → SecureChannel) (l : Use ι) (p' : ι → SecureChannel) : Prop :=
  l.channel = p l.who ∧
    p' = Function.update p l.who (afterOp node cipher (p l.who) l.op)

/-- The keys of a direction in the epoch of a channel. -/
def contextKeys (node : NodeHash) (c : SecureChannel) (direction : Role) :
    Except String SessionKeys.Keys :=
  SessionKeys.deriveSessionKeys node (.bytes c.sharedSecret)
    (.text (directionContext c.baseContext c.epoch direction)) (some c.hash)
    (some c.keyLength)

/-- The keys of a channel are those of its epoch. -/
def Derived (node : NodeHash) (c : SecureChannel) : Prop :=
  deriveKeysForEpoch node c.toConfig c.epoch = .ok c.toEpochKeys

variable {node : NodeHash} {cipher : NodeCipher} {c : SecureChannel}

/-- A channel sends under the keys of its own direction and receives under those
of the other. -/
theorem Derived.keys (h : Derived node c) :
    ∃ send recv, contextKeys node c c.role = .ok send ∧
      contextKeys node c c.role.peer = .ok recv ∧
      c.sendKey = send.encKey ∧ c.recvKey = recv.encKey := by
  obtain ⟨keysAB, hAB, h⟩ := bind_eq_ok.mp h
  obtain ⟨keysBA, hBA, h⟩ := bind_eq_ok.mp h
  cases hrole : c.role with
  | alice =>
    rw [hrole] at h
    have hkeys := (Except.ok.inj h).symm
    exact ⟨keysAB, keysBA, hAB, hBA, congrArg EpochKeys.sendKey hkeys,
      congrArg EpochKeys.recvKey hkeys⟩
  | bob =>
    rw [hrole] at h
    have hkeys := (Except.ok.inj h).symm
    exact ⟨keysBA, keysAB, hBA, hAB, congrArg EpochKeys.sendKey hkeys,
      congrArg EpochKeys.recvKey hkeys⟩

theorem derived_new {params : Params} (h : new node params = .ok c) :
    Derived node c := by
  obtain ⟨-, -, -, -, -, -, -, hkeys, hepoch, -⟩ := new_cases h
  rw [Derived, hepoch]
  exact hkeys

/-- The keys of another epoch can be derived if those of one can. -/
theorem Derived.deriveKeysForEpoch (h : Derived node c) (epoch : ℕ) :
    ∃ keys, SecureChannel.deriveKeysForEpoch node c.toConfig epoch = .ok keys := by
  obtain ⟨ab, hab, -⟩ := bind_eq_ok.mp h
  have hanswers := SessionKeys.exists_deriveSessionKeys_of_ok hab
  obtain ⟨keysAB, hAB⟩ := hanswers (directionContext c.baseContext epoch .alice)
  obtain ⟨keysBA, hBA⟩ := hanswers (directionContext c.baseContext epoch .bob)
  rw [SecureChannel.deriveKeysForEpoch, hAB, ok_bind, hBA, ok_bind]
  cases c.role with
  | alice => exact ⟨_, rfl⟩
  | bob => exact ⟨_, rfl⟩

theorem Derived.afterOp (h : Derived node c) (op : Op) :
    Derived node (afterOp node cipher c op) := by
  cases op with
  | encrypt plaintext aad =>
    rcases encryptToPeer_frame cipher c plaintext aad with hc | ⟨-, -, hc⟩ <;>
      rw [SecureChannel.afterOp, hc] <;> exact h
  | decrypt nonce ciphertext tag aad =>
    rcases decryptFromPeer_frame cipher c nonce ciphertext tag aad with hc | hc <;>
      rw [SecureChannel.afterOp, hc] <;> exact h
  | rekey =>
    obtain ⟨keys, hkeys⟩ := h.deriveKeysForEpoch (incr c.epoch)
    rw [SecureChannel.afterOp, SecureChannel.rekey]
    simp only [hkeys]
    exact hkeys

/-- Every call of a run finds a channel with the keys of its epoch. -/
theorem derived_of_run {ι : Type} [DecidableEq ι] {params : ι → Params}
    {p p' : ι → SecureChannel} {ls : List (Use ι)}
    (hnew : ∀ i, new node (params i) = .ok (p i))
    (hrun : Run (Used node cipher) p ls p') :
    (∀ i, Derived node (p' i)) ∧ ∀ l ∈ ls, Derived node l.channel := by
  induction hrun with
  | nil => exact ⟨fun i => derived_new (hnew i), fun _ hl => absurd hl List.not_mem_nil⟩
  | @snoc q u ls l _ hstep ih =>
    obtain ⟨hq, hls⟩ := ih
    obtain ⟨hchannel, rfl⟩ := hstep
    refine ⟨fun i => ?_, List.forall_mem_append.mpr ⟨hls, ?_⟩⟩
    · rcases eq_or_ne i l.who with rfl | hne
      · rw [Function.update_self]
        exact (hq l.who).afterOp l.op
      · rw [Function.update_of_ne hne]
        exact hq i
    · rw [List.forall_mem_singleton, hchannel]
      exact hq l.who

/-! ## Messages between channels -/

variable {ι : Type}

/-- The call seals the message. -/
def Use.Seals (cipher : NodeCipher) (l : Use ι) (m : Message) : Prop :=
  ∃ plaintext aad, l.op = .encrypt plaintext aad ∧
    (encryptToPeer cipher l.channel plaintext aad).1 = .ok m

/-- The call is handed the bytes of the message, and opens them. -/
def Use.Opens (cipher : NodeCipher) (l : Use ι) (m : Message) : Prop :=
  ∃ nonce ciphertext tag aad pt, l.op = .decrypt nonce ciphertext tag aad ∧
    toBytes nonce = .ok m.nonce ∧ toBytes ciphertext = .ok m.ciphertext ∧
    toBytes tag = .ok m.tag ∧
    (decryptFromPeer cipher l.channel nonce ciphertext tag aad).1 = .ok (some pt)

/-- The key schedule gives different encryption keys to different contexts, of
those that the channels come to. -/
def InjectiveContexts (node : NodeHash) (ls : List (Use ι)) : Prop :=
  ∀ l ∈ ls, ∀ l' ∈ ls, ∀ d d' : Role, ∀ keys keys',
    contextKeys node l.channel d = .ok keys →
    contextKeys node l'.channel d' = .ok keys' →
    keys.encKey = keys'.encKey →
    directionContext l.channel.baseContext l.channel.epoch d
      = directionContext l'.channel.baseContext l'.channel.epoch d'

/-- A message opens under no other key than the one under which it was
sealed. -/
def KeyBound (cipher : NodeCipher) (ls : List (Use ι)) : Prop :=
  ∀ s ∈ ls, ∀ l ∈ ls, ∀ m, s.Seals cipher m → l.Opens cipher m →
    l.channel.recvKey = s.channel.sendKey

/-- **Contexts never collide**, whatever the base contexts are.  Hence a message
that a channel opens was sealed for the same base context and in the same epoch,
by a channel of the other role: it is not opened in any other channel, epoch or
direction, and a channel does not open what is reflected to it. -/
theorem contexts_separate [DecidableEq ι] {params : ι → Params}
    {p p' : ι → SecureChannel} {ls : List (Use ι)}
    (hnew : ∀ i, new node (params i) = .ok (p i))
    (hrun : Run (Used node cipher) p ls p') (hkdf : InjectiveContexts node ls)
    (hbound : KeyBound cipher ls) :
    (∀ b b' e e' d d', directionContext b e d = directionContext b' e' d' →
      b = b' ∧ e = e' ∧ d = d') ∧
    ∀ s ∈ ls, ∀ l ∈ ls, ∀ m, s.Seals cipher m → l.Opens cipher m →
      s.channel.baseContext = l.channel.baseContext ∧
        s.channel.epoch = l.channel.epoch ∧ s.channel.role = l.channel.role.peer := by
  refine ⟨fun b b' e e' d d' h => context_injective h, ?_⟩
  intro s hs l hl m hseals hopens
  obtain ⟨-, hderived⟩ := derived_of_run hnew hrun
  obtain ⟨send, -, hsend, -, hsendKey, -⟩ := (hderived s hs).keys
  obtain ⟨-, recv, -, hrecv, -, hrecvKey⟩ := (hderived l hl).keys
  have hkey : send.encKey = recv.encKey :=
    hsendKey.symm.trans ((hbound s hs l hl m hseals hopens).symm.trans hrecvKey)
  exact context_injective (hkdf s hs l hl _ _ _ _ hsend hrecv hkey)

/-- Alice of the known pair seals a message, and Bob opens it. -/
theorem contexts_separate_known :
    ∃ (p p' : Role → SecureChannel) (s l : Use Role) (m : Message),
      (∀ role, new knownHash (paramsOf (.bytes knownSecret) knownContext none role)
        = .ok (p role)) ∧
      Run (Used knownHash (Tabulated.cipher knownMessage)) p [s, l] p' ∧
      s.Seals (Tabulated.cipher knownMessage) m ∧
      l.Opens (Tabulated.cipher knownMessage) m ∧
      s.channel.baseContext = l.channel.baseContext ∧
      s.channel.epoch = l.channel.epoch ∧ s.channel.role = l.channel.role.peer := by
  obtain ⟨S⟩ := exists_schedule knownHash (by decide : knownSecret ≠ [])
    knownContext (by decide : Hkdf.SupportedHash (js "sha512"))
  have hnew := @new_ok knownHash _ _ _ none S (rfl : toBytes (.bytes knownSecret) = _)
    rfl (by decide)
  obtain ⟨m, hm, hopen⟩ := opened (Tabulated.lawful_cipher knownMessage)
    (S.coherent_fresh .alice) (S.coherent_fresh .bob) rfl
    (rfl : toBytes (.text (js "hi")) = .ok (utf8 (js "hi")))
    (rfl : toBytes .nullish = .ok [])
  let s : Use Role := ⟨.alice, S.fresh .alice, .encrypt (.text (js "hi")) .nullish⟩
  let l : Use Role := ⟨.bob, S.fresh .bob,
    .decrypt (.bytes m.nonce) (.bytes m.ciphertext) (.bytes m.tag) .nullish⟩
  have hrun : Run (Used knownHash (Tabulated.cipher knownMessage)) S.fresh [s, l] _ :=
    .cons ⟨rfl, rfl⟩ (.single ⟨rfl, rfl⟩)
  have hseals : s.Seals (Tabulated.cipher knownMessage) m := ⟨_, _, rfl, hm⟩
  have hopens : l.Opens (Tabulated.cipher knownMessage) m :=
    ⟨_, _, _, _, _, rfl, rfl, rfl, rfl, hopen⟩
  have hmem : ∀ x ∈ [s, l], x = s ∨ x = l := fun x hx => by simpa using hx
  have hchannel : ∀ x ∈ [s, l], ∃ role, x.channel = S.fresh role := by
    intro x hx
    rcases hmem x hx with rfl | rfl
    · exact ⟨.alice, rfl⟩
    · exact ⟨.bob, rfl⟩
  have hkdf : InjectiveContexts knownHash [s, l] := by
    intro x hx y hy d d' keys keys' hkeys hkeys' henc
    obtain ⟨r, hr⟩ := hchannel x hx
    obtain ⟨r', hr'⟩ := hchannel y hy
    rw [hr] at hkeys ⊢
    rw [hr'] at hkeys' ⊢
    by_contra hne
    exact distinctKeys_known 0 le_rfl 0 le_rfl d d' hne keys keys' hkeys hkeys' henc
  have hbound : KeyBound (Tabulated.cipher knownMessage) [s, l] := by
    rintro x hx y hy m' ⟨plaintext, aad, hencrypt, -⟩ ⟨_, _, _, _, _, hdecrypt, -⟩
    rcases hmem x hx with rfl | rfl
    · rcases hmem y hy with rfl | rfl
      · cases hdecrypt
      · rfl
    · cases hencrypt
  obtain ⟨-, hseparate⟩ := contexts_separate hnew hrun hkdf hbound
  exact ⟨S.fresh, _, s, l, m, hnew, hrun, hseals, hopens,
    hseparate s (by simp) l (by simp) m hseals hopens⟩

end NewZone.Crypto.SecureChannel
