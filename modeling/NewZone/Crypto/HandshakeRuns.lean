import NewZone.Crypto.Handshake
import NewZone.Lib.Runs

/-!
# Handshakes on a hostile network

Any number of sessions of honest parties.  The network is the adversary: the
arguments that a call takes from a message are arbitrary bytes, so messages may
be lost, repeated, reordered, made up, or moved from one session to another.
The one thing that the adversary cannot do is to sign in the name of an honest
seed (`Unforged`).

A signature covers the label and the signer's own ephemeral key, as the model
comment of the source says.  So an accepted key was made by the party that it
is accepted from (`accepted_key_generated`), but in no particular session:
`spliced_answer` is a run in which the answer to one session is accepted in
another.
-/

namespace NewZone.Crypto.Handshake

open NewZone.Js NewZone.Runs NewZone.X25519 NewZone.Crypto.Ed25519

variable {Party : Type}

/-- A call that an honest party has completed, with what it took from the
network and what it returned. -/
inductive Action (Party : Type) where
  | start (party : Party) (hello : AliceHello)
  | respond (party : Party)
      (aliceEphemeralPub aliceSig aliceIdentityPublicKey : Bytes)
      (reply : BobHello)
  | finish (party : Party) (hello : AliceHello)
      (bobEphemeralPub bobSig bobIdentityPublicKey sharedSecretAlice : Bytes)

/-- An ephemeral key pair of a party. -/
structure Ephemeral (Party : Type) where
  party : Party
  secret : Bytes
  pub : Bytes

/-- The ephemeral key pair that a call has made and signed. -/
def Action.generated : Action Party → Option (Ephemeral Party)
  | .start party hello =>
    some ⟨party, hello.aliceEphemeralSecret, hello.aliceEphemeralPub⟩
  | .respond party _ _ _ reply =>
    some ⟨party, reply.bobEphemeralSecret, reply.bobEphemeralPub⟩
  | .finish _ _ _ _ _ _ => none

variable (node : NodeSign) (seed : Party → Bytes)

/-- A signature on an ephemeral key that verifies for an honest party was made
by a call of a party with that identity key. -/
def Unforged (log : List (Action Party)) (pub sig identityKey : Bytes) : Prop :=
  ∀ party, ed25519GetPublicKey node (seed party) = .ok identityKey →
    ed25519Verify node (buildTranscriptLabel ++ pub) sig identityKey
      = .ok true →
    ∃ action ∈ log, ∃ key : Ephemeral Party, action.generated = some key ∧
      ed25519GetPublicKey node (seed key.party) = .ok identityKey ∧
      buildTranscriptLabel ++ key.pub = buildTranscriptLabel ++ pub

/-- One completed call.  The state is the log of the calls so far. -/
inductive Step : List (Action Party) → Action Party → List (Action Party) → Prop
  | start {log : List (Action Party)} {party : Party} {secret : Bytes}
      {hello : AliceHello} :
      secret.length = 32 →
      aliceStartHandshake node (seed party) secret = .ok hello →
      Step log (.start party hello) (log ++ [.start party hello])
  | respond {log : List (Action Party)} {party : Party} {secret : Bytes}
      {pub sig identityKey : Bytes} {reply : BobHello} :
      secret.length = 32 →
      Unforged node seed log pub sig identityKey →
      bobRespondHandshake node
        { aliceEphemeralPub := pub, aliceSig := sig
          aliceIdentityPublicKey := identityKey
          bobIdentityPrivateSeed := seed party } secret = .ok (.ok reply) →
      Step log (.respond party pub sig identityKey reply)
        (log ++ [.respond party pub sig identityKey reply])
  | finish {log : List (Action Party)} {party : Party} {hello : AliceHello}
      {pub sig identityKey shared : Bytes} :
      .start party hello ∈ log →
      Unforged node seed log pub sig identityKey →
      aliceFinishHandshake node
        { aliceEphemeralSecret := hello.aliceEphemeralSecret
          bobEphemeralPub := pub, bobSig := sig
          bobIdentityPublicKey := identityKey } = .ok (.ok shared) →
      Step log (.finish party hello pub sig identityKey shared)
        (log ++ [.finish party hello pub sig identityKey shared])

variable {node seed}

/-! ## What the log says -/

/-- The log is the history. -/
theorem log_eq {actions log : List (Action Party)}
    (h : Run (Step node seed) [] actions log) : log = actions := by
  refine h.history (P := fun actions log => log = actions) rfl ?_
  rintro es log e u - rfl hstep
  cases hstep <;> rfl

/-- Every call of a log was a step from the log before it. -/
theorem step_of_mem {actions log : List (Action Party)}
    (h : Run (Step node seed) [] actions log) {action : Action Party}
    (hmem : action ∈ actions) :
    ∃ before after, Step node seed before action after := by
  obtain ⟨pre, post, rfl⟩ := List.append_of_mem hmem
  rw [← List.singleton_append, ← List.append_assoc] at h
  obtain ⟨t, ht, -⟩ := h.split
  obtain ⟨s, -, hstep⟩ := ht.of_snoc
  exact ⟨s, t, hstep⟩

/-- The two halves of a logged ephemeral key belong together. -/
theorem base_of_generated {before after : List (Action Party)}
    {action : Action Party} {key : Ephemeral Party}
    (h : Step node seed before action after)
    (hkey : action.generated = some key) :
    key.secret.length = 32 ∧ x25519Base key.secret = .ok key.pub := by
  cases h with
  | start hlen hstart =>
    obtain ⟨hsecret, hpub, -⟩ := aliceStartHandshake_eq_ok.mp hstart
    obtain rfl := Option.some.inj hkey
    simp only [hsecret]
    exact ⟨hlen, hpub⟩
  | respond hlen _ hrespond =>
    obtain ⟨-, hsecret, hpub, -⟩ := bobRespondHandshake_eq_ok.mp hrespond
    obtain rfl := Option.some.inj hkey
    simp only [hsecret]
    exact ⟨hlen, hpub⟩
  | finish _ _ _ => cases hkey

/-- **What an accepted answer means.**  When Alice finishes a session with the
identity key of an honest party, a party with that identity key has made the
accepted ephemeral key itself, in an earlier call that started a session or
responded to one, and its secret gives with Alice's ephemeral key the shared
secret that Alice holds.  A response to exactly that ephemeral key which
answered with the accepted one holds the same shared secret. -/
theorem accepted_key_generated {pre post log : List (Action Party)}
    {alice bob : Party} {hello : AliceHello}
    {pub sig identityKey shared : Bytes}
    (hrun : Run (Step node seed) []
      (pre ++ .finish alice hello pub sig identityKey shared :: post) log)
    (hbob : ed25519GetPublicKey node (seed bob) = .ok identityKey) :
    (∃ action ∈ pre, ∃ key : Ephemeral Party, action.generated = some key ∧
      ed25519GetPublicKey node (seed key.party) = .ok identityKey ∧
      key.pub = pub ∧ x25519Base key.secret = .ok pub ∧
      x25519 hello.aliceEphemeralSecret pub = .ok shared ∧
      x25519 key.secret hello.aliceEphemeralPub = .ok shared) ∧
    ∀ party aliceSig aliceKey reply,
      .respond party hello.aliceEphemeralPub aliceSig aliceKey reply ∈ pre →
      reply.bobEphemeralPub = pub → reply.sharedSecretBob = shared := by
  rw [← List.singleton_append, ← List.append_assoc] at hrun
  obtain ⟨t, ht, -⟩ := hrun.split
  obtain ⟨s, hpre, hstep⟩ := ht.of_snoc
  obtain rfl := log_eq hpre
  cases hstep with
  | finish hstart hunforged hfinish =>
    obtain ⟨hverify, hshared⟩ := aliceFinishHandshake_eq_ok.mp hfinish
    obtain ⟨_, _, hstep₀⟩ := step_of_mem hpre hstart
    obtain ⟨hlenA, hpubA⟩ := base_of_generated hstep₀ rfl
    have hagree : ∀ b, b.length = 32 → x25519Base b = .ok pub →
        x25519 b hello.aliceEphemeralPub = .ok shared := by
      intro b hlen hb
      rw [← x25519_agree hlenA hlen hpubA hb]
      exact hshared
    refine ⟨?_, ?_⟩
    · obtain ⟨action, hmem, key, hkey, hparty, hpub⟩ :=
        hunforged bob hbob hverify
      obtain rfl := List.append_cancel_left hpub
      obtain ⟨_, _, hstep₁⟩ := step_of_mem hpre hmem
      obtain ⟨hlen, hbase⟩ := base_of_generated hstep₁ hkey
      exact ⟨action, hmem, key, hkey, hparty, rfl, hbase, hshared,
        hagree key.secret hlen hbase⟩
    · rintro party aliceSig aliceKey reply hmem rfl
      obtain ⟨_, _, hstep₁⟩ := step_of_mem hpre hmem
      obtain ⟨hlen, hbase⟩ := base_of_generated hstep₁ rfl
      cases hstep₁ with
      | respond _ _ hrespond =>
        obtain ⟨-, hsecret, -, -, hb⟩ := bobRespondHandshake_eq_ok.mp hrespond
        have := hagree reply.bobEphemeralSecret hlen hbase
        rw [hsecret] at this
        exact Except.ok.inj (hb.symm.trans this)

/-! ## Honest answers, delivered or redirected -/

/-- A key that a logged call of a party has made may be delivered with any
signature. -/
theorem unforged_of_generated {log : List (Action Party)}
    {action : Action Party} {key : Ephemeral Party} {identityKey : Bytes}
    (hmem : action ∈ log) (hkey : action.generated = some key)
    (hparty : ed25519GetPublicKey node (seed key.party) = .ok identityKey)
    (sig : Bytes) : Unforged node seed log key.pub sig identityKey :=
  fun _ _ _ => ⟨action, hmem, key, hkey, hparty, rfl⟩

/-- Alice may start a session at any time. -/
theorem exists_start (hnode : node.Lawful) {alice : Party}
    (hseed : (seed alice).length = 32) {a pubA : Bytes} (ha : a.length = 32)
    (hpubA : x25519Base a = .ok pubA) (log : List (Action Party)) :
    ∃ hello : AliceHello, hello.aliceEphemeralSecret = a ∧
      hello.aliceEphemeralPub = pubA ∧
      Step node seed log (.start alice hello) (log ++ [.start alice hello]) := by
  obtain ⟨alicePub, -, hsign⟩ := exists_sign_verify hnode hseed
  obtain ⟨sig, hsig, -⟩ := hsign (buildTranscriptLabel ++ pubA)
  exact ⟨⟨a, pubA, sig⟩, rfl, rfl,
    .start ha (aliceStartHandshake_eq_ok.mpr ⟨rfl, hpubA, hsig⟩)⟩

/-- The log of a session that has been started and responded to. -/
def answered (alice bob : Party) (aliceKey : Bytes) (hello : AliceHello)
    (reply : BobHello) : List (Action Party) :=
  [.start alice hello,
    .respond bob hello.aliceEphemeralPub hello.aliceSig aliceKey reply]

theorem unforged_answered {alice bob : Party} {aliceKey bobKey : Bytes}
    {hello : AliceHello} {reply : BobHello} {log : List (Action Party)}
    (hlog : answered alice bob aliceKey hello reply ⊆ log)
    (hbobKey : ed25519GetPublicKey node (seed bob) = .ok bobKey) :
    Unforged node seed log reply.bobEphemeralPub reply.bobSig bobKey :=
  @unforged_of_generated Party node seed log _
    ⟨bob, reply.bobEphemeralSecret, reply.bobEphemeralPub⟩ bobKey
    (hlog (List.mem_cons_of_mem _ List.mem_cons_self)) rfl hbobKey reply.bobSig

/-- A session is started and responded to, and whoever holds an ephemeral
secret accepts the answer, whether or not the session is hers. -/
theorem exists_answer (hnode : node.Lawful) {alice bob : Party}
    {aliceKey bobKey a b : Bytes} (haliceSeed : (seed alice).length = 32)
    (hbobSeed : (seed bob).length = 32)
    (haliceKey : ed25519GetPublicKey node (seed alice) = .ok aliceKey)
    (hbobKey : ed25519GetPublicKey node (seed bob) = .ok bobKey)
    (ha : a.length = 32) (hb : b.length = 32) :
    ∃ (hello : AliceHello) (reply : BobHello),
      hello.aliceEphemeralSecret = a ∧
      x25519Base a = .ok hello.aliceEphemeralPub ∧
      Run (Step node seed) [] (answered alice bob aliceKey hello reply)
        (answered alice bob aliceKey hello reply) ∧
      ∀ secret : Bytes, secret.length = 32 → ∃ shared,
        aliceFinishHandshake node
          { aliceEphemeralSecret := secret
            bobEphemeralPub := reply.bobEphemeralPub, bobSig := reply.bobSig
            bobIdentityPublicKey := bobKey } = .ok (.ok shared) := by
  obtain ⟨hello, reply, hstart, hrespond, hfinish⟩ :=
    exists_exchange hnode haliceSeed hbobSeed haliceKey hbobKey ha hb
  obtain ⟨hsecretA, hpubA, -⟩ := aliceStartHandshake_eq_ok.mp hstart
  obtain ⟨-, -, hpubB, -⟩ := bobRespondHandshake_eq_ok.mp hrespond
  obtain ⟨hverify, -⟩ := aliceFinishHandshake_eq_ok.mp hfinish
  have hlenB : reply.bobEphemeralPub.length = 32 := by
    obtain ⟨pub, hpub, hlen⟩ := exists_x25519Base hb
    obtain rfl := Except.ok.inj (hpubB.symm.trans hpub)
    exact hlen
  refine ⟨hello, reply, hsecretA, hpubA, ?_, ?_⟩
  · have h₁ : Run (Step node seed) [] [.start alice hello]
        [.start alice hello] := .snoc (.nil []) (.start ha hstart)
    have hunforged := @unforged_of_generated Party node seed _ _
      ⟨alice, hello.aliceEphemeralSecret, hello.aliceEphemeralPub⟩ aliceKey
      (List.mem_singleton_self (Action.start alice hello)) rfl haliceKey
      hello.aliceSig
    exact .snoc h₁ (.respond hb hunforged hrespond)
  · intro secret hsecret
    obtain ⟨shared, hshared, -⟩ := exists_x25519 hsecret hlenB
    exact ⟨shared, aliceFinishHandshake_eq_ok.mpr ⟨hverify, hshared⟩⟩

/-- Alice starts a second session before she finishes, and the answer to the
first is delivered to the second. -/
theorem exists_splice (hnode : node.Lawful) {alice bob : Party}
    {aliceKey bobKey a a' b pubA' : Bytes}
    (haliceSeed : (seed alice).length = 32)
    (hbobSeed : (seed bob).length = 32)
    (haliceKey : ed25519GetPublicKey node (seed alice) = .ok aliceKey)
    (hbobKey : ed25519GetPublicKey node (seed bob) = .ok bobKey)
    (ha : a.length = 32) (ha' : a'.length = 32) (hb : b.length = 32)
    (hpubA' : x25519Base a' = .ok pubA') (hne : x25519Base a ≠ .ok pubA') :
    ∃ (pre log : List (Action Party)) (hello : AliceHello)
      (pub sig shared : Bytes),
      Run (Step node seed) []
        (pre ++ [.finish alice hello pub sig bobKey shared]) log ∧
      ∀ party aliceSig key reply,
        Action.respond party hello.aliceEphemeralPub aliceSig key reply
          ∉ pre := by
  obtain ⟨hello, reply, -, hpubA, hrun, hfinish⟩ :=
    exists_answer hnode haliceSeed hbobSeed haliceKey hbobKey ha hb
  obtain ⟨hello', hsecret', hpub', hstart'⟩ :=
    exists_start hnode haliceSeed ha' hpubA'
      (answered alice bob aliceKey hello reply)
  obtain ⟨shared, hshared⟩ := hfinish a' ha'
  rw [← hsecret'] at hshared
  refine ⟨_, _, hello', _, _, _, .snoc (.snoc hrun hstart')
    (.finish (List.mem_append_right _ List.mem_cons_self)
      (unforged_answered (List.subset_append_left _ _) hbobKey) hshared), ?_⟩
  intro party aliceSig key reply' hmem
  have hpub : hello'.aliceEphemeralPub = hello.aliceEphemeralPub := by
    simp [answered] at hmem
    exact hmem.2.1
  exact hne (by rw [hpubA, ← hpub, hpub'])

/-! ## The known parties -/

inductive KnownParty where
  | alice
  | bob

def knownSeed : KnownParty → Bytes
  | .alice => knownAliceSeed
  | .bob => knownBobSeed

theorem knownSeed_alice :
    ed25519GetPublicKey knownSign (knownSeed .alice) = .ok knownAliceKey.1 :=
  knownAliceKey_eq

theorem knownSeed_bob :
    ed25519GetPublicKey knownSign (knownSeed .bob) = .ok knownBobKey.1 :=
  knownBobKey_eq

/-- Alice finishes the known exchange with a key that Bob has made. -/
theorem accepted_key_generated_known :
    ∃ (hello : AliceHello) (reply : BobHello) (key : Ephemeral KnownParty)
      (shared : Bytes),
      ed25519GetPublicKey knownSign (knownSeed key.party)
        = .ok knownBobKey.1 ∧
      key.pub = reply.bobEphemeralPub ∧
      x25519 key.secret hello.aliceEphemeralPub = .ok shared ∧
      reply.sharedSecretBob = shared := by
  obtain ⟨hello, reply, hsecret, -, hrun, hfinish⟩ :=
    @exists_answer KnownParty knownSign knownSeed lawful_knownSign .alice .bob
      _ _ knownSecretA knownSecretB rfl rfl knownSeed_alice knownSeed_bob rfl rfl
  obtain ⟨shared, hshared⟩ := hfinish hello.aliceEphemeralSecret
    (by rw [hsecret]; rfl)
  have hend := Run.snoc hrun (Step.finish List.mem_cons_self
    (unforged_answered (List.Subset.refl _) knownSeed_bob) hshared)
  obtain ⟨⟨action, -, key, -, hparty, hpub, -, -, hkey⟩, hrespond⟩ :=
    @accepted_key_generated KnownParty knownSign knownSeed _ [] _ .alice .bob
      hello _ _ _ _ hend knownSeed_bob
  exact ⟨hello, reply, key, shared, hparty, hpub, hkey,
    hrespond .bob hello.aliceSig knownAliceKey.1 reply
      (List.mem_cons_of_mem _ List.mem_cons_self) rfl⟩

/-- **An answer moves between sessions.**  Alice starts two sessions, Bob
responds to the first, and Alice accepts his answer in the second, whose
ephemeral key nobody has responded to. -/
theorem spliced_answer :
    ∃ (pre log : List (Action KnownParty)) (hello : AliceHello)
      (pub sig shared : Bytes),
      Run (Step knownSign knownSeed) []
        (pre ++ [.finish .alice hello pub sig knownBobKey.1 shared]) log ∧
      ed25519GetPublicKey knownSign (knownSeed .bob) = .ok knownBobKey.1 ∧
      ∀ party aliceSig key reply,
        Action.respond party hello.aliceEphemeralPub aliceSig key reply
          ∉ pre := by
  have hne : x25519Base knownSecretA ≠ .ok knownPubA' := by
    rw [knownPubA_eq]
    decide
  obtain ⟨pre, log, hello, pub, sig, shared, hrun, hnone⟩ :=
    @exists_splice KnownParty knownSign knownSeed lawful_knownSign .alice .bob
      _ _ knownSecretA knownSecretA' knownSecretB _ rfl rfl knownSeed_alice
      knownSeed_bob rfl rfl rfl knownPubA'_eq hne
  exact ⟨pre, log, hello, pub, sig, shared, hrun, knownSeed_bob, hnone⟩

end NewZone.Crypto.Handshake
