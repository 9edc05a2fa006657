import NewZone.Crypto.ChannelRuns
import NewZone.Crypto.HandshakeRuns

/-!
# From the handshake to the channel

A session as the demos put it together: the secret that `aliceFinishHandshake`
returns goes into one channel, and the one that `bobRespondHandshake` returned
into the other.  The handshake may have run on a hostile network, among any
number of others.  The two channels then deliver in both directions, whatever
happens on them in between.
-/

namespace NewZone.Crypto.SecureSession

open NewZone.Js NewZone.Runs NewZone.X25519 NewZone.Crypto.SecureChannel
open NewZone.Crypto.Handshake (Action AliceHello BobHello aliceFinishHandshake_eq_ok
  bobRespondHandshake_eq_ok base_of_generated log_eq step_of_mem)

variable {Party : Type} {sign : NodeSign} {seed : Party → Bytes}

/-- Whoever responded to Alice's hello with the answer that she accepts holds
her shared secret, and it has 32 bytes. -/
theorem shared_eq {pre post log : List (Action Party)} {alice bob : Party}
    {hello : AliceHello} {reply : BobHello}
    {sig identityKey shared aliceSig aliceKey : Bytes}
    (hrun : Run (Handshake.Step sign seed) []
      (pre ++ .finish alice hello reply.bobEphemeralPub sig identityKey shared :: post)
      log)
    (hrespond : .respond bob hello.aliceEphemeralPub aliceSig aliceKey reply ∈ pre) :
    reply.sharedSecretBob = shared ∧ shared.length = 32 := by
  rw [← List.singleton_append, ← List.append_assoc] at hrun
  obtain ⟨_, hfinish, -⟩ := hrun.split
  obtain ⟨s, hpre, hstep⟩ := hfinish.of_snoc
  obtain rfl := log_eq hpre
  obtain ⟨_, _, hstepB⟩ := step_of_mem hpre hrespond
  obtain ⟨hlenB, hbaseB⟩ := base_of_generated hstepB rfl
  cases hstep with
  | finish hstart _ hok =>
    obtain ⟨-, hshared⟩ := aliceFinishHandshake_eq_ok.mp hok
    obtain ⟨_, _, hstepA⟩ := step_of_mem hpre hstart
    obtain ⟨hlenA, hbaseA⟩ := base_of_generated hstepA rfl
    cases hstepB with
    | respond _ _ hanswer =>
      obtain ⟨-, hsecret, -, -, hb⟩ := bobRespondHandshake_eq_ok.mp hanswer
      dsimp only at hlenA hbaseA hlenB hbaseB
      have hagree := x25519_agree hlenA hlenB hbaseA hbaseB
      rw [hsecret] at hagree
      have hsame : reply.sharedSecretBob = shared :=
        Except.ok.inj ((hb.symm.trans hagree.symm).trans hshared)
      obtain ⟨pub, hpub, hlen⟩ := exists_x25519Base hlenB
      obtain rfl := Except.ok.inj (hbaseB.symm.trans hpub)
      obtain ⟨out, hout, houtlen⟩ := exists_x25519 hlenA hlen
      obtain rfl := Except.ok.inj (hshared.symm.trans hout)
      exact ⟨hsame, houtlen⟩

/-! ## A known session -/

/-- The secret of the known exchange. -/
def sessionSecret : Bytes :=
  Tabulated.hex 32 0x5bf22caf31c0316785b0b9bc60e56d48582ce59435ce5b3c028052be42631e0f

/-- The values for epoch `0` of that secret and the known context. -/
def sessionDirection : Role → KnownDirection
  | .alice =>
    { contextDigest := (knownDirection .alice).contextDigest
      sessionDigest :=
        Tabulated.hex 32 0xd74ae1a3591b2493580c3c0293e97c0172393c1c9482394695419fb09318f321 ++
        Tabulated.hex 32 0x2fa0bf02c2e26e99c071f27dd1c03ff14b47dd9c9277fa2fefe8d147c0ddc8d2
      prk :=
        Tabulated.hex 32 0x0eb074d502fcdb3b4073570c0b41aa3dd470f98ba63885290cc41727d44d781f ++
        Tabulated.hex 32 0x027d6d5504c9b3a3ac0906cd0376f3530ef7e845e1c696574a00c7e0e8215476
      t1 :=
        Tabulated.hex 32 0x464628e9d37e39a5f00cb2b0bb961aa89f8a7443b3c2847fc01c973a5fbf1d40 ++
        Tabulated.hex 32 0xf0f99eb79d8002533873b4b826ba1a2647e6e5b6a6fe5978ebf6f86f687104ca
      t2 :=
        Tabulated.hex 32 0x9a15eb53f1f966ca506f6530e32a17823e61144239711f5f3ca979c46a2cf09e ++
        Tabulated.hex 32 0xe178db129ae379550ffbe47f121f1354e8bf834706f6a1ff9c98eaededad4b8d }
  | .bob =>
    { contextDigest := (knownDirection .bob).contextDigest
      sessionDigest :=
        Tabulated.hex 32 0xf937e44f0a9265545633cd42ca568a77dae16a36a2cf889669049d1daaed6be0 ++
        Tabulated.hex 32 0x73ab088764d795d01652e7f579f9377b00ef08f06f17f9870fe2c819efa642d9
      prk :=
        Tabulated.hex 32 0x0522d5a9e4759429df78c6eed02a7208a4814c7f5f0ddd23cbf80b504e8bb337 ++
        Tabulated.hex 32 0xb9453850123989729a69748a9a6f092cf796156fe30e3d3a268f4d457992df56
      t1 :=
        Tabulated.hex 32 0x62520d812440be7c675b1959ae2f5b2cdd34a3691bfd18aa95cdf9c97cb46968 ++
        Tabulated.hex 32 0x9c63c1c697540c3eb73ac02b146ff8df62becdf87a548d6e41c97d6bf63ef7c8
      t2 :=
        Tabulated.hex 32 0x3c7a8edb5e53d460f7b740562cfd51aea340d7710f8dddc46a633d4b40b20354 ++
        Tabulated.hex 32 0x6926b27e21dcb57b8cda79286883567200058caff121464ecc6cd2f469b69c1f }

/-- The hashes with those values. -/
def sessionHash : NodeHash :=
  let context := fun role => utf8 (directionContext knownContext 0 role)
  let salt := fun role => (sessionDirection role).contextDigest.take 32
  let info := fun role => salt role ++ utf8 (js "NZ-CRYPTO-02/session-keys")
  let roles := [Role.alice, Role.bob]
  Tabulated.hash []
    (roles.flatMap fun role =>
      [(context role, (sessionDirection role).contextDigest),
        (sessionSecret ++ context role, (sessionDirection role).sessionDigest)])
    (roles.flatMap fun role =>
      [((salt role, sessionSecret), (sessionDirection role).prk),
        (((sessionDirection role).prk, info role ++ [1]), (sessionDirection role).t1),
        (((sessionDirection role).prk, (sessionDirection role).t1 ++ info role ++ [2]),
          (sessionDirection role).t2)])

/-- The first message of Alice to Bob, `hi` without associated data. -/
def sessionMessage : Tabulated.KnownSealing where
  key := (sessionDirection .alice).t1.take 32
  nonce := Tabulated.hex 12 0x9a15eb53f1f966ca00000001
  aad := none
  plaintext := utf8 (js "hi")
  ciphertext := [0x1e, 0x53]
  tag := Tabulated.hex 16 0x58112031aab6aa05e63b102774d0f0f9
  tag_length := Tabulated.length_hex _ _
  tag_ne := by decide

/-! ## Delivery -/

variable {node : NodeHash} {cipher : NodeCipher}

/-- **A session delivers.**  Alice finishes a handshake with an answer to her own
hello, on whatever network.  Then both constructors accept the secrets that the
two sides hold, and after any calls on the two channels a message that one end
seals is opened by the other in the epoch in which it was sealed. -/
theorem session_delivers (hcipher : cipher.Lawful) {baseContext hash : JsString}
    (hbase : baseContext ≠ []) (hhash : hash = js "sha512" ∨ hash = js "blake2b")
    {pre post log : List (Action Party)} {alice bob : Party}
    {hello : AliceHello} {reply : BobHello}
    {sig identityKey shared aliceSig aliceKey : Bytes}
    (hrun : Run (Handshake.Step sign seed) []
      (pre ++ .finish alice hello reply.bobEphemeralPub sig identityKey shared :: post)
      log)
    (hrespond : .respond bob hello.aliceEphemeralPub aliceSig aliceKey reply ∈ pre) :
    ∃ p : Pair,
      new node (paramsOf (.bytes shared) baseContext (some hash) .alice)
        = .ok (p .alice) ∧
      new node (paramsOf (.bytes reply.sharedSecretBob) baseContext (some hash) .bob)
        = .ok (p .bob) ∧
      ∀ {before : List Call} {q : Pair}, Run (Step node cipher) p before q →
        ∀ (role : Role) {plaintext aad : Input} {pt a : Bytes},
          toBytes plaintext = .ok pt → toBytes aad = .ok a →
          ∃ m, (encryptToPeer cipher (q role) plaintext aad).1 = .ok m ∧
            ∀ {later : List Call} {s : Pair}, Run (Step node cipher) p later s →
              rekeysBy role.peer later = rekeysBy role before →
              (decryptFromPeer cipher (s role.peer) (.bytes m.nonce)
                (.bytes m.ciphertext) (.bytes m.tag) aad).1 = .ok (some pt) := by
  obtain ⟨hsame, hlength⟩ := shared_eq hrun hrespond
  have hne : shared ≠ [] := by
    rintro rfl
    cases hlength
  have hsupported : Hkdf.SupportedHash hash := by
    rcases hhash with rfl | rfl <;> decide
  obtain ⟨S⟩ := exists_schedule node hne baseContext hsupported
  have hnew := @new_ok node _ _ (.bytes shared) (some hash) S rfl rfl hbase
  refine ⟨S.fresh, hnew .alice, by rw [hsame]; exact hnew .bob, ?_⟩
  intro before q hq role plaintext aad pt a hpt ha
  obtain ⟨hc, hcepoch⟩ := tracks_of_run hq role
  obtain ⟨out, -, hcall⟩ := hc.encryptToPeer cipher hpt ha
  refine ⟨_, congrArg Prod.fst hcall, ?_⟩
  intro later s hs hrekeys
  obtain ⟨hd, hdepoch⟩ := tracks_of_run hs role.peer
  obtain ⟨m, hm, hopen⟩ := opened hcipher hc hd (by rw [hdepoch, hcepoch, hrekeys]) hpt ha
  rw [hcall] at hm
  obtain rfl := Except.ok.inj hm
  exact hopen

/-- The known exchange, and the first message that Alice sends after it. -/
theorem session_delivers_known :
    ∃ (reply : BobHello) (shared : Bytes) (p : Pair),
      new sessionHash (paramsOf (.bytes shared) knownContext (some (js "sha512")) .alice)
        = .ok (p .alice) ∧
      new sessionHash (paramsOf (.bytes reply.sharedSecretBob) knownContext
        (some (js "sha512")) .bob) = .ok (p .bob) ∧
      ∃ m, (encryptToPeer (Tabulated.cipher sessionMessage) (p .alice)
          (.text (js "hi")) .nullish).1 = .ok m ∧
        (decryptFromPeer (Tabulated.cipher sessionMessage) (p .bob) (.bytes m.nonce)
          (.bytes m.ciphertext) (.bytes m.tag) .nullish).1
            = .ok (some (utf8 (js "hi"))) := by
  obtain ⟨hello, reply, hsecret, -, hrun, hfinish⟩ :=
    @Handshake.exists_answer Handshake.KnownParty Handshake.knownSign
      Handshake.knownSeed Handshake.lawful_knownSign .alice .bob _ _
      Handshake.knownSecretA Handshake.knownSecretB rfl rfl Handshake.knownSeed_alice
      Handshake.knownSeed_bob rfl rfl
  obtain ⟨shared, hshared⟩ := hfinish hello.aliceEphemeralSecret (by rw [hsecret]; rfl)
  have hend := Run.snoc hrun (Handshake.Step.finish List.mem_cons_self
    (Handshake.unforged_answered (List.Subset.refl _) Handshake.knownSeed_bob) hshared)
  obtain ⟨p, halice, hbob, hdelivers⟩ := @session_delivers _ _ _ sessionHash _
    (Tabulated.lawful_cipher sessionMessage) knownContext (js "sha512") (by decide)
    (.inl rfl) _ [] _ _ _ hello reply _ _ shared _ _ hend
    (List.mem_cons_of_mem _ List.mem_cons_self)
  obtain ⟨m, hm, hopen⟩ := hdelivers (.nil p) .alice
    (rfl : toBytes (.text (js "hi")) = .ok (utf8 (js "hi")))
    (rfl : toBytes .nullish = .ok [])
  exact ⟨reply, shared, p, halice, hbob, m, hm, hopen (.nil p) rfl⟩

end NewZone.Crypto.SecureSession
