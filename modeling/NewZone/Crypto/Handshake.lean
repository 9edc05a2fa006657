import NewZone.Crypto.Ed25519
import NewZone.Crypto.Tabulated
import NewZone.Crypto.X25519Agreement

/-!
# The handshake

`lib/handshake.js`: each party sends an ephemeral X25519 key with an Ed25519
signature over the label and that key alone.  The ephemeral secret that the
source takes from `crypto.randomBytes(32)` is an argument here.

A call that returns `{ ok: false, error }` answers `Reply.failed`; a throw is
`Except.error`.
-/

namespace NewZone.Crypto.Handshake

open NewZone.Js NewZone.ExceptBind NewZone.X25519 NewZone.Crypto.Ed25519

/-- `{ ok: true, ... }` or `{ ok: false, error }`. -/
inductive Reply (α : Type) where
  | ok (value : α)
  | failed (error : String)

/-- `HANDSHAKE_LABEL`, as `buildTranscriptLabel` returns it. -/
def buildTranscriptLabel : Bytes := utf8 (js "NZ-CRYPTO-02/handshake/v1")

/-- What `aliceStartHandshake` returns. -/
structure AliceHello where
  aliceEphemeralSecret : Bytes
  aliceEphemeralPub : Bytes
  aliceSig : Bytes

def aliceStartHandshake (node : NodeSign)
    (aliceIdentityPrivateSeed aliceEphemeralSecret : Bytes) :
    Except String AliceHello := do
  let aliceEphemeralPub ← x25519Base aliceEphemeralSecret
  let toSign := concatBytes buildTranscriptLabel aliceEphemeralPub
  let aliceSig ← ed25519Sign node toSign aliceIdentityPrivateSeed
  return { aliceEphemeralSecret := aliceEphemeralSecret
           aliceEphemeralPub := aliceEphemeralPub
           aliceSig := aliceSig }

/-- The argument of `bobRespondHandshake`. -/
structure RespondParams where
  aliceEphemeralPub : Bytes
  aliceSig : Bytes
  aliceIdentityPublicKey : Bytes
  bobIdentityPrivateSeed : Bytes

/-- What `bobRespondHandshake` returns beside `ok: true`. -/
structure BobHello where
  bobEphemeralSecret : Bytes
  bobEphemeralPub : Bytes
  bobSig : Bytes
  sharedSecretBob : Bytes

def bobRespondHandshake (node : NodeSign) (params : RespondParams)
    (bobEphemeralSecret : Bytes) : Except String (Reply BobHello) := do
  let toVerify := concatBytes buildTranscriptLabel params.aliceEphemeralPub
  let ok ← ed25519Verify node toVerify params.aliceSig
    params.aliceIdentityPublicKey
  if !ok then
    return .failed "Alice identity signature invalid"
  let bobEphemeralPub ← x25519Base bobEphemeralSecret
  let toSignBob := concatBytes buildTranscriptLabel bobEphemeralPub
  let bobSig ← ed25519Sign node toSignBob params.bobIdentityPrivateSeed
  let sharedSecretBob ← x25519 bobEphemeralSecret params.aliceEphemeralPub
  return .ok { bobEphemeralSecret := bobEphemeralSecret
               bobEphemeralPub := bobEphemeralPub
               bobSig := bobSig
               sharedSecretBob := sharedSecretBob }

/-- The argument of `aliceFinishHandshake`. -/
structure FinishParams where
  aliceEphemeralSecret : Bytes
  bobEphemeralPub : Bytes
  bobSig : Bytes
  bobIdentityPublicKey : Bytes

/-- `aliceFinishHandshake`, which returns `sharedSecretAlice`. -/
def aliceFinishHandshake (node : NodeSign) (params : FinishParams) :
    Except String (Reply Bytes) := do
  let toVerifyBob := concatBytes buildTranscriptLabel params.bobEphemeralPub
  let ok ← ed25519Verify node toVerifyBob params.bobSig
    params.bobIdentityPublicKey
  if !ok then
    return .failed "Bob identity signature invalid"
  let sharedSecretAlice ← x25519 params.aliceEphemeralSecret
    params.bobEphemeralPub
  return .ok sharedSecretAlice

/-! ## What a call that succeeds has done -/

theorem aliceStartHandshake_eq_ok {node : NodeSign} {seed secret : Bytes}
    {hello : AliceHello} :
    aliceStartHandshake node seed secret = .ok hello ↔
      hello.aliceEphemeralSecret = secret ∧
      x25519Base secret = .ok hello.aliceEphemeralPub ∧
      ed25519Sign node (buildTranscriptLabel ++ hello.aliceEphemeralPub) seed
        = .ok hello.aliceSig := by
  unfold aliceStartHandshake
  rw [bind_eq_ok]
  constructor
  · rintro ⟨pub, hpub, h⟩
    obtain ⟨sig, hsig, h⟩ := bind_eq_ok.mp h
    obtain rfl := Except.ok.inj h
    exact ⟨rfl, hpub, hsig⟩
  · rintro ⟨rfl, hpub, hsig⟩
    exact ⟨_, hpub, bind_of_ok hsig _⟩

theorem bobRespondHandshake_eq_ok {node : NodeSign} {params : RespondParams}
    {secret : Bytes} {reply : BobHello} :
    bobRespondHandshake node params secret = .ok (.ok reply) ↔
      ed25519Verify node (buildTranscriptLabel ++ params.aliceEphemeralPub)
        params.aliceSig params.aliceIdentityPublicKey = .ok true ∧
      reply.bobEphemeralSecret = secret ∧
      x25519Base secret = .ok reply.bobEphemeralPub ∧
      ed25519Sign node (buildTranscriptLabel ++ reply.bobEphemeralPub)
        params.bobIdentityPrivateSeed = .ok reply.bobSig ∧
      x25519 secret params.aliceEphemeralPub = .ok reply.sharedSecretBob := by
  unfold bobRespondHandshake
  rw [bind_eq_ok]
  constructor
  · rintro ⟨ok, hok, h⟩
    cases ok with
    | false => cases h
    | true =>
      obtain ⟨pub, hpub, h⟩ := bind_eq_ok.mp h
      obtain ⟨sig, hsig, h⟩ := bind_eq_ok.mp h
      obtain ⟨shared, hshared, h⟩ := bind_eq_ok.mp h
      obtain rfl := Reply.ok.inj (Except.ok.inj h)
      exact ⟨hok, rfl, hpub, hsig, hshared⟩
  · rintro ⟨hok, rfl, hpub, hsig, hshared⟩
    exact ⟨true, hok, (bind_of_ok hpub _).trans ((bind_of_ok hsig _).trans
      (bind_of_ok hshared _))⟩

theorem aliceFinishHandshake_eq_ok {node : NodeSign} {params : FinishParams}
    {shared : Bytes} :
    aliceFinishHandshake node params = .ok (.ok shared) ↔
      ed25519Verify node (buildTranscriptLabel ++ params.bobEphemeralPub)
        params.bobSig params.bobIdentityPublicKey = .ok true ∧
      x25519 params.aliceEphemeralSecret params.bobEphemeralPub
        = .ok shared := by
  unfold aliceFinishHandshake
  rw [bind_eq_ok]
  constructor
  · rintro ⟨ok, hok, h⟩
    cases ok with
    | false => cases h
    | true =>
      obtain ⟨s, hs, h⟩ := bind_eq_ok.mp h
      obtain rfl := Reply.ok.inj (Except.ok.inj h)
      exact ⟨hok, hs⟩
  · rintro ⟨hok, hs⟩
    exact ⟨true, hok, bind_of_ok hs _⟩

/-! ## The honest exchange -/

/-- An exchange whose messages arrive as they were sent succeeds on both sides,
with one shared secret. -/
theorem exists_exchange {node : NodeSign} (hnode : node.Lawful)
    {aliceSeed bobSeed alicePub bobPub a b : Bytes}
    (haliceSeed : aliceSeed.length = 32) (hbobSeed : bobSeed.length = 32)
    (halicePub : ed25519GetPublicKey node aliceSeed = .ok alicePub)
    (hbobPub : ed25519GetPublicKey node bobSeed = .ok bobPub)
    (ha : a.length = 32) (hb : b.length = 32) :
    ∃ (hello : AliceHello) (reply : BobHello),
      aliceStartHandshake node aliceSeed a = .ok hello ∧
      bobRespondHandshake node
        { aliceEphemeralPub := hello.aliceEphemeralPub
          aliceSig := hello.aliceSig
          aliceIdentityPublicKey := alicePub
          bobIdentityPrivateSeed := bobSeed } b = .ok (.ok reply) ∧
      aliceFinishHandshake node
        { aliceEphemeralSecret := hello.aliceEphemeralSecret
          bobEphemeralPub := reply.bobEphemeralPub
          bobSig := reply.bobSig
          bobIdentityPublicKey := bobPub }
        = .ok (.ok reply.sharedSecretBob) := by
  obtain ⟨pubA, hpubA, hlenA⟩ := exists_x25519Base ha
  obtain ⟨pubB, hpubB, -⟩ := exists_x25519Base hb
  obtain ⟨shared, hshared, -⟩ := exists_x25519 hb hlenA
  obtain ⟨alicePub', halicePub', haliceSign⟩ := exists_sign_verify hnode haliceSeed
  obtain ⟨bobPub', hbobPub', hbobSign⟩ := exists_sign_verify hnode hbobSeed
  obtain rfl := Except.ok.inj (halicePub.symm.trans halicePub')
  obtain rfl := Except.ok.inj (hbobPub.symm.trans hbobPub')
  obtain ⟨aliceSig, haliceSig, haliceOk⟩ := haliceSign (buildTranscriptLabel ++ pubA)
  obtain ⟨bobSig, hbobSig, hbobOk⟩ := hbobSign (buildTranscriptLabel ++ pubB)
  have hagree : x25519 a pubB = .ok shared := by
    rw [x25519_agree ha hb hpubA hpubB, hshared]
  exact ⟨⟨a, pubA, aliceSig⟩, ⟨b, pubB, bobSig, shared⟩,
    aliceStartHandshake_eq_ok.mpr ⟨rfl, hpubA, haliceSig⟩,
    bobRespondHandshake_eq_ok.mpr ⟨haliceOk, rfl, hpubB, hbobSig, hshared⟩,
    aliceFinishHandshake_eq_ok.mpr ⟨hbobOk, hagree⟩⟩

/-! ## A known exchange -/

/-- The identity seeds to try the handshake with. -/
def knownAliceSeed : Bytes := List.replicate 32 0xa1

def knownBobSeed : Bytes := List.replicate 32 0xb1

/-- The identity public keys of those seeds. -/
def knownAliceKey : Tabulated.Key :=
  ⟨Tabulated.hex 32 0xbc7cbcb5636375fa1d82434d466724d92377f53b980695dd49d26d0ce12205a5,
    Tabulated.length_hex _ _⟩

def knownBobKey : Tabulated.Key :=
  ⟨Tabulated.hex 32 0x4721b5b632272e65a68dda7ac25b4185f8b01916db185c14287db92e2b770fae,
    Tabulated.length_hex _ _⟩

/-- Ephemeral secrets: two of Alice and one of Bob. -/
def knownSecretA : Bytes := List.replicate 32 0x11

def knownSecretA' : Bytes := List.replicate 32 0x22

def knownSecretB : Bytes := List.replicate 32 0x33

/-- The public keys of those secrets. -/
def knownPubA : Bytes :=
  Tabulated.hex 32 0x7b4e909bbe7ffe44c465a220037d608ee35897d31ef972f07f74892cb0f73f13

def knownPubA' : Bytes :=
  Tabulated.hex 32 0x0faa684ed28867b97f4a6a2dee5df8ce974e76b7018e3f22a1c4cf2678570f20

def knownPubB : Bytes :=
  Tabulated.hex 32 0x7b0d47d93427f8311160781c7c733fd89f88970aef490d8aa0ee19a4cb8a1b14

/-- The two halves of a signature. -/
def signature (r s : ℕ) : { sig : Bytes // sig.length = 64 } :=
  ⟨Tabulated.hex 32 r ++ Tabulated.hex 32 s, by simp⟩

/-- Ed25519 with the values of those seeds on the messages of the exchange. -/
def knownSign : NodeSign :=
  Tabulated.sign
    [(⟨knownAliceSeed, rfl⟩, knownAliceKey), (⟨knownBobSeed, rfl⟩, knownBobKey)]
    [((buildTranscriptLabel ++ knownPubA, knownAliceKey), signature
        0xdcb2bc0dc5e2bc61b6cad541c4b70cc177ee75e880c8ea4b4b951040d16404f0
        0xfbc9a57d0a20d309b1dc9c73cad658b4389fd2697a2af338a5bdc04e4ce1b00f),
      ((buildTranscriptLabel ++ knownPubA', knownAliceKey), signature
        0x7cbd5aecaaf672b2780063eb182b91268862f3912b848ad635193041d255e0d1
        0x643394967b97979c49d98abaaaa3b6a73f2aadb641f702fe3447c7891b13a400),
      ((buildTranscriptLabel ++ knownPubB, knownBobKey), signature
        0x01703a6512320dd4b4b7b5b98f68cceb6178d6daa320948cc1397b38df35ad67
        0x8282cc66f1930950cad154711254e35743287dca931e0419dcaa22ca35befa0f)]

theorem lawful_knownSign : knownSign.Lawful := Tabulated.lawful_sign _ _

theorem knownAliceKey_eq :
    ed25519GetPublicKey knownSign knownAliceSeed = .ok knownAliceKey.1 := by
  rfl

theorem knownBobKey_eq :
    ed25519GetPublicKey knownSign knownBobSeed = .ok knownBobKey.1 := by
  rfl

set_option maxRecDepth 1000000 in
theorem knownPubA_eq : x25519Base knownSecretA = .ok knownPubA := by
  decide +kernel

set_option maxRecDepth 1000000 in
theorem knownPubA'_eq : x25519Base knownSecretA' = .ok knownPubA' := by
  decide +kernel

end NewZone.Crypto.Handshake
