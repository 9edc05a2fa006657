import NewZone.Crypto.Ed25519
import NewZone.Crypto.Tabulated
import NewZone.Lib.Framing

/-!
# The extended modes of Ed25519

`Ed25519ctx` and `Ed25519ph` of `lib/ed25519.js`.  Both put `dom2` in front of the
message and sign the result with plain Ed25519.

What is signed is a frame, so the two modes, their contexts and their messages
are told apart (`framing_unambiguous`).  But a frame is a message like any other,
and plain Ed25519 signs it as well: RFC 8032 mixes `dom2` into the hashes, where no
plain message can put it.  `plain_separate_iff` says which plain messages are
frames.
-/

namespace NewZone.Crypto.Ed25519

open NewZone.Js NewZone.ExceptBind NewZone.Framing

/-- `Buffer.from(v)` -/
def bufferFrom : Input → Except String Bytes
  | .bytes b => .ok b
  | .text s => .ok (utf8 s)
  | .nullish => .error "The first argument must be of type string or an instance of Buffer"
  | .other => .error "The first argument must be of type string or an instance of Buffer"

/-- `"SigEd25519 no Ed25519 collisions"` -/
def domPrefix : Bytes :=
  [0x53, 0x69, 0x67, 0x45, 0x64, 0x32, 0x35, 0x35, 0x31, 0x39, 0x20, 0x6e, 0x6f, 0x20,
    0x45, 0x64, 0x32, 0x35, 0x35, 0x31, 0x39, 0x20, 0x63, 0x6f, 0x6c, 0x6c, 0x69, 0x73,
    0x69, 0x6f, 0x6e, 0x73]

def dom2 (prefixFlag : UInt8) (context : Input) : Except String Bytes := do
  let ctx ← if context.truthy then bufferFrom context else .ok []
  if ctx.length > 255 then
    throw "Ed25519ctx: context must be ≤ 255 bytes"
  return domPrefix ++ [prefixFlag] ++ [UInt8.ofNat ctx.length] ++ ctx

/-- A pre-hashed message, which is a `Uint8Array` of 64 bytes. -/
def prehashed : Input → Except String Bytes
  | .bytes b =>
    if b.length ≠ 64 then .error "Ed25519ph: pre-hashed message must be 64 bytes" else .ok b
  | _ => .error "Ed25519ph: pre-hashed message must be 64 bytes"

inductive Mode where
  | ctx
  | ph

/-- What is handed to plain Ed25519. -/
def fullMsg (mode : Mode) (context msg : Input) : Except String Bytes :=
  match mode with
  | .ctx => do
    let dom ← dom2 0x01 context
    return dom ++ (← bufferFrom msg)
  | .ph => do
    let prehashedMsg ← prehashed msg
    let dom ← dom2 0x02 context
    return dom ++ prehashedMsg

def signExtended (node : NodeSign) (mode : Mode) (msg : Input) (seed : Bytes)
    (context : Input) : Except String Bytes := do
  ed25519Sign node (← fullMsg mode context msg) seed

def verifyExtended (node : NodeSign) (mode : Mode) (pub : Bytes) (msg : Input) (sig : Bytes)
    (context : Input) : Except String Bool := do
  ed25519Verify node (← fullMsg mode context msg) sig pub

def ed25519SignCtx (node : NodeSign) := signExtended node .ctx

def ed25519VerifyCtx (node : NodeSign) := verifyExtended node .ctx

def ed25519SignPh (node : NodeSign) := signExtended node .ph

def ed25519VerifyPh (node : NodeSign) := verifyExtended node .ph

/-! ## What is signed -/

def Mode.flag : Mode → UInt8
  | .ctx => 0x01
  | .ph => 0x02

/-- The frame of a message in a mode and a context. -/
def framed (mode : Mode) (context message : Bytes) : Bytes :=
  frame domPrefix UInt8.ofNat mode.flag context message

theorem dom2_eq_ok_iff {flag : UInt8} {context dom : Bytes} :
    dom2 flag (.bytes context) = .ok dom ↔
      context.length ≤ 255 ∧
        dom = domPrefix ++ [flag] ++ [UInt8.ofNat context.length] ++ context := by
  have hread : dom2 flag (.bytes context)
      = if context.length > 255 then .error "Ed25519ctx: context must be ≤ 255 bytes"
        else .ok (domPrefix ++ [flag] ++ [UInt8.ofNat context.length] ++ context) := rfl
  rw [hread]
  split_ifs with hlength
  · exact ⟨nofun, fun h => absurd hlength (not_lt.mpr h.1)⟩
  · exact ⟨fun h => ⟨not_lt.mp hlength, (Except.ok.inj h).symm⟩, fun h => by rw [h.2]⟩

/-- `dom2` refuses contexts of more than 255 bytes, and no others. -/
theorem dom2_error_iff (flag : UInt8) (context : Bytes) :
    (∃ e, dom2 flag (.bytes context) = .error e) ↔ 255 < context.length := by
  constructor
  · intro h
    obtain ⟨e, he⟩ := h
    by_contra hle
    rw [dom2_eq_ok_iff.mpr ⟨not_lt.mp hle, rfl⟩] at he
    cases he
  · intro h
    exact ⟨_, if_pos h⟩

theorem prehashed_eq_ok_iff {message p : Bytes} :
    prehashed (.bytes message) = .ok p ↔ message.length = 64 ∧ p = message := by
  rw [prehashed]
  split_ifs with hlength
  · exact ⟨nofun, fun h => absurd h.1 hlength⟩
  · exact ⟨fun h => ⟨not_not.mp hlength, (Except.ok.inj h).symm⟩, fun h => by rw [h.2]⟩

theorem framed_eq (mode : Mode) (context message : Bytes) :
    framed mode context message
      = domPrefix ++ [mode.flag] ++ [UInt8.ofNat context.length] ++ context ++ message := by
  simp [framed, frame]

/-- What is signed for byte strings. -/
theorem fullMsg_eq_ok_iff {mode : Mode} {context message b : Bytes} :
    fullMsg mode (.bytes context) (.bytes message) = .ok b ↔
      context.length ≤ 255 ∧ (mode = .ph → message.length = 64) ∧
        b = framed mode context message := by
  rw [framed_eq]
  cases mode with
  | ctx =>
    refine bind_eq_ok.trans ⟨fun h => ?_, fun h => ?_⟩
    · obtain ⟨dom, hdom, hb⟩ := h
      obtain ⟨hle, rfl⟩ := dom2_eq_ok_iff.mp hdom
      exact ⟨hle, nofun, (Except.ok.inj hb).symm⟩
    · obtain ⟨hle, -, rfl⟩ := h
      exact ⟨_, dom2_eq_ok_iff.mpr ⟨hle, rfl⟩, rfl⟩
  | ph =>
    refine bind_eq_ok.trans ⟨fun h => ?_, fun h => ?_⟩
    · obtain ⟨p, hp, h⟩ := h
      obtain ⟨hlength, rfl⟩ := prehashed_eq_ok_iff.mp hp
      obtain ⟨dom, hdom, hb⟩ := bind_eq_ok.mp h
      obtain ⟨hle, rfl⟩ := dom2_eq_ok_iff.mp hdom
      exact ⟨hle, fun _ => hlength, (Except.ok.inj hb).symm⟩
    · obtain ⟨hle, hlength, rfl⟩ := h
      exact ⟨message, prehashed_eq_ok_iff.mpr ⟨hlength rfl, rfl⟩,
        bind_eq_ok.mpr ⟨_, dom2_eq_ok_iff.mpr ⟨hle, rfl⟩, rfl⟩⟩

/-- A length of at most 255 is read back from its byte. -/
theorem ofNat_inj {m n : ℕ} (hm : m ≤ 255) (hn : n ≤ 255)
    (h : UInt8.ofNat m = UInt8.ofNat n) : m = n := by
  have hval := congrArg UInt8.toNat h
  rw [UInt8.toNat_ofNat_of_lt' (by show m < 256; omega),
    UInt8.toNat_ofNat_of_lt' (by show n < 256; omega)] at hval
  exact hval

/-- What is signed determines the mode, the context and the message. -/
theorem fullMsg_inj {mode mode' : Mode} {c c' m m' b : Bytes}
    (h : fullMsg mode (.bytes c) (.bytes m) = .ok b)
    (h' : fullMsg mode' (.bytes c') (.bytes m') = .ok b) :
    mode = mode' ∧ c = c' ∧ m = m' := by
  obtain ⟨hc, -, hb⟩ := fullMsg_eq_ok_iff.mp h
  obtain ⟨hc', -, hb'⟩ := fullMsg_eq_ok_iff.mp h'
  obtain ⟨hflag, hctx, hmessage⟩ :=
    frame_inj (fun _ _ => ofNat_inj) hc hc' (hb.symm.trans hb')
  refine ⟨?_, hctx, hmessage⟩
  cases mode <;> cases mode' <;> first | rfl | exact absurd hflag (by decide)

/-! ## Which signatures are accepted -/

/-- An ideal signature: what a seed makes for `b` verifies for no other one of some byte
strings. -/
def IdealFor (node : NodeSign) (seed pub b : Bytes) (others : List Bytes) : Prop :=
  ∀ sig, ed25519Sign node b seed = .ok sig →
    ∀ b' ∈ others, ed25519Verify node b' sig pub = .ok true → b' = b

/-- **Framing is unambiguous.**  `dom2` throws for the contexts that are too long, what
is signed determines the mode, the context and the message, and an ideal signature that
is made in one mode and context is accepted for that mode, context and message only. -/
theorem framing_unambiguous :
    (∀ flag context, (∃ e, dom2 flag (.bytes context) = .error e) ↔ 255 < context.length) ∧
    (∀ mode mode' c c' m m' b, fullMsg mode (.bytes c) (.bytes m) = .ok b →
      fullMsg mode' (.bytes c') (.bytes m') = .ok b → mode = mode' ∧ c = c' ∧ m = m') ∧
    ∀ (node : NodeSign) (seed pub : Bytes) (mode mode' : Mode) (c c' m m' sig : Bytes)
      (others : List Bytes),
      IdealFor node seed pub (framed mode c m) others → framed mode' c' m' ∈ others →
      signExtended node mode (.bytes m) seed (.bytes c) = .ok sig →
      verifyExtended node mode' pub (.bytes m') sig (.bytes c') = .ok true →
      mode = mode' ∧ c = c' ∧ m = m' := by
  refine ⟨dom2_error_iff, fun _ _ _ _ _ _ _ h h' => fullMsg_inj h h', ?_⟩
  intro node seed pub mode mode' c c' m m' sig others hideal hmem hsign hverify
  obtain ⟨b, hb, hsign⟩ := bind_eq_ok.mp hsign
  obtain ⟨b', hb', hverify⟩ := bind_eq_ok.mp hverify
  obtain ⟨-, -, hframe⟩ := fullMsg_eq_ok_iff.mp hb
  obtain ⟨-, -, hframe'⟩ := fullMsg_eq_ok_iff.mp hb'
  rw [← hframe] at hideal
  rw [← hframe'] at hmem
  rw [hideal sig hsign b' hmem hverify] at hb'
  exact fullMsg_inj hb hb'

/-- **Plain signatures.**  A plain signature is refused for a message in a context, in
either mode, exactly when the plain message is not the frame of it. -/
theorem plain_separate_iff {node : NodeSign} (hnode : node.Lawful) {seed pub m m' c sig : Bytes}
    (hpub : ed25519GetPublicKey node seed = .ok pub) (hsig : ed25519Sign node m seed = .ok sig)
    (hc : c.length ≤ 255)
    (hideal : IdealFor node seed pub m [framed .ctx c m', framed .ph c m']) :
    (ed25519VerifyCtx node pub (.bytes m') sig (.bytes c) ≠ .ok true ∧
        ed25519VerifyPh node pub (.bytes m') sig (.bytes c) ≠ .ok true) ↔
      m ≠ domPrefix ++ [0x01] ++ [UInt8.ofNat c.length] ++ c ++ m' ∧
        ¬ (m'.length = 64 ∧ m = domPrefix ++ [0x02] ++ [UInt8.ofNat c.length] ++ c ++ m') := by
  have haccepted : ∀ mode, framed mode c m' ∈ [framed .ctx c m', framed .ph c m'] →
      (verifyExtended node mode pub (.bytes m') sig (.bytes c) = .ok true ↔
        (mode = .ph → m'.length = 64) ∧ m = framed mode c m') := by
    intro mode hmem
    refine bind_eq_ok.trans ⟨fun h => ?_, fun h => ?_⟩
    · obtain ⟨b, hb, hverify⟩ := h
      obtain ⟨-, hlength, rfl⟩ := fullMsg_eq_ok_iff.mp hb
      exact ⟨hlength, (hideal sig hsig _ hmem hverify).symm⟩
    · obtain ⟨hlength, hm⟩ := h
      exact ⟨_, fullMsg_eq_ok_iff.mpr ⟨hc, hlength, rfl⟩, hm ▸ verify_of_sign hnode hpub hsig⟩
  have hctx := haccepted .ctx (by simp)
  have hph := haccepted .ph (by simp)
  rw [framed_eq] at hctx hph
  rw [ed25519VerifyCtx, ed25519VerifyPh, ne_eq, ne_eq, hctx, hph]
  simp [Mode.flag]

/-! ## Known signatures -/

open Tabulated (knownSeed knownKey)

/-- The platform on which the known seed signs one message. -/
def signerOf (message : Bytes) (sig : { s : Bytes // s.length = 64 }) : NodeSign :=
  Tabulated.sign [(knownSeed, knownKey)] [((message, knownKey), sig)]

variable {message : Bytes} {sig : { s : Bytes // s.length = 64 }}

theorem publicKey_signerOf :
    ed25519GetPublicKey (signerOf message sig) knownSeed.1 = .ok knownKey.1 := by
  unfold ed25519GetPublicKey
  rw [if_neg (not_not.mpr knownSeed.2)]
  exact bind_of_ok (Tabulated.parseDer_append pkcs8Prefix knownSeed) _

theorem sign_signerOf : ed25519Sign (signerOf message sig) message knownSeed.1 = .ok sig.1 := by
  unfold ed25519Sign
  rw [if_neg (not_not.mpr knownSeed.2)]
  refine (bind_of_ok (Tabulated.parseDer_append pkcs8Prefix knownSeed) _).trans ?_
  simp [signerOf, Tabulated.sign, Tabulated.lookupD, pure, Except.pure]

/-- The one signature is ideal. -/
theorem idealFor_signerOf (hsig : sig.1 ≠ List.replicate 64 0) (others : List Bytes) :
    IdealFor (signerOf message sig) knownSeed.1 knownKey.1 message others := by
  intro s hs b' _ hverify
  obtain rfl := Except.ok.inj (sign_signerOf.symm.trans hs)
  unfold ed25519Verify at hverify
  rw [if_neg (not_not.mpr knownKey.2), if_neg (not_not.mpr sig.2)] at hverify
  obtain ⟨key, hkey, hverify⟩ := bind_eq_ok.mp hverify
  obtain rfl := Except.ok.inj ((Tabulated.parseDer_append spkiPrefix knownKey).symm.trans hkey)
  by_contra hne
  simp [signerOf, Tabulated.sign, Tabulated.lookupD, Ne.symm hne, pure, Except.pure] at hverify
  exact hsig hverify

/-- The frame of the message `m` in the context `c`. -/
def knownFrame : Bytes := framed .ctx [0x63] [0x6d]

/-- Its signature with the known seed. -/
def knownSignature : { s : Bytes // s.length = 64 } :=
  ⟨Tabulated.hex 64 0xd3c0ba92d552fbc7e62a5b1f8e33ad426187a5f918d1f26e9fc1d8067b38ff3c87e13b2cc1d9dbfb50b96ad50764e653e52d05288e5e9e99433e972226893d09,
    Tabulated.length_hex _ _⟩

theorem knownSignature_ne_zero : knownSignature.1 ≠ List.replicate 64 0 := by decide

theorem framing_unambiguous_known :
    Mode.ctx = Mode.ctx ∧ ([0x63] : Bytes) = [0x63] ∧ ([0x6d] : Bytes) = [0x6d] := by
  have hfull : fullMsg .ctx (.bytes [0x63]) (.bytes [0x6d]) = .ok knownFrame :=
    fullMsg_eq_ok_iff.mpr ⟨by decide, nofun, rfl⟩
  refine framing_unambiguous.2.2 (signerOf knownFrame knownSignature) knownSeed.1 knownKey.1
    .ctx .ctx [0x63] [0x63] [0x6d] [0x6d] knownSignature.1 [knownFrame]
    (idealFor_signerOf knownSignature_ne_zero _) (List.mem_singleton.mpr rfl)
    (bind_eq_ok.mpr ⟨_, hfull, sign_signerOf⟩)
    (bind_eq_ok.mpr ⟨_, hfull, ?_⟩)
  exact verify_of_sign (Tabulated.lawful_sign _ _) publicKey_signerOf sign_signerOf

/-- `"hi"` and its signature with the known seed -/
def plainMessage : Bytes := [0x68, 0x69]

def plainSignature : { s : Bytes // s.length = 64 } :=
  ⟨Tabulated.hex 64 0x031a20f891086d1c39b0b2e54b178fa182f413dab4f5a16900fdac20e9d964215ca24ef4a71575f3647fa18b13fb3827d2d53f56813a4969c479a5d23baab70d,
    Tabulated.length_hex _ _⟩

theorem plain_separate_known :
    ed25519VerifyCtx (signerOf plainMessage plainSignature) knownKey.1 (.bytes [0x6d])
        plainSignature.1 (.bytes [0x63]) ≠ .ok true ∧
      ed25519VerifyPh (signerOf plainMessage plainSignature) knownKey.1 (.bytes [0x6d])
        plainSignature.1 (.bytes [0x63]) ≠ .ok true :=
  (plain_separate_iff (Tabulated.lawful_sign _ _) publicKey_signerOf sign_signerOf (by decide)
    (idealFor_signerOf (by decide) _)).mpr (by decide)

/-- A plain signature on a frame is a signature of the framed message in its context. -/
theorem plain_signature_of_frame :
    ∃ node seed pub m m' c sig, node.Lawful ∧ ed25519GetPublicKey node seed = .ok pub ∧
      ed25519Sign node m seed = .ok sig ∧ c.length ≤ 255 ∧ (∀ others, IdealFor node seed pub m others) ∧
      ed25519VerifyCtx node pub (.bytes m') sig (.bytes c) = .ok true := by
  refine ⟨signerOf knownFrame knownSignature, knownSeed.1, knownKey.1, knownFrame, [0x6d], [0x63],
    knownSignature.1, Tabulated.lawful_sign _ _, publicKey_signerOf, sign_signerOf, by decide,
    idealFor_signerOf knownSignature_ne_zero, ?_⟩
  refine bind_eq_ok.mpr ⟨_, fullMsg_eq_ok_iff.mpr ⟨by decide, nofun, rfl⟩, ?_⟩
  exact verify_of_sign (Tabulated.lawful_sign _ _) publicKey_signerOf sign_signerOf

end NewZone.Crypto.Ed25519
