import NewZone.Lib.Separator
import NewZone.Crypto.BodyBinding
import NewZone.Crypto.EncryptedPacket

/-!
# The address of an encrypted packet

`encryptPacket` of `lib/nz-crypto.js`.  The sender and the receiver go along in
the clear and are authenticated as one text, with `->` between them.  So an
envelope opens under every address that gives the same bytes: where `->` occurs
in one of the two the text can be split elsewhere, and U+FFFD in it may stand for
a lone surrogate.  `addressed_iff` says that this is all.
-/

namespace NewZone.Crypto.EncryptedPacket

open NewZone.Js NewZone.Js.Json NewZone.ExceptBind NewZone.Separator
open NewZone.Crypto.SignedPacket (Coercions)

/-! ## The envelope -/

structure EncryptParams where
  packet : Json
  sessionKey : Bytes
  senderNodeId : JsString
  receiverNodeId : JsString
  baseContext : JsString := js "NZ-CRYPTO-01/packet"

/-- The fields that vary. -/
structure Envelope where
  sender_node_id : JsString
  receiver_node_id : JsString
  nonce : JsString
  tag : JsString
  ciphertext : JsString
  context : JsString

/-- The object that is sent. -/
def Envelope.toJson (e : Envelope) : Json :=
  .obj [(js "version", .str encryptedVersion), (js "cipher", .str (js "chacha20-poly1305")),
    (js "sender_node_id", .str e.sender_node_id),
    (js "receiver_node_id", .str e.receiver_node_id), (js "nonce", .str e.nonce),
    (js "tag", .str e.tag), (js "ciphertext", .str e.ciphertext),
    (js "context", .str e.context)]

/-- The bytes of the text that stands for both ends of the way. -/
def addressBytes (sender receiver : JsString) : Bytes :=
  utf8 (sender ++ js "->" ++ receiver)

def encryptPacket (cipher : NodeCipher) (params : EncryptParams) (random : Bytes) :
    Except String Envelope := do
  let json := stringify params.packet
  let plaintext := utf8 json
  let nonce := random
  let aad := addressBytes params.senderNodeId params.receiverNodeId
  let sealed ← Aead.encrypt cipher (.bytes params.sessionKey) (.bytes nonce) (.bytes plaintext)
    (.bytes aad)
  return { sender_node_id := params.senderNodeId
           receiver_node_id := params.receiverNodeId
           nonce := Base64.encode nonce
           tag := Base64.encode sealed.tag
           ciphertext := Base64.encode sealed.ciphertext
           context := params.baseContext }

/-- The envelope with another address on it. -/
def Envelope.readdress (e : Envelope) (sender receiver : JsString) : Envelope :=
  { e with sender_node_id := sender, receiver_node_id := receiver }

/-! ## What opens it -/

/-- What an encryption gave opens with its own associated data only. -/
def AuthenticatesAad (cipher : NodeCipher) (key nonce aad plaintext : Bytes) : Prop :=
  let out := cipher.encipher key nonce (Aead.aadOf aad) plaintext
  ∀ aad', (cipher.decipher key nonce (Aead.aadOf aad') out.1 out.2).isSome → aad' = aad

/-- The packet comes out of its own text. -/
def Reader.Reads (reader : Reader) (packet : Json) : Prop :=
  ∃ p, reader.parse (reader.decode (utf8 (stringify packet))) = .ok p

/-- What the call has sealed, and that it could. -/
theorem of_encryptPacket_ok {cipher : NodeCipher} {params : EncryptParams} {random : Bytes}
    {e : Envelope} (h : encryptPacket cipher params random = .ok e) :
    params.sessionKey.length = 32 ∧ random.length = 12 ∧
      e.nonce = Base64.encode random ∧
      e.ciphertext = Base64.encode (cipher.encipher params.sessionKey random
        (Aead.aadOf (addressBytes params.senderNodeId params.receiverNodeId))
        (utf8 (stringify params.packet))).1 ∧
      e.tag = Base64.encode (cipher.encipher params.sessionKey random
        (Aead.aadOf (addressBytes params.senderNodeId params.receiverNodeId))
        (utf8 (stringify params.packet))).2 := by
  obtain ⟨sealed, hsealed, h⟩ := bind_eq_ok.mp h
  obtain rfl := Except.ok.inj h
  obtain ⟨hkey, hnonce⟩ := Aead.length_of_encrypt_ok hsealed
  rw [Aead.encrypt_bytes cipher hkey hnonce] at hsealed
  obtain rfl := Except.ok.inj hsealed
  exact ⟨hkey, hnonce, rfl, rfl, rfl⟩

/-- With texts of the right lengths in it, an envelope is opened by the cipher. -/
theorem decryptPacket_toJson {engine : Engine} {coerce : Coercions} {cipher : NodeCipher}
    {reader : Reader} {e : Envelope} {key nonce ciphertext tag : Bytes}
    (hkey : key.length = 32) (hnonce : nonce.length = 12) (htag : tag.length = 16)
    (henonce : e.nonce = Base64.encode nonce) (hect : e.ciphertext = Base64.encode ciphertext)
    (hetag : e.tag = Base64.encode tag) :
    decryptPacket engine coerce cipher reader e.toJson key
      = match cipher.decipher key nonce
            (Aead.aadOf (addressBytes e.sender_node_id e.receiver_node_id)) ciphertext tag with
        | none => .error "Packet authentication failed"
        | some plaintext => reader.parse (reader.decode plaintext) := by
  have hversion : field e.toJson "version" = some (.str encryptedVersion) := rfl
  have hname : field e.toJson "cipher" = some (.str (js "chacha20-poly1305")) := rfl
  have hb64 : ∀ {name : String} {b : Bytes}, field e.toJson name = some (.str (Base64.encode b)) →
      b64Field coerce e.toJson name = .ok b := by
    intro name b hfield
    unfold b64Field
    rw [hfield]
    exact congrArg Except.ok (Base64.decode_encode b)
  have hn : b64Field coerce e.toJson "nonce" = .ok nonce := hb64 (by rw [← henonce]; rfl)
  have ht : b64Field coerce e.toJson "tag" = .ok tag := hb64 (by rw [← hetag]; rfl)
  have hct : b64Field coerce e.toJson "ciphertext" = .ok ciphertext := hb64 (by rw [← hect]; rfl)
  have hsender : templateField engine e.toJson "sender_node_id" = .ok e.sender_node_id := rfl
  have hreceiver : templateField engine e.toJson "receiver_node_id" = .ok e.receiver_node_id := rfl
  have hopen := Aead.decrypt_bytes cipher hkey hnonce htag ciphertext
    (addressBytes e.sender_node_id e.receiver_node_id)
  unfold decryptPacket
  rw [if_neg (not_not.mpr hversion), if_neg (not_not.mpr hname)]
  apply (bind_of_ok hn _).trans
  apply (bind_of_ok ht _).trans
  apply (bind_of_ok hct _).trans
  apply (bind_of_ok hsender _).trans
  apply (bind_of_ok hreceiver _).trans
  apply (bind_of_ok hopen _).trans
  cases cipher.decipher key nonce (Aead.aadOf (addressBytes e.sender_node_id e.receiver_node_id))
    ciphertext tag <;> rfl

/-! ## The address -/

/-- The identifier has no `->` in it, no lone surrogate and no U+FFFD. -/
def Separable (id : JsString) : Prop :=
  ¬ js "->" <:+: id ∧ WellFormed id ∧ 0xFFFD ∉ id

theorem toWellFormed_address (sender receiver : JsString) :
    toWellFormed (sender ++ js "->" ++ receiver)
      = join (js "->") (toWellFormed sender) (toWellFormed receiver) := by
  have hgt : toWellFormed (js "->" ++ receiver) = js "->" ++ toWellFormed receiver :=
    toWellFormed_append (by decide) receiver
  rw [List.append_assoc]
  show toWellFormed (sender ++ 0x2D :: 0x3E :: receiver) = _
  rw [toWellFormed_append_cons _ (by decide), toWellFormed_cons (by decide)]
  rfl

/-- **Which addresses their bytes determine.** -/
theorem addressBytes_unique_iff {sender receiver : JsString} :
    (∀ s r, addressBytes s r = addressBytes sender receiver → s = sender ∧ r = receiver) ↔
      Separable sender ∧ Separable receiver := by
  have hsep : Unbordered (js "->") := unbordered_pair (by decide)
  have hbytes : ∀ s r, addressBytes s r = addressBytes sender receiver ↔
      join (js "->") (toWellFormed s) (toWellFormed r)
        = join (js "->") (toWellFormed sender) (toWellFormed receiver) := by
    intro s r
    unfold addressBytes
    rw [utf8_eq_iff, toWellFormed_address, toWellFormed_address]
  constructor
  · intro h
    have hsender : ∀ t, utf8 t = utf8 sender → t = sender := by
      intro t ht
      refine (h t receiver ((hbytes _ _).mpr ?_)).1
      rw [utf8_eq_iff.mp ht]
    have hreceiver : ∀ t, utf8 t = utf8 receiver → t = receiver := by
      intro t ht
      refine (h sender t ((hbytes _ _).mpr ?_)).2
      rw [utf8_eq_iff.mp ht]
    have hsplit : ∀ s r, join (js "->") s r = join (js "->") sender receiver →
        s = sender ∧ r = receiver := by
      intro s r hjoin
      refine h s r ?_
      unfold addressBytes
      rw [List.append_assoc, List.append_assoc]
      exact congrArg utf8 hjoin
    obtain ⟨hs, hr⟩ := (split_unique_iff hsep).mp hsplit
    exact ⟨⟨hs, utf8_unique_iff.mp hsender⟩, hr, utf8_unique_iff.mp hreceiver⟩
  · rintro ⟨⟨hs, hsender⟩, hr, hreceiver⟩ s r h
    rw [hbytes, hsender.1, hreceiver.1] at h
    obtain ⟨hs', hr'⟩ := (split_unique_iff hsep).mpr ⟨hs, hr⟩ _ _ h
    constructor
    · refine utf8_unique_iff.mpr hsender s (utf8_eq_iff.mpr ?_)
      rw [hs', hsender.1]
    · refine utf8_unique_iff.mpr hreceiver r (utf8_eq_iff.mpr ?_)
      rw [hr', hreceiver.1]

section Made

variable {engine : Engine} {coerce : Coercions} {cipher : NodeCipher} {reader : Reader}
  {params : EncryptParams} {random : Bytes} {e : Envelope}

/-- Under any address, what has been sealed is opened with the bytes of that address. -/
theorem decryptPacket_readdress (hcipher : cipher.Lawful)
    (hmade : encryptPacket cipher params random = .ok e) (s r : JsString) :
    let out := cipher.encipher params.sessionKey random
      (Aead.aadOf (addressBytes params.senderNodeId params.receiverNodeId))
      (utf8 (stringify params.packet))
    decryptPacket engine coerce cipher reader (e.readdress s r).toJson params.sessionKey
      = match cipher.decipher params.sessionKey random (Aead.aadOf (addressBytes s r))
            out.1 out.2 with
        | none => .error "Packet authentication failed"
        | some plaintext => reader.parse (reader.decode plaintext) := by
  obtain ⟨hkey, hnonce, henonce, hect, hetag⟩ := of_encryptPacket_ok hmade
  have htag := hcipher.tag_length _ _
    (Aead.aadOf (addressBytes params.senderNodeId params.receiverNodeId))
    (utf8 (stringify params.packet)) hkey hnonce
  exact @decryptPacket_toJson engine coerce cipher reader (e.readdress s r) _ _ _ _
    hkey hnonce htag henonce hect hetag

/-- An envelope with an address of the same bytes opens. -/
theorem decryptPacket_of_bytes (hcipher : cipher.Lawful)
    (hmade : encryptPacket cipher params random = .ok e) {s r : JsString}
    (h : addressBytes s r = addressBytes params.senderNodeId params.receiverNodeId) :
    decryptPacket engine coerce cipher reader (e.readdress s r).toJson params.sessionKey
      = reader.parse (reader.decode (utf8 (stringify params.packet))) := by
  obtain ⟨hkey, hnonce, -⟩ := of_encryptPacket_ok hmade
  have hopens := @decryptPacket_readdress engine coerce _ reader _ _ _ hcipher hmade s r
  dsimp only at hopens
  rw [h, hcipher.decipher_encipher _ _ _ _ hkey hnonce] at hopens
  exact hopens

/-- An envelope that opens has an address of the same bytes. -/
theorem bytes_of_decryptPacket (hcipher : cipher.Lawful)
    (hmade : encryptPacket cipher params random = .ok e)
    (hauthentic : AuthenticatesAad cipher params.sessionKey random
      (addressBytes params.senderNodeId params.receiverNodeId) (utf8 (stringify params.packet)))
    {s r : JsString} {p : Json}
    (h : decryptPacket engine coerce cipher reader (e.readdress s r).toJson params.sessionKey
      = .ok p) :
    addressBytes s r = addressBytes params.senderNodeId params.receiverNodeId := by
  have hopens := @decryptPacket_readdress engine coerce _ reader _ _ _ hcipher hmade s r
  dsimp only at hopens
  rw [h] at hopens
  apply hauthentic
  cases hdecipher : cipher.decipher params.sessionKey random (Aead.aadOf (addressBytes s r)) _ _
    with
  | none =>
    rw [hdecipher] at hopens
    cases hopens
  | some plaintext => rfl

/-- **When the address is authenticated.**  An envelope opens under no address but its
own exactly when neither identifier has `->`, a lone surrogate or U+FFFD in it. -/
theorem addressed_iff (hcipher : cipher.Lawful)
    (hmade : encryptPacket cipher params random = .ok e)
    (hauthentic : AuthenticatesAad cipher params.sessionKey random
      (addressBytes params.senderNodeId params.receiverNodeId) (utf8 (stringify params.packet)))
    (hreads : reader.Reads params.packet) :
    (∀ s r p, decryptPacket engine coerce cipher reader (e.readdress s r).toJson
        params.sessionKey = .ok p → s = params.senderNodeId ∧ r = params.receiverNodeId) ↔
      Separable params.senderNodeId ∧ Separable params.receiverNodeId := by
  rw [← addressBytes_unique_iff]
  constructor
  · intro h s r hbytes
    obtain ⟨p, hp⟩ := hreads
    exact h s r p ((decryptPacket_of_bytes hcipher hmade hbytes).trans hp)
  · intro h s r p hp
    exact h s r (bytes_of_decryptPacket hcipher hmade hauthentic hp)

end Made

/-! ## Two envelopes -/

def pingPacket : Json := .obj [(js "action", .str (js "ping"))]

/-- A key, and an address to seal the packet for. -/
def pingParams (sender receiver : JsString) : EncryptParams :=
  { packet := pingPacket, sessionKey := (List.range 32).map fun i => UInt8.ofNat (i + 1)
    senderNodeId := sender, receiverNodeId := receiver }

def pingNonce : Bytes := (List.range 12).map UInt8.ofNat

/-- What ChaCha20-Poly1305 makes of it, with the tag for the address. -/
def pingSealing (sender receiver : JsString) (tag : ℕ)
    (htag : Tabulated.hex 16 tag ≠ List.replicate 16 0) : Tabulated.KnownSealing where
  key := (pingParams sender receiver).sessionKey
  nonce := pingNonce
  aad := Aead.aadOf (addressBytes sender receiver)
  plaintext := utf8 (stringify pingPacket)
  ciphertext := Tabulated.hex 17 0x9b89d4bb84ca7b38fc8f71a73031305905
  tag := Tabulated.hex 16 tag
  tag_length := Tabulated.length_hex _ _
  tag_ne := htag

/-- The reader of that packet. -/
def pingReader : Reader where
  decode _ := stringify pingPacket
  parse _ := .ok pingPacket

theorem aadOf_injective : Function.Injective Aead.aadOf := by
  intro a b h
  cases a <;> cases b <;> simp_all [Aead.aadOf]

section Known

variable {sender receiver : JsString} {tag : ℕ}
  {htag : Tabulated.hex 16 tag ≠ List.replicate 16 0}

theorem authenticatesAad_pingSealing :
    AuthenticatesAad (Tabulated.cipher (pingSealing sender receiver tag htag))
      (pingParams sender receiver).sessionKey pingNonce (addressBytes sender receiver)
      (utf8 (stringify pingPacket)) := by
  unfold AuthenticatesAad
  intro out aad hopen
  have hout : out = ((pingSealing sender receiver tag htag).ciphertext,
      (pingSealing sender receiver tag htag).tag) := Tabulated.encipher_known _
  rw [hout] at hopen
  exact aadOf_injective (Tabulated.eq_of_decipher_known hopen)

theorem exists_pingEnvelope : ∃ e,
    encryptPacket (Tabulated.cipher (pingSealing sender receiver tag htag))
      (pingParams sender receiver) pingNonce = .ok e :=
  ⟨_, bind_of_ok (Aead.encrypt_bytes _ (by simp [pingParams]) (by simp [pingNonce]) _ _) _⟩

end Known

/-- From node-a to node-b. -/
theorem addressed_known :
    ∃ e, encryptPacket (Tabulated.cipher (pingSealing (js "node-a") (js "node-b")
        0xa840f051b7b58ef03bb7991b5ca96ee3 (by decide)))
        (pingParams (js "node-a") (js "node-b")) pingNonce = .ok e ∧
      ∀ s r p, decryptPacket .plain SignedPacket.knownCoercions
        (Tabulated.cipher (pingSealing (js "node-a") (js "node-b")
          0xa840f051b7b58ef03bb7991b5ca96ee3 (by decide))) pingReader
        (e.readdress s r).toJson (pingParams (js "node-a") (js "node-b")).sessionKey = .ok p →
        s = js "node-a" ∧ r = js "node-b" := by
  obtain ⟨e, he⟩ := exists_pingEnvelope
  have hseparable : Separable (js "node-a") ∧ Separable (js "node-b") := by
    refine ⟨⟨?_, by decide, by decide⟩, ?_, by decide, by decide⟩ <;> decide
  exact ⟨e, he, (addressed_iff (Tabulated.lawful_cipher _) he authenticatesAad_pingSealing
    ⟨_, rfl⟩).mpr hseparable⟩

/-- **An envelope with another address.**  What was sealed by `a->b` for `c` opens as
sealed by `a` for `b->c`. -/
theorem readdressed_opens :
    ∃ e, encryptPacket (Tabulated.cipher (pingSealing (js "a->b") (js "c")
        0x8d25c6f2347ae276b03287854939cbe6 (by decide)))
        (pingParams (js "a->b") (js "c")) pingNonce = .ok e ∧
      decryptPacket .plain SignedPacket.knownCoercions
        (Tabulated.cipher (pingSealing (js "a->b") (js "c")
          0x8d25c6f2347ae276b03287854939cbe6 (by decide))) pingReader
        (e.readdress (js "a") (js "b->c")).toJson (pingParams (js "a->b") (js "c")).sessionKey
          = .ok pingPacket := by
  obtain ⟨e, he⟩ := exists_pingEnvelope
  exact ⟨e, he, decryptPacket_of_bytes (Tabulated.lawful_cipher _) he rfl⟩

end NewZone.Crypto.EncryptedPacket
