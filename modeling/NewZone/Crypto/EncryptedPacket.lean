import NewZone.Crypto.Aead
import NewZone.Crypto.SignedPacket
import NewZone.Js.Operators

/-!
# Encrypted packets

`decryptPacket` of `lib/nz-crypto.js`: a packet that another one is sealed in,
with the two ends of the way as associated data.
-/

namespace NewZone.Crypto.EncryptedPacket

open NewZone.Js NewZone.Js.Json NewZone.ExceptBind
open NewZone.Crypto.SignedPacket (Coercions)

/-- What the platform reads from bytes and from texts. -/
structure Reader where
  /-- `new TextDecoder().decode(bytes)` -/
  decode : Bytes → JsString
  /-- `JSON.parse(text)` -/
  parse : JsString → Except String Json

def encryptedVersion : JsString := js "nz-crypto-01"

variable (engine : Engine) (coerce : Coercions)

/-- A field in a template string. -/
def templateField (packet : Json) (name : String) : Except String JsString :=
  engine.propertyKey (field packet name)

/-- The text as an error shows it. -/
def shown (text : JsString) : String := String.ofList (scalars text)

/-- `b64ToU8` of a field, which may be `undefined`. -/
def b64Field (packet : Json) (name : String) : Except String Bytes :=
  match field packet name with
  | some v => coerce.b64ToU8 v
  | none => .error "The first argument must be of type string"

def decryptPacket (cipher : NodeCipher) (reader : Reader) (packet : Json)
    (sessionKey : Bytes) : Except String Json := do
  if field packet "version" ≠ some (.str encryptedVersion) then
    throw ("Unsupported crypto version: " ++ shown (← templateField engine packet "version"))
  if field packet "cipher" ≠ some (.str (js "chacha20-poly1305")) then
    throw ("Unsupported cipher: " ++ shown (← templateField engine packet "cipher"))
  let nonce ← b64Field coerce packet "nonce"
  let tag ← b64Field coerce packet "tag"
  let ciphertext ← b64Field coerce packet "ciphertext"
  let sender ← templateField engine packet "sender_node_id"
  let receiver ← templateField engine packet "receiver_node_id"
  let aad := utf8 (sender ++ js "->" ++ receiver)
  match ← Aead.decrypt cipher (.bytes sessionKey) (.bytes nonce) (.bytes ciphertext)
      (.bytes tag) (.bytes aad) with
  | none => throw "Packet authentication failed"
  | some plaintext => reader.parse (reader.decode plaintext)

end NewZone.Crypto.EncryptedPacket
