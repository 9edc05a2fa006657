import NewZone.Crypto.Aead
import NewZone.Crypto.SessionKeys
import NewZone.Js.Number

/-!
# The secure channel

`lib/secureChannel.js`.  The fields of the class fall into three groups, and
the record is put together from them: those that the constructor sets and
nothing changes (`Config`), those that `_deriveKeysForEpoch` assigns
(`EpochKeys`), and the epoch with the two counters.

A method that may throw returns its result beside the state that it leaves
behind, since a throw does not undo the assignments before it.  The three
counters are doubles, see `NewZone.Js.Number`.
-/

namespace NewZone.Crypto

open NewZone.Js NewZone.ExceptBind

/-- The two values that the constructor accepts for `role`. -/
inductive Role where
  | alice
  | bob
  deriving DecidableEq

/-- The other end of the channel. -/
def Role.peer : Role → Role
  | .alice => .bob
  | .bob => .alice

/-- The name of a role in the source. -/
def Role.text : Role → JsString
  | .alice => js "alice"
  | .bob => js "bob"

namespace SecureChannel

/-- `toBytes` of `secureChannel.js`. -/
def toBytes : Input → Except String Bytes := toBytesWith "secureChannel"

/-- The four assignments of `makeNonce`: the counter, as `ToUint32` sees it,
goes big-endian over the last four bytes. -/
def writeCounter (nonce : Bytes) (counter : ℕ) : Bytes :=
  let c := toUint32 counter
  let nonce := nonce.set 8 (UInt8.ofNat ((c >>> 24) &&& 0xff))
  let nonce := nonce.set 9 (UInt8.ofNat ((c >>> 16) &&& 0xff))
  let nonce := nonce.set 10 (UInt8.ofNat ((c >>> 8) &&& 0xff))
  nonce.set 11 (UInt8.ofNat (c &&& 0xff))

def makeNonce (nonceBase : Bytes) (counter : ℕ) : Except String Bytes :=
  if nonceBase.length ≠ 12 then
    .error "secureChannel: nonceBase must be 12 bytes"
  else .ok (writeCounter nonceBase counter)

/-- The argument of the constructor; a field that is not given is `none`. -/
structure Params where
  sharedSecret : Input
  baseContext : Option JsString
  role : Option JsString
  hash : Option JsString := none
  keyLength : Option Int := none

/-- The fields that only the constructor assigns. -/
structure Config where
  hash : JsString
  keyLength : Int
  role : Role
  baseContext : JsString
  sharedSecret : Bytes

/-- The fields that `_deriveKeysForEpoch` assigns. -/
structure EpochKeys where
  sendKey : Bytes
  sendNonceBase : Bytes
  recvKey : Bytes
  recvNonceBase : Bytes
  sessionIdSend : Bytes
  sessionIdRecv : Bytes

end SecureChannel

/-- An object of class `SecureChannel`. -/
structure SecureChannel extends SecureChannel.Config, SecureChannel.EpochKeys where
  epoch : ℕ
  sendCounter : ℕ
  recvCounter : ℕ

namespace SecureChannel

def directionSuffix : Role → JsString
  | .alice => js "/alice->bob"
  | .bob => js "/bob->alice"

/-- The context of the keys that `role` sends under. -/
def directionContext (baseContext : JsString) (epoch : ℕ) (role : Role) :
    JsString :=
  baseContext ++ js "/epoch-" ++ decimal epoch ++ directionSuffix role

/-- `_deriveKeysForEpoch`, as the values that it assigns.  Both derivations
come before the first assignment, so a throw leaves the object as it was. -/
def deriveKeysForEpoch (node : NodeHash) (c : Config) (epoch : ℕ) :
    Except String EpochKeys := do
  let keysAB ← SessionKeys.deriveSessionKeys node (.bytes c.sharedSecret)
    (.text (directionContext c.baseContext epoch .alice)) (some c.hash)
    (some c.keyLength)
  let keysBA ← SessionKeys.deriveSessionKeys node (.bytes c.sharedSecret)
    (.text (directionContext c.baseContext epoch .bob)) (some c.hash)
    (some c.keyLength)
  match c.role with
  | .alice =>
    return { sendKey := keysAB.encKey, sendNonceBase := keysAB.nonceBase
             recvKey := keysBA.encKey, recvNonceBase := keysBA.nonceBase
             sessionIdSend := keysAB.sessionId
             sessionIdRecv := keysBA.sessionId }
  | .bob =>
    return { sendKey := keysBA.encKey, sendNonceBase := keysBA.nonceBase
             recvKey := keysAB.encKey, recvNonceBase := keysAB.nonceBase
             sessionIdSend := keysBA.sessionId
             sessionIdRecv := keysAB.sessionId }

/-- The comparison of `params.role` with the two names. -/
def roleOf (role : Option JsString) : Option Role :=
  if role = some Role.alice.text then some .alice
  else if role = some Role.bob.text then some .bob
  else none

/-- `constructor(params)`. -/
def new (node : NodeHash) (params : Params) : Except String SecureChannel := do
  if !params.sharedSecret.truthy then
    throw "SecureChannel: sharedSecret is required"
  let baseContext := params.baseContext.getD []
  if baseContext = [] then
    throw "SecureChannel: baseContext is required"
  match roleOf params.role with
  | none => throw "SecureChannel: role must be \"alice\" or \"bob\""
  | some role =>
    let sharedSecret ← toBytes params.sharedSecret
    let config : Config :=
      { hash := params.hash.getD (js "sha512")
        keyLength := params.keyLength.getD 32
        role := role
        baseContext := baseContext
        sharedSecret := sharedSecret }
    let keys ← deriveKeysForEpoch node config 0
    return { config, keys with epoch := 0, sendCounter := 1, recvCounter := 1 }

def rekey (node : NodeHash) (c : SecureChannel) :
    Except String Unit × SecureChannel :=
  let c := { c with epoch := incr c.epoch, sendCounter := 1, recvCounter := 1 }
  match deriveKeysForEpoch node c.toConfig c.epoch with
  | .ok keys => (.ok (), { c with toEpochKeys := keys })
  | .error e => (.error e, c)

/-- The object that `encryptToPeer` returns. -/
structure Message where
  nonce : Bytes
  ciphertext : Bytes
  tag : Bytes
  counter : ℕ
  epoch : ℕ
  deriving DecidableEq

/-- The part of `encryptToPeer` after the counter has been taken. -/
def sealWith (cipher : NodeCipher) (c : SecureChannel) (counter : ℕ)
    (pt a : Bytes) : Except String Message := do
  let nonce ← makeNonce c.sendNonceBase counter
  let out ← Aead.encrypt cipher (.bytes c.sendKey) (.bytes nonce) (.bytes pt)
    (.bytes a)
  return { nonce := nonce, ciphertext := out.ciphertext, tag := out.tag
           counter := counter, epoch := c.epoch }

def encryptToPeer (cipher : NodeCipher) (c : SecureChannel)
    (plaintext aad : Input) : Except String Message × SecureChannel :=
  match toBytes plaintext, toBytes aad with
  | .error e, _ => (.error e, c)
  | .ok _, .error e => (.error e, c)
  | .ok pt, .ok a =>
    let counter := c.sendCounter
    (sealWith cipher c counter pt a, { c with sendCounter := incr counter })

/-- The part of `decryptFromPeer` before `_recvCounter` is touched. -/
def openWith (cipher : NodeCipher) (c : SecureChannel)
    (nonce ciphertext tag aad : Input) : Except String (Option Bytes) := do
  let ct ← toBytes ciphertext
  let t ← toBytes tag
  let a ← toBytes aad
  let n ← toBytes nonce
  Aead.decrypt cipher (.bytes c.recvKey) (.bytes n) (.bytes ct) (.bytes t)
    (.bytes a)

def decryptFromPeer (cipher : NodeCipher) (c : SecureChannel)
    (nonce ciphertext tag aad : Input) :
    Except String (Option Bytes) × SecureChannel :=
  match openWith cipher c nonce ciphertext tag aad with
  | .ok (some pt) => (.ok (some pt), { c with recvCounter := incr c.recvCounter })
  | .ok none => (.ok none, c)
  | .error e => (.error e, c)

end SecureChannel

end NewZone.Crypto
