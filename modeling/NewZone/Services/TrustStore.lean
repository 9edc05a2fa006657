import NewZone.Crypto.SignedPacket
import NewZone.Js.Object
import NewZone.Js.Operators

/-!
# The trust store

Nodes announce their keys in UDP datagrams.  The listener of
`services/discovery/server.js` keeps the last announcement of every node, and
the other services copy all of them from `GET /nodes` every five seconds.
`getPublicKeyByNodeId`, which each service has a copy of, looks a key up.
-/

namespace NewZone.Services

open NewZone.Js NewZone.Js.Json NewZone.ExceptBind NewZone.Crypto
open NewZone.Crypto.SignedPacket (Coercions present)

/-! ## Node keys -/

/-- `keys/node.json` -/
structure KeyFile where
  node_id : JsString
  ed25519_public : JsString
  ed25519_private : JsString

/-- `generateNodeKeysIfMissing` where there is no file yet: the key pair is made
from a random seed. -/
def generateNodeKeys (node : NodeSign) (serviceName : JsString) (seed random : Bytes) :
    Except String KeyFile := do
  let privateKey ← node.createPrivateKey (pkcs8Prefix ++ seed)
  return {
    node_id := serviceName ++ js "." ++ toHex random
    ed25519_public := Base64.encode (node.exportSpki (node.publicKeyOf privateKey))
    ed25519_private := Base64.encode (pkcs8Prefix ++ seed) }

theorem of_generateNodeKeys_ok {node : NodeSign} {serviceName : JsString}
    {seed random : Bytes} {keys : KeyFile}
    (h : generateNodeKeys node serviceName seed random = .ok keys) :
    ∃ pub, keys.ed25519_public = Base64.encode (node.exportSpki pub) := by
  obtain ⟨privateKey, -, h⟩ := bind_eq_ok.mp h
  obtain rfl := Except.ok.inj h
  exact ⟨_, rfl⟩

/-! ## What is heard and copied -/

/-- `{ public_key, service, ip, port }` -/
def nodeEntry (data public_key service : Json) : Json :=
  .obj ([(js "public_key", public_key), (js "service", service)]
    ++ ((field data "ip").map fun v => (js "ip", v)).toList
    ++ ((field data "port").map fun v => (js "port", v)).toList)

/-- What a node announces, with its address left out. -/
def announcement (node_id ed25519_public serviceName : JsString) : Json :=
  .obj [(js "node_id", .str node_id), (js "public_key", .str ed25519_public),
    (js "service", .str serviceName)]

/-- What the listener does with a datagram that parses.  Assigning `__proto__`
gives `knownNodes` a prototype, which `GET /nodes` does not print. -/
def listen (engine : Engine) (knownNodes : PlainObject Json) (data : Json) :
    PlainObject Json :=
  match present data "node_id", present data "public_key",
    present data "service" with
  | some node_id, some public_key, some service =>
    match engine.propertyKey (some node_id) with
    | .ok key =>
      if key = js "__proto__" then knownNodes
      else knownNodes.set key (nodeEntry data public_key service)
    | .error _ => knownNodes
  | _, _, _ => knownNodes

/-- `getPublicKeyByNodeId`.  It throws if `Buffer.from` does. -/
def getPublicKeyByNodeId (coerce : Coercions) (knownNodes : PlainObject Json)
    (nodeId : JsString) : Except String (Option Bytes) :=
  -- what an object inherits has no `public_key`
  match (knownNodes.get nodeId).bind fun entry => present entry "public_key" with
  | some public_key => some <$> coerce.b64ToU8 public_key
  | none => .ok none

/-- A key that is a text is read as base64. -/
theorem getPublicKeyByNodeId_of_get (coerce : Coercions) {knownNodes : PlainObject Json}
    {nodeId key : JsString} {entry : Json} (hentry : knownNodes.get nodeId = some entry)
    (hkey : present entry "public_key" = some (.str key)) :
    getPublicKeyByNodeId coerce knownNodes nodeId = .ok (some (Base64.decode key)) := by
  unfold getPublicKeyByNodeId
  rw [hentry, Option.bind_some, hkey]
  rfl

/-- A key that is found is that of an entry. -/
theorem of_getPublicKeyByNodeId {coerce : Coercions} {knownNodes : PlainObject Json}
    {nodeId : JsString} {der : Bytes}
    (h : getPublicKeyByNodeId coerce knownNodes nodeId = .ok (some der)) :
    ∃ entry public_key, knownNodes.get nodeId = some entry ∧
      present entry "public_key" = some public_key ∧
      coerce.b64ToU8 public_key = .ok der := by
  unfold getPublicKeyByNodeId at h
  split at h
  · rename_i public_key hkey
    obtain ⟨entry, hentry, hpresent⟩ := Option.bind_eq_some_iff.mp hkey
    refine ⟨entry, public_key, hentry, hpresent, ?_⟩
    cases hread : coerce.b64ToU8 public_key with
    | error e =>
      rw [hread] at h
      cases h
    | ok b =>
      rw [hread] at h
      obtain rfl : b = der := Option.some.inj (Except.ok.inj h)
      rfl
  · cases h

/-! ## Announcements -/

/-- The datagram announces the key for the node. -/
def Announces (engine : Engine) (data : Json) (nodeId : JsString)
    (public_key : Json) : Prop :=
  ∃ node_id service, present data "node_id" = some node_id ∧
    present data "public_key" = some public_key ∧
    present data "service" = some service ∧
    engine.propertyKey (some node_id) = .ok nodeId

theorem present_nodeEntry (data : Json) {public_key : Json} (service : Json)
    (h : public_key.truthy = true) :
    present (nodeEntry data public_key service) "public_key"
      = some public_key := by
  rw [present, nodeEntry, field, List.append_assoc, List.cons_append,
    getProp_cons_self, Option.filter_some, if_pos h]

/-- After a datagram a node has the entry that it had, or a new one with the
key that the datagram announces. -/
theorem get_listen (engine : Engine) (knownNodes : PlainObject Json)
    (data : Json) (nodeId : JsString) :
    (listen engine knownNodes data).get nodeId = knownNodes.get nodeId ∨
      ∃ entry public_key, (listen engine knownNodes data).get nodeId = some entry ∧
        present entry "public_key" = some public_key ∧
        Announces engine data nodeId public_key := by
  unfold listen
  split
  · rename_i node_id public_key service hid hkey hservice
    split
    · rename_i key hprop
      split_ifs with hproto
      · exact .inl rfl
      · by_cases hk : key = nodeId
        · subst hk
          refine .inr ⟨_, public_key, PlainObject.get_set_self _ _ _,
            present_nodeEntry data service ?_,
            node_id, service, hid, hkey, hservice, hprop⟩
          exact (Option.filter_eq_some_iff.mp hkey).2
        · exact .inl (PlainObject.get_set_of_ne _ hk _)
    · exact .inl rfl
  · exact .inl rfl

end NewZone.Services
