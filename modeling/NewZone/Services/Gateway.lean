import NewZone.Crypto.BodyBinding
import NewZone.Crypto.EncryptedPacket
import NewZone.Services.RequestBody

/-!
# The gateway

`POST /verify` of `services/gateway/server.js`.  It looks the key of a node up in
the trust store, where the keys are SPKI structures of 44 bytes, and hands it to
`ed25519Verify`, which wants the 32 bytes at their end.  So it accepts no packet
of a node that has generated its keys (`own_packet_refused`).
-/

namespace NewZone.Services.Gateway

open NewZone.Js NewZone.Js.Json NewZone.ExceptBind NewZone.Crypto
open NewZone.Crypto.SignedPacket
open NewZone.Crypto.EncryptedPacket (Reader encryptedVersion decryptPacket)
open NewZone.Crypto.Ed25519 (ed25519Verify)

/-- `new Uint8Array(32)` -/
def sessionKey : Bytes := List.replicate 32 0

/-- What the gateway takes from the platform. -/
structure Platform where
  hash : NodeHash
  node : NodeSign
  cipher : NodeCipher
  engine : Engine
  coerce : Coercions
  reader : Reader

variable (P : Platform)

/-- `knownNodes[nodeId]`, for any value that a packet names. -/
def lookup (ctx : Context) (nodeId : Json) : Except String (Option Bytes) := do
  getPublicKeyByNodeId P.coerce ctx.knownNodes (← P.engine.propertyKey (some nodeId))

/-- `verifySignedPacket` as the gateway calls it, with a lookup that may throw where
the packet gets to it. -/
def verifySigned (ctx : Context) (packet : Json) : Except String Verdict :=
  let verdict := verifySignedPacket P.hash P.node P.coerce
    { packet, getPublicKeyByNodeId := fun nodeId => (lookup P ctx nodeId).toOption.join }
    ctx.clock
  match verdict, (present packet "auth").bind fun auth => present auth "node_id" with
  | .ok (.rejected "unknown_node"), some nodeId => do
    let _ ← lookup P ctx nodeId
    return .rejected "unknown_node"
  | _, _ => verdict

/-- What `POST /verify` tries. -/
def verifyBody (ctx : Context) : Body → Except String Verdict
  | .empty => .error "Unexpected end of JSON input"
  | .invalid => .error "Unexpected token"
  | .json .null => .error "Cannot read properties of null (reading 'version')"
  | .json packet => do
    let signed ←
      if field packet "version" = some (.str encryptedVersion) then
        decryptPacket P.engine P.coerce P.cipher P.reader packet sessionKey
      else pure packet
    verifySigned P ctx signed

/-- `POST /verify` -/
def verify (ctx : Context) (body : Body) : Response :=
  match verifyBody P ctx body with
  | .ok (.accepted node_id) =>
    { status := 200, body := .obj [(js "ok", .bool true), (js "node_id", node_id)] }
  | .ok (.rejected reason) => .error 403 reason
  | .error _ => .error 400 "Invalid crypto packet"

/-! ## Packets of a node -/

/-- The packet as it is sent: a field that is `undefined` is left out. -/
def toJson (packet : Packet) : Json :=
  .obj ([(js "auth", Json.obj ((packet.auth.properties.filterMap fun m =>
        m.2.map fun v => (m.1, v)) ++ [(js "signature", .str packet.signature)]))]
    ++ (packet.body.map fun v => (js "body", v)).toList)

variable {P : Platform}

/-- A packet with a number for a time and a text for a signature is rejected when the
key of its node does not have 32 bytes. -/
theorem rejected_of_length {params : VerifyParams} {clock : ℕ} {auth : Json} {t : Number}
    {s : JsString} (hauth : field params.packet "auth" = some auth)
    (htimestamp : field auth "timestamp" = some (.num t))
    (hsignature : field auth "signature" = some (.str s))
    (hkey : ∀ node_id pubKey, field auth "node_id" = some node_id →
      params.getPublicKeyByNodeId node_id = some pubKey → pubKey.length ≠ 32) :
    ∃ reason, verifySignedPacket P.hash P.node P.coerce params clock
      = .ok (.rejected reason) := by
  unfold verifySignedPacket
  dsimp only
  split
  swap
  · exact ⟨_, rfl⟩
  rename_i auth' hauth'
  obtain rfl := eq_of_present hauth hauth'
  split
  swap
  · exact ⟨_, rfl⟩
  split
  swap
  · exact ⟨_, rfl⟩
  rename_i node_id hid
  split
  swap
  · exact ⟨_, rfl⟩
  rename_i timestamp htime
  obtain rfl := eq_of_present htimestamp htime
  split
  swap
  · exact ⟨_, rfl⟩
  split
  swap
  · exact ⟨_, rfl⟩
  split
  swap
  · exact ⟨_, rfl⟩
  rename_i signature hsig
  obtain rfl := eq_of_present hsignature hsig
  rw [bind_of_ok (rfl : P.coerce.timestampOutOfRange _ (.num t) _ = .ok _)]
  split_ifs
  · exact ⟨_, rfl⟩
  · exact ⟨_, rfl⟩
  · exact ⟨_, rfl⟩
  split
  swap
  · exact ⟨_, rfl⟩
  rename_i pubKey hpub
  have hverify : ∀ message sig, ed25519Verify P.node message sig pubKey = .ok false := by
    intro message sig
    unfold ed25519Verify
    rw [if_pos (hkey node_id pubKey (present_eq_some_iff.mp hid).1 hpub)]
    rfl
  rw [bind_of_ok (rfl : P.coerce.b64ToU8 (.str s) = .ok _), bind_of_ok (hverify _ _)]
  exact ⟨_, rfl⟩

/-- A packet that is not encrypted is verified as it is. -/
theorem verifyBody_of_plain {ctx : Context} {packet : Json} (hnull : packet ≠ .null)
    (h : field packet "version" ≠ some (.str encryptedVersion)) :
    verifyBody P ctx (.json packet) = verifySigned P ctx packet := by
  cases packet with
  | null => exact absurd rfl hnull
  | _ =>
    rw [verifyBody, if_neg h]
    · rfl
    · exact nofun

/-- With a seed, every body can be signed at any time. -/
theorem exists_made {hash : NodeHash} {node : NodeSign} (hnode : node.Lawful)
    {seed : Bytes} (hseed : seed.length = 32) (nodeId body : Option Json) (clock : ℕ)
    (random : Bytes) :
    ∃ c : BuildCall, c.Made hash node ∧
      c.params = { nodeId, privateKey := seed, body } ∧ c.clock = clock ∧
      c.random = random := by
  let auth : Auth :=
    { node_id := nodeId, timestamp := seconds clock, nonce := toHex random
      body_hash := sha256Hex hash body }
  obtain ⟨_, -, hsign⟩ := Ed25519.exists_sign_verify hnode hseed
  obtain ⟨sig, hsig, -⟩ := hsign (authMessage hash auth.properties)
  refine ⟨{ params := { nodeId, privateKey := seed, body }, clock, random
            packet := { auth, signature := Base64.encode sig, body } }, ?_, rfl, rfl, rfl⟩
  unfold BuildCall.Made buildSignedPacket
  exact bind_of_ok hsig _

/-- The fields of the packet that a call has built. -/
theorem fields_of_made {c : BuildCall} (hmade : c.Made P.hash P.node) :
    ∃ auth, field (toJson c.packet) "auth" = some auth ∧
      field (toJson c.packet) "version" = none ∧
      field auth "node_id" = c.params.nodeId ∧
      field auth "timestamp" = some (.num (seconds c.clock)) ∧
      field auth "signature" = some (.str c.packet.signature) := by
  obtain ⟨hbody, hauth⟩ := of_buildSignedPacket_ok hmade
  refine ⟨_, rfl, ?_, ?_, ?_, ?_⟩
  · unfold toJson
    cases c.packet.body <;> rfl
  all_goals
    rw [hauth]
    cases c.params.nodeId <;> rfl

/-- The gateway refuses a packet of a node whose registered key does not have 32
bytes. -/
theorem refused_of_length {c : BuildCall} (hmade : c.Made P.hash P.node)
    {node_id : JsString} (hid : c.params.nodeId = some (.str node_id)) {ctx : Context}
    {der : Bytes}
    (hkey : getPublicKeyByNodeId P.coerce ctx.knownNodes node_id = .ok (some der))
    (hlength : der.length ≠ 32) :
    ∃ reason, verify P ctx (.json (toJson c.packet)) = .error 403 reason := by
  obtain ⟨auth, hauth, hversion, hnode, htimestamp, hsignature⟩ := fields_of_made hmade
  rw [hid] at hnode
  have hlookup : lookup P ctx (.str node_id) = .ok (some der) := hkey
  obtain ⟨reason, hrejected⟩ := @rejected_of_length P
    { packet := toJson c.packet
      getPublicKeyByNodeId := fun nodeId => (lookup P ctx nodeId).toOption.join }
    ctx.clock auth _ _ hauth htimestamp hsignature fun node_id' pubKey hid' hpub => by
      obtain rfl := Option.some.inj (hnode.symm.trans hid')
      rw [toOption_join_eq_some, hlookup] at hpub
      obtain rfl : der = pubKey := Option.some.inj (Except.ok.inj hpub)
      exact hlength
  have hsigned : ∃ reason, verifySigned P ctx (toJson c.packet)
      = .ok (.rejected reason) := by
    refine ⟨reason, ?_⟩
    unfold verifySigned
    dsimp only
    rw [hrejected]
    split
    · rename_i nodeId hreason hnodeId
      obtain ⟨auth', hauth', hid'⟩ := Option.bind_eq_some_iff.mp hnodeId
      obtain rfl := eq_of_present hauth hauth'
      obtain rfl := eq_of_present hnode hid'
      rw [bind_of_ok hlookup, hreason]
      rfl
    · rfl
  obtain ⟨reason, hsigned⟩ := hsigned
  refine ⟨reason, ?_⟩
  have hnull : toJson c.packet ≠ .null := by
    unfold toJson
    nofun
  have hplain : field (toJson c.packet) "version" ≠ some (.str encryptedVersion) := by
    rw [hversion]
    nofun
  rw [verify, verifyBody_of_plain hnull hplain, hsigned]

/-- The registered key of a node with generated keys is its SPKI structure. -/
theorem registered_length {serviceName : JsString} {seed random : Bytes} {keys : KeyFile}
    (hnode : P.node.Lawful)
    (hkeys : generateNodeKeys P.node serviceName seed random = .ok keys)
    {knownNodes : PlainObject Json} {entry : Json}
    (hentry : knownNodes.get keys.node_id = some entry)
    (hannounced : present entry "public_key" = some (.str keys.ed25519_public)) :
    ∃ der, getPublicKeyByNodeId P.coerce knownNodes keys.node_id = .ok (some der) ∧
      der.length = 44 := by
  obtain ⟨pub, hpub⟩ := of_generateNodeKeys_ok hkeys
  obtain ⟨raw, hraw, hexport⟩ := hnode.exportSpki_eq pub
  have hkey := getPublicKeyByNodeId_of_get P.coerce hentry hannounced
  rw [hpub, Base64.decode_encode, hexport] at hkey
  exact ⟨_, hkey, by rw [List.length_append, hraw]; rfl⟩

/-- **The gateway accepts no packet of its own nodes.**  Whatever a node with generated
keys signs, and whenever it comes, `POST /verify` answers 403. -/
theorem own_packet_refused {serviceName : JsString} {seed random : Bytes} {keys : KeyFile}
    (hnode : P.node.Lawful)
    (hkeys : generateNodeKeys P.node serviceName seed random = .ok keys)
    {ctx : Context} {entry : Json} (hentry : ctx.knownNodes.get keys.node_id = some entry)
    (hannounced : present entry "public_key" = some (.str keys.ed25519_public))
    {c : BuildCall} (hmade : c.Made P.hash P.node)
    (hid : c.params.nodeId = some (.str keys.node_id)) :
    ∃ reason, verify P ctx (.json (toJson c.packet)) = .error 403 reason := by
  obtain ⟨der, hkey, hlength⟩ := registered_length hnode hkeys hentry hannounced
  exact refused_of_length hmade hid hkey (by rw [hlength]; decide)

/-! ## The key file of the discovery service -/

def fileSeed : Tabulated.Key :=
  ⟨Tabulated.hex 32 0x0adecace040f4e573b0422885ccabde41cf71d4d9c862d62161df1df8b3683ca,
    Tabulated.length_hex _ _⟩

/-- The Ed25519 public key of that seed. -/
def fileKey : Tabulated.Key :=
  ⟨Tabulated.hex 32 0x63624c050577f3f686c320de891901b6e33b378607113bbacf4d9be62c9608f8,
    Tabulated.length_hex _ _⟩

def fileNodeId : JsString := js "discovery.37d1585a"

def fileAuth : Auth := { knownAuth with node_id := some (.str fileNodeId) }

/-- The SHA-256 digests of the known body and of that `auth` object. -/
def fileHash : NodeHash :=
  Tabulated.hash
    [(utf8 knownText, Tabulated.hex 32
        0x635d9a0053cd03dd01331cac31546217af248565d843de56e7e9a702d66dc6d1),
      (utf8 (stringify (.obj (canonicalize fileAuth.properties))),
        Tabulated.hex 32
          0x3d8aabe5df7385051bb6f9e3b45583d26db18d8f227ca1e2ef095d2df09f2f55)]
    [] []

/-- The Ed25519 signature of its text by that seed. -/
def fileSignature : { s : Bytes // s.length = 64 } :=
  ⟨Tabulated.hex 32
      0xe5efdf16c3de8ec610a01a89dd84d4426dca4127e7cc20ae9a68d6285a61b2b2 ++
    Tabulated.hex 32
      0x3e60614d7d0823679d326b16c8e4d057d7cff2baf9884d2035a62d37e6621d03, by
    simp⟩

/-- The packet is not encrypted, so nothing is asked about sealed ones. -/
def filePlatform : Platform where
  hash := fileHash
  node := Tabulated.sign [(fileSeed, fileKey)]
    [((authMessage fileHash fileAuth.properties, fileKey), fileSignature)]
  cipher := { encipher := fun _ _ _ _ => ([], []), decipher := fun _ _ _ _ _ => none }
  engine := .plain
  coerce := knownCoercions
  reader := { decode := fun _ => [], parse := fun _ => .error "Unexpected token" }

def fileKeys : KeyFile where
  node_id := fileNodeId
  ed25519_public := Base64.encode (spkiPrefix ++ fileKey.1)
  ed25519_private := Base64.encode (pkcs8Prefix ++ fileSeed.1)

/-- The gateway has copied the announcement of the discovery service. -/
def fileContext : Context where
  knownNodes := listen .plain .empty
    (announcement fileNodeId fileKeys.ed25519_public (js "discovery"))
  clock := 1700000100000

theorem lawful_filePlatform : filePlatform.node.Lawful := Tabulated.lawful_sign _ _

theorem fileKeys_generated :
    generateNodeKeys filePlatform.node (js "discovery") fileSeed.1 [0x37, 0xd1, 0x58, 0x5a]
      = .ok fileKeys := by
  have hpublic : filePlatform.node.publicKeyOf fileSeed = fileKey := by
    simp [filePlatform, Tabulated.sign, Tabulated.lookupD]
  have hprivate : filePlatform.node.createPrivateKey (pkcs8Prefix ++ fileSeed.1)
      = .ok fileSeed := Tabulated.parseDer_append pkcs8Prefix fileSeed
  unfold generateNodeKeys
  rw [bind_of_ok hprivate, hpublic]
  rfl

/-- The discovery service signs the known body. -/
theorem exists_fileCall :
    ∃ c : BuildCall, c.Made filePlatform.hash filePlatform.node ∧
      c.params = { nodeId := some (.str fileNodeId), privateKey := fileSeed.1
                   body := some knownBody } ∧
      c.clock = 1700000000000 := by
  obtain ⟨c, hmade, hparams, hclock, -⟩ := @exists_made filePlatform.hash filePlatform.node
    lawful_filePlatform fileSeed.1 fileSeed.2 (some (.str fileNodeId)) (some knownBody)
    1700000000000 (List.range 16 |>.map UInt8.ofNat)
  exact ⟨c, hmade, hparams, hclock⟩

theorem file_refused :
    ∃ c : BuildCall, c.Made filePlatform.hash filePlatform.node ∧
      ∃ reason, verify filePlatform fileContext (.json (toJson c.packet))
        = .error 403 reason := by
  obtain ⟨c, hmade, hparams, -⟩ := exists_fileCall
  exact ⟨c, hmade, own_packet_refused lawful_filePlatform fileKeys_generated rfl rfl hmade
    (by rw [hparams]; rfl)⟩

/-- **The gateway refuses the discovery service.**  Its packet comes after 100 s, and
its key is in the trust store. -/
theorem file_packet_refused :
    generateNodeKeys filePlatform.node (js "discovery") fileSeed.1 [0x37, 0xd1, 0x58, 0x5a]
        = .ok fileKeys ∧
      ∃ c : BuildCall, c.Made filePlatform.hash filePlatform.node ∧
        c.params = { nodeId := some (.str fileKeys.node_id), privateKey := fileSeed.1
                     body := some knownBody } ∧
        c.clock = 1700000000000 ∧
        ∃ reason, verify filePlatform fileContext (.json (toJson c.packet))
          = .error 403 reason := by
  refine ⟨fileKeys_generated, ?_⟩
  obtain ⟨c, hmade, hparams, hclock⟩ := exists_fileCall
  obtain ⟨der, hkey, hlength⟩ := @registered_length filePlatform _ _ _ _
    lawful_filePlatform fileKeys_generated fileContext.knownNodes _ rfl rfl
  exact ⟨c, hmade, hparams, hclock,
    refused_of_length hmade (by rw [hparams]; rfl) hkey (by rw [hlength]; decide)⟩

end NewZone.Services.Gateway
