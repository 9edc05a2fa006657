import NewZone.Services.EventBus
import NewZone.Services.Forward
import NewZone.Services.PacketCopy
import NewZone.Services.Queue
import NewZone.Services.Storage

/-!
# Publishing a signed event

`POST /publish` of `services/event/server.js`: the payload of an event is verified,
stored by the storage server, and put into the queue `history`.  The storage server
reads its requests like every other one, so a payload that is itself a routing packet
is unwrapped before it is stored.  `stored_as_signed_iff` says that this is all that
can go wrong.

Nobody interrupts the three servers between two requests, and each of them is asked
once at most, so a state of each is all that a publication meets.
-/

namespace NewZone.Services.Publish

open NewZone.Js NewZone.Js.Json NewZone.ExceptBind NewZone.Crypto
open NewZone.Crypto.SignedPacket (Coercions CollisionFree collisionFree_pair present
  present_eq_some_iff eq_of_present knownBody knownCoercions)
open NewZone.Crypto.RoutingPacket (routingVersion knownNode knownCall knownCall_made)
open NewZone.Services.Storage (Objects generateHash isObject)

/-- What the servers take from the platform. -/
structure Platform where
  hash : NodeHash
  node : NodeSign
  engine : Engine
  coerce : Coercions
  /-- `crypto.verify(null, data, public_key, signature)` for whatever has been submitted
  as a key. -/
  verifyKey : (data : Bytes) → (public_key : Json) → (signature : Bytes) →
    Except String Bool

/-- The states of the storage server, of the queue server and of the event bus. -/
structure World where
  storage : Objects
  queue : Queue.Store
  EVENTS : List EventBus.Event

/-- The contexts in which the event, the storage and the queue server are asked. -/
structure Contexts where
  event : Context
  storage : Context
  queue : Context

variable (P : Platform)

/-- The parser of the event server, which does not expect `null`. -/
def parseRequestBodyWithCrypto (ctx : Context) : Body → Except String Parsed
  | .json .null => .error "Cannot read properties of null (reading 'version')"
  | body => Services.parseRequestBodyWithCrypto P.node P.coerce ctx body

def verifyEvent (eventPayload signature public_key : Json) : Except String Bool := do
  let sig ← P.coerce.b64ToU8 signature
  P.verifyKey (utf8 (stringify eventPayload)) public_key sig

/-- What is left of a request when its body and its signature have been checked. -/
inductive Checked where
  | silent
  | answered (response : Response)
  | verified (eventPayload : Json)

def check (ctx : Context) (body : Body) : Checked :=
  match parseRequestBodyWithCrypto P ctx body with
  | .error _ => .silent
  | .ok (.answered response) => .answered response
  | .ok (.payload payload _) =>
    match payload.bind fun v => present v "payload",
      payload.bind fun v => present v "signature",
      payload.bind fun v => present v "public_key" with
    | some eventPayload, some signature, some public_key =>
      match verifyEvent P eventPayload signature public_key with
      | .ok true => .verified eventPayload
      | .ok false => .answered (.error 403 "Invalid signature")
      | .error _ => .answered (.error 400 "Invalid signature or key")
    | _, _, _ => .answered (.error 400 "Missing fields")

/-- The body that `forward` sends. -/
def forwardBody (body : Json) : Body := if body.truthy then .json body else .empty

/-- `POST /cas/store` with the payload that `forward` has written. -/
def forwardStore (ctx : Context) (STORE : Objects) (eventPayload : Json) :
    Objects × Option Response :=
  withBody P.node P.coerce ctx STORE (forwardBody eventPayload) (Storage.store P.hash STORE)

def historyItem (hash_id : Option Json) (eventPayload : Json) : Json :=
  .obj ((hash_id.map fun v => (js "hash_id", v)).toList ++ [(js "payload", eventPayload)])

def historyRequest (item : Json) : Json :=
  .obj [(js "queue", .str (js "history")), (js "payload", item)]

/-- `POST /enqueue` with the item that `forward` has written. -/
def forwardEnqueue (ctx : Context) (queue : Queue.Store) (item : Json) :
    Queue.Store × Option Response :=
  withBody P.node P.coerce ctx queue (forwardBody (historyRequest item))
    (Queue.enqueueRoute P.engine ctx.clock queue)

def published (hash_id : Option Json) : Response where
  status := 200
  body := .obj ([(js "ok", .bool true)] ++ (hash_id.map fun v => (js "hash_id", v)).toList)

/-- `POST /publish`, with both other servers reachable. -/
def publish (ctx : Contexts) (w : World) (body : Body) : World × Option Response :=
  match check P ctx.event body with
  | .silent => (w, none)
  | .answered response => (w, some response)
  | .verified eventPayload =>
    let (storage, result) := forwarded (forwardStore P ctx.storage w.storage eventPayload)
    if result.status ≠ 200 then
      ({ w with storage }, some
        { status := 500
          body := .obj [(js "error", .str (js "CAS store failed")),
            (js "detail", result.body)] })
    else
      let hash_id := field result.body "hash_id"
      let item := historyItem hash_id eventPayload
      let (queue, _) := forwarded (forwardEnqueue P ctx.queue w.queue item)
      let EVENTS := EventBus.publishEvent w.EVENTS (some (.str (js "signed_event")))
        (some (.str (js "event-service"))) (some item) ctx.event.clock
      ({ storage, queue, EVENTS }, some (published hash_id))

/-! ## What is answered 200 -/

variable {P}

theorem status_of_check {ctx : Context} {body : Body} {response : Response}
    (h : check P ctx body = .answered response) : response.status ≠ 200 := by
  unfold check at h
  split at h
  · cases h
  · rename_i answer hparse
    obtain rfl := Checked.answered.inj h
    unfold parseRequestBodyWithCrypto at hparse
    split at hparse
    · cases hparse
    · exact status_of_parse hparse
  · split at h
    · split at h
      all_goals cases h
      all_goals nofun
    · cases h
      nofun

/-- The storage server stores the payload that its parser resolves to. -/
theorem forwardStore_ok_iff {ctx : Context} {STORE STORE' : Objects} {eventPayload : Json}
    {result : Response} :
    forwardStore P ctx STORE eventPayload = (STORE', some result) ∧ result.status = 200 ↔
      ∃ object crypto, Services.parseRequestBodyWithCrypto P.node P.coerce ctx
          (forwardBody eventPayload) = .ok (.payload (some object) crypto) ∧
        isObject object = true ∧
        STORE' = STORE.set (generateHash P.hash object) object ∧
        result =
          { status := 200
            body := .obj [(js "hash_id", .str (generateHash P.hash object))] } := by
  unfold forwardStore
  rw [withBody_ok_iff]
  constructor
  · rintro ⟨payload, crypto, hparse, hroute, hstatus⟩
    unfold Storage.store at hroute
    cases hobject : payload.filter isObject with
    | none =>
      rw [hobject] at hroute
      obtain ⟨-, rfl⟩ := Prod.mk.inj hroute
      cases hstatus
    | some object =>
      rw [hobject] at hroute
      obtain ⟨hstore, hanswer⟩ := Prod.mk.inj hroute
      obtain ⟨rfl, hobject'⟩ := Option.filter_eq_some_iff.mp hobject
      exact ⟨object, crypto, hparse, hobject', hstore.symm, hanswer.symm⟩
  · rintro ⟨object, crypto, hparse, hobject, rfl, rfl⟩
    refine ⟨some object, crypto, hparse, ?_, rfl⟩
    rw [Storage.store, Option.filter_eq_some_iff.mpr ⟨rfl, hobject⟩]
    rfl

/-- The queue server puts the item into `history`. -/
theorem exists_forwardEnqueue (ctx : Context) (queue : Queue.Store) (item : Json) :
    ∃ queue' items result, forwardEnqueue P ctx queue item = (queue', some result) ∧
      queue'.QUEUES.lookup (js "history")
        = .own (items ++ [{ ts := ctx.clock, payload := some item }]) := by
  obtain ⟨QUEUES, items, henqueue, hlookup⟩ := @Queue.exists_enqueue P.engine queue.QUEUES
    (js "history") (by decide) (some item) ctx.clock
  refine ⟨{ queue with QUEUES }, items,
    { status := 200, body := (Queue.Item.mk ctx.clock (some item)).toJson }, ?_, hlookup⟩
  have hparse : Services.parseRequestBodyWithCrypto P.node P.coerce ctx
      (forwardBody (historyRequest item)) = .ok (.payload (some (historyRequest item)) false) :=
    parse_plain nofun
  have hqueue : member (some (historyRequest item)) "queue" = some (.str (js "history")) := rfl
  have hpayload : member (some (historyRequest item)) "payload" = some item := rfl
  rw [forwardEnqueue, withBody_of_payload hparse, Queue.enqueueRoute, hqueue, hpayload,
    henqueue]

/-- What a publication has done that is answered 200. -/
theorem of_publish {ctx : Contexts} {w w' : World} {body : Body} {response : Response}
    (h : publish P ctx w body = (w', some response)) (hstatus : response.status = 200) :
    ∃ eventPayload object crypto items,
      check P ctx.event body = .verified eventPayload ∧
      Services.parseRequestBodyWithCrypto P.node P.coerce ctx.storage
        (forwardBody eventPayload) = .ok (.payload (some object) crypto) ∧
      isObject object = true ∧
      response = published (some (.str (generateHash P.hash object))) ∧
      w'.storage = w.storage.set (generateHash P.hash object) object ∧
      w'.queue.QUEUES.lookup (js "history") = .own (items ++
        [{ ts := ctx.queue.clock
           payload := some (historyItem
             (some (.str (generateHash P.hash object))) eventPayload) }]) := by
  unfold publish at h
  cases hcheck : check P ctx.event body with
  | silent =>
    rw [hcheck] at h
    cases h
  | answered answer =>
    rw [hcheck] at h
    obtain rfl := Option.some.inj (Prod.mk.inj h).2
    exact absurd hstatus (status_of_check hcheck)
  | verified eventPayload =>
    rw [hcheck] at h
    dsimp only at h
    cases hstore : forwarded (forwardStore P ctx.storage w.storage eventPayload) with
    | mk storage result =>
    rw [hstore] at h
    dsimp only at h
    split_ifs at h with hresult
    · obtain rfl := Option.some.inj (Prod.mk.inj h).2
      cases hstatus
    · obtain ⟨object, crypto, hparse, hobject, rfl, rfl⟩ :=
        forwardStore_ok_iff.mp (forwarded_ok_iff.mp ⟨hstore, not_not.mp hresult⟩)
      have hfield : field (.obj [(js "hash_id", .str (generateHash P.hash object))])
          "hash_id" = some (.str (generateHash P.hash object)) := rfl
      obtain ⟨queue, items, answer, henqueue, hlookup⟩ := @exists_forwardEnqueue P ctx.queue
        w.queue (historyItem (some (.str (generateHash P.hash object))) eventPayload)
      rw [hfield, henqueue] at h
      obtain ⟨hworld, hanswer⟩ := Prod.mk.inj h
      subst hworld
      exact ⟨eventPayload, object, crypto, items, rfl, hparse, hobject,
        (Option.some.inj hanswer).symm, rfl, hlookup⟩

/-- A request without an envelope is checked with its own fields. -/
theorem check_verified_iff {ctx : Context} {B eventPayload : Json}
    (hplain : field B "version" ≠ some (.str routingVersion)) :
    check P ctx (.json B) = .verified eventPayload ↔
      present B "payload" = some eventPayload ∧ ∃ signature public_key,
        present B "signature" = some signature ∧
        present B "public_key" = some public_key ∧
        verifyEvent P eventPayload signature public_key = .ok true := by
  have hparse : B ≠ .null →
      parseRequestBodyWithCrypto P ctx (.json B) = .ok (.payload (some B) false) := by
    intro hnull
    cases B with
    | null => exact absurd rfl hnull
    | _ => exact @parse_plain P.node P.coerce ctx _ hplain
  constructor
  · intro h
    have hnull : B ≠ .null := by
      rintro rfl
      cases h
    unfold check at h
    rw [hparse hnull] at h
    dsimp only [Option.bind_some] at h
    split at h
    · rename_i payload signature public_key hpayload hsignature hkey
      split at h
      · rename_i hverify
        obtain rfl := Checked.verified.inj h
        exact ⟨hpayload, signature, public_key, hsignature, hkey, hverify⟩
      · cases h
      · cases h
    · cases h
  · rintro ⟨hpayload, signature, public_key, hsignature, hkey, hverify⟩
    have hnull : B ≠ .null := by
      rintro rfl
      cases hpayload
    unfold check
    rw [hparse hnull]
    dsimp only [Option.bind_some]
    rw [hpayload, hsignature, hkey]
    dsimp only
    rw [hverify]

/-- What is verified and stored is answered 200. -/
theorem exists_publish {ctx : Contexts} (w : World) {body : Body} {eventPayload object : Json}
    {crypto : Bool} (hcheck : check P ctx.event body = .verified eventPayload)
    (hparse : Services.parseRequestBodyWithCrypto P.node P.coerce ctx.storage
      (forwardBody eventPayload) = .ok (.payload (some object) crypto))
    (hobject : isObject object = true) :
    ∃ w', publish P ctx w body
        = (w', some (published (some (.str (generateHash P.hash object))))) ∧
      w'.storage = w.storage.set (generateHash P.hash object) object := by
  obtain ⟨hstore, -⟩ := (@forwardStore_ok_iff P ctx.storage w.storage _ eventPayload _).mpr
    ⟨object, crypto, hparse, hobject, rfl, rfl⟩
  have hfield : field (.obj [(js "hash_id", .str (generateHash P.hash object))])
      "hash_id" = some (.str (generateHash P.hash object)) := rfl
  obtain ⟨queue, items, answer, henqueue, -⟩ := @exists_forwardEnqueue P ctx.queue w.queue
    (historyItem (some (.str (generateHash P.hash object))) eventPayload)
  unfold publish
  rw [hcheck]
  dsimp only
  rw [hstore, forwarded_some]
  dsimp only
  rw [if_neg fun h => h rfl, hfield, henqueue]
  exact ⟨_, rfl, rfl⟩

/-! ## What is stored -/

/-- The object under the hash is the signed one, and the item in the queue too. -/
structure Kept (P : Platform) (storage : Objects) (queue : Queue.Store)
    (eventPayload signature public_key : Json) (h : JsString) : Prop where
  hash_id : h = generateHash P.hash eventPayload
  retrieved : ∃ object,
    Storage.get storage h = { status := 200, body := some object } ∧
      verifyEvent P object signature public_key = .ok true
  queued : ∃ items ts, queue.QUEUES.lookup (js "history")
    = .own (items ++ [{ ts, payload := some (historyItem (some (.str h)) eventPayload) }])

/-- The objects that a publication and the later calls of the storage server hash. -/
def hashedObjects (P : Platform) (ctx : Context) (eventPayload : Json)
    (later : List (Context × Storage.Call)) : List Json :=
  eventPayload :: ((ctx, .store (forwardBody eventPayload)) :: later).filterMap
    (Storage.stored P.node P.coerce)

/-- **When the signed payload is what is stored.**  Whenever a publication is answered
200 with a hash, the hash is that of the payload, the storage server answers an object
under it on which the submitted signature verifies, whatever it is asked in between as long
as it lives, and the item in the queue has the hash and the payload, exactly when the payload
is no routing packet. -/
theorem stored_as_signed_iff {ctx : Contexts} {w w' : World}
    {B eventPayload signature public_key : Json} {h : JsString}
    (hplain : field B "version" ≠ some (.str routingVersion))
    (hpublish : publish P ctx w (.json B) = (w', some (published (some (.str h)))))
    (hpayload : field B "payload" = some eventPayload)
    (hsignature : field B "signature" = some signature)
    (hkey : field B "public_key" = some public_key)
    (later : List (Context × Storage.Call))
    (hfree : CollisionFree P.hash
      ((hashedObjects P ctx.storage eventPayload later).map Storage.text)) :
    Kept P (later.foldl (Storage.after P.hash P.node P.coerce) w'.storage) w'.queue
        eventPayload signature public_key h ↔
      field eventPayload "version" ≠ some (.str routingVersion) := by
  obtain ⟨payload, object, crypto, items, hcheck, hparse, hobject, hanswer, hstorage,
    hqueue⟩ := of_publish hpublish rfl
  obtain ⟨hpayload', signature', public_key', hsignature', hkey', hverify⟩ :=
    (check_verified_iff hplain).mp hcheck
  obtain ⟨hpayload', htruthy⟩ := present_eq_some_iff.mp hpayload'
  obtain rfl := Option.some.inj (hpayload'.symm.trans hpayload)
  obtain rfl := eq_of_present hsignature hsignature'
  obtain rfl := eq_of_present hkey hkey'
  obtain rfl : generateHash P.hash object = h := by
    have hbody := congrArg (fun response => field response.body "hash_id") hanswer
    exact (Json.str.inj (Option.some.inj hbody)).symm
  have hforward : forwardBody payload = .json payload := if_pos htruthy
  have hstored : Storage.stored P.node P.coerce (ctx.storage, .store (forwardBody payload))
      = some object := by
    unfold Storage.stored
    dsimp only
    rw [hparse]
    exact Option.filter_eq_some_iff.mpr ⟨rfl, hobject⟩
  rw [hforward] at hparse
  constructor
  · intro hkept hversion
    -- what has been hashed is a part of the payload
    obtain ⟨node_id, haccepted⟩ := accepted_of_packet hversion hparse
    have hpart : some object = field payload "payload" := payload_of_accepted haccepted
    have hsame := Storage.generateHash_inj hfree
      (List.mem_cons_of_mem _ (List.mem_filterMap.mpr ⟨_, List.mem_cons_self, hstored⟩))
      List.mem_cons_self hkept.hash_id
    rw [hsame] at hpart
    exact field_ne_self payload "payload" hpart.symm
  · intro hversion
    rw [parse_plain hversion] at hparse
    obtain ⟨hpayload', -⟩ := Parsed.payload.inj (Except.ok.inj hparse)
    obtain rfl := Option.some.inj hpayload'
    have hget : w'.storage.get (generateHash P.hash payload) = some payload := by
      rw [hstorage]
      exact PlainObject.get_set_self _ _ _
    refine ⟨rfl, ⟨payload, Storage.get_of_own (Storage.get_foldl_after later ?_ hget) htruthy,
      hverify⟩, items, _, hqueue⟩
    intro call hcall other hother hsame
    exact Storage.generateHash_inj hfree (List.mem_cons_of_mem _ (List.mem_filterMap.mpr
      ⟨call, List.mem_cons_of_mem _ hcall, hother⟩)) List.mem_cons_self hsame

/-! ## Known events -/

/-- The known key as a publisher submits it. -/
def knownPem : JsString :=
  js "-----BEGIN PUBLIC KEY-----\n" ++ spkiText Tabulated.knownKey
    ++ js "\n-----END PUBLIC KEY-----\n"

/-- The publisher has signed one payload with the known key. -/
def publisher (hash : NodeHash) (eventPayload : Json) (signature : Bytes) : Platform where
  hash := hash
  node := knownNode
  engine := .plain
  coerce := knownCoercions
  verifyKey := fun data public_key sig =>
    if public_key = .str knownPem then
      .ok (decide (data = utf8 (stringify eventPayload) ∧ sig = signature))
    else .error "error:1E08010C:DECODER routines::unsupported"

/-- The request of the publisher. -/
def eventRequest (eventPayload : Json) (signature : Bytes) : Json :=
  .obj [(js "payload", eventPayload), (js "signature", .str (Base64.encode signature)),
    (js "public_key", .str knownPem)]

/-- The three servers know the key of node-a. -/
def knownContexts : Contexts :=
  let ctx : Context := { knownNodes := announcedNodes, clock := 1700000000000 }
  { event := ctx, storage := ctx, queue := ctx }

def emptyWorld : World := { storage := .empty, queue := .initial, EVENTS := [] }

theorem verifyEvent_publisher {hash : NodeHash} {eventPayload object : Json}
    {signature sig : Bytes} :
    verifyEvent (publisher hash eventPayload signature) object (.str (Base64.encode sig))
        (.str knownPem) = .ok true ↔ object = eventPayload ∧ sig = signature := by
  have hread : (publisher hash eventPayload signature).coerce.b64ToU8
      (.str (Base64.encode sig)) = .ok sig := congrArg Except.ok (Base64.decode_encode _)
  unfold verifyEvent
  rw [bind_of_ok hread]
  simp [publisher, utf8_stringify_injective.eq_iff]

/-- The request of the publisher is verified. -/
theorem check_publisher (hash : NodeHash) {eventPayload : Json} {signature : Bytes}
    (htruthy : eventPayload.truthy = true) (hsignature : signature ≠ []) :
    check (publisher hash eventPayload signature) knownContexts.event
      (.json (eventRequest eventPayload signature)) = .verified eventPayload := by
  have hplain : field (eventRequest eventPayload signature) "version"
      ≠ some (.str routingVersion) := nofun
  have hpem : (Json.str knownPem).truthy = true := rfl
  have hsig : (Json.str (Base64.encode signature)).truthy = true := by
    cases hencode : Base64.encode signature with
    | nil => exact absurd hencode (Base64.encode_ne_nil hsignature)
    | cons u t => rfl
  exact (check_verified_iff hplain).mpr
    ⟨present_eq_some_iff.mpr ⟨rfl, htruthy⟩, _, _, present_eq_some_iff.mpr ⟨rfl, hsig⟩,
      present_eq_some_iff.mpr ⟨rfl, hpem⟩, verifyEvent_publisher.mpr ⟨rfl, rfl⟩⟩

/-- The request is answered, if the storage server stores something for it. -/
theorem exists_publish_known (hash : NodeHash) {eventPayload object : Json} (crypto : Bool)
    (signature : Bytes) (htruthy : eventPayload.truthy = true)
    (hsignature : signature ≠ [])
    (hparse : Services.parseRequestBodyWithCrypto knownNode knownCoercions
      knownContexts.storage (.json eventPayload) = .ok (.payload (some object) crypto))
    (hobject : isObject object = true) :
    ∃ w', publish (publisher hash eventPayload signature) knownContexts emptyWorld
        (.json (eventRequest eventPayload signature))
        = (w', some (published (some (.str (generateHash hash object))))) ∧
      w'.storage = PlainObject.empty.set (generateHash hash object) object := by
  have hforward : forwardBody eventPayload = .json eventPayload := if_pos htruthy
  rw [← hforward] at hparse
  exact exists_publish emptyWorld (check_publisher hash htruthy hsignature) hparse hobject

/-- Nothing else is hashed, if nothing is asked later. -/
theorem hashedObjects_nil {ctx : Context} {eventPayload object : Json} {crypto : Bool}
    (htruthy : eventPayload.truthy = true)
    (hparse : Services.parseRequestBodyWithCrypto P.node P.coerce ctx (.json eventPayload)
      = .ok (.payload (some object) crypto)) (hobject : isObject object = true) :
    hashedObjects P ctx eventPayload [] = [eventPayload, object] := by
  have hforward : forwardBody eventPayload = .json eventPayload := if_pos htruthy
  have hfilter : (some object).filter isObject = some object :=
    Option.filter_eq_some_iff.mpr ⟨rfl, hobject⟩
  simp [hashedObjects, Storage.stored, hforward, hparse, hfilter]

/-! ### An event that is no packet -/

def pingSignature : Bytes :=
  Tabulated.hex 32 0x674b21383b8e5ad311a5aa9d1a072741db5d2de2b263b764aa5af3e601155b46 ++
    Tabulated.hex 32 0x915f36ea9534190afa1ac3398b06c167024e252f68d6b7fda41f655925f12808

/-- The SHA-256 of the known body. -/
def pingHash : NodeHash :=
  Tabulated.hash [(Storage.text knownBody, Tabulated.hex 32
    0x635d9a0053cd03dd01331cac31546217af248565d843de56e7e9a702d66dc6d1)] [] []

/-- What has been published is stored as it was signed. -/
theorem ping_stored :
    ∃ w' h, publish (publisher pingHash knownBody pingSignature) knownContexts emptyWorld
        (.json (eventRequest knownBody pingSignature))
          = (w', some (published (some (.str h)))) ∧
      Kept (publisher pingHash knownBody pingSignature) w'.storage w'.queue knownBody
        (.str (Base64.encode pingSignature)) (.str knownPem) h := by
  have hplain : field knownBody "version" ≠ some (.str routingVersion) := nofun
  have hrequest : field (eventRequest knownBody pingSignature) "version"
      ≠ some (.str routingVersion) := nofun
  obtain ⟨w', hpublish, -⟩ := exists_publish_known pingHash false pingSignature rfl
    (by decide) (parse_plain hplain) (rfl : isObject knownBody = true)
  refine ⟨w', _, hpublish, ?_⟩
  refine (stored_as_signed_iff hrequest hpublish rfl rfl rfl [] ?_).mpr hplain
  rw [hashedObjects_nil rfl (parse_plain hplain) rfl]
  rintro x hx y hy -
  simp only [List.map_cons, List.map_nil, List.mem_cons, List.not_mem_nil, or_false,
    or_self] at hx hy
  rw [hx, hy]

/-! ### An event that is a packet -/

def packetSignature : Bytes :=
  Tabulated.hex 32 0x9647be1ee37b1121ec8e2058b2cae384e64949f246b5e8e0b0e8a947fe2572c8 ++
    Tabulated.hex 32 0xcbca2a6c817621154535460955423365bc281464fa83988ae59918318527f203

/-- What the packet carries. -/
def carried : Json := .obj [(js "b", .null), (js "a", .bool true)]

/-- The SHA-256 of the packet and of what it carries. -/
def packetHash : NodeHash :=
  Tabulated.hash
    [(Storage.text knownCall.packet.toJson, Tabulated.hex 32
        0x425168250e3eaa20ace73b6b9ded4ec6d1fbc6af21a31d03a38a02a8ea2cd1f5),
      (Storage.text carried, Tabulated.hex 32
        0x2f44eee3b49e42188355488d23ed5370c156aa245f2d27a80c71bc8ef22b4899)] [] []

theorem carried_ne_packet : carried ≠ knownCall.packet.toJson := by
  intro h
  have hversion := congrArg (fun v => field v "version") h
  cases hversion

theorem packetHash_ne : packetHash.sha256 (Storage.text knownCall.packet.toJson)
    ≠ packetHash.sha256 (Storage.text carried) := by
  have hother : Storage.text knownCall.packet.toJson ≠ Storage.text carried :=
    utf8_stringify_injective.ne carried_ne_packet.symm
  simp only [packetHash, Tabulated.hash, Tabulated.lookupD, List.find?_cons, hother,
    decide_true, decide_false, Option.map_some, Option.getD_some]
  decide +kernel

/-- **Something else is stored.**  A publisher signs a packet of node-a, and the storage
server keeps what the packet carries. -/
theorem packet_unwrapped :
    ∃ w' h, publish (publisher packetHash knownCall.packet.toJson packetSignature)
        knownContexts emptyWorld
        (.json (eventRequest knownCall.packet.toJson packetSignature))
          = (w', some (published (some (.str h)))) ∧
      CollisionFree packetHash ((hashedObjects
        (publisher packetHash knownCall.packet.toJson packetSignature)
        knownContexts.storage knownCall.packet.toJson []).map Storage.text) ∧
      Storage.get w'.storage h = { status := 200, body := some carried } ∧
      h ≠ generateHash packetHash knownCall.packet.toJson ∧
      verifyEvent (publisher packetHash knownCall.packet.toJson packetSignature) carried
        (.str (Base64.encode packetSignature)) (.str knownPem) = .ok false := by
  have hparse : Services.parseRequestBodyWithCrypto knownNode knownCoercions
      knownContexts.storage (.json knownCall.packet.toJson) = .ok (.payload (some carried) true) :=
    parse_knownCall knownCall_made (List.mem_singleton_self _)
  have hobjects := @hashedObjects_nil
    (publisher packetHash knownCall.packet.toJson packetSignature) knownContexts.storage
    knownCall.packet.toJson carried true rfl hparse rfl
  obtain ⟨w', hpublish, hstorage⟩ := exists_publish_known packetHash true packetSignature rfl
    (by decide) hparse (rfl : isObject carried = true)
  have hget : w'.storage.get (generateHash packetHash carried) = some carried := by
    rw [hstorage]
    exact PlainObject.get_set_self _ _ _
  refine ⟨w', _, hpublish, ?_, Storage.get_of_own hget rfl,
    fun h => packetHash_ne (toHex_injective h).symm, ?_⟩
  · rw [hobjects]
    exact collisionFree_pair fun h => absurd h packetHash_ne
  · have hread : (publisher packetHash knownCall.packet.toJson packetSignature).coerce.b64ToU8
        (.str (Base64.encode packetSignature)) = .ok packetSignature :=
      congrArg Except.ok (Base64.decode_encode _)
    unfold verifyEvent
    rw [bind_of_ok hread]
    simp [publisher, utf8_stringify_injective.eq_iff, carried_ne_packet]

end NewZone.Services.Publish
