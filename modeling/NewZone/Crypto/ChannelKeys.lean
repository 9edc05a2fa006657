import NewZone.Crypto.SecureChannel
import Mathlib.Data.List.DropRight

/-!
# What the fields of a channel are a function of

`Schedule` is the two infinite rows of session keys that a shared secret and a
base context stand for, one key set for each epoch and direction.  A channel
is `Coherent` with a schedule if its key fields are those of its epoch, and
the three methods are restated here for coherent channels: what they return
and which fields they write.  Nothing after this file looks into the methods
again.
-/

namespace NewZone.Crypto.SecureChannel

open NewZone.Js NewZone.ExceptBind NewZone.Crypto.SessionKeys

/-! ## Contexts and nonces -/

/-- The digits at the end of a text are the number behind its last hyphen. -/
theorem rtakeWhile_decimal (s : JsString) (n : ℕ) :
    (s ++ 0x2D :: decimal n).rtakeWhile isDigitUnit = decimal n := by
  have hdigits : ∀ u ∈ (decimal n).reverse, isDigitUnit u = true := fun u hu =>
    isDigitUnit_of_mem_decimal (List.mem_reverse.mp hu)
  rw [List.rtakeWhile, List.reverse_append, List.reverse_cons, List.append_assoc,
    List.takeWhile_append_of_pos hdigits]
  simp [isDigitUnit]

/-- A context is that of one base context, epoch and direction. -/
theorem context_injective {b b' : JsString} {e e' : ℕ} {d d' : Role}
    (h : directionContext b e d = directionContext b' e' d') :
    b = b' ∧ e = e' ∧ d = d' := by
  -- both directions are spelled with eleven units
  have hlength : (directionSuffix d).length = (directionSuffix d').length := by
    cases d <;> cases d' <;> decide
  obtain ⟨hfront, hsuffix⟩ := List.append_inj' h hlength
  have hd : d = d' := by
    cases d <;> cases d' <;> first | rfl | exact absurd hsuffix (by decide)
  have hepoch : js "/epoch-" = js "/epoch" ++ [0x2D] := rfl
  have hshape : ∀ (b : JsString) (e : ℕ), b ++ js "/epoch-" ++ decimal e
      = (b ++ js "/epoch") ++ 0x2D :: decimal e := by
    intro b e
    rw [hepoch, ← List.append_assoc, List.append_assoc, List.singleton_append]
  have hdigits := congrArg (List.rtakeWhile isDigitUnit) hfront
  rw [hshape, hshape, rtakeWhile_decimal, rtakeWhile_decimal] at hdigits
  rw [hdigits] at hfront
  exact ⟨List.append_cancel_right (List.append_cancel_right hfront),
    decimal_injective hdigits, hd⟩

/-- The context names the epoch and the direction. -/
theorem directionContext_inj {baseContext : JsString} {e e' : ℕ} {d d' : Role} :
    directionContext baseContext e d = directionContext baseContext e' d' ↔
      e = e' ∧ d = d' := by
  constructor
  · exact fun h => (context_injective h).2
  · rintro ⟨rfl, rfl⟩
    rfl

theorem length_writeCounter (nonce : Bytes) (counter : ℕ) :
    (writeCounter nonce counter).length = nonce.length := by
  simp [writeCounter]

theorem mod_eq_of_byte_eq {x y : ℕ}
    (h : UInt8.ofNat (x &&& 0xff) = UInt8.ofNat (y &&& 0xff)) :
    x % 256 = y % 256 := by
  have hand : ∀ n : ℕ, n &&& 0xff = n % 256 := fun n =>
    Nat.and_two_pow_sub_one_eq_mod n 8
  have hnat := congrArg UInt8.toNat h
  rw [UInt8.toNat_ofNat', UInt8.toNat_ofNat', hand, hand] at hnat
  omega

/-- Over a fixed base, a nonce determines the counter as far as `ToUint32`
keeps it, and no further. -/
theorem writeCounter_eq_iff {nonce : Bytes} (h : nonce.length = 12)
    {c c' : ℕ} :
    writeCounter nonce c = writeCounter nonce c' ↔
      toUint32 c = toUint32 c' := by
  constructor
  · intro heq
    have hget : ∀ i : ℕ,
        (writeCounter nonce c)[i]? = (writeCounter nonce c')[i]? :=
      fun i => by rw [heq]
    have h8 := hget 8
    have h9 := hget 9
    have h10 := hget 10
    have h11 := hget 11
    simp only [writeCounter, List.getElem?_set, List.length_set, h]
      at h8 h9 h10 h11
    have b8 := mod_eq_of_byte_eq (Option.some.inj h8)
    have b9 := mod_eq_of_byte_eq (Option.some.inj h9)
    have b10 := mod_eq_of_byte_eq (Option.some.inj h10)
    have b11 := mod_eq_of_byte_eq (Option.some.inj h11)
    simp only [Nat.shiftRight_eq_div_pow] at b8 b9 b10
    have hlt : ∀ n, toUint32 n < 2 ^ 32 := fun n => Nat.mod_lt _ (by decide)
    have := hlt c
    have := hlt c'
    omega
  · intro heq
    rw [writeCounter, writeCounter, heq]

/-! ## Schedules -/

/-- The session keys of every epoch and direction, with `keyLength` 32. -/
structure Schedule (node : NodeHash) (secret : Bytes)
    (baseContext hash : JsString) where
  keys : ℕ → Role → Keys
  derived : ∀ epoch role,
    deriveSessionKeys node (.bytes secret)
      (.text (directionContext baseContext epoch role)) (some hash) (some 32)
      = .ok (keys epoch role)
  encKey_length : ∀ epoch role, (keys epoch role).encKey.length = 32
  nonceBase_length : ∀ epoch role, (keys epoch role).nonceBase.length = 12

theorem exists_schedule (node : NodeHash) {secret : Bytes}
    (hsecret : secret ≠ []) (baseContext : JsString) {hash : JsString}
    (hhash : Hkdf.SupportedHash hash) :
    Nonempty (Schedule node secret baseContext hash) := by
  have hkeys : ∀ (epoch : ℕ) (role : Role), ∃ keys,
      deriveSessionKeys node (.bytes secret)
        (.text (directionContext baseContext epoch role)) (some hash) (some 32)
        = .ok keys ∧
      keys.encKey.length = (32 : Int).toNat ∧ keys.nonceBase.length = 12 :=
    fun epoch role => exists_deriveSessionKeys node hsecret hhash _
      (by decide) (by decide)
  choose keys hderived henc hbase using hkeys
  exact ⟨{ keys := keys, derived := hderived
           encKey_length := henc, nonceBase_length := hbase }⟩

variable {node : NodeHash} {secret : Bytes} {baseContext hash : JsString}

/-- The constructor's fields of the party `role`. -/
def configOf (secret : Bytes) (baseContext hash : JsString) (role : Role) :
    Config :=
  { hash := hash, keyLength := 32, role := role, baseContext := baseContext
    sharedSecret := secret }

/-- The key fields of the party `role` in an epoch: it sends with its own
direction and receives with the other. -/
def Schedule.epochKeys (S : Schedule node secret baseContext hash)
    (epoch : ℕ) (role : Role) : EpochKeys :=
  { sendKey := (S.keys epoch role).encKey
    sendNonceBase := (S.keys epoch role).nonceBase
    recvKey := (S.keys epoch role.peer).encKey
    recvNonceBase := (S.keys epoch role.peer).nonceBase
    sessionIdSend := (S.keys epoch role).sessionId
    sessionIdRecv := (S.keys epoch role.peer).sessionId }

theorem deriveKeysForEpoch_configOf (S : Schedule node secret baseContext hash)
    (epoch : ℕ) (role : Role) :
    deriveKeysForEpoch node (configOf secret baseContext hash role) epoch
      = .ok (S.epochKeys epoch role) := by
  refine (bind_of_ok (S.derived epoch .alice) _).trans
    ((bind_of_ok (S.derived epoch .bob) _).trans ?_)
  cases role <;> rfl

/-! ## Coherent channels -/

/-- The fields of `c` are those of the party `role` in its epoch. -/
structure Coherent (S : Schedule node secret baseContext hash) (role : Role)
    (c : SecureChannel) : Prop where
  config : c.toConfig = configOf secret baseContext hash role
  keys : c.toEpochKeys = S.epochKeys c.epoch role

variable {S : Schedule node secret baseContext hash} {role : Role}
  {c : SecureChannel}

theorem Coherent.sendKey (h : Coherent S role c) :
    c.sendKey = (S.keys c.epoch role).encKey := by rw [h.keys]; rfl

theorem Coherent.sendNonceBase (h : Coherent S role c) :
    c.sendNonceBase = (S.keys c.epoch role).nonceBase := by rw [h.keys]; rfl

theorem Coherent.recvKey (h : Coherent S role c) :
    c.recvKey = (S.keys c.epoch role.peer).encKey := by rw [h.keys]; rfl

/-- The channel of the party `role` before its first call. -/
def Schedule.fresh (S : Schedule node secret baseContext hash) (role : Role) :
    SecureChannel :=
  { toConfig := configOf secret baseContext hash role
    toEpochKeys := S.epochKeys 0 role
    epoch := 0, sendCounter := 1, recvCounter := 1 }

theorem Schedule.coherent_fresh (S : Schedule node secret baseContext hash)
    (role : Role) : Coherent S role (S.fresh role) :=
  ⟨rfl, rfl⟩

/-- The constructor's argument of the party `role`, with `keyLength` 32. -/
def paramsOf (sharedSecret : Input) (baseContext : JsString)
    (hash : Option JsString) (role : Role) : Params :=
  { sharedSecret := sharedSecret, baseContext := some baseContext
    role := some role.text, hash := hash, keyLength := some 32 }

theorem roleOf_text (role : Role) : roleOf (some role.text) = some role := by
  cases role <;> decide

/-- What the constructor has checked, and what it has made. -/
theorem new_cases {params : Params} (h : new node params = .ok c) :
    params.sharedSecret.truthy = true ∧ params.baseContext.getD [] ≠ [] ∧
      roleOf params.role = some c.role ∧
      toBytes params.sharedSecret = .ok c.sharedSecret ∧
      c.hash = params.hash.getD (js "sha512") ∧
      c.keyLength = params.keyLength.getD 32 ∧
      c.baseContext = params.baseContext.getD [] ∧
      deriveKeysForEpoch node c.toConfig 0 = .ok c.toEpochKeys ∧
      c.epoch = 0 ∧ c.sendCounter = 1 ∧ c.recvCounter = 1 := by
  unfold new at h
  have htruthy : params.sharedSecret.truthy = true := by
    by_contra hfalse
    rw [if_pos (by simpa using hfalse)] at h
    cases h
  rw [if_neg (by simp [htruthy])] at h
  dsimp only at h
  have hbase : params.baseContext.getD [] ≠ [] := by
    intro hbase
    rw [if_pos hbase] at h
    cases h
  rw [if_neg hbase] at h
  cases hrole : roleOf params.role with
  | none =>
    rw [hrole] at h
    cases h
  | some role =>
    rw [hrole] at h
    obtain ⟨secret, hsecret, h⟩ := bind_eq_ok.mp h
    obtain ⟨keys, hkeys, h⟩ := bind_eq_ok.mp h
    obtain rfl := Except.ok.inj h
    exact ⟨htruthy, hbase, rfl, hsecret, rfl, rfl, rfl, hkeys, rfl, rfl, rfl⟩

/-- The constructor makes the fresh channel of its schedule. -/
theorem new_ok {sharedSecret : Input} {hash : Option JsString}
    (S : Schedule node secret baseContext (hash.getD (js "sha512")))
    (hsecret : toBytes sharedSecret = .ok secret)
    (htruthy : sharedSecret.truthy = true) (hbase : baseContext ≠ [])
    (role : Role) :
    new node (paramsOf sharedSecret baseContext hash role)
      = .ok (S.fresh role) := by
  unfold new
  rw [if_neg (by simp [paramsOf, htruthy])]
  dsimp only [paramsOf, Option.getD_some]
  rw [if_neg hbase, roleOf_text]
  exact (bind_of_ok hsecret _).trans
    (bind_of_ok (deriveKeysForEpoch_configOf S 0 role) _)

/-- The constructor answers for a truthy non-empty secret, a non-empty base
context and a supported hash only. -/
theorem of_new_ok {sharedSecret : Input} {hash : Option JsString} {role : Role}
    (h : new node (paramsOf sharedSecret baseContext hash role) = .ok c) :
    sharedSecret.truthy = true ∧ baseContext ≠ [] ∧
      Hkdf.SupportedHash (hash.getD (js "sha512")) ∧
      ∃ secret, toBytes sharedSecret = .ok secret ∧ secret ≠ [] := by
  obtain ⟨htruthy, hbase, -, hsecret, hhash, -, -, hkeys, -⟩ := new_cases h
  obtain ⟨ab, hab, -⟩ := bind_eq_ok.mp hkeys
  obtain ⟨hne, hsupported, -⟩ := of_deriveSessionKeys_ok hab
  rw [hhash] at hsupported
  exact ⟨htruthy, hbase, hsupported, _, hsecret, hne⟩

/-- Two channels that the constructor has made are the fresh ones of a
schedule. -/
theorem exists_fresh {sharedSecret : Input} {hash : Option JsString}
    {p : Role → SecureChannel} (hsecret : toBytes sharedSecret = .ok secret)
    (hnew : ∀ role, new node (paramsOf sharedSecret baseContext hash role)
      = .ok (p role)) :
    ∃ S : Schedule node secret baseContext (hash.getD (js "sha512")),
      p = S.fresh := by
  obtain ⟨htruthy, hbase, hhash, secret', hsecret', hne⟩ := of_new_ok (hnew .alice)
  obtain rfl : secret = secret' := Except.ok.inj (hsecret.symm.trans hsecret')
  obtain ⟨S⟩ := exists_schedule node hne baseContext hhash
  refine ⟨S, funext fun role => ?_⟩
  exact Except.ok.inj
    ((hnew role).symm.trans (new_ok S hsecret htruthy hbase role))

/-- `rekey` on a coherent channel answers, moves the epoch, resets the counters
and writes the keys of the new epoch. -/
theorem Coherent.rekey (h : Coherent S role c) :
    SecureChannel.rekey node c
      = (.ok (), { toConfig := c.toConfig
                   toEpochKeys := S.epochKeys (incr c.epoch) role
                   epoch := incr c.epoch, sendCounter := 1
                   recvCounter := 1 }) := by
  have hkeys := deriveKeysForEpoch_configOf S (incr c.epoch) role
  rw [← h.config] at hkeys
  unfold SecureChannel.rekey
  simp only [hkeys]

theorem Coherent.of_rekey (h : Coherent S role c) :
    Coherent S role (SecureChannel.rekey node c).2 := by
  rw [h.rekey]
  exact ⟨h.config, rfl⟩

/-- `encryptToPeer` writes at most the send counter, and nothing when an
argument does not convert. -/
theorem encryptToPeer_frame (cipher : NodeCipher) (c : SecureChannel)
    (plaintext aad : Input) :
    (encryptToPeer cipher c plaintext aad).2 = c ∨
      (plaintext ≠ .other ∧ aad ≠ .other ∧
        (encryptToPeer cipher c plaintext aad).2
          = { c with sendCounter := incr c.sendCounter }) := by
  unfold encryptToPeer
  cases hpt : toBytes plaintext with
  | error e => exact .inl rfl
  | ok pt =>
    cases ha : toBytes aad with
    | error e => exact .inl rfl
    | ok a =>
      refine .inr ⟨?_, ?_, rfl⟩
      · rintro rfl
        cases hpt
      · rintro rfl
        cases ha

/-- `decryptFromPeer` writes at most the receive counter. -/
theorem decryptFromPeer_frame (cipher : NodeCipher) (c : SecureChannel)
    (nonce ciphertext tag aad : Input) :
    (decryptFromPeer cipher c nonce ciphertext tag aad).2 = c ∨
      (decryptFromPeer cipher c nonce ciphertext tag aad).2
        = { c with recvCounter := incr c.recvCounter } := by
  unfold decryptFromPeer
  split
  · exact .inr rfl
  · exact .inl rfl
  · exact .inl rfl

/-- On convertible arguments `encryptToPeer` of a coherent channel seals under
the key of its direction and the nonce of its counter, and moves the
counter. -/
theorem Coherent.encryptToPeer (h : Coherent S role c) (cipher : NodeCipher)
    {plaintext aad : Input} {pt a : Bytes}
    (hpt : toBytes plaintext = .ok pt) (ha : toBytes aad = .ok a) :
    ∃ out : Aead.Sealed,
      Aead.encrypt cipher (.bytes (S.keys c.epoch role).encKey)
        (.bytes (writeCounter (S.keys c.epoch role).nonceBase c.sendCounter))
        (.bytes pt) (.bytes a) = .ok out ∧
      SecureChannel.encryptToPeer cipher c plaintext aad
        = (.ok { nonce := writeCounter (S.keys c.epoch role).nonceBase
                   c.sendCounter
                 ciphertext := out.ciphertext, tag := out.tag
                 counter := c.sendCounter, epoch := c.epoch },
          { c with sendCounter := incr c.sendCounter }) := by
  have hlen := S.nonceBase_length c.epoch role
  have hnonce : makeNonce c.sendNonceBase c.sendCounter
      = .ok (writeCounter (S.keys c.epoch role).nonceBase c.sendCounter) := by
    rw [h.sendNonceBase]
    exact if_neg (not_not.mpr hlen)
  have henc := Aead.encrypt_bytes cipher (S.encKey_length c.epoch role)
    ((length_writeCounter _ c.sendCounter).trans hlen) pt a
  refine ⟨_, henc, ?_⟩
  rw [← h.sendKey] at henc
  have hseal : sealWith cipher c c.sendCounter pt a = .ok _ :=
    (bind_of_ok hnonce _).trans (bind_of_ok henc _)
  simp only [SecureChannel.encryptToPeer, hpt, ha, hseal]
  simp only [h.sendKey]

/-- A message that `encryptToPeer` of a coherent channel returned carries the
nonce of the counter before the call, and the call took that counter. -/
theorem Coherent.of_encryptToPeer_ok (h : Coherent S role c)
    {cipher : NodeCipher} {plaintext aad : Input} {m : Message}
    (hm : (SecureChannel.encryptToPeer cipher c plaintext aad).1 = .ok m) :
    m.nonce = writeCounter (S.keys c.epoch role).nonceBase c.sendCounter ∧
      plaintext ≠ .other ∧ aad ≠ .other ∧
      (SecureChannel.encryptToPeer cipher c plaintext aad).2
        = { c with sendCounter := incr c.sendCounter } := by
  cases hpt : toBytes plaintext with
  | error e =>
    simp only [SecureChannel.encryptToPeer, hpt] at hm
    cases hm
  | ok pt =>
    cases ha : toBytes aad with
    | error e =>
      simp only [SecureChannel.encryptToPeer, hpt, ha] at hm
      cases hm
    | ok a =>
      obtain ⟨out, -, hcall⟩ := h.encryptToPeer cipher hpt ha
      rw [hcall] at hm ⊢
      obtain rfl := Except.ok.inj hm
      refine ⟨rfl, ?_, ?_, rfl⟩
      · rintro rfl
        cases hpt
      · rintro rfl
        cases ha

end NewZone.Crypto.SecureChannel
