import NewZone.Crypto.Node
import NewZone.Lib.ExceptBind

/-!
# Ed25519

The canonical functions of `lib/ed25519.js`: a 32-byte seed or a 32-byte public
key is wrapped into DER and handed to `node:crypto`.
-/

namespace NewZone.Crypto.Ed25519

open NewZone.Js NewZone.ExceptBind

def ed25519GetPublicKey (node : NodeSign) (seed : Bytes) :
    Except String Bytes := do
  if seed.length ≠ 32 then
    throw "Ed25519 seed must be 32 bytes"
  let privKey ← node.createPrivateKey (pkcs8Prefix ++ seed)
  let pubDer := node.exportSpki (node.publicKeyOf privKey)
  return pubDer.drop (pubDer.length - 32)

def ed25519Sign (node : NodeSign) (msg seed : Bytes) : Except String Bytes := do
  if seed.length ≠ 32 then
    throw "Ed25519 seed must be 32 bytes"
  let privKey ← node.createPrivateKey (pkcs8Prefix ++ seed)
  return node.sign msg privKey

def ed25519Verify (node : NodeSign) (msg sig pub : Bytes) :
    Except String Bool := do
  if pub.length ≠ 32 then
    return false
  if sig.length ≠ 64 then
    return false
  let pubKey ← node.createPublicKey (spkiPrefix ++ pub)
  return node.verify msg pubKey sig

/-- A seed that has a public key is a private key, and the public key is what its
export ends with. -/
theorem of_ed25519GetPublicKey_ok {node : NodeSign} (hnode : node.Lawful) {seed pub : Bytes}
    (h : ed25519GetPublicKey node seed = .ok pub) :
    seed.length = 32 ∧ pub.length = 32 ∧
      ∃ key, node.createPrivateKey (pkcs8Prefix ++ seed) = .ok key ∧
        node.exportSpki (node.publicKeyOf key) = spkiPrefix ++ pub := by
  unfold ed25519GetPublicKey at h
  split at h
  · cases h
  rename_i hseed
  obtain ⟨key, hkey, h⟩ := bind_eq_ok.mp h
  obtain ⟨raw, hraw, hexport⟩ := hnode.exportSpki_eq (node.publicKeyOf key)
  have hdrop : (spkiPrefix ++ raw).drop ((spkiPrefix ++ raw).length - 32) = raw := by
    rw [List.length_append, hraw, Nat.add_sub_cancel]
    exact List.drop_left
  dsimp only at h
  rw [hexport, hdrop] at h
  obtain rfl := Except.ok.inj h
  exact ⟨not_not.mp hseed, hraw, key, hkey, hexport⟩

/-- A 32-byte seed has a public key, it signs every message, and its signatures
verify under that key. -/
theorem exists_sign_verify {node : NodeSign} (hnode : node.Lawful)
    {seed : Bytes} (hseed : seed.length = 32) :
    ∃ pub, ed25519GetPublicKey node seed = .ok pub ∧
      ∀ msg, ∃ sig, ed25519Sign node msg seed = .ok sig ∧
        ed25519Verify node msg sig pub = .ok true := by
  obtain ⟨key, hkey⟩ := hnode.createPrivateKey_seed seed hseed
  obtain ⟨pub, hpub⟩ : ∃ pub, ed25519GetPublicKey node seed = .ok pub := by
    unfold ed25519GetPublicKey
    rw [if_neg (not_not.mpr hseed)]
    exact ⟨_, bind_of_ok hkey _⟩
  obtain ⟨-, hlength, key', hkey', hexport⟩ := of_ed25519GetPublicKey_ok hnode hpub
  obtain rfl : key = key' := Except.ok.inj (hkey.symm.trans hkey')
  refine ⟨pub, hpub, fun msg => ⟨node.sign msg key, ?_, ?_⟩⟩
  · unfold ed25519Sign
    rw [if_neg (not_not.mpr hseed)]
    exact bind_of_ok hkey _
  · have hread := hnode.createPublicKey_export (node.publicKeyOf key)
    rw [hexport] at hread
    unfold ed25519Verify
    rw [if_neg (not_not.mpr hlength), if_neg (not_not.mpr (hnode.sign_length msg key))]
    apply (bind_of_ok hread _).trans
    rw [hnode.verify_sign msg key]
    rfl

/-- What a seed has signed verifies under its public key. -/
theorem verify_of_sign {node : NodeSign} (hnode : node.Lawful) {seed pub msg sig : Bytes}
    (hpub : ed25519GetPublicKey node seed = .ok pub)
    (hsig : ed25519Sign node msg seed = .ok sig) :
    ed25519Verify node msg sig pub = .ok true := by
  obtain ⟨hseed, -⟩ := of_ed25519GetPublicKey_ok hnode hpub
  obtain ⟨pub', hpub', hall⟩ := exists_sign_verify hnode hseed
  obtain ⟨sig', hsig', hverify⟩ := hall msg
  obtain rfl := Except.ok.inj (hpub'.symm.trans hpub)
  obtain rfl := Except.ok.inj (hsig'.symm.trans hsig)
  exact hverify

end NewZone.Crypto.Ed25519
