import NewZone.Services.Consensus
import NewZone.Services.Storage

/-!
# Content ids

Three services give an object an id, and all three hash `JSON.stringify` of it:
`generateHash` of the object store, `generateConsensusProof`, and
`generateMetadataProof` of `services/metadata/index.js`, which is here.  The text has the
members in the order in which they happen to come, so the id is one of a spelling
(`same_ids_iff`).
-/

namespace NewZone.Services.Metadata

open NewZone.Js NewZone.Js.Json NewZone.ExceptBind NewZone.Crypto
open NewZone.Crypto.SignedPacket (CollisionFree)
open NewZone.Services.Storage (generateHash verifyObject text)
open NewZone.Services.Consensus (generateConsensusProof verifyConsensusProof)

def generateMetadataProof (hash : NodeHash) (metadata : Option Json) :
    Except String JsString :=
  match metadata with
  | some v => .ok (toHex (hash.sha256 (utf8 (stringify v))))
  | none => .error "The \"data\" argument must be of type string"

def verifyMetadataProof (hash : NodeHash) (metadata proof_id : Option Json) :
    Except String Bool := do
  let proof ← generateMetadataProof hash metadata
  return some (.str proof) = proof_id

/-- Two values have the same ids, and what has been made for the first is verified for
the second. -/
structure SameIds (hash : NodeHash) (a b : Json) : Prop where
  object : generateHash hash a = generateHash hash b
  metadata : generateMetadataProof hash (some a) = generateMetadataProof hash (some b)
  consensus : generateConsensusProof hash (some a) = generateConsensusProof hash (some b)
  verifies_object : verifyObject hash b (.str (generateHash hash a)) = true
  verifies_metadata : ∀ proof, generateMetadataProof hash (some a) = .ok proof →
    verifyMetadataProof hash (some b) (some (.str proof)) = .ok true
  verifies_consensus : ∀ proof, generateConsensusProof hash (some a) = .ok proof →
    verifyConsensusProof hash (some b) (some (.str proof)) = .ok true

theorem SameIds.refl (hash : NodeHash) (v : Json) : SameIds hash v v where
  object := rfl
  metadata := rfl
  consensus := rfl
  verifies_object := decide_eq_true rfl
  verifies_metadata proof h := by
    obtain rfl := Except.ok.inj h
    exact congrArg Except.ok (decide_eq_true rfl)
  verifies_consensus proof h := by
    obtain rfl := Except.ok.inj h
    exact congrArg Except.ok (decide_eq_true rfl)

/-- **Content ids.**  Equal values have the same ids exactly when their members come in
the same order, at every depth. -/
theorem same_ids_iff {hash : NodeHash} {a b : Json} (ha : a.DistinctNames) (hb : b.DistinctNames)
    (hequal : Json.Equal a b) (hfree : CollisionFree hash [text a, text b]) :
    SameIds hash a b ↔ SameOrder a b := by
  constructor
  · intro h
    have hfree : CollisionFree hash ([a, b].map text) := hfree
    have hab : a = b := Storage.generateHash_inj hfree (by simp) (by simp) h.object
    rw [hab]
    exact .refl b
  · intro h
    rw [hequal.eq_of_sameOrder h ha hb]
    exact .refl hash b

/-! ## An object in two spellings -/

def spelledAB : Json := .obj [(js "a", .null), (js "b", .bool true)]

def spelledBA : Json := .obj [(js "b", .bool true), (js "a", .null)]

/-- The SHA-256 digests of both. -/
def spellingHash : NodeHash :=
  Tabulated.hash
    [(text spelledAB,
        Tabulated.hex 32 0x777fd7cd7406c9292c68b3a96618c04974c9823714b5625f200e8dc3eb5d6bf0),
      (text spelledBA,
        Tabulated.hex 32 0x6598a3889b591087fc73ebb67ecf5be6ec40cba31957c679b4b0a730db7014c5)]
    [] []

theorem distinctNames_spelledAB : spelledAB.DistinctNames :=
  ⟨by unfold NodupKeys; decide, trivial, trivial, trivial⟩

theorem distinctNames_spelledBA : spelledBA.DistinctNames :=
  ⟨by unfold NodupKeys; decide, trivial, trivial, trivial⟩

theorem equal_spelled : Json.Equal spelledAB spelledBA := equal_of_same (by decide)

theorem spellingHash_ne : spellingHash.sha256 (text spelledAB) ≠ spellingHash.sha256 (text spelledBA) := by
  have hother : text spelledAB ≠ text spelledBA := by decide +kernel
  simp only [spellingHash, Tabulated.hash, Tabulated.lookupD, List.find?_cons, hother,
    decide_true, decide_false, Option.map_some, Option.getD_some]
  decide +kernel

theorem same_ids_known :
    SameIds spellingHash spelledAB spelledAB ∧ ¬ SameIds spellingHash spelledAB spelledBA := by
  constructor
  · exact (same_ids_iff distinctNames_spelledAB distinctNames_spelledAB (equal_of_same (.refl _))
      (SignedPacket.collisionFree_pair fun _ => rfl)).mpr (.refl _)
  · intro h
    have horder := (same_ids_iff distinctNames_spelledAB distinctNames_spelledBA equal_spelled
      (SignedPacket.collisionFree_pair fun h => absurd h spellingHash_ne)).mp h
    cases horder with
    | obj hnames _ => exact absurd hnames (by decide)

/-- The two spellings are equal, and none of their ids is the same. -/
theorem spelling_changes_ids :
    Json.Equal spelledAB spelledBA ∧
      generateHash spellingHash spelledAB ≠ generateHash spellingHash spelledBA ∧
      generateMetadataProof spellingHash (some spelledAB)
        ≠ generateMetadataProof spellingHash (some spelledBA) ∧
      generateConsensusProof spellingHash (some spelledAB)
        ≠ generateConsensusProof spellingHash (some spelledBA) := by
  have hhash : generateHash spellingHash spelledAB ≠ generateHash spellingHash spelledBA :=
    fun h => spellingHash_ne (toHex_injective h)
  exact ⟨equal_spelled, hhash, fun h => hhash (Except.ok.inj h), fun h => hhash (Except.ok.inj h)⟩

end NewZone.Services.Metadata
