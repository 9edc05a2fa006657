import Mathlib.NumberTheory.LegendreSymbol.Basic
import NewZone.Crypto.X25519Ladder
import NewZone.Lib.MontgomeryPoints

/-!
# X25519 on arbitrary inputs

`x25519` takes any 32 bytes for the key of a peer, whether or not they are the
coordinate of a point of Curve25519.  Secrets commute on all of them, so any
number of parties can apply theirs in any order (`x25519_perm`).  And it does not
refuse the keys for which the secret makes no difference: `x25519_zero_iff` says
which those are.
-/

namespace NewZone.X25519

open NewZone.Js NewZone.MontgomeryCurve NewZone.PrimeCertificate

/-! ## The textbook result -/

theorem textbookResult_eq_ladderX (k : ℕ) (u : Fp) :
    textbookResult k u = ladderX ((A24 : ℤ) : Fp) u k 255 := by
  rw [textbookResult, pow_sub_two_eq_inv, textbookLadder, ladderX]

theorem textbookResult_comm (k l : ℕ) (u : Fp) :
    textbookResult k (textbookResult l u) = textbookResult l (textbookResult k u) := by
  simp only [textbookResult_eq_ladderX]
  exact ladderX_comm two_ne_zero_Fp A_eq A_sq_ne_four u k l 254

/-- The encoding of a residue. -/
def encode (x : Fp) : Bytes := bigIntToBytesLE x.val 32

theorem length_encode (x : Fp) : (encode x).length = 32 := length_bigIntToBytesLE _ _

theorem encode_injective {x y : Fp} (h : encode x = encode y) : x = y := by
  have hval := congrArg leValue h
  rw [encode, encode, leValue_encode_val, leValue_encode_val] at hval
  exact ZMod.val_injective p hval

/-- The residue that 32 bytes stand for. -/
def residue (u : Bytes) : Fp := ((leValue u % 2 ^ 255 : ℕ) : Fp)

theorem residue_encode (x : Fp) : residue (encode x) = x := by
  have hlt : x.val < 2 ^ 255 := x.val_lt.trans (by decide)
  rw [residue, encode, leValue_encode_val, Nat.mod_eq_of_lt hlt, ZMod.natCast_zmod_val]

theorem x25519_eq_encode {k : ℕ} {kBytes u : Bytes} (hk : clampScalarBytes kBytes = .ok k)
    (hu : u.length = 32) :
    x25519 kBytes u = .ok (encode (textbookResult k (residue u))) :=
  x25519_eq_textbook hk hu

/-! ## Secrets commute -/

theorem x25519_comm {a b u : Bytes} (ha : a.length = 32) (hb : b.length = 32)
    (hu : u.length = 32) :
    (x25519 b u >>= x25519 a) = (x25519 a u >>= x25519 b) := by
  obtain ⟨k, hk⟩ := exists_clampScalarBytes ha
  obtain ⟨l, hl⟩ := exists_clampScalarBytes hb
  rw [x25519_eq_encode hk hu, x25519_eq_encode hl hu]
  show x25519 a _ = x25519 b _
  rw [x25519_eq_encode hk (length_encode _), x25519_eq_encode hl (length_encode _),
    residue_encode, residue_encode, textbookResult_comm]

/-- **Any number of secrets in any order.**  Each party applies its secret to
what it gets from the one before, whatever 32 bytes the first one starts
with. -/
theorem x25519_perm {ks ks' : List Bytes} (h : ks.Perm ks')
    (hks : ∀ k ∈ ks, k.length = 32) {u : Bytes} (hu : u.length = 32) :
    ks.foldlM (fun u k => x25519 k u) u = ks'.foldlM (fun u k => x25519 k u) u := by
  induction h generalizing u with
  | nil => rfl
  | cons k _ ih =>
    obtain ⟨hk, hks⟩ := List.forall_mem_cons.mp hks
    obtain ⟨v, hv, hlength⟩ := exists_x25519 hk hu
    rw [List.foldlM_cons, List.foldlM_cons, hv]
    exact ih hks hlength
  | swap a b ks =>
    have hb : b.length = 32 := hks b List.mem_cons_self
    have ha : a.length = 32 := hks a (List.mem_cons_of_mem _ List.mem_cons_self)
    simp only [List.foldlM_cons, ← bind_assoc]
    exact congrArg (· >>= fun v => ks.foldlM (fun u k => x25519 k u) v)
      (x25519_comm ha hb hu)
  | trans hperm _ ih ih' =>
    rw [ih hks hu, ih' (fun k hk => hks k (hperm.mem_iff.mpr hk)) hu]

/-- Three secrets, and a key that is no coordinate of the curve. -/
theorem x25519_perm_known :
    [List.replicate 32 1, List.replicate 32 2, List.replicate 32 3].foldlM
        (fun u k => x25519 k u) (2 :: List.replicate 31 0)
      = [List.replicate 32 3, List.replicate 32 1, List.replicate 32 2].foldlM
        (fun u k => x25519 k u) (2 :: List.replicate 31 0) := by
  refine x25519_perm ?_ ?_ ?_ <;> decide

/-! ## Keys of small order -/

/-- The `x` coordinates of order eight. -/
def orderEight : Fp :=
  325606250916557431795983626356110631294008115727848805560023387167927233504

def orderEight' : Fp :=
  39382357235489614581723060781553021112529911719440698176882885853963445705823

/-- A square root of `A + 2`. -/
def sqrtAddTwo : Fp :=
  48802004052532134862652268456126542835229456083994414501085850622543968879637

theorem not_isSquare_of_powMod {x : Fp} (hx : x.val ≠ 0)
    (h : powMod x.val p 255 (p / 2) ≠ 1) : ¬IsSquare x := by
  have hne : x ≠ 0 := fun h0 => hx ((ZMod.val_eq_zero x).mpr h0)
  have hpow := @natCast_pow_eq_one_iff x.val p 255 (p / 2) (by decide) (by decide)
  rw [ZMod.natCast_zmod_val] at hpow
  rw [ZMod.euler_criterion p hne, hpow]
  exact h

theorem orderEight_curve : OrderEight A sqrtAddTwo orderEight orderEight' where
  sq := by decide +kernel
  add := by decide +kernel
  mul := by decide +kernel
  disc := not_isSquare_of_powMod (by decide +kernel) (by decide +kernel)
  twist := not_isSquare_of_powMod (by decide +kernel) (by decide +kernel)
  other := not_isSquare_of_powMod (by decide +kernel) (by decide +kernel)
  above := not_isSquare_of_powMod (by decide +kernel) (by decide +kernel)

theorem length_of_clampScalarBytes {kBytes : Bytes} {k : ℕ}
    (h : clampScalarBytes kBytes = .ok k) : kBytes.length = 32 := by
  by_contra hne
  rw [clampScalarBytes, if_pos hne] at h
  cases h

/-- Three doublings of a residue, which is what the least clamped scalars have
in common. -/
theorem zero_for_all_iff (x : Fp) :
    (∀ kBytes k, clampScalarBytes kBytes = .ok k → textbookResult k x = 0) ↔
      x = 0 ∨ x = 1 ∨ x = -1 ∨ x = orderEight ∨ x = orderEight' := by
  rw [← orderEight_curve.triple_eq_zero_iff]
  constructor
  · intro h
    have hlow := h (List.replicate 32 0) (2 ^ 254) (by decide +kernel)
    have hnext := h (8 :: List.replicate 31 0) (2 ^ 254 + 8) (by decide +kernel)
    rw [textbookResult_eq_ladderX] at hlow hnext
    exact triple_of_ladderX_eq_zero two_ne_zero_Fp A_eq A_sq_ne_four (by decide +kernel)
      hlow hnext
  · intro h kBytes k hk
    obtain ⟨k', hk', hdvd, -, hlt⟩ :=
      clampScalarBytes_spec (length_of_clampScalarBytes hk)
    obtain rfl := Except.ok.inj (hk.symm.trans hk')
    rw [textbookResult_eq_ladderX]
    refine ladderX_eq_zero_of_triple two_ne_zero_Fp A_eq A_sq_ne_four h ?_
    rw [Nat.mod_eq_of_lt hlt]
    exact hdvd

theorem encode_eq_zeros_iff {x : Fp} : encode x = List.replicate 32 0 ↔ x = 0 := by
  have hzero : encode 0 = List.replicate 32 0 := by decide +kernel
  constructor
  · intro h
    exact encode_injective (h.trans hzero.symm)
  · rintro rfl
    exact hzero

/-- **The keys that fix the shared secret.**  Every secret yields 32 zero bytes
with a key, exactly when the key stands for one of the five coordinates whose
points have an order that divides eight. -/
theorem x25519_zero_iff {u : Bytes} (hu : u.length = 32) :
    (∀ k : Bytes, k.length = 32 → x25519 k u = .ok (List.replicate 32 0)) ↔
      residue u ∈ [0, 1, -1, orderEight, orderEight'] := by
  have hmem : residue u ∈ [0, 1, -1, orderEight, orderEight'] ↔
      residue u = 0 ∨ residue u = 1 ∨ residue u = -1 ∨ residue u = orderEight ∨
        residue u = orderEight' := by simp
  rw [hmem, ← zero_for_all_iff]
  constructor
  · intro h kBytes k hk
    have hresult := h kBytes (length_of_clampScalarBytes hk)
    rw [x25519_eq_encode hk hu] at hresult
    exact encode_eq_zeros_iff.mp (Except.ok.inj hresult)
  · intro h k hk
    obtain ⟨n, hn⟩ := exists_clampScalarBytes hk
    rw [x25519_eq_encode hn hu, encode_eq_zeros_iff.mpr (h k n hn)]

/-- The key `1`, in an encoding that is not reduced. -/
theorem x25519_zero_known :
    (∀ k : Bytes, k.length = 32 → x25519 k (0xee :: List.replicate 30 0xff ++ [0x7f])
        = .ok (List.replicate 32 0)) ↔
      residue (0xee :: List.replicate 30 0xff ++ [0x7f])
        ∈ [0, 1, -1, orderEight, orderEight'] :=
  x25519_zero_iff (by decide)

end NewZone.X25519
