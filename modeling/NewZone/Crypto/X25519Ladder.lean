import NewZone.Crypto.X25519Agreement

/-!
# What the ladder of X25519 depends on

`montgomeryLadder` swaps lazily: it carries the last bit along and swaps once for
two neighbouring bits.  `montgomeryLadder_eq_textbook` says that it returns what
the textbook ladder returns, for every scalar and every `u`.  The textbook ladder
runs in the field, so the result depends on the residue of `u` only, although the
source starts with `u` as it is decoded.  Clamping leaves no scalar bit outside of
the loop.
-/

namespace NewZone.X25519

open NewZone.Js NewZone.MontgomeryCurve

/-! ## The textbook ladder -/

/-- The rungs of the textbook ladder after the bits 254, ..., 0 of `k`. -/
def textbookLadder (k : ℕ) (u : Fp) : Rungs Fp :=
  MontgomeryCurve.ladderLoop ((A24 : ℤ) : Fp) u k (ladderInit u) 255

/-- `X0 * Z0^(p-2)` -/
def textbookResult (k : ℕ) (u : Fp) : Fp :=
  (textbookLadder k u).R₀.1 * (textbookLadder k u).R₀.2 ^ (p - 2)

theorem cast_montgomeryLadder_eq (k : ℕ) (u : ℤ) :
    ((montgomeryLadder k u : ℤ) : Fp) = textbookResult k u := by
  have hloop := rungs_ladderLoop k u 255
    { x2 := 1, z2 := 0, x3 := u, z3 := 1, swap := 0 } Nat.zero_lt_two
  have hinit : rungs { x2 := 1, z2 := 0, x3 := u, z3 := 1, swap := 0 }
      = ladderInit (u : Fp) := by
    simp [rungs, ladderInit]
  have hleft := rungs_left_eq_cswap
    (X25519.ladderLoop k u { x2 := 1, z2 := 0, x3 := u, z3 := 1, swap := 0 } 255)
  rw [hloop, hinit] at hleft
  rw [montgomeryLadder, cast_mul, cast_inv, textbookResult, pow_sub_two_eq_inv,
    textbookLadder, hleft]

/-- A reduced value is the residue that it stands for. -/
theorem eq_val_of_cast_eq {a : ℤ} {x : Fp} (ha : 0 ≤ a) (ha' : a < p) (h : (a : Fp) = x) :
    a = x.val := by
  refine eq_of_cast_eq ha ha' (Int.natCast_nonneg _) (by exact_mod_cast x.val_lt) ?_
  rw [h, Int.cast_natCast, ZMod.natCast_zmod_val]

theorem montgomeryLadder_eq_textbook (k : ℕ) (u : ℤ) :
    montgomeryLadder k u = (textbookResult k u).val :=
  eq_val_of_cast_eq (montgomeryLadder_nonneg k u) (montgomeryLadder_lt k u)
    (cast_montgomeryLadder_eq k u)

/-! ## Clamping -/

/-- The lowest three bits are cleared. -/
theorem clamped_first (b : UInt8) : (b &&& 248).toNat % 8 = 0 := by
  have hall : ∀ n : Fin 256, (n.val &&& 248) % 8 = 0 := by decide +kernel
  rw [UInt8.toNat_and]
  exact hall ⟨b.toNat, b.toNat_lt⟩

/-- Bit 255 is cleared and bit 254 is set. -/
theorem clamped_last (b : UInt8) :
    64 ≤ ((b &&& 127) ||| 64).toNat ∧ ((b &&& 127) ||| 64).toNat < 128 := by
  have hall : ∀ n : Fin 256, 64 ≤ (n.val &&& 127 ||| 64) ∧ (n.val &&& 127 ||| 64) < 128 := by
    decide +kernel
  rw [UInt8.toNat_or, UInt8.toNat_and]
  exact hall ⟨b.toNat, b.toNat_lt⟩

/-- A clamped scalar is a multiple of 8 with 254 as its highest bit. -/
theorem clampScalarBytes_spec {kBytes : Bytes} (h : kBytes.length = 32) :
    ∃ k, clampScalarBytes kBytes = .ok k ∧ 8 ∣ k ∧ 2 ^ 254 ≤ k ∧ k < 2 ^ 255 := by
  refine ⟨_, if_neg (not_not.mpr h), ?_⟩
  rw [bytesToBigIntLE_eq, List.modify_modify_eq]
  cases kBytes with
  | nil => cases h
  | cons first rest =>
    have hrest : rest.length = 31 := by simpa using h
    obtain ⟨middle, last, tail, hsplit, hmiddle, hmodify⟩ :=
      List.exists_of_modify ((· ||| 64) ∘ (· &&& 127) : UInt8 → UInt8)
        (show 30 < rest.length by omega)
    have htail : tail = [] := by
      have hlength := congrArg List.length hsplit
      rw [List.length_append, List.length_cons] at hlength
      exact List.eq_nil_of_length_eq_zero (by omega)
    have hvalue : leValue [(last &&& 127) ||| 64] = ((last &&& 127) ||| 64).toNat := by
      simp [leValue]
    have hfirst := clamped_first first
    have hbyte := (first &&& 248).toNat_lt
    obtain ⟨hlow, hhigh⟩ := clamped_last last
    have hlt := leValue_lt middle
    rw [hmiddle] at hlt
    rw [List.modify_zero_cons, List.modify_succ_cons, hmodify, htail, leValue_cons,
      leValue_append, Function.comp_apply, hvalue, hmiddle]
    generalize (first &&& 248).toNat = low at hfirst hbyte ⊢
    generalize ((last &&& 127) ||| 64).toNat = high at hlow hhigh ⊢
    omega

/-- **The lazy ladder is the textbook ladder.**  It returns the residue that the textbook
ladder ends with, and every bit of a clamped scalar is read by the loop. -/
theorem ladder_is_textbook :
    (∀ (k : ℕ) (u : ℤ), montgomeryLadder k u = (textbookResult k u).val) ∧
      ∀ kBytes : Bytes, kBytes.length = 32 →
        ∃ k, clampScalarBytes kBytes = .ok k ∧ 8 ∣ k ∧ 2 ^ 254 ≤ k ∧ k < 2 ^ 255 ∧
          ∀ t, 255 ≤ t → k.testBit t = false := by
  refine ⟨montgomeryLadder_eq_textbook, fun kBytes h => ?_⟩
  obtain ⟨k, hk, hdvd, hlow, hhigh⟩ := clampScalarBytes_spec h
  refine ⟨k, hk, hdvd, hlow, hhigh, fun t ht => ?_⟩
  apply Nat.testBit_lt_two_pow
  exact hhigh.trans_le (Nat.pow_le_pow_right (by decide) ht)

/-- The scalar of 32 zero bytes. -/
theorem ladder_is_textbook_known :
    ∃ k, clampScalarBytes (List.replicate 32 0) = .ok k ∧ 8 ∣ k ∧ 2 ^ 254 ≤ k ∧
      k < 2 ^ 255 ∧ ∀ t, 255 ≤ t → k.testBit t = false :=
  ladder_is_textbook.2 _ (by decide)

/-! ## The public functions -/

theorem decodeUCoordinateBytes_eq {uBytes : Bytes} (h : uBytes.length = 32) :
    decodeUCoordinateBytes uBytes = .ok (leValue uBytes % 2 ^ 255) := by
  rw [decodeUCoordinateBytes, if_neg (not_not.mpr h)]
  dsimp only
  rw [bytesToBigIntLE_eq, leValue_modify_and _ h]

/-- What `x25519` returns. -/
theorem x25519_eq_textbook {k : ℕ} {kBytes uBytes : Bytes} (hk : clampScalarBytes kBytes = .ok k)
    (hu : uBytes.length = 32) :
    x25519 kBytes uBytes
      = .ok (bigIntToBytesLE (textbookResult k ((leValue uBytes % 2 ^ 255 : ℕ) : Fp)).val 32) := by
  rw [x25519_eq hk (decodeUCoordinateBytes_eq hu), montgomeryLadder_eq_textbook,
    Int.toNat_natCast, Int.cast_natCast]

/-- A residue is written without loss. -/
theorem leValue_encode_val (x : Fp) : leValue (bigIntToBytesLE x.val 32) = x.val := by
  have hlt : x.val < 256 ^ 32 := x.val_lt.trans (by decide)
  rw [leValue_bigIntToBytesLE, Nat.mod_eq_of_lt hlt]

/-- **What X25519 sees.**  The output depends on the clamped scalar and on the residue of
`u` only, the base point is `9`, and every output is the encoding of a residue. -/
theorem x25519_depends :
    (∀ k k' u u' : Bytes, k.length = 32 → k'.length = 32 → u.length = 32 → u'.length = 32 →
        clampScalarBytes k = clampScalarBytes k' →
        leValue u % 2 ^ 255 ≡ leValue u' % 2 ^ 255 [MOD p] →
        x25519 k u = x25519 k' u') ∧
      (∀ k : Bytes, k.length = 32 → x25519Base k = x25519 k (9 :: List.replicate 31 0)) ∧
      ∀ k u : Bytes, k.length = 32 → u.length = 32 →
        ∃ out, x25519 k u = .ok out ∧ out.length = 32 ∧ leValue out < p := by
  refine ⟨fun k k' u u' hk hk' hu hu' hclamp hres => ?_, fun k hk => ?_, fun k u hk hu => ?_⟩
  · obtain ⟨n, hn⟩ := exists_clampScalarBytes hk
    have hcast := (ZMod.natCast_eq_natCast_iff _ _ _).mpr hres
    rw [x25519_eq_textbook hn hu, x25519_eq_textbook (hclamp ▸ hn) hu', hcast]
  · obtain ⟨n, hn⟩ := exists_clampScalarBytes hk
    have hnine : leValue (9 :: List.replicate 31 0) % 2 ^ 255 = 9 := by decide
    rw [x25519Base_eq hn, x25519_eq_textbook hn (by decide), hnine,
      montgomeryLadder_eq_textbook, Int.toNat_natCast]
    rfl
  · obtain ⟨n, hn⟩ := exists_clampScalarBytes hk
    refine ⟨_, x25519_eq_textbook hn hu, length_bigIntToBytesLE _ _, ?_⟩
    rw [leValue_encode_val]
    exact ZMod.val_lt _

/-- The encodings of `1` and of `p + 1`. -/
theorem x25519_depends_known :
    x25519 (List.replicate 32 0) (1 :: List.replicate 31 0)
      = x25519 (List.replicate 32 0) (0xee :: List.replicate 30 0xff ++ [0x7f]) :=
  x25519_depends.1 _ _ _ _ (by decide) (by decide) (by decide) (by decide) rfl (by decide)

end NewZone.X25519
