import Mathlib.Data.Nat.Bitwise

/-!
# Bits of 32-bit words

Single bits of a word, the test of a bit by a mask, and the fields of a register word that
is put together from its parts.

Main results:

- Theorem {lit}`and_mask_ne_zero_iff`: a word and a one-bit mask are disjoint unless the
  bit is set.
- Theorems {lit}`highHalf_toNat` and {lit}`highHalf_ne_zero_iff`: the field in the upper
  half of a word.
-/

namespace WordBits

/-- The bit with this number. -/
def bit (x : UInt32) (k : Nat) : Bool := x.toBitVec.getLsbD k

theorem bit_eq_testBit (x : UInt32) (k : Nat) : bit x k = x.toNat.testBit k := rfl

@[simp] theorem bit_or (x y : UInt32) (k : Nat) : bit (x ||| y) k = (bit x k || bit y k) := by
  simp [bit]

@[simp] theorem bit_and (x y : UInt32) (k : Nat) : bit (x &&& y) k = (bit x k && bit y k) := by
  simp [bit]

@[simp] theorem bit_not (x : UInt32) {k : Nat} (hk : k < 32) : bit (~~~x) k = !bit x k := by
  simp [bit, hk]

/-- Words with the same bits are equal. -/
theorem eq_of_bits {x y : UInt32} (h : ∀ k < 32, bit x k = bit y k) : x = y :=
  UInt32.toBitVec_inj.mp (BitVec.eq_of_getLsbD_eq h)

/-- The bits of a word put together from parts. -/
theorem bit_ofNat {n : Nat} (hn : n < 2 ^ 32) (k : Nat) :
    bit (UInt32.ofNat n) k = n.testBit k := by
  rw [bit_eq_testBit, UInt32.toNat_ofNat_of_lt' hn]

/-- A word and a one-bit mask are disjoint unless the bit is set. -/
theorem and_mask_ne_zero_iff {x mask : UInt32} {k : Nat} (hmask : mask.toNat = 2 ^ k) :
    x &&& mask ≠ 0 ↔ bit x k = true := by
  rw [ne_eq, ← UInt32.toNat_inj, UInt32.toNat_and, hmask, Nat.and_two_pow, bit_eq_testBit]
  cases x.toNat.testBit k <;> simp

/-- The lower byte of a word. -/
theorem lowByte_toNat (x : UInt32) : (x &&& 0xFF).toNat = x.toNat % 256 := by
  rw [UInt32.toNat_and]
  exact Nat.and_two_pow_sub_one_eq_mod x.toNat 8

theorem highHalf_masked (x : UInt32) :
    (x &&& 0xFFFF0000).toNat = x.toNat / 65536 * 65536 := by
  have hlt := UInt32.toNat_lt x
  rw [UInt32.toNat_and]
  change x.toNat &&& 65535 <<< 16 = _
  apply Nat.eq_of_testBit_eq
  intro i
  rw [show (65536 : Nat) = 2 ^ 16 from rfl, ← Nat.shiftRight_eq_div_pow, ← Nat.shiftLeft_eq,
    Nat.testBit_and, Nat.testBit_shiftLeft, Nat.testBit_shiftLeft, Nat.testBit_shiftRight]
  by_cases hi : i ≥ 16
  · rw [Nat.add_sub_cancel' hi, show (65535 : Nat) = 2 ^ 16 - 1 from rfl,
      Nat.testBit_two_pow_sub_one]
    by_cases htop : i < 32
    · simp [hi, show i - 16 < 16 by omega]
    · rw [Nat.testBit_lt_two_pow (Nat.lt_of_lt_of_le hlt
        (Nat.pow_le_pow_right (Nat.succ_pos 1) (Nat.not_lt.mp htop)))]
      simp
  · simp [hi]

/-- Masking and shifting takes the upper half of a word. -/
theorem highHalf_toNat (x : UInt32) :
    ((x &&& 0xFFFF0000) >>> 16).toNat = x.toNat / 65536 := by
  rw [UInt32.toNat_shiftRight, highHalf_masked]
  change (x.toNat / 65536 * 65536) >>> 16 = _
  rw [Nat.shiftRight_eq_div_pow]
  omega

/-- The upper half of a word is zero exactly when its masked word is. -/
theorem highHalf_ne_zero_iff (x : UInt32) : x &&& 0xFFFF0000 ≠ 0 ↔ 0 < x.toNat / 65536 := by
  rw [ne_eq, ← UInt32.toNat_inj, highHalf_masked]
  change ¬ x.toNat / 65536 * 65536 = 0 ↔ _
  omega

end WordBits
