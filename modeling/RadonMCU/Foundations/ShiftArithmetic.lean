import Mathlib.Tactic.Ring

/-!
# Multiplication and division by shifting

The recurrences behind shift-and-add multiplication and shift-and-subtract division, on
natural numbers and one binary digit at a time.  The low half of a product is built from
the most significant digit of the multiplier on, its high half from the least significant
digit on, and a quotient from the most significant digit of the dividend on.

Main results:

- Theorem {lit}`lowProduct_step`: a doubled low product and the next digit.
- Theorem {lit}`highProduct_step`: a high product, the next digit, and a halving.
- Theorems {lit}`remainder_step_of_le` and {lit}`remainder_step_of_lt`: one turn of the
  restoring division.
-/

namespace ShiftArithmetic

/-- The binary digit with this number. -/
def digit (n k : Nat) : Nat := n / 2 ^ k % 2

theorem digit_le_one (n k : Nat) : digit n k ≤ 1 :=
  Nat.le_of_lt_succ (Nat.mod_lt _ (Nat.succ_pos 1))

/-- The leading digits, one more of them. -/
theorem leading_succ (n p : Nat) : n / 2 ^ p = 2 * (n / 2 ^ (p + 1)) + digit n p := by
  rw [digit, Nat.pow_succ, ← Nat.div_div_eq_div_mul]
  exact (Nat.div_add_mod (n / 2 ^ p) 2).symm

/-- The trailing digits, one more of them. -/
theorem trailing_succ (n p : Nat) : n % 2 ^ (p + 1) = n % 2 ^ p + digit n p * 2 ^ p := by
  rw [Nat.mod_pow_succ, digit, Nat.mul_comm]

/-! ## Products -/

section Product

variable (a b : Nat)

/-- The product with the leading digits of the multiplier. -/
def lowProduct (p : Nat) : Nat := a * (b / 2 ^ p)

/-- The high part of the product with the trailing digits of the multiplier. -/
def highProduct (k : Nat) : Nat := a * (b % 2 ^ k) / 2 ^ k

theorem lowProduct_step (p : Nat) :
    lowProduct a b p = 2 * lowProduct a b (p + 1) + digit b p * a := by
  rw [lowProduct, lowProduct, leading_succ b p]
  ring

@[simp] theorem lowProduct_zero : lowProduct a b 0 = a * b := by
  simp [lowProduct]

theorem lowProduct_of_lt {p : Nat} (h : b < 2 ^ p) : lowProduct a b p = 0 := by
  rw [lowProduct, Nat.div_eq_of_lt h, Nat.mul_zero]

@[simp] theorem highProduct_zero : highProduct a b 0 = 0 := by
  simp [highProduct, Nat.mod_one]

theorem highProduct_le (k : Nat) : highProduct a b k ≤ a := by
  apply Nat.div_le_of_le_mul
  rw [Nat.mul_comm]
  exact Nat.mul_le_mul_right a (Nat.mod_lt b (Nat.two_pow_pos k)).le

theorem highProduct_step (k : Nat) :
    highProduct a b (k + 1) = (highProduct a b k + digit b k * a) / 2 := by
  have hsum : a * (b % 2 ^ (k + 1)) = a * (b % 2 ^ k) + digit b k * a * 2 ^ k := by
    rw [trailing_succ]
    ring
  rw [highProduct, highProduct, hsum, Nat.pow_succ, ← Nat.div_div_eq_div_mul,
    Nat.add_mul_div_right _ _ (Nat.two_pow_pos k)]

theorem highProduct_of_lt {k : Nat} (h : b < 2 ^ k) : highProduct a b k = a * b / 2 ^ k := by
  rw [highProduct, Nat.mod_eq_of_lt h]

end Product

/-! ## Quotients -/

section Quotient

variable {n d bit : Nat}

/-- The next digit makes the remainder reach the divisor: it is subtracted. -/
theorem remainder_step_of_le (hd : 0 < d) (hbit : bit ≤ 1) (h : d ≤ 2 * (n % d) + bit) :
    (2 * n + bit) % d = 2 * (n % d) + bit - d ∧ (2 * n + bit) / d = 2 * (n / d) + 1 := by
  have hlt := Nat.mod_lt n hd
  have hsplit : 2 * n + bit = 2 * (n % d) + bit - d + d * (2 * (n / d) + 1) := by
    have hn := Nat.mod_add_div n d
    have hfactor : d * (2 * (n / d) + 1) = 2 * (d * (n / d)) + d := by ring
    rw [hfactor]
    omega
  rw [hsplit, Nat.add_mul_mod_self_left, Nat.add_mul_div_left _ _ hd,
    Nat.mod_eq_of_lt (by omega), Nat.div_eq_of_lt (by omega), Nat.zero_add]
  exact ⟨rfl, rfl⟩

/-- The next digit leaves the remainder below the divisor. -/
theorem remainder_step_of_lt (h : 2 * (n % d) + bit < d) :
    (2 * n + bit) % d = 2 * (n % d) + bit ∧ (2 * n + bit) / d = 2 * (n / d) := by
  have hd : 0 < d := Nat.zero_lt_of_lt h
  have hsplit : 2 * n + bit = 2 * (n % d) + bit + d * (2 * (n / d)) := by
    have hn := Nat.mod_add_div n d
    have hfactor : d * (2 * (n / d)) = 2 * (d * (n / d)) := by ring
    rw [hfactor]
    omega
  rw [hsplit, Nat.add_mul_mod_self_left, Nat.add_mul_div_left _ _ hd, Nat.mod_eq_of_lt h,
    Nat.div_eq_of_lt h, Nat.zero_add]
  exact ⟨rfl, rfl⟩

end Quotient

end ShiftArithmetic
