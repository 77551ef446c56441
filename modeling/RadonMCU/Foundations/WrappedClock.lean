import Mathlib.Data.Nat.ModEq

/-!
# A clock that wraps

A clock counts modulo {lit}`W`.  A due time less than {lit}`W` ahead is kept as its remainder
and a flag, which says that the clock has to wrap before the time can come.  The flag is set
by comparing remainders and cleared when the clock reads zero.

Main results:

- Theorem {lit}`mod_lt_iff`: comparing remainders tells whether the clock wraps before a time.
- Theorem {lit}`later_succ_iff`: clearing the flag at zero keeps it right.
- Theorem {lit}`expired_iff`: the kept time and the flag tell whether the time has come.
-/

namespace WrappedClock

variable {W now due n c : Nat}

/-- The clock wraps before this time. -/
def Later (W now due : Nat) : Prop := due / W ≠ now / W

/-- Comparing remainders tells whether the clock wraps before a time. -/
theorem mod_lt_iff (hc : c < W) : (n + c) % W < n % W ↔ Later W n (n + c) := by
  have hW : 0 < W := by omega
  have hn := Nat.div_add_mod n W
  have hmod := Nat.mod_lt n hW
  unfold Later
  rcases Nat.lt_or_ge (n % W + c) W with hlt | hge
  · have hdiv : (n + c) / W = n / W := by
      rw [← hn, Nat.add_assoc, Nat.mul_add_div hW, Nat.div_eq_of_lt hlt, hn, Nat.add_zero]
    have hrest : (n + c) % W = n % W + c := by
      rw [Nat.add_mod, Nat.mod_eq_of_lt hc, Nat.mod_eq_of_lt hlt]
    rw [hdiv, hrest]
    simp
  · have hwrap : (n % W + c) / W = 1 := Nat.div_eq_of_lt_le (by omega) (by omega)
    have hdiv : (n + c) / W = n / W + 1 := by
      rw [← hn, Nat.add_assoc, Nat.mul_add_div hW, hwrap, hn]
    have hrest : (n + c) % W = n % W + c - W := by
      rw [Nat.add_mod, Nat.mod_eq_of_lt hc, Nat.mod_eq_sub_mod hge,
        Nat.mod_eq_of_lt (by omega)]
    rw [hdiv, hrest]
    omega

/-- Clearing the flag when the clock reads zero keeps it right. -/
theorem later_succ_iff (hlt : now < due) (hdue : due < now + W) :
    Later W (now + 1) due ↔ Later W now due ∧ (now + 1) % W ≠ 0 := by
  have hW : 0 < W := by omega
  have hsplit := Nat.div_add_mod (now + 1) W
  unfold Later
  by_cases hzero : (now + 1) % W = 0
  · have hdiv : due / W = (now + 1) / W := by
      apply Nat.div_eq_of_lt_le
      · rw [Nat.mul_comm]
        omega
      · rw [Nat.add_mul, Nat.mul_comm]
        omega
    simp [hdiv, hzero]
  · have hdiv : (now + 1) / W = now / W := by
      rw [Nat.succ_div_of_not_dvd]
      exact fun hdvd => hzero (Nat.mod_eq_zero_of_dvd hdvd)
    simp [hdiv, hzero]

/-- The kept time and the flag tell whether the time has come. -/
theorem expired_iff (hle : now ≤ due) : due % W ≤ now % W ∧ ¬ Later W now due ↔ due = now := by
  unfold Later
  constructor
  · rintro ⟨hmod, hdiv⟩
    have hnow := Nat.div_add_mod now W
    have hdue := Nat.div_add_mod due W
    rw [not_not.mp hdiv] at hdue
    omega
  · rintro rfl
    exact ⟨Nat.le_refl _, not_not.mpr rfl⟩

end WrappedClock
