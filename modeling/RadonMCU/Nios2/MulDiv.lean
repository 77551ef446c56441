import Mathlib.Tactic.Linarith
import RadonMCU.Foundations.ShiftArithmetic

/-!
# The multiply and divide loops

The core of this microcontroller has no multiplier and no divider; the handler of
{lit}`alt_exception_muldiv.S` computes both by shifting.  The registers keep their numbers.
One loop builds the low and the high half of a product at once, from both ends of the
multiplier; the other one shifts dividend and quotient through one register.

Main results:

- Theorems {lit}`multiply_mul` to {lit}`multiply_mulxss`: the multiply loop gives the low
  half of the product, and its high half for all three choices of signs.
- Theorems {lit}`divide_divu` and {lit}`divide_div`: the divide loop gives the quotient, also
  for divisors above the sign bit, and what it gives for the divisor 0.
-/

namespace RadonMCU
namespace Nios2

open ShiftArithmetic

/-- A word of the processor. -/
abbrev Word := BitVec 32

/-! ## Multiplication -/

/-- The registers that a turn of the multiply loop changes. -/
structure MulLoop where
  r6 : Word
  r9 : Word
  r10 : Word
  r12 : Word

/-- One turn of {lit}`.Lmultiply_loop`. -/
def mulTurn (r3 : Word) (s : MulLoop) : MulLoop :=
  let r9 := s.r9 <<< 1
  let r15 := s.r12 &&& 1#32
  let added := s.r10 + r3
  let carry : Word := (if added < r3 then 1#32 else 0#32).rotateRight 1
  let r10 := if r15 = 0#32 then s.r10 else added
  let r15 := if r15 = 0#32 then r15 else carry
  let r9 := if s.r6.msb then r9 + r3 else r9
  { r6 := s.r6 <<< 1
    r9
    r10 := r10 >>> 1 ||| r15
    r12 := s.r12 >>> 1 }

/-- From {lit}`.Lmultiply` to {lit}`.Lstore_result`, with the counter {lit}`r14` at 32. -/
def multiply (r3 r4 r6 : Word) : Word :=
  let r11 := r6
  let s := (mulTurn r3)^[32] { r6, r9 := 0#32, r10 := 0#32, r12 := r6 }
  if r4 = 0x27#32 then s.r9
  else
    let r9 := s.r10
    if r4 = 0x07#32 then r9
    else
      let r9 := if r3.msb then r9 - r11 else r9
      if r4 = 0x17#32 then r9
      else if r11.msb then r9 - r3 else r9

/-- The loop after some turns, with the multiplicand {lit}`a` and the multiplier
{lit}`b`. -/
structure MulInv (a b : Word) (k : Nat) (s : MulLoop) : Prop where
  r6 : s.r6 = b <<< k
  r9 : s.r9.toNat = lowProduct a.toNat b.toNat (32 - k) % 2 ^ 32
  r10 : s.r10.toNat = highProduct a.toNat b.toNat k
  r12 : s.r12 = b >>> k

section Multiply

variable {a b : Word}

/-- A digit of a word is a bit of it. -/
theorem digit_eq (b : Word) (k : Nat) : digit b.toNat k = (b.getLsbD k).toNat := by
  rw [digit, BitVec.getLsbD, Nat.testBit_eq_decide_div_mod_eq]
  rcases Nat.mod_two_eq_zero_or_one (b.toNat / 2 ^ k) with h | h <;> simp [h]

/-- The lowest bit of the shifted multiplier is the next digit. -/
theorem low_bit_eq_zero_iff (b : Word) (k : Nat) :
    b >>> k &&& 1#32 = 0#32 ↔ digit b.toNat k = 0 := by
  rw [digit_eq, Bool.toNat_eq_zero, ← BitVec.toNat_inj, BitVec.toNat_and,
    BitVec.toNat_ushiftRight]
  change (b.toNat >>> k) &&& 1 = 0 ↔ _
  rw [Nat.and_one_is_mod, Nat.shiftRight_eq_div_pow, BitVec.getLsbD,
    Nat.testBit_eq_decide_div_mod_eq]
  simp

/-- A carry out of an addition, moved to the highest bit, completes the halved sum. -/
theorem halved_sum (x y : Word) :
    ((x + y) >>> 1 ||| (if x + y < y then 1#32 else 0#32).rotateRight 1).toNat =
      (x.toNat + y.toNat) / 2 := by
  have hx := x.isLt
  have hy := y.isLt
  have hsum : (x + y).toNat = (x.toNat + y.toNat) % 2 ^ 32 := BitVec.toNat_add x y
  rw [BitVec.toNat_or, BitVec.toNat_ushiftRight, Nat.shiftRight_eq_div_pow]
  by_cases hcarry : x.toNat + y.toNat < 2 ^ 32
  · have hnot : ¬ x + y < y := by
      rw [BitVec.lt_def, hsum, Nat.mod_eq_of_lt hcarry]
      omega
    rw [if_neg hnot, hsum, Nat.mod_eq_of_lt hcarry]
    exact Nat.or_zero _
  · have hlt : x + y < y := by
      rw [BitVec.lt_def, hsum]
      omega
    have htop : ((1#32).rotateRight 1).toNat = 2 ^ 31 := by decide
    have hlow : (x + y).toNat / 2 ^ 1 < 2 ^ 31 := by omega
    have hjoin := Nat.two_pow_add_eq_or_of_lt hlow 1
    rw [Nat.mul_one] at hjoin
    rw [if_pos hlt, htop, Nat.or_comm, ← hjoin, hsum]
    omega

/-- A turn of the multiplication adds one digit of the multiplier. -/
theorem mulInv_turn {k : Nat} (hk : k < 32) {s : MulLoop} (h : MulInv a b k s) :
    MulInv a b (k + 1) (mulTurn a s) := by
  refine ⟨?_, ?_, ?_, ?_⟩
  · change s.r6 <<< 1 = b <<< (k + 1)
    rw [h.r6, BitVec.shiftLeft_add]
  · have hlow := lowProduct_step a.toNat b.toNat (31 - k)
    have hmsb : s.r6.msb = b.getLsbD (31 - k) := by
      rw [h.r6, BitVec.msb_shiftLeft, BitVec.getMsbD]
      simp [hk]
    have hdouble : (s.r9 <<< 1).toNat =
        2 * lowProduct a.toNat b.toNat (31 - k + 1) % 2 ^ 32 := by
      rw [BitVec.toNat_shiftLeft, h.r9, Nat.shiftLeft_eq, show 32 - k = 31 - k + 1 by omega]
      omega
    change (if s.r6.msb = true then s.r9 <<< 1 + a else s.r9 <<< 1).toNat =
      lowProduct a.toNat b.toNat (32 - (k + 1)) % 2 ^ 32
    rw [show 32 - (k + 1) = 31 - k by omega, hlow, digit_eq, hmsb]
    cases b.getLsbD (31 - k) with
    | false =>
      rw [if_neg Bool.false_ne_true, hdouble]
      simp
    | true =>
      rw [if_pos rfl, BitVec.toNat_add, hdouble, Nat.mod_add_mod]
      simp
  · rw [highProduct_step, ← h.r10]
    by_cases hdigit : digit b.toNat k = 0
    · have hlow : s.r12 &&& 1#32 = 0#32 := by
        rw [h.r12]
        exact (low_bit_eq_zero_iff b k).mpr hdigit
      change ((if s.r12 &&& 1#32 = 0#32 then s.r10 else s.r10 + a) >>> 1 |||
        (if s.r12 &&& 1#32 = 0#32 then s.r12 &&& 1#32 else _)).toNat = _
      rw [if_pos hlow, if_pos hlow, hlow, hdigit, BitVec.or_zero, BitVec.toNat_ushiftRight,
        Nat.shiftRight_eq_div_pow, Nat.zero_mul, Nat.add_zero]
    · have hlow : ¬ s.r12 &&& 1#32 = 0#32 := by
        rw [h.r12]
        exact mt (low_bit_eq_zero_iff b k).mp hdigit
      have hone : digit b.toNat k = 1 := by
        have hle := digit_le_one b.toNat k
        omega
      change ((if s.r12 &&& 1#32 = 0#32 then s.r10 else s.r10 + a) >>> 1 |||
        (if s.r12 &&& 1#32 = 0#32 then s.r12 &&& 1#32 else _)).toNat = _
      rw [if_neg hlow, if_neg hlow, halved_sum, hone, Nat.one_mul]
  · change s.r12 >>> 1 = b >>> (k + 1)
    rw [h.r12, BitVec.shiftRight_add]

/-- After some turns that many digits have been multiplied. -/
theorem mulInv_run (k : Nat) (hk : k ≤ 32) :
    MulInv a b k ((mulTurn a)^[k] { r6 := b, r9 := 0#32, r10 := 0#32, r12 := b }) := by
  induction k with
  | zero =>
    refine ⟨(BitVec.shiftLeft_zero b).symm, ?_, ?_, (BitVec.ushiftRight_zero b).symm⟩
    · rw [lowProduct_of_lt _ _ b.isLt]
      rfl
    · rw [highProduct_zero]
      rfl
  | succ k ih =>
    rw [Function.iterate_succ_apply']
    exact mulInv_turn hk (ih (by omega))

/-- What the loop leaves. -/
theorem multiply_loop (a b : Word) :
    let s := (mulTurn a)^[32] { r6 := b, r9 := 0#32, r10 := 0#32, r12 := b }
    s.r9 = a * b ∧ s.r10 = BitVec.ofNat 32 (a.toNat * b.toNat / 2 ^ 32) := by
  have h := mulInv_run (a := a) (b := b) 32 (Nat.le_refl 32)
  constructor
  · rw [← BitVec.toNat_inj, h.r9, BitVec.toNat_mul, Nat.sub_self, lowProduct_zero]
  · rw [← BitVec.toNat_inj, h.r10, highProduct_of_lt _ _ b.isLt, BitVec.toNat_ofNat,
      Nat.mod_eq_of_lt]
    rw [← highProduct_of_lt a.toNat b.toNat b.isLt]
    exact Nat.lt_of_le_of_lt (highProduct_le a.toNat b.toNat 32) a.isLt

/-- The high half of a product of integers. -/
def mulx (x y : Int) : Word := BitVec.ofInt 32 (x * y / 2 ^ 32)

/-- The high half of the unsigned product. -/
theorem mulx_toNat (a b : Word) :
    BitVec.ofNat 32 (a.toNat * b.toNat / 2 ^ 32) = mulx a.toNat b.toNat := by
  rw [mulx, ← BitVec.ofInt_natCast]
  push_cast
  rfl

/-- A difference of integers, modulo the word. -/
theorem ofInt_sub_eq (x y : Int) :
    BitVec.ofInt 32 (x - y) = BitVec.ofInt 32 x - BitVec.ofInt 32 y := by
  rw [sub_eq_add_neg, BitVec.ofInt_add, BitVec.ofInt_neg, BitVec.sub_eq_add_neg]

/-- A factor that is less by the modulus makes the high half less by the other factor. -/
theorem ediv_sub_modulus (x y : Int) : (x - (2 ^ 32 : Nat)) * y / 2 ^ 32 = x * y / 2 ^ 32 - y := by
  have hsplit : (x - (2 ^ 32 : Nat)) * y = x * y + -y * 2 ^ 32 := by
    push_cast
    ring
  rw [hsplit, Int.add_mul_ediv_right _ _ (by norm_num), ← sub_eq_add_neg]

/-- A negative first operand takes the second from the high half. -/
theorem mulx_toInt_left (a b : Word) :
    (if a.msb then mulx a.toNat b.toNat - b else mulx a.toNat b.toNat) =
      mulx a.toInt b.toNat := by
  rw [BitVec.toInt_eq_msb_cond]
  cases a.msb with
  | false => rfl
  | true =>
    rw [if_pos rfl, if_pos rfl, mulx, mulx, ediv_sub_modulus, ofInt_sub_eq, BitVec.ofInt_natCast,
      BitVec.ofNat_toNat, BitVec.setWidth_eq]

/-- A negative second operand takes the first from the high half. -/
theorem mulx_toInt_right (a b : Word) :
    (if b.msb then mulx a.toInt b.toNat - a else mulx a.toInt b.toNat) =
      mulx a.toInt b.toInt := by
  rw [BitVec.toInt_eq_msb_cond b]
  cases b.msb with
  | false => rfl
  | true =>
    rw [if_pos rfl, if_pos rfl, mulx, mulx, Int.mul_comm, Int.mul_comm a.toInt (_ - _),
      ediv_sub_modulus, ofInt_sub_eq, BitVec.ofInt_toInt]

/-- {lit}`mul` gives the low half. -/
theorem multiply_mul (a b : Word) : multiply a 0x27#32 b = a * b :=
  (multiply_loop a b).1

/-- {lit}`mulxuu` gives the unsigned high half. -/
theorem multiply_mulxuu (a b : Word) : multiply a 0x07#32 b = mulx a.toNat b.toNat := by
  rw [← mulx_toNat]
  exact (multiply_loop a b).2

/-- {lit}`mulxsu` gives the high half with a signed first operand. -/
theorem multiply_mulxsu (a b : Word) : multiply a 0x17#32 b = mulx a.toInt b.toNat := by
  rw [← mulx_toInt_left, ← mulx_toNat, ← (multiply_loop a b).2]
  rfl

/-- {lit}`mulxss` gives the signed high half. -/
theorem multiply_mulxss (a b : Word) : multiply a 0x1f#32 b = mulx a.toInt b.toInt := by
  rw [← mulx_toInt_right, ← mulx_toInt_left, ← mulx_toNat, ← (multiply_loop a b).2]
  rfl

end Multiply

/-! ## Division -/

/-- The registers that a turn of the divide loop changes. -/
structure DivLoop where
  r3 : Word
  r13 : Word

/-- One turn of {lit}`.Ldivide_loop`. -/
def divTurn (r6 : Word) (s : DivLoop) : DivLoop :=
  let r13 := s.r13 <<< 1
  let r15 := if s.r3.msb then 1#32 else 0#32
  let r13 := r13 ||| r15
  let r3 := s.r3 <<< 1
  if r13 < r6 then { r3, r13 } else { r3 := r3 ||| 1#32, r13 := r13 - r6 }

/-- From {lit}`.Ldivide` to {lit}`.Lstore_result`, with the counter {lit}`r14` at 32. -/
def divide (r3 r4 r6 : Word) : Word :=
  let isDiv := r4 ^^^ 0x25#32 = 0#32
  let r17 := if isDiv then r3 ^^^ r6 else 0#32
  let r3 := if isDiv ∧ r3.msb then 0#32 - r3 else r3
  let r6 := if isDiv ∧ r6.msb then 0#32 - r6 else r6
  let s := (divTurn r6)^[32] { r3, r13 := 0#32 }
  let r9 := s.r3
  if r17.msb then 0#32 - r9 else r9

/-- The quotient of the leading digits as the loop forms it; every digit is 1 for the
divisor 0. -/
def quotient (n d k : Nat) : Nat := if d = 0 then 2 ^ k - 1 else n / d

/-- The loop after some turns, with the dividend {lit}`a` and the divisor {lit}`d`.  The
leading digits of the dividend are used up; the remainder has not overflowed since it is
below their number. -/
structure DivInv (a d : Word) (k : Nat) (s : DivLoop) : Prop where
  r13 : s.r13.toNat = a.toNat / 2 ^ (32 - k) % d.toNat
  r3 : s.r3.toNat =
    a.toNat % 2 ^ (32 - k) * 2 ^ k + quotient (a.toNat / 2 ^ (32 - k)) d.toNat k

section Divide

variable {a d : Word}

/-- A quotient has no more digits than its dividend. -/
theorem quotient_lt {n d k : Nat} (hn : n < 2 ^ k) : quotient n d k < 2 ^ k := by
  unfold quotient
  split
  · exact Nat.sub_lt (Nat.two_pow_pos k) Nat.one_pos
  · exact Nat.lt_of_le_of_lt (Nat.div_le_self n d) hn

/-- The used digits of a word. -/
theorem leading_lt (a : Word) {k : Nat} (hk : k ≤ 32) : a.toNat / 2 ^ (32 - k) < 2 ^ k := by
  apply Nat.div_lt_of_lt_mul
  rw [← Nat.pow_add, Nat.sub_add_cancel hk]
  exact a.isLt

/-- A bit taken in at the low end of a shifted register. -/
theorem shift_in (x : Word) {c : Word} (hc : c.toNat ≤ 1) :
    (x <<< 1 ||| c).toNat = (x <<< 1).toNat + c.toNat := by
  have hlt : c.toNat < 2 ^ 1 := by omega
  have hshift : (x <<< 1).toNat = 2 ^ 1 * (x.toNat % 2 ^ 31) := by
    rw [BitVec.toNat_shiftLeft, Nat.shiftLeft_eq]
    omega
  rw [BitVec.toNat_or, hshift, ← Nat.two_pow_add_eq_or_of_lt hlt]

/-- A further digit of the dividend that gives a digit 0 of the quotient. -/
theorem quotient_step_of_lt {n d c : Nat} (k : Nat) (h : 2 * (n % d) + c < d) :
    (2 * n + c) % d = 2 * (n % d) + c ∧
      quotient (2 * n + c) d (k + 1) = 2 * quotient n d k := by
  obtain ⟨hmod, hdiv⟩ := remainder_step_of_lt h
  have hd : d ≠ 0 := Nat.ne_zero_of_lt h
  rw [quotient, quotient, if_neg hd, if_neg hd]
  exact ⟨hmod, hdiv⟩

/-- A further digit of the dividend that gives a digit 1. -/
theorem quotient_step_of_le {n d c : Nat} (k : Nat) (hc : c ≤ 1) (h : d ≤ 2 * (n % d) + c) :
    (2 * n + c) % d = 2 * (n % d) + c - d ∧
      quotient (2 * n + c) d (k + 1) = 2 * quotient n d k + 1 := by
  unfold quotient
  by_cases hd : d = 0
  · have hpos := Nat.two_pow_pos k
    subst hd
    rw [if_pos rfl, if_pos rfl, Nat.mod_zero, Nat.mod_zero, Nat.pow_succ]
    omega
  · rw [if_neg hd, if_neg hd]
    exact remainder_step_of_le (Nat.pos_of_ne_zero hd) hc h

/-- The register of dividend and quotient before a turn: its highest bit is the next digit
of the dividend, and the shift makes room for a digit of the quotient. -/
theorem dividend_shift {r3 : Word} {n q k p : Nat} (hp : p + k = 31) (hq : q < 2 ^ k)
    (hr3 : r3.toNat = n % 2 ^ (p + 1) * 2 ^ k + q) :
    (if r3.msb then 1#32 else 0#32).toNat = digit n p ∧
      (r3 <<< 1).toNat = n % 2 ^ p * 2 ^ (k + 1) + 2 * q := by
  have hdigit := digit_le_one n p
  have htop : 2 ^ p * 2 ^ k = 2 ^ 31 := by rw [← Nat.pow_add, hp]
  have hrest : n % 2 ^ p * 2 ^ k + q < 2 ^ 31 := by
    have hlt : (n % 2 ^ p + 1) * 2 ^ k ≤ 2 ^ p * 2 ^ k :=
      Nat.mul_le_mul_right _ (Nat.mod_lt n (Nat.two_pow_pos p))
    rw [Nat.add_mul] at hlt
    omega
  have hsplit : r3.toNat = n % 2 ^ p * 2 ^ k + q + digit n p * 2 ^ 31 := by
    rw [hr3, trailing_succ, Nat.add_mul, Nat.mul_assoc (digit n p), htop]
    omega
  constructor
  · rw [BitVec.msb_eq_decide, hsplit]
    by_cases hone : digit n p = 1
    · rw [hone, if_pos (by simp)]
      rfl
    · have hzero : digit n p = 0 := by omega
      rw [hzero, if_neg (by simp; omega)]
      rfl
  · rw [BitVec.toNat_shiftLeft, hsplit, Nat.shiftLeft_eq, Nat.pow_succ 2 k]
    have hdouble : n % 2 ^ p * (2 ^ k * 2) = 2 * (n % 2 ^ p * 2 ^ k) := by ring
    rw [hdouble]
    omega

/-- A turn of the division gives one digit of the quotient. -/
theorem divInv_turn {k : Nat} (hk : k < 32) {s : DivLoop} (h : DivInv a d k s) :
    DivInv a d (k + 1) (divTurn d s) := by
  obtain ⟨p, hp⟩ : ∃ p, p + k = 31 := ⟨31 - k, by omega⟩
  have hbefore : 32 - k = p + 1 := by omega
  have hafter : 32 - (k + 1) = p := by omega
  have hleading := leading_lt a (Nat.le_of_lt hk)
  have hr13 := h.r13
  have hr3 := h.r3
  rw [hbefore] at hleading hr13 hr3
  have hdigit := digit_le_one a.toNat p
  obtain ⟨hbit, hshift⟩ := dividend_shift hp (quotient_lt hleading) hr3
  have hsmall : s.r13.toNat < 2 ^ 31 := by
    have hle := Nat.mod_le (a.toNat / 2 ^ (p + 1)) d.toNat
    have hpow : 2 ^ k ≤ 2 ^ 31 := Nat.pow_le_pow_right (Nat.succ_pos 1) (by omega)
    omega
  have hdouble : (s.r13 <<< 1).toNat = 2 * s.r13.toNat := by
    rw [BitVec.toNat_shiftLeft, Nat.shiftLeft_eq]
    omega
  have hin := shift_in s.r13 (c := if s.r3.msb then 1#32 else 0#32) (by rw [hbit]; exact hdigit)
  rw [hdouble, hr13, hbit] at hin
  unfold divTurn
  dsimp only
  by_cases hlt : 2 * (a.toNat / 2 ^ (p + 1) % d.toNat) + digit a.toNat p < d.toNat
  · obtain ⟨hmod, hquot⟩ := quotient_step_of_lt k hlt
    rw [if_pos (by rw [BitVec.lt_def, hin]; exact hlt)]
    refine ⟨?_, ?_⟩
    · rw [hafter, leading_succ, hmod]
      exact hin
    · rw [hafter, leading_succ, hquot]
      exact hshift
  · obtain ⟨hmod, hquot⟩ := quotient_step_of_le k hdigit (Nat.not_lt.mp hlt)
    rw [if_neg (by rw [BitVec.lt_def, hin]; exact hlt)]
    refine ⟨?_, ?_⟩
    · rw [hafter, leading_succ, hmod, ← hin]
      exact BitVec.toNat_sub_of_le (by rw [BitVec.le_def, hin]; exact Nat.not_lt.mp hlt)
    · have hdown := shift_in s.r3 (c := 1#32) (Nat.le_refl 1)
      rw [hafter, leading_succ, hquot]
      exact hdown.trans (by rw [hshift]; rfl)

/-- After some turns that many digits of the dividend have been divided. -/
theorem divInv_run (k : Nat) (hk : k ≤ 32) :
    DivInv a d k ((divTurn d)^[k] { r3 := a, r13 := 0#32 }) := by
  induction k with
  | zero =>
    have hnone : a.toNat / 2 ^ 32 = 0 := Nat.div_eq_of_lt a.isLt
    refine ⟨?_, ?_⟩
    · rw [Nat.sub_zero, hnone, Nat.zero_mod]
      rfl
    · have hzero : quotient 0 d.toNat 0 = 0 := by
        unfold quotient
        split
        · rfl
        · exact Nat.zero_div _
      rw [Nat.sub_zero, hnone, hzero, Nat.mod_eq_of_lt a.isLt]
      simp
  | succ k ih =>
    rw [Function.iterate_succ_apply']
    exact divInv_turn hk (ih (by omega))

/-- What the loop leaves. -/
theorem divide_loop (a d : Word) :
    ((divTurn d)^[32] { r3 := a, r13 := 0#32 }).r3 = a.smtUDiv d := by
  have h := (divInv_run (a := a) (d := d) 32 (Nat.le_refl 32)).r3
  rw [Nat.sub_self, Nat.pow_zero, Nat.mod_one, Nat.zero_mul, Nat.zero_add, Nat.div_one] at h
  rw [← BitVec.toNat_inj, h, BitVec.smtUDiv_eq, quotient]
  by_cases hd : d = 0#32
  · rw [if_pos hd, if_pos (by rw [hd]; rfl), BitVec.toNat_allOnes]
  · have hne : d.toNat ≠ 0 := fun hzero => hd (BitVec.eq_of_toNat_eq hzero)
    rw [if_neg hd, if_neg hne, BitVec.toNat_udiv]

/-- {lit}`divu` gives the unsigned quotient. -/
theorem divide_divu (a d : Word) : divide a 0x24#32 d = a.smtUDiv d := by
  rw [← divide_loop]
  simp [divide]

/-- {lit}`div` gives the signed quotient, truncated. -/
theorem divide_div (a d : Word) : divide a 0x25#32 d = a.smtSDiv d := by
  have hdivide : divide a 0x25#32 d =
      if (a ^^^ d).msb then
        0#32 - (if a.msb then 0#32 - a else a).smtUDiv (if d.msb then 0#32 - d else d)
      else (if a.msb then 0#32 - a else a).smtUDiv (if d.msb then 0#32 - d else d) := by
    rw [← divide_loop]
    simp [divide]
  rw [hdivide, BitVec.smtSDiv_eq, BitVec.msb_xor]
  cases a.msb <;> cases d.msb <;> simp

end Divide

end Nios2
end RadonMCU
