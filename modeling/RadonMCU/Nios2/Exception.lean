import Mathlib.Data.Fintype.Basic
import Mathlib.Data.Nat.Bitwise
import Mathlib.Tactic.FinCases
import Mathlib.Tactic.IntervalCases
import RadonMCU.Nios2.MulDiv

/-!
# Emulated instructions

The path of an unimplemented multiply or divide instruction: {lit}`alt_exception_entry.S`
saves the caller's registers on the stack of the interrupted program, the handler of
{lit}`alt_exception_muldiv.S` splits the instruction into its fields, saves the other
registers, takes the operands from the stack and puts the result there, and the exit code
loads the registers again.  The stack is seen from the lowest stack pointer of the handler on,
one word per place; the places of registers that are not saved hold what was on the stack.

Main results:

- Theorems {lit}`split_r3_eq` to {lit}`split_opx`: the rotations and masks give the fields.
- Theorem {lit}`exception_eq`: what the whole path does, for every instruction word and all
  registers.
- Theorem {lit}`exception_executes`: for ordinary registers that is the instruction.
-/

namespace RadonMCU
namespace Nios2

/-! ## Instructions -/

/-- The general registers; the first one is 0. -/
@[ext]
structure RegFile where
  reg : Fin 32 → Word
  zero : reg 0 = 0#32

/-- Writing the first register does nothing. -/
def RegFile.set (regs : RegFile) (c : Fin 32) (value : Word) : RegFile where
  reg := if c = 0 then regs.reg else Function.update regs.reg c value
  zero := by
    split
    · exact regs.zero
    · rename_i hc
      rw [Function.update_of_ne (Ne.symm hc)]
      exact regs.zero

/-- The instructions that are emulated. -/
inductive Op where
  | mul
  | mulxuu
  | mulxsu
  | mulxss
  | div
  | divu
deriving DecidableEq, Repr

/-- The results of the instructions; a quotient by 0 is left open by the instruction set and
is what the handler gives. -/
def Op.result : Op → Word → Word → Word
  | mul, x, y => x * y
  | mulxuu, x, y => mulx x.toNat y.toNat
  | mulxsu, x, y => mulx x.toInt y.toNat
  | mulxss, x, y => mulx x.toInt y.toInt
  | div, x, y => x.smtSDiv y
  | divu, x, y => x.smtUDiv y

/-- The second operand. -/
inductive Source where
  | reg (b : Fin 32)
  | imm (value : Word)

/-- An instruction with its operands. -/
structure Instr where
  op : Op
  a : Fin 32
  src2 : Source
  dest : Fin 32

/-- The first source register. -/
def fieldA (i : Word) : Fin 32 := (i.extractLsb' 27 5).toFin

/-- The second source register, or the destination of an immediate instruction. -/
def fieldB (i : Word) : Fin 32 := (i.extractLsb' 22 5).toFin

/-- The destination of a register instruction. -/
def fieldC (i : Word) : Fin 32 := (i.extractLsb' 17 5).toFin

/-- The multiply and divide instructions. -/
def decode (i : Word) : Option Instr :=
  let rType (op : Op) : Option Instr :=
    some { op, a := fieldA i, src2 := .reg (fieldB i), dest := fieldC i }
  if i.extractLsb' 0 6 = 0x24#6 then
    some
      { op := .mul
        a := fieldA i
        src2 := .imm ((i.extractLsb' 6 16).signExtend 32)
        dest := fieldB i }
  else if i.extractLsb' 0 6 = 0x3a#6 then
    if i.extractLsb' 11 6 = 0x24#6 then rType .divu
    else if i.extractLsb' 11 6 = 0x27#6 then rType .mul
    else if i.extractLsb' 11 6 = 0x07#6 then rType .mulxuu
    else if i.extractLsb' 11 6 = 0x17#6 then rType .mulxsu
    else if i.extractLsb' 11 6 = 0x1f#6 then rType .mulxss
    else if i.extractLsb' 11 6 = 0x25#6 then rType .div
    else none
  else none

/-- The value of the second operand, registers being read so. -/
def Source.value (read : Fin 32 → Word) : Source → Word
  | reg b => read b
  | imm value => value

/-- What the instruction does. -/
def Instr.execute (d : Instr) (regs : RegFile) : RegFile :=
  regs.set d.dest (d.op.result (regs.reg d.a) (d.src2.value regs.reg))

/-! ## The handler -/

/-- The words of the stack from the lowest stack pointer of the handler on. -/
abbrev Frame := Nat → Word

/-- {lit}`stw`. -/
def Frame.stw (f : Frame) (value : Word) (place : Nat) : Frame := Function.update f place value

/-- {lit}`alt_exception_entry.S`; its stack pointer is 15 places above. -/
def entry (regs : RegFile) (estatus : Word) (f : Frame) : Frame :=
  let r := regs.reg
  let f := f.stw (r 31) 15
  let f := ((((((f.stw (r 1) 17).stw (r 2) 18).stw (r 3) 19).stw (r 4) 20).stw (r 5) 21).stw
    (r 6) 22).stw (r 7) 23
  let f := (((((((f.stw (r 8) 24).stw (r 9) 25).stw (r 10) 26).stw (r 11) 27).stw (r 12)
    28).stw (r 13) 29).stw (r 14) 30).stw (r 15) 31
  let f := (f.stw estatus 32).stw (r 29 - 4#32) 33
  f.stw (r 29) 33

/-- The fields as the handler computes them. -/
structure Split where
  r3 : Word
  r4 : Word
  r5 : Word
  r6 : Word
  r7 : Word

/-- The rotations, masks and shifts at the start of the handler. -/
def split (r2 : Word) : Split :=
  let r3 := r2.rotateLeft 7
  let r4 := r3.rotateLeft 3
  let r6 := r4.rotateLeft 2
  let r4 := r4.sshiftRight 16
  let r6 := r6 ^^^ 0x42#32
  let r7 := r6.rotateLeft 5
  let r5 := r2 &&& 0x3f#32
  let r3 := r3 ^^^ 0x40#32
  { r3 := r3 &&& 0x7c#32, r4, r5, r6 := r6 &&& 0x7c#32, r7 := r7 &&& 0x7c#32 }

/-- The registers that only the handler saves.  It saves its own stack pointer, 136 bytes
below the one of the program. -/
def saveRest (regs : RegFile) (f : Frame) : Frame :=
  let r := regs.reg
  let f := f.stw 0#32 16
  let f := (((((((f.stw (r 16) 0).stw (r 17) 1).stw (r 18) 2).stw (r 19) 3).stw (r 20) 4).stw
    (r 21) 5).stw (r 22) 6).stw (r 23) 7
  ((f.stw (r 26) 10).stw (r 27 - 76#32 - 60#32) 11).stw (r 28) 12

/-- {lit}`ldw` of a place given by its byte offset. -/
def Frame.ldw (f : Frame) (offset : Word) : Word := f (offset.toNat / 4)

/-- From the operands to {lit}`.Lstore_result`: the result and the offset of its place, or
nothing at {lit}`.Lnot_muldiv`. -/
def altExceptionMuldiv (r2 : Word) (f : Frame) : Option (Word × Word) :=
  let s := split r2
  let r3 := f.ldw s.r3
  if s.r5 = 0x24#32 then some (multiply r3 0x27#32 s.r4, s.r6)
  else
    let r6 := f.ldw s.r6
    let r4 := s.r4 >>> 5 &&& 0x3f#32
    if s.r5 ≠ 0x3a#32 then none
    else if r4 = 0x24#32 then some (divide r3 r4 r6, s.r7)
    else if r4 = 0x27#32 ∨ r4 = 0x07#32 ∨ r4 = 0x17#32 ∨ r4 = 0x1f#32 then
      some (multiply r3 r4 r6, s.r7)
    else if r4 ≠ 0x25#32 then none
    else some (divide r3 r4 r6, s.r7)

/-- The loads at the end of the handler and at {lit}`.Lexception_exit`, in order. -/
def loads : List (Fin 32 × Nat) :=
  [(16, 0), (17, 1), (18, 2), (19, 3), (20, 4), (21, 5), (22, 6), (23, 7), (28, 12), (29, 33),
    (31, 15), (1, 17), (2, 18), (3, 19), (4, 20), (5, 21), (6, 22), (7, 23), (8, 24), (9, 25),
    (10, 26), (11, 27), (12, 28), (13, 29), (14, 30), (15, 31)]

/-- The loads of the exit code. -/
def restore (regs : RegFile) (f : Frame) : RegFile :=
  loads.foldl (fun regs l => regs.set l.1 (f l.2)) regs

/-- After {lit}`eret`. -/
structure Resumed where
  regs : RegFile
  estatus : Word
  pc : Word

/-- The whole path, from the registers at the exception, where {lit}`ea` is the address of
the next instruction; nothing if another handler has to look at the instruction. -/
def exception (regs : RegFile) (estatus : Word) (i : Word) (stack : Frame) : Option Resumed :=
  let f := saveRest regs (entry regs estatus stack)
  (altExceptionMuldiv i f).map fun (r9, r7) =>
    let f := f.stw r9 (r7.toNat / 4)
    { regs := restore regs f, estatus := f 32, pc := f 33 }

/-! ## The fields -/

section Fields

variable (i : Word)

/-- The place of the first source, times 4. -/
theorem split_r3_eq : (split i).r3 = ((i.extractLsb' 27 5 ^^^ 16#5).setWidth 32) <<< 2 := by
  apply BitVec.eq_of_getLsbD_eq
  intro j hj
  interval_cases j <;> simp [split]

/-- The place of the second source, times 4. -/
theorem split_r6_eq : (split i).r6 = ((i.extractLsb' 22 5 ^^^ 16#5).setWidth 32) <<< 2 := by
  apply BitVec.eq_of_getLsbD_eq
  intro j hj
  interval_cases j <;> simp [split]

/-- The place of the destination, times 4. -/
theorem split_r7_eq : (split i).r7 = ((i.extractLsb' 17 5 ^^^ 16#5).setWidth 32) <<< 2 := by
  apply BitVec.eq_of_getLsbD_eq
  intro j hj
  interval_cases j <;> simp [split]

/-- The immediate operand, with its sign. -/
theorem split_r4 : (split i).r4 = (i.extractLsb' 6 16).signExtend 32 := by
  apply BitVec.eq_of_getLsbD_eq
  intro j hj
  interval_cases j <;>
    simp [split, BitVec.getElem_sshiftRight, BitVec.getElem_signExtend,
      BitVec.msb_eq_getLsbD_last]

/-- The opcode. -/
theorem split_r5 : (split i).r5 = (i.extractLsb' 0 6).setWidth 32 := by
  apply BitVec.eq_of_getLsbD_eq
  intro j hj
  interval_cases j <;> simp [split]

/-- The extended opcode. -/
theorem split_opx : (split i).r4 >>> 5 &&& 0x3f#32 = (i.extractLsb' 11 6).setWidth 32 := by
  rw [split_r4]
  apply BitVec.eq_of_getLsbD_eq
  intro j hj
  interval_cases j <;> simp [BitVec.getElem_signExtend]

/-- The place of a register in the frame. -/
def place (r : Fin 32) : Nat := r.val ^^^ 16

/-- Every register has a place in the frame. -/
theorem place_lt (r : Fin 32) : place r < 32 :=
  Nat.xor_lt_two_pow (n := 5) r.isLt (by decide)

/-- No two registers share a place. -/
theorem place_inj {r c : Fin 32} (h : place r = place c) : r = c :=
  Fin.ext (Nat.xor_left_injective h)

/-- A field shifted by two is the byte offset of the place. -/
theorem offset_place (x : BitVec 5) :
    ((x ^^^ 16#5).setWidth 32 <<< 2).toNat / 4 = place x.toFin := by
  have hlt := (x ^^^ 16#5).isLt
  have hxor : (x ^^^ 16#5).toNat = x.toNat ^^^ 16 := BitVec.toNat_xor x 16#5
  rw [BitVec.toNat_shiftLeft, BitVec.toNat_setWidth, Nat.shiftLeft_eq,
    Nat.mod_eq_of_lt (by omega), Nat.mod_eq_of_lt (by omega), hxor]
  exact Nat.mul_div_cancel _ (Nat.succ_pos 3)

end Fields

/-! ## The frame -/

section Frames

variable (regs : RegFile) (estatus : Word) (stack : Frame)

/-- A register as the handler finds it on the stack.  The stack pointer is the handler's
own, and {lit}`et`, {lit}`bt`, {lit}`ea` and {lit}`ba` are not saved. -/
def seen (r : Fin 32) : Word :=
  if r = 27 then regs.reg 27 - 76#32 - 60#32
  else if r = 24 ∨ r = 25 ∨ r = 29 ∨ r = 30 then stack (place r)
  else regs.reg r

/-- The frame that the handler works on. -/
def savedFrame : Frame := saveRest regs (entry regs estatus stack)

/-- The frame holds the registers as the handler sees them. -/
theorem savedFrame_place (r : Fin 32) :
    savedFrame regs estatus stack (place r) = seen regs stack r := by
  fin_cases r
  · exact regs.zero.symm
  all_goals rfl

/-- Behind the registers are the status and the address to return to. -/
theorem savedFrame_status :
    savedFrame regs estatus stack 32 = estatus ∧
      savedFrame regs estatus stack 33 = regs.reg 29 :=
  ⟨rfl, rfl⟩

/-- The registers that are loaded from their places. -/
def restored (r : Fin 32) : Prop :=
  r ≠ 0 ∧ r ≠ 24 ∧ r ≠ 25 ∧ r ≠ 26 ∧ r ≠ 27 ∧ r ≠ 29 ∧ r ≠ 30

instance (r : Fin 32) : Decidable (restored r) := inferInstanceAs (Decidable (_ ∧ _))

/-- What the exit code leaves in a register. -/
theorem restore_reg (f : Frame) (r : Fin 32) :
    (restore regs f).reg r =
      if restored r then f (place r) else if r = 29 then f 33 else regs.reg r := by
  fin_cases r <;> rfl

/-- The registers that are loaded again were saved. -/
theorem seen_of_restored {r : Fin 32} (hr : restored r) : seen regs stack r = regs.reg r := by
  obtain ⟨-, het, hbt, -, hsp, hea, hba⟩ := hr
  rw [seen, if_neg hsp, if_neg (by simp [het, hbt, hea, hba])]

/-- A result that is put into the frame reaches its register if that is loaded again. -/
theorem restore_stw (c : Fin 32) (value : Word) :
    restore regs ((savedFrame regs estatus stack).stw value (place c)) =
      if restored c then regs.set c value else regs := by
  apply RegFile.ext
  funext r
  have hlt := place_lt c
  rw [restore_reg]
  by_cases hr : restored r
  · rw [if_pos hr]
    by_cases hrc : r = c
    · subst hrc
      rw [if_pos hr, RegFile.set, Frame.stw]
      dsimp only
      rw [if_neg hr.1, Function.update_self, Function.update_self]
    · have hplace : place r ≠ place c := fun h => hrc (place_inj h)
      rw [Frame.stw, Function.update_of_ne hplace, savedFrame_place,
        seen_of_restored regs stack hr]
      split
      · rw [RegFile.set]
        dsimp only
        split
        · rfl
        · rw [Function.update_of_ne hrc]
      · rfl
  · have hkeep : (if restored c then regs.set c value else regs).reg r = regs.reg r := by
      split
      · rename_i hc
        have hrc : r ≠ c := fun h => hr (h ▸ hc)
        rw [RegFile.set]
        dsimp only
        rw [if_neg hc.1, Function.update_of_ne hrc]
      · rfl
    rw [if_neg hr, hkeep]
    split
    · rename_i hea
      rw [Frame.stw, Function.update_of_ne (by omega), hea]
      exact (savedFrame_status regs estatus stack).2
    · rfl

end Frames

/-! ## The whole path -/

section Path

variable (i : Word) (f : Frame)

/-- Widening loses no field. -/
theorem widen_eq_iff (x y : BitVec 6) : x.setWidth 32 = y.setWidth 32 ↔ x = y := by
  rw [← BitVec.toNat_inj, ← BitVec.toNat_inj, BitVec.toNat_setWidth, BitVec.toNat_setWidth,
    Nat.mod_eq_of_lt (by omega), Nat.mod_eq_of_lt (by omega)]

/-- An operation code as the handler compares it. -/
theorem field_eq_iff (x y : BitVec 6) {c : Word} (hc : y.setWidth 32 = c) :
    x.setWidth 32 = c ↔ x = y := by
  rw [← hc, widen_eq_iff]

/-- The first operand is loaded from its place. -/
theorem ldw_r3 : f.ldw (split i).r3 = f (place (fieldA i)) := by
  rw [Frame.ldw, split_r3_eq, offset_place]
  rfl

/-- The second operand is loaded from its place. -/
theorem ldw_r6 : f.ldw (split i).r6 = f (place (fieldB i)) := by
  rw [Frame.ldw, split_r6_eq, offset_place]
  rfl

/-- The handler finds the operation, its operands on the stack and the place of its
result. -/
theorem altExceptionMuldiv_eq :
    (altExceptionMuldiv i f).map (fun (r9, r7) => (r9, r7.toNat / 4)) =
      (decode i).map fun d =>
        (d.op.result (f (place d.a)) (d.src2.value fun r => f (place r)), place d.dest) := by
  have hdestB : (split i).r6.toNat / 4 = place (fieldB i) := by
    rw [split_r6_eq, offset_place]
    rfl
  have hdestC : (split i).r7.toNat / 4 = place (fieldC i) := by
    rw [split_r7_eq, offset_place]
    rfl
  unfold altExceptionMuldiv decode
  dsimp only
  rw [split_r5, split_opx, split_r4, ldw_r3, ldw_r6]
  generalize i.extractLsb' 0 6 = op
  generalize i.extractLsb' 11 6 = opx
  by_cases hmuli : op = 0x24#6
  · subst hmuli
    simp [multiply_mul, hdestB, Op.result, Source.value]
  have hnotMuli := mt (field_eq_iff op 0x24#6 (c := 0x24#32) rfl).mp hmuli
  rw [if_neg hnotMuli, if_neg hmuli]
  by_cases hrType : op = 0x3a#6
  · subst hrType
    by_cases hdivu : opx = 0x24#6
    · subst hdivu
      simp [divide_divu, hdestC, Op.result, Source.value]
    by_cases hmul : opx = 0x27#6
    · subst hmul
      simp [multiply_mul, hdestC, Op.result, Source.value]
    by_cases hmulxuu : opx = 0x07#6
    · subst hmulxuu
      simp [multiply_mulxuu, hdestC, Op.result, Source.value]
    by_cases hmulxsu : opx = 0x17#6
    · subst hmulxsu
      simp [multiply_mulxsu, hdestC, Op.result, Source.value]
    by_cases hmulxss : opx = 0x1f#6
    · subst hmulxss
      simp [multiply_mulxss, hdestC, Op.result, Source.value]
    by_cases hdiv : opx = 0x25#6
    · subst hdiv
      simp [divide_div, hdestC, Op.result, Source.value]
    have hother : ∀ c : BitVec 6, opx ≠ c → opx.setWidth 32 ≠ c.setWidth 32 :=
      fun c => mt (widen_eq_iff opx c).mp
    have hdivu' : opx.setWidth 32 ≠ 0x24#32 := hother _ hdivu
    have hmul' : opx.setWidth 32 ≠ 0x27#32 := hother _ hmul
    have hmulxuu' : opx.setWidth 32 ≠ 0x07#32 := hother _ hmulxuu
    have hmulxsu' : opx.setWidth 32 ≠ 0x17#32 := hother _ hmulxsu
    have hmulxss' : opx.setWidth 32 ≠ 0x1f#32 := hother _ hmulxss
    have hdiv' : opx.setWidth 32 ≠ 0x25#32 := hother _ hdiv
    simp [*]
  · have hnotRType := mt (field_eq_iff op 0x3a#6 (c := 0x3a#32) rfl).mp hrType
    rw [if_pos hnotRType, if_neg hrType]
    rfl

/-- For every instruction word and all registers: a multiply or divide instruction is
executed on the registers as the handler sees them, the next instruction follows, and the
destination is written if it is one of the registers that are loaded from the stack; any
other instruction is left to the next handler. -/
theorem exception_eq (regs : RegFile) (estatus : Word) (stack : Frame) :
    exception regs estatus i stack =
      (decode i).map fun d =>
        { regs :=
            if restored d.dest then
              regs.set d.dest
                (d.op.result (seen regs stack d.a) (d.src2.value (seen regs stack)))
            else regs
          estatus
          pc := regs.reg 29 } := by
  have hpath := altExceptionMuldiv_eq i (savedFrame regs estatus stack)
  have hseen : (fun r => savedFrame regs estatus stack (place r)) = seen regs stack :=
    funext (savedFrame_place regs estatus stack)
  rw [hseen] at hpath
  change (altExceptionMuldiv i (savedFrame regs estatus stack)).map _ = _
  cases hdecode : decode i with
  | none =>
    rw [hdecode, Option.map_none, Option.map_eq_none_iff] at hpath
    rw [hpath]
    rfl
  | some d =>
    rw [hdecode, Option.map_some, Option.map_eq_some_iff] at hpath
    obtain ⟨⟨r9, r7⟩, hhandler, hresult⟩ := hpath
    obtain ⟨hr9, hr7⟩ := Prod.mk.inj hresult
    rw [hhandler, Option.map_some, Option.map_some]
    dsimp only at hr9 hr7 ⊢
    have hlt := place_lt d.dest
    have hstatus : ∀ n, 32 ≤ n → (savedFrame regs estatus stack).stw r9 (place d.dest) n =
        savedFrame regs estatus stack n := by
      intro n hn
      exact Function.update_of_ne (by omega) _ _
    rw [hr7]
    change some (Resumed.mk (restore regs ((savedFrame regs estatus stack).stw r9 (place d.dest)))
      ((savedFrame regs estatus stack).stw r9 (place d.dest) 32)
      ((savedFrame regs estatus stack).stw r9 (place d.dest) 33)) = _
    rw [hstatus 32 (Nat.le_refl 32), hstatus 33 (by decide), restore_stw, hr9, savedFrame_place]
    rfl

/-- The registers that the emulation reads like the processor does, and writes so too but for
{lit}`gp`. -/
def Ordinary (r : Fin 32) : Prop := r ≠ 24 ∧ r ≠ 25 ∧ r ≠ 27 ∧ r ≠ 29 ∧ r ≠ 30

instance (r : Fin 32) : Decidable (Ordinary r) := inferInstanceAs (Decidable (_ ∧ _))

/-- The operands and the destination are ordinary, and the destination is not {lit}`gp`, which
the exit code does not load again. -/
structure Instr.Emulated (d : Instr) : Prop where
  a : Ordinary d.a
  src2 : ∀ b, d.src2 = .reg b → Ordinary b
  dest : Ordinary d.dest
  dest_ne_gp : d.dest ≠ 26

/-- The handler sees an ordinary register as the program left it. -/
theorem seen_of_ordinary (regs : RegFile) (stack : Frame) {r : Fin 32} (hr : Ordinary r) :
    seen regs stack r = regs.reg r := by
  obtain ⟨het, hbt, hsp, hea, hba⟩ := hr
  rw [seen, if_neg hsp, if_neg (by simp [het, hbt, hea, hba])]

/-- For ordinary registers, and a destination other than {lit}`gp`, the path is the instruction:
whatever the stack holds, only the destination changes, to the result that the processor would
compute, and the next instruction follows with the old status. -/
theorem exception_executes (regs : RegFile) (estatus : Word) (stack : Frame) (d : Instr)
    (hdecode : decode i = some d) (hd : d.Emulated) :
    exception regs estatus i stack =
      some { regs := d.execute regs, estatus, pc := regs.reg 29 } := by
  have hsrc2 : d.src2.value (seen regs stack) = d.src2.value regs.reg := by
    cases hsource : d.src2 with
    | reg b => exact seen_of_ordinary regs stack (hd.src2 b hsource)
    | imm value => rfl
  rw [exception_eq, hdecode, Option.map_some, seen_of_ordinary regs stack hd.a, hsrc2]
  by_cases hzero : d.dest = 0
  · have hnone : ¬ restored d.dest := fun h => h.1 hzero
    have hsame : d.execute regs = regs := by
      apply RegFile.ext
      rw [Instr.execute, RegFile.set, hzero]
      rfl
    rw [if_neg hnone, hsame]
  · obtain ⟨het, hbt, hsp, hea, hba⟩ := hd.dest
    rw [if_pos ⟨hzero, het, hbt, hd.dest_ne_gp, hsp, hea, hba⟩]
    rfl

/-- {lit}`mul r4, r2, r3`. -/
theorem exception_executes_mul :
    let regs : RegFile := { reg := fun r => BitVec.ofNat 32 r.val, zero := rfl }
    let d : Instr := { op := .mul, a := 2, src2 := .reg 3, dest := 4 }
    exception regs 1#32 0x10c9383a#32 (fun _ => 7#32) =
        some { regs := d.execute regs, estatus := 1#32, pc := 29#32 } ∧
      (d.execute regs).reg 4 = 6#32 :=
  ⟨exception_executes _ _ _ _ _ rfl
    ⟨by decide, fun b hb => by cases hb; decide, by decide, by decide⟩, rfl⟩

end Path

end Nios2
end RadonMCU
