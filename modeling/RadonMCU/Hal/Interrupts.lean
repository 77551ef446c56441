import RadonMCU.Foundations.MaskedCode
import RadonMCU.Foundations.StepSystem
import RadonMCU.Foundations.WordBits

/-!
# The interrupt handlers

The table of handlers, {lit}`alt_iic_isr_register`, {lit}`alt_ic_irq_enable` and
{lit}`alt_ic_irq_disable`, and {lit}`alt_irq_handler`, with the processor's status register, its
interrupt enable register and the interrupt requests of the devices.  Of the status register
only the PIE bit is modelled.

Between two instructions of the foreground the processor takes an interrupt, or an exception for
an instruction that it does not have.  It saves the status register in {lit}`estatus` and clears
PIE; the return restores the register.  The entry of the exception handler does not know which
of the two it was.  If interrupts were enabled and one is pending, it goes to
{lit}`alt_irq_handler`, after which the instruction is issued again; else the instruction is
emulated.

The log of the calls of handlers, the registrations so far and the cause of an exception are
proof-only.
-/

namespace RadonMCU
namespace Hal

open MaskedCode WordBits

/-- Address of a handler function. -/
abbrev Isr := Nat

/-- {lit}`alt_irq`, {lit}`alt_irq_active` and the interrupt enable register. -/
structure IrqTable where
  handler : Fin 32 → Option Isr
  context : Fin 32 → Nat
  altIrqActive : UInt32
  ienable : UInt32
  /-- The latest registrations: the handler, if it is not a null pointer, and its context. -/
  registered : Fin 32 → Option (Isr × Nat)
  /-- An entry was written before the first one of the table. -/
  stray : Bool

/-- What an instruction changes. -/
inductive IrqOp where
  | storeHandler (id : Fin 32) (isr : Option Isr)
  /-- The second part of an entry, in a registration of this handler. -/
  | storeContext (id : Fin 32) (isrContext : Nat) (isr : Option Isr)
  | storeStray
  | setActive (id : Fin 32)
  | clearActive (id : Fin 32)
  | writeIenable

/-- {lit}`1 << id`. -/
def irqMask (id : Fin 32) : UInt32 := 1 <<< UInt32.ofNat id

namespace IrqTable

/-- The pair of a handler and its context that a call uses. -/
def entry (t : IrqTable) (id : Fin 32) : Option (Isr × Nat) :=
  (t.handler id).map fun isr => (isr, t.context id)

/-- A registration counts from the time both parts of the entry are written. -/
def exec (t : IrqTable) : IrqOp → IrqTable
  | .storeHandler id isr => { t with handler := Function.update t.handler id isr }
  | .storeContext id isrContext isr =>
      { t with
        context := Function.update t.context id isrContext
        registered := Function.update t.registered id (isr.map fun isr => (isr, isrContext)) }
  | .storeStray => { t with stray := true }
  | .setActive id => { t with altIrqActive := t.altIrqActive ||| irqMask id }
  | .clearActive id => { t with altIrqActive := t.altIrqActive &&& ~~~irqMask id }
  | .writeIenable => { t with ienable := t.altIrqActive }

end IrqTable

/-! ## The foreground -/

/-- {lit}`alt_irq_disable_all` into a local variable of the function. -/
def altIrqDisableAll (slot : Nat) : List (Instr IrqOp) := [.save slot, .disable]

/-- {lit}`alt_irq_enable_all` of a local variable of the function. -/
def altIrqEnableAll (slot : Nat) : List (Instr IrqOp) := [.restore slot]

/-- {lit}`alt_ic_irq_enable`, which is {lit}`alt_irq_enable`. -/
def altIcIrqEnable (id : Fin 32) : List (Instr IrqOp) :=
  altIrqDisableAll 1 ++ [.op (.setActive id), .op .writeIenable] ++ altIrqEnableAll 1

/-- {lit}`alt_ic_irq_disable`, which is {lit}`alt_irq_disable`. -/
def altIcIrqDisable (id : Fin 32) : List (Instr IrqOp) :=
  altIrqDisableAll 1 ++ [.op (.clearActive id), .op .writeIenable] ++ altIrqEnableAll 1

/-- {lit}`alt_iic_isr_register`.  The number is compared as a signed one, so from
{lit}`2^31` on it passes and is that of an entry before the table; the rest of such a call has no
meaning in C and is left out. -/
def altIicIsrRegister (irq : UInt32) (isr : Option Isr) (isrContext : Nat) :
    List (Instr IrqOp) :=
  if h : irq.toNat < 32 then
    altIrqDisableAll 0 ++
      [ .op (.storeHandler ⟨irq.toNat, h⟩ isr),
        .op (.storeContext ⟨irq.toNat, h⟩ isrContext isr) ] ++
      (if isr.isSome then altIcIrqEnable ⟨irq.toNat, h⟩ else altIcIrqDisable ⟨irq.toNat, h⟩) ++
      altIrqEnableAll 0
  else if irq.toInt32 < 32 then altIrqDisableAll 0 ++ [.op .storeStray] ++ altIrqEnableAll 0
  else []

/-! ## The system -/

/-- Why the processor takes an exception. -/
inductive Cause where
  | interrupt
  /-- An instruction that the processor does not have. -/
  | unimplemented
deriving DecidableEq

/-- Where the exception code is. -/
inductive IrqPc where
  /-- The foreground is running. -/
  | none
  /-- The test of {lit}`alt_irq_entry` for an interrupt. -/
  | entry (cause : Cause)
  /-- The first {lit}`alt_irq_pending` of {lit}`alt_irq_handler`. -/
  | first
  /-- The inner loop, with {lit}`mask = 1 << i`. -/
  | scan (active : UInt32) (i : Nat)
  /-- In the handler of this interrupt. -/
  | handler (i : Nat)
  /-- The {lit}`alt_irq_pending` that follows a handler. -/
  | again
  /-- The exception is taken for one that is not an interrupt. -/
  | notIrq (cause : Cause)
deriving DecidableEq

/-- A call of a handler: its number, what the table holds for it, the bit list in which it was
found, and the pending interrupts and the registration in force at the call. -/
structure HandlerCall where
  id : Nat
  entry : Option (Isr × Nat)
  active : UInt32
  pending : UInt32
  registered : Option (Isr × Nat)

/-- The foreground with the status register, and the exception code. -/
structure Interrupts where
  thread : Thread IrqTable IrqOp
  /-- The PIE bit of the register {lit}`estatus`. -/
  estatus : Bool
  /-- The interrupt requests of the devices. -/
  requests : UInt32
  pc : IrqPc
  calls : List HandlerCall

/-- The actions of the foreground, of the devices and of the processor. -/
inductive IrqAction where
  | register (irq : UInt32) (isr : Option Isr) (isrContext : Nat)
  | enable (id : Fin 32)
  | disable (id : Fin 32)
  /-- The next instruction of the foreground. -/
  | foreground
  /-- A device makes a request. -/
  | request (id : Fin 32)
  /-- A device withdraws its request. -/
  | withdraw (id : Fin 32)
  /-- The processor takes an interrupt. -/
  | interrupt
  /-- The processor takes an exception for an instruction that it does not have. -/
  | unimplemented
  /-- The next step of the exception code. -/
  | serve

namespace Interrupts

/-- Nothing is registered; {lit}`alt_irq_init` has enabled interrupts. -/
def init : Interrupts where
  thread :=
    { enabled := true
      saved := fun _ => false
      code := []
      data :=
        { handler := fun _ => none
          context := fun _ => 0
          altIrqActive := 0
          ienable := 0
          registered := fun _ => none
          stray := false } }
  estatus := false
  requests := 0
  pc := .none
  calls := []

/-- The register {lit}`ipending`. -/
def ipending (s : Interrupts) : UInt32 := s.requests &&& s.thread.data.ienable

/-- A call of the foreground. -/
def call (s : Interrupts) (code : List (Instr IrqOp)) : Interrupts :=
  if s.pc = .none ∧ s.thread.code = [] then { s with thread := { s.thread with code } } else s

/-- The processor saves the status register and clears PIE. -/
def take (s : Interrupts) (cause : Cause) : Interrupts :=
  { s with
    estatus := s.thread.enabled
    thread := { s.thread with enabled := false }
    pc := .entry cause }

/-- The end of the exception code: {lit}`eret` restores the status register. -/
def exceptionExit (s : Interrupts) : Interrupts :=
  { s with thread := { s.thread with enabled := s.estatus }, pc := .none }

/-- The inner loop: call the handler of the bit, or go on with the next one. -/
def scanStep (s : Interrupts) (active : UInt32) (i : Nat) : Interrupts :=
  if bit active i then
    { s with
      pc := .handler i
      calls := s.calls ++
        [{ id := i
           entry := if h : i < 32 then s.thread.data.entry ⟨i, h⟩ else none
           active
           pending := s.ipending
           registered := if h : i < 32 then s.thread.data.registered ⟨i, h⟩ else none }] }
  else { s with pc := .scan active (i + 1) }

/-- The next step of the exception code.  Its test does not know the cause. -/
def serveStep (s : Interrupts) : Interrupts :=
  match s.pc with
  | .none => s
  | .entry cause =>
      { s with pc := if s.estatus = false ∨ s.ipending = 0 then .notIrq cause else .first }
  | .first => { s with pc := .scan s.ipending 0 }
  | .scan active i => s.scanStep active i
  | .handler _ => { s with pc := .again }
  | .again => if s.ipending = 0 then s.exceptionExit else { s with pc := .scan s.ipending 0 }
  | .notIrq _ => s.exceptionExit

/-- The foreground or a handler is running, so that a device may have been served. -/
def Serving (s : Interrupts) : Prop := s.pc = .none ∨ ∃ i, s.pc = .handler i

instance (s : Interrupts) : Decidable s.Serving :=
  decidable_of_iff (s.pc = .none ∨ (match s.pc with | .handler _ => true | _ => false) = true) <| by
    rw [Serving]
    cases s.pc <;> simp

def step (s : Interrupts) : IrqAction → Interrupts
  | .register irq isr isrContext => s.call (altIicIsrRegister irq isr isrContext)
  | .enable id => s.call (altIcIrqEnable id)
  | .disable id => s.call (altIcIrqDisable id)
  | .foreground =>
      if s.pc = .none then { s with thread := MaskedCode.step IrqTable.exec s.thread } else s
  | .request id => { s with requests := s.requests ||| irqMask id }
  | .withdraw id => { s with requests := s.requests &&& ~~~irqMask id }
  | .interrupt =>
      if s.pc = .none ∧ s.thread.enabled = true ∧ s.ipending ≠ 0 then s.take .interrupt else s
  | .unimplemented => if s.pc = .none then s.take .unimplemented else s
  | .serve => s.serveStep

abbrev run (s : Interrupts) (acts : List IrqAction) : Interrupts :=
  StepSystem.run Interrupts.step s acts

/-- Interrupt numbers are not negative, and a device withdraws its request only when it has been
served. -/
def Allowed (s : Interrupts) : IrqAction → Prop
  | .register irq _ _ => irq.toNat < 2147483648
  | .withdraw _ => s.Serving
  | _ => True

instance (s : Interrupts) : DecidablePred s.Allowed
  | .register irq _ _ => inferInstanceAs (Decidable (irq.toNat < 2147483648))
  | .withdraw _ => inferInstanceAs (Decidable s.Serving)
  | .enable _ | .disable _ | .foreground | .request _ | .interrupt | .unimplemented | .serve =>
      isTrue trivial

/-- An interrupt is enabled other than by its registration only while it has a handler. -/
def EnablesHandled (s : Interrupts) : IrqAction → Prop
  | .enable id => (s.thread.data.registered id).isSome
  | _ => True

instance (s : Interrupts) : DecidablePred s.EnablesHandled
  | .enable id => inferInstanceAs (Decidable ((s.thread.data.registered id).isSome = true))
  | .register _ _ _ | .disable _ | .foreground | .request _ | .withdraw _ | .interrupt
  | .unimplemented | .serve => isTrue trivial

end Interrupts

end Hal
end RadonMCU
