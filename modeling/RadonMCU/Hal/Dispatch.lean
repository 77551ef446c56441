import RadonMCU.Hal.Interrupts

/-!
# Interrupts reach their handlers

Main results:

- Theorems {lit}`Consistent.register` and {lit}`Handled.register`: a registration as a whole
  leaves the table consistent, and every enabled interrupt with a handler.
- Theorem {lit}`dispatch_step`: every action keeps the exception code on its way to a handler.
- Theorem {lit}`dispatch_run`: every handler is called for the lowest pending number, and with
  the context it was registered with.
-/

namespace RadonMCU
namespace Hal

open MaskedCode WordBits

/-! ## The table -/

/-- The mask of a number has this bit alone. -/
theorem bit_irqMask (id : Fin 32) (k : Nat) : bit (irqMask id) k = decide (id.val = k) := by
  have hmask : (irqMask id).toNat = 2 ^ id.val := by
    revert id
    decide
  rw [bit_eq_testBit, hmask, Nat.testBit_two_pow]

namespace IrqTable

/-- Every entry is that of the latest registration, and the enable register is up to date. -/
structure Consistent (t : IrqTable) : Prop where
  entry : ∀ id, t.entry id = t.registered id
  ienable : t.ienable = t.altIrqActive
  stray : t.stray = false

/-- The table is consistent, and only interrupts with a handler are enabled. -/
structure Handled (t : IrqTable) : Prop extends Consistent t where
  active : ∀ id : Fin 32, bit t.altIrqActive id = true → (t.registered id).isSome

variable {t : IrqTable}

/-- The table after both parts of an entry are written. -/
def store (t : IrqTable) (id : Fin 32) (isr : Option Isr) (isrContext : Nat) : IrqTable :=
  (t.exec (.storeHandler id isr)).exec (.storeContext id isrContext isr)

/-- Writing both parts of an entry leaves it that of the latest registration. -/
theorem Consistent.entry_store (h : t.Consistent) (id : Fin 32) (isr : Option Isr)
    (isrContext : Nat) (id' : Fin 32) :
    (t.store id isr isrContext).entry id' = (t.store id isr isrContext).registered id' := by
  by_cases hid : id' = id
  · subst hid
    simp [store, exec, IrqTable.entry]
  · have hold := h.entry id'
    simpa [store, exec, IrqTable.entry, hid] using hold

/-- The registrations after both parts of an entry are written. -/
theorem registered_store (id : Fin 32) (isr : Option Isr) (isrContext : Nat) (id' : Fin 32) :
    (t.store id isr isrContext).registered id' =
      if id' = id then isr.map fun f => (f, isrContext) else t.registered id' := by
  simp [store, exec, Function.update_apply]

/-- The interrupts that are active after one more is. -/
theorem bit_setActive (id id' : Fin 32) :
    bit (t.altIrqActive ||| irqMask id) id' = true ↔
      bit t.altIrqActive id' = true ∨ id' = id := by
  rw [bit_or, bit_irqMask, Bool.or_eq_true, decide_eq_true_eq, Fin.val_inj, eq_comm (a := id)]

/-- The interrupts that are active after one is no longer. -/
theorem bit_clearActive (id id' : Fin 32) :
    bit (t.altIrqActive &&& ~~~irqMask id) id' = true ↔
      bit t.altIrqActive id' = true ∧ id' ≠ id := by
  rw [bit_and, bit_not _ id'.isLt, bit_irqMask, Bool.and_eq_true, Bool.not_eq_true',
    decide_eq_false_iff_not, Fin.val_inj, eq_comm (a := id)]

/-- Enabling an interrupt. -/
theorem Consistent.enable (h : t.Consistent) (id : Fin 32) :
    ((ops (altIcIrqEnable id)).foldl exec t).Consistent :=
  ⟨h.entry, rfl, h.stray⟩

/-- Disabling an interrupt. -/
theorem Consistent.disable (h : t.Consistent) (id : Fin 32) :
    ((ops (altIcIrqDisable id)).foldl exec t).Consistent :=
  ⟨h.entry, rfl, h.stray⟩

/-- Enabling an interrupt that has a handler. -/
theorem Handled.enable (h : t.Handled) {id : Fin 32} (hid : (t.registered id).isSome) :
    ((ops (altIcIrqEnable id)).foldl exec t).Handled where
  toConsistent := h.toConsistent.enable id
  active id' hbit := by
    rcases bit_setActive id id' |>.mp hbit with hbit | rfl
    · exact h.active id' hbit
    · exact hid

/-- Disabling an interrupt takes no handler from another. -/
theorem Handled.disable (h : t.Handled) (id : Fin 32) :
    ((ops (altIcIrqDisable id)).foldl exec t).Handled where
  toConsistent := h.toConsistent.disable id
  active id' hbit := h.active id' (bit_clearActive id id' |>.mp hbit).1

/-- A registration with a number in the table writes the entry, then enables the interrupt, or
disables it without a handler. -/
theorem ops_register {irq : UInt32} (hlt : irq.toNat < 32) (isr : Option Isr)
    (isrContext : Nat) :
    (ops (altIicIsrRegister irq isr isrContext)).foldl exec t =
      (ops (if isr.isSome then altIcIrqEnable ⟨irq.toNat, hlt⟩
        else altIcIrqDisable ⟨irq.toNat, hlt⟩)).foldl exec
        (t.store ⟨irq.toNat, hlt⟩ isr isrContext) := by
  rw [altIicIsrRegister, dif_pos hlt]
  cases isr <;> rfl

/-- A registration with a number beyond the table, but not a negative one, does nothing. -/
theorem ops_register_of_ge {irq : UInt32} (hirq : irq.toNat < 2147483648)
    (hge : ¬ irq.toNat < 32) (isr : Option Isr) (isrContext : Nat) :
    altIicIsrRegister irq isr isrContext = [] := by
  have hsigned : ¬ irq.toInt32 < 32 := by
    rw [Int32.lt_iff_toInt_lt]
    have hint : irq.toInt32.toInt = irq.toNat :=
      BitVec.toInt_eq_toNat_of_lt (show 2 * irq.toNat < 4294967296 by omega)
    rw [hint]
    change ¬ (irq.toNat : Int) < 32
    omega
  rw [altIicIsrRegister, dif_neg hge, if_neg hsigned]

/-- A registration as a whole leaves the table consistent. -/
theorem Consistent.register (h : t.Consistent) {irq : UInt32} (hirq : irq.toNat < 2147483648)
    (isr : Option Isr) (isrContext : Nat) :
    ((ops (altIicIsrRegister irq isr isrContext)).foldl exec t).Consistent := by
  by_cases hlt : irq.toNat < 32
  · have hstore : (t.store ⟨irq.toNat, hlt⟩ isr isrContext).Consistent :=
      ⟨h.entry_store _ _ _, h.ienable, h.stray⟩
    rw [ops_register hlt]
    cases isr with
    | some f => exact hstore.enable _
    | none => exact hstore.disable _
  · rw [ops_register_of_ge hirq hlt]
    exact h

/-- A registration as a whole leaves every enabled interrupt with a handler. -/
theorem Handled.register (h : t.Handled) {irq : UInt32} (hirq : irq.toNat < 2147483648)
    (isr : Option Isr) (isrContext : Nat) :
    ((ops (altIicIsrRegister irq isr isrContext)).foldl exec t).Handled := by
  refine ⟨h.toConsistent.register hirq isr isrContext, ?_⟩
  by_cases hlt : irq.toNat < 32
  · rw [ops_register hlt]
    intro id' hbit
    cases isr with
    | some f =>
      change ((t.store ⟨irq.toNat, hlt⟩ (some f) isrContext).registered id').isSome
      rw [registered_store]
      by_cases hid : id' = ⟨irq.toNat, hlt⟩
      · rw [if_pos hid]
        rfl
      · rw [if_neg hid]
        exact h.active id' ((bit_setActive _ id' |>.mp hbit).resolve_right hid)
    | none =>
      obtain ⟨hold, hid⟩ := bit_clearActive _ id' |>.mp hbit
      change ((t.store ⟨irq.toNat, hlt⟩ none isrContext).registered id').isSome
      rw [registered_store, if_neg hid]
      exact h.active id' hold
  · rw [ops_register_of_ge hirq hlt]
    exact h.active

end IrqTable

/-! ## The code of the foreground is guarded -/

/-- {lit}`alt_ic_irq_enable` changes the table only while interrupts are disabled. -/
theorem guarded_enable (id : Fin 32) (enabled : Bool) (saved : Nat → Bool) :
    Guarded enabled saved (altIcIrqEnable id) :=
  ⟨rfl, rfl, fun _ => rfl, trivial⟩

/-- {lit}`alt_ic_irq_disable` changes the table only while interrupts are disabled. -/
theorem guarded_disable (id : Fin 32) (enabled : Bool) (saved : Nat → Bool) :
    Guarded enabled saved (altIcIrqDisable id) :=
  ⟨rfl, rfl, fun _ => rfl, trivial⟩

/-- {lit}`alt_iic_isr_register` changes the table only while interrupts are disabled: the section
within it does not end its own. -/
theorem guarded_register (irq : UInt32) (isr : Option Isr) (isrContext : Nat)
    (enabled : Bool) (saved : Nat → Bool) :
    Guarded enabled saved (altIicIsrRegister irq isr isrContext) := by
  rw [altIicIsrRegister]
  split
  · cases isr
    all_goals
      refine ⟨rfl, rfl, rfl, rfl, ?_, fun _ => rfl, trivial⟩
      rintro ⟨⟩
  · split
    · exact ⟨rfl, fun _ => rfl, trivial⟩
    · trivial

/-! ## The system -/

/-- A handler is called for the lowest number in the bit list, which is still pending, and as
it was registered. -/
structure HandlerCall.Right (c : HandlerCall) : Prop where
  lt : c.id < 32
  found : bit c.active c.id = true
  lowest : ∀ j < c.id, bit c.active j = false
  pending : bit c.pending c.id = true
  registered : c.entry = c.registered

/-- The call is made with this table, for the lowest number in the bit list. -/
structure HandlerCall.From (c : HandlerCall) (t : IrqTable) : Prop where
  lt : c.id < 32
  found : bit c.active c.id = true
  lowest : ∀ j < c.id, bit c.active j = false
  pending : bit c.pending c.id = true
  enabled : bit t.ienable c.id = true
  entry : c.entry = t.entry ⟨c.id, lt⟩
  registered : c.registered = t.registered ⟨c.id, lt⟩

variable {c : HandlerCall} {t : IrqTable}

/-- With a consistent table the call is as it was registered. -/
theorem HandlerCall.From.right (h : c.From t) (ht : t.Consistent) : c.Right where
  lt := h.lt
  found := h.found
  lowest := h.lowest
  pending := h.pending
  registered := by rw [h.entry, h.registered, ht.entry]

/-- The handler is no null pointer when every enabled interrupt has one. -/
theorem HandlerCall.From.isSome (h : c.From t) (ht : t.Handled) : c.entry.isSome := by
  rw [h.entry, ht.entry]
  apply ht.active ⟨c.id, h.lt⟩
  rw [← ht.ienable]
  exact h.enabled

namespace Interrupts

variable {s : Interrupts} {P : IrqTable → Prop}

/-- The foreground as it goes on when the exception code has returned. -/
def background (s : Interrupts) : Thread IrqTable IrqOp :=
  if s.pc = .none then s.thread else { s.thread with enabled := s.estatus }

/-- Outside the exception code the foreground is running. -/
theorem background_of_none (hpc : s.pc = .none) : s.background = s.thread := if_pos hpc

/-- In the exception code the status register of the foreground is in {lit}`estatus`. -/
theorem background_of_ne (hpc : s.pc ≠ .none) :
    s.background = { s.thread with enabled := s.estatus } := if_neg hpc

/-- An exception leaves the foreground as it is. -/
theorem background_take (hpc : s.pc = .none) (cause : Cause) :
    (s.take cause).background = s.background := by
  rw [background_of_none hpc, background_of_ne (s := s.take cause) (by simp [take])]
  rfl

/-- The return restores the foreground. -/
theorem background_exceptionExit (hpc : s.pc ≠ .none) :
    s.exceptionExit.background = s.background := by
  rw [background_of_ne hpc, background_of_none (s := s.exceptionExit) rfl]
  rfl

/-- A step within the exception code leaves the foreground as it is. -/
theorem background_pc (hpc : s.pc ≠ .none) {pc : IrqPc} (hpc' : pc ≠ .none)
    (calls : List HandlerCall) :
    background { s with pc, calls } = s.background := by
  rw [background_of_ne hpc, background_of_ne (s := { s with pc, calls }) hpc']

/-- What holds at each place of the exception code. -/
def AtPc (s : Interrupts) : IrqPc → Prop
  | .none | .entry .unimplemented => True
  | .entry .interrupt | .first => s.estatus = true ∧ s.ipending ≠ 0
  | .scan active i =>
      s.estatus = true ∧ active ≠ 0 ∧ (∀ j < i, bit active j = false) ∧
        ∀ j, bit active j = true → bit s.ipending j = true
  | .handler _ | .again => s.estatus = true
  | .notIrq cause => cause ≠ .interrupt

/-- The exception code is on its way to a handler, and the table has the property whenever a
handler is called. -/
structure Dispatches (P : IrqTable → Prop) (s : Interrupts) : Prop where
  keeps : MaskedCode.Keeps IrqTable.exec P s.background
  pc : s.AtPc s.pc
  calls : ∀ c ∈ s.calls, ∃ t, P t ∧ c.From t

theorem consistent_init : init.thread.data.Consistent :=
  ⟨fun _ => rfl, rfl, rfl⟩

theorem handled_init : init.thread.data.Handled :=
  ⟨consistent_init, fun id hbit => by simp [init, bit] at hbit⟩

/-- Nothing is registered or enabled at first. -/
theorem dispatches_init (hinit : P init.thread.data) : Dispatches P init where
  keeps := ⟨trivial, hinit, fun _ => hinit⟩
  pc := trivial
  calls := by simp [init]

/-- The loop over the bits of a list that is not empty ends in time. -/
theorem lt_of_scanning {active : UInt32} {i : Nat} (hactive : active ≠ 0)
    (hlow : ∀ j < i, bit active j = false) : i < 32 := by
  by_contra hle
  apply hactive
  apply eq_of_bits
  intro j hj
  rw [hlow j (by omega)]
  simp [bit]

/-- A call of the foreground. -/
theorem Dispatches.call (h : Dispatches P s) {code : List (Instr IrqOp)}
    (hguarded : ∀ enabled saved, Guarded enabled saved code)
    (hcode : P s.thread.data → P ((ops code).foldl IrqTable.exec s.thread.data)) :
    Dispatches P (s.call code) := by
  rw [Interrupts.call]
  split
  · next hidle =>
    have hkeeps := h.keeps
    rw [background_of_none hidle.1] at hkeeps
    refine ⟨?_, ?_, h.calls⟩
    · rw [background_of_none (s := { s with thread := { s.thread with code } }) hidle.1]
      exact hkeeps.load hidle.2 (hguarded _ _) hcode
    · change AtPc _ s.pc
      rw [hidle.1]
      trivial
  · exact h

/-- An instruction of the foreground. -/
theorem Dispatches.foreground (h : Dispatches P s) : Dispatches P (s.step .foreground) := by
  rw [step]
  split
  · next hnone =>
    have hkeeps := h.keeps
    rw [background_of_none hnone] at hkeeps
    refine ⟨?_, ?_, h.calls⟩
    · rw [background_of_none
        (s := { s with thread := MaskedCode.step IrqTable.exec s.thread }) hnone]
      exact hkeeps.step
    · change AtPc _ s.pc
      rw [hnone]
      trivial
  · exact h

/-- A further request leaves what is pending. -/
theorem bit_ipending_request (id : Fin 32) {j : Nat} (hbit : bit s.ipending j = true) :
    bit (s.step (.request id)).ipending j = true := by
  have hboth : bit s.requests j = true ∧ bit s.thread.data.ienable j = true := by
    simpa [ipending] using hbit
  simp [step, ipending, hboth.1, hboth.2]

/-- After a further request something is still pending. -/
theorem ipending_request_ne (id : Fin 32) (hne : s.ipending ≠ 0) :
    (s.step (.request id)).ipending ≠ 0 := by
  intro hzero
  apply hne
  apply eq_of_bits
  intro j _
  cases hbit : bit s.ipending j with
  | false => simp [bit]
  | true =>
    have hnext := bit_ipending_request id hbit
    rw [hzero] at hnext
    exact hnext.symm

/-- A request of a device: only two places look at what is pending, and it only grows. -/
theorem Dispatches.request (h : Dispatches P s) (id : Fin 32) :
    Dispatches P (s.step (.request id)) := by
  refine ⟨h.keeps, ?_, h.calls⟩
  have hpc := h.pc
  change AtPc _ s.pc
  cases hs : s.pc with
  | none => trivial
  | entry cause =>
    rw [hs] at hpc
    cases cause with
    | interrupt => exact ⟨hpc.1, ipending_request_ne id hpc.2⟩
    | unimplemented => trivial
  | first =>
    rw [hs] at hpc
    exact ⟨hpc.1, ipending_request_ne id hpc.2⟩
  | scan active i =>
    rw [hs] at hpc
    obtain ⟨hestatus, hactive, hlow, hpending⟩ := hpc
    exact ⟨hestatus, hactive, hlow, fun j hbit => bit_ipending_request id (hpending j hbit)⟩
  | handler i =>
    rw [hs] at hpc
    exact hpc
  | again =>
    rw [hs] at hpc
    exact hpc
  | notIrq cause =>
    rw [hs] at hpc
    exact hpc

/-- A request that is withdrawn because the device has been served. -/
theorem Dispatches.withdraw (h : Dispatches P s) {id : Fin 32} (hserving : s.Serving) :
    Dispatches P (s.step (.withdraw id)) := by
  refine ⟨h.keeps, ?_, h.calls⟩
  have hpc := h.pc
  change AtPc _ s.pc
  rcases hserving with hs | ⟨i, hs⟩
  · rw [hs]
    trivial
  · rw [hs] at hpc ⊢
    exact hpc

/-- An interrupt that is taken. -/
theorem Dispatches.interrupt (h : Dispatches P s) : Dispatches P (s.step .interrupt) := by
  rw [step]
  split
  · next htaken =>
    refine ⟨?_, htaken.2, h.calls⟩
    rw [background_take htaken.1]
    exact h.keeps
  · exact h

/-- An exception for an instruction that the processor does not have. -/
theorem Dispatches.unimplemented (h : Dispatches P s) :
    Dispatches P (s.step .unimplemented) := by
  rw [step]
  split
  · next hnone =>
    refine ⟨?_, trivial, h.calls⟩
    rw [background_take hnone]
    exact h.keeps
  · exact h

/-- The list read from the interrupt controller. -/
theorem atPc_scan (hestatus : s.estatus = true) (hpending : s.ipending ≠ 0) :
    s.AtPc (.scan s.ipending 0) :=
  ⟨hestatus, hpending, fun _ hj => absurd hj (Nat.not_lt_zero _), fun _ hbit => hbit⟩

/-- The table has the property while interrupts are served: the foreground is outside its
sections. -/
theorem Dispatches.now (h : Dispatches P s) (hpc : s.pc ≠ .none) (hestatus : s.estatus = true) :
    P s.thread.data := by
  have hkeeps := h.keeps
  rw [background_of_ne hpc] at hkeeps
  exact hkeeps.now hestatus

/-- The call that the inner loop makes. -/
theorem from_of_scanning {active : UInt32} {i : Nat} (hpc : s.AtPc (.scan active i))
    (hbit : bit active i = true) :
    HandlerCall.From
      { id := i
        entry := if h : i < 32 then s.thread.data.entry ⟨i, h⟩ else none
        active
        pending := s.ipending
        registered := if h : i < 32 then s.thread.data.registered ⟨i, h⟩ else none }
      s.thread.data := by
  obtain ⟨hestatus, hactive, hlow, hpending⟩ := hpc
  have hlt : i < 32 := lt_of_scanning hactive hlow
  have hand : bit s.requests i = true ∧ bit s.thread.data.ienable i = true := by
    simpa [ipending] using hpending i hbit
  exact
    { lt := hlt
      found := hbit
      lowest := hlow
      pending := hpending i hbit
      enabled := hand.2
      entry := dif_pos hlt
      registered := dif_pos hlt }

/-- A turn of the inner loop. -/
theorem Dispatches.scan (h : Dispatches P s) {active : UInt32} {i : Nat}
    (hs : s.pc = .scan active i) : Dispatches P (s.scanStep active i) := by
  have hpc := h.pc
  have hne : s.pc ≠ .none := by simp [hs]
  rw [hs] at hpc
  rw [scanStep]
  split
  · next hbit =>
    refine ⟨?_, hpc.1, fun c hc => ?_⟩
    · rw [background_pc hne (by simp)]
      exact h.keeps
    · rcases List.mem_append.mp hc with hold | hnew
      · exact h.calls c hold
      · rw [List.mem_singleton.mp hnew]
        exact ⟨s.thread.data, h.now hne hpc.1, from_of_scanning hpc hbit⟩
  · next hbit =>
    obtain ⟨hestatus, hactive, hlow, hpending⟩ := hpc
    refine ⟨?_, ⟨hestatus, hactive, fun j hj => ?_, hpending⟩, h.calls⟩
    · rw [background_pc hne (by simp)]
      exact h.keeps
    · rcases Nat.lt_succ_iff_lt_or_eq.mp hj with hlt | rfl
      · exact hlow j hlt
      · exact Bool.not_eq_true _ |>.mp hbit

/-- A step within the exception code that calls no handler. -/
theorem Dispatches.goto (h : Dispatches P s) (hs : s.pc ≠ .none) {pc : IrqPc}
    (hne : pc ≠ .none) (hpc : s.AtPc pc) : Dispatches P { s with pc } where
  keeps := by
    rw [background_pc hs hne]
    exact h.keeps
  pc := hpc
  calls := h.calls

/-- The return from the exception code. -/
theorem Dispatches.exceptionExit (h : Dispatches P s) (hs : s.pc ≠ .none) :
    Dispatches P s.exceptionExit where
  keeps := by
    rw [background_exceptionExit hs]
    exact h.keeps
  pc := trivial
  calls := h.calls

/-- The next step of the exception code. -/
theorem Dispatches.serve (h : Dispatches P s) : Dispatches P s.serveStep := by
  have hpc := h.pc
  rw [serveStep]
  cases hs : s.pc with
  | none => exact h
  | entry cause =>
    rw [hs] at hpc
    dsimp only
    by_cases htest : s.estatus = false ∨ s.ipending = 0
    · rw [if_pos htest]
      refine h.goto (by simp [hs]) (by simp) ?_
      cases cause with
      | interrupt =>
        -- The test has not changed since the processor made it.
        rcases htest with hestatus | hzero
        · exact absurd (hestatus.symm.trans hpc.1) Bool.false_ne_true
        · exact absurd hzero hpc.2
      | unimplemented => exact Cause.noConfusion
    · rw [if_neg htest]
      exact h.goto (by simp [hs]) (by simp)
        ⟨Bool.not_eq_false _ |>.mp (not_or.mp htest).1, (not_or.mp htest).2⟩
  | first =>
    rw [hs] at hpc
    exact h.goto (by simp [hs]) (by simp) (atPc_scan hpc.1 hpc.2)
  | scan active i => exact h.scan hs
  | handler i =>
    rw [hs] at hpc
    exact h.goto (by simp [hs]) (by simp) hpc
  | again =>
    rw [hs] at hpc
    dsimp only
    by_cases hzero : s.ipending = 0
    · rw [if_pos hzero]
      exact h.exceptionExit (by simp [hs])
    · rw [if_neg hzero]
      exact h.goto (by simp [hs]) (by simp) (atPc_scan hpc hzero)
  | notIrq cause => exact h.exceptionExit (by simp [hs])

/-- The functions that the foreground calls leave the property of the table. -/
def Leaves (P : IrqTable → Prop) (t : IrqTable) : IrqAction → Prop
  | .register irq isr isrContext =>
      P t → P ((ops (altIicIsrRegister irq isr isrContext)).foldl IrqTable.exec t)
  | .enable id => P t → P ((ops (altIcIrqEnable id)).foldl IrqTable.exec t)
  | .disable id => P t → P ((ops (altIcIrqDisable id)).foldl IrqTable.exec t)
  | _ => True

/-- Every action keeps the exception code on its way to a handler. -/
theorem dispatch_step (h : Dispatches P s) {act : IrqAction} (hact : s.Allowed act)
    (hleaves : Leaves P s.thread.data act) : Dispatches P (s.step act) := by
  cases act with
  | register irq isr isrContext => exact h.call (guarded_register irq isr isrContext) hleaves
  | enable id => exact h.call (guarded_enable id) hleaves
  | disable id => exact h.call (guarded_disable id) hleaves
  | foreground => exact h.foreground
  | request id => exact h.request id
  | withdraw id => exact h.withdraw hact
  | interrupt => exact h.interrupt
  | unimplemented => exact h.unimplemented
  | serve => exact h.serve

/-- An allowed call leaves the table consistent. -/
theorem leaves_consistent {act : IrqAction} (hact : s.Allowed act) :
    Leaves IrqTable.Consistent s.thread.data act := by
  cases act with
  | register irq isr isrContext => exact fun ht => ht.register hact isr isrContext
  | enable id => exact fun ht => ht.enable id
  | disable id => exact fun ht => ht.disable id
  | _ => trivial

/-- An allowed call that enables only what has a handler leaves it so. -/
theorem leaves_handled {act : IrqAction} (hact : s.Allowed act) (henables : s.EnablesHandled act) :
    Leaves IrqTable.Handled s.thread.data act := by
  cases act with
  | register irq isr isrContext => exact fun ht => ht.register hact isr isrContext
  | enable id => exact fun ht => ht.enable henables
  | disable id => exact fun ht => ht.disable id
  | _ => trivial

end Interrupts

open Interrupts

/-- However the instructions of registrations, requests of devices, interrupts and other
exceptions follow one another, every handler is called outside the sections of the foreground,
for the lowest pending number and with the context it was registered with, and it is no null
pointer if no interrupt is enabled without a handler. -/
theorem dispatch_run {acts : List IrqAction}
    (hacts : StepSystem.Meets Interrupts.step Allowed init acts) :
    (∀ c ∈ (init.run acts).calls, c.Right) ∧
      (StepSystem.Meets Interrupts.step EnablesHandled init acts →
        ∀ c ∈ (init.run acts).calls, c.entry.isSome) ∧
      (∀ active i, (init.run acts).pc = .scan active i → i < 32) ∧
      (∀ i, (init.run acts).pc = .handler i → (init.run acts).estatus = true) ∧
      (init.run acts).pc ≠ .notIrq .interrupt ∧
      ((init.run acts).thread.code = [] → (init.run acts).thread.data.Consistent) := by
  have h : Dispatches IrqTable.Consistent (init.run acts) :=
    StepSystem.run_invariant_of_meets (P := Dispatches IrqTable.Consistent)
      (fun _ _ h hact => dispatch_step h hact (leaves_consistent hact))
      (dispatches_init consistent_init) hacts
  have hpc := h.pc
  refine ⟨fun c hc => ?_, fun henables c hc => ?_, fun active i hs => ?_, fun i hs => ?_,
    fun hs => ?_, fun hidle => ?_⟩
  · obtain ⟨t, ht, hfrom⟩ := h.calls c hc
    exact hfrom.right ht
  · have hhandled : Dispatches IrqTable.Handled (init.run acts) :=
      StepSystem.run_invariant_of_meets (P := Dispatches IrqTable.Handled)
        (fun _ _ h hact => dispatch_step h hact.1 (leaves_handled hact.1 hact.2))
        (dispatches_init handled_init) (StepSystem.meets_and hacts henables)
    obtain ⟨t, ht, hfrom⟩ := hhandled.calls c hc
    exact hfrom.isSome ht
  · rw [hs] at hpc
    exact lt_of_scanning hpc.2.1 hpc.2.2.1
  · rw [hs] at hpc
    exact hpc
  · rw [hs] at hpc
    exact hpc rfl
  · have hdata := h.keeps.holds_of_idle
    rw [background] at hdata
    split at hdata
    · exact hdata hidle
    · exact hdata hidle

/-- A request that is already there when its handler is registered: within the registration an
instruction is emulated, and the interrupt is taken after the last instruction of the
registration, and no sooner. -/
theorem dispatch_run_registers :
    let acts : List IrqAction :=
      [.request 3, .register 3 (some 7) 5] ++
        (List.replicate 10 [.interrupt, .unimplemented, .serve, .serve, .foreground]).flatten ++
        [.interrupt] ++ List.replicate 6 .serve ++ [.withdraw 3, .serve, .serve]
    ((init.run acts).calls.map fun c => (c.id, c.entry)) = [(3, some (7, 5))] ∧
      (init.run acts).pc = .none ∧ (∀ c ∈ (init.run acts).calls, c.Right) ∧
      ∀ c ∈ (init.run acts).calls, c.entry.isSome := by
  intro acts
  obtain ⟨hright, hhandlers, -⟩ := @dispatch_run acts (by decide +kernel)
  exact ⟨by decide +kernel, by decide +kernel, hright, hhandlers (by decide +kernel)⟩

end Hal
end RadonMCU
