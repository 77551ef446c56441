import RadonMCU.Equinios.Calls

/-!
# What one step of a context does

A step of a context queues a line, pops a chunk, prints a byte, or leaves the line
queue and the output as they are.

Main results:

- Theorem {lit}`quiet_advance`: all steps but those three are quiet.
- Theorem {lit}`not_inProcess_advance`: a context enters {lit}`log_process` by a
  call only.
- Theorems {lit}`taken_popChunk` and {lit}`stdout_putchar`: what the loop of
  {lit}`process` takes and prints.
-/

namespace RadonMCU
namespace Equinios

open Segments LineQueue

namespace Pc

/-- The bytes of the local chunk that are still to be printed. -/
def unprinted : Pc → List UInt8
  | .putchar byte rest => byte :: rest
  | _ => []

/-- The context is inside {lit}`log_process`. -/
def InProcess : Pc → Prop
  | .getInstance .logProcess | .shouldProcess | .popChunk | .putchar _ _ => True
  | _ => False

/-- The context is in the do-while loop of {lit}`process`. -/
def InLoop : Pc → Prop
  | .popChunk | .putchar _ _ => True
  | _ => False

/-- The next step neither queues a line nor pops or prints. -/
def IsQuiet : Pc → Prop
  | .enqueueLine _ _ | .popChunk | .putchar _ _ => False
  | _ => True

/-- The kinds of steps: quiet ones, queueing, popping and printing. -/
inductive Kind (pc : Pc) : Prop
  | quiet (hquiet : pc.IsQuiet)
  | enqueueLine (timestamp : UInt32) (message : CString) (hpc : pc = .enqueueLine timestamp message)
  | popChunk (hpc : pc = .popChunk)
  | putchar (byte : UInt8) (rest : List UInt8) (hpc : pc = .putchar byte rest)

/-- Every place is of one of these kinds. -/
theorem kind (pc : Pc) : pc.Kind := by
  cases pc with
  | enqueueLine timestamp message => exact .enqueueLine timestamp message rfl
  | popChunk => exact .popChunk rfl
  | putchar byte rest => exact .putchar byte rest rfl
  | _ => exact .quiet trivial

/-- The chunk that is about to be printed. -/
@[simp] theorem unprinted_printing (chunk : List UInt8) : (printing chunk).unprinted = chunk := by
  cases chunk <;> rfl

/-- What is left of the chunk after a byte. -/
@[simp] theorem unprinted_afterPutchar (rest : List UInt8) :
    (afterPutchar rest).unprinted = rest := by
  cases rest <;> rfl

theorem InLoop.inProcess {pc : Pc} (h : pc.InLoop) : pc.InProcess := by
  cases pc <;> trivial

/-- Outside the loop of a flush nothing is unprinted. -/
theorem unprinted_of_not_inLoop {pc : Pc} (h : ¬ pc.InLoop) : pc.unprinted = [] := by
  cases pc with
  | putchar byte rest => exact absurd trivial h
  | _ => rfl

theorem IsQuiet.not_inLoop {pc : Pc} (h : pc.IsQuiet) : ¬ pc.InLoop := by
  cases pc with
  | popChunk | putchar => exact h.elim
  | _ => exact id

/-- A context leaves the loop only with nothing to print. -/
theorem inLoop_afterPutchar (rest : List UInt8) : (afterPutchar rest).InLoop := by
  cases rest <;> trivial

theorem chunk_eq_nil_of_not_inLoop {chunk : List UInt8} (h : ¬ (printing chunk).InLoop) :
    chunk = [] := by
  cases chunk with
  | nil => rfl
  | cons byte rest => exact absurd trivial h

/-- All steps but queueing, popping and printing are quiet. -/
theorem quiet_advance {c : ContextId} {m : Machine} (h : m.Sound) {pc : Pc}
    (hquiet : pc.IsQuiet) :
    Machine.Quiet m (pc.advance c m).2 ∧ (pc.advance c m).1.unprinted = [] := by
  cases pc with
  | enqueueLine | popChunk | putchar => exact hquiet.elim
  | idle => exact ⟨Machine.Quiet.refl m, rfl⟩
  | getInstance call =>
    refine ⟨h.quiet_loggerEnsureInitialized, ?_⟩
    cases call <;> rfl
  | setTimestampProviderInit | logVwriteInit =>
    exact ⟨h.quiet_loggerEnsureInitialized, rfl⟩
  | setLogLevel | setProcessEveryNCalls | setTimestampProvider =>
    exact ⟨Machine.quiet_of_hist rfl rfl, rfl⟩
  | getDroppedLines => exact ⟨Machine.quiet_getDroppedLines m c, rfl⟩
  | resetDroppedLines => exact ⟨Machine.quiet_resetDroppedLines m c, rfl⟩
  | checkLevel level formatted answer =>
    refine ⟨Machine.Quiet.refl m, ?_⟩
    rw [advance]
    by_cases hfilter : m.logger.filters level = true
    · rw [if_pos hfilter]
      rfl
    · rw [if_neg hfilter]
      rfl
  | getTimestamp level message answer =>
    exact ⟨Machine.quiet_getTimestamp m c answer, rfl⟩
  | shouldProcess =>
    refine ⟨Machine.quiet_shouldProcess m c, ?_⟩
    rw [advance]
    cases (m.shouldProcess c).1 <;> rfl

/-- A context enters {lit}`log_process` by a call only. -/
theorem not_inProcess_advance {c : ContextId} {m : Machine} {pc : Pc} (h : ¬ pc.InProcess) :
    ¬ (pc.advance c m).1.InProcess := by
  cases pc with
  | shouldProcess | popChunk | putchar => exact absurd trivial h
  | getInstance call =>
    cases call with
    | logProcess => exact absurd trivial h
    | _ => exact id
  | checkLevel level formatted answer =>
    rw [advance]
    by_cases hfilter : m.logger.filters level = true
    · rw [if_pos hfilter]
      exact id
    · rw [if_neg hfilter]
      exact id
  | _ => exact id

end Pc

namespace Machine

/-- Popping a chunk takes it and prints nothing. -/
theorem taken_popChunk {m : Machine} (h : m.Sound) (c : ContextId) :
    (m.popChunk c).2.ledger = m.ledger.take 32 ∧
      takenItems (m.popChunk c).2.ledger.removals =
        takenItems m.ledger.removals ++ (m.popChunk c).1 ∧
      stdoutOf (m.popChunk c).2.hist = stdoutOf m.hist ∧
      acceptedOf (m.popChunk c).2.hist = acceptedOf m.hist := by
  have hledger := ledger_popChunk h c
  refine ⟨hledger, ?_, ?_, ?_⟩
  · rw [hledger, takenItems_take, popChunk_fst h c]
    rfl
  · simp [popChunk, stdoutOf, Event.byte?]
  · simp [popChunk, acceptedOf, Event.accepted?]

/-- Printing a byte changes the output only. -/
theorem stdout_putchar (m : Machine) (c : ContextId) (byte : UInt8) :
    (m.putchar c byte).ledger = m.ledger ∧
      stdoutOf (m.putchar c byte).hist = stdoutOf m.hist ++ [byte] ∧
      acceptedOf (m.putchar c byte).hist = acceptedOf m.hist := by
  refine ⟨?_, ?_, ?_⟩
  · refine ledger_of_quiet rfl rfl ?_
    intro entry hentry
    rw [List.mem_singleton.mp hentry]
    exact ⟨rfl, rfl⟩
  · simp [putchar, stdoutOf, Event.byte?]
  · simp [putchar, acceptedOf, Event.accepted?]

end Machine

/-! ## What an action does -/

/-- The start of a call leaves every local chunk. -/
theorem System.unprinted_step_call (s : System) (c : ContextId) (call : ApiCall)
    (c' : ContextId) : ((s.step (.call c call)).pc c').unprinted = (s.pc c').unprinted := by
  by_cases hidle : s.pc c = .idle
  · rw [step_call_of_idle hidle]
    by_cases hself : c' = c
    · rw [hself, hidle]
      simp [Pc.unprinted]
    · simp only [Function.update_of_ne hself]
  · rw [step_call_of_busy hidle]

/-- A quiet step leaves every local chunk. -/
theorem System.unprinted_step_quiet {s : System} (hsound : s.machine.Sound) {c : ContextId}
    (hquiet : (s.pc c).IsQuiet) (c' : ContextId) :
    ((s.step (.step c)).pc c').unprinted = (s.pc c').unprinted := by
  by_cases hself : c' = c
  · rw [hself, step_step_pc_self, (Pc.quiet_advance hsound hquiet).2,
      Pc.unprinted_of_not_inLoop hquiet.not_inLoop]
  · rw [step_step_pc_of_ne s hself]

/-- The context that enters {lit}`log_process`. -/
def Action.processCaller : Action → Option ContextId
  | .call c .logProcess => some c
  | _ => none

/-- The line that an action queues. -/
def System.queuedBy (s : System) : Action → Option Accepted
  | .step c =>
      match s.pc c with
      | .enqueueLine timestamp message => some { timestamp, message }
      | _ => none
  | .call _ _ => none

/-- The step that queues a line. -/
theorem System.queuedBy_of_enqueueLine {s : System} {c : ContextId} {timestamp : UInt32}
    {message : CString} (hpc : s.pc c = .enqueueLine timestamp message) :
    s.queuedBy (.step c) = some { timestamp, message } := by
  simp [queuedBy, hpc]

/-- A line is queued only by such a step. -/
theorem System.queuedBy_eq_some {s : System} {a : Action} {line : Accepted}
    (h : s.queuedBy a = some line) :
    ∃ c, a = .step c ∧ s.pc c = .enqueueLine line.timestamp line.message := by
  cases a with
  | call c call => contradiction
  | step c =>
    refine ⟨c, rfl, ?_⟩
    simp only [queuedBy] at h
    split at h
    · rename_i hpc
      cases h
      exact hpc
    · contradiction

/-- A quiet step queues no line. -/
theorem System.queuedBy_of_isQuiet {s : System} {c : ContextId} (h : (s.pc c).IsQuiet) :
    s.queuedBy (.step c) = none := by
  cases hpc : s.pc c with
  | enqueueLine =>
    rw [hpc] at h
    exact h.elim
  | _ => simp [queuedBy, hpc]

/-! ## The drop counter -/

/-- The context is inside {lit}`log_reset_dropped_lines`. -/
def Pc.InReset : Pc → Prop
  | .getInstance .logResetDroppedLines | .resetDroppedLines => True
  | _ => False

/-- A context enters {lit}`log_reset_dropped_lines` by a call only. -/
theorem Pc.not_inReset_advance {c : ContextId} {m : Machine} {pc : Pc} (h : ¬ pc.InReset) :
    ¬ (pc.advance c m).1.InReset := by
  cases pc with
  | resetDroppedLines => exact absurd trivial h
  | getInstance call =>
    cases call with
    | logResetDroppedLines => exact absurd trivial h
    | _ => exact id
  | checkLevel level formatted answer =>
    rw [advance]
    cases m.logger.filters level <;> exact id
  | shouldProcess =>
    rw [advance]
    cases (m.shouldProcess c).1 <;> exact id
  | popChunk =>
    rw [advance]
    simp only
    cases (m.popChunk c).1 <;> exact id
  | putchar byte rest =>
    rw [advance]
    cases rest <;> exact id
  | _ => exact id

/-- How many blocks the line that an action queues evicts. -/
def System.evictionsBy (s : System) (a : Action) : Nat :=
  match s.queuedBy a with
  | some line => s.machine.ledger.evictions newline 128 line.stored.length
  | none => 0

/-- The begin of a call evicts nothing. -/
theorem System.evictionsBy_call (s : System) (c : ContextId) (call : ApiCall) :
    s.evictionsBy (.call c call) = 0 := rfl

/-- A step that queues a line evicts what the line needs. -/
theorem System.evictionsBy_of_enqueueLine {s : System} {c : ContextId} {timestamp : UInt32}
    {message : CString} (hpc : s.pc c = .enqueueLine timestamp message) :
    s.evictionsBy (.step c) =
      s.machine.ledger.evictions newline 128 (storedLine timestamp message).length := by
  rw [evictionsBy, queuedBy_of_enqueueLine hpc]
  rfl

/-- A quiet step evicts nothing. -/
theorem System.evictionsBy_of_quiet {s : System} {c : ContextId} (h : (s.pc c).IsQuiet) :
    s.evictionsBy (.step c) = 0 := by
  rw [evictionsBy, queuedBy_of_isQuiet h]

/-- An action evicts nothing exactly when the line it queues fits. -/
theorem System.evictionsBy_eq_zero_iff {s : System} (h : s.machine.Sound) (a : Action) :
    s.evictionsBy a = 0 ↔ ∀ line ∈ s.queuedBy a,
      s.machine.logger.queued.length + line.stored.length ≤ 128 := by
  unfold evictionsBy
  cases hqueued : s.queuedBy a with
  | none => simp
  | some line =>
    have hlength : line.stored.length ≤ 128 := storedLine_length_le _ _
    have hzero := EquiniosLogger.evictions_eq_zero_iff h.wellFormed hlength
    constructor
    · rintro hnone line' hline
      cases hline
      exact (EquiniosLogger.room_iff hlength).mp (hzero.mp hnone)
    · intro hfits
      exact hzero.mpr ((EquiniosLogger.room_iff hlength).mpr (hfits line rfl))

/-- A quiet step that does not clear the counter leaves it. -/
theorem Pc.droppedLines_advance {c : ContextId} {m : Machine} {pc : Pc} (hquiet : pc.IsQuiet)
    (hreset : pc ≠ .resetDroppedLines) :
    (pc.advance c m).2.logger.droppedLines = m.logger.droppedLines := by
  cases pc with
  | enqueueLine | popChunk | putchar => exact hquiet.elim
  | resetDroppedLines => exact absurd rfl hreset
  | getInstance | setTimestampProviderInit | logVwriteInit =>
    exact Machine.droppedLines_loggerEnsureInitialized m
  | _ => rfl

/-- A step of a context discards the blocks that its line evicts. -/
theorem System.dropsOf_step {s : System} (h : s.machine.Sound) (a : Action) :
    dropsOf (s.step a).machine.hist = dropsOf s.machine.hist + s.evictionsBy a := by
  cases a with
  | call c call =>
    rw [step_call_machine]
    rfl
  | step c =>
    rw [step_step_machine]
    cases (s.pc c).kind with
    | quiet hquiet =>
      have hledger := (Pc.quiet_advance (c := c) h hquiet).1.ledger
      rw [evictionsBy_of_quiet hquiet]
      exact congrArg (fun ledger => (discardedBlocks ledger.removals).length) hledger
    | enqueueLine timestamp message hpc =>
      have hledger := Machine.ledger_enqueueLine h c timestamp message
      have hdrops := congrArg (fun ledger => (discardedBlocks ledger.removals).length) hledger
      simp only [Ledger.offer, discardedBlocks_append, discardedBlocks_discards,
        List.length_append, takeSegments_length] at hdrops
      rw [evictionsBy_of_enqueueLine hpc, hpc]
      exact hdrops
    | popChunk hpc =>
      have hledger := (Machine.taken_popChunk h c).1
      have hdrops := congrArg (fun ledger => (discardedBlocks ledger.removals).length) hledger
      simp only [Ledger.take, discardedBlocks_append, List.length_append] at hdrops
      simp only [evictionsBy, queuedBy, hpc]
      exact hdrops
    | putchar byte rest hpc =>
      have hledger := (Machine.stdout_putchar s.machine c byte).1
      simp only [evictionsBy, queuedBy, hpc]
      exact congrArg (fun ledger => (discardedBlocks ledger.removals).length) hledger

/-- A step that does not clear the counter adds the blocks that its line evicts. -/
theorem System.droppedLines_step {s : System} (h : s.machine.Sound) {a : Action}
    (hreset : ∀ c, a = .step c → s.pc c ≠ .resetDroppedLines) :
    (s.step a).machine.logger.droppedLines =
      s.machine.logger.droppedLines + UInt32.ofNat (s.evictionsBy a) := by
  cases a with
  | call c call =>
    rw [step_call_machine, evictionsBy_call]
    simp
  | step c =>
    rw [step_step_machine]
    cases (s.pc c).kind with
    | quiet hquiet =>
      rw [Pc.droppedLines_advance hquiet (hreset c rfl), evictionsBy_of_quiet hquiet]
      simp
    | enqueueLine timestamp message hpc =>
      rw [evictionsBy_of_enqueueLine hpc, hpc]
      exact (Machine.droppedLines_enqueueLine h c timestamp message).1
    | popChunk hpc =>
      have hlogger := Machine.popChunk_logger h c
      simp only [evictionsBy, queuedBy, hpc, Pc.advance]
      rw [hlogger]
      simp
    | putchar byte rest hpc =>
      simp [evictionsBy, queuedBy, hpc, Pc.advance, Machine.putchar]

end Equinios
end RadonMCU
