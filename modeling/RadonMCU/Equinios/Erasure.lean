import RadonMCU.Equinios.Calls
import RadonMCU.Equinios.Locked

/-!
# The logger without its lock

A call with the status word and the log of accesses, whose timestamp function does not
call back, does to the logger and to the output what the uninterrupted call of the
machine does: the machine is the locked logger with its lock erased.

Main results:

- Theorem {lit}`computes_logVwrite`: {lit}`log_vwrite` computes that of the machine.
- Theorem {lit}`erases_processLoop`: the do-while loop computes that of the machine.
- Theorems {lit}`erases_run` and {lit}`erases_runCalls`: every call and every run of
  calls computes that of the machine.
-/

namespace RadonMCU
namespace Equinios
namespace Locked

open Guarded

section Computes

variable {α β : Type}

/-- A result without an access. -/
theorem computes_pure (a : α) : Computes (pure a) fun this => (a, this) := fun _ => ⟨rfl, rfl⟩

/-- A read computes the value of the member. -/
theorem computes_read (field : Field) : Computes (read field) fun this => (field.get this, this) :=
  fun _ => ⟨rfl, rfl⟩

/-- A write computes the logger with the new value. -/
theorem computes_write (field : Field) (value : field.Value) :
    Computes (write field value) fun this => ((), field.set this value) :=
  fun _ => ⟨rfl, rfl⟩

/-- The release of the lock computes nothing. -/
theorem computes_exit (saved : UInt32) :
    Computes (exitEquiniosLock saved) fun this => ((), this) := fun _ => ⟨rfl, rfl⟩

/-- One piece of code after another. -/
theorem Computes.bind {p : Code α} {f : EquiniosLogger → α × EquiniosLogger}
    {q : α → Code β} {g : α → EquiniosLogger → β × EquiniosLogger} (hp : Computes p f)
    (hq : ∀ a, Computes (q a) (g a)) :
    Computes (p >>= q) fun this => g (f this).1 (f this).2 := by
  intro s
  have hfirst := hp s
  have hsecond := hq (p s).1 (p s).2
  rw [hfirst.2, hfirst.1] at hsecond
  rw [bind_apply]
  constructor
  · rw [hfirst.1]
    exact hsecond.1
  · rw [hfirst.1]
    exact hsecond.2

/-- The status word does not matter. -/
theorem Computes.of_enter {q : UInt32 → Code β} {f : EquiniosLogger → β × EquiniosLogger}
    (hq : ∀ saved, Computes (q saved) f) : Computes (enterEquiniosLock >>= q) f :=
  fun s => hq s.word { s with word := 0 }

/-- A critical section. -/
theorem Computes.in_section {p : Code Unit} {f : EquiniosLogger → Unit × EquiniosLogger}
    (hp : Computes p f) :
    Computes
      (do
        let lockState ← enterEquiniosLock
        p
        exitEquiniosLock lockState) f :=
  Computes.of_enter fun saved => hp.bind fun _ => computes_exit saved

/-- Code that follows a section. -/
theorem Computes.after_exit {q : Code β} {f : EquiniosLogger → β × EquiniosLogger}
    (hq : Computes q f) (saved : UInt32) :
    Computes (exitEquiniosLock saved >>= fun _ => q) f :=
  (computes_exit saved).bind fun _ => hq

/-- The same function in other words. -/
theorem Computes.congr {p : Code α} {f g : EquiniosLogger → α × EquiniosLogger}
    (h : Computes p f) (hfg : ∀ this, f this = g this) : Computes p g := by
  intro s
  rw [← hfg]
  exact h s

end Computes

/-! ## Sections -/

/-- The first use as it is computed. -/
theorem computes_loggerEnsureInitialized :
    Computes loggerEnsureInitialized fun this => ((), this.loggerEnsureInitialized) := by
  intro s
  refine ⟨rfl, ?_⟩
  cases hinit : s.memory.logger.initialized with
  | true =>
    simp [loggerEnsureInitialized, enterEquiniosLock, exitEquiniosLock, Field.get, hinit,
      EquiniosLogger.loggerEnsureInitialized]
  | false =>
    simp [loggerEnsureInitialized, enterEquiniosLock, exitEquiniosLock, Field.get, Field.set,
      hinit, EquiniosLogger.loggerEnsureInitialized]

/-- The section of the level. -/
theorem computes_setLogLevel (level : LogLevel) :
    Computes (setLogLevel level) fun this => ((), this.setLogLevel level) :=
  (computes_write _ _).in_section

/-- The section of the flush period. -/
theorem computes_setProcessEveryNCalls (calls : UInt32) :
    Computes (setProcessEveryNCalls calls) fun this => ((), this.setProcessEveryNCalls calls) :=
  Computes.of_enter fun saved =>
    (computes_write _ _).bind fun _ => (computes_write _ _).bind fun _ => computes_exit saved

/-- The section of the provider, after a first use. -/
theorem computes_setTimestampProvider (provider : Option Provider) :
    Computes (setTimestampProvider provider)
      fun this => ((), this.loggerEnsureInitialized.setTimestampProvider provider) :=
  computes_loggerEnsureInitialized.bind fun _ => Computes.of_enter fun saved =>
    (computes_read .timestampProvider).bind fun timestampProvider =>
      (computes_write .timestampProvider (timestampProvider.setProvider provider).2).bind
        fun _ => computes_exit saved

/-- The section that reads the drop counter. -/
theorem computes_getDroppedLines :
    Computes getDroppedLines fun this => (this.getDroppedLines, this) :=
  Computes.of_enter fun saved => (computes_read .droppedLines).bind fun droppedLines =>
    (computes_exit saved).bind fun _ => computes_pure droppedLines

/-- The section that clears it. -/
theorem computes_resetDroppedLines :
    Computes resetDroppedLines fun this => ((), this.resetDroppedLines) :=
  (computes_write _ _).in_section

/-- A timestamp function that does not call back. -/
theorem computes_getTimestamp (answer : UInt32) :
    Computes (getTimestamp (.answer answer)) fun this => this.getTimestamp answer := by
  intro s
  cases hprovider : s.memory.logger.timestampProvider.timestampProvider with
  | none =>
    simp [getTimestamp, Field.get, Field.set, hprovider, EquiniosLogger.getTimestamp,
      TimestampProvider.getTimestamp]
  | some provider =>
    simp [getTimestamp, Field.get, hprovider, EquiniosLogger.getTimestamp,
      TimestampProvider.getTimestamp, Callback.run]

/-- The section of {lit}`should_process`, on both ways through it. -/
theorem computes_shouldProcess : Computes shouldProcess EquiniosLogger.shouldProcess := by
  intro s
  by_cases hflush : s.memory.logger.logProcessDivider + 1 ≥ s.memory.logger.logProcessEveryNCalls
  · simp [shouldProcess, enterEquiniosLock, exitEquiniosLock, Field.get, Field.set,
      EquiniosLogger.shouldProcess, hflush]
  · simp [shouldProcess, enterEquiniosLock, exitEquiniosLock, Field.get, Field.set,
      EquiniosLogger.shouldProcess, hflush]

/-! ## Calls -/

/-- The logger after {lit}`log_vwrite`. -/
def loggerAfterWrite (this : EquiniosLogger) (level : LogLevel) (formatted : List UInt8)
    (answer : UInt32) : EquiniosLogger :=
  if this.filters level then this
  else
    let stamped := this.getTimestamp answer
    stamped.2.loggerEnqueueLine (formatLine stamped.1 (formatMessage formatted))

/-- The second and the third section of {lit}`log_vwrite`. -/
theorem computes_stampedLine (formatted : List UInt8) (answer : UInt32) :
    Computes
      (do
        let lockState ← enterEquiniosLock
        let timestamp ← getTimestamp (.answer answer)
        exitEquiniosLock lockState
        let lockState ← enterEquiniosLock
        loggerEnqueueLine (formatLine timestamp (formatMessage formatted))
        exitEquiniosLock lockState)
      fun this =>
        ((), (this.getTimestamp answer).2.loggerEnqueueLine
          (formatLine (this.getTimestamp answer).1 (formatMessage formatted))) := by
  refine Computes.of_enter fun saved => ?_
  refine (computes_getTimestamp answer).bind
    (g := fun timestamp this =>
      ((), this.loggerEnqueueLine (formatLine timestamp (formatMessage formatted))))
    fun timestamp => ?_
  exact (computes_loggerEnqueueLine _).in_section.after_exit saved

/-- A write with a callback that only answers. -/
theorem computes_logVwrite (level : LogLevel) (formatted : List UInt8) (answer : UInt32) :
    Computes (logVwrite level formatted (.answer answer)) fun this =>
      ((), loggerAfterWrite this.loggerEnsureInitialized level formatted answer) := by
  have hchecked : ∀ (saved : UInt32) (logLevel : LogLevel), Computes
      (if level.value > logLevel.value then exitEquiniosLock saved
        else do
          exitEquiniosLock saved
          let lockState ← enterEquiniosLock
          let timestamp ← getTimestamp (.answer answer)
          exitEquiniosLock lockState
          let lockState ← enterEquiniosLock
          loggerEnqueueLine (formatLine timestamp (formatMessage formatted))
          exitEquiniosLock lockState)
      fun this => ((), if level.value > logLevel.value then this
        else (this.getTimestamp answer).2.loggerEnqueueLine
          (formatLine (this.getTimestamp answer).1 (formatMessage formatted))) := by
    intro saved logLevel
    by_cases hfilter : level.value > logLevel.value
    · simp only [if_pos hfilter]
      exact computes_exit saved
    · simp only [if_neg hfilter]
      exact (computes_stampedLine formatted answer).after_exit saved
  have hsection := (Computes.of_enter fun saved =>
    (computes_read .logLevel).bind fun logLevel => hchecked saved logLevel).congr
      (g := fun this => ((), loggerAfterWrite this level formatted answer)) fun this => by
        simp [loggerAfterWrite, EquiniosLogger.filters, Field.get]
  exact computes_loggerEnsureInitialized.bind fun _ => hsection

/-- The machine has the logger and the output of the processor. -/
structure Erases (s : Cpu) (m : Machine) : Prop where
  logger : s.memory.logger = m.logger
  stdout : s.memory.stdout = stdoutOf m.hist

/-- Code that computes the logger of a machine which prints nothing. -/
theorem Computes.erases {α : Type} {p : Code α} {f : EquiniosLogger → α × EquiniosLogger}
    (hp : Computes p f) {s : Cpu} {m m' : Machine} (h : Erases s m)
    (hlogger : m'.logger = (f m.logger).2) (hstdout : stdoutOf m'.hist = stdoutOf m.hist) :
    Erases (p s).2 m' := by
  constructor
  · rw [(hp s).2, h.logger, hlogger]
  · rw [(hp s).2, hstdout]
    exact h.stdout

/-- The first use on both sides. -/
theorem Erases.loggerEnsureInitialized {s : Cpu} {m : Machine} (h : Erases s m) :
    Erases (loggerEnsureInitialized s).2 m.loggerEnsureInitialized :=
  computes_loggerEnsureInitialized.erases h rfl rfl

/-- One turn of the do-while loop prints the chunk it pops. -/
theorem erases_processTurn (c : ContextId) {s : Cpu} {m : Machine} (h : Erases s m) :
    (processTurn s).1 = (m.popChunk c).1.length ∧
      Erases (processTurn s).2 ((m.popChunk c).2.putchars c (m.popChunk c).1) := by
  have hpop := computes_popChunkFromBuffer logProcessChunkSize s
  rw [h.logger] at hpop
  have hprinted : (putchars (popChunkFromBuffer logProcessChunkSize s).1
      (popChunkFromBuffer logProcessChunkSize s).2).2.memory =
      { s.memory with
        logger := (m.popChunk c).2.logger
        stdout := s.memory.stdout ++ (m.popChunk c).1 } := by
    rw [putchars_memory, hpop.1, hpop.2]
    rfl
  refine ⟨congrArg List.length hpop.1, ?_, ?_⟩
  · rw [Machine.putchars_logger]
    exact congrArg Memory.logger hprinted
  · rw [Machine.putchars_hist, stdoutOf_append, Machine.stdoutOf_printed]
    refine (congrArg Memory.stdout hprinted).trans ?_
    rw [h.stdout]
    simp [Machine.popChunk, stdoutOf, Event.byte?]

/-- The do-while loop prints and leaves what that of the machine does. -/
theorem erases_processLoop (c : ContextId) {s : Cpu} {m : Machine} (h : Erases s m) :
    Erases (processLoop s).2 (m.processLoop c) := by
  induction m using Machine.processLoop.induct c generalizing s with
  | case1 m res printed hpos =>
    rename_i ih
    have hturn := erases_processTurn c h
    have hcount : (processTurn s).1 > 0 := hturn.1 ▸ hpos
    rw [processLoop, dif_pos hcount, Machine.processLoop, dif_pos hpos]
    exact ih hturn.2
  | case2 m res =>
    rename_i hzero
    have hturn := erases_processTurn c h
    have hcount : ¬ (processTurn s).1 > 0 := hturn.1 ▸ hzero
    rw [processLoop, dif_neg hcount, Machine.processLoop, dif_neg hzero]
    exact hturn.2

/-- The flush on both sides. -/
theorem erases_process (c : ContextId) {s : Cpu} {m : Machine} (h : Erases s m) :
    Erases (process s).2 (m.process c) := by
  have hshould : Erases (shouldProcess s).2 (m.shouldProcess c).2 :=
    computes_shouldProcess.erases h rfl (by simp [Machine.shouldProcess, stdoutOf, Event.byte?])
  have hflush : (shouldProcess s).1 = (m.shouldProcess c).1 := by
    rw [(computes_shouldProcess s).1, h.logger]
    rfl
  rw [process, bind_apply, Machine.process, hflush]
  cases (m.shouldProcess c).1 with
  | true => exact erases_processLoop c hshould
  | false => exact hshould

/-- The call whose timestamp function only answers. -/
def ofApiCall : ApiCall → Call
  | .logSetLevel level => .logSetLevel level
  | .logSetProcessEveryNCalls calls => .logSetProcessEveryNCalls calls
  | .logSetTimestampProvider provider => .logSetTimestampProvider provider
  | .logGetDroppedLines => .logGetDroppedLines
  | .logResetDroppedLines => .logResetDroppedLines
  | .logWrite level formatted answer => .logWrite level formatted (.answer answer)
  | .logProcess => .logProcess

/-- What the uninterrupted {lit}`log_vwrite` does to the logger; it prints nothing. -/
theorem logVwrite_machine (m : Machine) (c : ContextId) (level : LogLevel)
    (formatted : List UInt8) (answer : UInt32) :
    (m.logVwrite c level formatted answer).logger =
        loggerAfterWrite m.loggerEnsureInitialized.logger level formatted answer ∧
      stdoutOf (m.logVwrite c level formatted answer).hist = stdoutOf m.hist := by
  cases hfilter : m.loggerEnsureInitialized.logger.filters level with
  | true =>
    rw [Machine.logVwrite_of_filtered hfilter]
    exact ⟨(if_pos hfilter).symm, rfl⟩
  | false =>
    rw [Machine.logVwrite_of_accepted hfilter]
    refine ⟨(if_neg (Bool.eq_false_iff.mp hfilter)).symm, ?_⟩
    refine Eq.trans ?_ (Machine.quiet_getTimestamp m.loggerEnsureInitialized c answer).stdout
    simp [Machine.enqueueLine, stdoutOf, Event.byte?, List.filterMap_map]

/-- Every call whose timestamp function only answers does to the logger and the output
what the uninterrupted call of the machine does. -/
theorem erases_run (c : ContextId) {s : Cpu} {m : Machine} (h : Erases s m) (call : ApiCall) :
    Erases ((ofApiCall call).run s).2 (call.run c m) := by
  have hinit := h.loggerEnsureInitialized
  cases call with
  | logSetLevel level => exact (computes_setLogLevel level).erases hinit rfl rfl
  | logSetProcessEveryNCalls calls =>
    exact (computes_setProcessEveryNCalls calls).erases hinit rfl rfl
  | logSetTimestampProvider provider =>
    exact (computes_setTimestampProvider provider).erases hinit rfl rfl
  | logGetDroppedLines =>
    refine computes_getDroppedLines.erases hinit rfl ?_
    simp [ApiCall.run, Machine.getDroppedLines, stdoutOf, Event.byte?]
  | logResetDroppedLines =>
    refine computes_resetDroppedLines.erases hinit rfl ?_
    simp [ApiCall.run, Machine.resetDroppedLines, stdoutOf, Event.byte?]
  | logWrite level formatted answer =>
    have hwrite := logVwrite_machine m.loggerEnsureInitialized c level formatted answer
    exact (computes_logVwrite level formatted answer).erases hinit hwrite.1 hwrite.2
  | logProcess => exact erases_process c hinit

/-- The processor after some calls whose timestamp functions only answer. -/
abbrev runCalls (s : Cpu) (calls : List ApiCall) : Cpu :=
  StepSystem.run (fun s call => ((ofApiCall call).run s).2) s calls

/-- All calls of one context on both sides. -/
theorem erases_runCalls (c : ContextId) {s : Cpu} {m : Machine} (h : Erases s m)
    (calls : List ApiCall) : Erases (runCalls s calls) (Equinios.runCalls c m calls) :=
  StepSystem.run_simulation (R := Erases) (fun _ _ call h => erases_run c h call) h calls

end Locked
end Equinios
end RadonMCU
