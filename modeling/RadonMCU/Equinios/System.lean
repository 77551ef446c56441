import Mathlib.Logic.Function.Basic
import RadonMCU.Equinios.Machine

/-!
# Contexts that interleave at critical sections

Any number of contexts call the public functions.  A critical section runs with
interrupts off, so one step of the system is one critical section of one context,
or one {lit}`putchar`; between two steps any other context may run.  The program
counter of a context holds the locals that it needs later.

An action that is not enabled leaves the system as it is.

Main results:

- Theorem {lit}`step_cases`: a step leaves the machine or runs one critical
  section of its context.
- Theorem {lit}`consistent_run`: the machine is consistent in every reachable
  state, and a context past its instance lookup sees an initialised logger.
- Theorem {lit}`exists_run_alone`: a context that runs alone computes the
  uninterrupted call.
-/

namespace RadonMCU
namespace Equinios

open Segments LineQueue

/-! ## Program counters -/

/-- Where a context is: each constructor names the critical section, or the
{lit}`putchar`, that it runs next. -/
inductive Pc where
  | idle
  /-- {lit}`EquiniosLogger.instance` in the wrapper of a call. -/
  | getInstance (call : ApiCall)
  | setLogLevel (level : LogLevel)
  | setProcessEveryNCalls (calls : UInt32)
  /-- {lit}`logger_ensure_initialized` in {lit}`set_timestamp_provider`. -/
  | setTimestampProviderInit (provider : Option Provider)
  | setTimestampProvider (provider : Option Provider)
  | getDroppedLines
  | resetDroppedLines
  /-- {lit}`logger_ensure_initialized` in {lit}`log_vwrite`. -/
  | logVwriteInit (level : LogLevel) (formatted : List UInt8) (answer : UInt32)
  | checkLevel (level : LogLevel) (formatted : List UInt8) (answer : UInt32)
  | getTimestamp (level : LogLevel) (message : CString) (answer : UInt32)
  | enqueueLine (timestamp : UInt32) (message : CString)
  | shouldProcess
  | popChunk
  /-- The bytes of the local chunk that are still to be printed. -/
  | putchar (byte : UInt8) (rest : List UInt8)
deriving DecidableEq

namespace Pc

/-- The function body that follows the instance lookup. -/
def enter : ApiCall → Pc
  | .logSetLevel level => .setLogLevel level
  | .logSetProcessEveryNCalls calls => .setProcessEveryNCalls calls
  | .logSetTimestampProvider provider => .setTimestampProviderInit provider
  | .logGetDroppedLines => .getDroppedLines
  | .logResetDroppedLines => .resetDroppedLines
  | .logWrite level formatted answer => .logVwriteInit level formatted answer
  | .logProcess => .shouldProcess

/-- After a chunk is popped: print it, or leave the loop when it is empty. -/
def printing : List UInt8 → Pc
  | [] => .idle
  | byte :: rest => .putchar byte rest

/-- After a byte is printed: the next byte, or the next chunk. -/
def afterPutchar : List UInt8 → Pc
  | [] => .popChunk
  | byte :: rest => .putchar byte rest

/-- One step of a context. -/
def advance (c : ContextId) (m : Machine) : Pc → Pc × Machine
  | .idle => (.idle, m)
  | .getInstance call => (enter call, m.loggerEnsureInitialized)
  | .setLogLevel level => (.idle, m.setLogLevel level)
  | .setProcessEveryNCalls calls => (.idle, m.setProcessEveryNCalls calls)
  | .setTimestampProviderInit provider =>
      (.setTimestampProvider provider, m.loggerEnsureInitialized)
  | .setTimestampProvider provider => (.idle, m.setTimestampProvider provider)
  | .getDroppedLines => (.idle, (m.getDroppedLines c).2)
  | .resetDroppedLines => (.idle, m.resetDroppedLines c)
  | .logVwriteInit level formatted answer =>
      (.checkLevel level formatted answer, m.loggerEnsureInitialized)
  | .checkLevel level formatted answer =>
      (if m.logger.filters level then .idle
        else .getTimestamp level (formatMessage formatted) answer, m)
  | .getTimestamp _ message answer =>
      let stamped := m.getTimestamp c answer
      (.enqueueLine stamped.1 message, stamped.2)
  | .enqueueLine timestamp message => (.idle, m.enqueueLine c timestamp message)
  | .shouldProcess =>
      let res := m.shouldProcess c
      (if res.1 then .popChunk else .idle, res.2)
  | .popChunk =>
      let res := m.popChunk c
      (printing res.1, res.2)
  | .putchar byte rest => (afterPutchar rest, m.putchar c byte)

/-- The context has the instance, so the logger is initialised. -/
def HasInstance : Pc → Prop
  | .idle | .getInstance _ => False
  | _ => True

end Pc

/-! ## The system -/

/-- The machine, and where each context is in its call. -/
structure System where
  machine : Machine
  pc : ContextId → Pc

/-- A context starts a call, or goes on with the one it is in. -/
inductive Action where
  | call (c : ContextId) (call : ApiCall)
  | step (c : ContextId)
deriving DecidableEq

/-- The context that acts. -/
def Action.context : Action → ContextId
  | .call c _ | .step c => c

namespace System

/-- All contexts idle. -/
def start (m : Machine) : System := { machine := m, pc := fun _ => .idle }

/-- The system at reset. -/
def reset : System := start Machine.reset

/-- A context that is idle begins a call, or any context takes the next step of its own. -/
def step (s : System) : Action → System
  | .call c call =>
      if s.pc c = .idle then { s with pc := Function.update s.pc c (.getInstance call) } else s
  | .step c =>
      let res := (s.pc c).advance c s.machine
      { machine := res.2, pc := Function.update s.pc c res.1 }

/-- The system after some actions. -/
abbrev run (s : System) (acts : List Action) : System := StepSystem.run step s acts

/-- An idle context begins the call. -/
@[simp] theorem step_call_of_idle {s : System} {c : ContextId} (h : s.pc c = .idle)
    (call : ApiCall) :
    s.step (.call c call) =
      { s with pc := Function.update s.pc c (.getInstance call) } := by
  simp [step, h]

/-- A context in a call begins no other. -/
@[simp] theorem step_call_of_busy {s : System} {c : ContextId} (h : s.pc c ≠ .idle)
    (call : ApiCall) : s.step (.call c call) = s := by
  simp [step, h]

/-- The begin of a call leaves the machine. -/
@[simp] theorem step_call_machine (s : System) (c : ContextId) (call : ApiCall) :
    (s.step (.call c call)).machine = s.machine := by
  by_cases h : s.pc c = .idle
  · rw [step_call_of_idle h]
  · rw [step_call_of_busy h]

/-- A step acts on the machine as the place of the context says. -/
@[simp] theorem step_step_machine (s : System) (c : ContextId) :
    (s.step (.step c)).machine = ((s.pc c).advance c s.machine).2 := rfl

/-- The acting context goes on. -/
@[simp] theorem step_step_pc_self (s : System) (c : ContextId) :
    (s.step (.step c)).pc c = ((s.pc c).advance c s.machine).1 := by
  simp [step]

/-- A step leaves the places of the other contexts. -/
theorem step_step_pc_of_ne (s : System) {c c' : ContextId} (h : c' ≠ c) :
    (s.step (.step c)).pc c' = s.pc c' := by
  simp [step, h]

/-- The begin of a call leaves the places of the other contexts. -/
theorem step_call_pc_of_ne (s : System) {c c' : ContextId} (h : c' ≠ c) (call : ApiCall) :
    (s.step (.call c call)).pc c' = s.pc c' := by
  by_cases hidle : s.pc c = .idle
  · simp [hidle, h]
  · rw [step_call_of_busy hidle]

/-- A context that does not act stays where it is. -/
theorem step_pc_of_ne (s : System) {a : Action} {c : ContextId} (h : c ≠ a.context) :
    (s.step a).pc c = s.pc c := by
  cases a with
  | call c' call => exact step_call_pc_of_ne s h call
  | step c' => exact step_step_pc_of_ne s h

/-- A context that does not act stays where it is. -/
theorem run_pc_of_forall_ne (s : System) {c : ContextId} {acts : List Action}
    (h : ∀ a ∈ acts, a.context ≠ c) : (run s acts).pc c = s.pc c := by
  induction acts generalizing s with
  | nil => rfl
  | cons a acts ih =>
    have hne : c ≠ a.context := fun heq => h a List.mem_cons_self heq.symm
    rw [run, StepSystem.run_cons, ← run, ih _ fun b hb => h b (List.mem_cons_of_mem _ hb),
      step_pc_of_ne s hne]

/-- When all acting contexts have returned every context has. -/
theorem run_pc_of_forall_idle {acts : List Action}
    (h : ∀ a ∈ acts, (run reset acts).pc a.context = .idle) (c : ContextId) :
    (run reset acts).pc c = .idle := by
  by_cases hacts : ∀ a ∈ acts, a.context ≠ c
  · exact run_pc_of_forall_ne reset hacts
  · rw [not_forall] at hacts
    rcases hacts with ⟨a, ha⟩
    rw [Classical.not_imp, not_not] at ha
    rw [← ha.2]
    exact h a ha.1

/-- A property of program counters that calls establish and steps keep. -/
theorem step_pc {Q : ContextId → Pc → Prop} {s : System} {a : Action}
    (h : ∀ c, Q c (s.pc c)) (hcall : ∀ c call, a = .call c call → Q c (.getInstance call))
    (hstep : ∀ c, a = .step c → Q c ((s.pc c).advance c s.machine).1) :
    ∀ c, Q c ((s.step a).pc c) := by
  intro c
  by_cases hself : c = a.context
  · cases a with
    | call c' call =>
      have hself' : c = c' := hself
      subst hself'
      by_cases hidle : s.pc c = .idle
      · rw [step_call_of_idle hidle]
        simp only [Function.update_self]
        exact hcall c call rfl
      · rw [step_call_of_busy hidle]
        exact h c
    | step c' =>
      have hself' : c = c' := hself
      subst hself'
      rw [step_step_pc_self]
      exact hstep c rfl
  · rw [step_pc_of_ne s hself]
    exact h c

/-! ## Invariants of every run -/

/-- The machine is consistent, and a context past its instance lookup sees an
initialised logger. -/
structure Consistent (s : System) : Prop where
  machine : s.machine.Consistent
  initialized : ∀ c, (s.pc c).HasInstance → s.machine.logger.initialized = true

/-- A step of a context leaves the machine or runs one critical section. -/
theorem advance_cases {c : ContextId} {m : Machine} {pc : Pc}
    (hinit : ∀ timestamp message, pc = .enqueueLine timestamp message →
      m.logger.initialized = true) :
    (pc.advance c m).2 = m ∨ Machine.Section c m (pc.advance c m).2 := by
  cases pc with
  | idle | checkLevel => exact Or.inl rfl
  | getInstance | setTimestampProviderInit | logVwriteInit =>
    exact Or.inr .loggerEnsureInitialized
  | setLogLevel level => exact Or.inr (.setLogLevel level)
  | setProcessEveryNCalls calls => exact Or.inr (.setProcessEveryNCalls calls)
  | setTimestampProvider provider => exact Or.inr (.setTimestampProvider provider)
  | getDroppedLines => exact Or.inr .getDroppedLines
  | resetDroppedLines => exact Or.inr .resetDroppedLines
  | getTimestamp level message answer => exact Or.inr (.getTimestamp answer)
  | enqueueLine timestamp message =>
    exact Or.inr (.enqueueLine timestamp message (hinit timestamp message rfl))
  | shouldProcess => exact Or.inr .shouldProcess
  | popChunk => exact Or.inr .popChunk
  | putchar byte rest => exact Or.inr (.putchar byte)

/-- A step leaves the machine or runs one critical section of a context. -/
theorem step_cases {s : System} (h : s.Consistent) (a : Action) :
    (s.step a).machine = s.machine ∨
      ∃ c, Machine.Section c s.machine (s.step a).machine := by
  cases a with
  | call c call => exact Or.inl (step_call_machine s c call)
  | step c =>
    have hinit : ∀ timestamp message, s.pc c = .enqueueLine timestamp message →
        s.machine.logger.initialized = true := by
      intro timestamp message hpc
      apply h.initialized c
      rw [hpc]
      trivial
    rcases advance_cases (c := c) hinit with hsame | hsection
    · exact Or.inl hsame
    · exact Or.inr ⟨c, hsection⟩

/-- A logger that is initialised stays so. -/
theorem initialized_advance {c : ContextId} {m : Machine} (h : m.Sound) (pc : Pc)
    (hinit : m.logger.initialized = true) :
    (pc.advance c m).2.logger.initialized = true := by
  cases pc with
  | getInstance | setTimestampProviderInit | logVwriteInit =>
    exact Machine.initialized_loggerEnsureInitialized m
  | enqueueLine timestamp message =>
    rcases EquiniosLogger.loggerEnqueueLine_spec h.wellFormed (formatLine timestamp message)
      with ⟨_, henqueue, _⟩
    rw [Pc.advance, Machine.enqueueLine, henqueue]
    exact hinit
  | popChunk =>
    rcases EquiniosLogger.popChunkFromBuffer_spec h.wellFormed logProcessChunkSize with
      ⟨_, hchunk, _⟩
    simp only [Pc.advance, Machine.popChunk, hchunk]
    exact hinit
  | _ => exact hinit

/-- A context has the instance once its lookup has initialised the logger. -/
theorem hasInstance_advance {c : ContextId} {m : Machine} (h : m.Sound) {pc : Pc}
    (hinit : pc.HasInstance → m.logger.initialized = true)
    (hafter : (pc.advance c m).1.HasInstance) :
    (pc.advance c m).2.logger.initialized = true := by
  cases pc with
  | idle => contradiction
  | getInstance call => exact Machine.initialized_loggerEnsureInitialized m
  | _ => exact initialized_advance h _ (hinit trivial)

/-- Before the first action all contexts are idle. -/
theorem consistent_start {m : Machine} (h : m.Consistent) : (start m).Consistent :=
  ⟨h, fun _ hinstance => hinstance.elim⟩

/-- A logger that is initialised stays so in every step. -/
theorem Consistent.initialized_step {s : System} (h : s.Consistent) (a : Action)
    (hinit : s.machine.logger.initialized = true) :
    (s.step a).machine.logger.initialized = true := by
  cases a with
  | call c call =>
    rw [step_call_machine]
    exact hinit
  | step c => exact initialized_advance h.machine.toSound _ hinit

/-- Every action keeps the system consistent. -/
theorem Consistent.step {s : System} (h : s.Consistent) (a : Action) :
    (s.step a).Consistent := by
  constructor
  · rcases step_cases h a with hsame | ⟨c, hsection⟩
    · rw [hsame]
      exact h.machine
    · exact h.machine.step hsection
  · apply step_pc (Q := fun _ pc =>
      pc.HasInstance → (s.step a).machine.logger.initialized = true)
    · intro c hinstance
      exact h.initialized_step a (h.initialized c hinstance)
    · intro c call _ hinstance
      exact hinstance.elim
    · rintro c rfl hinstance
      exact hasInstance_advance h.machine.toSound (h.initialized c) hinstance

/-- In every reachable state the machine is consistent, and a context past its
instance lookup sees an initialised logger. -/
theorem consistent_run (acts : List Action) : (run reset acts).Consistent :=
  StepSystem.run_invariant (fun _ a h => h.step a)
    (consistent_start Machine.consistent_reset) acts

/-! ## A context that runs alone -/

/-- One step of a context on its own program counter and the machine. -/
def stepAlone (c : ContextId) (config : Pc × Machine) : Pc × Machine :=
  config.1.advance c config.2

/-- A context that acts alone. -/
theorem run_replicate_step (s : System) (c : ContextId) (n : Nat) :
    run s (List.replicate n (.step c)) =
      { machine := ((stepAlone c)^[n] (s.pc c, s.machine)).2
        pc := Function.update s.pc c ((stepAlone c)^[n] (s.pc c, s.machine)).1 } := by
  induction n generalizing s with
  | zero => simp
  | succ n ih =>
    rw [List.replicate_succ, run, StepSystem.run_cons, ← run, ih, step_step_pc_self,
      Function.iterate_succ_apply]
    simp [step, stepAlone]

/-- Printing a chunk leads back to the next chunk. -/
theorem stepAlone_putchars (c : ContextId) (m : Machine) (byte : UInt8) (rest : List UInt8) :
    (stepAlone c)^[rest.length + 1] (.putchar byte rest, m) =
      (.popChunk, m.putchars c (byte :: rest)) := by
  induction rest generalizing m byte with
  | nil => rfl
  | cons byte' rest ih =>
    rw [List.length_cons, Function.iterate_succ_apply]
    exact ih (m.putchar c byte) byte'

/-- The steps of the do-while loop compute it. -/
theorem exists_stepAlone_processLoop (c : ContextId) (m : Machine) :
    ∃ n, (stepAlone c)^[n] (.popChunk, m) = (.idle, m.processLoop c) := by
  induction m using Machine.processLoop.induct c with
  | case1 m res printed hpos ih =>
    rcases ih with ⟨n, hn⟩
    cases hchunk : res.1 with
    | nil =>
      rw [hchunk] at hpos
      simp at hpos
    | cons byte rest =>
      have hpop : stepAlone c (.popChunk, m) = (.putchar byte rest, res.2) := by
        simp only [stepAlone, Pc.advance]
        rw [show m.popChunk c = res from rfl, hchunk]
        rfl
      refine ⟨n + ((rest.length + 1) + 1), ?_⟩
      rw [Function.iterate_add_apply, Function.iterate_succ_apply, hpop, stepAlone_putchars,
        ← hchunk, Machine.processLoop, dif_pos hpos]
      exact hn
  | case2 m res hzero =>
    refine ⟨1, ?_⟩
    have hnil : res.1 = [] := by
      rw [← List.length_eq_zero_iff]
      omega
    rw [Machine.processLoop, dif_neg hzero]
    simp only [Function.iterate_one, stepAlone, Pc.advance]
    rw [show m.popChunk c = res from rfl, hnil]
    rfl

/-- The steps of a call, alone, compute the uninterrupted call. -/
theorem exists_stepAlone_run (c : ContextId) (m : Machine) (call : ApiCall) :
    ∃ n, (stepAlone c)^[n] (.getInstance call, m) = (.idle, call.run c m) := by
  cases call with
  | logSetLevel | logSetProcessEveryNCalls | logGetDroppedLines | logResetDroppedLines =>
    exact ⟨2, rfl⟩
  | logSetTimestampProvider provider => exact ⟨3, rfl⟩
  | logWrite level formatted answer =>
    cases hfilter :
        m.loggerEnsureInitialized.loggerEnsureInitialized.logger.filters level with
    | true =>
      refine ⟨3, ?_⟩
      simp [Function.iterate_succ_apply, stepAlone, Pc.advance, Pc.enter, ApiCall.run,
        Machine.logVwrite, hfilter]
    | false =>
      refine ⟨5, ?_⟩
      simp [Function.iterate_succ_apply, stepAlone, Pc.advance, Pc.enter, ApiCall.run,
        Machine.logVwrite, hfilter]
  | logProcess =>
    cases hflush : (m.loggerEnsureInitialized.shouldProcess c).1 with
    | true =>
      rcases exists_stepAlone_processLoop c (m.loggerEnsureInitialized.shouldProcess c).2 with
        ⟨n, hn⟩
      refine ⟨n + 2, ?_⟩
      rw [Function.iterate_add_apply, ApiCall.run, Machine.process]
      simp only [hflush, if_true]
      rw [← hn]
      simp [Function.iterate_succ_apply, stepAlone, Pc.advance, Pc.enter, hflush]
    | false =>
      refine ⟨2, ?_⟩
      simp [Function.iterate_succ_apply, stepAlone, Pc.advance, Pc.enter, ApiCall.run,
        Machine.process, hflush]

/-- A context that runs alone computes the uninterrupted call. -/
theorem exists_run_alone {s : System} {c : ContextId} (hidle : s.pc c = .idle)
    (call : ApiCall) :
    ∃ n, run s (.call c call :: List.replicate n (.step c)) =
      { s with machine := call.run c s.machine } := by
  rcases exists_stepAlone_run c s.machine call with ⟨n, hn⟩
  refine ⟨n, ?_⟩
  rw [run, StepSystem.run_cons, ← run, run_replicate_step, step_call_of_idle hidle]
  simp only [Function.update_self, hn, Function.update_idem]
  rw [← hidle, Function.update_eq_self]

end System

end Equinios
end RadonMCU
