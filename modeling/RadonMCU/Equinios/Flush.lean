import RadonMCU.Equinios.Calls

/-!
# The flush schedule

{lit}`should_process` counts calls of {lit}`log_process` in a 32-bit divider and
lets every {lit}`n`-th of them flush.  The schedule of a list of calls is the
period in force and how often {lit}`log_process` was called since it was set; the
divider is that number modulo the period.

Main results:

- Theorem {lit}`scheduleOf_append_set`: the schedule counts from the latest
  setting.
- Theorem {lit}`onSchedule_runCalls`: the divider follows the schedule in every
  run of one context.
- Theorem {lit}`flushLaw_runCalls`: which calls flush, and what a call that
  flushes and one that does not do.
-/

namespace RadonMCU
namespace Equinios

open Segments LineQueue

/-! ## The schedule -/

/-- The period in force and the calls of {lit}`log_process` since it was set. -/
structure Schedule where
  period : Nat
  calls : Nat

namespace Schedule

/-- The schedule before any setting. -/
def initial : Schedule := { period := 2, calls := 0 }

def step (s : Schedule) : ApiCall → Schedule
  | .logSetProcessEveryNCalls calls => { period := max calls.toNat 1, calls := 0 }
  | .logProcess => { s with calls := s.calls + 1 }
  | _ => s

@[simp] theorem step_logSetProcessEveryNCalls (s : Schedule) (calls : UInt32) :
    s.step (.logSetProcessEveryNCalls calls) = { period := max calls.toNat 1, calls := 0 } := rfl

@[simp] theorem step_logProcess (s : Schedule) :
    s.step .logProcess = { s with calls := s.calls + 1 } := rfl

end Schedule

/-- The schedule after some calls. -/
def scheduleOf (calls : List ApiCall) : Schedule :=
  StepSystem.run Schedule.step Schedule.initial calls

/-- Without a setting the schedule counts the calls of {lit}`log_process`. -/
theorem Schedule.run_of_unset (s : Schedule) {calls : List ApiCall}
    (h : ∀ n, ApiCall.logSetProcessEveryNCalls n ∉ calls) :
    StepSystem.run Schedule.step s calls =
      { s with calls := s.calls + calls.count .logProcess } := by
  induction calls generalizing s with
  | nil => rfl
  | cons call calls ih =>
    have hrest : ∀ n, ApiCall.logSetProcessEveryNCalls n ∉ calls := by
      intro n hmem
      exact h n (List.mem_cons_of_mem _ hmem)
    rw [StepSystem.run_cons, ih _ hrest]
    cases call with
    | logSetProcessEveryNCalls n => exact absurd List.mem_cons_self (h n)
    | logProcess =>
      simp only [Schedule.step_logProcess, List.count_cons_self, Schedule.mk.injEq, true_and]
      omega
    | _ =>
      rw [List.count_cons_of_ne (by simp)]
      rfl

/-- The schedule counts from the latest setting. -/
theorem scheduleOf_append_set (pre : List ApiCall) (n : UInt32) {calls : List ApiCall}
    (h : ∀ n, ApiCall.logSetProcessEveryNCalls n ∉ calls) :
    scheduleOf (pre ++ .logSetProcessEveryNCalls n :: calls) =
      { period := max n.toNat 1, calls := calls.count .logProcess } := by
  rw [scheduleOf, StepSystem.run_append, StepSystem.run_cons, Schedule.run_of_unset _ h]
  simp

/-- Without a setting the period is two. -/
theorem scheduleOf_of_unset {calls : List ApiCall}
    (h : ∀ n, ApiCall.logSetProcessEveryNCalls n ∉ calls) :
    scheduleOf calls = { period := 2, calls := calls.count .logProcess } := by
  rw [scheduleOf, Schedule.run_of_unset _ h]
  simp [Schedule.initial]

/-! ## The divider -/

/-- The divider is the number of calls since the setting, modulo the period. -/
structure OnSchedule (this : EquiniosLogger) (s : Schedule) : Prop where
  period : this.logProcessEveryNCalls.toNat = s.period
  period_pos : 0 < s.period
  divider : this.logProcessDivider.toNat = s.calls % s.period

theorem OnSchedule.divider_lt {this : EquiniosLogger} {s : Schedule} (h : OnSchedule this s) :
    this.logProcessDivider < this.logProcessEveryNCalls := by
  rw [UInt32.lt_iff_toNat_lt, h.period, h.divider]
  exact Nat.mod_lt _ h.period_pos

/-- The increment of the divider does not wrap. -/
theorem OnSchedule.divider_succ {this : EquiniosLogger} {s : Schedule} (h : OnSchedule this s) :
    (this.logProcessDivider + 1).toNat = this.logProcessDivider.toNat + 1 := by
  have hlt := UInt32.lt_iff_toNat_lt.mp h.divider_lt
  have hbound := UInt32.toNat_lt this.logProcessEveryNCalls
  rw [UInt32.toNat_add, UInt32.toNat_one]
  omega

/-- The successor of a remainder reaches the period at its multiples. -/
theorem period_le_mod_succ_iff {period : Nat} (hpos : 0 < period) (calls : Nat) :
    period ≤ calls % period + 1 ↔ period ∣ calls + 1 := by
  have hlt := Nat.mod_lt calls hpos
  have hsplit : calls + 1 = period * (calls / period) + (calls % period + 1) := by
    rw [← Nat.add_assoc, Nat.div_add_mod]
  rw [hsplit, Nat.dvd_add_right (Nat.dvd_mul_right _ _)]
  constructor
  · intro hle
    exact dvd_of_eq (Nat.le_antisymm hle (Nat.succ_le_of_lt hlt))
  · exact Nat.le_of_dvd (Nat.succ_pos _)

/-- {lit}`should_process` answers by the schedule and follows it. -/
theorem OnSchedule.shouldProcess {this : EquiniosLogger} {s : Schedule}
    (h : OnSchedule this s) :
    this.shouldProcess.1 = decide (s.period ∣ s.calls + 1) ∧
      OnSchedule this.shouldProcess.2 (s.step .logProcess) := by
  have hanswer : this.shouldProcess.1 = decide (s.period ∣ s.calls + 1) := by
    apply decide_eq_decide.mpr
    rw [ge_iff_le, UInt32.le_iff_toNat_le, h.divider_succ, h.period, h.divider]
    exact period_le_mod_succ_iff h.period_pos s.calls
  refine ⟨hanswer, h.period, h.period_pos, ?_⟩
  change (if this.shouldProcess.1 = true then 0 else this.logProcessDivider + 1).toNat =
    (s.calls + 1) % s.period
  rw [hanswer]
  by_cases hflush : s.period ∣ s.calls + 1
  · rw [if_pos (by simpa using hflush), Nat.mod_eq_zero_of_dvd hflush]
    rfl
  · have hlt : s.calls % s.period + 1 < s.period := by
      by_contra hge
      exact hflush ((period_le_mod_succ_iff h.period_pos s.calls).mp (Nat.le_of_not_lt hge))
    have hmod : (s.calls + 1) % s.period = s.calls % s.period + 1 := by
      rw [← Nat.mod_add_mod, Nat.mod_eq_of_lt hlt]
    rw [if_neg (by simpa using hflush), h.divider_succ, h.divider, hmod]

/-- A setting starts a schedule; zero counts as one. -/
theorem onSchedule_setProcessEveryNCalls (this : EquiniosLogger) (calls : UInt32)
    (s : Schedule) :
    OnSchedule (this.setProcessEveryNCalls calls) (s.step (.logSetProcessEveryNCalls calls)) := by
  refine ⟨?_, ?_, ?_⟩
  · change (if calls = 0 then 1 else calls).toNat = max calls.toNat 1
    by_cases hzero : calls = 0
    · rw [if_pos hzero, hzero]
      rfl
    · have hpos : calls.toNat ≠ 0 := by
        intro hnat
        exact hzero (UInt32.toNat_inj.mp hnat)
      rw [if_neg hzero]
      omega
  · change 0 < max calls.toNat 1
    omega
  · exact (Nat.zero_mod _).symm

/-! ## Runs of one context -/

theorem OnSchedule.of_settings {this this' : EquiniosLogger} {s : Schedule}
    (h : OnSchedule this s) (hperiod : this'.logProcessEveryNCalls = this.logProcessEveryNCalls)
    (hdivider : this'.logProcessDivider = this.logProcessDivider) : OnSchedule this' s :=
  ⟨by rw [hperiod, h.period], h.period_pos, by rw [hdivider, h.divider]⟩

theorem OnSchedule.loggerEnsureInitialized {m : Machine} {s : Schedule}
    (h : OnSchedule m.logger s) : OnSchedule m.loggerEnsureInitialized.logger s := by
  unfold Machine.loggerEnsureInitialized EquiniosLogger.loggerEnsureInitialized
  cases m.logger.initialized with
  | true => exact h
  | false => exact h.of_settings rfl rfl

theorem OnSchedule.logVwrite {m : Machine} {s : Schedule} (hsound : m.Sound)
    (h : OnSchedule m.logger s) (c : ContextId) (level : LogLevel) (formatted : List UInt8)
    (answer : UInt32) : OnSchedule (m.logVwrite c level formatted answer).logger s := by
  have hinit := h.loggerEnsureInitialized
  cases hfilter : m.loggerEnsureInitialized.logger.filters level with
  | true =>
    rw [Machine.logVwrite_of_filtered hfilter]
    exact hinit
  | false =>
    have hstamped := hsound.loggerEnsureInitialized.getTimestamp c answer
    rcases EquiniosLogger.loggerEnqueueLine_spec hstamped.wellFormed
      (formatLine (m.loggerEnsureInitialized.stamp answer) (formatMessage formatted)) with
      ⟨_, henqueue, _⟩
    rw [Machine.logVwrite_of_accepted hfilter, Machine.enqueueLine, henqueue]
    exact hinit.of_settings rfl rfl

/-- Every call keeps the divider on the schedule. -/
theorem OnSchedule.apiCall {m : Machine} {s : Schedule} (hsound : m.Sound)
    (h : OnSchedule m.logger s) (c : ContextId) (call : ApiCall) :
    OnSchedule (call.run c m).logger (s.step call) := by
  have hinit := h.loggerEnsureInitialized
  have hsoundInit := hsound.loggerEnsureInitialized
  cases call with
  | logSetLevel | logGetDroppedLines | logResetDroppedLines =>
    exact hinit.of_settings rfl rfl
  | logSetProcessEveryNCalls calls => exact onSchedule_setProcessEveryNCalls _ calls s
  | logSetTimestampProvider provider =>
    exact hinit.loggerEnsureInitialized.of_settings rfl rfl
  | logWrite level formatted answer => exact hinit.logVwrite hsoundInit c level formatted answer
  | logProcess =>
    have hafter := hinit.shouldProcess.2
    rcases Machine.process_cases hsoundInit c with ⟨_, hskip⟩ | ⟨_, hloop, _⟩
    · rw [ApiCall.run, hskip]
      exact hafter
    · have hsoundAfter : (m.loggerEnsureInitialized.shouldProcess c).2.Sound :=
        hsoundInit.step .shouldProcess
      rcases Machine.processLoop_logger hsoundAfter c with ⟨_, hlogger⟩
      rw [ApiCall.run, hloop, hlogger]
      exact hafter.of_settings rfl rfl

/-- The divider follows the schedule in every run of one context. -/
theorem onSchedule_runCalls (c : ContextId) (calls : List ApiCall) :
    OnSchedule (runCalls c Machine.reset calls).logger (scheduleOf calls) := by
  have hstart : OnSchedule Machine.reset.logger Schedule.initial := ⟨rfl, by decide, rfl⟩
  refine (StepSystem.run_simulation
    (R := fun (m : Machine) (s : Schedule) => m.Consistent ∧ OnSchedule m.logger s)
    ?_ ⟨Machine.consistent_reset, hstart⟩ calls).2
  intro m s call hm
  exact ⟨hm.1.apiCall c call, hm.2.apiCall hm.1.toSound c call⟩

/-- {lit}`should_process` lets the next {lit}`log_process` flush. -/
def Machine.flushes (m : Machine) (c : ContextId) : Bool :=
  (m.loggerEnsureInitialized.shouldProcess c).1

/-- The next {lit}`log_process` on a machine with this schedule. -/
structure FlushLaw (c : ContextId) (s : Schedule) (m : Machine) : Prop where
  divider_lt : m.logger.logProcessDivider < m.logger.logProcessEveryNCalls
  /-- The increment of the divider does not wrap. -/
  divider_succ : (m.logger.logProcessDivider + 1).toNat = m.logger.logProcessDivider.toNat + 1
  /-- The call flushes when the period divides its number. -/
  flushes_iff : m.flushes c = true ↔ s.period ∣ s.calls + 1
  /-- The call returns. -/
  returns : ∃ n, (System.stepAlone c)^[n] (.getInstance .logProcess, m) =
    (.idle, ApiCall.logProcess.run c m)
  /-- A call that flushes emits the ring, oldest byte first, and empties it. -/
  flush : m.flushes c = true →
    stdoutOf (ApiCall.logProcess.run c m).hist = stdoutOf m.hist ++ m.logger.queued ∧
      (ApiCall.logProcess.run c m).logger.queued = []
  /-- Any other call emits nothing and leaves the ring and the drop counter. -/
  skip : m.flushes c = false →
    stdoutOf (ApiCall.logProcess.run c m).hist = stdoutOf m.hist ∧
      (ApiCall.logProcess.run c m).logger.queued = m.logger.queued ∧
      (ApiCall.logProcess.run c m).logger.droppedLines = m.logger.droppedLines

/-- After any calls of one context the next {lit}`log_process` flushes exactly when
its number since the latest setting is a multiple of the period. -/
theorem flushLaw_runCalls (c : ContextId) (calls : List ApiCall) :
    FlushLaw c (scheduleOf calls) (runCalls c Machine.reset calls) := by
  have hschedule := onSchedule_runCalls c calls
  have hsound := (Machine.consistent_runCalls c calls).toSound
  generalize runCalls c Machine.reset calls = m at hschedule hsound
  have hinit := hsound.quiet_loggerEnsureInitialized
  have hdropped := Machine.droppedLines_loggerEnsureInitialized m
  refine ⟨hschedule.divider_lt, hschedule.divider_succ, ?_, System.exists_stepAlone_run c m _,
    ?_, ?_⟩
  · have hanswer := hschedule.loggerEnsureInitialized.shouldProcess.1
    change m.loggerEnsureInitialized.logger.shouldProcess.1 = true ↔ _
    rw [hanswer, decide_eq_true_iff]
  · intro hflush
    rcases Machine.process_cases hsound.loggerEnsureInitialized c with
      ⟨hno, _⟩ | ⟨_, _, hdrained⟩
    · rw [Machine.flushes, hno] at hflush
      contradiction
    · have hall := Machine.Drained.of_quiet hinit hdropped hdrained
      exact ⟨hall.stdout, hall.empty⟩
  · intro hskip
    rcases Machine.process_cases hsound.loggerEnsureInitialized c with
      ⟨_, hquiet⟩ | ⟨hyes, _⟩
    · have hall := hinit.trans (Machine.quiet_shouldProcess m.loggerEnsureInitialized c)
      rw [ApiCall.run, hquiet]
      exact ⟨hall.stdout, hall.queued, hdropped⟩
    · rw [Machine.flushes, hyes] at hskip
      contradiction

end Equinios
end RadonMCU
