import RadonMCU.Equinios.Filtering

/-!
# The logger as one context sees it

For one context the logger is a sequential object without a ring, a first use or
critical sections: the log of {lit}`SequentialLog`, the flush schedule and the bytes
printed so far.  Its queue is one of bytes: a line that does not fit drops the oldest segments,
each up to a newline, and counts every one.  What a program prints can be computed on this
object.

Main results:

- Theorem {lit}`Refines.apiCall`: every call is one step of the object.
- Theorem {lit}`refines_runCalls`: so are all calls of one context.
- Theorem {lit}`console_runCalls`: what a caller sees of the logger is what the object says.
-/

namespace RadonMCU
namespace Equinios

open Segments

/-! ## The object -/

/-- The log, its flush schedule and what has been printed. -/
structure Console where
  log : LogState
  schedule : Schedule
  printed : List UInt8

namespace Console

/-- The console before the first call. -/
def initial : Console where
  log :=
    { logLevel := .info
      timestampProvider := TimestampProvider.new
      lines := { queued := [], droppedLines := 0 } }
  schedule := Schedule.initial
  printed := []

/-- Print the queued bytes. -/
def flush (s : Console) : Console where
  log := { s.log with lines := { s.log.lines with queued := [] } }
  schedule := s.schedule
  printed := s.printed ++ s.log.lines.queued

/-- The next {lit}`log_process` flushes. -/
def flushes (s : Console) : Bool := decide (s.schedule.period ∣ s.schedule.calls + 1)

/-- One call. -/
def step (s : Console) (call : ApiCall) : Console :=
  let next : Console := { s with log := s.log.apply call, schedule := s.schedule.step call }
  match call with
  | .logProcess => if s.flushes then next.flush else next
  | .logResetDroppedLines =>
      { next with log := { next.log with lines := { next.log.lines with droppedLines := 0 } } }
  | _ => next

/-- The console after some calls. -/
def run (s : Console) (calls : List ApiCall) : Console := StepSystem.run Console.step s calls

@[simp] theorem run_nil (s : Console) : s.run [] = s := rfl

@[simp] theorem run_cons (s : Console) (call : ApiCall) (calls : List ApiCall) :
    s.run (call :: calls) = (s.step call).run calls := rfl

theorem run_append (s : Console) (calls calls' : List ApiCall) :
    s.run (calls ++ calls') = (s.run calls).run calls' :=
  StepSystem.run_append _ _ _ _

end Console

/-! ## Lines that make room -/

namespace LineBuffer

variable {queued line rest : List UInt8} {dropped : UInt32} {new : Accepted}

/-- A line that fits is queued behind the others. -/
theorem enqueue_of_fits (h : queued.length + new.stored.length ≤ 128) :
    LineBuffer.enqueue { queued, droppedLines := dropped } new =
      { queued := queued ++ new.stored, droppedLines := dropped } := by
  have hnone : segmentsToDrop newline (128 - new.stored.length) queued = 0 :=
    segmentsToDrop_of_le newline (by omega)
  simp only [LineBuffer.enqueue, hnone, dropSegments_zero]
  rw [show UInt32.ofNat 0 = 0 from rfl, UInt32.add_zero]

/-- A line that does not fit is queued when the oldest line is gone. -/
theorem enqueue_of_full (hline : SingleSegment newline line) (hend : EndsIn newline line)
    (hfull : 128 < (line ++ rest).length + new.stored.length) :
    LineBuffer.enqueue { queued := line ++ rest, droppedLines := dropped } new =
      LineBuffer.enqueue { queued := rest, droppedLines := dropped + 1 } new := by
  have hle : new.stored.length ≤ 128 := storedLine_length_le _ _
  have hdrop : segmentsToDrop newline (128 - new.stored.length) (line ++ rest) =
      segmentsToDrop newline (128 - new.stored.length) rest + 1 :=
    segmentsToDrop_append hline hend (by omega)
  simp only [LineBuffer.enqueue, hdrop, dropSegments_succ, (hline.split (Or.inl hend)).2]
  rw [UInt32.ofNat_add, UInt32.add_comm (UInt32.ofNat _), ← UInt32.add_assoc]
  rfl

end LineBuffer

/-! ## The machine as a console -/

namespace Machine

/-- The machine is this console. -/
structure Refines (m : Machine) (s : Console) : Prop where
  consistent : m.Consistent
  log : m.logState = s.log
  schedule : OnSchedule m.logger s.schedule
  printed : stdoutOf m.hist = s.printed

section Refines

variable {m : Machine} {s : Console}

theorem refines_reset : reset.Refines Console.initial := by
  refine ⟨consistent_reset, ?_, ⟨rfl, by decide, rfl⟩, rfl⟩
  have hlines := sound_reset.lines_logState
  have hqueued : reset.logger.queued = [] := RingBuffer.contents_new
  rw [hqueued] at hlines
  change (⟨.info, TimestampProvider.new, reset.logState.lines⟩ : LogState) = _
  rw [hlines]
  rfl

/-- Lines and the drop counter of an initialised sound machine. -/
theorem logState_of_lines {m' : Machine} (hsound : m'.Sound)
    (hsettings : m'.logState.logLevel = m.logState.logLevel ∧
      m'.logState.timestampProvider = m.logState.timestampProvider) :
    m'.logState =
      { m.logState with
        lines := { queued := m'.logger.queued, droppedLines := m'.logger.droppedLines } } := by
  change (⟨m'.logState.logLevel, m'.logState.timestampProvider, m'.logState.lines⟩ : LogState) = _
  rw [hsettings.1, hsettings.2, hsound.lines_logState]

/-- {lit}`log_process` flushes when the console does. -/
theorem Refines.logProcess (h : m.Refines s) (c : ContextId) :
    (ApiCall.logProcess.run c m).Refines (s.step .logProcess) := by
  have hsound := h.consistent.toSound
  have hconsistent := h.consistent.apiCall c .logProcess
  have hschedule := h.schedule.apiCall hsound c .logProcess
  have hlines := hsound.lines_logState
  have hlog := logState_of_lines hconsistent.toSound
    (logState_of_not_isLogging hsound c id)
  rw [h.log] at hlog hlines
  have hflushes : (m.loggerEnsureInitialized.shouldProcess c).1 = s.flushes :=
    h.schedule.loggerEnsureInitialized.shouldProcess.1
  have hquiet := hsound.quiet_loggerEnsureInitialized
  have hinit := droppedLines_loggerEnsureInitialized m
  rcases process_cases hsound.loggerEnsureInitialized c with ⟨hno, hskip⟩ | ⟨hyes, -, hdrained⟩
  · rw [hflushes] at hno
    have hall : Quiet m (ApiCall.logProcess.run c m) := by
      rw [ApiCall.run, hskip]
      exact hquiet.trans (quiet_shouldProcess m.loggerEnsureInitialized c)
    have hdropped : (ApiCall.logProcess.run c m).logger.droppedLines =
        m.logger.droppedLines := by
      rw [ApiCall.run, hskip]
      exact hinit
    have hstep : s.step .logProcess = { s with schedule := s.schedule.step .logProcess } := by
      rw [Console.step]
      simp only [hno]
      rfl
    rw [hall.queued, hdropped, ← hlines] at hlog
    rw [hstep]
    exact ⟨hconsistent, hlog, hschedule, hall.stdout.trans h.printed⟩
  · rw [hflushes] at hyes
    have hall : Drained m (ApiCall.logProcess.run c m) := Drained.of_quiet hquiet hinit hdrained
    have hstep : s.step .logProcess =
        Console.flush { s with schedule := s.schedule.step .logProcess } := by
      rw [Console.step]
      simp only [hyes]
      rfl
    rw [hall.empty, hall.dropped] at hlog
    rw [hstep]
    refine ⟨hconsistent, hlog.trans ?_, hschedule, hall.stdout.trans ?_⟩
    · rw [Console.flush, hlines]
    · rw [Console.flush, hlines, h.printed]

/-- A call that writes a line or sets how lines are written prints nothing. -/
theorem Refines.isLogging (h : m.Refines s) (c : ContextId) {call : ApiCall}
    (hcall : call.IsLogging) : (call.run c m).Refines (s.step call) := by
  have hsound := h.consistent.toSound
  have hconsistent := h.consistent.apiCall c call
  have hschedule := h.schedule.apiCall hsound c call
  have hlog := logState_apiCall hsound c hcall
  rw [h.log] at hlog
  have hprinted : stdoutOf (call.run c m).hist = s.printed := by
    rw [← h.printed]
    cases apiCall_cases hsound c call with
    | quiet hquiet _ => exact hquiet.stdout
    | wrote hwrote => exact hwrote.stdout
    | drained => exact hcall.elim
  cases call with
  | logSetLevel | logSetTimestampProvider | logWrite =>
    exact ⟨hconsistent, hlog, hschedule, hprinted⟩
  | _ => exact hcall.elim

/-- Every call is one step of the console. -/
theorem Refines.apiCall (h : m.Refines s) (c : ContextId) (call : ApiCall) :
    (call.run c m).Refines (s.step call) := by
  have hsound := h.consistent.toSound
  have hconsistent := h.consistent.apiCall c call
  have hschedule := h.schedule.apiCall hsound c call
  have heffect := apiCall_cases hsound c call
  have hlines := hsound.lines_logState
  rw [h.log] at hlines
  cases call with
  | logSetLevel | logSetTimestampProvider | logWrite => exact h.isLogging c trivial
  | logProcess => exact h.logProcess c
  | logSetProcessEveryNCalls | logGetDroppedLines =>
    have hlog := logState_of_lines hconsistent.toSound (logState_of_not_isLogging hsound c id)
    cases heffect with
    | quiet hquiet hdropped =>
      rw [h.log, hquiet.queued, hdropped (by simp), ← hlines] at hlog
      exact ⟨hconsistent, hlog, hschedule, hquiet.stdout.trans h.printed⟩
  | logResetDroppedLines =>
    have hlog := logState_of_lines hconsistent.toSound (logState_of_not_isLogging hsound c id)
    cases heffect with
    | quiet hquiet _ =>
      rw [h.log, hquiet.queued] at hlog
      refine ⟨hconsistent, hlog.trans ?_, hschedule, hquiet.stdout.trans h.printed⟩
      change _ = { s.log with lines := { s.log.lines with droppedLines := 0 } }
      rw [hlines]
      rfl

end Refines

/-- All calls of one context are steps of the console. -/
theorem refines_runCalls (c : ContextId) (calls : List ApiCall) :
    (runCalls c reset calls).Refines (Console.initial.run calls) :=
  StepSystem.run_simulation (R := Refines) (fun _ _ call hm => hm.apiCall c call)
    refines_reset calls

end Machine

/-- Whatever calls one context makes, the logger has printed the bytes that the console has
printed, holds the bytes of its queue, answers {lit}`log_get_dropped_lines` with its number of
dropped segments, has the same level and timestamp source, and flushes at the same call. -/
theorem console_runCalls (c : ContextId) (calls : List ApiCall) :
    let m := runCalls c Machine.reset calls
    let s := Console.initial.run calls
    stdoutOf m.hist = s.printed ∧
      m.logger.queued = s.log.lines.queued ∧
      (m.loggerEnsureInitialized.getDroppedLines c).1 = s.log.lines.droppedLines ∧
      m.logState.logLevel = s.log.logLevel ∧
      m.logState.timestampProvider = s.log.timestampProvider ∧
      m.flushes c = s.flushes := by
  have h := Machine.refines_runCalls c calls
  have hlines := h.consistent.toSound.lines_logState
  have hdropped := Machine.droppedLines_loggerEnsureInitialized (runCalls c Machine.reset calls)
  rw [h.log] at hlines
  refine ⟨h.printed, (congrArg LineBuffer.queued hlines).symm, ?_,
    congrArg LogState.logLevel h.log, congrArg LogState.timestampProvider h.log,
    h.schedule.loggerEnsureInitialized.shouldProcess.1⟩
  exact hdropped.trans (congrArg LineBuffer.droppedLines hlines).symm

end Equinios
end RadonMCU
