import RadonMCU.Equinios.System

/-!
# The log as a sequential object

What the calls that write lines and change settings do to the log as a whole: a
level, a timestamp source and a buffer of lines that drops the oldest ones to make
room.  There are no critical sections and no first-use initialisation here.

Main results:

- Theorem {lit}`logState_enqueueLine`: the enqueue section is one step of the buffer.
- Theorem {lit}`logState_apiCall`: a call without interruption is one step of the
  sequential object.
-/

namespace RadonMCU
namespace Equinios

open Segments LineQueue

/-! ## The object -/

/-- The queued bytes and the drop counter. -/
structure LineBuffer where
  queued : List UInt8
  droppedLines : UInt32

/-- The least number of oldest segments makes room for the line. -/
def LineBuffer.enqueue (buffer : LineBuffer) (line : Accepted) : LineBuffer :=
  let dropped := segmentsToDrop newline (128 - line.stored.length) buffer.queued
  { queued := dropSegments newline dropped buffer.queued ++ line.stored
    droppedLines := buffer.droppedLines + UInt32.ofNat dropped }

structure LogState where
  logLevel : LogLevel
  timestampProvider : TimestampProvider
  lines : LineBuffer

namespace LogState

def filters (log : LogState) (level : LogLevel) : Bool :=
  decide (level.value > log.logLevel.value)

/-- Draw a timestamp. -/
def draw (log : LogState) (answer : UInt32) : UInt32 × LogState :=
  let res := log.timestampProvider.getTimestamp answer
  (res.1, { log with timestampProvider := res.2 })

def enqueueAll (log : LogState) (lines : List Accepted) : LogState :=
  { log with lines := lines.foldl LineBuffer.enqueue log.lines }

/-- Draw a timestamp and queue the line. -/
def stamp (log : LogState) (message : CString) (answer : UInt32) : LogState :=
  let drawn := log.draw answer
  drawn.2.enqueueAll [{ timestamp := drawn.1, message }]

/-- A call that writes a line or changes a setting of the lines. -/
def apply (log : LogState) : ApiCall → LogState
  | .logSetLevel level => { log with logLevel := level }
  | .logSetTimestampProvider provider =>
      { log with timestampProvider := (log.timestampProvider.setProvider provider).2 }
  | .logWrite level formatted answer =>
      if log.filters level then log else log.stamp (formatMessage formatted) answer
  | _ => log

theorem enqueueAll_append (log : LogState) (lines lines' : List Accepted) :
    log.enqueueAll (lines ++ lines') = (log.enqueueAll lines).enqueueAll lines' := by
  unfold enqueueAll
  rw [List.foldl_append]

/-- Queueing lines does not change what a stamp draws. -/
theorem stamp_enqueueAll (log : LogState) (lines : List Accepted) (message : CString)
    (answer : UInt32) :
    (log.enqueueAll lines).stamp message answer =
      (log.draw answer).2.enqueueAll
        (lines ++ [{ timestamp := (log.draw answer).1, message }]) := by
  rw [enqueueAll_append]
  rfl

end LogState

/-- The call writes a line, sets the level or sets the timestamp provider. -/
def ApiCall.IsLogging : ApiCall → Prop
  | .logWrite _ _ _ | .logSetLevel _ | .logSetTimestampProvider _ => True
  | _ => False

instance : DecidablePred ApiCall.IsLogging
  | .logWrite _ _ _ | .logSetLevel _ | .logSetTimestampProvider _ => isTrue trivial
  | .logSetProcessEveryNCalls _ | .logGetDroppedLines | .logResetDroppedLines
  | .logProcess => isFalse id

/-! ## The machine as the sequential object -/

/-- The state of an initialised logger. -/
def EquiniosLogger.logState (this : EquiniosLogger) : LogState where
  logLevel := this.logLevel
  timestampProvider := this.timestampProvider
  lines := { queued := this.queued, droppedLines := this.droppedLines }

namespace Machine

/-- What the next section after the initialisation sees. -/
def logState (m : Machine) : LogState := m.logger.loggerEnsureInitialized.logState

theorem logState_of_initialized {m : Machine} (h : m.logger.initialized = true) :
    m.logState = m.logger.logState := by
  rw [logState, EquiniosLogger.loggerEnsureInitialized, if_pos h]

@[simp] theorem logState_loggerEnsureInitialized (m : Machine) :
    m.loggerEnsureInitialized.logState = m.logState := by
  rw [logState_of_initialized (initialized_loggerEnsureInitialized m)]
  rfl

/-- The ring and the counter of a sound machine. -/
theorem Sound.lines_logState {m : Machine} (h : m.Sound) :
    m.logState.lines = { queued := m.logger.queued, droppedLines := m.logger.droppedLines } := by
  rw [← h.queued_loggerEnsureInitialized, ← droppedLines_loggerEnsureInitialized m]
  rfl

section Sections

variable {m : Machine} (hinit : m.logger.initialized = true)
include hinit

theorem logState_setLogLevel (level : LogLevel) :
    (m.setLogLevel level).logState = { m.logState with logLevel := level } := by
  have hinit' : (m.setLogLevel level).logger.initialized = true := hinit
  rw [logState_of_initialized hinit, logState_of_initialized hinit']
  rfl

theorem logState_setTimestampProvider (provider : Option Provider) :
    (m.setTimestampProvider provider).logState =
      { m.logState with
        timestampProvider := (m.logState.timestampProvider.setProvider provider).2 } := by
  have hinit' : (m.setTimestampProvider provider).logger.initialized = true := hinit
  rw [logState_of_initialized hinit, logState_of_initialized hinit']
  rfl

theorem filters_logState (level : LogLevel) :
    m.logState.filters level = m.logger.filters level := by
  rw [logState_of_initialized hinit]
  rfl

theorem logState_getTimestamp (c : ContextId) (answer : UInt32) :
    ((m.getTimestamp c answer).1, (m.getTimestamp c answer).2.logState) =
      m.logState.draw answer := by
  have hinit' : (m.getTimestamp c answer).2.logger.initialized = true := hinit
  rw [logState_of_initialized hinit, logState_of_initialized hinit']
  rfl

/-- The enqueue section is one step of the buffer. -/
theorem logState_enqueueLine (h : m.Sound) (c : ContextId) (timestamp : UInt32)
    (message : CString) :
    (m.enqueueLine c timestamp message).logState =
      m.logState.enqueueAll [{ timestamp, message }] := by
  rcases EquiniosLogger.loggerEnqueueLine_spec h.wellFormed (formatLine timestamp message) with
    ⟨ringBuffer, henqueue, _, hcontents⟩
  have hinit' : (m.enqueueLine c timestamp message).logger.initialized = true := by
    rw [enqueueLine, henqueue]
    exact hinit
  rw [logState_of_initialized hinit, logState_of_initialized hinit', enqueueLine, henqueue]
  unfold EquiniosLogger.logState LogState.enqueueAll
  simp only [EquiniosLogger.queued, hcontents, List.foldl_cons, List.foldl_nil]
  rfl

end Sections

/-- A call without interruption is one step of the sequential object. -/
theorem logState_apiCall {m : Machine} (h : m.Sound) (c : ContextId) {call : ApiCall}
    (hcall : call.IsLogging) : (call.run c m).logState = m.logState.apply call := by
  have hinit := initialized_loggerEnsureInitialized m
  cases call with
  | logSetLevel level =>
    rw [ApiCall.run, logState_setLogLevel hinit, logState_loggerEnsureInitialized]
    rfl
  | logSetTimestampProvider provider =>
    have hinit' := initialized_loggerEnsureInitialized m.loggerEnsureInitialized
    rw [ApiCall.run, logState_setTimestampProvider hinit', logState_loggerEnsureInitialized,
      logState_loggerEnsureInitialized]
    rfl
  | logWrite level formatted answer =>
    have hinit' := initialized_loggerEnsureInitialized m.loggerEnsureInitialized
    have hsound := h.loggerEnsureInitialized.loggerEnsureInitialized
    have hfilters := filters_logState hinit' level
    rw [logState_loggerEnsureInitialized, logState_loggerEnsureInitialized] at hfilters
    rw [ApiCall.run, logVwrite, LogState.apply, hfilters]
    simp only
    split
    · rw [logState_loggerEnsureInitialized, logState_loggerEnsureInitialized]
    · have hdraw := logState_getTimestamp hinit' c answer
      have hsound' := hsound.step (.getTimestamp answer : Section c _ _)
      rw [logState_loggerEnsureInitialized, logState_loggerEnsureInitialized] at hdraw
      rw [LogState.stamp, ← hdraw]
      exact logState_enqueueLine (m := (Machine.getTimestamp _ c answer).2) hinit' hsound' c _ _
  | _ => exact hcall.elim

end Machine

end Equinios
end RadonMCU
