import RadonMCU.RingBuffer
import RadonMCU.Equinios.Format

/-!
# The logger object

The functions of {lit}`TimestampProvider.c` and {lit}`EquiniosLogger.c` on the
data of {lit}`struct EquiniosLogger`.  Each function is the code between one
{lit}`EquiniosLock.enter` and its {lit}`EquiniosLock.exit`, or is called from
such a section.  The loops over the ring buffer end because every turn takes at
least one byte from it, so they are total functions on every state.

Main results:

- Theorem {lit}`ringBufferDiscardOldestLine_count_lt`: on a ring that is not
  empty a discard takes at least one byte, which ends the eviction loop.
- Theorem {lit}`newEquiniosLogger_eq`: a new logger is the initialised static
  instance.
-/

namespace RadonMCU
namespace Equinios

/-- {lit}`log_level_t`. -/
inductive LogLevel where
  | critical
  | error
  | warning
  | info
  | debug
  | trace
deriving DecidableEq, Repr

/-- The value of the enumerator. -/
def LogLevel.value : LogLevel → Nat
  | .critical => 0
  | .error => 1
  | .warning => 2
  | .info => 3
  | .debug => 4
  | .trace => 5

/-- Address of a timestamp function; the null pointer is {lit}`none`. -/
structure Provider where
  address : UInt32
deriving DecidableEq, Repr

/-! ## TimestampProvider.c -/

/-- {lit}`TimestampProvider`: a function, or a null pointer, and the fallback counter. -/
structure TimestampProvider where
  timestampProvider : Option Provider
  ticksCount : UInt32
deriving DecidableEq, Repr

namespace TimestampProvider

/-- {lit}`answer` is what the installed function returns if it is called. -/
def getTimestamp (this : TimestampProvider) (answer : UInt32) : UInt32 × TimestampProvider :=
  match this.timestampProvider with
  | some _ => (answer, this)
  | none => (this.ticksCount, { this with ticksCount := this.ticksCount + 1 })

/-- {lit}`TimestampProvider_set_provider`: a null pointer is refused. -/
def setProvider (this : TimestampProvider) : Option Provider → Bool × TimestampProvider
  | none => (false, this)
  | some provider => (true, { this with timestampProvider := some provider })

/-- {lit}`newTimestampProvider`. -/
def new : TimestampProvider := { timestampProvider := none, ticksCount := 0 }

end TimestampProvider

/-! ## The object and its static instance -/

/-- {lit}`EQUINIOS_LOG_PROCESS_EVERY_N_CALLS_DEFAULT`. -/
def logProcessEveryNCallsDefault : UInt32 := 2

/-- {lit}`EQUINIOS_LOG_PROCESS_CHUNK_SIZE`. -/
def logProcessChunkSize : Nat := 32

/-- The private members of {lit}`struct EquiniosLogger`. -/
structure EquiniosLogger where
  initialized : Bool
  logLevel : LogLevel
  logProcessDivider : UInt32
  logProcessEveryNCalls : UInt32
  droppedLines : UInt32
  ringBuffer : RingBuffer
  timestampProvider : TimestampProvider

/-- {lit}`g_instance` before its first use: the members without an initialiser
are zero. -/
def gInstance : EquiniosLogger where
  initialized := false
  logLevel := .info
  logProcessDivider := 0
  logProcessEveryNCalls := logProcessEveryNCallsDefault
  droppedLines := 0
  ringBuffer := { buffer := Vector.replicate _ 0, head := 0, tail := 0, count := 0 }
  timestampProvider := { timestampProvider := none, ticksCount := 0 }

namespace EquiniosLogger

/-! ## Initialisation and settings -/

/-- {lit}`logger_ensure_initialized`. -/
def loggerEnsureInitialized (this : EquiniosLogger) : EquiniosLogger :=
  if this.initialized then this
  else
    { this with
      ringBuffer := RingBuffer.new
      timestampProvider := TimestampProvider.new
      initialized := true }

/-- {lit}`set_log_level`. -/
def setLogLevel (this : EquiniosLogger) (level : LogLevel) : EquiniosLogger :=
  { this with logLevel := level }

/-- {lit}`set_process_every_n_calls`. -/
def setProcessEveryNCalls (this : EquiniosLogger) (calls : UInt32) : EquiniosLogger :=
  let calls := if calls = 0 then 1 else calls
  { this with logProcessEveryNCalls := calls, logProcessDivider := 0 }

/-- The second section of {lit}`set_timestamp_provider`; the first one is
{lit}`logger_ensure_initialized`. -/
def setTimestampProvider (this : EquiniosLogger) (provider : Option Provider) :
    EquiniosLogger :=
  { this with timestampProvider := (this.timestampProvider.setProvider provider).2 }

/-- {lit}`get_dropped_lines`. -/
def getDroppedLines (this : EquiniosLogger) : UInt32 := this.droppedLines

/-- {lit}`reset_dropped_lines`. -/
def resetDroppedLines (this : EquiniosLogger) : EquiniosLogger :=
  { this with droppedLines := 0 }

/-- {lit}`newEquiniosLogger`, on the current static instance. -/
def newEquiniosLogger (instance_ : EquiniosLogger) : EquiniosLogger :=
  { instance_ with
    ringBuffer := RingBuffer.new
    timestampProvider := TimestampProvider.new
    initialized := true
    logLevel := .info
    logProcessDivider := 0
    logProcessEveryNCalls := logProcessEveryNCallsDefault
    droppedLines := 0 }

/-! ## Queueing a line -/

/-- The loop of {lit}`ring_buffer_discard_oldest_line`. -/
def discardLoop (this : EquiniosLogger) (discarded : Bool) : Bool × EquiniosLogger :=
  match _h : this.ringBuffer.pop with
  | none => (discarded, this)
  | some (byte, ringBuffer) =>
      if byte = newline then (true, { this with ringBuffer })
      else discardLoop { this with ringBuffer } true
termination_by this.ringBuffer.count.toNat
decreasing_by
  have hcount := RingBuffer.pop_count _h
  omega

/-- {lit}`ring_buffer_discard_oldest_line`: whether it has discarded anything. -/
def ringBufferDiscardOldestLine (this : EquiniosLogger) : Bool × EquiniosLogger :=
  this.discardLoop false

/-- The discarding loop stores nothing. -/
theorem discardLoop_count_le (this : EquiniosLogger) (discarded : Bool) :
    (this.discardLoop discarded).2.ringBuffer.count.toNat ≤ this.ringBuffer.count.toNat := by
  induction this, discarded using discardLoop.induct with
  | case1 this discarded hpop => rw [discardLoop, hpop]
  | case2 this discarded ringBuffer hpop =>
    have hcount := RingBuffer.pop_count hpop
    rw [discardLoop, hpop]
    simp only [if_true]
    omega
  | case3 this discarded byte ringBuffer hpop hbyte ih =>
    have hcount := RingBuffer.pop_count hpop
    rw [discardLoop, hpop]
    simp only [if_neg hbyte]
    simp only at ih
    omega

/-- On a ring that is not empty a discard takes at least one byte. -/
theorem ringBufferDiscardOldestLine_count_lt {this : EquiniosLogger}
    (h : this.ringBuffer.isEmpty = false) :
    this.ringBufferDiscardOldestLine.2.ringBuffer.count.toNat <
      this.ringBuffer.count.toNat := by
  rw [ringBufferDiscardOldestLine, discardLoop]
  split
  · rename_i hpop
    rw [RingBuffer.pop, h] at hpop
    simp at hpop
  · rename_i byte ringBuffer hpop
    have hcount := RingBuffer.pop_count hpop
    split
    · simp only
      omega
    · have hle := discardLoop_count_le { this with ringBuffer } true
      simp only at hle
      omega

/-- {lit}`RING_BUFFER_SIZE - size`, as the 32-bit subtraction it is. -/
def freeSpace (this : EquiniosLogger) : SizeT := ringBufferSize - this.ringBuffer.size

/-- The last part of a turn of the eviction loop: discard and count. -/
def evictTurn (this : EquiniosLogger) : EquiniosLogger :=
  let res := this.ringBufferDiscardOldestLine
  if res.1 then { res.2 with droppedLines := res.2.droppedLines + 1 } else res.2

/-- A turn of the evicting loop on a ring with bytes takes some of them. -/
theorem evictTurn_count_lt {this : EquiniosLogger} (h : this.ringBuffer.isEmpty = false) :
    this.evictTurn.ringBuffer.count.toNat < this.ringBuffer.count.toNat := by
  have hlt := ringBufferDiscardOldestLine_count_lt h
  rw [evictTurn]
  cases this.ringBufferDiscardOldestLine.1 <;> exact hlt

/-- The eviction loop of {lit}`logger_enqueue_line`, with its early break on an
empty ring. -/
def evictLoop (this : EquiniosLogger) (lineLen : Nat) : EquiniosLogger :=
  if this.freeSpace.toNat < lineLen then
    if _h : this.ringBuffer.isEmpty = true then this
    else evictLoop this.evictTurn lineLen
  else this
termination_by this.ringBuffer.count.toNat
decreasing_by exact evictTurn_count_lt (Bool.eq_false_iff.mpr _h)

/-- The push loop of {lit}`logger_enqueue_line`, with the value its counter
{lit}`i` has at the end. -/
def pushLoop (this : EquiniosLogger) : List UInt8 → Nat × EquiniosLogger
  | [] => (0, this)
  | byte :: rest =>
      match this.ringBuffer.push byte with
      | (true, ringBuffer) =>
          let res := pushLoop { this with ringBuffer } rest
          (res.1 + 1, res.2)
      | (false, _) => (0, this)

/-- The bytes of a line that {lit}`logger_enqueue_line` keeps: the last 128. -/
def lineTail (line : List UInt8) : List UInt8 :=
  if line.length > ringBufferSize.toNat then line.drop (line.length - ringBufferSize.toNat)
  else line

/-- {lit}`logger_enqueue_line`: make room, then store the bytes of the line. -/
def loggerEnqueueLine (this : EquiniosLogger) (line : CString) : EquiniosLogger :=
  let kept := lineTail line.bytes
  ((this.evictLoop kept.length).pushLoop kept).2

/-! ## Timestamps, level and flushing -/

/-- The section of {lit}`log_vwrite` around {lit}`get_timestamp`. -/
def getTimestamp (this : EquiniosLogger) (answer : UInt32) : UInt32 × EquiniosLogger :=
  let res := this.timestampProvider.getTimestamp answer
  (res.1, { this with timestampProvider := res.2 })

/-- The test of {lit}`log_vwrite` that filters a message out. -/
def filters (this : EquiniosLogger) (level : LogLevel) : Bool :=
  decide (level.value > this.logLevel.value)

/-- {lit}`should_process`: count the call, and start again when it flushes. -/
def shouldProcess (this : EquiniosLogger) : Bool × EquiniosLogger :=
  let divider := this.logProcessDivider + 1
  let shouldFlush := decide (divider ≥ this.logProcessEveryNCalls)
  (shouldFlush, { this with logProcessDivider := if shouldFlush then 0 else divider })

/-- At most {lit}`maxLen` bytes from the ring; the count is the length of the
chunk. -/
def popChunkFromBuffer (this : EquiniosLogger) : Nat → List UInt8 × EquiniosLogger
  | 0 => ([], this)
  | maxLen + 1 =>
      match this.ringBuffer.pop with
      | none => ([], this)
      | some (byte, ringBuffer) =>
          let res := popChunkFromBuffer { this with ringBuffer } maxLen
          (byte :: res.1, res.2)

/-- A new logger is the initialised static instance, whatever became of it. -/
theorem newEquiniosLogger_eq (instance_ : EquiniosLogger) :
    newEquiniosLogger instance_ = gInstance.loggerEnsureInitialized := rfl

end EquiniosLogger

end Equinios
end RadonMCU
