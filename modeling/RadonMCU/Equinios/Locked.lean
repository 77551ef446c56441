import RadonMCU.Equinios.Machine
import RadonMCU.Foundations.GuardedAccess

/-!
# The logger with its lock

The functions of {lit}`EquiniosLogger.c` and {lit}`equinios.c` with the status word of
the processor, every {lit}`EquiniosLock.enter` and {lit}`EquiniosLock.exit`, and every
access to the fields that the lock protects.  A timestamp function may call back into
{lit}`equinios.h` while the lock is held.  A field is read and written as a whole; the
log keeps each access with the status word at that time.

Main results:

- Theorems {lit}`computes_evictLoop` and {lit}`computes_loggerEnqueueLine`: the loops of
  {lit}`logger_enqueue_line` compute those of the logger object.
- Theorem {lit}`computes_popChunkFromBuffer`: so does popping a chunk, which ends the
  do-while loop of {lit}`process`.
-/

namespace RadonMCU
namespace Equinios
namespace Locked

open Guarded

/-! ## Protected fields -/

/-- The fields of {lit}`struct EquiniosLogger` that the lock protects. -/
inductive Field where
  | initialized
  | logLevel
  | logProcessDivider
  | logProcessEveryNCalls
  | droppedLines
  | ringBuffer
  | timestampProvider
deriving DecidableEq, Repr

namespace Field

/-- The type of a member of the logger. -/
abbrev Value : Field → Type
  | .initialized => Bool
  | .logLevel => LogLevel
  | .logProcessDivider | .logProcessEveryNCalls | .droppedLines => UInt32
  | .ringBuffer => RingBuffer
  | .timestampProvider => TimestampProvider

/-- The value of a member. -/
def get (this : EquiniosLogger) : (field : Field) → field.Value
  | .initialized => this.initialized
  | .logLevel => this.logLevel
  | .logProcessDivider => this.logProcessDivider
  | .logProcessEveryNCalls => this.logProcessEveryNCalls
  | .droppedLines => this.droppedLines
  | .ringBuffer => this.ringBuffer
  | .timestampProvider => this.timestampProvider

/-- The logger with another value of a member. -/
def set (this : EquiniosLogger) : (field : Field) → field.Value → EquiniosLogger
  | .initialized, value => { this with initialized := value }
  | .logLevel, value => { this with logLevel := value }
  | .logProcessDivider, value => { this with logProcessDivider := value }
  | .logProcessEveryNCalls, value => { this with logProcessEveryNCalls := value }
  | .droppedLines, value => { this with droppedLines := value }
  | .ringBuffer, value => { this with ringBuffer := value }
  | .timestampProvider, value => { this with timestampProvider := value }

end Field

/-- The static logger and what {lit}`putchar` emitted. -/
structure Memory where
  logger : EquiniosLogger
  stdout : List UInt8

/-- The processor with its status word. -/
abbrev Cpu := Guarded UInt32 Field Memory

/-- Code of the logger: it reads and writes members, and takes and releases the lock. -/
abbrev Code (α : Type) := Program UInt32 Field Memory α

/-- {lit}`EquiniosLock.enter`: read the status register and write zero to it. -/
def enterEquiniosLock : Code UInt32 := enter 0

/-- {lit}`EquiniosLock.exit`. -/
def exitEquiniosLock (state : UInt32) : Code Unit := exit state

/-- One access: the value of a member. -/
def read (field : Field) : Code field.Value :=
  access field fun memory => (field.get memory.logger, memory)

/-- One access: a new value of a member. -/
def write (field : Field) (value : field.Value) : Code Unit :=
  access field fun memory => ((), { memory with logger := field.set memory.logger value })

/-- One byte to {lit}`stdout`, which is not a member of the logger. -/
def putchar (byte : UInt8) : Code Unit :=
  unguarded fun memory => ((), { memory with stdout := memory.stdout ++ [byte] })

/-! ## Initialisation and settings -/

/-- The first use initialises the logger, in a section of its own. -/
def loggerEnsureInitialized : Code Unit := do
  let lockState ← enterEquiniosLock
  if !(← read .initialized) then
    write .ringBuffer RingBuffer.new
    write .timestampProvider TimestampProvider.new
    write .initialized true
  exitEquiniosLock lockState

/-- The member is written in one section. -/
def setLogLevel (level : LogLevel) : Code Unit := do
  let lockState ← enterEquiniosLock
  write .logLevel level
  exitEquiniosLock lockState

/-- A period of 0 is taken for 1; both members are written in one section. -/
def setProcessEveryNCalls (calls : UInt32) : Code Unit := do
  let calls := if calls = 0 then 1 else calls
  let lockState ← enterEquiniosLock
  write .logProcessEveryNCalls calls
  write .logProcessDivider 0
  exitEquiniosLock lockState

/-- The provider is read and written in one section, after the first use. -/
def setTimestampProvider (provider : Option Provider) : Code Unit := do
  loggerEnsureInitialized
  let lockState ← enterEquiniosLock
  let timestampProvider ← read .timestampProvider
  write .timestampProvider (timestampProvider.setProvider provider).2
  exitEquiniosLock lockState

/-- The counter is read in one section. -/
def getDroppedLines : Code UInt32 := do
  let lockState ← enterEquiniosLock
  let droppedLines ← read .droppedLines
  exitEquiniosLock lockState
  return droppedLines

/-- The counter is cleared in one section. -/
def resetDroppedLines : Code Unit := do
  let lockState ← enterEquiniosLock
  write .droppedLines 0
  exitEquiniosLock lockState

/-! ## The wrappers a timestamp function may call -/

/-- The call {lit}`log_set_level`. -/
def logSetLevel (level : LogLevel) : Code Unit := do
  loggerEnsureInitialized
  setLogLevel level

/-- The call {lit}`log_set_process_every_n_calls`. -/
def logSetProcessEveryNCalls (calls : UInt32) : Code Unit := do
  loggerEnsureInitialized
  setProcessEveryNCalls calls

/-- The call {lit}`log_set_timestamp_provider`. -/
def logSetTimestampProvider (provider : Option Provider) : Code Unit := do
  loggerEnsureInitialized
  setTimestampProvider provider

/-- The call {lit}`log_get_dropped_lines`. -/
def logGetDroppedLines : Code UInt32 := do
  loggerEnsureInitialized
  getDroppedLines

/-- The call {lit}`log_reset_dropped_lines`. -/
def logResetDroppedLines : Code Unit := do
  loggerEnsureInitialized
  resetDroppedLines

/-- One execution of a timestamp function: its calls of {lit}`equinios.h`, which may
depend on the answers it gets, and the timestamp it returns. -/
inductive Callback where
  | answer (timestamp : UInt32)
  | logGetDroppedLines (next : UInt32 → Callback)
  | logResetDroppedLines (next : Callback)
  | logSetLevel (level : LogLevel) (next : Callback)
  | logSetProcessEveryNCalls (calls : UInt32) (next : Callback)

/-- What a callback does with the lock held: its own calls of the logger, then its answer. -/
def Callback.run : Callback → Code UInt32
  | .answer timestamp => pure timestamp
  | .logGetDroppedLines next => do
    let droppedLines ← Locked.logGetDroppedLines
    (next droppedLines).run
  | .logResetDroppedLines next => do
    Locked.logResetDroppedLines
    next.run
  | .logSetLevel level next => do
    Locked.logSetLevel level
    next.run
  | .logSetProcessEveryNCalls calls next => do
    Locked.logSetProcessEveryNCalls calls
    next.run

/-- {lit}`get_timestamp` of the provider; {lit}`callback` is what the installed function
does if it is called. -/
def getTimestamp (callback : Callback) : Code UInt32 := do
  let provider ← read .timestampProvider
  match provider.timestampProvider with
  | some _ => callback.run
  | none =>
    let provider ← read .timestampProvider
    write .timestampProvider { provider with ticksCount := provider.ticksCount + 1 }
    return provider.ticksCount

/-! ## The ring buffer of the logger -/

/-- {lit}`RingBuffer_size`, as one access of the ring. -/
def ringSize : Code SizeT := do
  let ringBuffer ← read .ringBuffer
  return ringBuffer.size

/-- {lit}`RingBuffer_is_empty`, as one access of the ring. -/
def ringIsEmpty : Code Bool := do
  let ringBuffer ← read .ringBuffer
  return ringBuffer.isEmpty

/-- {lit}`RingBuffer_push`: the ring is read, and written back unless it was full. -/
def ringPush (byte : UInt8) : Code Bool := do
  let ringBuffer ← read .ringBuffer
  match ringBuffer.push byte with
  | (true, ringBuffer) =>
    write .ringBuffer ringBuffer
    return true
  | (false, _) => return false

/-- {lit}`RingBuffer_pop`: the ring is read, and written back unless it was empty. -/
def ringPop : Code (Option UInt8) := do
  let ringBuffer ← read .ringBuffer
  match ringBuffer.pop with
  | none => return none
  | some (byte, ringBuffer) =>
    write .ringBuffer ringBuffer
    return some byte

section Memory

variable (s : Cpu)

/-- A read gives the value of the member. -/
@[simp] theorem read_fst (field : Field) : (read field s).1 = field.get s.memory.logger := rfl

/-- A read leaves the memory. -/
@[simp] theorem read_memory (field : Field) : (read field s).2.memory = s.memory := rfl

/-- A write changes its member alone. -/
@[simp] theorem write_memory (field : Field) (value : field.Value) :
    (write field value s).2.memory =
      { s.memory with logger := field.set s.memory.logger value } := rfl

/-- A byte to {lit}`stdout` leaves the logger. -/
@[simp] theorem putchar_memory (byte : UInt8) :
    (putchar byte s).2.memory =
      { s.memory with stdout := s.memory.stdout ++ [byte] } := rfl

variable {s}

/-- What a refused {lit}`pop` leaves. -/
theorem ringPop_eq_none {s' : Cpu} (h : ringPop s = (none, s')) :
    s.memory.logger.ringBuffer.pop = none ∧ s'.memory = s.memory := by
  cases hpop : s.memory.logger.ringBuffer.pop with
  | none =>
    simp only [ringPop, bind_apply, read_fst, Field.get, hpop] at h
    cases h
    exact ⟨rfl, rfl⟩
  | some popped =>
    simp only [ringPop, bind_apply, read_fst, Field.get, hpop] at h
    cases h

/-- What a successful {lit}`pop` leaves. -/
theorem ringPop_eq_some {s' : Cpu} {byte : UInt8} (h : ringPop s = (some byte, s')) :
    ∃ ringBuffer, s.memory.logger.ringBuffer.pop = some (byte, ringBuffer) ∧
      s'.memory = { s.memory with logger := { s.memory.logger with ringBuffer } } := by
  cases hpop : s.memory.logger.ringBuffer.pop with
  | none =>
    simp only [ringPop, bind_apply, read_fst, Field.get, hpop] at h
    cases h
  | some popped =>
    simp only [ringPop, bind_apply, read_fst, Field.get, hpop] at h
    cases h
    exact ⟨popped.2, rfl, rfl⟩

/-- A byte is taken from the count. -/
theorem ringPop_count {s' : Cpu} {byte : UInt8} (h : ringPop s = (some byte, s')) :
    s.memory.logger.ringBuffer.count.toNat = s'.memory.logger.ringBuffer.count.toNat + 1 := by
  rcases ringPop_eq_some h with ⟨ringBuffer, hpop, hmemory⟩
  rw [hmemory]
  exact RingBuffer.pop_count hpop

end Memory

/-! ## Queueing a line -/

/-- The code computes what the function does to the logger object. -/
def Computes {α : Type} (code : Code α) (f : EquiniosLogger → α × EquiniosLogger) : Prop :=
  ∀ s : Cpu, (code s).1 = (f s.memory.logger).1 ∧
    (code s).2.memory = { s.memory with logger := (f s.memory.logger).2 }

/-- The loop of {lit}`ring_buffer_discard_oldest_line`. -/
def discardLoop (discarded : Bool) (s : Cpu) : Bool × Cpu :=
  match _h : ringPop s with
  | (none, s) => (discarded, s)
  | (some byte, s) => if byte = newline then (true, s) else discardLoop true s
termination_by s.memory.logger.ringBuffer.count.toNat
decreasing_by
  have hcount := ringPop_count _h
  omega

/-- {lit}`ring_buffer_discard_oldest_line`. -/
def ringBufferDiscardOldestLine : Code Bool := discardLoop false

/-- {lit}`RING_BUFFER_SIZE - size`. -/
def freeSpace : Code SizeT := do
  let size ← ringSize
  return ringBufferSize - size

/-- The last part of a turn of the eviction loop. -/
def evictTurn : Code Unit := do
  if (← ringBufferDiscardOldestLine) then
    let droppedLines ← read .droppedLines
    write .droppedLines (droppedLines + 1)

/-- The accesses of the discarding loop compute what {lit}`discardLoop` does. -/
theorem computes_discardLoop (discarded : Bool) :
    Computes (discardLoop discarded) fun this => this.discardLoop discarded := by
  intro s
  beta_reduce
  induction discarded, s using discardLoop.induct with
  | case1 discarded s s' hring =>
    rcases ringPop_eq_none hring with ⟨hpop, hmemory⟩
    rw [discardLoop, hring, EquiniosLogger.discardLoop, hpop]
    exact ⟨rfl, hmemory⟩
  | case2 discarded s s' hring =>
    rcases ringPop_eq_some hring with ⟨ringBuffer, hpop, hmemory⟩
    rw [discardLoop, hring, EquiniosLogger.discardLoop, hpop]
    exact ⟨rfl, hmemory⟩
  | case3 discarded s byte s' hring hbyte ih =>
    rcases ringPop_eq_some hring with ⟨ringBuffer, hpop, hmemory⟩
    rw [discardLoop, hring, EquiniosLogger.discardLoop, hpop]
    simp only [if_neg hbyte]
    rw [hmemory] at ih
    exact ih

/-- The accesses of a turn of the evicting loop compute what {lit}`evictTurn` does. -/
theorem computes_evictTurn : Computes evictTurn fun this => ((), this.evictTurn) := by
  intro s
  have hdiscard := computes_discardLoop false s
  refine ⟨rfl, ?_⟩
  beta_reduce at hdiscard ⊢
  rw [evictTurn, bind_apply, EquiniosLogger.evictTurn]
  simp only [ringBufferDiscardOldestLine, hdiscard.1, EquiniosLogger.ringBufferDiscardOldestLine]
  by_cases hdiscarded : (s.memory.logger.discardLoop false).1 = true
  · simp [hdiscarded, hdiscard.2, Field.get, Field.set]
  · simp [hdiscarded, hdiscard.2]

/-- A turn of the evicting loop on a ring with bytes leaves fewer of them. -/
theorem evictTurn_count {s : Cpu} (h : (ringIsEmpty s).1 = false) :
    (evictTurn s).2.memory.logger.ringBuffer.count.toNat <
      s.memory.logger.ringBuffer.count.toNat := by
  rw [(computes_evictTurn s).2]
  exact EquiniosLogger.evictTurn_count_lt h

/-- The eviction loop of {lit}`logger_enqueue_line`, with its early break on an empty
ring. -/
def evictLoop (lineLen : Nat) (s : Cpu) : Unit × Cpu :=
  let free := freeSpace s
  if free.1.toNat < lineLen then
    let empty := ringIsEmpty free.2
    if _h : empty.1 = true then ((), empty.2)
    else evictLoop lineLen (evictTurn empty.2).2
  else ((), free.2)
termination_by s.memory.logger.ringBuffer.count.toNat
decreasing_by exact evictTurn_count (Bool.eq_false_iff.mpr _h)

/-- The accesses of the evicting loop compute what {lit}`evictLoop` does. -/
theorem computes_evictLoop (lineLen : Nat) :
    Computes (evictLoop lineLen) fun this => ((), this.evictLoop lineLen) := by
  intro s
  refine ⟨rfl, ?_⟩
  beta_reduce
  induction s using evictLoop.induct lineLen with
  | case1 s free hroom empty hempty =>
    have hempty' : s.memory.logger.ringBuffer.isEmpty = true := hempty
    rw [evictLoop, EquiniosLogger.evictLoop, dif_pos hempty', ite_self]
    simp only [show (freeSpace s).1.toNat < lineLen from hroom, if_true,
      show (ringIsEmpty (freeSpace s).2).1 = true from hempty, dite_true]
    rfl
  | case2 s free hroom empty hempty ih =>
    have hempty' : ¬ s.memory.logger.ringBuffer.isEmpty = true := hempty
    have hroom' : s.memory.logger.freeSpace.toNat < lineLen := hroom
    rw [(computes_evictTurn _).2] at ih
    rw [evictLoop, EquiniosLogger.evictLoop, if_pos hroom', dif_neg hempty']
    simp only [show (freeSpace s).1.toNat < lineLen from hroom, if_true,
      show ¬ (ringIsEmpty (freeSpace s).2).1 = true from hempty]
    exact ih
  | case3 s free hroom =>
    have hroom' : ¬ s.memory.logger.freeSpace.toNat < lineLen := hroom
    rw [evictLoop, EquiniosLogger.evictLoop, if_neg hroom']
    simp only [show ¬ (freeSpace s).1.toNat < lineLen from hroom, if_false]
    rfl

/-- The push loop of {lit}`logger_enqueue_line`. -/
def pushLoop : List UInt8 → Code Unit
  | [] => pure ()
  | byte :: rest => do
    if (← ringPush byte) then pushLoop rest

/-- The accesses of the storing loop compute what {lit}`pushLoop` does. -/
theorem computes_pushLoop (line : List UInt8) :
    Computes (pushLoop line) fun this => ((), (this.pushLoop line).2) := by
  intro s
  refine ⟨rfl, ?_⟩
  beta_reduce
  induction line generalizing s with
  | nil => rfl
  | cons byte rest ih =>
    cases hpush : s.memory.logger.ringBuffer.push byte with
    | mk pushed ringBuffer =>
      cases pushed with
      | true =>
        have hring : (ringPush byte s).1 = true ∧ (ringPush byte s).2.memory =
            { s.memory with logger := { s.memory.logger with ringBuffer } } := by
          simp [ringPush, Field.get, Field.set, hpush]
        rw [pushLoop, bind_apply, hring.1, if_pos rfl, ih, hring.2, EquiniosLogger.pushLoop, hpush]
      | false =>
        simp [pushLoop, ringPush, Field.get, EquiniosLogger.pushLoop, hpush]

/-- {lit}`logger_enqueue_line`: make room, then store the bytes of the line. -/
def loggerEnqueueLine (line : CString) : Code Unit := do
  let kept := EquiniosLogger.lineTail line.bytes
  evictLoop kept.length
  pushLoop kept

/-- The accesses of {lit}`logger_enqueue_line` compute what it does. -/
theorem computes_loggerEnqueueLine (line : CString) :
    Computes (loggerEnqueueLine line) fun this => ((), this.loggerEnqueueLine line) := by
  intro s
  refine ⟨rfl, ?_⟩
  beta_reduce
  rw [loggerEnqueueLine, bind_apply, (computes_pushLoop _ _).2, (computes_evictLoop _ _).2]
  rfl

/-! ## The calls -/

/-- {lit}`log_vwrite`; {lit}`formatted` is the text its arguments format to. -/
def logVwrite (level : LogLevel) (formatted : List UInt8) (callback : Callback) :
    Code Unit := do
  loggerEnsureInitialized
  let lockState ← enterEquiniosLock
  let logLevel ← read .logLevel
  if level.value > logLevel.value then
    exitEquiniosLock lockState
  else
    exitEquiniosLock lockState
    let message := formatMessage formatted
    let lockState ← enterEquiniosLock
    let timestamp ← getTimestamp callback
    exitEquiniosLock lockState
    let line := formatLine timestamp message
    let lockState ← enterEquiniosLock
    loggerEnqueueLine line
    exitEquiniosLock lockState

/-- {lit}`should_process`: count the call in one section and say whether it flushes. -/
def shouldProcess : Code Bool := do
  let lockState ← enterEquiniosLock
  let divider ← read .logProcessDivider
  write .logProcessDivider (divider + 1)
  let divider ← read .logProcessDivider
  let everyNCalls ← read .logProcessEveryNCalls
  let shouldFlush := decide (divider ≥ everyNCalls)
  if shouldFlush then
    write .logProcessDivider 0
  exitEquiniosLock lockState
  return shouldFlush

/-- The loop of {lit}`pop_chunk_from_buffer`. -/
def popLoop : Nat → Code (List UInt8)
  | 0 => return []
  | maxLen + 1 => do
    match (← ringPop) with
    | none => return []
    | some byte =>
      let rest ← popLoop maxLen
      return byte :: rest

/-- {lit}`pop_chunk_from_buffer`: at most so many bytes, in one section. -/
def popChunkFromBuffer (maxLen : Nat) : Code (List UInt8) := do
  let lockState ← enterEquiniosLock
  let chunk ← popLoop maxLen
  exitEquiniosLock lockState
  return chunk

/-- The accesses of the popping loop compute the chunk and the ring without it. -/
theorem computes_popLoop (maxLen : Nat) :
    Computes (popLoop maxLen) fun this => this.popChunkFromBuffer maxLen := by
  intro s
  beta_reduce
  induction maxLen generalizing s with
  | zero => exact ⟨rfl, rfl⟩
  | succ maxLen ih =>
    cases hring : ringPop s with
    | mk byte s' =>
      cases byte with
      | none =>
        rcases ringPop_eq_none hring with ⟨hpop, hmemory⟩
        rw [popLoop, bind_apply, hring, EquiniosLogger.popChunkFromBuffer, hpop]
        exact ⟨rfl, hmemory⟩
      | some byte =>
        rcases ringPop_eq_some hring with ⟨ringBuffer, hpop, hmemory⟩
        have hrest := ih s'
        rw [hmemory] at hrest
        rw [popLoop, bind_apply, hring, EquiniosLogger.popChunkFromBuffer, hpop]
        exact ⟨congrArg (byte :: ·) hrest.1, hrest.2⟩

/-- The section of {lit}`pop_chunk_from_buffer` computes the same chunk and ring. -/
theorem computes_popChunkFromBuffer (maxLen : Nat) :
    Computes (popChunkFromBuffer maxLen) fun this => this.popChunkFromBuffer maxLen :=
  fun s => computes_popLoop maxLen { s with word := 0 }

/-- Print a chunk. -/
def putchars : List UInt8 → Code Unit
  | [] => return ()
  | byte :: rest => do
    putchar byte
    putchars rest

/-- A chunk goes to {lit}`stdout`, and the logger stays. -/
theorem putchars_memory (chunk : List UInt8) (s : Cpu) :
    (putchars chunk s).2.memory =
      { s.memory with stdout := s.memory.stdout ++ chunk } := by
  induction chunk generalizing s with
  | nil => simp [putchars]
  | cons byte rest ih =>
    rw [putchars, bind_apply, ih, putchar_memory, List.append_assoc]
    rfl

/-- One turn of the do-while loop of {lit}`process`. -/
def processTurn : Code Nat := do
  let chunk ← popChunkFromBuffer logProcessChunkSize
  putchars chunk
  return chunk.length

/-- A turn of the flush that found bytes leaves fewer of them in the ring. -/
theorem processTurn_count {s : Cpu} (h : (processTurn s).1 > 0) :
    (processTurn s).2.memory.logger.ringBuffer.count.toNat <
      s.memory.logger.ringBuffer.count.toNat := by
  have hpop := computes_popChunkFromBuffer logProcessChunkSize s
  have hcount := s.memory.logger.popChunkFromBuffer_count logProcessChunkSize
  have hlength : (processTurn s).1 =
      (s.memory.logger.popChunkFromBuffer logProcessChunkSize).1.length :=
    congrArg List.length hpop.1
  have hlogger : (processTurn s).2.memory.logger =
      (s.memory.logger.popChunkFromBuffer logProcessChunkSize).2 := by
    rw [processTurn, bind_apply, bind_apply, pure_apply, putchars_memory, hpop.2]
  rw [hlogger]
  omega

/-- The do-while loop of {lit}`process`. -/
def processLoop (s : Cpu) : Unit × Cpu :=
  let count := processTurn s
  if _h : count.1 > 0 then processLoop count.2 else ((), count.2)
termination_by s.memory.logger.ringBuffer.count.toNat
decreasing_by exact processTurn_count _h

/-- {lit}`process`: when it is time, print the ring in chunks. -/
def process : Code Unit := do
  if (← shouldProcess) then processLoop

/-- A call of {lit}`equinios.h`; a {lit}`log_write` comes with what the timestamp
function does in it. -/
inductive Call where
  | logSetLevel (level : LogLevel)
  | logSetProcessEveryNCalls (calls : UInt32)
  | logSetTimestampProvider (provider : Option Provider)
  | logGetDroppedLines
  | logResetDroppedLines
  | logWrite (level : LogLevel) (formatted : List UInt8) (callback : Callback)
  | logProcess

/-- Each wrapper of {lit}`equinios.c` first gets the instance. -/
def Call.run : Call → Code Unit
  | .logSetLevel level => Locked.logSetLevel level
  | .logSetProcessEveryNCalls calls => Locked.logSetProcessEveryNCalls calls
  | .logSetTimestampProvider provider => Locked.logSetTimestampProvider provider
  | .logGetDroppedLines => do
    let _ ← Locked.logGetDroppedLines
  | .logResetDroppedLines => Locked.logResetDroppedLines
  | .logWrite level formatted callback => do
    loggerEnsureInitialized
    logVwrite level formatted callback
  | .logProcess => do
    loggerEnsureInitialized
    process

end Locked
end Equinios
end RadonMCU
