import RadonMCU.Equinios.Enqueue
import RadonMCU.Foundations.LineQueue

/-!
# Critical sections and public calls

The machine is the static logger together with the history of what its critical
sections and {lit}`putchar` did, each entry with the context that did it.  The
history is proof-only: no function reads it.  The public functions of
{lit}`equinios.c` are given as one context runs them without interruption.

The ledger of a machine is the abstract line queue of its ring and history.

Main results:

- Theorem {lit}`ledger_enqueueLine`: queueing a line is one offer to the line
  queue.
- Theorem {lit}`ledger_popChunk`: popping a chunk is one take of 32 bytes.
- Theorem {lit}`Consistent.step`: every critical section keeps the ring well
  formed, never initialises a logger that holds bytes, and is at most one step of
  the line queue.
-/

namespace RadonMCU
namespace Equinios

open Segments LineQueue

/-- A main loop or an interrupt handler. -/
abbrev ContextId := Nat

/-! ## History -/

/-- What a critical section or {lit}`putchar` did. -/
inductive Event where
  /-- {lit}`get_timestamp` called the installed function. -/
  | providerCalled (provider : Provider)
  /-- A line with this timestamp and message was handed to
  {lit}`logger_enqueue_line`. -/
  | enqueued (timestamp : UInt32) (message : CString)
  /-- One turn of the eviction loop discarded these bytes and incremented
  {lit}`dropped_lines_`. -/
  | discarded (bytes : List UInt8)
  /-- {lit}`pop_chunk_from_buffer` took these bytes. -/
  | popped (bytes : List UInt8)
  /-- {lit}`putchar` emitted this byte. -/
  | putchar (byte : UInt8)
  /-- {lit}`should_process` returned this value. -/
  | flushDecided (flush : Bool)
  /-- {lit}`get_dropped_lines` returned this value. -/
  | gotDroppedLines (dropped : UInt32)
  /-- {lit}`reset_dropped_lines` cleared the counter. -/
  | resetDroppedLines
deriving DecidableEq

/-- The events so far, each with its context. -/
abbrev History := List (ContextId × Event)

/-- The kept bytes of a line with this timestamp and message. -/
def storedLine (timestamp : UInt32) (message : CString) : List UInt8 :=
  EquiniosLogger.lineTail (formatLine timestamp message).bytes

/-- What an accepted {lit}`log_write` hands to {lit}`logger_enqueue_line`. -/
structure Accepted where
  timestamp : UInt32
  message : CString
deriving DecidableEq

namespace Accepted

/-- The text before any limit cuts it. -/
def full (accepted : Accepted) : List UInt8 := fullLine accepted.timestamp accepted.message

/-- The line that is handed over. -/
def line (accepted : Accepted) : List UInt8 :=
  (formatLine accepted.timestamp accepted.message).bytes

/-- The bytes that are stored. -/
def stored (accepted : Accepted) : List UInt8 :=
  storedLine accepted.timestamp accepted.message

end Accepted

/-- The message that an event queues. -/
def Event.accepted? : Event → Option Accepted
  | .enqueued timestamp message => some { timestamp, message }
  | _ => none

/-- The bytes that an event takes from the ring. -/
def Event.removal? : Event → Option (Removal UInt8)
  | .discarded bytes => some ⟨.discarded, bytes⟩
  | .popped bytes => some ⟨.taken, bytes⟩
  | _ => none

/-- The byte that an event prints. -/
def Event.byte? : Event → Option UInt8
  | .putchar byte => some byte
  | _ => none

/-- The value of {lit}`dropped_lines_` without the 32-bit limit. -/
def Event.countDrops (drops : Nat) : Event → Nat
  | .discarded _ => drops + 1
  | .resetDroppedLines => 0
  | _ => drops

/-- Every accepted {lit}`log_write`, in the order of its queueing section. -/
def acceptedOf (hist : History) : List Accepted := hist.filterMap fun entry => entry.2.accepted?

/-- The kept bytes of every queued line, in queueing order. -/
def linesOf (hist : History) : List (List UInt8) := (acceptedOf hist).map Accepted.stored

/-- Every removal from the ring, in order. -/
def removalsOf (hist : History) : List (Removal UInt8) :=
  hist.filterMap fun entry => entry.2.removal?

/-- The bytes emitted through {lit}`putchar`. -/
def stdoutOf (hist : History) : List UInt8 := hist.filterMap fun entry => entry.2.byte?

/-- How often {lit}`dropped_lines_` was incremented. -/
def dropsOf (hist : History) : Nat := (discardedBlocks (removalsOf hist)).length

/-- How often {lit}`dropped_lines_` was incremented since it was last cleared. -/
def dropsSinceReset (hist : History) : Nat :=
  hist.foldl (fun drops entry => entry.2.countDrops drops) 0

section History

variable (hist hist' : History)

@[simp] theorem acceptedOf_append :
    acceptedOf (hist ++ hist') = acceptedOf hist ++ acceptedOf hist' :=
  List.filterMap_append

@[simp] theorem linesOf_append : linesOf (hist ++ hist') = linesOf hist ++ linesOf hist' := by
  rw [linesOf, acceptedOf_append, List.map_append]
  rfl

@[simp] theorem removalsOf_append :
    removalsOf (hist ++ hist') = removalsOf hist ++ removalsOf hist' :=
  List.filterMap_append

@[simp] theorem stdoutOf_append : stdoutOf (hist ++ hist') = stdoutOf hist ++ stdoutOf hist' :=
  List.filterMap_append

/-- Entries that neither discard nor clear leave the count. -/
theorem dropsSinceReset_append_of_quiet
    (h : ∀ entry ∈ hist', ∀ drops, entry.2.countDrops drops = drops) :
    dropsSinceReset (hist ++ hist') = dropsSinceReset hist := by
  rw [dropsSinceReset, List.foldl_append, ← dropsSinceReset]
  induction hist' generalizing hist with
  | nil => rfl
  | cons entry hist' ih =>
    rw [List.foldl_cons, h entry List.mem_cons_self]
    exact ih hist fun entry' hmem => h entry' (List.mem_cons_of_mem _ hmem)

/-- Each discarded block counts once. -/
theorem dropsSinceReset_append_discards (c : ContextId) (blocks : List (List UInt8)) :
    dropsSinceReset (hist ++ blocks.map fun bytes => (c, .discarded bytes)) =
      dropsSinceReset hist + blocks.length := by
  rw [dropsSinceReset, List.foldl_append, ← dropsSinceReset]
  generalize dropsSinceReset hist = drops
  induction blocks generalizing drops with
  | nil => rfl
  | cons bytes blocks ih =>
    rw [List.map_cons, List.foldl_cons, ih, Event.countDrops, List.length_cons]
    omega

end History

/-! ## The critical sections -/

/-- The logger with what has happened to it. -/
structure Machine where
  logger : EquiniosLogger
  hist : History

/-- The machine at reset. -/
def Machine.reset : Machine := { logger := gInstance, hist := [] }

namespace Machine

/-- The first use of the logger. -/
def loggerEnsureInitialized (m : Machine) : Machine :=
  { m with logger := m.logger.loggerEnsureInitialized }

/-- The section of {lit}`log_set_level`. -/
def setLogLevel (m : Machine) (level : LogLevel) : Machine :=
  { m with logger := m.logger.setLogLevel level }

/-- The section of {lit}`log_set_process_every_n_calls`. -/
def setProcessEveryNCalls (m : Machine) (calls : UInt32) : Machine :=
  { m with logger := m.logger.setProcessEveryNCalls calls }

/-- The section of {lit}`log_set_timestamp_provider`. -/
def setTimestampProvider (m : Machine) (provider : Option Provider) : Machine :=
  { m with logger := m.logger.setTimestampProvider provider }

/-- The section of {lit}`log_get_dropped_lines`, which records what it answers. -/
def getDroppedLines (m : Machine) (c : ContextId) : UInt32 × Machine :=
  (m.logger.getDroppedLines,
    { m with hist := m.hist ++ [(c, .gotDroppedLines m.logger.getDroppedLines)] })

/-- The section of {lit}`log_reset_dropped_lines`. -/
def resetDroppedLines (m : Machine) (c : ContextId) : Machine where
  logger := m.logger.resetDroppedLines
  hist := m.hist ++ [(c, .resetDroppedLines)]

/-- The timestamp of a message: the answer of the provider, or 0 without one. -/
def getTimestamp (m : Machine) (c : ContextId) (answer : UInt32) : UInt32 × Machine :=
  let res := m.logger.getTimestamp answer
  (res.1,
    { logger := res.2
      hist := m.hist ++ (m.logger.timestampProvider.timestampProvider.toList.map
        fun provider => (c, .providerCalled provider)) })

/-- The part of a write that queues the formatted line. -/
def enqueueLine (m : Machine) (c : ContextId) (timestamp : UInt32) (message : CString) :
    Machine where
  logger := m.logger.loggerEnqueueLine (formatLine timestamp message)
  hist := m.hist ++ (c, .enqueued timestamp message) ::
    (m.logger.evictedLines (storedLine timestamp message).length).map
      fun bytes => (c, .discarded bytes)

/-- The section of {lit}`should_process`. -/
def shouldProcess (m : Machine) (c : ContextId) : Bool × Machine :=
  let res := m.logger.shouldProcess
  (res.1, { logger := res.2, hist := m.hist ++ [(c, .flushDecided res.1)] })

/-- The section of {lit}`pop_chunk_from_buffer`, for a chunk of a flush. -/
def popChunk (m : Machine) (c : ContextId) : List UInt8 × Machine :=
  let res := m.logger.popChunkFromBuffer logProcessChunkSize
  (res.1, { logger := res.2, hist := m.hist ++ [(c, .popped res.1)] })

/-- A byte of a flush goes to {lit}`stdout`. -/
def putchar (m : Machine) (c : ContextId) (byte : UInt8) : Machine :=
  { m with hist := m.hist ++ [(c, .putchar byte)] }

/-! ## Uninterrupted calls -/

/-- {lit}`log_vwrite`; {lit}`formatted` is the text its arguments format to and
{lit}`answer` what an installed timestamp function returns. -/
def logVwrite (m : Machine) (c : ContextId) (level : LogLevel) (formatted : List UInt8)
    (answer : UInt32) : Machine :=
  let m := m.loggerEnsureInitialized
  if m.logger.filters level then m
  else
    let message := formatMessage formatted
    let stamped := m.getTimestamp c answer
    stamped.2.enqueueLine c stamped.1 message

/-- Print a chunk. -/
def putchars (m : Machine) (c : ContextId) (chunk : List UInt8) : Machine :=
  chunk.foldl (fun m byte => m.putchar c byte) m

/-- Printing leaves the logger. -/
@[simp] theorem putchars_logger (m : Machine) (c : ContextId) (chunk : List UInt8) :
    (m.putchars c chunk).logger = m.logger := by
  induction chunk generalizing m with
  | nil => rfl
  | cons byte chunk ih => exact ih (m.putchar c byte)

end Machine

/-- A popped chunk takes its bytes from the count. -/
theorem EquiniosLogger.popChunkFromBuffer_count (this : EquiniosLogger) (maxLen : Nat) :
    this.ringBuffer.count.toNat =
      (this.popChunkFromBuffer maxLen).2.ringBuffer.count.toNat +
        (this.popChunkFromBuffer maxLen).1.length := by
  induction maxLen generalizing this with
  | zero => simp [popChunkFromBuffer]
  | succ maxLen ih =>
    cases hpop : this.ringBuffer.pop with
    | none => simp [popChunkFromBuffer, hpop]
    | some res =>
      rcases res with ⟨byte, ringBuffer⟩
      have hcount := RingBuffer.pop_count hpop
      have hrest := ih { this with ringBuffer }
      simp only at hrest
      simp only [popChunkFromBuffer, hpop, List.length_cons]
      omega

namespace Machine

/-- The do-while loop of {lit}`process`. -/
def processLoop (m : Machine) (c : ContextId) : Machine :=
  let res := m.popChunk c
  let printed := res.2.putchars c res.1
  if _h : res.1.length > 0 then processLoop printed c else printed
termination_by m.logger.ringBuffer.count.toNat
decreasing_by
  have hcount := m.logger.popChunkFromBuffer_count logProcessChunkSize
  change 0 < (m.logger.popChunkFromBuffer logProcessChunkSize).1.length at _h
  rw [putchars_logger]
  change (m.logger.popChunkFromBuffer logProcessChunkSize).2.ringBuffer.count.toNat < _
  omega

/-- The call {lit}`log_process` without an interruption. -/
def process (m : Machine) (c : ContextId) : Machine :=
  let res := m.shouldProcess c
  if res.1 then res.2.processLoop c else res.2

end Machine

/-- A call of {lit}`equinios.h` with its arguments. -/
inductive ApiCall where
  | logSetLevel (level : LogLevel)
  | logSetProcessEveryNCalls (calls : UInt32)
  | logSetTimestampProvider (provider : Option Provider)
  | logGetDroppedLines
  | logResetDroppedLines
  | logWrite (level : LogLevel) (formatted : List UInt8) (answer : UInt32)
  | logProcess
deriving DecidableEq

/-- A call as its context runs it without interruption; each wrapper of
{lit}`equinios.c` first gets the instance. -/
def ApiCall.run (c : ContextId) (m : Machine) : ApiCall → Machine
  | .logSetLevel level => m.loggerEnsureInitialized.setLogLevel level
  | .logSetProcessEveryNCalls calls => m.loggerEnsureInitialized.setProcessEveryNCalls calls
  | .logSetTimestampProvider provider =>
      m.loggerEnsureInitialized.loggerEnsureInitialized.setTimestampProvider provider
  | .logGetDroppedLines => (m.loggerEnsureInitialized.getDroppedLines c).2
  | .logResetDroppedLines => m.loggerEnsureInitialized.resetDroppedLines c
  | .logWrite level formatted answer =>
      m.loggerEnsureInitialized.logVwrite c level formatted answer
  | .logProcess => m.loggerEnsureInitialized.process c

/-! ## The line queue of a machine -/

/-- What is stored of a line fits into the ring. -/
theorem storedLine_length_le (timestamp : UInt32) (message : CString) :
    (storedLine timestamp message).length ≤ 128 :=
  EquiniosLogger.lineTail_length_le _

/-- Something is stored of every line. -/
theorem storedLine_ne_nil (timestamp : UInt32) (message : CString) :
    storedLine timestamp message ≠ [] := by
  have hpos := List.length_pos_iff.mpr (formatLine_ne_nil timestamp message)
  rw [← List.length_pos_iff, storedLine, EquiniosLogger.lineTail_length]
  omega

/-- A popped chunk is the front of the ring. -/
theorem EquiniosLogger.popChunkFromBuffer_spec {this : EquiniosLogger}
    (hwf : this.ringBuffer.WellFormed) (maxLen : Nat) :
    ∃ ringBuffer : RingBuffer,
      this.popChunkFromBuffer maxLen = (this.queued.take maxLen, { this with ringBuffer }) ∧
      ringBuffer.WellFormed ∧ ringBuffer.contents = this.queued.drop maxLen := by
  induction maxLen generalizing this with
  | zero => exact ⟨this.ringBuffer, rfl, hwf, rfl⟩
  | succ maxLen ih =>
    cases hc : this.queued with
    | nil =>
      refine ⟨this.ringBuffer, ?_, hwf, hc⟩
      rw [popChunkFromBuffer, RingBuffer.pop_of_nil hc]
      rfl
    | cons byte rest =>
      rcases RingBuffer.pop_of_cons hwf hc with ⟨ringBuffer, hpop, hwf', hrest⟩
      have ih' := @ih { this with ringBuffer }
      rcases ih' hwf' with ⟨final, hchunk, hwfFinal, hcontents⟩
      change final.contents = ringBuffer.contents.drop maxLen at hcontents
      refine ⟨final, ?_, hwfFinal, ?_⟩
      · rw [popChunkFromBuffer, hpop]
        simp only [hchunk, EquiniosLogger.queued, hrest, List.take_succ_cons]
      · rw [hcontents, hrest, List.drop_succ_cons]

namespace Machine

/-- The abstract line queue of the ring and the history. -/
def ledger (m : Machine) : Ledger UInt8 where
  lines := linesOf m.hist
  removals := removalsOf m.hist
  queue := m.logger.queued

/-- One critical section of a context, or one {lit}`putchar`.  Lines are queued
by an initialised logger only. -/
inductive Section (c : ContextId) (m : Machine) : Machine → Prop
  | loggerEnsureInitialized : Section c m m.loggerEnsureInitialized
  | setLogLevel (level : LogLevel) : Section c m (m.setLogLevel level)
  | setProcessEveryNCalls (calls : UInt32) : Section c m (m.setProcessEveryNCalls calls)
  | setTimestampProvider (provider : Option Provider) :
      Section c m (m.setTimestampProvider provider)
  | getDroppedLines : Section c m (m.getDroppedLines c).2
  | resetDroppedLines : Section c m (m.resetDroppedLines c)
  | getTimestamp (answer : UInt32) : Section c m (m.getTimestamp c answer).2
  | enqueueLine (timestamp : UInt32) (message : CString)
      (hinit : m.logger.initialized = true) : Section c m (m.enqueueLine c timestamp message)
  | shouldProcess : Section c m (m.shouldProcess c).2
  | popChunk : Section c m (m.popChunk c).2
  | putchar (byte : UInt8) : Section c m (m.putchar c byte)

/-- The ring is well formed, and a logger that is not initialised holds nothing. -/
structure Sound (m : Machine) : Prop where
  wellFormed : m.logger.ringBuffer.WellFormed
  uninitialized : m.logger.initialized = false → m.logger.queued = []

/-- A logger that was never used is sound. -/
theorem sound_reset : reset.Sound := by
  refine ⟨RingBuffer.wellFormed_new, ?_⟩
  intro _
  exact RingBuffer.contents_new

/-- Its ledger is empty. -/
theorem ledger_reset : reset.ledger = Ledger.empty := by
  have hnil : gInstance.queued = [] := RingBuffer.contents_new
  rw [ledger, reset, hnil]
  rfl

/-- The first-use initialisation keeps the queued bytes. -/
theorem Sound.queued_loggerEnsureInitialized {m : Machine} (h : m.Sound) :
    m.loggerEnsureInitialized.logger.queued = m.logger.queued := by
  unfold loggerEnsureInitialized EquiniosLogger.loggerEnsureInitialized
  cases hinit : m.logger.initialized with
  | true => rfl
  | false =>
    rw [h.uninitialized hinit]
    exact RingBuffer.contents_new

/-- After a first use the logger is initialised. -/
theorem initialized_loggerEnsureInitialized (m : Machine) :
    m.loggerEnsureInitialized.logger.initialized = true := by
  unfold loggerEnsureInitialized EquiniosLogger.loggerEnsureInitialized
  cases hinit : m.logger.initialized with
  | true => exact hinit
  | false => rfl

/-- A first use keeps the logger sound. -/
theorem Sound.loggerEnsureInitialized {m : Machine} (h : m.Sound) :
    m.loggerEnsureInitialized.Sound := by
  constructor
  · unfold Machine.loggerEnsureInitialized EquiniosLogger.loggerEnsureInitialized
    cases m.logger.initialized with
    | true => exact h.wellFormed
    | false => exact RingBuffer.wellFormed_new
  · intro hinit
    rw [initialized_loggerEnsureInitialized] at hinit
    contradiction

/-- Queueing a line is one offer to the line queue. -/
theorem ledger_enqueueLine {m : Machine} (h : m.Sound) (c : ContextId) (timestamp : UInt32)
    (message : CString) :
    (m.enqueueLine c timestamp message).ledger =
      m.ledger.offer newline 128 (storedLine timestamp message) := by
  rcases EquiniosLogger.loggerEnqueueLine_spec h.wellFormed (formatLine timestamp message) with
    ⟨ringBuffer, henqueue, _, hcontents⟩
  have hevicted := EquiniosLogger.evictedLines_eq h.wellFormed
    (storedLine_length_le timestamp message)
  simp only [ledger, enqueueLine, Ledger.offer, Ledger.mk.injEq, linesOf_append,
    removalsOf_append]
  refine ⟨?_, ?_, ?_⟩
  · congr 1
    simp [linesOf, acceptedOf, Event.accepted?, List.filterMap_map, Accepted.stored]
  · congr 1
    rw [hevicted]
    simp only [removalsOf, List.filterMap_cons, Event.removal?, List.filterMap_map,
      Function.comp_def, discards]
    exact congrFun List.filterMap_eq_map _
  · rw [henqueue]
    exact hcontents

/-- Popping a chunk is one take of 32 bytes. -/
theorem ledger_popChunk {m : Machine} (h : m.Sound) (c : ContextId) :
    (m.popChunk c).2.ledger = m.ledger.take 32 := by
  rcases EquiniosLogger.popChunkFromBuffer_spec h.wellFormed logProcessChunkSize with
    ⟨ringBuffer, hchunk, _, hcontents⟩
  simp only [ledger, popChunk, Ledger.take, Ledger.mk.injEq, linesOf_append,
    removalsOf_append, hchunk]
  refine ⟨?_, ?_, hcontents⟩
  · simp [linesOf, acceptedOf, Event.accepted?]
  · rfl

/-- A chunk is the oldest 32 bytes of the ring, or all of them. -/
theorem popChunk_fst {m : Machine} (h : m.Sound) (c : ContextId) :
    (m.popChunk c).1 = m.logger.queued.take 32 := by
  rcases EquiniosLogger.popChunkFromBuffer_spec h.wellFormed logProcessChunkSize with
    ⟨ringBuffer, hchunk, _, _⟩
  rw [popChunk, hchunk]
  rfl

/-- Every critical section keeps the ring well formed and leaves a logger that is
not initialised without bytes. -/
theorem Sound.step {c : ContextId} {m m' : Machine} (h : m.Sound) (hstep : Section c m m') :
    m'.Sound := by
  cases hstep with
  | loggerEnsureInitialized => exact h.loggerEnsureInitialized
  | setLogLevel | setProcessEveryNCalls | setTimestampProvider | getDroppedLines
  | resetDroppedLines | getTimestamp | shouldProcess | putchar =>
    exact ⟨h.wellFormed, h.uninitialized⟩
  | enqueueLine timestamp message hinit =>
    rcases EquiniosLogger.loggerEnqueueLine_spec h.wellFormed
      (formatLine timestamp message) with ⟨ringBuffer, henqueue, hwf, _⟩
    constructor
    · rw [enqueueLine, henqueue]
      exact hwf
    · intro hnot
      rw [enqueueLine, henqueue] at hnot
      exact absurd (hinit.symm.trans hnot) Bool.true_eq_false.mp
  | popChunk =>
    rcases EquiniosLogger.popChunkFromBuffer_spec h.wellFormed logProcessChunkSize with
      ⟨ringBuffer, hchunk, hwf, hcontents⟩
    constructor
    · rw [popChunk, hchunk]
      exact hwf
    · intro hnot
      rw [popChunk, hchunk] at hnot ⊢
      have hnil := h.uninitialized hnot
      rw [EquiniosLogger.queued, hcontents, hnil]
      rfl

/-- History entries that are neither a line nor a removal leave the ledger. -/
theorem ledger_of_quiet {m m' : Machine} {entries : History}
    (hqueued : m'.logger.queued = m.logger.queued) (hhist : m'.hist = m.hist ++ entries)
    (hquiet : ∀ entry ∈ entries, entry.2.accepted? = none ∧ entry.2.removal? = none) :
    m'.ledger = m.ledger := by
  have hlines : linesOf entries = [] :=
    List.map_eq_nil_iff.mpr
      (List.filterMap_eq_nil_iff.mpr fun entry hentry => (hquiet entry hentry).1)
  have hremovals : removalsOf entries = [] :=
    List.filterMap_eq_nil_iff.mpr fun entry hentry => (hquiet entry hentry).2
  rw [ledger, hqueued, hhist, linesOf_append, removalsOf_append, hlines, hremovals,
    List.append_nil, List.append_nil]
  rfl

/-- A critical section is one step of the line queue or leaves it alone. -/
theorem Section.ledger_cases {c : ContextId} {m m' : Machine} (h : m.Sound)
    (hstep : Section c m m') :
    m'.ledger = m.ledger ∨
      (∃ line, m'.ledger = m.ledger.offer newline 128 line) ∨
      m'.ledger = m.ledger.take 32 := by
  cases hstep with
  | loggerEnsureInitialized =>
    left
    rw [ledger, h.queued_loggerEnsureInitialized]
    rfl
  | setLogLevel | setProcessEveryNCalls | setTimestampProvider => exact Or.inl rfl
  | getDroppedLines | resetDroppedLines | shouldProcess | putchar =>
    left
    refine ledger_of_quiet rfl rfl ?_
    intro entry hentry
    rw [List.mem_singleton.mp hentry]
    exact ⟨rfl, rfl⟩
  | getTimestamp answer =>
    left
    refine ledger_of_quiet rfl rfl ?_
    intro entry hentry
    rcases List.mem_map.mp hentry with ⟨provider, _, rfl⟩
    exact ⟨rfl, rfl⟩
  | enqueueLine timestamp message hinit =>
    exact Or.inr (Or.inl ⟨_, ledger_enqueueLine h c timestamp message⟩)
  | popChunk => exact Or.inr (Or.inr (ledger_popChunk h c))

/-! ## The drop counter -/

/-- {lit}`dropped_lines_` counts the discarded blocks since it was last cleared,
modulo {lit}`2^32`. -/
def Counted (m : Machine) : Prop :=
  m.logger.droppedLines = UInt32.ofNat (dropsSinceReset m.hist)

/-- A section that appends one entry which is no drop and no reset. -/
theorem Counted.quiet {m m' : Machine} {entries : History} (h : m.Counted)
    (hdropped : m'.logger.droppedLines = m.logger.droppedLines)
    (hhist : m'.hist = m.hist ++ entries)
    (hquiet : ∀ entry ∈ entries, ∀ drops, entry.2.countDrops drops = drops) : m'.Counted := by
  rw [Counted, hdropped, hhist, dropsSinceReset_append_of_quiet _ _ hquiet]
  exact h

/-- A first use leaves the drop counter as it is. -/
theorem droppedLines_loggerEnsureInitialized (m : Machine) :
    m.loggerEnsureInitialized.logger.droppedLines = m.logger.droppedLines := by
  unfold loggerEnsureInitialized EquiniosLogger.loggerEnsureInitialized
  cases m.logger.initialized <;> rfl

/-- The counter and the history after a line is queued. -/
theorem droppedLines_enqueueLine {m : Machine} (h : m.Sound) (c : ContextId)
    (timestamp : UInt32) (message : CString) :
    (m.enqueueLine c timestamp message).logger.droppedLines = m.logger.droppedLines +
        UInt32.ofNat (m.logger.evictions (storedLine timestamp message).length) ∧
      dropsSinceReset (m.enqueueLine c timestamp message).hist = dropsSinceReset m.hist +
        m.logger.evictions (storedLine timestamp message).length := by
  rcases EquiniosLogger.loggerEnqueueLine_spec h.wellFormed (formatLine timestamp message) with
    ⟨ringBuffer, henqueue, _⟩
  constructor
  · rw [enqueueLine, henqueue]
    rfl
  · have hevicted := EquiniosLogger.evictedLines_eq h.wellFormed
      (storedLine_length_le timestamp message)
    have hline := dropsSinceReset_append_of_quiet m.hist
      [(c, .enqueued timestamp message)] (by simp [Event.countDrops])
    rw [enqueueLine, ← List.singleton_append, ← List.append_assoc,
      dropsSinceReset_append_discards, hline, hevicted, takeSegments_length]

/-- Every section keeps the count of the dropped lines. -/
theorem Counted.step {c : ContextId} {m m' : Machine} (hsound : m.Sound) (h : m.Counted)
    (hstep : Section c m m') : m'.Counted := by
  cases hstep with
  | loggerEnsureInitialized =>
    exact h.quiet (droppedLines_loggerEnsureInitialized m)
      (List.append_nil _).symm (by simp)
  | setLogLevel | setProcessEveryNCalls | setTimestampProvider => exact h
  | getDroppedLines | shouldProcess | putchar =>
    refine h.quiet rfl rfl ?_
    simp [Event.countDrops]
  | resetDroppedLines =>
    change (0 : UInt32) = _
    rw [resetDroppedLines, dropsSinceReset, List.foldl_append]
    rfl
  | getTimestamp answer =>
    refine h.quiet rfl rfl ?_
    intro entry hentry drops
    rcases List.mem_map.mp hentry with ⟨provider, _, rfl⟩
    rfl
  | enqueueLine timestamp message hinit =>
    rcases droppedLines_enqueueLine hsound c timestamp message with ⟨hdropped, hdrops⟩
    rw [Counted, hdropped, hdrops, h, UInt32.ofNat_add]
  | popChunk =>
    rcases EquiniosLogger.popChunkFromBuffer_spec hsound.wellFormed logProcessChunkSize with
      ⟨ringBuffer, hchunk, _⟩
    refine h.quiet ?_ rfl ?_
    · rw [popChunk, hchunk]
    · simp [Event.countDrops]

/-- A sound machine whose ring and history are a state of the line queue and
whose counter agrees with its history. -/
structure Consistent (m : Machine) : Prop extends m.Sound where
  reachable : m.ledger.Reachable newline 128
  counted : m.Counted

/-- A logger that was never used is consistent with its empty history. -/
theorem consistent_reset : reset.Consistent := by
  refine ⟨sound_reset, ?_, rfl⟩
  rw [ledger_reset]
  exact Ledger.reachable_empty 128

/-- Every critical section keeps the machine a state of the line queue. -/
theorem Consistent.step {c : ContextId} {m m' : Machine} (h : m.Consistent)
    (hstep : Section c m m') : m'.Consistent := by
  refine ⟨h.toSound.step hstep, ?_, h.counted.step h.toSound hstep⟩
  rcases Section.ledger_cases h.toSound hstep with hquiet | ⟨line, hoffer⟩ | htake
  · rw [hquiet]
    exact h.reachable
  · rw [hoffer]
    exact h.reachable.offer 128 line
  · rw [htake]
    exact h.reachable.take 128 32

end Machine

end Equinios
end RadonMCU
