import RadonMCU.Equinios.Locked

/-!
# The lock discipline

Every function of the logger gives the status word back that it found, on each of its
paths, and touches the protected fields only while the word is zero.  The functions
below a critical section are shown to be fit to run in one; the sections and the calls
are composed by the rules for control words.  A timestamp function runs while the lock
is held: its calls of {lit}`equinios.h` enter nested sections.

Main results:

- Theorem {lit}`balanced_callback`: a timestamp function may run with the lock held.
- Theorem {lit}`balanced_processLoop`: so may every number of turns of the do-while
  loop run between sections.
- Theorem {lit}`disciplined_call`: every call keeps the discipline, from every status
  word and every state of the logger.
-/

namespace RadonMCU
namespace Equinios
namespace Locked

open Guarded

/-! ## Inside a section -/

/-- A read is allowed with the lock held. -/
theorem inside_read (field : Field) : Inside 0 (read field) := inside_access field _

/-- A write is allowed with the lock held. -/
theorem inside_write (field : Field) (value : field.Value) : Inside 0 (write field value) :=
  inside_access field _

/-- The size of the ring may be read with the lock held. -/
theorem inside_ringSize : Inside 0 ringSize :=
  (inside_read .ringBuffer).bind fun _ => inside_pure _

/-- The ring may be tested with the lock held. -/
theorem inside_ringIsEmpty : Inside 0 ringIsEmpty :=
  (inside_read .ringBuffer).bind fun _ => inside_pure _

/-- A byte may be stored with the lock held. -/
theorem inside_ringPush (byte : UInt8) : Inside 0 (ringPush byte) := by
  refine (inside_read .ringBuffer).bind fun ringBuffer => ?_
  split
  · exact (inside_write _ _).bind fun _ => inside_pure _
  · exact inside_pure _

/-- A byte may be taken with the lock held. -/
theorem inside_ringPop : Inside 0 ringPop := by
  refine (inside_read .ringBuffer).bind fun ringBuffer => ?_
  split
  · exact inside_pure _
  · exact (inside_write _ _).bind fun _ => inside_pure _

/-- The discarding loop keeps to the held lock, by its recursion. -/
theorem inside_discardLoop (discarded : Bool) : Inside 0 (discardLoop discarded) := by
  intro s hs
  induction discarded, s using discardLoop.induct with
  | case1 discarded s s' hring =>
    have hpop := inside_ringPop s hs
    rw [hring] at hpop
    rw [discardLoop, hring]
    exact hpop
  | case2 discarded s s' hring =>
    have hpop := inside_ringPop s hs
    rw [hring] at hpop
    rw [discardLoop, hring]
    exact hpop
  | case3 discarded s byte s' hring hbyte ih =>
    have hpop := inside_ringPop s hs
    rw [hring] at hpop
    rw [discardLoop, hring]
    simp only [if_neg hbyte]
    exact ⟨(ih hpop.1).1, hpop.2.trans (ih hpop.1).2⟩

theorem inside_freeSpace : Inside 0 freeSpace :=
  inside_ringSize.bind fun _ => inside_pure _

/-- A turn of the evicting loop keeps to the held lock. -/
theorem inside_evictTurn : Inside 0 evictTurn := by
  refine (inside_discardLoop false).bind fun discarded => ?_
  split
  · exact (inside_read .droppedLines).bind fun _ => inside_write _ _
  · exact inside_pure _

/-- The evicting loop keeps to the held lock, by its recursion. -/
theorem inside_evictLoop (lineLen : Nat) : Inside 0 (evictLoop lineLen) := by
  intro s hs
  induction s using evictLoop.induct lineLen with
  | case1 s free hroom empty hempty =>
    have hfree := inside_freeSpace s hs
    have hisEmpty := inside_ringIsEmpty free.2 hfree.1
    rw [evictLoop, if_pos hroom, dif_pos hempty]
    exact ⟨hisEmpty.1, hfree.2.trans hisEmpty.2⟩
  | case2 s free hroom empty hempty ih =>
    have hfree := inside_freeSpace s hs
    have hisEmpty := inside_ringIsEmpty free.2 hfree.1
    have hturn := inside_evictTurn empty.2 hisEmpty.1
    have hrest := ih hturn.1
    rw [evictLoop, if_pos hroom, dif_neg hempty]
    exact ⟨hrest.1, ((hfree.2.trans hisEmpty.2).trans hturn.2).trans hrest.2⟩
  | case3 s free hroom =>
    rw [evictLoop, if_neg hroom]
    exact inside_freeSpace s hs

/-- The storing loop keeps to the held lock, byte by byte. -/
theorem inside_pushLoop (line : List UInt8) : Inside 0 (pushLoop line) := by
  induction line with
  | nil => exact inside_pure _
  | cons byte rest ih =>
    refine (inside_ringPush byte).bind fun pushed => ?_
    split
    · exact ih
    · exact inside_pure _

/-- {lit}`logger_enqueue_line` is called with the lock held and keeps it. -/
theorem inside_loggerEnqueueLine (line : CString) : Inside 0 (loggerEnqueueLine line) :=
  (inside_evictLoop _).bind fun _ => inside_pushLoop _

/-- The popping loop keeps to the held lock, byte by byte. -/
theorem inside_popLoop (maxLen : Nat) : Inside 0 (popLoop maxLen) := by
  induction maxLen with
  | zero => exact inside_pure _
  | succ maxLen ih =>
    refine inside_ringPop.bind fun byte => ?_
    cases byte with
    | none => exact inside_pure _
    | some byte => exact ih.bind fun _ => inside_pure _

/-! ## Sections -/

/-- The first use takes and releases the lock, whether or not it initialises. -/
theorem balanced_loggerEnsureInitialized : Balanced 0 loggerEnsureInitialized := by
  refine Balanced.of_enter fun saved => ?_
  refine (inside_read .initialized).takes_bind fun initialized => ?_
  dsimp only
  split
  · refine (inside_write _ _).takes_bind fun _ => ?_
    refine (inside_write _ _).takes_bind fun _ => ?_
    exact (inside_write _ _).takes_bind fun _ => takes_exit saved
  · exact takes_exit saved

/-- A section around one write. -/
theorem balanced_setLogLevel (level : LogLevel) : Balanced 0 (setLogLevel level) :=
  Balanced.of_enter fun saved => (inside_write _ _).takes_bind fun _ => takes_exit saved

/-- A section around two writes. -/
theorem balanced_setProcessEveryNCalls (calls : UInt32) :
    Balanced 0 (setProcessEveryNCalls calls) := by
  refine Balanced.of_enter fun saved => ?_
  refine (inside_write _ _).takes_bind fun _ => ?_
  exact (inside_write _ _).takes_bind fun _ => takes_exit saved

/-- A section around one write. -/
theorem balanced_setTimestampProvider (provider : Option Provider) :
    Balanced 0 (setTimestampProvider provider) := by
  refine balanced_loggerEnsureInitialized.bind fun _ => ?_
  refine Balanced.of_enter fun saved => ?_
  refine (inside_read .timestampProvider).takes_bind fun _ => ?_
  exact (inside_write _ _).takes_bind fun _ => takes_exit saved

/-- A section around one read. -/
theorem balanced_getDroppedLines : Balanced 0 getDroppedLines :=
  Balanced.of_enter fun saved =>
    (inside_read .droppedLines).takes_bind fun _ => (balanced_pure _).after_exit saved

/-- A section around one write. -/
theorem balanced_resetDroppedLines : Balanced 0 resetDroppedLines :=
  Balanced.of_enter fun saved => (inside_write _ _).takes_bind fun _ => takes_exit saved

/-- Both ways through {lit}`should_process` release the lock. -/
theorem balanced_shouldProcess : Balanced 0 shouldProcess := by
  refine Balanced.of_enter fun saved => ?_
  refine (inside_read .logProcessDivider).takes_bind fun divider => ?_
  refine (inside_write _ _).takes_bind fun _ => ?_
  refine (inside_read .logProcessDivider).takes_bind fun divider => ?_
  refine (inside_read .logProcessEveryNCalls).takes_bind fun everyNCalls => ?_
  dsimp only
  split
  · exact (inside_write _ _).takes_bind fun _ => (balanced_pure _).after_exit saved
  · exact (balanced_pure _).after_exit saved

/-- A section around the popping loop. -/
theorem balanced_popChunkFromBuffer (maxLen : Nat) :
    Balanced 0 (popChunkFromBuffer maxLen) :=
  Balanced.of_enter fun saved =>
    (inside_popLoop maxLen).takes_bind fun _ => (balanced_pure _).after_exit saved

/-! ## Timestamp functions -/

theorem balanced_logSetLevel (level : LogLevel) : Balanced 0 (logSetLevel level) :=
  balanced_loggerEnsureInitialized.bind fun _ => balanced_setLogLevel level

theorem balanced_logSetProcessEveryNCalls (calls : UInt32) :
    Balanced 0 (logSetProcessEveryNCalls calls) :=
  balanced_loggerEnsureInitialized.bind fun _ => balanced_setProcessEveryNCalls calls

theorem balanced_logSetTimestampProvider (provider : Option Provider) :
    Balanced 0 (logSetTimestampProvider provider) :=
  balanced_loggerEnsureInitialized.bind fun _ => balanced_setTimestampProvider provider

theorem balanced_logGetDroppedLines : Balanced 0 logGetDroppedLines :=
  balanced_loggerEnsureInitialized.bind fun _ => balanced_getDroppedLines

theorem balanced_logResetDroppedLines : Balanced 0 logResetDroppedLines :=
  balanced_loggerEnsureInitialized.bind fun _ => balanced_resetDroppedLines

/-- A timestamp function gives the status word back, whatever it calls. -/
theorem balanced_callback (callback : Callback) : Balanced 0 callback.run := by
  induction callback with
  | answer timestamp => exact balanced_pure timestamp
  | logGetDroppedLines next ih => exact balanced_logGetDroppedLines.bind ih
  | logResetDroppedLines next ih => exact balanced_logResetDroppedLines.bind fun _ => ih
  | logSetLevel level next ih => exact (balanced_logSetLevel level).bind fun _ => ih
  | logSetProcessEveryNCalls calls next ih =>
    exact (balanced_logSetProcessEveryNCalls calls).bind fun _ => ih

/-- The callback is asked with the lock held, and hands it back as it got it. -/
theorem inside_getTimestamp (callback : Callback) : Inside 0 (getTimestamp callback) := by
  refine (inside_read .timestampProvider).bind fun provider => ?_
  split
  · exact (balanced_callback callback).inside
  · refine (inside_read .timestampProvider).bind fun provider => ?_
    exact (inside_write _ _).bind fun _ => inside_pure _

/-! ## Calls -/

/-- Both ways through {lit}`log_vwrite` release the lock: the message that is not visible, and the
one that is queued. -/
theorem balanced_logVwrite (level : LogLevel) (formatted : List UInt8) (callback : Callback) :
    Balanced 0 (logVwrite level formatted callback) := by
  refine balanced_loggerEnsureInitialized.bind fun _ => ?_
  refine Balanced.of_enter fun saved => ?_
  refine (inside_read .logLevel).takes_bind fun logLevel => ?_
  split
  · exact takes_exit saved
  · -- three sections: the level check, the timestamp and the line
    refine Balanced.after_exit ?_ saved
    refine Balanced.of_enter fun saved => ?_
    refine (inside_getTimestamp callback).takes_bind fun timestamp => ?_
    refine Balanced.after_exit ?_ saved
    refine Balanced.of_enter fun saved => ?_
    exact (inside_loggerEnqueueLine _).takes_bind fun _ => takes_exit saved

/-- Printing takes no lock. -/
theorem balanced_putchars (chunk : List UInt8) : Balanced 0 (putchars chunk) := by
  induction chunk with
  | nil => exact balanced_pure _
  | cons byte rest ih => exact (balanced_unguarded _).bind fun _ => ih

/-- A turn of the flush takes and releases the lock, then prints. -/
theorem balanced_processTurn : Balanced 0 processTurn := by
  refine (balanced_popChunkFromBuffer logProcessChunkSize).bind fun chunk => ?_
  exact (balanced_putchars chunk).bind fun _ => balanced_pure _

/-- Every number of turns of the do-while loop gives the status word back. -/
theorem balanced_processLoop : Balanced 0 processLoop := by
  intro w s hs
  induction s using processLoop.induct with
  | case1 s count hpos ih =>
    have hturn := balanced_processTurn w s hs
    have hrest := ih hturn.1
    rw [processLoop, dif_pos hpos]
    exact ⟨hrest.1, hturn.2.trans hrest.2⟩
  | case2 s count hzero =>
    rw [processLoop, dif_neg hzero]
    exact balanced_processTurn w s hs

/-- {lit}`log_process` releases the lock, whether or not it flushes. -/
theorem balanced_process : Balanced 0 process := by
  refine balanced_shouldProcess.bind fun shouldFlush => ?_
  split
  · exact balanced_processLoop
  · exact balanced_pure _

/-- Every call of the interface takes and releases the lock in pairs. -/
theorem balanced_call (call : Call) : Balanced 0 call.run := by
  cases call with
  | logSetLevel level => exact balanced_logSetLevel level
  | logSetProcessEveryNCalls calls => exact balanced_logSetProcessEveryNCalls calls
  | logSetTimestampProvider provider => exact balanced_logSetTimestampProvider provider
  | logGetDroppedLines => exact balanced_logGetDroppedLines.bind fun _ => balanced_pure _
  | logResetDroppedLines => exact balanced_logResetDroppedLines
  | logWrite level formatted callback =>
    exact balanced_loggerEnsureInitialized.bind fun _ =>
      balanced_logVwrite level formatted callback
  | logProcess => exact balanced_loggerEnsureInitialized.bind fun _ => balanced_process

/-- From every status word and every state of the logger a call returns with the status
word it found, and each access it made to a protected field was made with the status
word zero. -/
theorem disciplined_call (call : Call) (cpu : Cpu) :
    (call.run cpu).2.word = cpu.word ∧
      ∃ accesses, (call.run cpu).2.accesses = cpu.accesses ++ accesses ∧
        ∀ access ∈ accesses, access.2 = 0 :=
  balanced_call call cpu.word cpu rfl

end Locked
end Equinios
end RadonMCU
