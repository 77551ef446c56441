import RadonMCU.Equinios.System

/-!
# The calls of one context

One context makes calls of {lit}`equinios.h` one after the other.  On the line
queue and the output a call does one of three things: nothing, one offer of the
stored bytes of a line, or takes until the ring is empty.

Main results:

- Theorem {lit}`Consistent.apiCall`: a call keeps the machine consistent.
- Theorem {lit}`drained_processLoop`: the do-while loop prints the whole ring, in
  chunks of 32 bytes.
- Theorem {lit}`apiCall_cases`: every call is quiet, writes one line or drains the
  ring.
- Theorem {lit}`stdoutOf_runCalls`: between calls everything taken is printed.
-/

namespace RadonMCU
namespace Equinios

open Segments LineQueue

/-- The machine after some calls of one context. -/
abbrev runCalls (c : ContextId) (m : Machine) (calls : List ApiCall) : Machine :=
  StepSystem.run (ApiCall.run c) m calls

namespace Machine

/-- A call keeps the machine consistent: it is a run of the system in which no
other context moves. -/
theorem Consistent.apiCall {m : Machine} (h : m.Consistent) (c : ContextId)
    (call : ApiCall) : (call.run c m).Consistent := by
  rcases System.exists_run_alone (s := System.start m) (c := c) rfl call with ⟨n, hn⟩
  have hrun : (System.run (System.start m)
      (.call c call :: List.replicate n (.step c))).Consistent :=
    StepSystem.run_invariant (P := System.Consistent) (fun _ a hs => hs.step a)
      (System.consistent_start h) _
  rw [hn] at hrun
  exact hrun.machine

/-- Calls of one context keep the logger consistent. -/
theorem consistent_runCalls (c : ContextId) (calls : List ApiCall) :
    (runCalls c reset calls).Consistent :=
  StepSystem.run_invariant (fun _ call hm => hm.apiCall c call) consistent_reset calls

/-! ## What a call does -/

/-- The ring is as before, and the new entries of the history are no line, no
removal and no output. -/
structure Quiet (m m' : Machine) : Prop where
  queued : m'.logger.queued = m.logger.queued
  hist : ∃ entries, m'.hist = m.hist ++ entries ∧ ∀ entry ∈ entries,
    entry.2.accepted? = none ∧ entry.2.removal? = none ∧ entry.2.byte? = none

/-- One line was accepted and queued. -/
structure Wrote (m m' : Machine) (line : Accepted) : Prop where
  ledger : m'.ledger = m.ledger.offer newline 128 line.stored
  accepted : acceptedOf m'.hist = acceptedOf m.hist ++ [line]
  stdout : stdoutOf m'.hist = stdoutOf m.hist
  dropped : m'.logger.droppedLines = m.logger.droppedLines +
    UInt32.ofNat (m.ledger.evictions newline 128 line.stored.length)

/-- The ring was popped in chunks and printed until it was empty. -/
structure Drained (m m' : Machine) : Prop where
  ledger : ∃ k, m'.ledger = (Ledger.take 32)^[k] m.ledger
  empty : m'.logger.queued = []
  accepted : acceptedOf m'.hist = acceptedOf m.hist
  stdout : stdoutOf m'.hist = stdoutOf m.hist ++ m.logger.queued
  taken : takenItems m'.ledger.removals = takenItems m.ledger.removals ++ m.logger.queued
  dropped : m'.logger.droppedLines = m.logger.droppedLines

/-- What leaves the queue and the history is quiet. -/
theorem quiet_of_hist {m m' : Machine} (hqueued : m'.logger.queued = m.logger.queued)
    (hhist : m'.hist = m.hist) : Quiet m m' :=
  ⟨hqueued, [], by rw [hhist, List.append_nil], by simp⟩

/-- Nothing happens. -/
theorem Quiet.refl (m : Machine) : Quiet m m := quiet_of_hist rfl rfl

/-- Two quiet parts of a call. -/
theorem Quiet.trans {m m' m'' : Machine} (h : Quiet m m') (h' : Quiet m' m'') :
    Quiet m m'' := by
  rcases h with ⟨hqueued, entries, hhist, hentries⟩
  rcases h' with ⟨hqueued', entries', hhist', hentries'⟩
  refine ⟨hqueued'.trans hqueued, entries ++ entries', ?_, ?_⟩
  · rw [hhist', hhist, List.append_assoc]
  · intro entry hentry
    rcases List.mem_append.mp hentry with hold | hnew
    · exact hentries entry hold
    · exact hentries' entry hnew

section Quiet

variable {m m' : Machine} (h : Quiet m m')
include h

/-- A quiet part leaves the ledger. -/
theorem Quiet.ledger : m'.ledger = m.ledger := by
  rcases h.hist with ⟨entries, hhist, hentries⟩
  apply ledger_of_quiet h.queued hhist
  intro entry hentry
  exact ⟨(hentries entry hentry).1, (hentries entry hentry).2.1⟩

/-- A quiet part queues no line. -/
theorem Quiet.accepted : acceptedOf m'.hist = acceptedOf m.hist := by
  rcases h.hist with ⟨entries, hhist, hentries⟩
  have hnone : acceptedOf entries = [] :=
    List.filterMap_eq_nil_iff.mpr fun entry hentry => (hentries entry hentry).1
  rw [hhist, acceptedOf_append, hnone, List.append_nil]

/-- A quiet part prints nothing. -/
theorem Quiet.stdout : stdoutOf m'.hist = stdoutOf m.hist := by
  rcases h.hist with ⟨entries, hhist, hentries⟩
  have hnone : stdoutOf entries = [] :=
    List.filterMap_eq_nil_iff.mpr fun entry hentry => (hentries entry hentry).2.2
  rw [hhist, stdoutOf_append, hnone, List.append_nil]

end Quiet

/-- A first use is quiet. -/
theorem Sound.quiet_loggerEnsureInitialized {m : Machine} (h : m.Sound) :
    Quiet m m.loggerEnsureInitialized :=
  quiet_of_hist h.queued_loggerEnsureInitialized rfl

/-- Reading the drop counter is quiet. -/
theorem quiet_getDroppedLines (m : Machine) (c : ContextId) :
    Quiet m (m.getDroppedLines c).2 := by
  refine ⟨rfl, _, rfl, ?_⟩
  intro entry hentry
  rw [List.mem_singleton.mp hentry]
  exact ⟨rfl, rfl, rfl⟩

/-- Clearing the drop counter is quiet. -/
theorem quiet_resetDroppedLines (m : Machine) (c : ContextId) :
    Quiet m (m.resetDroppedLines c) := by
  refine ⟨rfl, _, rfl, ?_⟩
  intro entry hentry
  rw [List.mem_singleton.mp hentry]
  exact ⟨rfl, rfl, rfl⟩

/-- Drawing a timestamp is quiet. -/
theorem quiet_getTimestamp (m : Machine) (c : ContextId) (answer : UInt32) :
    Quiet m (m.getTimestamp c answer).2 := by
  refine ⟨rfl, _, rfl, ?_⟩
  intro entry hentry
  rcases List.mem_map.mp hentry with ⟨provider, _, rfl⟩
  exact ⟨rfl, rfl, rfl⟩

/-- Counting a call of {lit}`log_process` is quiet. -/
theorem quiet_shouldProcess (m : Machine) (c : ContextId) :
    Quiet m (m.shouldProcess c).2 := by
  refine ⟨rfl, _, rfl, ?_⟩
  intro entry hentry
  rw [List.mem_singleton.mp hentry]
  exact ⟨rfl, rfl, rfl⟩

/-- What follows a quiet part writes the same line from the start. -/
theorem Wrote.of_quiet {m m' m'' : Machine} {line : Accepted} (hquiet : Quiet m m')
    (hdropped : m'.logger.droppedLines = m.logger.droppedLines) (h : Wrote m' m'' line) :
    Wrote m m'' line := by
  refine ⟨?_, ?_, ?_, ?_⟩
  · rw [h.ledger, hquiet.ledger]
  · rw [h.accepted, hquiet.accepted]
  · rw [h.stdout, hquiet.stdout]
  · rw [h.dropped, hdropped, hquiet.ledger]

/-- The section that queues a line writes it. -/
theorem wrote_enqueueLine {m : Machine} (h : m.Sound) (c : ContextId) (timestamp : UInt32)
    (message : CString) :
    Wrote m (m.enqueueLine c timestamp message) { timestamp, message } := by
  refine ⟨ledger_enqueueLine h c timestamp message, ?_, ?_,
    (droppedLines_enqueueLine h c timestamp message).1⟩
  · simp [enqueueLine, acceptedOf, Event.accepted?, List.filterMap_map]
  · simp [enqueueLine, stdoutOf, Event.byte?, List.filterMap_map]

/-! ## Draining the ring -/

/-- A printed chunk is recorded byte by byte. -/
theorem putchars_hist (m : Machine) (c : ContextId) (chunk : List UInt8) :
    (m.putchars c chunk).hist = m.hist ++ chunk.map fun byte => (c, .putchar byte) := by
  induction chunk generalizing m with
  | nil => exact (List.append_nil _).symm
  | cons byte chunk ih =>
    rw [show m.putchars c (byte :: chunk) = (m.putchar c byte).putchars c chunk from rfl, ih,
      putchar, List.append_assoc]
    rfl

/-- The recorded bytes are those of the chunk. -/
theorem stdoutOf_printed (c : ContextId) (chunk : List UInt8) :
    stdoutOf (chunk.map fun byte => (c, .putchar byte)) = chunk := by
  simp [stdoutOf, Event.byte?, List.filterMap_map]

/-- Taking a chunk changes the ring alone. -/
theorem popChunk_logger {m : Machine} (h : m.Sound) (c : ContextId) :
    (m.popChunk c).2.logger =
      { m.logger with ringBuffer := (m.popChunk c).2.logger.ringBuffer } := by
  rcases EquiniosLogger.popChunkFromBuffer_spec h.wellFormed logProcessChunkSize with
    ⟨ringBuffer, hchunk, _⟩
  rw [popChunk, hchunk]

/-- One turn of the do-while loop: a take of 32 bytes, which are printed. -/
theorem popChunk_putchars {m : Machine} (h : m.Sound) (c : ContextId) :
    ((m.popChunk c).2.putchars c (m.popChunk c).1).Sound ∧
      ((m.popChunk c).2.putchars c (m.popChunk c).1).ledger = m.ledger.take 32 ∧
      stdoutOf ((m.popChunk c).2.putchars c (m.popChunk c).1).hist =
        stdoutOf m.hist ++ m.logger.queued.take 32 ∧
      acceptedOf ((m.popChunk c).2.putchars c (m.popChunk c).1).hist =
        acceptedOf m.hist := by
  have hsound := h.step (.popChunk (c := c))
  have hfst := popChunk_fst h c
  refine ⟨⟨?_, ?_⟩, ?_, ?_, ?_⟩
  · rw [putchars_logger]
    exact hsound.wellFormed
  · rw [putchars_logger]
    exact hsound.uninitialized
  · rw [← ledger_popChunk h c]
    refine ledger_of_quiet (by rw [putchars_logger]) (putchars_hist _ c _) ?_
    intro entry hentry
    rcases List.mem_map.mp hentry with ⟨byte, _, rfl⟩
    exact ⟨rfl, rfl⟩
  · rw [putchars_hist, stdoutOf_append, stdoutOf_printed, hfst]
    simp [popChunk, stdoutOf, Event.byte?]
  · rw [putchars_hist]
    simp [popChunk, acceptedOf, Event.accepted?, List.filterMap_map]

/-- What is taken when a queue is emptied. -/
theorem takenItems_take (ledger : Ledger UInt8) (n : Nat) :
    takenItems (ledger.take n).removals = takenItems ledger.removals ++ ledger.queue.take n := by
  rw [Ledger.take, takenItems_append]
  simp [takenItems, removedItems]

/-- The do-while loop changes nothing of the logger but the ring. -/
theorem processLoop_logger {m : Machine} (h : m.Sound) (c : ContextId) :
    ∃ ringBuffer, (m.processLoop c).logger = { m.logger with ringBuffer } := by
  induction m using Machine.processLoop.induct c with
  | case1 m res printed hpos ih =>
    rcases ih (popChunk_putchars h c).1 with ⟨ringBuffer, hlogger⟩
    refine ⟨ringBuffer, ?_⟩
    rw [processLoop, dif_pos hpos, hlogger, putchars_logger, popChunk_logger h c]
  | case2 m res hzero =>
    refine ⟨(m.popChunk c).2.logger.ringBuffer, ?_⟩
    rw [processLoop, dif_neg hzero, putchars_logger]
    exact popChunk_logger h c

/-- The do-while loop prints the whole ring, in chunks of 32 bytes. -/
theorem drained_processLoop {m : Machine} (h : m.Sound) (c : ContextId) :
    Drained m (m.processLoop c) := by
  have hdropped : (m.processLoop c).logger.droppedLines = m.logger.droppedLines := by
    rcases processLoop_logger h c with ⟨ringBuffer, hlogger⟩
    rw [hlogger]
  induction m using Machine.processLoop.induct c with
  | case1 m res printed hpos ih =>
    rcases popChunk_putchars h c with ⟨hsound, hledger, hstdout, haccepted⟩
    change printed.Sound at hsound
    change printed.ledger = _ at hledger
    change stdoutOf printed.hist = _ at hstdout
    change acceptedOf printed.hist = _ at haccepted
    have hqueued : printed.logger.queued = m.logger.queued.drop 32 :=
      congrArg Ledger.queue hledger
    have hloop : m.processLoop c = printed.processLoop c := by
      rw [processLoop, dif_pos hpos]
    rcases processLoop_logger hsound c with ⟨ringBuffer, hlogger⟩
    rcases ih hsound (by rw [hlogger]) with ⟨⟨k, hk⟩, hempty, haccepted', hstdout', htaken, _⟩
    rw [hloop] at hdropped ⊢
    refine ⟨⟨k + 1, ?_⟩, hempty, haccepted'.trans haccepted, ?_, ?_, hdropped⟩
    · rw [hk, hledger, Function.iterate_succ_apply]
    · rw [hstdout', hstdout, hqueued, List.append_assoc, List.take_append_drop]
    · rw [htaken, hledger, takenItems_take, hqueued, List.append_assoc]
      congr 1
      exact List.take_append_drop 32 m.logger.queued
  | case2 m res hzero =>
    rcases popChunk_putchars h c with ⟨_, hledger, hstdout, haccepted⟩
    have hloop : m.processLoop c = (m.popChunk c).2.putchars c (m.popChunk c).1 := by
      rw [processLoop, dif_neg hzero]
    -- the chunk is empty, so the ring was empty
    have hqueued : m.logger.queued = [] := by
      have hchunk : res.1.length = (m.logger.queued.take 32).length :=
        congrArg List.length (popChunk_fst h c)
      rw [List.length_take] at hchunk
      apply List.eq_nil_of_length_eq_zero
      omega
    rw [hloop] at hdropped ⊢
    refine ⟨⟨1, hledger⟩, ?_, haccepted, ?_, ?_, hdropped⟩
    · have hdrop := congrArg Ledger.queue hledger
      rw [show (m.ledger.take 32).queue = m.logger.queued.drop 32 from rfl, hqueued] at hdrop
      exact hdrop
    · rw [hstdout, hqueued]
      rfl
    · rw [hledger, takenItems_take, hqueued, show m.ledger.queue = [] from hqueued]
      rfl

/-! ## Every call -/

/-- A second use initialises nothing. -/
theorem loggerEnsureInitialized_idem (m : Machine) :
    m.loggerEnsureInitialized.loggerEnsureInitialized = m.loggerEnsureInitialized := by
  have hinit := initialized_loggerEnsureInitialized m
  generalize m.loggerEnsureInitialized = m' at hinit
  simp [loggerEnsureInitialized, EquiniosLogger.loggerEnsureInitialized, hinit]

/-- The timestamp a call that passes the level check gets. -/
def stamp (m : Machine) (answer : UInt32) : UInt32 := (m.logger.getTimestamp answer).1

/-- Drawing a timestamp keeps the logger sound. -/
theorem Sound.getTimestamp {m : Machine} (h : m.Sound) (c : ContextId) (answer : UInt32) :
    (m.getTimestamp c answer).2.Sound :=
  h.step (.getTimestamp (c := c) answer)

/-- A message that is not visible is a first use at most. -/
theorem logVwrite_of_filtered {m : Machine} {level : LogLevel}
    (h : m.loggerEnsureInitialized.logger.filters level = true) (c : ContextId)
    (formatted : List UInt8) (answer : UInt32) :
    m.logVwrite c level formatted answer = m.loggerEnsureInitialized := by
  simp [logVwrite, h]

/-- A visible message draws its timestamp and is queued with it. -/
theorem logVwrite_of_accepted {m : Machine} {level : LogLevel}
    (h : m.loggerEnsureInitialized.logger.filters level = false) (c : ContextId)
    (formatted : List UInt8) (answer : UInt32) :
    m.logVwrite c level formatted answer =
      (m.loggerEnsureInitialized.getTimestamp c answer).2.enqueueLine c
        (m.loggerEnsureInitialized.stamp answer) (formatMessage formatted) := by
  simp only [logVwrite, h]
  rfl

/-- An accepted {lit}`log_write` writes one line. -/
theorem wrote_logVwrite {m : Machine} (h : m.Sound) {level : LogLevel}
    (haccepted : m.loggerEnsureInitialized.logger.filters level = false) (c : ContextId)
    (formatted : List UInt8) (answer : UInt32) :
    Wrote m (m.logVwrite c level formatted answer)
      { timestamp := m.loggerEnsureInitialized.stamp answer
        message := formatMessage formatted } := by
  rw [logVwrite_of_accepted haccepted]
  have hquiet := h.quiet_loggerEnsureInitialized.trans
    (quiet_getTimestamp m.loggerEnsureInitialized c answer)
  exact Wrote.of_quiet hquiet (droppedLines_loggerEnsureInitialized m)
    (wrote_enqueueLine (h.loggerEnsureInitialized.getTimestamp c answer) c _ _)

/-- What follows a quiet part drains the same ring from the start. -/
theorem Drained.of_quiet {m m' m'' : Machine} (hquiet : Quiet m m')
    (hdropped : m'.logger.droppedLines = m.logger.droppedLines) (h : Drained m' m'') :
    Drained m m'' := by
  have hqueued := hquiet.queued
  rcases h with ⟨⟨k, hk⟩, hempty, haccepted, hstdout, htaken, hdropped'⟩
  refine ⟨⟨k, ?_⟩, hempty, ?_, ?_, ?_, ?_⟩
  · rw [hk, hquiet.ledger]
  · rw [haccepted, hquiet.accepted]
  · rw [hstdout, hquiet.stdout, hqueued]
  · rw [htaken, hquiet.ledger, hqueued]
  · rw [hdropped', hdropped]

/-- {lit}`process` is quiet or drains the ring, as {lit}`should_process` says. -/
theorem process_cases {m : Machine} (h : m.Sound) (c : ContextId) :
    ((m.shouldProcess c).1 = false ∧ m.process c = (m.shouldProcess c).2) ∨
      ((m.shouldProcess c).1 = true ∧ m.process c = (m.shouldProcess c).2.processLoop c ∧
        Drained m (m.process c)) := by
  have hsound : (m.shouldProcess c).2.Sound := h.step .shouldProcess
  by_cases hflush : (m.shouldProcess c).1 = true
  · right
    have hprocess : m.process c = (m.shouldProcess c).2.processLoop c := by
      simp [process, hflush]
    refine ⟨hflush, hprocess, ?_⟩
    rw [hprocess]
    exact Drained.of_quiet (quiet_shouldProcess m c) rfl (drained_processLoop hsound c)
  · left
    refine ⟨Bool.eq_false_iff.mpr hflush, ?_⟩
    simp [process, hflush]

/-- What a call does to the line queue, the output and the drop counter. -/
inductive CallEffect (c : ContextId) (m : Machine) : ApiCall → Machine → Prop
  /-- Nothing, except that {lit}`log_reset_dropped_lines` clears the counter. -/
  | quiet {call : ApiCall} {m' : Machine} (h : Quiet m m')
      (hdropped : call ≠ .logResetDroppedLines →
        m'.logger.droppedLines = m.logger.droppedLines) : CallEffect c m call m'
  /-- An accepted {lit}`log_write`. -/
  | wrote {level : LogLevel} {formatted : List UInt8} {answer : UInt32} {m' : Machine}
      (h : Wrote m m'
        { timestamp := m.loggerEnsureInitialized.stamp answer
          message := formatMessage formatted }) :
      CallEffect c m (.logWrite level formatted answer) m'
  /-- A {lit}`log_process` that flushes. -/
  | drained {m' : Machine} (h : Drained m m') : CallEffect c m .logProcess m'

/-- Every call is quiet, writes one line or drains the ring. -/
theorem apiCall_cases {m : Machine} (h : m.Sound) (c : ContextId) (call : ApiCall) :
    CallEffect c m call (call.run c m) := by
  have hinit := h.quiet_loggerEnsureInitialized
  have hdropped := droppedLines_loggerEnsureInitialized m
  have hsound := h.loggerEnsureInitialized
  cases call with
  | logSetLevel | logSetProcessEveryNCalls =>
    exact .quiet (hinit.trans (quiet_of_hist rfl rfl)) fun _ => hdropped
  | logSetTimestampProvider provider =>
    refine .quiet ((hinit.trans hsound.quiet_loggerEnsureInitialized).trans
      (quiet_of_hist rfl rfl)) ?_
    intro _
    exact (droppedLines_loggerEnsureInitialized _).trans hdropped
  | logGetDroppedLines => exact .quiet (hinit.trans (quiet_getDroppedLines _ c)) fun _ => hdropped
  | logResetDroppedLines =>
    exact .quiet (hinit.trans (quiet_resetDroppedLines _ c)) fun hreset => absurd rfl hreset
  | logWrite level formatted answer =>
    have hagain := loggerEnsureInitialized_idem m
    cases hfilter : m.loggerEnsureInitialized.logger.filters level with
    | true =>
      rw [← hagain] at hfilter
      rw [ApiCall.run, logVwrite_of_filtered hfilter, hagain]
      exact .quiet hinit fun _ => hdropped
    | false =>
      rw [← hagain] at hfilter
      have hwrote := wrote_logVwrite hsound hfilter c formatted answer
      rw [hagain] at hwrote
      exact .wrote (Wrote.of_quiet hinit hdropped hwrote)
  | logProcess =>
    rcases process_cases hsound c with ⟨_, hskip⟩ | ⟨_, _, hdrained⟩
    · rw [ApiCall.run, hskip]
      exact .quiet (hinit.trans (quiet_shouldProcess _ c)) fun _ => hdropped
    · exact .drained (Drained.of_quiet hinit hdropped hdrained)

/-- A call accepts at most one line. -/
theorem CallEffect.accepted_le {c : ContextId} {m m' : Machine} {call : ApiCall}
    (h : CallEffect c m call m') : acceptedOf m.hist <+: acceptedOf m'.hist := by
  cases h with
  | quiet h _ => exact h.accepted.symm ▸ List.prefix_rfl
  | wrote h =>
    rw [h.accepted]
    exact List.prefix_append _ _
  | drained h => exact h.accepted.symm ▸ List.prefix_rfl

/-- What was printed is what was taken. -/
theorem CallEffect.printed {c : ContextId} {m m' : Machine} {call : ApiCall}
    (h : CallEffect c m call m') (hm : stdoutOf m.hist = takenItems m.ledger.removals) :
    stdoutOf m'.hist = takenItems m'.ledger.removals := by
  cases h with
  | quiet h _ => rw [h.stdout, h.ledger, hm]
  | wrote h =>
    rw [h.stdout, h.ledger, hm, Ledger.offer, takenItems_append, takenItems_discards,
      List.append_nil]
  | drained h => rw [h.stdout, h.taken, hm]

/-- Any call but {lit}`log_reset_dropped_lines` counts what it discards. -/
theorem CallEffect.counted {c : ContextId} {m m' : Machine} {call : ApiCall}
    (h : CallEffect c m call m') (hreset : call ≠ .logResetDroppedLines)
    (hm : m.logger.droppedLines = UInt32.ofNat (discardedBlocks m.ledger.removals).length) :
    m'.logger.droppedLines = UInt32.ofNat (discardedBlocks m'.ledger.removals).length := by
  cases h with
  | quiet h hdropped => rw [hdropped hreset, h.ledger, hm]
  | wrote h =>
    rw [h.dropped, h.ledger, hm, Ledger.offer, discardedBlocks_append, discardedBlocks_discards,
      List.length_append, takeSegments_length, UInt32.ofNat_add]
  | drained h =>
    rcases h.ledger with ⟨k, hk⟩
    rw [h.dropped, hm, hk, Ledger.iterate_take_discardedBlocks]

end Machine

/-! ## Runs of one context -/

/-- Later calls keep the lines accepted so far. -/
theorem acceptedOf_prefix_runCalls {m : Machine} (h : m.Consistent) (c : ContextId)
    (calls : List ApiCall) : acceptedOf m.hist <+: acceptedOf (runCalls c m calls).hist := by
  refine (StepSystem.run_invariant
    (P := fun m' : Machine => m'.Consistent ∧ acceptedOf m.hist <+: acceptedOf m'.hist)
    ?_ ⟨h, List.prefix_rfl⟩ calls).2
  intro m' call hm'
  refine ⟨hm'.1.apiCall c call, hm'.2.trans ?_⟩
  exact (Machine.apiCall_cases hm'.1.toSound c call).accepted_le

/-- Between the calls of one context everything taken from the ring is printed. -/
theorem stdoutOf_runCalls (c : ContextId) (calls : List ApiCall) :
    stdoutOf (runCalls c Machine.reset calls).hist =
      takenItems (runCalls c Machine.reset calls).ledger.removals := by
  refine (StepSystem.run_invariant
    (P := fun m : Machine => m.Consistent ∧ stdoutOf m.hist = takenItems m.ledger.removals)
    ?_ ⟨Machine.consistent_reset, rfl⟩ calls).2
  intro m call hm
  exact ⟨hm.1.apiCall c call, (Machine.apiCall_cases hm.1.toSound c call).printed hm.2⟩

/-- Without a reset the counter counts every discarded block, modulo {lit}`2^32`. -/
theorem droppedLines_runCalls (c : ContextId) {calls : List ApiCall}
    (hreset : .logResetDroppedLines ∉ calls) :
    (runCalls c Machine.reset calls).logger.droppedLines =
      UInt32.ofNat (dropsOf (runCalls c Machine.reset calls).hist) := by
  have hmeets : StepSystem.Meets (ApiCall.run c) (fun _ call => call ≠ .logResetDroppedLines)
      Machine.reset calls := by
    apply StepSystem.meets_of_forall
    rintro call hcall rfl
    exact hreset hcall
  refine (StepSystem.run_invariant_of_meets
    (P := fun m : Machine => m.Consistent ∧ m.logger.droppedLines =
      UInt32.ofNat (discardedBlocks m.ledger.removals).length)
    ?_ ⟨Machine.consistent_reset, rfl⟩ hmeets).2
  intro m call hm hcall
  exact ⟨hm.1.apiCall c call,
    (Machine.apiCall_cases hm.1.toSound c call).counted hcall hm.2⟩

end Equinios
end RadonMCU
