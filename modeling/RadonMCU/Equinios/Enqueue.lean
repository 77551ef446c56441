import RadonMCU.Equinios.Logger
import RadonMCU.Foundations.Segments

/-!
# The exact effect of queueing a line

{lit}`logger_enqueue_line` evicts leading segments of the ring until the line
fits and then pushes the line byte by byte.  This file computes each of its
loops on the contents of a well-formed ring, and records the bytes that the
eviction loop takes.

Main results:

- Theorem {lit}`evictLoop_spec`: the loop removes the least number of segments
  that makes room and counts each of them.
- Theorem {lit}`evictedLines_eq`: the blocks the loop takes are those segments.
- Theorem {lit}`loggerEnqueueLine_spec`: the contents and the counter after a
  call, and that no other member changes.
- Theorem {lit}`loggerEnqueueLine_exact`: the same from any reachable ring, with
  every turn of both loops.
-/

namespace RadonMCU
namespace Equinios

/-! ## The kept bytes of a line -/

/-- The last {lit}`min(len, 128)` bytes of a line. -/
def lastBytes (line : List UInt8) : List UInt8 := line.drop (line.length - min line.length 128)

/-- What {lit}`logger_enqueue_line` keeps of a line are its last bytes. -/
theorem lineTail_eq_lastBytes (line : List UInt8) :
    EquiniosLogger.lineTail line = lastBytes line := by
  unfold EquiniosLogger.lineTail lastBytes
  rw [ringBufferSize_toNat]
  split
  · rename_i hlong
    rw [Nat.min_eq_right (Nat.le_of_lt hlong)]
  · rename_i hshort
    rw [Nat.min_eq_left (Nat.le_of_not_lt hshort), Nat.sub_self, List.drop_zero]

theorem lastBytes_length (line : List UInt8) : (lastBytes line).length = min line.length 128 := by
  rw [lastBytes, List.length_drop]
  omega

namespace EquiniosLogger

open Segments

/-- The bytes of the ring, oldest first. -/
def queued (this : EquiniosLogger) : List UInt8 := this.ringBuffer.contents

/-! ## Discarding one segment -/

theorem discardLoop_spec {this : EquiniosLogger} (hwf : this.ringBuffer.WellFormed)
    (discarded : Bool) :
    ∃ ringBuffer : RingBuffer,
      this.discardLoop discarded =
        (discarded || !this.queued.isEmpty, { this with ringBuffer }) ∧
      ringBuffer.WellFormed ∧
      ringBuffer.contents = afterSegment newline this.queued := by
  induction this, discarded using discardLoop.induct with
  | case1 this discarded hpop =>
    have hnil : this.queued = [] := by
      cases hc : this.queued with
      | nil => rfl
      | cons byte rest =>
        rcases RingBuffer.pop_of_cons hwf hc with ⟨_, hsome, _⟩
        rw [hpop] at hsome
        contradiction
    refine ⟨this.ringBuffer, ?_, hwf, ?_⟩
    · rw [discardLoop, hpop, hnil]
      simp
    · rw [hnil]
      exact hnil
  | case2 this discarded ringBuffer hpop =>
    rcases RingBuffer.contents_of_pop hwf hpop with ⟨hwf', hcons⟩
    refine ⟨ringBuffer, ?_, hwf', ?_⟩
    · rw [discardLoop, hpop, queued, hcons]
      simp
    · rw [queued, hcons, afterSegment_cons_self]
  | case3 this discarded byte ringBuffer hpop hbyte ih =>
    rcases RingBuffer.contents_of_pop hwf hpop with ⟨hwf', hcons⟩
    rcases ih hwf' with ⟨ringBuffer', hloop, hwf'', hrest⟩
    refine ⟨ringBuffer', ?_, hwf'', ?_⟩
    · rw [discardLoop, hpop]
      simp only [if_neg hbyte]
      rw [hloop, queued, queued, hcons]
      simp
    · rw [hrest, queued, queued, hcons, afterSegment_cons_of_ne newline hbyte]

/-- A turn of the eviction loop on a ring that is not empty removes the leading
segment and counts it. -/
theorem evictTurn_spec {this : EquiniosLogger} (hwf : this.ringBuffer.WellFormed)
    (hne : this.queued ≠ []) :
    ∃ ringBuffer : RingBuffer,
      this.evictTurn =
        { this with ringBuffer, droppedLines := this.droppedLines + 1 } ∧
      ringBuffer.WellFormed ∧
      ringBuffer.contents = afterSegment newline this.queued := by
  rcases discardLoop_spec hwf false with ⟨ringBuffer, hloop, hwf', hrest⟩
  refine ⟨ringBuffer, ?_, hwf', hrest⟩
  have hdiscarded : (false || !this.queued.isEmpty) = true := by
    simpa using hne
  rw [evictTurn, ringBufferDiscardOldestLine, hloop, hdiscarded]
  rfl

/-! ## The eviction loop -/

/-- On a well-formed ring the subtraction does not underflow. -/
theorem freeSpace_toNat {this : EquiniosLogger} (hwf : this.ringBuffer.WellFormed) :
    this.freeSpace.toNat = 128 - this.queued.length := by
  have hle := hwf.count_le
  rw [queued, RingBuffer.contents_length, freeSpace, RingBuffer.size, UInt32.toNat_sub,
    ringBufferSize_toNat]
  omega

theorem isEmpty_eq_false {this : EquiniosLogger} (hne : this.queued ≠ []) :
    this.ringBuffer.isEmpty = false := by
  rw [Bool.eq_false_iff]
  intro hempty
  exact hne ((RingBuffer.contents_eq_nil_iff _).mpr hempty)

/-- How many segments the eviction loop takes for a line of {lit}`lineLen`
bytes. -/
def evictions (this : EquiniosLogger) (lineLen : Nat) : Nat :=
  segmentsToDrop newline (128 - lineLen) this.queued

theorem evictions_eq_zero {this : EquiniosLogger} {lineLen : Nat}
    (hfits : this.queued.length ≤ 128 - lineLen) : this.evictions lineLen = 0 :=
  segmentsToDrop_of_le newline hfits

/-- When the line fits, the guard of the loop is false. -/
theorem not_freeSpace_lt {this : EquiniosLogger} (hwf : this.ringBuffer.WellFormed)
    {lineLen : Nat} (hlen : lineLen ≤ 128) (hfits : this.queued.length ≤ 128 - lineLen) :
    ¬ this.freeSpace.toNat < lineLen := by
  rw [freeSpace_toNat hwf]
  omega

/-- When the line does not fit, the guard holds, the ring is not empty, and one
turn leaves one segment less to evict. -/
theorem evictTurn_of_over {this : EquiniosLogger} (hwf : this.ringBuffer.WellFormed)
    {lineLen : Nat} (hlen : lineLen ≤ 128) (hover : 128 - lineLen < this.queued.length) :
    this.freeSpace.toNat < lineLen ∧ this.ringBuffer.isEmpty = false ∧
      (∃ ringBuffer : RingBuffer, this.evictTurn =
        { this with ringBuffer, droppedLines := this.droppedLines + 1 }) ∧
      this.evictTurn.ringBuffer.WellFormed ∧
      this.evictTurn.queued = afterSegment newline this.queued ∧
      this.evictions lineLen = this.evictTurn.evictions lineLen + 1 := by
  have hle : this.queued.length ≤ 128 := hwf.contents_length_le
  have hne : this.queued ≠ [] := by
    intro hnil
    rw [hnil] at hover
    simp at hover
  rcases evictTurn_spec hwf hne with ⟨ringBuffer, hturn, hwf', hrest⟩
  have hqueued : this.evictTurn.queued = afterSegment newline this.queued := by
    rw [hturn]
    exact hrest
  refine ⟨?_, isEmpty_eq_false hne, ⟨ringBuffer, hturn⟩, ?_, hqueued, ?_⟩
  · rw [freeSpace_toNat hwf]
    omega
  · rw [hturn]
    exact hwf'
  · rw [evictions, evictions, hqueued, segmentsToDrop_of_lt newline hover]

/-- The loop runs no turn exactly when the line fits. -/
theorem evictions_eq_zero_iff {this : EquiniosLogger} (hwf : this.ringBuffer.WellFormed)
    {lineLen : Nat} (hlen : lineLen ≤ 128) :
    this.evictions lineLen = 0 ↔ this.queued.length ≤ 128 - lineLen := by
  constructor
  · intro hzero
    by_contra hover
    have hstep := (evictTurn_of_over hwf hlen (Nat.lt_of_not_le hover)).2.2.2.2.2
    omega
  · exact evictions_eq_zero

/-- The loop removes the least number of segments that makes room and counts
each of them. -/
theorem evictLoop_spec {this : EquiniosLogger} (hwf : this.ringBuffer.WellFormed)
    {lineLen : Nat} (hlen : lineLen ≤ 128) :
    ∃ ringBuffer : RingBuffer,
      this.evictLoop lineLen =
        { this with
          ringBuffer
          droppedLines := this.droppedLines + UInt32.ofNat (this.evictions lineLen) } ∧
      ringBuffer.WellFormed ∧
      ringBuffer.contents = dropSegments newline (this.evictions lineLen) this.queued := by
  induction hk : this.evictions lineLen generalizing this with
  | zero =>
    have hfits := (evictions_eq_zero_iff hwf hlen).mp hk
    refine ⟨this.ringBuffer, ?_, hwf, rfl⟩
    rw [evictLoop, if_neg (not_freeSpace_lt hwf hlen hfits)]
    simp
  | succ k ih =>
    have hover : 128 - lineLen < this.queued.length := by
      by_contra hfits
      have hzero := evictions_eq_zero (Nat.le_of_not_lt hfits)
      omega
    rcases evictTurn_of_over hwf hlen hover with
      ⟨hguard, hempty, ⟨_, hturn⟩, hwf', hqueued, hcount⟩
    rcases ih hwf' (by omega) with ⟨ringBuffer, hloop, hwf'', hcontents⟩
    refine ⟨ringBuffer, ?_, hwf'', ?_⟩
    · rw [evictLoop, if_pos hguard, dif_neg (by rw [hempty]; exact Bool.false_ne_true), hloop,
        hturn]
      simp only [EquiniosLogger.mk.injEq, true_and, and_true]
      rw [UInt32.add_assoc, UInt32.add_comm 1, UInt32.ofNat_add]
      rfl
    · rw [hcontents, hqueued, dropSegments_succ]

/-! ## What the eviction loop takes -/

/-- The bytes that the loop of {lit}`ring_buffer_discard_oldest_line` pops. -/
def discardedLine (ringBuffer : RingBuffer) : List UInt8 :=
  match _h : ringBuffer.pop with
  | none => []
  | some (byte, ringBuffer') =>
      if byte = newline then [byte] else byte :: discardedLine ringBuffer'
termination_by ringBuffer.count.toNat
decreasing_by
  have hcount := RingBuffer.pop_count _h
  omega

/-- The bytes that each turn of the eviction loop discards. -/
def evictedLines (this : EquiniosLogger) (lineLen : Nat) : List (List UInt8) :=
  if this.freeSpace.toNat < lineLen then
    if _h : this.ringBuffer.isEmpty = true then []
    else discardedLine this.ringBuffer :: evictedLines this.evictTurn lineLen
  else []
termination_by this.ringBuffer.count.toNat
decreasing_by exact evictTurn_count_lt (Bool.eq_false_iff.mpr _h)

theorem discardedLine_eq {ringBuffer : RingBuffer} (hwf : ringBuffer.WellFormed) :
    discardedLine ringBuffer = firstSegment newline ringBuffer.contents := by
  induction hc : ringBuffer.contents generalizing ringBuffer with
  | nil =>
    rw [discardedLine, RingBuffer.pop_of_nil hc]
    rfl
  | cons byte rest ih =>
    rcases RingBuffer.pop_of_cons hwf hc with ⟨ringBuffer', hpop, hwf', hrest⟩
    rw [discardedLine, hpop]
    by_cases hbyte : byte = newline
    · simp [hbyte, firstSegment]
    · simp only [if_neg hbyte]
      rw [ih hwf' hrest, firstSegment_cons_of_ne newline hbyte]

/-- The blocks that the eviction loop takes are the leading segments. -/
theorem evictedLines_eq {this : EquiniosLogger} (hwf : this.ringBuffer.WellFormed)
    {lineLen : Nat} (hlen : lineLen ≤ 128) :
    this.evictedLines lineLen =
      takeSegments newline (this.evictions lineLen) this.queued := by
  induction hk : this.evictions lineLen generalizing this with
  | zero =>
    have hfits := (evictions_eq_zero_iff hwf hlen).mp hk
    rw [evictedLines, if_neg (not_freeSpace_lt hwf hlen hfits), takeSegments_zero]
  | succ k ih =>
    have hover : 128 - lineLen < this.queued.length := by
      by_contra hfits
      have hzero := evictions_eq_zero (Nat.le_of_not_lt hfits)
      omega
    rcases evictTurn_of_over hwf hlen hover with
      ⟨hguard, hempty, _, hwf', hqueued, hcount⟩
    rw [evictedLines, if_pos hguard, dif_neg (by rw [hempty]; exact Bool.false_ne_true),
      ih hwf' (by omega), hqueued, discardedLine_eq hwf, takeSegments_succ]
    rfl

/-! ## The push loop -/

/-- When the bytes fit, no push is refused and all of them are appended. -/
theorem pushLoop_spec {this : EquiniosLogger} (hwf : this.ringBuffer.WellFormed)
    {bytes : List UInt8} (hfits : this.queued.length + bytes.length ≤ 128) :
    ∃ ringBuffer : RingBuffer,
      this.pushLoop bytes = (bytes.length, { this with ringBuffer }) ∧
      ringBuffer.WellFormed ∧ ringBuffer.contents = this.queued ++ bytes := by
  induction bytes generalizing this with
  | nil =>
    refine ⟨this.ringBuffer, rfl, hwf, ?_⟩
    rw [List.append_nil, queued]
  | cons byte rest ih =>
    rw [List.length_cons] at hfits
    have hlt : this.ringBuffer.count.toNat < 128 := by
      rw [← RingBuffer.contents_length]
      change this.queued.length < 128
      omega
    rcases RingBuffer.push_of_lt hwf hlt byte with ⟨ringBuffer, hpush, hwf', happend⟩
    have hfits' : ringBuffer.contents.length + rest.length ≤ 128 := by
      rw [happend, List.length_append, List.length_singleton]
      change this.queued.length + 1 + rest.length ≤ 128
      omega
    have ih' := @ih { this with ringBuffer }
    rcases ih' hwf' hfits' with
      ⟨final, hloop, hwfFinal, hcontents⟩
    refine ⟨final, ?_, hwfFinal, ?_⟩
    · rw [pushLoop, hpush]
      simp only [hloop, List.length_cons]
    · rw [hcontents]
      change ringBuffer.contents ++ rest = this.ringBuffer.contents ++ byte :: rest
      rw [happend, List.append_assoc, List.singleton_append]

/-! ## The whole call -/

theorem lineTail_length (line : List UInt8) :
    (lineTail line).length = min line.length 128 := by
  rw [lineTail, ringBufferSize_toNat]
  split
  · rw [List.length_drop]
    omega
  · omega

theorem lineTail_length_le (line : List UInt8) : (lineTail line).length ≤ 128 := by
  rw [lineTail_length]
  exact Nat.min_le_right _ _

theorem lineTail_suffix (line : List UInt8) : lineTail line <:+ line := by
  unfold lineTail
  split
  · exact List.drop_suffix _ _
  · exact List.suffix_rfl

/-- The contents and the counter after a call; no other member changes. -/
theorem loggerEnqueueLine_spec {this : EquiniosLogger} (hwf : this.ringBuffer.WellFormed)
    (line : CString) :
    ∃ ringBuffer : RingBuffer,
      this.loggerEnqueueLine line =
        { this with
          ringBuffer
          droppedLines := this.droppedLines +
            UInt32.ofNat (this.evictions (lineTail line.bytes).length) } ∧
      ringBuffer.WellFormed ∧
      ringBuffer.contents =
        dropSegments newline (this.evictions (lineTail line.bytes).length) this.queued ++
          lineTail line.bytes := by
  have hlen := lineTail_length_le line.bytes
  rcases evictLoop_spec hwf hlen with ⟨ringBuffer, hevict, hwf', hdrop⟩
  have hroom := dropSegments_segmentsToDrop_le newline
    (128 - (lineTail line.bytes).length) this.queued
  have hfits : (this.evictLoop (lineTail line.bytes).length).queued.length +
      (lineTail line.bytes).length ≤ 128 := by
    rw [hevict, queued, hdrop, evictions]
    omega
  have hwfEvicted : (this.evictLoop (lineTail line.bytes).length).ringBuffer.WellFormed := by
    rw [hevict]
    exact hwf'
  rcases pushLoop_spec hwfEvicted hfits with ⟨final, hpush, hwfFinal, hcontents⟩
  refine ⟨final, ?_, hwfFinal, ?_⟩
  · rw [loggerEnqueueLine, hpush, hevict]
  · rw [hcontents, hevict, queued, hdrop]

/-! ## Every turn of the loops -/

/-- The eviction loop is {lit}`evictions` turns; before each of them the ring is
not empty, and the ring is well formed all along. -/
theorem evictLoop_turns {this : EquiniosLogger} (hwf : this.ringBuffer.WellFormed)
    {lineLen : Nat} (hlen : lineLen ≤ 128) :
    this.evictLoop lineLen = evictTurn^[this.evictions lineLen] this ∧
      (∀ n ≤ this.evictions lineLen, (evictTurn^[n] this).ringBuffer.WellFormed) ∧
      (∀ n < this.evictions lineLen, (evictTurn^[n] this).ringBuffer.isEmpty = false) := by
  induction hk : this.evictions lineLen generalizing this with
  | zero =>
    have hfits := (evictions_eq_zero_iff hwf hlen).mp hk
    refine ⟨?_, ?_, ?_⟩
    · rw [evictLoop, if_neg (not_freeSpace_lt hwf hlen hfits)]
      rfl
    · intro n hn
      rw [Nat.le_zero.mp hn]
      exact hwf
    · intro n hn
      omega
  | succ k ih =>
    have hover : 128 - lineLen < this.queued.length := by
      by_contra hfits
      have hzero := evictions_eq_zero (Nat.le_of_not_lt hfits)
      omega
    rcases evictTurn_of_over hwf hlen hover with ⟨hguard, hempty, _, hwf', _, hcount⟩
    rcases ih hwf' (by omega) with ⟨hloop, hwfTurns, hemptyTurns⟩
    refine ⟨?_, ?_, ?_⟩
    · rw [evictLoop, if_pos hguard, dif_neg (by rw [hempty]; exact Bool.false_ne_true), hloop,
        Function.iterate_succ_apply]
    · intro n hn
      cases n with
      | zero => exact hwf
      | succ n =>
        rw [Function.iterate_succ_apply]
        exact hwfTurns n (by omega)
    · intro n hn
      cases n with
      | zero => exact hempty
      | succ n =>
        rw [Function.iterate_succ_apply]
        exact hemptyTurns n (by omega)

/-- The exact effect of {lit}`logger_enqueue_line` on a logger, with {lit}`k`
segments evicted. -/
structure EnqueueEffect (this : EquiniosLogger) (line : CString) (k : Nat)
    (after : EquiniosLogger) : Prop where
  /-- {lit}`k` is the least number of leading segments that makes room. -/
  least : IsLeast
    {n | (dropSegments newline n this.queued).length + (lastBytes line.bytes).length ≤ 128} k
  /-- The remaining segments are followed by the last bytes of the line. -/
  contents : after.queued = dropSegments newline k this.queued ++ lastBytes line.bytes
  /-- The counter grows by {lit}`k`, and only the ring changes besides. -/
  frame : after =
    { this with
      ringBuffer := after.ringBuffer
      droppedLines := this.droppedLines + UInt32.ofNat k }
  wellFormed : after.ringBuffer.WellFormed
  /-- A line that fits evicts nothing. -/
  fits : this.queued.length + (lastBytes line.bytes).length ≤ 128 → k = 0
  /-- The eviction loop makes {lit}`k` turns. -/
  turns : this.evictLoop (lastBytes line.bytes).length = evictTurn^[k] this
  /-- The subtraction from the capacity never underflows. -/
  size_le : ∀ n ≤ k, (evictTurn^[n] this).ringBuffer.size ≤ ringBufferSize
  /-- The break on an empty ring is never taken. -/
  not_empty : ∀ n < k, (evictTurn^[n] this).ringBuffer.isEmpty = false
  /-- The break on a refused push is never taken: all bytes are pushed. -/
  pushed : ((this.evictLoop (lastBytes line.bytes).length).pushLoop (lastBytes line.bytes)).1 =
    (lastBytes line.bytes).length

/-- Room for a line is room for the rest of the ring. -/
theorem room_iff {length lineLen : Nat} (hlen : lineLen ≤ 128) :
    length ≤ 128 - lineLen ↔ length + lineLen ≤ 128 := by
  omega

/-- From every reachable ring and for every line, {lit}`logger_enqueue_line`
evicts the least number of leading segments that makes room for the last bytes of
the line, counts each of them, and stores these bytes in full. -/
theorem loggerEnqueueLine_exact {this : EquiniosLogger} (h : this.ringBuffer.Reachable)
    (line : CString) : ∃ k, EnqueueEffect this line k (this.loggerEnqueueLine line) := by
  have hwf := h.wellFormed
  have hlen : (lastBytes line.bytes).length ≤ 128 := by
    rw [lastBytes_length]
    exact Nat.min_le_right _ _
  have hspec := loggerEnqueueLine_spec hwf line
  rw [lineTail_eq_lastBytes] at hspec
  rcases hspec with ⟨ringBuffer, henqueue, hwf', hcontents⟩
  rcases evictLoop_turns hwf hlen with ⟨hturns, hwfTurns, hemptyTurns⟩
  refine ⟨this.evictions (lastBytes line.bytes).length, ?_, ?_, ?_, ?_, ?_, hturns, ?_,
    hemptyTurns, ?_⟩
  · have hleast := segmentsToDrop_isLeast newline
      (128 - (lastBytes line.bytes).length) this.queued
    simp only [room_iff hlen] at hleast
    exact hleast
  · rw [henqueue]
    exact hcontents
  · rw [henqueue]
  · rw [henqueue]
    exact hwf'
  · intro hfits
    exact evictions_eq_zero ((room_iff hlen).mpr hfits)
  · intro n hn
    exact UInt32.le_iff_toNat_le.mpr (hwfTurns n hn).count_le
  · rcases evictLoop_spec hwf hlen with ⟨evicted, hevict, hwfEvicted, hdrop⟩
    have hroom := dropSegments_segmentsToDrop_le newline
      (128 - (lastBytes line.bytes).length) this.queued
    have hfits : (this.evictLoop (lastBytes line.bytes).length).queued.length +
        (lastBytes line.bytes).length ≤ 128 := by
      rw [hevict, queued, hdrop, evictions]
      omega
    have hwfLoop : (this.evictLoop (lastBytes line.bytes).length).ringBuffer.WellFormed := by
      rw [hevict]
      exact hwfEvicted
    rcases pushLoop_spec hwfLoop hfits with ⟨_, hpush, _⟩
    rw [hpush]

/-- Three lines of 40 bytes in a ring that wraps, and one of 66 bytes: the two oldest
lines have to go. -/
theorem loggerEnqueueLine_exact_evicts :
    let moved := (List.replicate 100 [RingBuffer.Op.push 0, RingBuffer.Op.pop]).flatten
    let lines := (List.replicate 3 (List.replicate 39 97 ++ [newline])).flatten
    let ringBuffer := StepSystem.run RingBuffer.Op.apply RingBuffer.new
      (moved ++ lines.map RingBuffer.Op.push)
    let this : EquiniosLogger := { gInstance with ringBuffer }
    let line := formatLine 7 (formatMessage (List.replicate 60 98))
    this.queued = lines ∧ EnqueueEffect this line 2 (this.loggerEnqueueLine line) := by
  intro moved lines ringBuffer this line
  have hreachable : ringBuffer.Reachable := RingBuffer.reachable_run _
  have hqueued : this.queued = lines := by decide +kernel
  have hline : (lastBytes line.bytes).length = 66 := by decide +kernel
  have htwo : IsLeast {n | (dropSegments newline n lines).length + 66 ≤ 128} 2 := by
    refine ⟨by decide +kernel, fun n hn => ?_⟩
    match n, hn with
    | 0, hn => exact absurd hn (by decide +kernel)
    | 1, hn => exact absurd hn (by decide +kernel)
    | n + 2, _ => exact Nat.le_add_left 2 n
  clear_value ringBuffer
  obtain ⟨k, heffect⟩ := @loggerEnqueueLine_exact this hreachable line
  have hleast := heffect.least
  rw [hqueued, hline] at hleast
  rw [hleast.unique htwo] at heffect
  exact ⟨hqueued, heffect⟩

end EquiniosLogger
end Equinios
end RadonMCU
