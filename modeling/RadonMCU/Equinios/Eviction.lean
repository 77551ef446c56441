import RadonMCU.Equinios.Calls
import RadonMCU.Foundations.LineAccount

/-!
# What an overflow evicts

Eviction looks for newlines in the ring, while a line is what one log call
stored.  The two agree when the stored bytes of a call hold a newline at most at
their end.

Main results:

- Theorem {lit}`stored_endsIn_or_full`: a stored line ends in a newline or fills
  the ring.
- Theorem {lit}`exists_trimming_runCalls`: in every run of one context a line loses
  at most a beginning to evictions, and the rest is emitted as a whole.
- Theorem {lit}`exists_account_runCalls`: as long as no stored line holds a newline
  inside, every line leaves the ring as a whole between calls.
- Theorem {lit}`evicted_runCalls`: what an overflow discards and counts, for any
  texts and for stored lines without a newline inside.
-/

namespace RadonMCU
namespace Equinios

open Segments LineQueue

/-! ## Stored lines -/

/-- The stored bytes hold a newline at most at their end. -/
def Accepted.SingleLine (line : Accepted) : Prop := newline ∉ line.stored.dropLast

instance (line : Accepted) : Decidable line.SingleLine :=
  inferInstanceAs (Decidable (¬ _))

theorem endsIn_newline_fullLine (timestamp : UInt32) (message : CString) :
    EndsIn newline (fullLine timestamp message) := by
  rw [fullLine_eq_concat]
  simp [EndsIn]

/-- A stored line ends in a newline or fills the ring. -/
theorem stored_endsIn_or_full (line : Accepted) :
    EndsIn newline line.stored ∨ 128 ≤ line.stored.length := by
  by_cases hfits : line.full.length ≤ 259
  · left
    have hsuffix : line.stored <:+ line.full := by
      unfold Accepted.stored storedLine
      rw [formatLine_bytes_of_fits hfits]
      exact EquiniosLogger.lineTail_suffix _
    rcases (endsIn_newline_fullLine line.timestamp line.message).of_suffix hsuffix with
      hnil | hends
    · exact absurd hnil (storedLine_ne_nil _ _)
    · exact hends
  · right
    unfold Accepted.full at hfits
    unfold Accepted.stored storedLine
    rw [EquiniosLogger.lineTail_length, formatLine_bytes, List.length_take]
    omega

/-- Lines that wait in the ring can be told apart there. -/
theorem wholeLines_of_singleLine {lines : List Accepted} (h : ∀ line ∈ lines, line.SingleLine)
    (hroom : (lines.map Accepted.stored).flatten.length ≤ 128) :
    WholeLines newline (lines.map Accepted.stored) := by
  refine wholeLines_of_length_le ?_ hroom
  intro stored hstored
  rcases List.mem_map.mp hstored with ⟨line, hline, rfl⟩
  exact ⟨⟨storedLine_ne_nil _ _, h line hline⟩, stored_endsIn_or_full line⟩

/-! ## Runs of one context -/

/-- In every run of one context a line loses at most a beginning to evictions, and
the rest of it is taken. -/
theorem exists_trimming_runCalls (c : ContextId) (calls : List ApiCall) :
    ∃ parts begun, Trimming (runCalls c Machine.reset calls).ledger parts begun := by
  refine (StepSystem.run_invariant
    (P := fun m : Machine => m.Consistent ∧ ∃ parts begun, Trimming m.ledger parts begun)
    ?_ ⟨Machine.consistent_reset, ?_⟩ calls).2
  · intro m call hm
    refine ⟨hm.1.apiCall c call, ?_⟩
    rcases hm.2 with ⟨parts, begun, htrimming⟩
    cases Machine.apiCall_cases hm.1.toSound c call with
    | quiet h _ =>
      rw [h.ledger]
      exact ⟨parts, begun, htrimming⟩
    | wrote h =>
      rw [h.ledger]
      exact htrimming.offer (storedLine_ne_nil _ _) newline 128
    | drained h =>
      rcases h.ledger with ⟨k, hk⟩
      have hempty := h.empty
      change (ApiCall.logProcess.run c m).ledger.queue = [] at hempty
      have htagged := Ledger.iterate_take_tagged m.ledger 32 k
      rw [← hk, hempty, tag_nil, List.append_nil] at htagged
      have hlines : (ApiCall.logProcess.run c m).ledger.lines = m.ledger.lines := by
        rw [hk, Ledger.iterate_take_lines]
      rcases htrimming.drain hlines hempty htagged with ⟨parts', htrimming'⟩
      exact ⟨parts', [], htrimming'⟩
  · rw [Machine.ledger_reset]
    exact ⟨[], [], trimming_empty⟩

/-- As long as no stored line holds a newline inside, every line leaves the ring as
a whole, and none is half taken between calls. -/
theorem exists_account_runCalls (c : ContextId) {calls : List ApiCall}
    (hsingle : ∀ line ∈ acceptedOf (runCalls c Machine.reset calls).hist, line.SingleLine) :
    ∃ fates, Account (runCalls c Machine.reset calls).ledger fates [] := by
  refine (StepSystem.run_invariant
    (P := fun m : Machine => m.Consistent ∧
      ((∀ line ∈ acceptedOf m.hist, line.SingleLine) → ∃ fates, Account m.ledger fates []))
    ?_ ⟨Machine.consistent_reset, ?_⟩ calls).2 hsingle
  · intro m call hm
    refine ⟨hm.1.apiCall c call, ?_⟩
    intro hsingle'
    have hcall := Machine.apiCall_cases hm.1.toSound c call
    have hbefore : ∀ line ∈ acceptedOf m.hist, line.SingleLine := by
      intro line hline
      exact hsingle' line (hcall.accepted_le.subset hline)
    rcases hm.2 hbefore with ⟨fates, haccount⟩
    cases hcall with
    | quiet h _ =>
      rw [h.ledger]
      exact ⟨fates, haccount⟩
    | wrote h =>
      rw [h.ledger]
      -- the lines in the ring are whole, so the overflow evicts whole lines
      have hrest := haccount.split.pending.rest
      rw [List.nil_append] at hrest
      have hlines : m.ledger.lines.drop fates.length =
          ((acceptedOf m.hist).drop fates.length).map Accepted.stored := List.map_drop.symm
      rw [hlines] at hrest
      have hroom : (((acceptedOf m.hist).drop fates.length).map
          Accepted.stored).flatten.length ≤ 128 := by
        rw [hrest]
        exact hm.1.wellFormed.contents_length_le
      have hwhole : WholeLines newline (m.ledger.lines.drop fates.length) := by
        rw [hlines]
        apply wholeLines_of_singleLine _ hroom
        intro line hline
        exact hbefore line (List.mem_of_mem_drop hline)
      exact haccount.offer (storedLine_ne_nil _ _) hwhole (Or.inl rfl)
    | drained h =>
      rcases h.ledger with ⟨k, hk⟩
      rcases haccount.iterate_take 32 k with ⟨fates', begun', haccount'⟩
      rw [← hk] at haccount'
      rw [haccount'.begun_eq_nil h.empty] at haccount'
      exact ⟨fates', haccount'⟩
  · intro _
    rw [Machine.ledger_reset]
    exact ⟨[], account_empty⟩

/-- Every accepted call that left the ring left it as a whole, with the given
fates in call order, and the counter counts the discarded calls. -/
structure WholeCalls (m : Machine) (fates : List Fate) : Prop where
  le : fates.length ≤ (acceptedOf m.hist).length
  removed : taggedItems (removalsOf m.hist) = settled fates (linesOf m.hist)
  emitted : stdoutOf m.hist = (takenLines fates (linesOf m.hist)).flatten
  ring : m.logger.queued = ((linesOf m.hist).drop fates.length).flatten
  dropped : m.logger.droppedLines.toNat = fates.count .discarded

/-- Every accepted call lost at most a beginning to evictions, each discarded block
is a segment, and the counter counts the blocks. -/
structure SegmentCalls (m : Machine) (parts : List (List UInt8 × List UInt8))
    (begun : List UInt8) : Prop where
  trimming : Trimming m.ledger parts begun
  emitted : stdoutOf m.hist = (parts.map Prod.snd).flatten
  segments : Ledger.ClosedBlocks newline (linesOf m.hist) [] (removalsOf m.hist)
  dropped : m.logger.droppedLines.toNat = (discardedBlocks (removalsOf m.hist)).length

/-- In a run without {lit}`log_reset_dropped_lines` and with fewer than
{lit}`2^32` drops an overflow takes segments from the beginning of lines and counts
each of them; when no stored line holds a newline inside, it takes whole calls and
counts each of them once. -/
theorem evicted_runCalls (c : ContextId) {calls : List ApiCall}
    (hreset : .logResetDroppedLines ∉ calls)
    (hdrops : dropsOf (runCalls c Machine.reset calls).hist < 2 ^ 32) :
    (∃ parts begun, SegmentCalls (runCalls c Machine.reset calls) parts begun) ∧
      ((∀ line ∈ acceptedOf (runCalls c Machine.reset calls).hist, line.SingleLine) →
        ∃ fates, WholeCalls (runCalls c Machine.reset calls) fates) := by
  have hstdout := stdoutOf_runCalls c calls
  have hconsistent := Machine.consistent_runCalls c calls
  have hdropped : (runCalls c Machine.reset calls).logger.droppedLines.toNat =
      dropsOf (runCalls c Machine.reset calls).hist := by
    rw [droppedLines_runCalls c hreset, UInt32.toNat_ofNat_of_lt' hdrops]
  constructor
  · rcases exists_trimming_runCalls c calls with ⟨parts, begun, htrimming⟩
    refine ⟨parts, begun, htrimming, ?_, hconsistent.reachable.closedBlocks, hdropped⟩
    rw [hstdout, htrimming.takenItems_eq]
  · intro hsingle
    rcases exists_account_runCalls c hsingle with ⟨fates, haccount⟩
    have hle := haccount.split.pending.le
    have hrest := haccount.split.pending.rest
    have hremoved := haccount.split.tagged_eq
    rw [List.nil_append] at hrest
    rw [tag_nil, List.append_nil] at hremoved
    refine ⟨fates, ?_, hremoved, ?_, hrest.symm, ?_⟩
    · rw [← List.length_map (f := Accepted.stored)]
      exact hle
    · rw [hstdout, haccount.takenItems_eq, List.append_nil]
      rfl
    · rw [hdropped, ← haccount.count]
      rfl

/-- Four messages without a newline: the third line evicts the first one, and the last line,
which fills most of the ring, evicts two. -/
theorem evicted_runCalls_overflow :
    let m := runCalls 0 Machine.reset
      [.logWrite .info (List.replicate 50 97) 0, .logWrite .info (List.replicate 50 98) 0,
        .logWrite .info (List.replicate 50 99) 0, .logWrite .info (List.replicate 100 100) 0,
        .logProcess, .logProcess]
    m.logger.droppedLines = 3 ∧ (∃ parts begun, SegmentCalls m parts begun) ∧
      ∃ fates, WholeCalls m fates := by
  refine ⟨by decide +kernel, (evicted_runCalls 0 ?_ ?_).1, (evicted_runCalls 0 ?_ ?_).2 ?_⟩
  all_goals decide +kernel

/-- The greeting of {lit}`main.c` holds a newline: an overflow discards the text and
leaves its line end in the ring. -/
theorem half_evicted_greeting :
    ¬ ∀ (c : ContextId) (calls : List ApiCall), .logResetDroppedLines ∉ calls →
      dropsOf (runCalls c Machine.reset calls).hist < 2 ^ 32 →
      ∃ fates, WholeCalls (runCalls c Machine.reset calls) fates := by
  intro h
  rcases h 0 [.logWrite .info (bytesOf "Hello from Radon MCU!\n") 0,
    .logWrite .info (List.replicate 100 97) 0] (by decide +kernel) (by decide +kernel) with
    ⟨fates, hwhole⟩
  have hle := hwhole.le
  have hring := hwhole.ring
  revert hle hring
  generalize fates.length = n
  have hcheck : ∀ n ≤ (acceptedOf (runCalls 0 Machine.reset
      [.logWrite .info (bytesOf "Hello from Radon MCU!\n") 0,
        .logWrite .info (List.replicate 100 97) 0]).hist).length, ¬ (runCalls 0 Machine.reset
      [.logWrite .info (bytesOf "Hello from Radon MCU!\n") 0,
        .logWrite .info (List.replicate 100 97) 0]).logger.queued =
      ((linesOf (runCalls 0 Machine.reset
        [.logWrite .info (bytesOf "Hello from Radon MCU!\n") 0,
          .logWrite .info (List.replicate 100 97) 0]).hist).drop n).flatten := by
    decide +kernel
  intro hle
  exact hcheck n hle

end Equinios
end RadonMCU
