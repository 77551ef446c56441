import RadonMCU.Equinios.System

/-!
# Conservation of log bytes

Whatever the contexts do, the kept bytes of the lines handed to
{lit}`logger_enqueue_line` are the bytes removed from the ring so far followed by
the ring.  The invariant is that of the line queue: each critical section is at
most one offer or one take.

Main results:

- Theorem {lit}`linesOf_eq`: the lines of the ledger are the last 128 bytes of the
  lines that were handed over.
- Theorem {lit}`bytesConserved_run`: conservation, the shape of the discarded
  blocks and the drop counter in every reachable state.
-/

namespace RadonMCU
namespace Equinios

open Segments LineQueue

/-- Every line handed to {lit}`logger_enqueue_line`, in the order of its critical
sections. -/
def handedLines (hist : History) : List (List UInt8) := (acceptedOf hist).map Accepted.line

/-- The lines of the ledger are the kept bytes of the lines that were handed
over. -/
theorem linesOf_eq (hist : History) : linesOf hist = (handedLines hist).map lastBytes := by
  unfold linesOf handedLines
  rw [List.map_map]
  congr 1
  ext1 accepted
  exact lineTail_eq_lastBytes accepted.line

namespace Machine

/-- Nothing is lost, duplicated or reordered in the ring, and every discarded
block was counted. -/
structure BytesConserved (m : Machine) : Prop where
  /-- What was handed over is what was removed, in order, and then the ring. -/
  conserved : ((handedLines m.hist).map lastBytes).flatten =
    (taggedItems (removalsOf m.hist)).map Prod.snd ++ m.logger.queued
  /-- Every line is contiguous in that sequence. -/
  contiguous : ∀ line ∈ handedLines m.hist,
    lastBytes line <:+: (taggedItems (removalsOf m.hist)).map Prod.snd ++ m.logger.queued
  /-- A discarded block is not empty, holds a newline at most at its end, and
  ends in a newline or where a line ends. -/
  closed : Ledger.ClosedBlocks newline ((handedLines m.hist).map lastBytes) []
    (removalsOf m.hist)
  /-- {lit}`dropped_lines_` was incremented once for each discarded block. -/
  counted : m.logger.droppedLines = UInt32.ofNat (dropsSinceReset m.hist)
  /-- The first-use initialisation erases nothing. -/
  ensured : m.loggerEnsureInitialized.logger.queued = m.logger.queued

theorem Consistent.bytesConserved {m : Machine} (h : m.Consistent) : m.BytesConserved := by
  have hconserved : ((handedLines m.hist).map lastBytes).flatten =
      (taggedItems (removalsOf m.hist)).map Prod.snd ++ m.logger.queued := by
    rw [← linesOf_eq, map_snd_taggedItems]
    exact h.reachable.conserved
  refine ⟨hconserved, ?_, ?_, h.counted, h.toSound.queued_loggerEnsureInitialized⟩
  · intro line hline
    rw [← hconserved]
    exact List.infix_of_mem_flatten (List.mem_map_of_mem hline)
  · rw [← linesOf_eq]
    exact h.reachable.closedBlocks

end Machine

/-- Any number of contexts run any calls in any interleaving from the
uninitialised instance: in every reachable state the log bytes are conserved. -/
theorem bytesConserved_run (acts : List Action) :
    (System.run System.reset acts).machine.BytesConserved :=
  (System.consistent_run acts).machine.bytesConserved

end Equinios
end RadonMCU
