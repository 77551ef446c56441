import RadonMCU.Equinios.Calls
import RadonMCU.Equinios.Conservation

/-!
# Losses that the drop counter does not show

A line passes three bounds: the 256-byte message, the 260-byte line and the
128-byte ring.  The drop counter counts evictions only; a line longer than the
ring keeps its last 128 bytes and is not counted.

Main results:

- Theorem {lit}`map_lastBytes_flatten_iff`: cutting lines to 128 bytes loses
  something exactly when one of them is longer.
- Theorem {lit}`emitted_of_no_drops`: without drops the emitted bytes and the ring
  are the last 128 bytes of every line, and all of it exactly when every line fits
  into the ring.
-/

namespace RadonMCU
namespace Equinios

open Segments LineQueue

/-! ## Cutting lines to the ring -/

theorem lastBytes_of_length_le {line : List UInt8} (h : line.length ≤ 128) :
    lastBytes line = line := by
  rw [lastBytes, Nat.min_eq_left h, Nat.sub_self, List.drop_zero]

theorem map_lastBytes_flatten_length_le (lines : List (List UInt8)) :
    (lines.map lastBytes).flatten.length ≤ lines.flatten.length := by
  induction lines with
  | nil => exact Nat.le_refl _
  | cons line lines ih =>
    rw [List.map_cons, List.flatten_cons, List.flatten_cons, List.length_append,
      List.length_append, lastBytes_length]
    omega

/-- Cutting lines to 128 bytes loses something exactly when one of them is longer. -/
theorem map_lastBytes_flatten_iff (lines : List (List UInt8)) :
    (lines.map lastBytes).flatten = lines.flatten ↔ ∀ line ∈ lines, line.length ≤ 128 := by
  induction lines with
  | nil => simp
  | cons line lines ih =>
    rw [List.map_cons, List.flatten_cons, List.flatten_cons, List.forall_mem_cons, ← ih]
    constructor
    · intro heq
      have hlength := congrArg List.length heq
      rw [List.length_append, List.length_append, lastBytes_length] at hlength
      have hle := map_lastBytes_flatten_length_le lines
      have hline : line.length ≤ 128 := by omega
      rw [lastBytes_of_length_le hline, List.append_cancel_left_eq] at heq
      exact ⟨hline, heq⟩
    · intro h
      rw [lastBytes_of_length_le h.1, h.2]

/-! ## Runs of one context -/

/-- A text that the line buffer does not cut is stored up to its last 128 bytes. -/
theorem Accepted.stored_of_full_length_le {line : Accepted} (h : line.full.length ≤ 259) :
    line.stored = lastBytes line.full := by
  unfold Accepted.stored storedLine
  rw [formatLine_bytes_of_fits h, lineTail_eq_lastBytes]
  rfl

/-- In a run without {lit}`log_reset_dropped_lines` and with fewer than
{lit}`2^32` drops, in which the line buffer cuts no text: when
{lit}`log_get_dropped_lines` returns zero, the emitted bytes followed by the ring
are the last 128 bytes of every accepted line in call order, and they are all of
these lines exactly when each of them fits into the ring. -/
theorem emitted_of_no_drops (c : ContextId) {calls : List ApiCall}
    (hreset : .logResetDroppedLines ∉ calls)
    (hdrops : dropsOf (runCalls c Machine.reset calls).hist < 2 ^ 32)
    (hbuffer : ∀ line ∈ acceptedOf (runCalls c Machine.reset calls).hist,
      line.full.length ≤ 259)
    (hzero : ((runCalls c Machine.reset calls).loggerEnsureInitialized.getDroppedLines c).1 = 0) :
    stdoutOf (runCalls c Machine.reset calls).hist ++
        (runCalls c Machine.reset calls).logger.queued =
      ((acceptedOf (runCalls c Machine.reset calls).hist).map
        fun line => lastBytes line.full).flatten ∧
    (stdoutOf (runCalls c Machine.reset calls).hist ++
          (runCalls c Machine.reset calls).logger.queued =
        ((acceptedOf (runCalls c Machine.reset calls).hist).map Accepted.full).flatten ↔
      ∀ line ∈ acceptedOf (runCalls c Machine.reset calls).hist, line.full.length ≤ 128) := by
  have hstdout := stdoutOf_runCalls c calls
  have hcounted := droppedLines_runCalls c hreset
  have hconserved := (Machine.consistent_runCalls c calls).reachable.conserved
  generalize runCalls c Machine.reset calls = m at *
  have hcount : dropsOf m.hist = 0 := by
    change m.loggerEnsureInitialized.logger.droppedLines = 0 at hzero
    rw [Machine.droppedLines_loggerEnsureInitialized, hcounted] at hzero
    have hnat := congrArg UInt32.toNat hzero
    rw [UInt32.toNat_ofNat_of_lt' hdrops] at hnat
    exact hnat
  have htaken := takenItems_of_no_discards (List.eq_nil_of_length_eq_zero hcount)
  have hstored : (acceptedOf m.hist).map Accepted.stored =
      ((acceptedOf m.hist).map Accepted.full).map lastBytes := by
    rw [List.map_map]
    apply List.map_congr_left
    intro line hline
    exact Accepted.stored_of_full_length_le (hbuffer line hline)
  have hall : stdoutOf m.hist ++ m.logger.queued =
      (((acceptedOf m.hist).map Accepted.full).map lastBytes).flatten := by
    rw [← hstored, hstdout]
    change takenItems (removalsOf m.hist) ++ m.logger.queued = m.ledger.lines.flatten
    rw [hconserved, htaken]
    rfl
  constructor
  · rw [hall, List.map_map]
    rfl
  · rw [hall, map_lastBytes_flatten_iff, List.forall_mem_map]

/-- The first line of the demo program and one of 136 bytes: there is no drop, and the second
line is cut. -/
theorem emitted_of_no_drops_cut :
    let m := runCalls 0 Machine.reset
      [.logWrite .info (bytesOf "EquiniosLogger singleton ready") 0, .logProcess, .logProcess,
        .logWrite .info (List.replicate 130 97) 0]
    stdoutOf m.hist ++ m.logger.queued =
        ((acceptedOf m.hist).map fun line => lastBytes line.full).flatten ∧
      ¬ stdoutOf m.hist ++ m.logger.queued = ((acceptedOf m.hist).map Accepted.full).flatten := by
  intro m
  have hlines := @emitted_of_no_drops 0
    [.logWrite .info (bytesOf "EquiniosLogger singleton ready") 0, .logProcess, .logProcess,
      .logWrite .info (List.replicate 130 97) 0]
    (by decide +kernel) (by decide +kernel) (by decide +kernel) (by decide +kernel)
  exact ⟨hlines.1, fun hall => absurd (hlines.2.mp hall) (by decide +kernel)⟩

/-- A message of 200 bytes is cut to the ring without a drop. -/
theorem silent_loss_of_long_line :
    ¬ ∀ (c : ContextId) (calls : List ApiCall), .logResetDroppedLines ∉ calls →
      dropsOf (runCalls c Machine.reset calls).hist < 2 ^ 32 →
      ((runCalls c Machine.reset calls).loggerEnsureInitialized.getDroppedLines c).1 = 0 →
      stdoutOf (runCalls c Machine.reset calls).hist ++
          (runCalls c Machine.reset calls).logger.queued =
        ((acceptedOf (runCalls c Machine.reset calls).hist).map Accepted.full).flatten := by
  intro h
  have hrun := h 0 [.logWrite .info (List.replicate 200 97) 0] (by decide +kernel)
    (by decide +kernel) (by decide +kernel)
  revert hrun
  decide +kernel

end Equinios
end RadonMCU
