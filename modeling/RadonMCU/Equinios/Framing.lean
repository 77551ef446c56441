import RadonMCU.Equinios.Eviction

/-!
# Line framing

A stored line is the tail of a formatted line, which {lit}`snprintf` cut to the 260
bytes of its array.  The array is sized for four characters beside the message,
but the format adds up to fifteen, so a long message loses its line end.

Main results:

- Theorem {lit}`crlf_suffix_stored_iff`: which lines keep {lit}`"\r\n"` at their
  end.
- Theorem {lit}`framing_iff`: a run frames its lines exactly when every accepted
  line keeps its end.
-/

namespace RadonMCU
namespace Equinios

open Segments LineQueue

/-! ## One line -/

/-- The message and the digits of the timestamp leave room for {lit}`"\r\n"`, or
what is left of a message that does not fit ends in {lit}`"\r\n"` itself. -/
def Accepted.KeepsEnd (line : Accepted) : Prop :=
  (decimal line.timestamp).length + line.message.bytes.length ≤ 254 ∨
    (256 ≤ (decimal line.timestamp).length + line.message.bytes.length ∧
      crlf <:+ line.message.bytes.take (256 - (decimal line.timestamp).length))

/-- The end of a list is the end of any suffix that is long enough. -/
theorem suffix_iff_of_suffix {end_ short long : List UInt8} (hsuffix : short <:+ long)
    (hlength : end_.length ≤ short.length) : end_ <:+ short ↔ end_ <:+ long := by
  constructor
  · intro h
    exact h.trans hsuffix
  · intro h
    exact List.suffix_of_suffix_length_le h hsuffix hlength

/-- The stored bytes end in {lit}`"\r\n"` exactly when the cut line does. -/
theorem crlf_suffix_storedLine (timestamp : UInt32) (message : CString) :
    crlf <:+ storedLine timestamp message ↔
      crlf <:+ (fullLine timestamp message).take 259 := by
  rw [← formatLine_bytes]
  apply suffix_iff_of_suffix (EquiniosLogger.lineTail_suffix _)
  rw [EquiniosLogger.lineTail_length, formatLine_bytes, List.length_take, fullLine_length,
    crlf_eq, List.length_cons, List.length_singleton]
  omega

/-- The text before the message. -/
def linePrefix (timestamp : UInt32) : List UInt8 :=
  bytesOf "[" ++ decimal timestamp ++ bytesOf "] "

theorem linePrefix_length (timestamp : UInt32) :
    (linePrefix timestamp).length = (decimal timestamp).length + 3 := by
  simp only [linePrefix, openBracket_eq, closeBracket_eq, List.length_append, List.length_cons,
    List.length_nil]
  omega

theorem fullLine_eq (timestamp : UInt32) (message : CString) :
    fullLine timestamp message = linePrefix timestamp ++ message.bytes ++ crlf := rfl

theorem endsIn_newline_of_crlf {line : List UInt8} (h : crlf <:+ line) :
    EndsIn newline line := by
  rcases h with ⟨before, rfl⟩
  rw [crlf_eq]
  simp [EndsIn]

/-- The stored bytes of a call end in {lit}`"\r\n"` exactly when the line keeps its
end. -/
theorem crlf_suffix_stored_iff (line : Accepted) : crlf <:+ line.stored ↔ line.KeepsEnd := by
  rcases line with ⟨timestamp, message⟩
  unfold Accepted.stored Accepted.KeepsEnd
  rw [crlf_suffix_storedLine, fullLine_eq]
  have hhead := linePrefix_length timestamp
  have hdigits := decimal_length_le timestamp
  have hcrlf : crlf.length = 2 := by rw [crlf_eq]; rfl
  simp only
  by_cases hfits : (decimal timestamp).length + message.bytes.length ≤ 254
  · -- nothing is cut
    have hall : (linePrefix timestamp ++ message.bytes ++ crlf).length ≤ 259 := by
      rw [List.length_append, List.length_append, hhead, hcrlf]
      omega
    rw [List.take_of_length_le hall]
    exact ⟨fun _ => Or.inl hfits, fun _ => List.suffix_append _ _⟩
  · by_cases hedge : (decimal timestamp).length + message.bytes.length = 255
    · -- only the newline is cut, and `'\r'` ends the line
      have hcut : (linePrefix timestamp ++ message.bytes ++ crlf).take 259 =
          linePrefix timestamp ++ message.bytes ++ [13] := by
        rw [List.take_append, List.length_append, hhead, crlf_eq,
          List.take_of_length_le (by rw [List.length_append, hhead]; omega)]
        rw [show 259 - ((decimal timestamp).length + 3 + message.bytes.length) = 1 by omega]
        rfl
      rw [hcut, crlf_eq]
      constructor
      · intro hsuffix
        have hlast := hsuffix.getLast (by simp)
        rw [List.getLast_concat] at hlast
        exact absurd hlast (by decide)
      · intro hkeeps
        omega
    · -- the message itself is cut
      have hcut : (linePrefix timestamp ++ message.bytes ++ crlf).take 259 =
          linePrefix timestamp ++ message.bytes.take (256 - (decimal timestamp).length) := by
        rw [List.take_append_of_le_length (by rw [List.length_append, hhead]; omega),
          List.take_append, hhead,
          List.take_of_length_le (by rw [hhead]; omega)]
        congr 2
        omega
      have hlength : crlf.length ≤
          (message.bytes.take (256 - (decimal timestamp).length)).length := by
        rw [hcrlf, List.length_take]
        omega
      rw [hcut, ← suffix_iff_of_suffix (List.suffix_append _ _) hlength]
      constructor
      · intro hsuffix
        exact Or.inr ⟨by omega, hsuffix⟩
      · intro hkeeps
        rcases hkeeps with hle | ⟨_, hsuffix⟩
        · exact absurd hle hfits
        · exact hsuffix

/-! ## Runs of one context -/

/-- What framing promises of a state between two calls. -/
structure Framed (m : Machine) : Prop where
  /-- The bytes of every accepted call end in {lit}`"\r\n"` in the ring. -/
  crlf_suffix : ∀ line ∈ acceptedOf m.hist, crlf <:+ line.stored
  /-- The ring is empty or its newest byte is a newline. -/
  newest : m.logger.queued = [] ∨ EndsIn newline m.logger.queued
  /-- What was emitted of a call, if anything, ends in a newline, so no line of the
  emitted stream holds bytes of two calls. -/
  separate : ∃ parts begun, Trimming m.ledger parts begun ∧
    stdoutOf m.hist = (parts.map Prod.snd).flatten ∧
    ∀ part ∈ parts, part.2 = [] ∨ EndsIn newline part.2

/-- When all accepted lines keep their end, the state is framed. -/
theorem framed_runCalls {c : ContextId} {calls : List ApiCall}
    (h : ∀ line ∈ acceptedOf (runCalls c Machine.reset calls).hist, line.KeepsEnd) :
    Framed (runCalls c Machine.reset calls) := by
  have hconsistent := Machine.consistent_runCalls c calls
  have hstdout := stdoutOf_runCalls c calls
  rcases exists_trimming_runCalls c calls with ⟨parts, begun, htrimming⟩
  generalize runCalls c Machine.reset calls = m at *
  have hcrlf : ∀ line ∈ acceptedOf m.hist, crlf <:+ line.stored := by
    intro line hline
    exact (crlf_suffix_stored_iff line).mpr (h line hline)
  have hends : ∀ line ∈ m.ledger.lines, EndsIn newline line := by
    intro line hline
    rcases List.mem_map.mp hline with ⟨accepted, haccepted, rfl⟩
    exact endsIn_newline_of_crlf (hcrlf accepted haccepted)
  refine ⟨hcrlf, ?_, parts, begun, htrimming, ?_, ?_⟩
  · by_cases hlines : m.ledger.lines = []
    · left
      have hflat := hconsistent.reachable.conserved
      rw [Ledger.Conserved, hlines] at hflat
      exact (List.append_eq_nil_iff.mp hflat.symm).2
    · have hsuffix : m.logger.queued <:+ m.ledger.lines.flatten :=
        ⟨_, hconsistent.reachable.conserved.symm⟩
      exact (endsIn_flatten hlines hends).of_suffix hsuffix
  · rw [hstdout, htrimming.takenItems_eq]
  · intro part hpart
    have hline : part.1 ++ part.2 ∈ m.ledger.lines := by
      apply List.mem_of_mem_take
      rw [htrimming.trim.lines_eq]
      exact List.mem_map_of_mem hpart
    exact (hends _ hline).of_suffix (List.suffix_append _ _)

/-- A stored line ends in {lit}`"\r\n"` exactly when it keeps its end, and every
state of a run of one context is framed exactly when all accepted lines do. -/
theorem framing_iff (c : ContextId) (calls : List ApiCall) :
    (∀ line : Accepted, crlf <:+ line.stored ↔ line.KeepsEnd) ∧
      ((∀ pre, pre <+: calls → Framed (runCalls c Machine.reset pre)) ↔
        ∀ line ∈ acceptedOf (runCalls c Machine.reset calls).hist, line.KeepsEnd) := by
  refine ⟨crlf_suffix_stored_iff, ?_⟩
  constructor
  · intro hframed line hline
    exact (crlf_suffix_stored_iff line).mp
      ((hframed calls List.prefix_rfl).crlf_suffix line hline)
  · intro hkeeps pre hpre
    rcases hpre with ⟨post, rfl⟩
    apply framed_runCalls
    intro line hline
    apply hkeeps line
    have hhead := acceptedOf_prefix_runCalls (Machine.consistent_runCalls c pre) c post
    rw [runCalls, runCalls, ← StepSystem.run_append] at hhead
    exact hhead.subset hline

/-- A message of 254 bytes at tick 0 leaves no room for the newline: the ring ends
in {lit}`'\r'`, and the next call goes on in the same emitted line. -/
theorem not_framed_of_long_message :
    ¬ Framed (runCalls 0 Machine.reset [.logWrite .info (List.replicate 254 97) 0]) ∧
      (runCalls 0 Machine.reset
        [.logWrite .info (List.replicate 254 97) 0]).logger.queued.getLast? = some 13 ∧
      stdoutOf (runCalls 0 Machine.reset
        [.logWrite .info (List.replicate 254 97) 0, .logProcess, .logProcess,
          .logWrite .info (bytesOf "x") 0, .logProcess, .logProcess]).hist =
        List.replicate 127 97 ++ [13] ++ bytesOf "[1] x\r\n" := by
  refine ⟨?_, by decide +kernel, by decide +kernel⟩
  intro hframed
  have hcrlf := hframed.crlf_suffix
  revert hcrlf
  decide +kernel

end Equinios
end RadonMCU
