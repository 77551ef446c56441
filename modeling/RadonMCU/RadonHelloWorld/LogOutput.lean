import RadonMCU.Equinios.Console
import RadonMCU.Equinios.Tearing
import RadonMCU.RadonHelloWorld.Lights

/-!
# What the program logs

The ring holds one line about the reset button but not two, and the program flushes it at
every second turn.  The log of a run is computed on the console that the logger is for one
context: first the three lines of the start, then at most one line for every two turns.

Main results:

- Theorem {lit}`console_turn`: one turn of the program on the console.
- Theorem {lit}`turn_turn`: what two turns leave in the ring when the first one flushes.
- Theorem {lit}`stdout_run`: the printed bytes and the drop counter of every run.
-/

namespace RadonMCU
namespace RadonHelloWorld

open Equinios Segments

/-! ## Lines of the program -/

/-- The line of a {lit}`LOG_INFO` that draws this timestamp. -/
def infoLine (ticks : Nat) (fmt : String) : Accepted where
  timestamp := UInt32.ofNat ticks
  message := formatMessage (bytesOf ("[INFO] " ++ fmt))

/-- The first line of {lit}`main`. -/
def helloLine : Accepted := infoLine 0 "Hello from Radon MCU!\n"

/-- The second line of {lit}`main`. -/
def readyLine : Accepted := infoLine 1 "EquiniosLogger singleton ready"

/-- The line of {lit}`newKnightRiderLight`. -/
def lightLine : Accepted := infoLine 2 "KnightRiderLight initialized"

/-- The message of a pressed reset button. -/
def pressText : String := "Reset button pressed. Interrupting Knight Rider light pattern..."

/-- The line about the reset button. -/
def pressLine (ticks : Nat) : Accepted := infoLine ticks pressText

/-- The second line fits into the line buffer and the ring. -/
theorem fitsRing_readyLine : readyLine.FitsRing := by decide +kernel

/-- The line of {lit}`newKnightRiderLight` fits into the line buffer and the ring. -/
theorem fitsRing_lightLine : lightLine.FitsRing := by decide +kernel

/-- The message of a pressed button has 71 bytes. -/
theorem pressLine_message_length (ticks : Nat) : (pressLine ticks).message.bytes.length = 71 := by
  change (pressLine 0).message.bytes.length = 71
  decide +kernel

/-- Its line fits, however large the timestamp is. -/
theorem fitsRing_pressLine (ticks : Nat) : (pressLine ticks).FitsRing := by
  constructor
  · change newline ∉ (pressLine 0).message.bytes
    decide +kernel
  · have hdigits := decimal_length_le (pressLine ticks).timestamp
    rw [Accepted.full, fullLine_length, pressLine_message_length]
    omega

/-- A line about the button takes more than half of the ring. -/
theorem pressLine_length (ticks : Nat) :
    76 ≤ (pressLine ticks).stored.length ∧ (pressLine ticks).stored.length ≤ 86 := by
  have hdigits := decimal_length_le (pressLine ticks).timestamp
  rw [(fitsRing_pressLine ticks).stored_eq, Accepted.full, fullLine_length,
    pressLine_message_length]
  omega

/-- A line that fits is one segment of the queue. -/
theorem singleSegment_stored {line : Accepted} (h : line.FitsRing) :
    SingleSegment newline line.stored :=
  ⟨storedLine_ne_nil _ _, h.endsIn.2⟩

/-! ## The console of the program -/

/-- The console while no timestamp function is installed and the period is two. -/
structure Board where
  lines : LineBuffer
  ticks : Nat
  turns : Nat
  printed : List UInt8

namespace Board

/-- The console that a board stands for. -/
def console (b : Board) : Console where
  log :=
    { logLevel := .info
      timestampProvider := { timestampProvider := none, ticksCount := UInt32.ofNat b.ticks }
      lines := b.lines }
  schedule := { period := 2, calls := b.turns }
  printed := b.printed

/-- {lit}`LOG_INFO`. -/
def logInfo (b : Board) (fmt : String) : Board :=
  { b with lines := b.lines.enqueue (infoLine b.ticks fmt), ticks := b.ticks + 1 }

/-- {lit}`START_LOG_PROCESS`: every second call flushes. -/
def process (b : Board) : Board :=
  if 2 ∣ b.turns + 1 then
    { b with
      lines := { b.lines with queued := [] }
      turns := b.turns + 1
      printed := b.printed ++ b.lines.queued }
  else { b with turns := b.turns + 1 }

/-- One turn. -/
def turn (b : Board) (pressed : Bool) : Board :=
  if pressed then b.process.logInfo pressText else b.process

/-- A message of level INFO is a line of the board. -/
theorem console_logInfo (b : Board) (fmt : String) (answer : UInt32) :
    b.console.step (.logWrite .info (bytesOf ("[INFO] " ++ fmt)) answer) =
      (b.logInfo fmt).console := by
  simp only [Console.step, console, logInfo, UInt32.ofNat_add]
  rfl

/-- A call {lit}`log_process` is a flush of the board, or a turn without one. -/
theorem console_process (b : Board) : b.console.step .logProcess = b.process.console := by
  by_cases hflush : 2 ∣ b.turns + 1
  · simp [Console.step, Console.flushes, Console.flush, console, process, hflush,
      LogState.apply]
  · simp [Console.step, Console.flushes, console, process, hflush, LogState.apply]

end Board

/-! ## The calls of the program -/

/-- The call of the logger that an effect is. -/
def Effect.call? : Effect → Option ApiCall
  | .call made => some made
  | _ => none

/-- The calls of the logger among some effects. -/
def callsOf (effects : List Effect) : List ApiCall := effects.filterMap Effect.call?

/-- The calls of two parts of the program, one after the other. -/
@[simp] theorem callsOf_append (effects effects' : List Effect) :
    callsOf (effects ++ effects') = callsOf effects ++ callsOf effects' :=
  List.filterMap_append

/-- The call writes at a level that {lit}`LOG_LEVEL_INFO` filters out. -/
def belowInfo : ApiCall → Bool
  | .logWrite level _ _ => decide (level.value > LogLevel.info.value)
  | _ => false

/-- Calls below INFO change nothing. -/
theorem run_belowInfo (b : Board) {calls : List ApiCall} (h : calls.all belowInfo = true) :
    b.console.run calls = b.console := by
  induction calls with
  | nil => rfl
  | cons call calls ih =>
    rw [List.all_cons, Bool.and_eq_true] at h
    have hstep : b.console.step call = b.console := by
      cases call with
      | logWrite level formatted answer =>
        have hfilters : b.console.log.filters level = true := h.1
        simp only [Console.step, LogState.apply, hfilters]
        rfl
      | _ => cases h.1
    rw [Console.run_cons, hstep]
    exact ih h.2

/-- The light pattern logs nothing of level INFO. -/
theorem belowInfo_cycle : (callsOf runKnightRiderCycle).all belowInfo = true := rfl

/-- The smooth pattern logs nothing of level INFO. -/
theorem belowInfo_smooth : (callsOf runKnightRiderCycleSmooth).all belowInfo = true := rfl

/-- The button driver logs nothing of level INFO. -/
theorem belowInfo_button (inputValue : UInt32) :
    (callsOf (getResetButtonStatus inputValue).2).all belowInfo = true := rfl

/-- One turn of the program on the console. -/
theorem console_turn (b : Board) (inputValue : UInt32) :
    b.console.run (callsOf (turn inputValue)) =
      (b.turn (decide (Pressed inputValue))).console := by
  have hprocess : b.console.run (callsOf [.call .logProcess]) = b.process.console :=
    b.console_process
  have hpressed := getResetButtonStatus_eq_pressed_iff inputValue
  rw [turn, callsOf_append, callsOf_append, callsOf_append, Console.run_append,
    Console.run_append, Console.run_append, hprocess, run_belowInfo _ belowInfo_cycle,
    run_belowInfo _ (belowInfo_button inputValue), Board.turn]
  by_cases h : Pressed inputValue
  · have hpress : b.process.console.run (callsOf [logInfo pressText]) =
        (b.process.logInfo pressText).console := b.process.console_logInfo pressText altNticks
    rw [if_pos (hpressed.mpr h), if_pos (decide_eq_true h), callsOf_append, Console.run_append]
    exact (congrArg (Console.run · _) hpress).trans (run_belowInfo _ belowInfo_smooth)
  · rw [if_neg (mt hpressed.mp h), if_neg (by simpa using h)]
    rfl

/-! ## The start -/

/-- The bytes of the three lines of the start. -/
def startBytes : List UInt8 := helloLine.stored ++ readyLine.stored ++ lightLine.stored

/-- The board when the loop begins. -/
def startBoard : Board where
  lines := { queued := startBytes, droppedLines := 0 }
  ticks := 3
  turns := 0
  printed := []

/-- The first line as it is stored. -/
theorem helloLine_stored :
    helloLine.stored = bytesOf "[0] [INFO] Hello from Radon MCU!\n" ++ crlf := by decide +kernel

/-- The lengths of the lines of the start, of which the ring holds all three. -/
theorem startBytes_lengths :
    helloLine.stored.length = 35 ∧ readyLine.stored.length = 43 ∧
      lightLine.stored.length = 41 := by decide +kernel

/-- The calls before the loop of {lit}`main` give the board of the start. -/
theorem console_mainStart (altNticksAddress : Provider) :
    Console.initial.run (callsOf (mainStart altNticksAddress)) = startBoard.console := by
  obtain ⟨hhello, hready, hlight⟩ := startBytes_lengths
  have hfirst : LineBuffer.enqueue { queued := [], droppedLines := 0 } helloLine =
      { queued := helloLine.stored, droppedLines := 0 } :=
    LineBuffer.enqueue_of_fits (by rw [hhello]; decide)
  have hsecond : LineBuffer.enqueue { queued := helloLine.stored, droppedLines := 0 } readyLine =
      { queued := helloLine.stored ++ readyLine.stored, droppedLines := 0 } :=
    LineBuffer.enqueue_of_fits (by rw [hhello, hready]; decide)
  have hthird : LineBuffer.enqueue
      { queued := helloLine.stored ++ readyLine.stored, droppedLines := 0 } lightLine =
      { queued := startBytes, droppedLines := 0 } :=
    LineBuffer.enqueue_of_fits (by rw [List.length_append, hhello, hready, hlight]; decide)
  have hlines : LineBuffer.enqueue (LineBuffer.enqueue (LineBuffer.enqueue
      { queued := [], droppedLines := 0 } helloLine) readyLine) lightLine =
      { queued := startBytes, droppedLines := 0 } := by
    rw [hfirst, hsecond, hthird]
  change (Board.console
    { lines := LineBuffer.enqueue (LineBuffer.enqueue (LineBuffer.enqueue
        { queued := [], droppedLines := 0 } helloLine) readyLine) lightLine
      ticks := 3, turns := 0, printed := [] }) = _
  rw [hlines]
  rfl

/-! ## Turns of the board -/

/-- What the ring holds after the first turn. -/
def firstTurn (pressed : Bool) : List UInt8 :=
  if pressed then lightLine.full ++ (pressLine 3).full else startBytes

/-- What the ring holds after two turns of which the first began with a flush. -/
def twoTurns (ticks : Nat) (first second : Bool) : List UInt8 :=
  if second then (pressLine (ticks + first.toNat)).full
  else if first then (pressLine ticks).full
  else []

section Board

variable (b : Board)

/-- A pressed line behind an empty queue. -/
theorem enqueue_empty_pressLine (dropped : UInt32) (ticks : Nat) :
    LineBuffer.enqueue { queued := [], droppedLines := dropped } (pressLine ticks) =
      { queued := (pressLine ticks).full, droppedLines := dropped } := by
  have hle := (pressLine_length ticks).2
  rw [LineBuffer.enqueue_of_fits (by rw [List.length_nil]; omega), List.nil_append,
    (fitsRing_pressLine ticks).stored_eq]

/-- A second line about the button evicts the first. -/
theorem enqueue_pressLine_pressLine (dropped : UInt32) (ticks ticks' : Nat) :
    LineBuffer.enqueue { queued := (pressLine ticks).full, droppedLines := dropped }
        (pressLine ticks') =
      { queued := (pressLine ticks').full, droppedLines := dropped + 1 } := by
  have hold := (pressLine_length ticks).1
  have hnew := (pressLine_length ticks').1
  have hfits := fitsRing_pressLine ticks
  rw [← hfits.stored_eq, ← List.append_nil (pressLine ticks).stored,
    LineBuffer.enqueue_of_full (singleSegment_stored hfits) hfits.endsIn.1
      (by rw [List.append_nil]; omega), enqueue_empty_pressLine]

/-- In the first turn a line about the button evicts the first two lines of the start, which
are three segments. -/
theorem enqueue_startBytes_pressLine :
    LineBuffer.enqueue { queued := startBytes, droppedLines := 0 } (pressLine 3) =
      { queued := firstTurn true, droppedLines := 3 } := by
  obtain ⟨-, hready, hlight⟩ := startBytes_lengths
  obtain ⟨hlow, hhigh⟩ := pressLine_length 3
  have hgreeting : (bytesOf "[0] [INFO] Hello from Radon MCU!\n").length = 33 := by decide +kernel
  have hcrlf : crlf.length = 2 := by decide +kernel
  have hsingle : SingleSegment newline (bytesOf "[0] [INFO] Hello from Radon MCU!\n") :=
    ⟨by decide +kernel, by decide +kernel⟩
  have hrest : SingleSegment newline crlf := ⟨by decide +kernel, by decide +kernel⟩
  rw [startBytes, helloLine_stored, List.append_assoc, List.append_assoc,
    LineBuffer.enqueue_of_full hsingle (by decide +kernel)
      (by simp only [List.length_append]; omega),
    LineBuffer.enqueue_of_full hrest (by decide +kernel)
      (by simp only [List.length_append]; omega),
    LineBuffer.enqueue_of_full (singleSegment_stored fitsRing_readyLine)
      fitsRing_readyLine.endsIn.1 (by simp only [List.length_append]; omega),
    LineBuffer.enqueue_of_fits (by omega), fitsRing_lightLine.stored_eq,
    (fitsRing_pressLine 3).stored_eq]
  rfl

/-- The first turn, with or without a pressed button. -/
theorem turn_start (pressed : Bool) :
    startBoard.turn pressed =
      { lines := { queued := firstTurn pressed, droppedLines := if pressed then 3 else 0 }
        ticks := 3 + pressed.toNat
        turns := 1
        printed := [] } := by
  cases pressed with
  | false => rfl
  | true =>
    change (⟨LineBuffer.enqueue { queued := startBytes, droppedLines := 0 } (pressLine 3),
      4, 1, []⟩ : Board) = _
    rw [enqueue_startBytes_pressLine]
    rfl

variable {b}

/-- A call {lit}`log_process` at which the flush is due. -/
theorem process_of_flush (hflush : 2 ∣ b.turns + 1) :
    b.process =
      { lines := { queued := [], droppedLines := b.lines.droppedLines }
        ticks := b.ticks
        turns := b.turns + 1
        printed := b.printed ++ b.lines.queued } :=
  if_pos hflush

/-- A turn that begins with a flush leaves the line about its button. -/
theorem turn_of_flush (hflush : 2 ∣ b.turns + 1) (pressed : Bool) :
    b.turn pressed =
      { lines :=
          { queued := if pressed then (pressLine b.ticks).full else []
            droppedLines := b.lines.droppedLines }
        ticks := b.ticks + pressed.toNat
        turns := b.turns + 1
        printed := b.printed ++ b.lines.queued } := by
  rw [Board.turn, process_of_flush hflush]
  cases pressed with
  | false => rfl
  | true =>
    rw [if_pos rfl, Board.logInfo, ← pressLine, enqueue_empty_pressLine]
    rfl

/-- Two turns of which the first begins with a flush. -/
theorem turn_turn (hflush : 2 ∣ b.turns + 1) (first second : Bool) :
    (b.turn first).turn second =
      { lines :=
          { queued := twoTurns b.ticks first second
            droppedLines := b.lines.droppedLines + UInt32.ofNat (first && second).toNat }
        ticks := b.ticks + first.toNat + second.toNat
        turns := b.turns + 2
        printed := b.printed ++ b.lines.queued } := by
  have hskip : ¬ 2 ∣ b.turns + 1 + 1 := by omega
  have hkeep : b.lines.droppedLines + UInt32.ofNat 0 = b.lines.droppedLines :=
    UInt32.add_zero _
  rw [turn_of_flush hflush, Board.turn, Board.process, if_neg hskip]
  cases second with
  | false =>
    rw [Bool.and_false, Bool.toNat_false, hkeep]
    rfl
  | true =>
    rw [if_pos rfl, Board.logInfo, ← pressLine]
    cases first with
    | false =>
      simp only [Bool.false_eq_true, if_false]
      rw [enqueue_empty_pressLine, Bool.false_and, Bool.toNat_false, hkeep]
      rfl
    | true =>
      simp only [if_true]
      rw [enqueue_pressLine_pressLine]
      rfl

end Board

/-! ## A run -/

/-- What is printed from a flush on, when the ring holds these bytes. -/
def printedFrom (ticks : Nat) (queued : List UInt8) : List Bool → List UInt8
  | [] => []
  | [_] => queued
  | first :: second :: presses =>
      queued ++ printedFrom (ticks + first.toNat + second.toNat) (twoTurns ticks first second)
        presses

/-- How many lines are evicted from a flush on. -/
def lostFrom : List Bool → Nat
  | first :: second :: presses => (first && second).toNat + lostFrom presses
  | _ => 0

/-- Any number of turns from a board whose flush is due, by induction on the readings. -/
theorem turns_from (b : Board) (hflush : 2 ∣ b.turns + 1) (presses : List Bool) :
    (presses.foldl Board.turn b).printed =
        b.printed ++ printedFrom b.ticks b.lines.queued presses ∧
      (presses.foldl Board.turn b).lines.droppedLines =
        b.lines.droppedLines + UInt32.ofNat (lostFrom presses) := by
  induction presses using List.twoStepInduction generalizing b with
  | nil =>
    exact ⟨(List.append_nil _).symm, (UInt32.add_zero _).symm⟩
  | singleton pressed =>
    rw [List.foldl_cons, List.foldl_nil, turn_of_flush hflush]
    exact ⟨rfl, (UInt32.add_zero _).symm⟩
  | cons_cons first second presses ih _ =>
    have hnext : 2 ∣ ((b.turn first).turn second).turns + 1 := by
      rw [turn_turn hflush]
      change 2 ∣ b.turns + 2 + 1
      omega
    obtain ⟨hprinted, hdropped⟩ := ih ((b.turn first).turn second) hnext
    rw [List.foldl_cons, List.foldl_cons, hprinted, hdropped, turn_turn hflush]
    constructor
    · rw [List.append_assoc]
      rfl
    · rw [lostFrom, UInt32.ofNat_add, UInt32.add_assoc]

/-- What the logger prints when these turns find the button pressed. -/
def printedBy : List Bool → List UInt8
  | [] => []
  | first :: presses => printedFrom (3 + first.toNat) (firstTurn first) presses

/-- How many lines it evicts. -/
def lostBy : List Bool → Nat
  | [] => 0
  | first :: presses => (if first then 3 else 0) + lostFrom presses

/-- Any number of turns from the start. -/
theorem turns_startBoard (presses : List Bool) :
    (presses.foldl Board.turn startBoard).printed = printedBy presses ∧
      (presses.foldl Board.turn startBoard).lines.droppedLines =
        UInt32.ofNat (lostBy presses) := by
  cases presses with
  | nil => exact ⟨rfl, rfl⟩
  | cons first presses =>
    have hstart := turn_start first
    obtain ⟨hprinted, hdropped⟩ := turns_from (startBoard.turn first)
      (by rw [hstart]) presses
    rw [List.foldl_cons, hprinted, hdropped, hstart]
    refine ⟨rfl, ?_⟩
    cases first <;> simp [lostBy, UInt32.ofNat_add]

/-- The calls of the program give the board of its turns. -/
theorem console_main (altNticksAddress : Provider) (inputs : List UInt32) :
    Console.initial.run (callsOf (main altNticksAddress inputs)) =
      ((inputs.map fun inputValue => decide (Pressed inputValue)).foldl Board.turn
        startBoard).console := by
  have hturns (b : Board) : b.console.run (callsOf (inputs.flatMap turn)) =
      ((inputs.map fun inputValue => decide (Pressed inputValue)).foldl Board.turn
        b).console := by
    induction inputs generalizing b with
    | nil => rfl
    | cons inputValue inputs ih =>
      rw [List.flatMap_cons, callsOf_append, Console.run_append, console_turn, ih]
      rfl
  rw [main, callsOf_append, Console.run_append, console_mainStart, hturns]

/-- After any turns the logger has printed what the ring held at every second turn: first the
lines of the start, or the last of them and a line about the button, and then the latest line
about the button of the two turns before; and it has counted the segments it evicted. -/
theorem stdout_run (c : ContextId) (altNticksAddress : Provider) (inputs : List UInt32) :
    let m := runCalls c Machine.reset (callsOf (main altNticksAddress inputs))
    let presses := inputs.map fun inputValue => decide (Pressed inputValue)
    stdoutOf m.hist = printedBy presses ∧
      m.logger.droppedLines = UInt32.ofNat (lostBy presses) := by
  have hrefines := Machine.refines_runCalls c (callsOf (main altNticksAddress inputs))
  obtain ⟨hprinted, hdropped⟩ :=
    turns_startBoard (inputs.map fun inputValue => decide (Pressed inputValue))
  have hlines := hrefines.consistent.toSound.lines_logState
  rw [hrefines.log, console_main] at hlines
  refine ⟨?_, ?_⟩
  · rw [hrefines.printed, console_main]
    exact hprinted
  · rw [← hdropped]
    exact (congrArg LineBuffer.droppedLines hlines).symm

end RadonHelloWorld
end RadonMCU
