import Mathlib.Data.List.Chain
import RadonMCU.Foundations.WordBits
import RadonMCU.RadonHelloWorld.Program

/-!
# The light that moves

The LEDs are driven low: a zero bit of the PIO register lights its LED.  The program
rewrites the whole register, so that the lights of a run follow from the words it writes
and the waits between them.

Main results:

- Theorem {lit}`shown_main`: what the LEDs show during the waits of a run.
- Theorem {lit}`lights_run`: one LED is lit in every wait, the light moves by at most one
  place, and once the register is written never two LEDs are lit.
-/

namespace RadonMCU
namespace RadonHelloWorld

open Equinios WordBits

/-! ## The PIO register along a run -/

/-- {lit}`PIO_RESET_VALUE`. -/
def pioResetValue : UInt32 := 10

/-- The PIO register after one effect. -/
def storePio (word : UInt32) : Effect → UInt32
  | .writePio written => written
  | _ => word

/-- The PIO register after some effects. -/
def pioAfter (word : UInt32) (effects : List Effect) : UInt32 := effects.foldl storePio word

/-- The PIO register and the length of each wait. -/
def shown (word : UInt32) : List Effect → List (UInt32 × UInt32)
  | [] => []
  | .timerWaitUs microseconds :: effects => (word, microseconds) :: shown word effects
  | effect :: effects => shown (storePio word effect) effects

theorem shown_append (word : UInt32) (effects effects' : List Effect) :
    shown word (effects ++ effects') =
      shown word effects ++ shown (pioAfter word effects) effects' := by
  induction effects generalizing word with
  | nil => rfl
  | cons effect effects ih =>
    cases effect with
    | timerWaitUs microseconds => exact congrArg (List.cons _) (ih word)
    | _ => exact ih _

/-- The register keeps its value until the first write, and then holds a written word. -/
theorem pioAfter_cases (word : UInt32) (effects : List Effect) :
    (pioAfter word effects = word ∧ ∀ written, .writePio written ∉ effects) ∨
      .writePio (pioAfter word effects) ∈ effects := by
  induction effects generalizing word with
  | nil => exact Or.inl ⟨rfl, by simp⟩
  | cons effect effects ih =>
    cases effect with
    | writePio written =>
      right
      rcases ih written with ⟨hkeep, -⟩ | hmem
      · change Effect.writePio (pioAfter written effects) ∈ _
        rw [hkeep]
        exact List.mem_cons_self
      · exact List.mem_cons_of_mem _ hmem
    | _ =>
      rcases ih word with ⟨hkeep, hnone⟩ | hmem
      · exact Or.inl ⟨hkeep, fun written => by simpa using hnone written⟩
      · exact Or.inr (List.mem_cons_of_mem _ hmem)

/-! ## The way of the light -/

/-- The LED is lit. -/
def Lit (word : UInt32) (led : Fin 4) : Prop := bit word led = false

instance (word : UInt32) (led : Fin 4) : Decidable (Lit word led) :=
  inferInstanceAs (Decidable (_ = _))

/-- The register word with only this LED lit. -/
def ledWord (led : Fin 4) : UInt32 := ~~~((1 : UInt32) <<< UInt32.ofNat led) &&& 0xF

/-- Two places that are the same or next to each other. -/
def Near (led led' : Fin 4) : Prop := led.val ≤ led'.val + 1 ∧ led'.val ≤ led.val + 1

instance : DecidableRel Near := fun _ _ => inferInstanceAs (Decidable (_ ∧ _))

def cyclePath : List (Fin 4) := [0, 1, 2, 3, 2, 1]

def smoothPath : List (Fin 4) := [0, 1, 2, 3, 2, 1, 0]

/-- The reset button is pressed in this turn. -/
def Pressed (inputValue : UInt32) : Prop := bit inputValue 0 = false

instance (inputValue : UInt32) : Decidable (Pressed inputValue) :=
  inferInstanceAs (Decidable (_ = _))

/-- The places of the light in one turn. -/
def turnPath (inputValue : UInt32) : List (Fin 4) :=
  if Pressed inputValue then cyclePath ++ smoothPath else cyclePath

/-- What is shown while the light is at this place, and the argument of the wait. -/
def atPlace (led : Fin 4) : UInt32 × UInt32 := (ledWord led, ledDelay)

theorem getResetButtonStatus_eq_pressed_iff (inputValue : UInt32) :
    (getResetButtonStatus inputValue).1 = .pressed ↔ Pressed inputValue := by
  have hmask : inputValue &&& buttonResetMask ≠ 0 ↔ bit inputValue 0 = true :=
    and_mask_ne_zero_iff rfl
  rw [getResetButtonStatus, getButtonStatus]
  by_cases hzero : inputValue &&& buttonResetMask = 0
  · simp [hzero, Pressed, ← hmask, ← Bool.not_eq_true]
  · simp [hzero, Pressed, hmask.mp hzero]

/-! ## One turn -/

theorem shown_turn (word inputValue : UInt32) :
    shown word (turn inputValue) = (turnPath inputValue).map atPlace := by
  rw [turn, turnPath]
  by_cases hpressed : Pressed inputValue
  · simp only [(getResetButtonStatus_eq_pressed_iff inputValue).mpr hpressed, hpressed, if_true]
    rfl
  · simp only [mt (getResetButtonStatus_eq_pressed_iff inputValue).mp hpressed, hpressed,
      if_false]
    rfl

/-! ## A run -/

/-- What the LEDs show during the waits of a run. -/
theorem shown_main (altNticksAddress : Provider) (inputs : List UInt32) :
    shown pioResetValue (main altNticksAddress inputs) =
      (inputs.flatMap turnPath).map atPlace := by
  have hturns (word : UInt32) :
      shown word (inputs.flatMap turn) = (inputs.flatMap turnPath).map atPlace := by
    induction inputs generalizing word with
    | nil => rfl
    | cons inputValue inputs ih =>
      rw [List.flatMap_cons, List.flatMap_cons, shown_append, List.map_append, shown_turn, ih]
  rw [main, shown_append, hturns]
  rfl

/-- A turn starts at place 0 and ends at place 0 or 1. -/
theorem turnPath_ends (inputValue : UInt32) :
    (turnPath inputValue).IsChain Near ∧ (turnPath inputValue).head? = some 0 ∧
      ∀ led ∈ (turnPath inputValue).getLast?, Near led 0 := by
  rw [turnPath]
  split <;> decide

/-- The light moves by at most one place. -/
theorem isChain_turns (inputs : List UInt32) :
    (inputs.flatMap turnPath).IsChain Near ∧
      ∀ led ∈ (inputs.flatMap turnPath).head?, led = 0 := by
  induction inputs with
  | nil => simp
  | cons inputValue inputs ih =>
    obtain ⟨hchain, hhead, hlast⟩ := turnPath_ends inputValue
    rw [List.flatMap_cons]
    constructor
    · refine List.isChain_append.mpr ⟨hchain, ih.1, ?_⟩
      intro led hled led' hled'
      rw [ih.2 led' hled']
      exact hlast led hled
    · intro led hled
      rw [List.head?_append, hhead] at hled
      exact (Option.some.inj hled).symm

/-! ## Every moment of a run -/

/-- No two LEDs are lit. -/
def Single (word : UInt32) : Prop := ∀ led led', Lit word led → Lit word led' → led = led'

instance (word : UInt32) : Decidable (Single word) :=
  inferInstanceAs (Decidable (∀ led led', Lit word led → Lit word led' → led = led'))

def Effect.pioWord? : Effect → Option UInt32
  | .writePio word => some word
  | _ => none

theorem mem_pioWords_iff {word : UInt32} {effects : List Effect} :
    word ∈ effects.filterMap Effect.pioWord? ↔ .writePio word ∈ effects := by
  rw [List.mem_filterMap]
  constructor
  · rintro ⟨effect, hmem, hword⟩
    cases effect with
    | writePio written => exact Option.some.inj hword ▸ hmem
    | _ => cases hword
  · exact fun hmem => ⟨_, hmem, rfl⟩

-- A bounded quantifier over words would be decided by trying all words, hence the {lit}`all`.
theorem single_runKnightRiderCycle :
    (runKnightRiderCycle.filterMap Effect.pioWord?).all (Single ·) = true := by decide +kernel

theorem single_runKnightRiderCycleSmooth :
    (runKnightRiderCycleSmooth.filterMap Effect.pioWord?).all (Single ·) = true := by
  decide +kernel

theorem single_turn (inputValue : UInt32) :
    ∀ word ∈ (turn inputValue).filterMap Effect.pioWord?, Single word := by
  intro word hword
  simp only [turn, List.filterMap_append, List.mem_append] at hword
  rcases hword with (((hcall | hcycle) | hbutton) | hsmooth)
  · cases hcall
  · exact of_decide_eq_true (List.all_eq_true.mp single_runKnightRiderCycle word hcycle)
  · cases hbutton
  · split at hsmooth
    · exact of_decide_eq_true
        (List.all_eq_true.mp single_runKnightRiderCycleSmooth word hsmooth)
    · cases hsmooth

/-- No word that the program writes lights two LEDs. -/
theorem single_main (altNticksAddress : Provider) {inputs : List UInt32} {word : UInt32}
    (h : .writePio word ∈ main altNticksAddress inputs) : Single word := by
  rcases List.mem_append.mp h with hstart | hturns
  · cases mem_pioWords_iff.mpr hstart
  · obtain ⟨inputValue, -, hmem⟩ := List.mem_flatMap.mp hturns
    exact single_turn inputValue word (mem_pioWords_iff.mpr hmem)

/-- In the waits of a run, each of them a call {lit}`timer_wait_us(LED_DELAY)`, the light is at
the places of its turns, one LED being lit; from wait to wait it moves by at most one place; and
at every moment the register holds its reset value, nothing having been written, or lights no
two LEDs. -/
theorem lights_run (altNticksAddress : Provider) (inputs : List UInt32) :
    shown pioResetValue (main altNticksAddress inputs) =
        (inputs.flatMap turnPath).map (fun led => (ledWord led, ledDelay)) ∧
      (∀ led led', Lit (ledWord led) led' ↔ led' = led) ∧
      (inputs.flatMap turnPath).IsChain Near ∧
      ∀ before after, main altNticksAddress inputs = before ++ after →
        (pioAfter pioResetValue before = pioResetValue ∧ ∀ word, .writePio word ∉ before) ∨
          Single (pioAfter pioResetValue before) := by
  refine ⟨shown_main altNticksAddress inputs, by decide, (isChain_turns inputs).1, ?_⟩
  intro before after hsplit
  refine (pioAfter_cases pioResetValue before).imp_right fun hmem => ?_
  have hmain : .writePio (pioAfter pioResetValue before) ∈ main altNticksAddress inputs := by
    rw [hsplit]
    exact List.mem_append_left _ hmem
  exact single_main altNticksAddress hmain

end RadonHelloWorld
end RadonMCU
