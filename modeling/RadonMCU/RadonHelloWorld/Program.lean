import RadonMCU.Equinios.Machine

/-!
# The program of the board

{lit}`main` and the drivers it calls, each as the list of what it does to the world: calls
of the logger, accesses of the device registers and waits.  The program keeps nothing from
one turn of its endless loop to the next, so a run is given by the words that the button
register reads, one for each turn.
-/

namespace RadonMCU
namespace RadonHelloWorld

open Equinios

/-- What the program does to the world. -/
inductive Effect where
  /-- A call of {lit}`equinios.h`. -/
  | call (call : ApiCall)
  /-- {lit}`IOWR_ALTERA_AVALON_PIO_DATA(PIO_BASE, word)`. -/
  | writePio (word : UInt32)
  /-- {lit}`IORD_ALTERA_AVALON_PIO_DATA(INPUT_BASE)`, which reads this word. -/
  | readInput (word : UInt32)
  /-- {lit}`IOWR_ALTERA_AVALON_TIMER_CONTROL(TIMER_0_BASE, control)`. -/
  | writeTimerControl (control : UInt32)
  /-- {lit}`timer_wait_us(microseconds)`. -/
  | timerWaitUs (microseconds : UInt32)
deriving DecidableEq

/-! ## alt_alarm.h and equinios.h -/

/-- {lit}`_alt_tick_rate`: no timer is the system clock, so nothing sets it. -/
def altTickRate : UInt32 := 0

/-- {lit}`alt_ticks_per_second`. -/
def altTicksPerSecond : UInt32 := altTickRate

/-- {lit}`_alt_nticks`, which only the interrupt of a system clock advances. -/
def altNticks : UInt32 := 0

/-- {lit}`log_write` of a text; {lit}`alt_nticks` is the only timestamp function. -/
def logWrite (level : LogLevel) (formatted : List UInt8) : Effect :=
  .call (.logWrite level formatted altNticks)

/-- {lit}`LOG_INFO`. -/
def logInfo (fmt : String) : Effect := logWrite .info (bytesOf ("[INFO] " ++ fmt))

/-- {lit}`LOG_TRACE`. -/
def logTrace (fmt : String) : Effect := logWrite .trace (bytesOf ("[TRACE] " ++ fmt))

/-- A digit of {lit}`%X`. -/
def upperHexDigit (digit : Nat) : UInt8 :=
  if digit < 10 then UInt8.ofNat (48 + digit) else UInt8.ofNat (55 + digit)

/-- {lit}`%08X` of a 32-bit word. -/
def upperHex (n : UInt32) : List UInt8 :=
  [7, 6, 5, 4, 3, 2, 1, 0].map fun i => upperHexDigit (n.toNat / 16 ^ i % 16)

/-- {lit}`LOG_DEBUG` of a format that ends in {lit}`%08X`. -/
def logDebugHex (fmt : String) (arg : UInt32) : Effect :=
  logWrite .debug (bytesOf ("[DEBUG] " ++ fmt) ++ upperHex arg)

/-! ## LedStateHandler.c and LedDriver.c -/

/-- {lit}`set_leds_state`. -/
def setLedsState (ledsMask : UInt32) : List Effect :=
  [ logTrace "[LedStateHandler] set_leds_state() called...",
    .writePio (~~~ledsMask &&& 0xF),
    logDebugHex "[LedStateHandler] Setting LED state for mask: 0x" ledsMask ]

/-- {lit}`LedState`. -/
inductive LedState where
  | off
  | on
deriving DecidableEq

/-- The common body of the four setters: switching a LED off switches all off. -/
def setLedState (ledMask : UInt32) (state : LedState) : List Effect :=
  if state = .on then setLedsState ledMask else setLedsState 0x0

/-- {lit}`set_led0_state`. -/
def setLed0State : LedState → List Effect := setLedState 0x1

/-- {lit}`set_led1_state`. -/
def setLed1State : LedState → List Effect := setLedState 0x2

/-- {lit}`set_led2_state`. -/
def setLed2State : LedState → List Effect := setLedState 0x4

/-- {lit}`set_led3_state`. -/
def setLed3State : LedState → List Effect := setLedState 0x8

/-! ## KnightRiderLight.c -/

/-- {lit}`LED_DELAY`. -/
def ledDelay : UInt32 := 1000000

/-- {lit}`run_knight_rider_cycle`. -/
def runKnightRiderCycle : List Effect :=
  setLed0State .on ++ [.timerWaitUs ledDelay] ++ setLed0State .off ++
  setLed1State .on ++ [.timerWaitUs ledDelay] ++ setLed1State .off ++
  setLed2State .on ++ [.timerWaitUs ledDelay] ++ setLed2State .off ++
  setLed3State .on ++ [.timerWaitUs ledDelay] ++ setLed3State .off ++
  setLed2State .on ++ [.timerWaitUs ledDelay] ++ setLed2State .off ++
  setLed1State .on ++ [.timerWaitUs ledDelay]

/-- {lit}`run_knight_rider_cycle_smooth`. -/
def runKnightRiderCycleSmooth : List Effect :=
  setLed0State .on ++ [.timerWaitUs ledDelay] ++
  setLed1State .on ++ [.timerWaitUs ledDelay] ++
  setLed2State .on ++ [.timerWaitUs ledDelay] ++
  setLed3State .on ++ [.timerWaitUs ledDelay] ++
  setLed2State .on ++ [.timerWaitUs ledDelay] ++
  setLed1State .on ++ [.timerWaitUs ledDelay] ++
  setLed0State .on ++ [.timerWaitUs ledDelay]

/-- {lit}`ALTERA_AVALON_TIMER_CONTROL_ITO_MSK`, {lit}`CONT_MSK` and {lit}`START_MSK`. -/
def timerControl : UInt32 := 0x1 ||| 0x2 ||| 0x4

/-- {lit}`newKnightRiderLight`. -/
def newKnightRiderLight : List Effect :=
  [logInfo "KnightRiderLight initialized", .writeTimerControl timerControl]

/-! ## ButtonStateReader.c and ButtonsDriver.c -/

/-- {lit}`ButtonState`. -/
inductive ButtonState where
  | pressed
  | released
deriving DecidableEq

/-- {lit}`inputValue` is the word that the input register reads. -/
def getButtonStatus (buttonMask inputValue : UInt32) : ButtonState × List Effect :=
  ( if inputValue &&& buttonMask = 0 then .pressed else .released,
    [ logTrace "[ButtonStateReader] get_button_status() called...",
      logDebugHex "[ButtonStateReader] Getting button status for mask: 0x" buttonMask,
      .readInput inputValue ] )

/-- {lit}`BUTTON_RESET_MASK`. -/
def buttonResetMask : UInt32 := (1 : UInt32) <<< (0 : UInt32)

/-- {lit}`get_reset_button_status`. -/
def getResetButtonStatus (inputValue : UInt32) : ButtonState × List Effect :=
  let res := getButtonStatus buttonResetMask inputValue
  (res.1, logTrace "[ButtonsDriver] get_reset_button_status() called..." :: res.2)

/-! ## main.c -/

/-- {lit}`main` before its loop; the parameter is the address of {lit}`alt_nticks`. -/
def mainStart (altNticksAddress : Provider) : List Effect :=
  [.call (.logSetLevel .info), logInfo "Hello from Radon MCU!\n"] ++
  (if altTicksPerSecond > 0 then [.call (.logSetTimestampProvider (some altNticksAddress))]
    else []) ++
  [logInfo "EquiniosLogger singleton ready"] ++ newKnightRiderLight

/-- One turn of the loop. -/
def turn (inputValue : UInt32) : List Effect :=
  let status := getResetButtonStatus inputValue
  [.call .logProcess] ++ runKnightRiderCycle ++ status.2 ++
  if status.1 = .pressed then
    [logInfo "Reset button pressed. Interrupting Knight Rider light pattern..."] ++
      runKnightRiderCycleSmooth
  else []

/-- {lit}`main` up to the end of some turn, with the words that the turns read. -/
def main (altNticksAddress : Provider) (inputs : List UInt32) : List Effect :=
  mainStart altNticksAddress ++ inputs.flatMap turn

end RadonHelloWorld
end RadonMCU
