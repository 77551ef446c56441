import RadonMCU.Foundations.LinkedRing
import RadonMCU.Foundations.StepSystem
import RadonMCU.Foundations.WrappedClock

/-!
# The alarms of the system clock

{lit}`alt_alarm_start`, {lit}`alt_alarm_stop` and {lit}`alt_tick` on the tick counter, the
alarm structures and the list that links them.  What a callback returns is an input of the
tick; a callback does not itself start or stop alarms.

The history of a system is proof-only: the number of ticks without the 32-bit limit, the
alarms started so far and the callbacks made.
-/

namespace RadonMCU
namespace Hal

open LinkedRing

/-- Address of an {lit}`alt_alarm`. -/
abbrev AlarmId := Nat

/-- The members of {lit}`alt_alarm` but its links, callback and context. -/
structure AltAlarm where
  time : UInt32
  rollover : Bool
deriving DecidableEq

/-- The data of {lit}`alt_tick.c`; in the list, {lit}`alt_alarm_list` is {lit}`none`. -/
structure Clock where
  altTickRate : UInt32
  altNticks : UInt32
  links : Links (Option AlarmId)
  alarm : AlarmId → AltAlarm

/-- What {lit}`alt_alarm_start` returns. -/
inductive StartCode where
  | ok
  | eInval
  | eNotSup
deriving DecidableEq

namespace Clock

def setAlarm (s : Clock) (a : AlarmId) (alarm : AltAlarm) : Clock :=
  { s with alarm := Function.update s.alarm a alarm }

/-- The null pointer is {lit}`none`. -/
def altAlarmStart (s : Clock) (alarm : Option AlarmId) (nticks : UInt32) : StartCode × Clock :=
  if s.altTickRate ≠ 0 then
    match alarm with
    | some a =>
        let currentNticks := s.altNticks
        let time := nticks + currentNticks + 1
        let s := s.setAlarm a { time, rollover := decide (time < currentNticks) }
        (.ok, { s with links := insert s.links none (some a) })
    | none => (.eInval, s)
  else (.eNotSup, s)

def altAlarmStop (s : Clock) (a : AlarmId) : Clock :=
  { s with links := remove s.links (some a) }

/-- The first part of a turn of the loop of {lit}`alt_tick`: clear the roll-over flag. -/
def clearRollover (s : Clock) (a : AlarmId) : Clock :=
  if (s.alarm a).rollover = true ∧ s.altNticks = 0 then
    s.setAlarm a { s.alarm a with rollover := false }
  else s

/-- The part that follows the callback; it returned {lit}`nextCallback`. -/
def reschedule (s : Clock) (a : AlarmId) (nextCallback : UInt32) : Clock :=
  if nextCallback = 0 then s.altAlarmStop a
  else
    let time := (s.alarm a).time + nextCallback
    let s := s.setAlarm a { s.alarm a with time }
    if time < s.altNticks then s.setAlarm a { s.alarm a with rollover := true } else s

/-- A turn of the loop: whether the callback is made, and the clock after it. -/
def visit (s : Clock) (callback : AlarmId → UInt32) (a : AlarmId) : Bool × Clock :=
  let s := s.clearRollover a
  if (s.alarm a).time ≤ s.altNticks ∧ (s.alarm a).rollover = false then
    (true, s.reschedule a (callback a))
  else (false, s)

/-- The loop of {lit}`alt_tick` from an alarm of the list on, with the alarms whose callback
is made; it does not end within the given turns in the case {lit}`none`. -/
def altTickLoop (callback : AlarmId → UInt32) :
    Nat → Option AlarmId → Clock → Option (List AlarmId × Clock)
  | _, none, s => some ([], s)
  | 0, some _, _ => none
  | fuel + 1, some a, s =>
      let next := s.links.next (some a)
      let res := s.visit callback a
      (altTickLoop callback fuel next res.2).map fun rest =>
        (if res.1 then a :: rest.1 else rest.1, rest.2)

def altTick (callback : AlarmId → UInt32) (fuel : Nat) (s : Clock) :
    Option (List AlarmId × Clock) :=
  let s := { s with altNticks := s.altNticks + 1 }
  altTickLoop callback fuel (s.links.next none) s

end Clock

/-! ## Runs -/

inductive ClockAction where
  | start (a : AlarmId) (nticks : UInt32)
  | stop (a : AlarmId)
  /-- A tick, with what the callback of each alarm returns if it is made. -/
  | tick (callback : AlarmId → UInt32)

/-- The clock with its history. -/
structure ClockSystem where
  clock : Clock
  /-- The ticks so far. -/
  ticks : Nat
  /-- The alarms that were started. -/
  started : List AlarmId
  /-- The callbacks made, with the tick of each. -/
  fired : List (Nat × AlarmId)
  /-- The loop of a tick took more turns than alarms had been started. -/
  hung : Bool

namespace ClockSystem

/-- No alarm has been started and the list is empty; {lit}`alt_sysclk_init` has set the tick
rate. -/
def init (altTickRate : UInt32) : ClockSystem where
  clock :=
    { altTickRate
      altNticks := 0
      links := { next := id, previous := id }
      alarm := fun _ => { time := 0, rollover := false } }
  ticks := 0
  started := []
  fired := []
  hung := false

def step (s : ClockSystem) : ClockAction → ClockSystem
  | .start a nticks =>
      let res := s.clock.altAlarmStart (some a) nticks
      { s with
        clock := res.2
        started := if res.1 = .ok then a :: s.started else s.started }
  | .stop a => { s with clock := s.clock.altAlarmStop a }
  | .tick callback =>
      match s.clock.altTick callback s.started.length with
      | none => { s with hung := true }
      | some res =>
          { s with
            clock := res.2
            ticks := s.ticks + 1
            fired := s.fired ++ res.1.map fun a => (s.ticks + 1, a) }

abbrev run (s : ClockSystem) (acts : List ClockAction) : ClockSystem :=
  StepSystem.run ClockSystem.step s acts

end ClockSystem

/-! ## The timetable -/

/-- What the alarms are for: each has a due tick, at which its callback is made. -/
structure Timetable where
  ticks : Nat
  /-- The alarms that wait, the latest one first, with their due ticks. -/
  armed : List (AlarmId × Nat)
  started : List AlarmId
  fired : List (Nat × AlarmId)

namespace Timetable

def init : Timetable where
  ticks := 0
  armed := []
  started := []
  fired := []

/-- The entry of an alarm after a tick: a callback that is made says when the next one is due,
or that there is none. -/
def after (now : Nat) (callback : AlarmId → UInt32) (entry : AlarmId × Nat) :
    Option (AlarmId × Nat) :=
  if entry.2 = now then
    if callback entry.1 = 0 then none else some (entry.1, entry.2 + (callback entry.1).toNat)
  else some entry

/-- The entries that are due. -/
def due (now : Nat) (armed : List (AlarmId × Nat)) : List AlarmId :=
  (armed.filter fun entry => entry.2 = now).map Prod.fst

def step (t : Timetable) : ClockAction → Timetable
  | .start a nticks =>
      { t with
        armed := (a, t.ticks + nticks.toNat + 1) :: t.armed
        started := a :: t.started }
  | .stop a => { t with armed := t.armed.filter fun entry => entry.1 ≠ a }
  | .tick callback =>
      { t with
        ticks := t.ticks + 1
        armed := t.armed.filterMap (after (t.ticks + 1) callback)
        fired := t.fired ++ (due (t.ticks + 1) t.armed).map fun a => (t.ticks + 1, a) }

abbrev run (t : Timetable) (acts : List ClockAction) : Timetable :=
  StepSystem.run Timetable.step t acts

/-- An alarm is started while it does not wait, for less than a whole turn of the tick
counter, and stopped only after it was started. -/
def Allowed (t : Timetable) : ClockAction → Prop
  | .start a nticks => a ∉ t.armed.map Prod.fst ∧ nticks.toNat + 1 < 2 ^ 32
  | .stop a => a ∈ t.started
  | .tick _ => True

instance (t : Timetable) : DecidablePred t.Allowed
  | .start _ _ => inferInstanceAs (Decidable (_ ∧ _))
  | .stop _ => inferInstanceAs (Decidable (_ ∈ _))
  | .tick _ => isTrue trivial

end Timetable

end Hal
end RadonMCU
