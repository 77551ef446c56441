import RadonMCU.Foundations.StickyLatch
import RadonMCU.KnightRiderLight.TimerWait

/-!
# The timer behind the status register

{lit}`TIMER_0` runs in continuous mode: its counter rolls over once in every period, each
rollover latches TO, and TO stays set until the status register is written.  The program
starts the timer and never writes its period.

Main results:

- Theorem {lit}`Timer.rollsOver_iff`: the timer rolls over one tick after its counter has
  run down, and then once in every period.
- Theorem {lit}`seesTo_timer0_iff`: a poll of the timer sees TO exactly when the timer has
  rolled over since the poll before it, or the first poll finds TO latched.
-/

namespace RadonMCU
namespace KnightRiderLight

/-! ## Constants of system.h -/

/-- {lit}`TIMER_0_LOAD_VALUE`. -/
def timer0LoadValue : Nat := 49

/-- {lit}`TIMER_0_FREQ`. -/
def timer0Freq : Nat := 50000000

/-- Ticks between two rollovers with the load value of {lit}`system.h`. -/
def timer0Period : Nat := timer0LoadValue + 1

/-- The ticks of a microsecond. -/
def ticksPerMicrosecond : Nat := timer0Freq / 1000000

/-! ## The timer -/

/-- A running timer: the ticks of its period, the ticks the counter has left, and TO. -/
structure Timer where
  period : Nat
  counter : Nat
  timeout : Bool
  counter_lt : counter < period

namespace Timer

/-- One tick of the clock; a counter at zero reloads and latches TO. -/
def tick (t : Timer) : Timer :=
  if t.counter = 0 then
    { t with
      counter := t.period - 1
      timeout := true
      counter_lt := Nat.sub_one_lt (Nat.ne_zero_of_lt t.counter_lt) }
  else
    { t with
      counter := t.counter - 1
      counter_lt := Nat.lt_of_le_of_lt (Nat.sub_le _ _) t.counter_lt }

/-- The timer some ticks later. -/
def after (t : Timer) (ticks : Nat) : Timer := tick^[ticks] t

/-- A write to the status register. -/
def clear (t : Timer) : Timer := { t with timeout := false }

/-- The status register: RUN, and TO. -/
def status (t : Timer) : UInt32 := if t.timeout then 3 else 2

/-- The tick of this number, counted from one, rolls the counter over. -/
def RollsOver (t : Timer) (r : Nat) : Prop := 0 < r ∧ (t.after (r - 1)).counter = 0

instance (t : Timer) : DecidablePred t.RollsOver :=
  fun r => inferInstanceAs (Decidable (0 < r ∧ (t.after (r - 1)).counter = 0))

@[simp] theorem seesTo_status (t : Timer) : seesTo t.status = t.timeout := by
  unfold status
  cases t.timeout <;> rfl

@[ext] theorem ext {t t' : Timer} (hperiod : t.period = t'.period)
    (hcounter : t.counter = t'.counter) (htimeout : t.timeout = t'.timeout) : t = t' := by
  cases t
  cases t'
  cases hperiod
  cases hcounter
  cases htimeout
  rfl

/-- One more tick. -/
theorem after_succ (t : Timer) (n : Nat) : t.after (n + 1) = (t.after n).tick :=
  Function.iterate_succ_apply' _ _ _

/-- Some ticks and then some more. -/
theorem after_add (t : Timer) (m n : Nat) : (t.after m).after n = t.after (m + n) := by
  rw [after, after, after, ← Function.iterate_add_apply, Nat.add_comm]

/-- A tick leaves the period. -/
theorem tick_period (t : Timer) : t.tick.period = t.period := by
  unfold tick
  split <;> rfl

/-- After a tick TO is set if the counter was 0, or TO was set before. -/
theorem tick_timeout (t : Timer) :
    t.tick.timeout = true ↔ t.counter = 0 ∨ t.timeout = true := by
  unfold tick
  split
  · simp [*]
  · simp [*]

/-- Clearing TO does not disturb the counter. -/
theorem clear_tick_clear (t : Timer) : t.clear.tick.clear = t.tick.clear := by
  unfold tick clear
  dsimp only
  split <;> rfl

theorem clear_after_clear (t : Timer) (n : Nat) : (t.clear.after n).clear = (t.after n).clear := by
  induction n with
  | zero => rfl
  | succ n ih => rw [after_succ, after_succ, ← clear_tick_clear, ih, clear_tick_clear]

/-- Ticks leave the period. -/
theorem after_period (t : Timer) (n : Nat) : (t.after n).period = t.period := by
  induction n with
  | zero => rfl
  | succ n ih => rw [after_succ, tick_period, ih]

/-! ## Rollovers -/

/-- Clearing TO does not change when the counter rolls over. -/
theorem rollsOver_clear (t : Timer) (r : Nat) : t.clear.RollsOver r ↔ t.RollsOver r := by
  have hcounter := congrArg counter (t.clear_after_clear (r - 1))
  change (t.clear.after (r - 1)).counter = (t.after (r - 1)).counter at hcounter
  rw [RollsOver, RollsOver, hcounter]

/-- Rollovers seen from a later start. -/
theorem rollsOver_after (t : Timer) (m : Nat) {r : Nat} (hr : 0 < r) :
    (t.after m).RollsOver r ↔ t.RollsOver (m + r) := by
  rw [RollsOver, RollsOver, after_add, Nat.add_sub_assoc hr]
  simp only [hr, Nat.add_pos_right, true_and]

/-- TO is set when it was set before or the timer has rolled over since. -/
theorem after_timeout (t : Timer) (n : Nat) :
    (t.after n).timeout = true ↔ t.timeout = true ∨ ∃ r ≤ n, t.RollsOver r := by
  induction n with
  | zero =>
    constructor
    · exact Or.inl
    · rintro (hset | ⟨r, hr, hroll⟩)
      · exact hset
      · exact absurd hroll.1 (by omega)
  | succ n ih =>
    rw [after_succ, tick_timeout, ih]
    constructor
    · rintro (hzero | hset | ⟨r, hr, hroll⟩)
      · exact Or.inr ⟨n + 1, Nat.le_refl _, Nat.succ_pos n, hzero⟩
      · exact Or.inl hset
      · exact Or.inr ⟨r, Nat.le_succ_of_le hr, hroll⟩
    · rintro (hset | ⟨r, hr, hroll⟩)
      · exact Or.inr (Or.inl hset)
      · rcases Nat.le_succ_iff.mp hr with hle | rfl
        · exact Or.inr (Or.inr ⟨r, hle, hroll⟩)
        · exact Or.inl hroll.2

/-- The counter and the ticks passed add up to the counter at the start and whole
periods. -/
theorem exists_after_counter (t : Timer) (n : Nat) :
    ∃ k, (t.after n).counter + n = t.counter + k * t.period := by
  induction n with
  | zero => exact ⟨0, by simp [after]⟩
  | succ n ih =>
    rcases ih with ⟨k, hk⟩
    have hperiod := t.after_period n
    have hlt := (t.after n).counter_lt
    rw [after_succ, tick]
    split
    · refine ⟨k + 1, ?_⟩
      rw [Nat.add_mul]
      simp only
      omega
    · refine ⟨k, ?_⟩
      simp only
      omega

/-- The timer rolls over one tick after its counter has run down, and then once in every
period. -/
theorem rollsOver_iff (t : Timer) (r : Nat) :
    t.RollsOver r ↔ ∃ k, r = t.counter + 1 + k * t.period := by
  constructor
  · rintro ⟨hpos, hzero⟩
    rcases t.exists_after_counter (r - 1) with ⟨k, hk⟩
    exact ⟨k, by omega⟩
  · rintro ⟨k, rfl⟩
    refine ⟨by omega, ?_⟩
    rcases t.exists_after_counter (t.counter + 1 + k * t.period - 1) with ⟨q, hq⟩
    have hlt := (t.after (t.counter + 1 + k * t.period - 1)).counter_lt
    rw [after_period] at hlt
    have hsum : (t.after (t.counter + 1 + k * t.period - 1)).counter + k * t.period =
        q * t.period := by
      omega
    apply Nat.eq_zero_of_dvd_of_lt _ hlt
    exact (Nat.dvd_add_iff_left (Nat.dvd_mul_left _ _)).mpr (hsum ▸ Nat.dvd_mul_left _ _)

/-- The first rollover. -/
theorem exists_rollsOver_iff (t : Timer) (n : Nat) :
    (∃ r ≤ n, 0 < r ∧ t.RollsOver r) ↔ t.counter < n := by
  constructor
  · rintro ⟨r, hr, _, hroll⟩
    rcases (t.rollsOver_iff r).mp hroll with ⟨k, hk⟩
    omega
  · intro hlt
    exact ⟨t.counter + 1, hlt, Nat.succ_pos _, (t.rollsOver_iff _).mpr ⟨0, by omega⟩⟩

end Timer

/-! ## Polls of the timer -/

/-- The ticks after the call at which the polls happen, and the ticks from the last poll
to the return. -/
structure PollTimes where
  time : Nat → Nat
  strictMono : StrictMono time
  returnDelay : Nat

/-- The timer, the ticks since the call and the polls since then. -/
structure Device where
  timer : Timer
  clock : Nat
  polls : Nat

/-- The register of a timer that is polled at given times.  A poll reads the register and, if it
sees TO, clears it at the same tick; a rollover between the two accesses is not modelled. -/
def timer0 (times : PollTimes) : StatusRegister Device where
  iord d :=
    let timer := d.timer.after (times.time d.polls - d.clock)
    (timer.status, { timer, clock := times.time d.polls, polls := d.polls + 1 })
  iowr d _ := { d with timer := d.timer.clear }

/-- The timer at the call. -/
def atCall (timer : Timer) : Device := { timer, clock := 0, polls := 0 }

section Polls

variable (timer : Timer) (times : PollTimes)

/-- Whatever a poll reads, TO is clear after it. -/
theorem poll_timer0 (w : Wait Device) :
    (poll (timer0 times) w).bus =
      { timer := (w.bus.timer.after (times.time w.bus.polls - w.bus.clock)).clear
        clock := times.time w.bus.polls
        polls := w.bus.polls + 1 } := by
  rw [poll_bus]
  simp only [timer0, Timer.seesTo_status]
  split
  · rfl
  · rename_i hclear
    rw [Device.mk.injEq]
    exact ⟨Timer.ext rfl rfl (Bool.eq_false_iff.mpr hclear), rfl, rfl⟩

theorem afterPolls_timer0 (n : Nat) :
    (afterPolls (timer0 times) (atCall timer) (n + 1)).bus =
      { timer := (timer.after (times.time n)).clear
        clock := times.time n
        polls := n + 1 } := by
  induction n with
  | zero =>
    rw [afterPolls_succ, poll_timer0]
    rfl
  | succ n ih =>
    have hle := times.strictMono.monotone (Nat.le_succ n)
    rw [afterPolls_succ, poll_timer0, ih]
    simp only [Timer.clear_after_clear, Timer.after_add, Nat.add_sub_cancel' hle]

/-- A poll sees TO exactly when the timer has rolled over since the poll before it, or the
first poll finds TO latched. -/
theorem seesTo_timer0_iff (n : Nat) :
    SeesTo (timer0 times) (atCall timer) n ↔
      StickyLatch.Sees timer.RollsOver times.time timer.timeout n := by
  cases n with
  | zero =>
    change seesTo (timer.after (times.time 0 - 0)).status = true ↔ _
    rw [Timer.seesTo_status, Timer.after_timeout, Nat.sub_zero]
    simp only [StickyLatch.Sees]
    refine or_congr_right (exists_congr fun r => and_congr_right fun _ => ?_)
    exact ⟨fun hroll => ⟨hroll.1, hroll⟩, And.right⟩
  | succ n =>
    have hlt := times.strictMono (Nat.lt_succ_self n)
    have hread : SeesTo (timer0 times) (atCall timer) (n + 1) ↔
        ((timer.after (times.time n)).clear.after
          (times.time (n + 1) - times.time n)).timeout = true := by
      rw [SeesTo, statusAt, afterPolls_timer0, ← Timer.seesTo_status]
      rfl
    rw [hread, Timer.after_timeout]
    constructor
    · rintro (hset | ⟨r, hr, hroll⟩)
      · exact absurd hset Bool.false_ne_true
      · have hpos := hroll.1
        rw [Timer.rollsOver_clear, Timer.rollsOver_after _ _ hpos] at hroll
        exact ⟨times.time n + r, by omega, by omega, hroll⟩
    · rintro ⟨r, hr, hafter, hroll⟩
      refine Or.inr ⟨r - times.time n, by omega, ?_⟩
      rw [Timer.rollsOver_clear, Timer.rollsOver_after _ _ (Nat.sub_pos_of_lt hafter),
        Nat.add_sub_cancel' hafter.le]
      exact hroll

end Polls

end KnightRiderLight
end RadonMCU
