import RadonMCU.KnightRiderLight.Timer
import RadonMCU.KnightRiderLight.Watchdog

/-!
# How long timer_wait_us waits

A wait that does not end through its watchdog has counted one poll that sees TO for each
requested millisecond.  The law asks for a rollover of the timer behind each of them and,
with the period of {lit}`system.h`, for the requested time between the call and the
return.  The code does not clear a TO latched before the call, and it takes the period of
the timer for a millisecond, which with the load value of {lit}`system.h` is a
microsecond.

Main results:

- Theorem {lit}`witnessed_iff`: the counted polls are witnessed by rollovers unless the
  first poll sees only a TO from before the call.
- Theorem {lit}`lastPoll_ge_iff`: the last poll comes late enough exactly when too few
  polls before that time see TO.
- Theorem {lit}`waitLaw_iff`: the law, in terms of the timer and the poll times.
-/

namespace RadonMCU
namespace KnightRiderLight

/-- The poll of this number was counted. -/
def Counted (polled : List UInt32) (n : Nat) : Prop :=
  ∃ status, polled[n]? = some status ∧ seesTo status = true

/-- Each counted poll has a rollover of its own, after the call and not after the poll. -/
def Witnessed (timer : Timer) (times : PollTimes) (polled : List UInt32) : Prop :=
  ∃ rollover : Nat → Nat, Set.InjOn rollover {n | Counted polled n} ∧
    ∀ n, Counted polled n → timer.RollsOver (rollover n) ∧ rollover n ≤ times.time n

/-- A wait that is not cut counts one period for each millisecond, each with a rollover
behind it, and takes the time asked for. -/
def WaitLaw (timer : Timer) (times : PollTimes) (microseconds : UInt32) : Prop :=
  ∀ returned, timerWaitUs (timer0 times) microseconds (atCall timer) = some returned →
    returned.exit = .done →
    returned.wait.polled.countP seesTo = periods microseconds ∧
      Witnessed timer times returned.wait.polled ∧
      (timer.period = timer0Period →
        microseconds.toNat * ticksPerMicrosecond ≤
          returned.wait.bus.clock + times.returnDelay)

/-- The timer has rolled over since the poll before this one, or this is the first poll
and TO was latched at the call. -/
abbrev FreshPoll (timer : Timer) (times : PollTimes) : Nat → Prop :=
  StickyLatch.Sees timer.RollsOver times.time timer.timeout

section Polls

variable (timer : Timer) (times : PollTimes)

theorem seesTo_timer0 : SeesTo (timer0 times) (atCall timer) = FreshPoll timer times := by
  funext n
  exact propext (seesTo_timer0_iff timer times n)

theorem counted_iff (k n : Nat) :
    Counted (afterPolls (timer0 times) (atCall timer) k).polled n ↔
      n < k ∧ FreshPoll timer times n := by
  rw [← seesTo_timer0, afterPolls_polled, Counted]
  simp only [List.getElem?_map]
  rcases Nat.lt_or_ge n k with hlt | hge
  · rw [List.getElem?_range hlt]
    simp [hlt, SeesTo]
  · rw [List.getElem?_eq_none (by simpa using hge)]
    simp [Nat.not_lt.mpr hge]

/-- The counted polls are witnessed unless the first poll sees only a TO from before the
call. -/
theorem witnessed_iff {k : Nat} (hpos : 0 < k) :
    Witnessed timer times (afterPolls (timer0 times) (atCall timer) k).polled ↔
      (timer.timeout = true → timer.counter < times.time 0) := by
  constructor
  · rintro ⟨rollover, _, hroll⟩ hlatched
    rcases hroll 0 ((counted_iff timer times k 0).mpr ⟨hpos, Or.inl hlatched⟩) with
      ⟨hevent, hle⟩
    exact (timer.exists_rollsOver_iff _).mp ⟨rollover 0, hle, hevent.1, hevent⟩
  · intro hstart
    rcases StickyLatch.exists_witness times.strictMono.monotone
      (fun hlatched => (timer.exists_rollsOver_iff _).mpr (hstart hlatched)) with
      ⟨rollover, hinj, hroll⟩
    refine ⟨rollover, ?_, ?_⟩
    · exact hinj.mono fun n hn => ((counted_iff timer times k n).mp hn).2
    · intro n hn
      have hwitness := hroll n ((counted_iff timer times k n).mp hn).2
      exact ⟨hwitness.1, hwitness.2.2⟩

/-- The poll that completes a count comes late enough exactly when too few polls before
that time see TO. -/
theorem lastPoll_ge_iff {count k ticks : Nat}
    (hcount : Nat.count (FreshPoll timer times) (k + 1) = count)
    (hfirst : ∀ n < k + 1, Nat.count (FreshPoll timer times) n < count) :
    ticks ≤ times.time k + times.returnDelay ↔
      ∀ n, times.time n + times.returnDelay < ticks →
        Nat.count (FreshPoll timer times) (n + 1) < count := by
  constructor
  · intro hlate n hearly
    have hlt : n < k := times.strictMono.lt_iff_lt.mp (by omega)
    exact hfirst (n + 1) (by omega)
  · intro hfew
    by_contra hearly
    have hlt := hfew k (Nat.lt_of_not_le hearly)
    omega

/-- What a wait that ends after some polls keeps of the law. -/
theorem kept_iff {count k : Nat} (ticks : Nat)
    (hcount : Nat.count (FreshPoll timer times) (k + 1) = count)
    (hfirst : ∀ n < k + 1, Nat.count (FreshPoll timer times) n < count) :
    ((afterPolls (timer0 times) (atCall timer) (k + 1)).polled.countP seesTo = count ∧
        Witnessed timer times (afterPolls (timer0 times) (atCall timer) (k + 1)).polled ∧
        (timer.period = timer0Period →
          ticks ≤ (afterPolls (timer0 times) (atCall timer) (k + 1)).bus.clock +
            times.returnDelay)) ↔
      (timer.timeout = true → timer.counter < times.time 0) ∧
        (timer.period = timer0Period →
          ∀ n, times.time n + times.returnDelay < ticks →
            Nat.count (FreshPoll timer times) (n + 1) < count) := by
  have hcounted : (afterPolls (timer0 times) (atCall timer) (k + 1)).polled.countP seesTo =
      count := by
    rw [countP_polled]
    simp only [seesTo_timer0, hcount]
  rw [witnessed_iff timer times (Nat.succ_pos k), afterPolls_timer0,
    lastPoll_ge_iff timer times hcount hfirst]
  exact and_iff_right hcounted

/-- A wait keeps the law exactly when its watchdog cuts it, or the first poll does not see
a TO from before the call and, with the period of {lit}`system.h`, the polls are so slow
that too few of them see TO before the time asked for has passed. -/
theorem waitLaw_iff (microseconds : UInt32) (hpos : 1 ≤ microseconds.toNat)
    (hle : microseconds.toNat ≤ 4294000) :
    WaitLaw timer times microseconds ↔
      (periods microseconds ≤
          Nat.count (FreshPoll timer times) (1000000 * periods microseconds) →
        (timer.timeout = true → timer.counter < times.time 0) ∧
        (timer.period = timer0Period →
          ∀ n, times.time n + times.returnDelay <
              microseconds.toNat * ticksPerMicrosecond →
            Nat.count (FreshPoll timer times) (n + 1) < periods microseconds)) := by
  rcases exists_timerWaitUs (timer0 times) microseconds (atCall timer) with
    ⟨returned, hrun, hends, _⟩
  have hperiods : 1 ≤ periods microseconds ∧ periods microseconds ≤ 4294 := by
    rw [periods]
    omega
  rw [limit_toNat, targetMs_of_lt (by omega), Nat.mod_eq_of_lt (by omega)] at hends
  have hlaw : WaitLaw timer times microseconds ↔
      (returned.exit = .done →
        returned.wait.polled.countP seesTo = periods microseconds ∧
          Witnessed timer times returned.wait.polled ∧
          (timer.period = timer0Period →
            microseconds.toNat * ticksPerMicrosecond ≤
              returned.wait.bus.clock + times.returnDelay)) := by
    constructor
    · exact fun h => h returned hrun
    · rintro h returned' hrun'
      cases hrun.symm.trans hrun'
      exact h
  rw [hlaw]
  have hcut := hends.exit_eq_timeout_iff
  simp only [seesTo_timer0] at hcut
  cases hexit : returned.exit with
  | timeout =>
    have hfew := hcut.mp hexit
    constructor
    · intro _ henough
      omega
    · intro _ hdone
      contradiction
  | done =>
    rcases hends.exists_polls hexit with ⟨polls, hpolls, hwait, hcount, hfirst⟩
    simp only [seesTo_timer0] at hcount hfirst
    cases polls with
    | zero =>
      rw [Nat.count_zero] at hcount
      omega
    | succ k =>
      have henough := hcount ▸ Nat.count_monotone (FreshPoll timer times) hpolls
      have hkept := kept_iff timer times (microseconds.toNat * ticksPerMicrosecond)
        hcount hfirst
      simp only at hwait
      rw [← hwait] at hkept
      simp only [hkept, henough, forall_const]

end Polls

/-- Polls that come once a millisecond. -/
def slowPolls : PollTimes where
  time n := 50000 * (n + 1)
  strictMono := by
    intro m n hlt
    simp only
    omega
  returnDelay := 0

/-- Polls that come at every tick from the call on. -/
def everyTick : PollTimes where
  time n := n
  strictMono := strictMono_id
  returnDelay := 0

/-- A timer with the period of {lit}`system.h`, about to roll over. -/
def shortTimer : Timer where
  period := timer0Period
  counter := 0
  timeout := false
  counter_lt := by decide

/-- A timer with a period of a millisecond that has rolled over before the call. -/
def latchedTimer : Timer where
  period := 50000
  counter := 49999
  timeout := true
  counter_lt := by decide

/-- One slow poll covers a whole millisecond. -/
theorem waitLaw_slowPolls : WaitLaw shortTimer slowPolls 1000 := by
  refine (waitLaw_iff shortTimer slowPolls 1000 (by decide) (by decide)).mpr
    fun _ => ⟨fun hlatched => absurd hlatched Bool.false_ne_true, ?_⟩
  intro _ n hearly
  change 50000 * (n + 1) + 0 < 1000 * 50 at hearly
  omega

/-- With the period of {lit}`system.h` a wait of a millisecond ends one tick after the
call.  With a period of a millisecond, and TO latched at the call, it ends at once. -/
theorem not_waitLaw :
    ¬ WaitLaw shortTimer everyTick 1000 ∧ ¬ WaitLaw latchedTimer everyTick 1000 := by
  constructor
  · intro h
    have hlate := (h _ rfl rfl).2.2 rfl
    exact absurd hlate (by decide)
  · intro h
    rcases (h _ rfl rfl).2.1 with ⟨rollover, _, hroll⟩
    have hfirst := hroll 0 ⟨3, rfl, rfl⟩
    exact absurd hfirst.2 (Nat.not_le.mpr hfirst.1.1)

end KnightRiderLight
end RadonMCU
