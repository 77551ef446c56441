import RadonMCU.KnightRiderLight.TimerWait

/-!
# The watchdog of timer_wait_us

The watchdog should leave the loop only after a million polls for each requested
millisecond.  Its limit is a 32-bit product, which wraps from 4295 milliseconds on, and
the millisecond count itself wraps for the last 999 arguments.

Main results:

- Theorem {lit}`watchdogLaw_iff`: on any register the law holds exactly when nothing
  wraps, or when the wrapped limit still leaves room for the polls that see TO.
- Theorem {lit}`watchdog_iff`: the same for a sequence of status values, and for all of
  them.
-/

namespace RadonMCU
namespace KnightRiderLight

/-- The milliseconds that cover the argument, without the 32-bit limit. -/
def periods (microseconds : UInt32) : Nat := (microseconds.toNat + 999) / 1000

/-- The loop ends; through the watchdog only after a million polls for each millisecond;
otherwise as many polls saw TO as there are milliseconds; and the value returned covers
the argument. -/
def WatchdogLaw {σ : Type} (register : StatusRegister σ) (bus : σ) (microseconds : UInt32) :
    Prop :=
  ∃ returned, timerWaitUs register microseconds bus = some returned ∧
    (returned.exit = .timeout → 1000000 * periods microseconds < returned.wait.polled.length) ∧
    (returned.exit = .done →
      returned.wait.polled.countP seesTo = periods microseconds) ∧
    microseconds.toNat ≤ returned.value.toNat

/-! ## The words of the code -/

/-- The rounded number of milliseconds, with the wrap of the sum. -/
theorem targetMs_toNat (microseconds : UInt32) :
    ((microseconds + 999) / 1000).toNat = (microseconds.toNat + 999) % 2 ^ 32 / 1000 := by
  rw [UInt32.toNat_div, UInt32.toNat_add]
  rfl

/-- Without the wrap it is the number of periods. -/
theorem targetMs_of_lt {microseconds : UInt32} (h : microseconds.toNat < 2 ^ 32 - 999) :
    ((microseconds + 999) / 1000).toNat = periods microseconds := by
  rw [targetMs_toNat, periods]
  omega

/-- The last 999 arguments ask for no millisecond. -/
theorem targetMs_of_ge {microseconds : UInt32} (h : 2 ^ 32 - 999 ≤ microseconds.toNat) :
    ((microseconds + 999) / 1000).toNat = 0 := by
  have hlt := UInt32.toNat_lt microseconds
  rw [targetMs_toNat]
  omega

/-- The limit of the watchdog, with the wrap of the product. -/
theorem limit_toNat (microseconds : UInt32) :
    ((microseconds + 999) / 1000 * 1000000).toNat =
      1000000 * ((microseconds + 999) / 1000).toNat % 2 ^ 32 := by
  rw [UInt32.toNat_mul, Nat.mul_comm]
  rfl

/-- What a wait that ends in time returns. -/
theorem returned_toNat (microseconds : UInt32) :
    ((microseconds + 999) / 1000 * 1000).toNat =
      1000 * ((microseconds + 999) / 1000).toNat := by
  have hms := targetMs_toNat microseconds
  rw [UInt32.toNat_mul]
  change _ * 1000 % 2 ^ 32 = _
  omega

/-! ## The law -/

section Law

variable {σ : Type} {register : StatusRegister σ} {bus : σ}

/-- A timeout comes after one poll more than the limit. -/
theorem Ends.polled_length {count limit : Nat} {ended : Exit × Wait σ}
    (h : Ends register bus count limit ended) (hexit : ended.1 = .timeout) :
    ended.2.polled.length = limit + 1 := by
  cases h with
  | done => contradiction
  | timeout => simp [afterPolls_polled]

/-- A loop that is not cut ends with the poll that completes the count. -/
theorem Ends.exists_polls {count limit : Nat} {ended : Exit × Wait σ}
    (h : Ends register bus count limit ended) (hexit : ended.1 = .done) :
    ∃ polls ≤ limit, ended.2 = afterPolls register bus polls ∧
      Nat.count (SeesTo register bus) polls = count ∧
      ∀ n < polls, Nat.count (SeesTo register bus) n < count := by
  cases h with
  | done hpolls hcount hfirst => exact ⟨_, hpolls, rfl, hcount, hfirst⟩
  | timeout => contradiction

/-- A wait that ends in time has seen TO as often as it should. -/
theorem Ends.countP_polled {count limit : Nat} {ended : Exit × Wait σ}
    (h : Ends register bus count limit ended) (hexit : ended.1 = .done) :
    ended.2.polled.countP seesTo = count := by
  rcases h.exists_polls hexit with ⟨polls, _, hended, hcount, _⟩
  rw [hended, KnightRiderLight.countP_polled, hcount]

/-- The watchdog ends the loop exactly when too few polls up to the limit see TO. -/
theorem Ends.exit_eq_timeout_iff {count limit : Nat} {ended : Exit × Wait σ}
    (h : Ends register bus count limit ended) :
    ended.1 = .timeout ↔ Nat.count (SeesTo register bus) limit < count := by
  cases h with
  | done hpolls hcount =>
    have hle := Nat.count_monotone (SeesTo register bus) hpolls
    constructor
    · intro hexit
      contradiction
    · intro hlt
      omega
  | timeout hcount => exact ⟨fun _ => hcount, fun _ => rfl⟩

end Law

/-- The law holds exactly when no word wraps, or only the limit of the watchdog does and
enough polls below it see TO. -/
theorem watchdogLaw_iff {σ : Type} (register : StatusRegister σ) (bus : σ)
    (microseconds : UInt32) :
    WatchdogLaw register bus microseconds ↔
      microseconds.toNat ≤ 4294000 ∨
        microseconds.toNat < 2 ^ 32 - 999 ∧
          periods microseconds ≤
            Nat.count (SeesTo register bus) (1000000 * periods microseconds % 2 ^ 32) := by
  rcases exists_timerWaitUs register microseconds bus with ⟨returned, hrun, hends, hvalue⟩
  have hlaw : WatchdogLaw register bus microseconds ↔
      (returned.exit = .timeout →
        1000000 * periods microseconds < returned.wait.polled.length) ∧
      (returned.exit = .done →
        returned.wait.polled.countP seesTo = periods microseconds) ∧
      microseconds.toNat ≤ returned.value.toNat := by
    constructor
    · rintro ⟨returned', hrun', hrest⟩
      cases hrun.symm.trans hrun'
      exact hrest
    · exact fun hrest => ⟨returned, hrun, hrest⟩
  rw [hlaw, hvalue, returned_toNat]
  rcases Nat.lt_or_ge microseconds.toNat (2 ^ 32 - 999) with hlt | hge
  · have hexit := hends.exit_eq_timeout_iff
    have hlength := hends.polled_length
    have hcount := hends.countP_polled
    rw [limit_toNat] at hexit hlength
    rw [targetMs_of_lt hlt] at hexit hlength hcount ⊢
    have hcovers : microseconds.toNat ≤ 1000 * periods microseconds := by
      rw [periods]
      omega
    have htimeout : (returned.exit = .timeout →
        1000000 * periods microseconds < returned.wait.polled.length) ↔
        microseconds.toNat ≤ 4294000 ∨ periods microseconds ≤
          Nat.count (SeesTo register bus) (1000000 * periods microseconds % 2 ^ 32) := by
      constructor
      · intro h
        by_contra hnot
        rw [not_or, Nat.not_le, Nat.not_le] at hnot
        have hcut := hexit.mpr hnot.2
        have hpolls := h hcut
        -- from 4295 milliseconds on the limit is below its exact value
        rw [hlength hcut] at hpolls
        have hmany : 4295 ≤ periods microseconds := by
          rw [periods]
          omega
        have hmod := Nat.mod_lt (1000000 * periods microseconds) (Nat.two_pow_pos 32)
        omega
      · rintro (hsmall | henough) hcut
        · have hfew : periods microseconds ≤ 4294 := by
            rw [periods]
            omega
          rw [hlength hcut, Nat.mod_eq_of_lt (by omega)]
          omega
        · exact absurd (hexit.mp hcut) (Nat.not_lt.mpr henough)
    rw [htimeout]
    constructor
    · rintro ⟨hwatchdog, _⟩
      exact hwatchdog.imp_right fun henough => ⟨hlt, henough⟩
    · rintro hwatchdog
      exact ⟨hwatchdog.imp_right And.right, hcount, hcovers⟩
  · rw [targetMs_of_ge hge]
    constructor
    · rintro ⟨_, _, hzero⟩
      omega
    · rintro (hsmall | ⟨hlt, _⟩)
      · omega
      · omega

/-! ## Sequences of status values -/

/-- A register whose reads answer a given sequence. -/
def scripted (status : Nat → UInt32) : StatusRegister Nat where
  iord n := (status n, n + 1)
  iowr n _ := n

theorem afterPolls_scripted (status : Nat → UInt32) (n : Nat) :
    (afterPolls (scripted status) 0 n).bus = n := by
  induction n with
  | zero => rfl
  | succ n ih =>
    rw [afterPolls_succ, poll_bus, ih, scripted, ite_self]

theorem statusAt_scripted (status : Nat → UInt32) (n : Nat) :
    statusAt (scripted status) 0 n = status n := by
  rw [statusAt, afterPolls_scripted]
  rfl

/-- The law for a sequence of status values, and for all of them. -/
theorem watchdog_iff (microseconds : UInt32) :
    (∀ status : Nat → UInt32,
      WatchdogLaw (scripted status) 0 microseconds ↔
        microseconds.toNat ≤ 4294000 ∨
          microseconds.toNat < 2 ^ 32 - 999 ∧
            periods microseconds ≤
              Nat.count (fun n => seesTo (status n) = true)
                (1000000 * periods microseconds % 2 ^ 32)) ∧
    ((∀ status : Nat → UInt32, WatchdogLaw (scripted status) 0 microseconds) ↔
      microseconds.toNat ≤ 4294000) := by
  have hsees : ∀ status : Nat → UInt32,
      SeesTo (scripted status) 0 = fun n => seesTo (status n) = true := by
    intro status
    funext n
    rw [SeesTo, statusAt_scripted]
  constructor
  · intro status
    rw [watchdogLaw_iff]
    simp only [hsees]
  · constructor
    · intro hall
      -- a dead timer
      rcases (watchdogLaw_iff _ _ microseconds).mp (hall fun _ => 0) with
        hsmall | ⟨_, henough⟩
      · exact hsmall
      · rw [Nat.count_of_forall_not (fun n _ => by simp [hsees, seesTo]), periods] at henough
        omega
    · intro hsmall status
      exact (watchdogLaw_iff _ _ microseconds).mpr (Or.inl hsmall)

/-- A dead timer ends a wait of 4294001 microseconds after 32705 polls, and a wait of
{lit}`2^32 - 1` microseconds returns zero without a poll. -/
theorem not_watchdogLaw_of_wrap :
    ¬ WatchdogLaw (scripted fun _ => 0) 0 4294001 ∧
      ¬ WatchdogLaw (scripted fun _ => 1) 0 4294967295 := by
  constructor
  · rw [watchdogLaw_iff, Nat.count_of_forall_not
      (fun n _ => by simp [SeesTo, statusAt_scripted, seesTo])]
    decide
  · rw [watchdogLaw_iff]
    rintro (hsmall | ⟨hlt, _⟩)
    · exact absurd hsmall (by decide)
    · exact absurd hlt (by decide)

end KnightRiderLight
end RadonMCU
