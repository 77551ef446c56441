import Mathlib.Data.Nat.Count
import Mathlib.Logic.Function.Iterate

/-!
# The polling loop of timer_wait_us

{lit}`timer_wait_us` of {lit}`KnightRiderLight.c` polls the status register of
{lit}`TIMER_0`, counts the polls that see its TO bit and gives up after a number of
polls.  The register is a parameter: what a read answers and what a write does are
those of the hardware behind the bus.  The messages the function prints are left out.

The counters of the code are 32-bit words, and so is the limit of its watchdog.  The
polled values are kept for the statements about them; no function reads them.

Main results:

- Theorem {lit}`limit_toNat_lt`: no argument makes the limit the largest word, so the
  iteration counter can pass it.
- Theorem {lit}`exists_timerWaitUs`: the loop ends on every argument and every register,
  after the first poll that completes the count or after one poll more than the limit.
-/

namespace RadonMCU
namespace KnightRiderLight

/-! ## The code -/

/-- {lit}`ALTERA_AVALON_TIMER_STATUS_TO_MSK`. -/
def timerStatusToMsk : UInt32 := 1

/-- The status register of {lit}`TIMER_0` behind the bus:
{lit}`IORD_ALTERA_AVALON_TIMER_STATUS` and {lit}`IOWR_ALTERA_AVALON_TIMER_STATUS`. -/
structure StatusRegister (σ : Type) where
  iord : σ → UInt32 × σ
  iowr : σ → UInt32 → σ

/-- The locals of the loop, what is behind the bus, and the values polled so far. -/
structure Wait (σ : Type) where
  msCount : UInt32
  iterationCount : UInt32
  bus : σ
  polled : List UInt32

/-- How the loop is left. -/
inductive Exit where
  | done
  | timeout
deriving DecidableEq, Repr

/-- How a wait ends, and what it returns. -/
structure Returned (σ : Type) where
  exit : Exit
  wait : Wait σ
  value : UInt32

/-- The status word has the TO bit set. -/
def seesTo (status : UInt32) : Bool := status &&& timerStatusToMsk != 0

section Code

variable {σ : Type} (register : StatusRegister σ)

/-- The body of the loop up to the test of the watchdog. -/
def poll (w : Wait σ) : Wait σ :=
  let status := register.iord w.bus
  let w := { w with bus := status.2, polled := w.polled ++ [status.1] }
  let w :=
    if seesTo status.1 then
      { w with bus := register.iowr w.bus 0, msCount := w.msCount + 1 }
    else w
  { w with iterationCount := w.iterationCount + 1 }

section Poll

variable (w : Wait σ)

/-- A poll reads the status once. -/
@[simp] theorem poll_polled :
    (poll register w).polled = w.polled ++ [(register.iord w.bus).1] := by
  unfold poll
  dsimp only
  split <;> rfl

/-- A poll is counted. -/
@[simp] theorem poll_iterationCount :
    (poll register w).iterationCount = w.iterationCount + 1 := by
  unfold poll
  dsimp only
  split <;> rfl

/-- A status with TO counts a millisecond. -/
theorem poll_msCount :
    (poll register w).msCount =
      if seesTo (register.iord w.bus).1 then w.msCount + 1 else w.msCount := by
  unfold poll
  dsimp only
  split <;> rfl

/-- A status with TO is cleared. -/
theorem poll_bus :
    (poll register w).bus =
      if seesTo (register.iord w.bus).1 then register.iowr (register.iord w.bus).2 0
      else (register.iord w.bus).2 := by
  unfold poll
  dsimp only
  split <;> rfl

end Poll

/-- The loop; {lit}`none` when it takes more turns than allowed here. -/
def timerWaitLoop (targetMs : UInt32) : Nat → Wait σ → Option (Exit × Wait σ)
  | 0, _ => none
  | turns + 1, w =>
    if w.msCount < targetMs then
      let w := poll register w
      if w.iterationCount > targetMs * 1000000 then some (.timeout, w)
      else timerWaitLoop targetMs turns w
    else some (.done, w)

/-- {lit}`timer_wait_us`, with one turn more than the limit of its watchdog. -/
def timerWaitUs (microseconds : UInt32) (bus : σ) : Option (Returned σ) :=
  let targetMs := (microseconds + 999) / 1000
  let limit := targetMs * 1000000
  let start : Wait σ := { msCount := 0, iterationCount := 0, bus, polled := [] }
  (timerWaitLoop register targetMs (limit.toNat + 1) start).map fun ended =>
    { exit := ended.1, wait := ended.2, value := targetMs * 1000 }

end Code

/-! ## The sequence of polls -/

section Polls

variable {σ : Type} (register : StatusRegister σ) (bus : σ)

/-- The state after some polls. -/
def afterPolls (n : Nat) : Wait σ :=
  (poll register)^[n] { msCount := 0, iterationCount := 0, bus, polled := [] }

/-- The value the poll of this number reads. -/
def statusAt (n : Nat) : UInt32 := (register.iord (afterPolls register bus n).bus).1

/-- The poll of this number sees TO. -/
def SeesTo (n : Nat) : Prop := seesTo (statusAt register bus n) = true

instance : DecidablePred (SeesTo register bus) :=
  fun n => inferInstanceAs (Decidable (seesTo (statusAt register bus n) = true))

/-- One more poll. -/
theorem afterPolls_succ (n : Nat) :
    afterPolls register bus (n + 1) = poll register (afterPolls register bus n) :=
  Function.iterate_succ_apply' _ _ _

/-- The statuses that some polls have read. -/
theorem afterPolls_polled (n : Nat) :
    (afterPolls register bus n).polled = (List.range n).map (statusAt register bus) := by
  induction n with
  | zero => rfl
  | succ n ih =>
    rw [afterPolls_succ, poll_polled, ih, List.range_succ, List.map_append]
    rfl

/-- The number of some polls. -/
theorem afterPolls_iterationCount (n : Nat) :
    (afterPolls register bus n).iterationCount = UInt32.ofNat n := by
  induction n with
  | zero => rfl
  | succ n ih =>
    rw [afterPolls_succ, poll_iterationCount, ih, UInt32.ofNat_add]
    rfl

/-- The counter counts the polls that saw TO, modulo {lit}`2^32`. -/
theorem afterPolls_msCount (n : Nat) :
    (afterPolls register bus n).msCount =
      UInt32.ofNat (Nat.count (SeesTo register bus) n) := by
  induction n with
  | zero => rfl
  | succ n ih =>
    rw [afterPolls_succ, poll_msCount, ih, Nat.count_succ]
    by_cases hsees : SeesTo register bus n
    · have hread : seesTo (register.iord (afterPolls register bus n).bus).1 = true := hsees
      rw [if_pos hread, if_pos hsees, UInt32.ofNat_add]
      rfl
    · have hread : ¬ seesTo (register.iord (afterPolls register bus n).bus).1 = true := hsees
      rw [if_neg hread, if_neg hsees, Nat.add_zero]

/-- The statuses with TO among them. -/
theorem countP_polled (n : Nat) :
    (afterPolls register bus n).polled.countP seesTo =
      Nat.count (SeesTo register bus) n := by
  induction n with
  | zero => rfl
  | succ n ih =>
    rw [afterPolls_succ, poll_polled, List.countP_append, ih, Nat.count_succ]
    congr 1
    exact List.countP_singleton

/-! ## The end of the loop -/

/-- How the loop ends that needs this count and has this limit: with the poll that
completes the count, or with the first poll above the limit. -/
inductive Ends (count limit : Nat) : Exit × Wait σ → Prop
  | done {polls : Nat} (hpolls : polls ≤ limit)
      (hcount : Nat.count (SeesTo register bus) polls = count)
      (hfirst : ∀ n < polls, Nat.count (SeesTo register bus) n < count) :
      Ends count limit (.done, afterPolls register bus polls)
  | timeout (hcount : Nat.count (SeesTo register bus) limit < count) :
      Ends count limit (.timeout, afterPolls register bus (limit + 1))

/-- The milliseconds counted, below the wrap of the counter. -/
theorem afterPolls_msCount_toNat {n : Nat} (hn : n < 2 ^ 32) :
    (afterPolls register bus n).msCount.toNat = Nat.count (SeesTo register bus) n := by
  rw [afterPolls_msCount, UInt32.toNat_ofNat_of_lt']
  exact Nat.lt_of_le_of_lt (Nat.count_le _) hn

/-- The polls counted, below the wrap of the counter. -/
theorem afterPolls_iterationCount_toNat {n : Nat} (hn : n < 2 ^ 32) :
    (afterPolls register bus n).iterationCount.toNat = n := by
  rw [afterPolls_iterationCount, UInt32.toNat_ofNat_of_lt' hn]

/-- From a poll on the loop ends, if the limit is not the largest word. -/
theorem exists_timerWaitLoop {targetMs : UInt32}
    (hlimit : (targetMs * 1000000).toNat < 2 ^ 32 - 1) {turns n : Nat}
    (hturns : n + turns = (targetMs * 1000000).toNat + 1) (hpos : 0 < turns)
    (hbefore : ∀ i < n, Nat.count (SeesTo register bus) i < targetMs.toNat)
    (hcount : Nat.count (SeesTo register bus) n ≤ targetMs.toNat) :
    ∃ ended, timerWaitLoop register targetMs turns (afterPolls register bus n) = some ended ∧
      Ends register bus targetMs.toNat (targetMs * 1000000).toNat ended := by
  induction turns generalizing n with
  | zero => contradiction
  | succ turns ih =>
    have hms := afterPolls_msCount_toNat register bus (show n < 2 ^ 32 by omega)
    have hiteration := afterPolls_iterationCount_toNat register bus
      (show n + 1 < 2 ^ 32 by omega)
    rw [timerWaitLoop]
    by_cases hlt : Nat.count (SeesTo register bus) n < targetMs.toNat
    · rw [if_pos (UInt32.lt_iff_toNat_lt.mpr (by rw [hms]; exact hlt)), ← afterPolls_succ]
      simp only [gt_iff_lt, UInt32.lt_iff_toNat_lt, hiteration]
      by_cases hlast : (targetMs * 1000000).toNat < n + 1
      · have hn : n = (targetMs * 1000000).toNat := by omega
        rw [if_pos hlast]
        refine ⟨_, rfl, ?_⟩
        rw [hn]
        exact .timeout (hn ▸ hlt)
      · rw [if_neg hlast]
        apply ih
        · omega
        · omega
        · intro i hi
          rcases Nat.lt_succ_iff_lt_or_eq.mp hi with hbelow | rfl
          · exact hbefore i hbelow
          · exact hlt
        · rw [Nat.count_succ]
          split <;> omega
    · rw [if_neg (fun h => hlt (by rw [← hms]; exact UInt32.lt_iff_toNat_lt.mp h))]
      exact ⟨_, rfl, .done (by omega) (by omega) hbefore⟩

end Polls

/-- The limit is a multiple of 64, so it is not the largest word. -/
theorem limit_toNat_lt (targetMs : UInt32) :
    (targetMs * 1000000).toNat < 2 ^ 32 - 1 := by
  rw [UInt32.toNat_mul]
  change targetMs.toNat * 1000000 % 2 ^ 32 < 2 ^ 32 - 1
  omega

/-- The loop ends on every argument and every register. -/
theorem exists_timerWaitUs {σ : Type} (register : StatusRegister σ) (microseconds : UInt32)
    (bus : σ) :
    ∃ returned, timerWaitUs register microseconds bus = some returned ∧
      Ends register bus ((microseconds + 999) / 1000).toNat
        ((microseconds + 999) / 1000 * 1000000).toNat (returned.exit, returned.wait) ∧
      returned.value = (microseconds + 999) / 1000 * 1000 := by
  have hlimit := limit_toNat_lt ((microseconds + 999) / 1000)
  rcases exists_timerWaitLoop register bus hlimit (Nat.zero_add _) (Nat.succ_pos _)
    (fun i hi => absurd hi (Nat.not_lt_zero i)) (Nat.zero_le _) with ⟨ended, hloop, hends⟩
  refine ⟨{ exit := ended.1, wait := ended.2, value := (microseconds + 999) / 1000 * 1000 },
    ?_, hends, rfl⟩
  rw [timerWaitUs]
  exact congrArg (Option.map _) hloop

end KnightRiderLight
end RadonMCU
