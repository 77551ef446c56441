import Mathlib.Order.Monotone.Basic
import Mathlib.Data.Set.Function

/-!
# A sticky latch and its polls

Events happen at ticks after a start.  Each of them sets a latch, which stays set until
it is polled; a poll that finds it set clears it.  So a poll sees the latch set when an
event happened since the poll before it, however many there were, and the first poll
also sees a latch that was set at the start.

Main results:

- Theorem {lit}`exists_witness`: polls that see the latch are witnessed by distinct
  events, each between a poll and the one before it, unless the first poll sees no more
  than the latch of the start.
-/

namespace StickyLatch

variable (event : Nat → Prop) (time : Nat → Nat) (latched : Bool)

/-- The poll of this number sees the latch set. -/
def Sees : Nat → Prop
  | 0 => latched = true ∨ ∃ r ≤ time 0, 0 < r ∧ event r
  | n + 1 => ∃ r ≤ time (n + 1), time n < r ∧ event r

instance [DecidablePred event] : DecidablePred (Sees event time latched)
  | 0 => inferInstanceAs (Decidable (latched = true ∨ ∃ r ≤ time 0, 0 < r ∧ event r))
  | n + 1 => inferInstanceAs (Decidable (∃ r ≤ time (n + 1), time n < r ∧ event r))

/-- The event is one the poll of this number can have seen. -/
def Since (r : Nat) : Nat → Prop
  | 0 => r ≤ time 0 ∧ 0 < r ∧ event r
  | n + 1 => r ≤ time (n + 1) ∧ time n < r ∧ event r

variable {event time latched}

theorem Since.le {r n : Nat} (h : Since event time r n) : r ≤ time n := by
  cases n <;> exact h.1

theorem Since.holds {r n : Nat} (h : Since event time r n) : event r := by
  cases n <;> exact h.2.2

theorem Since.pos {r n : Nat} (h : Since event time r n) : 0 < r := by
  cases n with
  | zero => exact h.2.1
  | succ n => exact Nat.zero_lt_of_lt h.2.1

/-- Events seen by different polls are in the order of the polls. -/
theorem Since.lt {r r' n n' : Nat} (htime : Monotone time) (h : Since event time r n)
    (h' : Since event time r' n') (hlt : n < n') : r < r' := by
  cases n' with
  | zero => contradiction
  | succ n' =>
    have hle := htime (Nat.le_of_lt_succ hlt)
    exact Nat.lt_of_le_of_lt (h.le.trans hle) h'.2.1

theorem exists_since {n : Nat} (hstart : latched = true → ∃ r ≤ time 0, 0 < r ∧ event r)
    (h : Sees event time latched n) : ∃ r, Since event time r n := by
  cases n with
  | zero => exact h.elim hstart id
  | succ n => exact h

/-- Distinct events witness the polls that see the latch. -/
theorem exists_witness (htime : Monotone time)
    (hstart : latched = true → ∃ r ≤ time 0, 0 < r ∧ event r) :
    ∃ witness : Nat → Nat, Set.InjOn witness {n | Sees event time latched n} ∧
      ∀ n, Sees event time latched n → event (witness n) ∧ 0 < witness n ∧
        witness n ≤ time n := by
  classical
  have hchoice : ∀ n, ∃ r, Sees event time latched n → Since event time r n := by
    intro n
    by_cases h : Sees event time latched n
    · exact (exists_since hstart h).imp fun _ hr _ => hr
    · exact ⟨0, fun hsees => absurd hsees h⟩
  choose witness hwitness using hchoice
  refine ⟨witness, ?_, fun n h => ⟨(hwitness n h).holds, (hwitness n h).pos, (hwitness n h).le⟩⟩
  intro n hn n' hn' heq
  rcases Nat.lt_trichotomy n n' with hlt | rfl | hgt
  · exact absurd heq (Nat.ne_of_lt ((hwitness n hn).lt htime (hwitness n' hn') hlt))
  · rfl
  · exact absurd heq.symm (Nat.ne_of_lt ((hwitness n' hn').lt htime (hwitness n hn) hgt))

end StickyLatch
