import Mathlib.Data.List.Basic
import Mathlib.Data.Nat.ModEq
import Mathlib.Logic.Function.Basic

/-!
# Bounded FIFO queues and circular windows

The abstract queue is a list with a proof that it fits its capacity.  A circular
window reads {lit}`n` cells of an array from a start index, wrapping at the
capacity; it is the list that a ring buffer stores.

Main results:

- Theorem {lit}`window_succ`: the window grows at its end by the cell after it.
- Theorem {lit}`window_cons`: the window shrinks at its front when the start
  index advances.
- Theorem {lit}`window_update`: writing the cell after a window that is not full
  leaves the window unchanged, at every wrap position.
-/

variable {α : Type*}

/-- A FIFO queue of at most {lit}`cap` elements, oldest first. -/
structure BoundedFifo (α : Type*) (cap : Nat) where
  items : List α
  length_le : items.length ≤ cap

namespace BoundedFifo

variable {cap : Nat}

@[ext] theorem ext {q q' : BoundedFifo α cap} (h : q.items = q'.items) : q = q' := by
  cases q
  cases q'
  cases h
  rfl

/-- The queue without elements. -/
def empty : BoundedFifo α cap := ⟨[], Nat.zero_le _⟩

/-- Append an element, or refuse it when the queue is full. -/
def push (q : BoundedFifo α cap) (x : α) : Bool × BoundedFifo α cap :=
  if h : q.items.length < cap then (true, ⟨q.items ++ [x], by simpa using Nat.succ_le_of_lt h⟩)
  else (false, q)

/-- Remove the oldest element. -/
def pop (q : BoundedFifo α cap) : Option (α × BoundedFifo α cap) :=
  match h : q.items with
  | [] => none
  | x :: xs => some (x, ⟨xs, by have hle := q.length_le; rw [h, List.length_cons] at hle; omega⟩)

def size (q : BoundedFifo α cap) : Nat := q.items.length

def isEmpty (q : BoundedFifo α cap) : Bool := q.items.isEmpty

def isFull (q : BoundedFifo α cap) : Bool := decide (q.items.length = cap)

theorem push_of_lt {q : BoundedFifo α cap} (x : α) (h : q.items.length < cap) :
    ∃ q', q.push x = (true, q') ∧ q'.items = q.items ++ [x] := by
  rw [push, dif_pos h]
  exact ⟨_, rfl, rfl⟩

theorem push_of_not_lt {q : BoundedFifo α cap} (x : α) (h : ¬ q.items.length < cap) :
    q.push x = (false, q) := by
  simp [push, h]

theorem pop_of_nil {q : BoundedFifo α cap} (h : q.items = []) : q.pop = none := by
  unfold pop
  split
  · rfl
  · rename_i hcons
    rw [h] at hcons
    contradiction

theorem pop_of_cons {q : BoundedFifo α cap} {x : α} {xs : List α} (h : q.items = x :: xs) :
    ∃ q', q.pop = some (x, q') ∧ q'.items = xs := by
  unfold pop
  split
  · rename_i hnil
    rw [h] at hnil
    contradiction
  · rename_i y ys hcons
    rw [h, List.cons.injEq] at hcons
    obtain ⟨rfl, rfl⟩ := hcons
    exact ⟨_, rfl, rfl⟩

/-! ## Circular windows -/

/-- The {lit}`n` cells from index {lit}`start` on, wrapping at {lit}`cap`. -/
def window (cells : Nat → α) (cap start n : Nat) : List α :=
  (List.range n).map fun i => cells ((start + i) % cap)

section Window

variable (cells : Nat → α) (cap start n : Nat)

@[simp] theorem window_length : (window cells cap start n).length = n := by
  simp [window]

@[simp] theorem window_zero : window cells cap start 0 = [] := rfl

/-- The window grows at its end by the cell after it. -/
theorem window_succ :
    window cells cap start (n + 1) =
      window cells cap start n ++ [cells ((start + n) % cap)] := by
  simp [window, List.range_succ]

/-- The window shrinks at its front when the start index advances. -/
theorem window_cons :
    window cells cap start (n + 1) =
      cells (start % cap) :: window cells cap ((start + 1) % cap) n := by
  simp only [window, List.range_succ_eq_map, List.map_cons, List.map_map, Nat.add_zero]
  congr 1
  apply List.map_congr_left
  intro i _
  simp only [Function.comp_apply, Nat.mod_add_mod]
  congr 2
  omega

/-- A window is one of its beginnings and the window after it. -/
theorem window_append (m : Nat) :
    window cells cap start (m + n) =
      window cells cap start m ++ window cells cap ((start + m) % cap) n := by
  simp only [window, List.range_add, List.map_append, List.map_map]
  congr 1
  apply List.map_congr_left
  intro i _
  rw [Function.comp_apply, Nat.mod_add_mod, Nat.add_assoc]

/-- Distinct offsets below the capacity reach distinct cells. -/
theorem offset_ne {cap start i n : Nat} (hi : i < n) (hn : n < cap) :
    (start + i) % cap ≠ (start + n) % cap := by
  intro heq
  have hmod : i % cap = n % cap := Nat.ModEq.add_left_cancel' start heq
  rw [Nat.mod_eq_of_lt (Nat.lt_trans hi hn), Nat.mod_eq_of_lt hn] at hmod
  omega

/-- Writing the cell after a window that is not full leaves the window. -/
theorem window_update {cap n : Nat} (hn : n < cap) (x : α) :
    window (Function.update cells ((start + n) % cap) x) cap start n =
      window cells cap start n := by
  apply List.map_congr_left
  intro i hi
  exact Function.update_of_ne (offset_ne (List.mem_range.mp hi) hn) _ _

end Window

end BoundedFifo
