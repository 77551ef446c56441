import RadonMCU.Foundations.BoundedFifo

/-!
# Rings with an input and an output index

A ring without a count: the cells from the output index up to the input index are
stored, and one cell always stays free, so that equal indices mean an empty ring.  The
producer moves the input index and the consumer the output index; each of them may work
with an old value of the other's index.

Main results:

- Theorem {lit}`contents_cons`: the consumer takes the cell at the output index.
- Theorem {lit}`contents_advance`: the producer appends the cells it passes.
- Theorem {lit}`freeRun_spec`: the cells the producer may fill at once, as the usual
  three-way comparison computes them.
- Theorem {lit}`filledRun_spec`: the same for the consumer.
-/

namespace IndexRing

open BoundedFifo

variable {α : Type*} {cells : Nat → α} {cap inIdx outIdx : Nat}

/-- The number of stored cells. -/
def used (cap inIdx outIdx : Nat) : Nat := (inIdx + cap - outIdx) % cap

/-- The stored cells, oldest first. -/
def contents (cells : Nat → α) (cap inIdx outIdx : Nat) : List α :=
  window cells cap outIdx (used cap inIdx outIdx)

@[simp] theorem contents_length :
    (contents cells cap inIdx outIdx).length = used cap inIdx outIdx :=
  window_length _ _ _ _

theorem used_lt (hin : inIdx < cap) : used cap inIdx outIdx < cap :=
  Nat.mod_lt _ (Nat.zero_lt_of_lt hin)

theorem used_of_le (hin : inIdx < cap) (hle : outIdx ≤ inIdx) :
    used cap inIdx outIdx = inIdx - outIdx := by
  rw [used, Nat.add_comm, Nat.add_sub_assoc hle, Nat.add_mod_left, Nat.mod_eq_of_lt (by omega)]

theorem used_of_lt (hout : outIdx < cap) (hlt : inIdx < outIdx) :
    used cap inIdx outIdx = inIdx + cap - outIdx :=
  Nat.mod_eq_of_lt (by omega)

@[simp] theorem used_self (hin : inIdx < cap) : used cap inIdx inIdx = 0 := by
  rw [used_of_le hin (Nat.le_refl _), Nat.sub_self]

/-- Equal indices mean an empty ring. -/
theorem used_eq_zero_iff (hin : inIdx < cap) (hout : outIdx < cap) :
    used cap inIdx outIdx = 0 ↔ inIdx = outIdx := by
  rcases Nat.lt_or_ge inIdx outIdx with hlt | hle
  · rw [used_of_lt hout hlt]
    omega
  · rw [used_of_le hin hle]
    omega

theorem contents_eq_nil_iff (hin : inIdx < cap) (hout : outIdx < cap) :
    contents cells cap inIdx outIdx = [] ↔ inIdx = outIdx := by
  rw [← List.length_eq_zero_iff, contents_length, used_eq_zero_iff hin hout]

/-- The input index is where the stored cells end. -/
theorem in_eq (hin : inIdx < cap) (hout : outIdx < cap) :
    (outIdx + used cap inIdx outIdx) % cap = inIdx := by
  rcases Nat.lt_or_ge inIdx outIdx with hlt | hle
  · rw [used_of_lt hout hlt, Nat.add_sub_cancel' (by omega), Nat.add_mod_right,
      Nat.mod_eq_of_lt hin]
  · rw [used_of_le hin hle, Nat.add_sub_cancel' hle, Nat.mod_eq_of_lt hin]

/-! ## The consumer -/

theorem used_next (hin : inIdx < cap) (hout : outIdx < cap) (hne : inIdx ≠ outIdx) :
    used cap inIdx ((outIdx + 1) % cap) + 1 = used cap inIdx outIdx := by
  rcases Nat.lt_or_ge (outIdx + 1) cap with hnext | hwrap
  · rw [Nat.mod_eq_of_lt hnext]
    rcases Nat.lt_or_ge inIdx outIdx with hlt | hle
    · rw [used_of_lt hout hlt, used_of_lt hnext (by omega)]
      omega
    · rw [used_of_le hin hle, used_of_le hin (by omega)]
      omega
  · have hlast : outIdx + 1 = cap := by omega
    rw [hlast, Nat.mod_self, used_of_le hin (Nat.zero_le _), used_of_lt hout (by omega)]
    omega

/-- The consumer takes the cell at the output index. -/
theorem contents_cons (cells : Nat → α) (hin : inIdx < cap) (hout : outIdx < cap)
    (hne : inIdx ≠ outIdx) :
    contents cells cap inIdx outIdx =
      cells outIdx :: contents cells cap inIdx ((outIdx + 1) % cap) := by
  rw [contents, ← used_next hin hout hne, window_cons, Nat.mod_eq_of_lt hout, contents]

theorem used_drop {n : Nat} (hin : inIdx < cap) (hout : outIdx < cap)
    (hn : n ≤ used cap inIdx outIdx) :
    used cap inIdx ((outIdx + n) % cap) = used cap inIdx outIdx - n := by
  induction n with
  | zero => rw [Nat.add_zero, Nat.mod_eq_of_lt hout, Nat.sub_zero]
  | succ n ih =>
    have hcap : 0 < cap := Nat.zero_lt_of_lt hin
    have hprev := ih (by omega)
    have hne : inIdx ≠ (outIdx + n) % cap := by
      intro heq
      rw [← heq, used_self hin] at hprev
      omega
    have hstep := used_next hin (Nat.mod_lt (outIdx + n) hcap) hne
    rw [Nat.mod_add_mod, Nat.add_assoc] at hstep
    omega

/-- The consumer takes several cells at once. -/
theorem contents_append {n : Nat} (cells : Nat → α) (hin : inIdx < cap)
    (hout : outIdx < cap) (hn : n ≤ used cap inIdx outIdx) :
    contents cells cap inIdx outIdx =
      window cells cap outIdx n ++ contents cells cap inIdx ((outIdx + n) % cap) := by
  rw [contents, contents, used_drop hin hout hn, ← window_append, Nat.add_sub_cancel' hn]

/-- The oldest cells. -/
theorem contents_take {n : Nat} (hin : inIdx < cap) (hout : outIdx < cap)
    (hn : n ≤ used cap inIdx outIdx) :
    (contents cells cap inIdx outIdx).take n = window cells cap outIdx n := by
  rw [contents_append cells hin hout hn, List.take_left' (window_length _ _ _ _)]

/-! ## The producer -/

theorem used_advance {n : Nat} (hin : inIdx < cap) (hout : outIdx < cap)
    (hn : used cap inIdx outIdx + n < cap) :
    used cap ((inIdx + n) % cap) outIdx = used cap inIdx outIdx + n := by
  rcases Nat.lt_or_ge inIdx outIdx with hlt | hle
  · rw [used_of_lt hout hlt] at hn ⊢
    rw [Nat.mod_eq_of_lt (by omega), used_of_lt hout (by omega)]
    omega
  · rw [used_of_le hin hle] at hn ⊢
    rcases Nat.lt_or_ge (inIdx + n) cap with hbelow | habove
    · rw [Nat.mod_eq_of_lt hbelow, used_of_le hbelow (by omega)]
      omega
    · rw [Nat.mod_eq_sub_mod habove, Nat.mod_eq_of_lt (by omega), used_of_lt hout (by omega)]
      omega

/-- The producer appends the cells it passes. -/
theorem contents_advance {n : Nat} (cells : Nat → α) (hin : inIdx < cap)
    (hout : outIdx < cap) (hn : used cap inIdx outIdx + n < cap) :
    contents cells cap ((inIdx + n) % cap) outIdx =
      contents cells cap inIdx outIdx ++ window cells cap inIdx n := by
  rw [contents, used_advance hin hout hn, window_append, in_eq hin hout, contents]

/-- A cell that is not stored may be written. -/
theorem contents_update {n : Nat} (cells : Nat → α) (hin : inIdx < cap)
    (hout : outIdx < cap) (hn : used cap inIdx outIdx + n < cap) (x : α) :
    contents (Function.update cells ((inIdx + n) % cap) x) cap inIdx outIdx =
      contents cells cap inIdx outIdx := by
  apply List.map_congr_left
  intro i hi
  have hcell : (inIdx + n) % cap = (outIdx + (used cap inIdx outIdx + n)) % cap := by
    rw [← Nat.add_assoc, ← Nat.mod_add_mod (outIdx + _), in_eq hin hout]
  rw [hcell]
  exact Function.update_of_ne
    (offset_ne (Nat.lt_of_lt_of_le (List.mem_range.mp hi) (Nat.le_add_right _ _)) hn) _ _

/-- The producer stores an element in the cell at the input index and passes it. -/
theorem contents_push (cells : Nat → α) (hin : inIdx < cap) (hout : outIdx < cap)
    (hn : used cap inIdx outIdx + 1 < cap) (x : α) :
    contents (Function.update cells inIdx x) cap ((inIdx + 1) % cap) outIdx =
      contents cells cap inIdx outIdx ++ [x] := by
  have hkeep := contents_update (n := 0) cells hin hout (by omega) x
  rw [Nat.add_zero, Nat.mod_eq_of_lt hin] at hkeep
  rw [contents_advance _ hin hout hn, hkeep, window_succ, window_zero, List.nil_append,
    Nat.add_zero, Nat.mod_eq_of_lt hin, Function.update_self]

/-! ## Runs of cells without a wrap -/

/-- A run of cells that does not wrap. -/
theorem window_run {n : Nat} (hend : inIdx + n ≤ cap) :
    window cells cap inIdx n = (List.range n).map fun i => cells (inIdx + i) := by
  apply List.map_congr_left
  intro i hi
  rw [Nat.mod_eq_of_lt (by have := List.mem_range.mp hi; omega)]

/-- The cells the producer may fill without a wrap, one always staying free. -/
def freeRun (cap inIdx outIdx : Nat) : Nat :=
  if inIdx < outIdx then outIdx - 1 - inIdx
  else if outIdx > 0 then cap - inIdx
  else cap - 1 - inIdx

/-- The free run fits, ends before the wrap, and is empty only in a full ring. -/
theorem freeRun_spec (hin : inIdx < cap) (hout : outIdx < cap) :
    used cap inIdx outIdx + freeRun cap inIdx outIdx < cap ∧
      inIdx + freeRun cap inIdx outIdx ≤ cap ∧
      (freeRun cap inIdx outIdx = 0 ↔ used cap inIdx outIdx = cap - 1) := by
  unfold freeRun
  rcases Nat.lt_or_ge inIdx outIdx with hlt | hle
  · rw [used_of_lt hout hlt, if_pos hlt]
    omega
  · rw [used_of_le hin hle, if_neg (Nat.not_lt.mpr hle)]
    split <;> omega

/-- The cells the consumer may take without a wrap. -/
def filledRun (cap inIdx outIdx : Nat) : Nat :=
  if inIdx ≥ outIdx then inIdx - outIdx else cap - outIdx

/-- The filled run is stored, ends before the wrap, and is empty only in an empty
ring. -/
theorem filledRun_spec (hin : inIdx < cap) (hout : outIdx < cap) :
    filledRun cap inIdx outIdx ≤ used cap inIdx outIdx ∧
      outIdx + filledRun cap inIdx outIdx ≤ cap ∧
      (filledRun cap inIdx outIdx = 0 ↔ inIdx = outIdx) := by
  unfold filledRun
  rcases Nat.lt_or_ge inIdx outIdx with hlt | hle
  · rw [used_of_lt hout hlt, if_neg (Nat.not_le.mpr hlt)]
    omega
  · rw [used_of_le hin hle, if_pos hle]
    omega

/-- The ring is full when the next input index is the output index. -/
theorem next_eq_iff (hin : inIdx < cap) (hout : outIdx < cap) :
    (inIdx + 1) % cap = outIdx ↔ used cap inIdx outIdx = cap - 1 := by
  rcases Nat.lt_or_ge (inIdx + 1) cap with hnext | hwrap
  · rw [Nat.mod_eq_of_lt hnext]
    rcases Nat.lt_or_ge inIdx outIdx with hlt | hle
    · rw [used_of_lt hout hlt]
      omega
    · rw [used_of_le hin hle]
      omega
  · have hlast : inIdx + 1 = cap := by omega
    rw [hlast, Nat.mod_self, used_of_le hin (by omega)]
    omega

end IndexRing
