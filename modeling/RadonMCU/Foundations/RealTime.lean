import Mathlib.Data.List.Perm.Basic

/-!
# Sequential orders that respect real time

Operations start and return at times of one clock.  A sequential order of them
respects real time if no operation stands before one that returned before it
started.  The order is built along a run: an operation is put at its end at some
point between its start and its return.

Main results:

- Theorem {lit}`Linearizes.point`: an operation that has not returned may be put at
  the end of the order.
- Theorem {lit}`Linearizes.returns`: the return of an operation in the order keeps the
  order.
-/

namespace RealTime

variable {ω : Type*} (started : ω → Nat)

/-- The operation {lit}`a` returned before {lit}`b` started. -/
def Precedes (returned : List (ω × Nat)) (a b : ω) : Prop :=
  ∃ entry ∈ returned, entry.1 = a ∧ entry.2 < started b

instance [DecidableEq ω] (returned : List (ω × Nat)) (a b : ω) :
    Decidable (Precedes started returned a b) :=
  inferInstanceAs (Decidable (∃ entry ∈ returned, _))

/-- The order never contradicts real time. -/
def Respects (returned : List (ω × Nat)) (order : List ω) : Prop :=
  order.Pairwise fun a b => ¬ Precedes started returned b a

instance [DecidableEq ω] (returned : List (ω × Nat)) (order : List ω) :
    Decidable (Respects started returned order) :=
  inferInstanceAs (Decidable (List.Pairwise _ _))

/-- The order holds the operations that returned and some that have not, and respects
real time. -/
structure Linearizes (returned : List (ω × Nat)) (pending order : List ω) : Prop where
  perm : order.Perm (returned.map Prod.fst ++ pending)
  respects : Respects started returned order

variable {started} {returned : List (ω × Nat)} {pending order : List ω} {op : ω} {now : Nat}

theorem linearizes_nil : Linearizes started [] [] [] :=
  ⟨List.Perm.nil, List.Pairwise.nil⟩

theorem Precedes.mem {a b : ω} (h : Precedes started returned a b) :
    a ∈ returned.map Prod.fst := by
  rcases h with ⟨entry, hentry, rfl, _⟩
  exact List.mem_map_of_mem hentry

/-- An operation that has not returned precedes none. -/
theorem Respects.concat (h : Respects started returned order)
    (hop : op ∉ returned.map Prod.fst) : Respects started returned (order ++ [op]) := by
  unfold Respects
  rw [List.pairwise_append]
  refine ⟨h, List.pairwise_singleton _ _, ?_⟩
  intro a _ b hb hprecedes
  rw [List.mem_singleton.mp hb] at hprecedes
  exact hop hprecedes.mem

/-- An operation that returns now precedes none that has started. -/
theorem Respects.returns (h : Respects started returned order)
    (hstarted : ∀ a ∈ order, started a ≤ now) :
    Respects started (returned ++ [(op, now)]) order := by
  apply List.Pairwise.imp_of_mem _ h
  rintro a b ha _ hab ⟨entry, hentry, hfst, hlt⟩
  rcases List.mem_append.mp hentry with hold | hnew
  · exact hab ⟨entry, hold, hfst, hlt⟩
  · rw [List.mem_singleton.mp hnew] at hlt
    exact absurd (hstarted a ha) (Nat.not_le.mpr hlt)

/-- An operation that has not returned may be put at the end. -/
theorem Linearizes.point (h : Linearizes started returned pending order)
    (hop : op ∉ returned.map Prod.fst) :
    Linearizes started returned (pending ++ [op]) (order ++ [op]) := by
  constructor
  · rw [← List.append_assoc]
    exact h.perm.append_right [op]
  · exact h.respects.concat hop

/-- The return of an operation in the order. -/
theorem Linearizes.returns (h : Linearizes started returned (op :: pending) order)
    (hstarted : ∀ a ∈ order, started a ≤ now) :
    Linearizes started (returned ++ [(op, now)]) pending order := by
  constructor
  · rw [List.map_append, List.append_assoc]
    exact h.perm
  · exact h.respects.returns hstarted

/-- An operation whose point is its return. -/
theorem Linearizes.point_return (h : Linearizes started returned pending order)
    (hop : op ∉ returned.map Prod.fst) (hstarted : ∀ a ∈ order ++ [op], started a ≤ now) :
    Linearizes started (returned ++ [(op, now)]) pending (order ++ [op]) := by
  have hpoint := h.point hop
  apply Linearizes.returns _ hstarted
  exact ⟨hpoint.perm.trans (List.perm_append_comm.append_left _), hpoint.respects⟩

/-- A linearised operation returned or is pending. -/
theorem Linearizes.mem_iff (h : Linearizes started returned pending order) :
    op ∈ order ↔ op ∈ returned.map Prod.fst ∨ op ∈ pending := by
  rw [h.perm.mem_iff, List.mem_append]

end RealTime
