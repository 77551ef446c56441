import Mathlib.Data.List.Basic

/-!
# Texts that end with a zero

A text in memory is its characters and a zero behind them; what lies behind the zero is
unknown.  Comparisons read the cells up to a bound and so may read beyond the zero.

Main results:

- Theorem {lit}`agree_succ_length_iff`: texts that agree up to and with a zero are equal.
- Theorem {lit}`agree_and_ends_iff`: which texts begin with a given part and then end or go on
  with a separator, whatever lies behind their zero.
-/

/-- The cells of memory from the first character of a text on. -/
structure TerminatedText (α : Type*) [Zero α] where
  text : List α
  zero_notMem : 0 ∉ text
  /-- The cells behind the zero. -/
  beyond : Nat → α

namespace TerminatedText

variable {α : Type*} [Zero α]

def cell (s : TerminatedText α) (i : Nat) : α :=
  if h : i < s.text.length then s.text[i] else if i = s.text.length then 0 else s.beyond i

/-- The first cells are equal. -/
def Agree (s t : TerminatedText α) (len : Nat) : Prop := ∀ i < len, s.cell i = t.cell i

instance [DecidableEq α] (s t : TerminatedText α) : DecidablePred (Agree s t) := fun len =>
  inferInstanceAs (Decidable (∀ i < len, s.cell i = t.cell i))

variable {s t : TerminatedText α} {i len : Nat}

theorem cell_of_lt (s : TerminatedText α) (h : i < s.text.length) : s.cell i = s.text[i] :=
  dif_pos h

@[simp] theorem cell_length (s : TerminatedText α) : s.cell s.text.length = 0 := by
  rw [cell, dif_neg (Nat.lt_irrefl _), if_pos rfl]

theorem cell_ne_zero (s : TerminatedText α) (h : i < s.text.length) : s.cell i ≠ 0 := by
  intro hzero
  rw [s.cell_of_lt h] at hzero
  exact s.zero_notMem (hzero ▸ List.getElem_mem h)

/-- Where the texts agree, a text does not end before the other one. -/
theorem Agree.le_length (h : Agree s t len) (hlen : len ≤ s.text.length) :
    len ≤ t.text.length := by
  by_contra hlt
  have hend := h t.text.length (by omega)
  rw [cell_length] at hend
  exact s.cell_ne_zero (by omega) hend

theorem agree_iff_take (hlen : len ≤ s.text.length) :
    Agree s t len ↔ s.text.take len = t.text.take len := by
  constructor
  · intro h
    have hle := h.le_length hlen
    apply List.ext_getElem
    · rw [List.length_take_of_le hlen, List.length_take_of_le hle]
    · intro i hi hi'
      rw [List.length_take_of_le hlen] at hi
      rw [List.getElem_take, List.getElem_take, ← s.cell_of_lt (by omega),
        ← t.cell_of_lt (by omega)]
      exact h i hi
  · intro h i hi
    have hle : len ≤ t.text.length := by
      have hlengths := congrArg List.length h
      rw [List.length_take_of_le hlen, List.length_take] at hlengths
      omega
    have hat : (s.text.take len)[i]? = (t.text.take len)[i]? := by rw [h]
    rw [List.getElem?_take_of_lt hi, List.getElem?_take_of_lt hi,
      List.getElem?_eq_getElem (by omega), List.getElem?_eq_getElem (by omega)] at hat
    rw [s.cell_of_lt (by omega), t.cell_of_lt (by omega)]
    exact Option.some.inj hat

/-- Texts that agree up to and with a zero are equal. -/
theorem agree_succ_length_iff : Agree s t (t.text.length + 1) ↔ s.text = t.text := by
  constructor
  · intro h
    have hend := h t.text.length (Nat.lt_succ_self _)
    rw [cell_length] at hend
    have hle : s.text.length ≤ t.text.length := by
      by_contra hlt
      exact s.cell_ne_zero (by omega) hend
    have hpart : Agree s t s.text.length := fun i hi => h i (by omega)
    have htake := (agree_iff_take (Nat.le_refl _)).mp hpart
    have hge : t.text.length ≤ s.text.length := by
      by_contra hlt
      refine t.cell_ne_zero (i := s.text.length) (by omega) ?_
      rw [← h s.text.length (by omega), cell_length]
    rw [List.take_length, List.take_of_length_le hge] at htake
    exact htake
  · intro h i hi
    by_cases hend : i < t.text.length
    · rw [s.cell_of_lt (h ▸ hend), t.cell_of_lt hend]
      simp only [h]
    · have hi : i = t.text.length := by omega
      rw [hi, cell_length, ← h, cell_length]

/-- A text that agrees with the first part of another one and then has the separator or a
zero is that part, followed by nothing or by the separator. -/
theorem agree_and_ends_iff {sep : α} (hlen : len ≤ s.text.length) :
    (t.cell len = sep ∨ t.cell len = 0) ∧ Agree s t len ↔
      ∃ rest, t.text = s.text.take len ++ rest ∧ (rest = [] ∨ rest.head? = some sep) := by
  rw [and_comm]
  constructor
  · rintro ⟨hagree, hends⟩
    have hle := hagree.le_length hlen
    refine ⟨t.text.drop len, ?_, ?_⟩
    · rw [(agree_iff_take hlen).mp hagree, List.take_append_drop]
    · rcases Nat.lt_or_eq_of_le hle with hlt | heq
      · right
        rcases hends with hends | hends
        · rw [List.head?_drop, List.getElem?_eq_getElem hlt, ← hends, t.cell_of_lt hlt]
        · exact absurd hends (t.cell_ne_zero hlt)
      · exact Or.inl (by rw [heq, List.drop_length])
  · rintro ⟨rest, htext, hrest⟩
    have hpart : (s.text.take len).length = len := List.length_take_of_le hlen
    constructor
    · rw [agree_iff_take hlen, htext, List.take_append_of_le_length (Nat.le_of_eq hpart.symm),
        List.take_take, Nat.min_self]
    · rcases hrest with rfl | hhead
      · right
        have hlength : t.text.length = len := by rw [htext, List.append_nil, hpart]
        rw [← hlength, cell_length]
      · left
        obtain ⟨tail, rfl⟩ : ∃ tail, rest = sep :: tail := by
          cases rest with
          | nil => cases hhead
          | cons c tail => exact ⟨tail, by rw [Option.some.inj hhead]⟩
        have hlt : len < t.text.length := by
          rw [htext, List.length_append, hpart, List.length_cons]
          omega
        have hat : t.text[len]? = some sep := by
          rw [htext, List.getElem?_append_right (Nat.le_of_eq hpart), hpart, Nat.sub_self]
          rfl
        rw [List.getElem?_eq_getElem hlt] at hat
        rw [t.cell_of_lt hlt]
        exact Option.some.inj hat

end TerminatedText
