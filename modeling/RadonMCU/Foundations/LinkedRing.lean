import Mathlib.Data.List.Basic
import Mathlib.Logic.Function.Basic

/-!
# Doubly linked circular lists

A list is a cycle of cells through a head cell: from each cell a link leads to the next one
and a link leads back.  A cell is inserted behind the head or removed by rewriting the links
of its neighbours; a removed cell is linked to itself.

Main results:

- Theorem {lit}`Holds.insert`: insertion puts the cell in front of the list.
- Theorem {lit}`Holds.remove`: removal takes the cell out of the list, wherever it stands.
- Theorem {lit}`remove_of_alone`: removing a cell that is linked to itself does nothing.
-/

namespace LinkedRing

variable {α : Type*}

/-- The links of all cells. -/
@[ext] structure Links (α : Type*) where
  next : α → α
  previous : α → α

/-- The cells {lit}`xs` lead from {lit}`a` to {lit}`b`, and back. -/
def Path (l : Links α) : α → List α → α → Prop
  | a, [], b => l.next a = b ∧ l.previous b = a
  | a, x :: xs, b => l.next a = x ∧ l.previous x = a ∧ Path l x xs b

/-- The cells form a list with this head. -/
structure Holds (l : Links α) (head : α) (xs : List α) : Prop where
  nodup : (head :: xs).Nodup
  path : Path l head xs head

/-- The cell is linked to itself. -/
structure Alone (l : Links α) (x : α) : Prop where
  next : l.next x = x
  previous : l.previous x = x

section Path

variable {l l' : Links α} {a b : α} {xs ys : List α}

/-- A path depends on the links along it. -/
theorem Path.congr (h : Path l a xs b) (hnext : ∀ x ∈ a :: xs, l'.next x = l.next x)
    (hprevious : ∀ x ∈ xs ++ [b], l'.previous x = l.previous x) : Path l' a xs b := by
  induction xs generalizing a with
  | nil =>
    refine ⟨?_, ?_⟩
    · rw [hnext a List.mem_cons_self, h.1]
    · rw [hprevious b (by simp), h.2]
  | cons x xs ih =>
    obtain ⟨hax, hxa, hrest⟩ := h
    refine ⟨?_, ?_, ih hrest ?_ ?_⟩
    · rw [hnext a List.mem_cons_self, hax]
    · rw [hprevious x (by simp), hxa]
    · exact fun y hy => hnext y (List.mem_cons_of_mem _ hy)
    · exact fun y hy => hprevious y (List.mem_cons_of_mem _ hy)

/-- The cell that follows the first one. -/
theorem Path.next_mem (h : Path l a xs b) : l.next a ∈ xs ++ [b] := by
  cases xs with
  | nil => simp [h.1]
  | cons x xs => simp [h.1]

theorem Path.next_eq (h : Path l a xs b) : l.next a = xs.headD b := by
  cases xs with
  | nil => exact h.1
  | cons x xs => exact h.1

/-- The path from a cell of a path on. -/
theorem Path.suffix {x : α} (h : Path l a (xs ++ x :: ys) b) : Path l x ys b := by
  induction xs generalizing a with
  | nil => exact h.2.2
  | cons y xs ih => exact ih h.2.2

/-- The neighbours of a cell on a path. -/
theorem Path.neighbours {x : α} (h : Path l a (xs ++ x :: ys) b) :
    l.previous x ∈ a :: xs ∧ l.next x ∈ ys ++ [b] := by
  induction xs generalizing a with
  | nil =>
    obtain ⟨-, hprevious, hrest⟩ := h
    exact ⟨by simp [hprevious], hrest.next_mem⟩
  | cons y xs ih =>
    obtain ⟨-, -, hrest⟩ := h
    exact ⟨List.mem_cons_of_mem _ (ih hrest).1, (ih hrest).2⟩

/-- The head of an empty list is linked to itself. -/
theorem holds_nil_iff : Holds l a [] ↔ Alone l a :=
  ⟨fun h => ⟨h.path.1, h.path.2⟩, fun h => ⟨by simp, h.next, h.previous⟩⟩

end Path

variable [DecidableEq α]

/-! ## Insertion -/

/-- Insert a cell behind the head: two links of the cell, then one of each neighbour. -/
def insert (l : Links α) (head entry : α) : Links α :=
  let l := { l with previous := Function.update l.previous entry head }
  let l := { l with next := Function.update l.next entry (l.next head) }
  let l := { l with previous := Function.update l.previous (l.next head) entry }
  { l with next := Function.update l.next head entry }

/-- Remove a cell: one link of each neighbour, then two of the cell. -/
def remove (l : Links α) (entry : α) : Links α :=
  let l := { l with previous := Function.update l.previous (l.next entry) (l.previous entry) }
  let l := { l with next := Function.update l.next (l.previous entry) (l.next entry) }
  let l := { l with previous := Function.update l.previous entry entry }
  { l with next := Function.update l.next entry entry }

section Links

variable (l : Links α) (head entry x : α)

theorem insert_next : (insert l head entry).next x =
    if x = head then entry else if x = entry then l.next head else l.next x := by
  simp only [insert, Function.update_apply]

theorem insert_previous (hne : entry ≠ head) : (insert l head entry).previous x =
    if x = l.next head then entry else if x = entry then head else l.previous x := by
  simp only [insert, Function.update_apply, if_neg hne.symm]

theorem remove_next : (remove l entry).next x =
    if x = entry then entry else if x = l.previous entry then l.next entry else l.next x := by
  simp only [remove, Function.update_apply, ite_self]

theorem remove_previous : (remove l entry).previous x =
    if x = entry then entry else if x = l.next entry then l.previous entry
    else l.previous x := by
  simp only [remove, Function.update_apply]

end Links

section Operations

variable {l : Links α} {head entry : α} {xs : List α}

/-- Insertion puts the cell in front of the list. -/
theorem Holds.insert (h : Holds l head xs) (hentry : entry ∉ head :: xs) :
    Holds (insert l head entry) head (entry :: xs) := by
  obtain ⟨hne, hmem⟩ : entry ≠ head ∧ entry ∉ xs := by simpa using hentry
  obtain ⟨hhead, hnodup⟩ := List.nodup_cons.mp h.nodup
  have hpath := h.path
  constructor
  · refine List.nodup_cons.mpr ⟨?_, List.nodup_cons.mpr ⟨hmem, hnodup⟩⟩
    simpa [hne.symm] using hhead
  · have hfirst : l.next head ≠ entry := by
      intro heq
      have hnext := hpath.next_mem
      rw [heq] at hnext
      simp [hne, hmem] at hnext
    refine ⟨?_, ?_, ?_⟩
    · rw [insert_next, if_pos rfl]
    · rw [insert_previous _ _ _ _ hne, if_neg hfirst.symm, if_pos rfl]
    · cases xs with
      | nil =>
        refine ⟨?_, ?_⟩
        · rw [insert_next, if_neg hne, if_pos rfl, hpath.1]
        · rw [insert_previous _ _ _ _ hne, if_pos hpath.1.symm]
      | cons x xs =>
        obtain ⟨hnext, -, hrest⟩ := hpath
        have hx := List.nodup_cons.mp hnodup
        refine ⟨?_, ?_, hrest.congr ?_ ?_⟩
        · rw [insert_next, if_neg hne, if_pos rfl, hnext]
        · rw [insert_previous _ _ _ _ hne, if_pos hnext.symm]
        · intro y hy
          have hyHead : y ≠ head := fun heq => hhead (heq ▸ hy)
          have hyEntry : y ≠ entry := fun heq => hmem (heq ▸ hy)
          rw [insert_next, if_neg hyHead, if_neg hyEntry]
        · intro y hy
          have hyFirst : y ≠ l.next head := by
            rw [hnext]
            rintro rfl
            rcases List.mem_append.mp hy with hy | hy
            · exact hx.1 hy
            · exact hhead (List.mem_singleton.mp hy ▸ List.mem_cons_self)
          have hyEntry : y ≠ entry := by
            rintro rfl
            rcases List.mem_append.mp hy with hy | hy
            · exact hmem (List.mem_cons_of_mem _ hy)
            · exact hne (List.mem_singleton.mp hy)
          rw [insert_previous _ _ _ _ hne, if_neg hyFirst, if_neg hyEntry]

/-- Insertion into one list leaves the other lists as they are. -/
theorem Holds.insert_other {head' : α} {ys : List α} (h : Holds l head' ys)
    (hlist : Holds l head xs) (hne : entry ≠ head)
    (hapart : ∀ y ∈ head' :: ys, y ∉ entry :: head :: xs) :
    Holds (LinkedRing.insert l head entry) head' ys := by
  have haway (y : α) (hy : y ∈ head' :: ys) : y ≠ entry ∧ y ≠ head ∧ y ∉ xs := by
    simpa using hapart y hy
  refine ⟨h.nodup, h.path.congr ?_ ?_⟩
  · intro y hy
    obtain ⟨hentry, hhead, -⟩ := haway y hy
    rw [insert_next, if_neg hhead, if_neg hentry]
  · intro y hy
    obtain ⟨hentry, hhead, hxs⟩ := haway y (by simpa [or_comm] using hy)
    have hfirst : y ≠ l.next head := by
      intro heq
      have hnext := hlist.path.next_mem
      rw [← heq] at hnext
      rcases List.mem_append.mp hnext with hmem | hmem
      · exact hxs hmem
      · exact hhead (List.mem_singleton.mp hmem)
    rw [insert_previous _ _ _ _ hne, if_neg hfirst, if_neg hentry]

/-- A removed cell is linked to itself. -/
theorem alone_remove (l : Links α) (entry : α) : Alone (remove l entry) entry :=
  ⟨by rw [remove_next, if_pos rfl], by rw [remove_previous, if_pos rfl]⟩

/-- Removing a cell that is linked to itself does nothing. -/
theorem remove_of_alone (h : Alone l entry) : remove l entry = l := by
  apply Links.ext
  · funext x
    rw [remove_next, h.previous, h.next]
    split
    · rename_i heq
      rw [heq, h.next]
    · rfl
  · funext x
    rw [remove_previous, h.previous, h.next]
    split
    · rename_i heq
      rw [heq, h.previous]
    · rfl

/-- Removal joins the two parts of a path. -/
theorem Path.remove {a b : α} {xs ys : List α} (h : Path l a (xs ++ entry :: ys) b)
    (hnodup : (a :: (xs ++ entry :: ys)).Nodup) (hb : b ∉ xs ++ entry :: ys) :
    Path (remove l entry) a (xs ++ ys) b := by
  induction xs generalizing a with
  | nil =>
    obtain ⟨hnext, hprevious, hrest⟩ := h
    obtain ⟨ha, hys⟩ := List.nodup_cons.mp hnodup
    obtain ⟨haEntry, haYs⟩ : a ≠ entry ∧ a ∉ ys := by simpa using ha
    obtain ⟨hbEntry, hbYs⟩ : b ≠ entry ∧ b ∉ ys := by simpa using hb
    have hentry := (List.nodup_cons.mp hys).1
    cases ys with
    | nil =>
      refine ⟨?_, ?_⟩
      · rw [remove_next, if_neg haEntry, if_pos hprevious.symm, hrest.1]
      · rw [remove_previous, if_neg hbEntry, if_pos hrest.1.symm, hprevious]
    | cons y ys =>
      obtain ⟨hnext', -, hrest'⟩ := hrest
      have hy := List.nodup_cons.mp (List.nodup_cons.mp hys).2
      have hyEntry : y ≠ entry := fun heq => hentry (heq ▸ List.mem_cons_self)
      refine ⟨?_, ?_, hrest'.congr ?_ ?_⟩
      · rw [remove_next, if_neg haEntry, if_pos hprevious.symm, hnext']
      · rw [remove_previous, if_neg hyEntry, if_pos hnext'.symm, hprevious]
      · intro z hz
        have hzEntry : z ≠ entry := fun heq => hentry (heq ▸ hz)
        have hza : z ≠ a := fun heq => haYs (heq ▸ hz)
        rw [remove_next, if_neg hzEntry, hprevious, if_neg hza]
      · intro z hz
        have hzEntry : z ≠ entry := by
          rintro rfl
          rcases List.mem_append.mp hz with hz | hz
          · exact hentry (List.mem_cons_of_mem _ hz)
          · exact hbEntry (List.mem_singleton.mp hz).symm
        have hzy : z ≠ y := by
          rintro rfl
          rcases List.mem_append.mp hz with hz | hz
          · exact hy.1 hz
          · exact hbYs (List.mem_singleton.mp hz ▸ List.mem_cons_self)
        rw [remove_previous, if_neg hzEntry, hnext', if_neg hzy]
  | cons x xs ih =>
    obtain ⟨hnext, hprevious, hrest⟩ := h
    obtain ⟨ha, hxs⟩ := List.nodup_cons.mp hnodup
    obtain ⟨hbx, hbXs⟩ : b ≠ x ∧ b ∉ xs ++ entry :: ys := by simpa using hb
    obtain ⟨hback, hforth⟩ := hrest.neighbours
    have hx := (List.nodup_cons.mp hxs).1
    have haEntry : a ≠ entry := by
      rintro rfl
      exact ha (by simp)
    have haBack : a ≠ l.previous entry := by
      intro heq
      rw [← heq] at hback
      exact ha (List.mem_append_left (entry :: ys) hback)
    have hxEntry : x ≠ entry := by
      rintro rfl
      exact hx (by simp)
    have hxForth : x ≠ l.next entry := by
      intro heq
      rw [← heq] at hforth
      rcases List.mem_append.mp hforth with hmem | hmem
      · exact hx (by simp [hmem])
      · exact hbx (List.mem_singleton.mp hmem).symm
    refine ⟨?_, ?_, ih hrest hxs hbXs⟩
    · rw [remove_next, if_neg haEntry, if_neg haBack, hnext]
    · rw [remove_previous, if_neg hxEntry, if_neg hxForth, hprevious]

/-- Removal takes the cell out of the list, wherever it stands. -/
theorem Holds.remove {before after : List α} (h : Holds l head (before ++ entry :: after)) :
    Holds (remove l entry) head (before ++ after) := by
  constructor
  · refine List.Nodup.sublist ?_ h.nodup
    exact List.Sublist.cons_cons _ (List.Sublist.append_left (List.sublist_cons_self _ _) _)
  · exact h.path.remove h.nodup (List.nodup_cons.mp h.nodup).1

/-- A cell outside the list stays linked to itself when another one is inserted. -/
theorem Alone.insert {x : α} (h : Alone l x) (hholds : Holds l head xs) (hx : x ∉ head :: xs)
    (hne : entry ≠ head) (hxe : x ≠ entry) : Alone (LinkedRing.insert l head entry) x := by
  obtain ⟨hxHead, hxMem⟩ : x ≠ head ∧ x ∉ xs := by simpa using hx
  have hfirst : x ≠ l.next head := by
    rintro rfl
    have hnext := hholds.path.next_mem
    simp [hxHead, hxMem] at hnext
  constructor
  · rw [insert_next, if_neg hxHead, if_neg hxe, h.next]
  · rw [insert_previous _ _ _ _ hne, if_neg hfirst, if_neg hxe, h.previous]

/-- A cell outside the list stays linked to itself when one of the list is removed. -/
theorem Alone.remove {x : α} {before after : List α} (h : Alone l x)
    (hholds : Holds l head (before ++ entry :: after))
    (hx : x ∉ head :: (before ++ entry :: after)) : Alone (LinkedRing.remove l entry) x := by
  simp only [List.mem_cons, List.mem_append, not_or] at hx
  obtain ⟨hxHead, hxBefore, hxe, hxAfter⟩ := hx
  obtain ⟨hback, hforth⟩ := hholds.path.neighbours
  have hxBack : x ≠ l.previous entry := by
    rintro rfl
    simp [hxHead, hxBefore] at hback
  have hxForth : x ≠ l.next entry := by
    rintro rfl
    simp [hxHead, hxAfter] at hforth
  constructor
  · rw [remove_next, if_neg hxe, if_neg hxBack, h.next]
  · rw [remove_previous, if_neg hxe, if_neg hxForth, h.previous]

end Operations

end LinkedRing
