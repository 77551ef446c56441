import Mathlib.Data.List.Basic
import Mathlib.Order.Bounds.Basic

/-!
# Delimited segments of a list

A delimiter {lit}`d` cuts a list into segments: each segment runs up to and
including the first {lit}`d`, and the last one may lack it.  This file gives the
leading segment, the removal of leading segments and the least number of
removals after which the rest fits into a given room.

Main results:

- Theorem {lit}`takeSegments_append_dropSegments`: the removed segments followed
  by the rest are the list.
- Theorem {lit}`segmentsToDrop_isLeast`: the recursive count is the least number
  of leading segments whose removal makes the rest fit.
- Theorem {lit}`dropSegments_flatten`: on a concatenation of whole lines the
  removal of segments is the removal of lines.
-/

namespace Segments

variable {α : Type*} [DecidableEq α] (d : α)

/-! ## The leading segment -/

/-- The list up to and including the first delimiter, or all of it. -/
def firstSegment : List α → List α
  | [] => []
  | x :: xs => if x = d then [x] else x :: firstSegment xs

/-- What the leading segment leaves. -/
def afterSegment : List α → List α
  | [] => []
  | x :: xs => if x = d then xs else afterSegment xs

/-- The empty list has no first segment. -/
@[simp] theorem firstSegment_nil : firstSegment d [] = [] := rfl

/-- The empty list has nothing behind its first segment. -/
@[simp] theorem afterSegment_nil : afterSegment d [] = [] := rfl

/-- A delimiter at the front is a segment of its own. -/
theorem afterSegment_cons_self (xs : List α) : afterSegment d (d :: xs) = xs := by
  simp [afterSegment]

/-- An item other than the delimiter belongs to the first segment. -/
theorem firstSegment_cons_of_ne {x : α} (hx : x ≠ d) (xs : List α) :
    firstSegment d (x :: xs) = x :: firstSegment d xs := by
  simp [firstSegment, hx]

/-- An item other than the delimiter is not behind the first segment. -/
theorem afterSegment_cons_of_ne {x : α} (hx : x ≠ d) (xs : List α) :
    afterSegment d (x :: xs) = afterSegment d xs := by
  simp [afterSegment, hx]

/-- The leading segment followed by what it leaves is the list. -/
@[simp] theorem firstSegment_append_afterSegment (xs : List α) :
    firstSegment d xs ++ afterSegment d xs = xs := by
  induction xs with
  | nil => rfl
  | cons x xs ih =>
    by_cases hx : x = d
    · simp [firstSegment, afterSegment, hx]
    · simp [firstSegment, afterSegment, hx, ih]

/-- A list that is not empty has a first segment. -/
theorem firstSegment_ne_nil {xs : List α} (hxs : xs ≠ []) : firstSegment d xs ≠ [] := by
  cases xs with
  | nil => contradiction
  | cons x xs =>
    by_cases hx : x = d <;> simp [firstSegment, hx]

/-- The first segment and the rest are all. -/
theorem firstSegment_length_add (xs : List α) :
    (firstSegment d xs).length + (afterSegment d xs).length = xs.length := by
  rw [← List.length_append, firstSegment_append_afterSegment]

/-- The rest is shorter. -/
theorem afterSegment_length_lt {xs : List α} (hxs : xs ≠ []) :
    (afterSegment d xs).length < xs.length := by
  have hpos := List.length_pos_iff.mpr (firstSegment_ne_nil d hxs)
  have hsum := firstSegment_length_add d xs
  omega

/-- A leading segment holds the delimiter at its end or nowhere. -/
theorem delim_notMem_dropLast_firstSegment (xs : List α) :
    d ∉ (firstSegment d xs).dropLast := by
  induction xs with
  | nil => simp
  | cons x xs ih =>
    by_cases hx : x = d
    · simp [firstSegment, hx]
    · rw [firstSegment_cons_of_ne d hx]
      cases hseg : firstSegment d xs with
      | nil => simp
      | cons y ys =>
        rw [hseg] at ih
        rw [List.dropLast_cons_cons, List.mem_cons]
        rintro (h | h)
        · exact hx h.symm
        · exact ih h

/-- A leading segment that does not end in the delimiter is the whole list. -/
theorem firstSegment_getLast? (xs : List α) :
    (firstSegment d xs).getLast? = some d ∨ afterSegment d xs = [] := by
  induction xs with
  | nil => simp
  | cons x xs ih =>
    by_cases hx : x = d
    · simp [firstSegment, hx]
    · rw [firstSegment_cons_of_ne d hx, afterSegment_cons_of_ne d hx]
      rcases ih with hlast | hnil
      · left
        rw [List.getLast?_cons, hlast]
        rfl
      · exact Or.inr hnil

/-! ## Removing leading segments -/

/-- The first {lit}`n` segments. -/
def takeSegments : Nat → List α → List (List α)
  | 0, _ => []
  | n + 1, xs => firstSegment d xs :: takeSegments n (afterSegment d xs)

/-- What is left after the first {lit}`n` segments. -/
def dropSegments : Nat → List α → List α
  | 0, xs => xs
  | n + 1, xs => dropSegments n (afterSegment d xs)

/-- No segment is dropped. -/
@[simp] theorem dropSegments_zero (xs : List α) : dropSegments d 0 xs = xs := rfl

/-- No segment is taken. -/
@[simp] theorem takeSegments_zero (xs : List α) : takeSegments d 0 xs = [] := rfl

/-- The first segment is dropped first. -/
theorem dropSegments_succ (n : Nat) (xs : List α) :
    dropSegments d (n + 1) xs = dropSegments d n (afterSegment d xs) := rfl

/-- The first segment is taken first. -/
theorem takeSegments_succ (n : Nat) (xs : List α) :
    takeSegments d (n + 1) xs = firstSegment d xs :: takeSegments d n (afterSegment d xs) := rfl

/-- As many segments as asked for, empty ones if the list has fewer. -/
@[simp] theorem takeSegments_length (n : Nat) (xs : List α) :
    (takeSegments d n xs).length = n := by
  induction n generalizing xs with
  | zero => rfl
  | succ n ih => simp [takeSegments, ih]

/-- The removed segments followed by the rest are the list. -/
theorem takeSegments_append_dropSegments (n : Nat) (xs : List α) :
    (takeSegments d n xs).flatten ++ dropSegments d n xs = xs := by
  induction n generalizing xs with
  | zero => rfl
  | succ n ih =>
    rw [takeSegments_succ, dropSegments_succ, List.flatten_cons, List.append_assoc, ih]
    exact firstSegment_append_afterSegment d xs

/-- The least number of leading segments whose removal leaves at most
{lit}`room` elements, by the recursion an eviction loop makes. -/
def segmentsToDrop (room : Nat) (xs : List α) : Nat :=
  if h : xs.length ≤ room then 0 else segmentsToDrop room (afterSegment d xs) + 1
termination_by xs.length
decreasing_by
  apply afterSegment_length_lt
  rintro rfl
  simp at h

/-- A list that fits loses nothing. -/
theorem segmentsToDrop_of_le {room : Nat} {xs : List α} (h : xs.length ≤ room) :
    segmentsToDrop d room xs = 0 := by
  rw [segmentsToDrop]
  simp [h]

/-- A list that does not fit loses its first segment. -/
theorem segmentsToDrop_of_lt {room : Nat} {xs : List α} (h : room < xs.length) :
    segmentsToDrop d room xs = segmentsToDrop d room (afterSegment d xs) + 1 := by
  rw [segmentsToDrop]
  simp [Nat.not_le.mpr h]

/-- After the counted removals the rest fits. -/
theorem dropSegments_segmentsToDrop_le (room : Nat) (xs : List α) :
    (dropSegments d (segmentsToDrop d room xs) xs).length ≤ room := by
  induction xs using segmentsToDrop.induct d room with
  | case1 xs h => simpa [segmentsToDrop_of_le d h] using h
  | case2 xs h ih =>
    rw [segmentsToDrop_of_lt d (Nat.lt_of_not_le h), dropSegments_succ]
    exact ih

/-- Fewer removals than counted leave too much. -/
theorem lt_dropSegments_of_lt_segmentsToDrop {room n : Nat} {xs : List α}
    (hn : n < segmentsToDrop d room xs) : room < (dropSegments d n xs).length := by
  induction n generalizing xs with
  | zero =>
    by_contra hle
    rw [dropSegments_zero, Nat.not_lt] at hle
    rw [segmentsToDrop_of_le d hle] at hn
    omega
  | succ n ih =>
    have hlt : room < xs.length := by
      by_contra hle
      rw [segmentsToDrop_of_le d (Nat.le_of_not_lt hle)] at hn
      omega
    rw [segmentsToDrop_of_lt d hlt] at hn
    exact ih (by omega)

/-- The recursive count is the least number of leading segments whose removal
makes the rest fit. -/
theorem segmentsToDrop_isLeast (room : Nat) (xs : List α) :
    IsLeast {n | (dropSegments d n xs).length ≤ room} (segmentsToDrop d room xs) := by
  refine ⟨dropSegments_segmentsToDrop_le d room xs, ?_⟩
  intro n hn
  by_contra hlt
  exact absurd (lt_dropSegments_of_lt_segmentsToDrop d (Nat.lt_of_not_le hlt))
    (Nat.not_lt.mpr hn)

/-! ## Whole lines -/

/-- A nonempty list that holds the delimiter at most at its end. -/
structure SingleSegment (line : List α) : Prop where
  ne_nil : line ≠ []
  notMem_dropLast : d ∉ line.dropLast

/-- A list ends in the delimiter. -/
def EndsIn (line : List α) : Prop := line.getLast? = some d

instance (line : List α) : Decidable (EndsIn d line) :=
  inferInstanceAs (Decidable (_ = _))

variable {d}

omit [DecidableEq α] in
/-- A suffix of a list that ends in the delimiter is empty or ends in it. -/
theorem EndsIn.of_suffix {suffix line : List α} (h : EndsIn d line)
    (hsuffix : suffix <:+ line) : suffix = [] ∨ EndsIn d suffix := by
  by_cases hnil : suffix = []
  · exact Or.inl hnil
  · right
    rcases hsuffix with ⟨before, rfl⟩
    unfold EndsIn at h
    rw [List.getLast?_append_of_ne_nil _ hnil] at h
    exact h

omit [DecidableEq α] in
/-- The concatenation of lines that end in the delimiter ends in it. -/
theorem endsIn_flatten {lines : List (List α)} (hne : lines ≠ [])
    (h : ∀ line ∈ lines, EndsIn d line) : EndsIn d lines.flatten := by
  have hlast := h _ (List.getLast_mem hne)
  have hnil : lines.getLast hne ≠ [] := by
    intro hnil
    rw [hnil] at hlast
    simp [EndsIn] at hlast
  rw [← List.dropLast_append_getLast hne, List.flatten_append, List.flatten_singleton]
  unfold EndsIn
  rw [List.getLast?_append_of_ne_nil _ hnil]
  exact hlast

/-- A line is the leading segment of any list it begins, when it ends in the
delimiter or nothing follows it. -/
theorem SingleSegment.split {line rest : List α} (hline : SingleSegment d line)
    (hend : EndsIn d line ∨ rest = []) :
    firstSegment d (line ++ rest) = line ∧ afterSegment d (line ++ rest) = rest := by
  obtain ⟨hne, hmem⟩ := hline
  induction line with
  | nil => contradiction
  | cons x xs ih =>
    cases xs with
    | nil =>
      rcases hend with hlast | rfl
      · obtain rfl : x = d := by simpa [EndsIn] using hlast
        simp [firstSegment, afterSegment]
      · by_cases hx : x = d <;> simp [firstSegment, afterSegment, hx]
    | cons y ys =>
      rw [List.dropLast_cons_cons, List.mem_cons, not_or] at hmem
      have hx : x ≠ d := fun h => hmem.1 h.symm
      have hend' : EndsIn d (y :: ys) ∨ rest = [] := by
        simpa [EndsIn, List.getLast?_cons_cons] using hend
      obtain ⟨hfirst, hafter⟩ := ih hend' (by simp) hmem.2
      rw [List.cons_append, firstSegment_cons_of_ne d hx, afterSegment_cons_of_ne d hx,
        hfirst, hafter]
      exact ⟨rfl, rfl⟩

/-- While the list does not fit, the line that begins it is removed. -/
theorem segmentsToDrop_append {line rest : List α} (hline : SingleSegment d line)
    (hend : EndsIn d line) {room : Nat} (hlt : room < (line ++ rest).length) :
    segmentsToDrop d room (line ++ rest) = segmentsToDrop d room rest + 1 := by
  rw [segmentsToDrop_of_lt d hlt, (hline.split (Or.inl hend)).2]

/-- Lines that can be told apart in their concatenation: each holds the
delimiter at most at its end, and each but the last ends in it. -/
def WholeLines (d : α) : List (List α) → Prop
  | [] => True
  | line :: lines =>
      SingleSegment d line ∧ (EndsIn d line ∨ lines.flatten = []) ∧ WholeLines d lines

omit [DecidableEq α] in
/-- In a room of {lit}`cap` items, lines that end in the delimiter or fill the
room can be told apart. -/
theorem wholeLines_of_length_le {lines : List (List α)} {cap : Nat}
    (hlines : ∀ line ∈ lines, SingleSegment d line ∧ (EndsIn d line ∨ cap ≤ line.length))
    (hle : lines.flatten.length ≤ cap) : WholeLines d lines := by
  induction lines with
  | nil => trivial
  | cons line lines ih =>
    rw [List.flatten_cons, List.length_append] at hle
    rcases hlines line List.mem_cons_self with ⟨hsegment, hend⟩
    refine ⟨hsegment, ?_, ih ?_ (by omega)⟩
    · rcases hend with hend | hfull
      · exact Or.inl hend
      · right
        apply List.eq_nil_of_length_eq_zero
        omega
    · intro line' hmem
      exact hlines line' (List.mem_cons_of_mem _ hmem)

/-- On a concatenation of whole lines removing segments removes lines. -/
theorem dropSegments_flatten {lines : List (List α)} (h : WholeLines d lines) (n : Nat) :
    dropSegments d n lines.flatten = (lines.drop n).flatten := by
  induction n generalizing lines with
  | zero => rfl
  | succ n ih =>
    cases lines with
    | nil => simpa [dropSegments_succ] using ih h
    | cons line lines =>
      rw [dropSegments_succ, List.flatten_cons, (h.1.split h.2.1).2]
      exact ih h.2.2

/-- On a concatenation of whole lines the removed segments are the lines. -/
theorem takeSegments_flatten {lines : List (List α)} (h : WholeLines d lines) {n : Nat}
    (hn : n ≤ lines.length) : takeSegments d n lines.flatten = lines.take n := by
  induction n generalizing lines with
  | zero => simp
  | succ n ih =>
    cases lines with
    | nil => simp at hn
    | cons line lines =>
      have hsplit := h.1.split h.2.1
      rw [takeSegments_succ, List.flatten_cons, hsplit.1, hsplit.2,
        ih h.2.2 (Nat.le_of_succ_le_succ hn), List.take_succ_cons]

/-- No more lines are removed than there are. -/
theorem segmentsToDrop_flatten_le {lines : List (List α)} (h : WholeLines d lines)
    (room : Nat) : segmentsToDrop d room lines.flatten ≤ lines.length := by
  apply (segmentsToDrop_isLeast d room lines.flatten).2
  change (dropSegments d lines.length lines.flatten).length ≤ room
  rw [dropSegments_flatten h, List.drop_length]
  simp

end Segments
