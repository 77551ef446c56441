import RadonMCU.Foundations.Segments
import RadonMCU.Foundations.StepSystem

/-!
# A bounded queue of delimited lines with eviction

Lines are appended whole to a queue of items.  When a line does not fit, leading
segments of the queue are discarded until it does; a reader takes items from the
front in chunks of any size.  The ledger keeps the lines offered so far and what
was removed, in order and tagged by its fate.

Main results:

- Theorem {lit}`Ledger.Reachable.conserved`: the lines are the removed items
  followed by the queue, after every sequence of offers and takes.
- Theorem {lit}`Ledger.Reachable.closedBlocks`: every discarded block is one
  nonempty segment that ends in the delimiter or at the end of a line.
-/

namespace LineQueue

open Segments

variable {α : Type*}

/-- How an item leaves the queue. -/
inductive Fate where
  | taken
  | discarded
deriving DecidableEq, Repr

/-- Consecutive items removed at once. -/
structure Removal (α : Type*) where
  fate : Fate
  items : List α
deriving DecidableEq, Repr

/-- The lines offered, the removals so far and the queue. -/
structure Ledger (α : Type*) where
  lines : List (List α)
  removals : List (Removal α)
  queue : List α

/-- Items with the fate they met. -/
def tag (fate : Fate) (items : List α) : List (Fate × α) := items.map fun item => (fate, item)

@[simp] theorem tag_nil (fate : Fate) : tag fate ([] : List α) = [] := rfl

/-- Tags are given item by item. -/
@[simp] theorem tag_append (fate : Fate) (items items' : List α) :
    tag fate (items ++ items') = tag fate items ++ tag fate items' :=
  List.map_append

/-- All items of some removals, in order. -/
def removedItems (removals : List (Removal α)) : List α := removals.flatMap Removal.items

/-- What is removed by two lists of removals. -/
@[simp] theorem removedItems_append (removals removals' : List (Removal α)) :
    removedItems (removals ++ removals') = removedItems removals ++ removedItems removals' :=
  List.flatMap_append

/-- All items of some removals with their fates, in order. -/
def taggedItems (removals : List (Removal α)) : List (Fate × α) :=
  removals.flatMap fun removal => tag removal.fate removal.items

/-- The tagged items of two lists of removals. -/
@[simp] theorem taggedItems_append (removals removals' : List (Removal α)) :
    taggedItems (removals ++ removals') = taggedItems removals ++ taggedItems removals' :=
  List.flatMap_append

/-- The blocks discarded by some removals, in order. -/
def discardedBlocks (removals : List (Removal α)) : List (List α) :=
  (removals.filter fun removal => removal.fate = .discarded).map Removal.items

/-- The discarded blocks of two lists of removals. -/
@[simp] theorem discardedBlocks_append (removals removals' : List (Removal α)) :
    discardedBlocks (removals ++ removals') =
      discardedBlocks removals ++ discardedBlocks removals' := by
  simp [discardedBlocks]

/-- The items taken by some removals, in order. -/
def takenItems (removals : List (Removal α)) : List α :=
  removedItems (removals.filter fun removal => removal.fate = .taken)

/-- The taken items of two lists of removals. -/
@[simp] theorem takenItems_append (removals removals' : List (Removal α)) :
    takenItems (removals ++ removals') = takenItems removals ++ takenItems removals' := by
  simp [takenItems]

/-- One removal for each discarded block. -/
def discards (blocks : List (List α)) : List (Removal α) := blocks.map (Removal.mk .discarded)

/-- Discards remove the items of their blocks. -/
@[simp] theorem removedItems_discards (blocks : List (List α)) :
    removedItems (discards blocks) = blocks.flatten := by
  simp [removedItems, discards, List.flatMap_def, Function.comp_def]

/-- The blocks of discards are these blocks. -/
@[simp] theorem discardedBlocks_discards (blocks : List (List α)) :
    discardedBlocks (discards blocks) = blocks := by
  simp [discardedBlocks, discards, List.filter_map, Function.comp_def]

/-- Discards take nothing. -/
@[simp] theorem takenItems_discards (blocks : List (List α)) :
    takenItems (discards blocks) = [] := by
  simp [takenItems, discards, List.filter_map, Function.comp_def, removedItems]

/-- The items of discards are tagged as discarded. -/
theorem taggedItems_discards (blocks : List (List α)) :
    taggedItems (discards blocks) = tag .discarded blocks.flatten := by
  simp [taggedItems, discards, tag, List.flatMap_def, List.map_flatten, Function.comp_def]

/-- Without its tags, a tagged list is the list. -/
theorem map_snd_tag (fate : Fate) (items : List α) : (tag fate items).map Prod.snd = items := by
  simp [tag, Function.comp_def]

/-- Without their tags, the tagged items are the removed ones. -/
theorem map_snd_taggedItems (removals : List (Removal α)) :
    (taggedItems removals).map Prod.snd = removedItems removals := by
  simp [taggedItems, removedItems, List.flatMap_def, map_snd_tag, List.map_flatten,
    Function.comp_def]

/-- Of a tagged list, the items with the tag of the taken ones are all or none. -/
theorem filter_tag (fate : Fate) (items : List α) :
    ((tag fate items).filter fun pair => pair.1 = .taken).map Prod.snd =
      if fate = .taken then items else [] := by
  cases fate <;> simp [tag, List.filter_map, Function.comp_def]

/-- The taken items are those with their tag. -/
theorem takenItems_eq (removals : List (Removal α)) :
    takenItems removals =
      ((taggedItems removals).filter fun pair => pair.1 = .taken).map Prod.snd := by
  induction removals with
  | nil => rfl
  | cons removal removals ih =>
    have hitems := takenItems_append [removal] removals
    have htagged := taggedItems_append [removal] removals
    rw [List.singleton_append] at hitems htagged
    rw [hitems, htagged, List.filter_append, List.map_append, ← ih]
    congr 1
    rcases removal with ⟨fate, items⟩
    have hfilter := filter_tag fate items
    cases fate <;> simpa [takenItems, taggedItems, removedItems] using hfilter.symm

/-- Without discarded blocks everything that was removed was taken. -/
theorem takenItems_of_no_discards {removals : List (Removal α)}
    (h : discardedBlocks removals = []) : takenItems removals = removedItems removals := by
  unfold discardedBlocks at h
  rw [List.map_eq_nil_iff, List.filter_eq_nil_iff] at h
  unfold takenItems
  rw [List.filter_eq_self.mpr]
  intro removal hmem
  have hfate := h removal hmem
  cases hremoval : removal.fate with
  | taken => rfl
  | discarded => simp [hremoval] at hfate

namespace Ledger

/-- The ledger before the first line. -/
def empty : Ledger α := ⟨[], [], []⟩

/-- Take at most {lit}`n` items from the front. -/
def take (n : Nat) (ledger : Ledger α) : Ledger α where
  lines := ledger.lines
  removals := ledger.removals ++ [⟨.taken, ledger.queue.take n⟩]
  queue := ledger.queue.drop n

/-- The lines offered are the removed items followed by the queue. -/
def Conserved (ledger : Ledger α) : Prop :=
  ledger.lines.flatten = removedItems ledger.removals ++ ledger.queue

/-- Taking changes no line that was offered. -/
@[simp] theorem iterate_take_lines (ledger : Ledger α) (n k : Nat) :
    ((take n)^[k] ledger).lines = ledger.lines := by
  induction k generalizing ledger with
  | zero => rfl
  | succ k ih => exact ih (ledger.take n)

/-- Takes discard nothing. -/
theorem iterate_take_discardedBlocks (ledger : Ledger α) (n k : Nat) :
    discardedBlocks ((take n)^[k] ledger).removals = discardedBlocks ledger.removals := by
  induction k generalizing ledger with
  | zero => rfl
  | succ k ih =>
    rw [Function.iterate_succ_apply, ih, take, discardedBlocks_append]
    simp [discardedBlocks]

/-- Several takes remove what one take of all their items removes. -/
theorem iterate_take_tagged (ledger : Ledger α) (n k : Nat) :
    taggedItems ((take n)^[k] ledger).removals ++ tag .taken ((take n)^[k] ledger).queue =
      taggedItems ledger.removals ++ tag .taken ledger.queue := by
  induction k generalizing ledger with
  | zero => rfl
  | succ k ih =>
    rw [Function.iterate_succ_apply, ih]
    simp only [take, taggedItems_append, List.append_assoc]
    congr 1
    simp only [taggedItems, List.flatMap_cons, List.flatMap_nil, List.append_nil, ← tag_append,
      List.take_append_drop]

/-- Nothing was offered, removed or queued. -/
theorem conserved_empty : (empty : Ledger α).Conserved := rfl

/-- What is taken is removed from the front of the queue. -/
theorem Conserved.take {ledger : Ledger α} (h : ledger.Conserved) (n : Nat) :
    (ledger.take n).Conserved := by
  change ledger.lines.flatten = _
  rw [h, Ledger.take, removedItems_append, List.append_assoc]
  congr 1
  simp [removedItems]

variable [DecidableEq α] (d : α) (cap : Nat)

/-- How many segments a line of the given length evicts. -/
def evictions (ledger : Ledger α) (lineLen : Nat) : Nat :=
  segmentsToDrop d (cap - lineLen) ledger.queue

/-- Append a line, discarding leading segments until it fits. -/
def offer (ledger : Ledger α) (line : List α) : Ledger α where
  lines := ledger.lines ++ [line]
  removals := ledger.removals ++
    discards (takeSegments d (ledger.evictions d cap line.length) ledger.queue)
  queue := dropSegments d (ledger.evictions d cap line.length) ledger.queue ++ line

/-- What is discarded is removed from the front, and the line is stored at the end. -/
theorem Conserved.offer {ledger : Ledger α} (h : ledger.Conserved) (line : List α) :
    (ledger.offer d cap line).Conserved := by
  have hsplit := takeSegments_append_dropSegments d
    (ledger.evictions d cap line.length) ledger.queue
  simp only [Conserved, Ledger.offer, List.flatten_append, List.flatten_singleton,
    removedItems_append, removedItems_discards]
  rw [h, List.append_assoc (removedItems _) (List.flatten _),
    ← List.append_assoc (List.flatten _), hsplit, List.append_assoc]

/-! ## Discarded blocks -/

/-- Every discarded block is a nonempty segment that ends in the delimiter or at
the end of a line; {lit}`before` are the items removed earlier. -/
def ClosedBlocks (lines : List (List α)) : List α → List (Removal α) → Prop
  | _, [] => True
  | before, removal :: removals =>
      (removal.fate = .discarded → SingleSegment d removal.items ∧
        (EndsIn d removal.items ∨ ∃ n, before ++ removal.items = (lines.take n).flatten)) ∧
      ClosedBlocks lines (before ++ removal.items) removals

variable {d}

omit [DecidableEq α] in
/-- The blocks of two lists of removals, the second one after what the first removed. -/
theorem closedBlocks_append {lines : List (List α)} {before : List α}
    {removals removals' : List (Removal α)} :
    ClosedBlocks d lines before (removals ++ removals') ↔
      ClosedBlocks d lines before removals ∧
        ClosedBlocks d lines (before ++ removedItems removals) removals' := by
  induction removals generalizing before with
  | nil => simp [ClosedBlocks, removedItems]
  | cons removal removals ih =>
    simp only [List.cons_append, ClosedBlocks, ih, and_assoc, List.append_assoc]
    rfl

omit [DecidableEq α] in
/-- Further lines leave the earlier blocks what they are. -/
theorem ClosedBlocks.append_lines {lines : List (List α)} {before : List α}
    {removals : List (Removal α)} (h : ClosedBlocks d lines before removals)
    (lines' : List (List α)) : ClosedBlocks d (lines ++ lines') before removals := by
  induction removals generalizing before with
  | nil => trivial
  | cons removal removals ih =>
    refine ⟨?_, ih h.2⟩
    intro hfate
    rcases h.1 hfate with ⟨hsegment, hend | ⟨n, hn⟩⟩
    · exact ⟨hsegment, Or.inl hend⟩
    · refine ⟨hsegment, Or.inr ⟨min n lines.length, ?_⟩⟩
      rw [hn, List.take_append_of_le_length (Nat.min_le_right _ _), List.take_eq_take_min]

/-- The segments that an offer discards are closed. -/
theorem closedBlocks_discards {lines : List (List α)} {before queue : List α}
    (hlines : ∃ n, before ++ queue = (lines.take n).flatten) (room : Nat) :
    ClosedBlocks d lines before
      (discards (takeSegments d (segmentsToDrop d room queue) queue)) := by
  induction queue using segmentsToDrop.induct d room generalizing before with
  | case1 queue h =>
    rw [segmentsToDrop_of_le d h]
    trivial
  | case2 queue h ih =>
    have hne : queue ≠ [] := by
      rintro rfl
      simp at h
    have hsplit := firstSegment_append_afterSegment d queue
    rw [segmentsToDrop_of_lt d (Nat.lt_of_not_le h), takeSegments_succ]
    refine ⟨?_, ih ?_⟩
    · intro _
      refine ⟨⟨firstSegment_ne_nil d hne, delim_notMem_dropLast_firstSegment d queue⟩, ?_⟩
      rcases firstSegment_getLast? d queue with hlast | hnil
      · exact Or.inl hlast
      · rw [hnil, List.append_nil] at hsplit
        rw [hsplit]
        exact Or.inr hlines
    · rw [List.append_assoc, hsplit]
      exact hlines

/-- The blocks that make room for a line are closed. -/
theorem ClosedBlocks.offer {ledger : Ledger α} (hconserved : ledger.Conserved)
    (h : ClosedBlocks d ledger.lines [] ledger.removals) (line : List α) :
    ClosedBlocks d (ledger.offer d cap line).lines [] (ledger.offer d cap line).removals := by
  refine closedBlocks_append.mpr ⟨h.append_lines [line], closedBlocks_discards ?_ _⟩
  refine ⟨ledger.lines.length, ?_⟩
  rw [List.nil_append, ← hconserved]
  exact congrArg List.flatten List.take_left.symm

omit [DecidableEq α] in
/-- Taking discards no block. -/
theorem ClosedBlocks.take {ledger : Ledger α}
    (h : ClosedBlocks d ledger.lines [] ledger.removals) (n : Nat) :
    ClosedBlocks d (ledger.take n).lines [] (ledger.take n).removals := by
  refine closedBlocks_append.mpr ⟨h, ?_, trivial⟩
  intro hfate
  contradiction

/-! ## Sequences of offers and takes -/

/-- One operation on the queue. -/
inductive Op (α : Type*) where
  | offer (line : List α)
  | take (n : Nat)

variable (d) in
/-- The ledger after one operation. -/
def Op.apply (ledger : Ledger α) : Op α → Ledger α
  | .offer line => ledger.offer d cap line
  | .take n => ledger.take n

variable (d) in
/-- The ledger can be reached from the empty one by offers and takes. -/
def Reachable (ledger : Ledger α) : Prop :=
  ∃ ops : List (Op α), ledger = StepSystem.run (Op.apply d cap) empty ops

/-- The empty queue is reachable. -/
theorem reachable_empty : (empty : Ledger α).Reachable d cap := ⟨[], rfl⟩

/-- One more line. -/
theorem Reachable.offer {ledger : Ledger α} (h : ledger.Reachable d cap) (line : List α) :
    (ledger.offer d cap line).Reachable d cap := by
  rcases h with ⟨ops, rfl⟩
  exact ⟨ops ++ [.offer line], by rw [StepSystem.run_concat]; rfl⟩

/-- One more taking. -/
theorem Reachable.take {ledger : Ledger α} (h : ledger.Reachable d cap) (n : Nat) :
    (ledger.take n).Reachable d cap := by
  rcases h with ⟨ops, rfl⟩
  exact ⟨ops ++ [.take n], by rw [StepSystem.run_concat]; rfl⟩

/-- After every sequence of operations the lines are the removed items followed
by the queue. -/
theorem Reachable.conserved {ledger : Ledger α} (h : ledger.Reachable d cap) :
    ledger.Conserved := by
  rcases h with ⟨ops, rfl⟩
  refine StepSystem.run_invariant (P := Conserved) ?_ conserved_empty ops
  intro ledger op hledger
  cases op with
  | offer line => exact hledger.offer d cap line
  | take n => exact hledger.take n

/-- After every sequence of operations the discarded blocks are closed. -/
theorem Reachable.closedBlocks {ledger : Ledger α} (h : ledger.Reachable d cap) :
    ClosedBlocks d ledger.lines [] ledger.removals := by
  rcases h with ⟨ops, rfl⟩
  refine (StepSystem.run_invariant
    (P := fun ledger : Ledger α =>
      ledger.Conserved ∧ ClosedBlocks d ledger.lines [] ledger.removals)
    ?_ ⟨conserved_empty, trivial⟩ ops).2
  rintro ledger op ⟨hconserved, hclosed⟩
  cases op with
  | offer line =>
    exact ⟨hconserved.offer d cap line, ClosedBlocks.offer cap hconserved hclosed line⟩
  | take n => exact ⟨hconserved.take n, ClosedBlocks.take hclosed n⟩

end Ledger

end LineQueue
