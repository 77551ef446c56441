import RadonMCU.Foundations.LineQueue

/-!
# What becomes of each line

Removals from the front of a line queue meet the lines in order.  An account says
of each line that left the queue whether it was taken or discarded as a whole; a
trimming says which beginning of it was discarded before the rest was taken.

Main results:

- Theorems {lit}`Account.offer` and {lit}`Account.take`: as long as no line is
  evicted whose beginning was taken, every line leaves the queue as a whole.
- Theorem {lit}`Account.begun_eq_nil_iff`: no line is half taken exactly when the
  delimiter was removed last.
- Theorems {lit}`Trimming.offer` and {lit}`Trimming.drain`: when the reader always
  empties the queue, a line loses at most a beginning to evictions and the rest is
  taken.
-/

namespace LineQueue

open Segments

variable {α : Type*}

/-! ## Lines with one fate each -/

/-- The items of some lines, each line with one fate. -/
def settled (fates : List Fate) (lines : List (List α)) : List (Fate × α) :=
  (fates.zip lines).flatMap fun pair => tag pair.1 pair.2

/-- The fates of the first lines, then those of the next. -/
theorem settled_append {fates fates' : List Fate} {lines : List (List α)}
    (h : fates.length ≤ lines.length) :
    settled (fates ++ fates') lines =
      settled fates lines ++ settled fates' (lines.drop fates.length) := by
  induction fates generalizing lines with
  | nil => simp [settled]
  | cons fate fates ih =>
    cases lines with
    | nil => simp at h
    | cons line lines =>
      have ih' := ih (Nat.le_of_succ_le_succ h)
      simp only [settled] at ih'
      simp [settled, ih']

/-- Further lines leave the settled ones. -/
theorem settled_append_lines {fates : List Fate} {lines : List (List α)}
    (h : fates.length ≤ lines.length) (lines' : List (List α)) :
    settled fates (lines ++ lines') = settled fates lines := by
  induction fates generalizing lines with
  | nil => simp [settled]
  | cons fate fates ih =>
    cases lines with
    | nil => simp at h
    | cons line lines =>
      have ih' := ih (Nat.le_of_succ_le_succ h)
      simp only [settled] at ih'
      simp [settled, ih']

/-- Lines that all have one fate. -/
theorem settled_replicate (fate : Fate) {n : Nat} {lines : List (List α)}
    (h : n ≤ lines.length) :
    settled (List.replicate n fate) lines = tag fate (lines.take n).flatten := by
  induction n generalizing lines with
  | zero => simp [settled]
  | succ n ih =>
    cases lines with
    | nil => simp at h
    | cons line lines =>
      have ih' := ih (Nat.le_of_succ_le_succ h)
      simp only [settled] at ih'
      simp [settled, List.replicate_succ, ih']

/-- Without their tags, the settled lines are the first ones. -/
theorem map_snd_settled {fates : List Fate} {lines : List (List α)}
    (h : fates.length ≤ lines.length) :
    (settled fates lines).map Prod.snd = (lines.take fates.length).flatten := by
  induction fates generalizing lines with
  | nil => simp [settled]
  | cons fate fates ih =>
    cases lines with
    | nil => simp at h
    | cons line lines =>
      have ih' := ih (Nat.le_of_succ_le_succ h)
      simp only [settled] at ih'
      simp [settled, map_snd_tag, ih']

/-! ## Where the removals stand -/

/-- After {lit}`n` lines and the beginning {lit}`begun` of the next one, the queue is
what is left of the lines. -/
structure Pending (lines : List (List α)) (n : Nat) (begun queue : List α) : Prop where
  le : n ≤ lines.length
  rest : (lines.drop n).flatten = begun ++ queue
  begun_lt : ∀ line, lines[n]? = some line → begun.length < line.length

/-- Either nothing is left, or the queue goes on with the rest of the next line. -/
theorem Pending.cases {lines : List (List α)} {n : Nat} {begun queue : List α}
    (h : Pending lines n begun queue) :
    (begun = [] ∧ queue = [] ∧ lines.length = n) ∨
      ∃ (hlt : n < lines.length) (x : α) (tail : List α),
        lines[n] = begun ++ x :: tail ∧ queue = x :: tail ++ (lines.drop (n + 1)).flatten := by
  have hrest := h.rest
  rcases Nat.lt_or_ge n lines.length with hlt | hge
  · right
    have hbegun := h.begun_lt _ (List.getElem?_eq_getElem hlt)
    rw [List.drop_eq_getElem_cons hlt, List.flatten_cons] at hrest
    rcases List.append_eq_append_iff.mp hrest with ⟨items, hbegun', _⟩ | ⟨items, hline, hqueue⟩
    · rw [hbegun', List.length_append] at hbegun
      omega
    · cases items with
      | nil =>
        rw [hline, List.append_nil] at hbegun
        omega
      | cons x tail => exact ⟨hlt, x, tail, hline, hqueue⟩
  · left
    rw [List.drop_eq_nil_of_le hge] at hrest
    have hnil := List.append_eq_nil_iff.mp hrest.symm
    exact ⟨hnil.1, hnil.2, Nat.le_antisymm hge h.le⟩

/-- When the queue is empty, no line is begun. -/
theorem Pending.begun_eq_nil {lines : List (List α)} {n : Nat} {begun : List α}
    (h : Pending lines n begun []) : begun = [] ∧ lines.length = n := by
  rcases h.cases with ⟨hbegun, _, hlength⟩ | ⟨_, x, tail, _, hqueue⟩
  · exact ⟨hbegun, hlength⟩
  · simp at hqueue

/-- A removed item ends the next line or is one more item of its beginning. -/
theorem Pending.advance {lines : List (List α)} {n : Nat} {begun queue : List α} {x : α}
    (hne : ∀ line ∈ lines, line ≠ []) (h : Pending lines n begun (x :: queue)) :
    (lines[n]? = some (begun ++ [x]) ∧ Pending lines (n + 1) [] queue) ∨
      Pending lines n (begun ++ [x]) queue := by
  rcases h.cases with ⟨_, hqueue, _⟩ | ⟨hlt, y, tail, hline, hqueue⟩
  · contradiction
  · rw [List.cons_append, List.cons.injEq] at hqueue
    rcases hqueue with ⟨rfl, hqueue⟩
    have hget := List.getElem?_eq_getElem hlt
    cases tail with
    | nil =>
      left
      refine ⟨by rw [hget, hline], hlt, hqueue.symm, ?_⟩
      intro line hmem
      exact List.length_pos_iff.mpr (hne line (List.mem_of_getElem? hmem))
    | cons y tail =>
      right
      refine ⟨h.le, ?_, ?_⟩
      · rw [List.drop_eq_getElem_cons hlt, List.flatten_cons, hline, hqueue]
        simp
      · intro line hmem
        rw [hget] at hmem
        cases hmem
        rw [hline]
        simp

/-- A new line comes behind all others. -/
theorem Pending.append_line {lines : List (List α)} {n : Nat} {begun queue line : List α}
    (h : Pending lines n begun queue) (hline : line ≠ []) :
    Pending (lines ++ [line]) n begun (queue ++ line) := by
  refine ⟨?_, ?_, ?_⟩
  · have hle := h.le
    rw [List.length_append]
    omega
  · rw [List.drop_append_of_le_length h.le, List.flatten_append, h.rest]
    simp
  · intro line' hline'
    rcases h.cases with ⟨hbegun, _, hlength⟩ | ⟨hlt, _⟩
    · -- no older line waits, so the new one is next
      rw [← hlength, List.getElem?_concat_length] at hline'
      cases hline'
      rw [hbegun]
      exact List.length_pos_iff.mpr hline
    · rw [List.getElem?_append_left hlt] at hline'
      exact h.begun_lt line' hline'

/-! ## Lines that leave as a whole -/

/-- The removed items are those of the first lines, each line with one fate, and
of the beginning of one more line, which was taken. -/
structure Split (lines : List (List α)) (tagged : List (Fate × α)) (queue : List α)
    (fates : List Fate) (begun : List α) : Prop where
  pending : Pending lines fates.length begun queue
  tagged_eq : tagged = settled fates lines ++ tag .taken begun

/-- One more item is taken. -/
theorem Split.advance {lines : List (List α)} {tagged : List (Fate × α)} {x : α}
    {queue : List α} {fates : List Fate} {begun : List α}
    (hne : ∀ line ∈ lines, line ≠ []) (h : Split lines tagged (x :: queue) fates begun) :
    ∃ fates' begun', Split lines (tagged ++ [(.taken, x)]) queue fates' begun' ∧
      fates'.count .discarded = fates.count .discarded := by
  rcases h.pending.advance hne with ⟨hget, hpending⟩ | hpending
  · rcases List.getElem?_eq_some_iff.mp hget with ⟨hlt, hline⟩
    refine ⟨fates ++ [.taken], [], ⟨?_, ?_⟩, by simp⟩
    · rw [List.length_append, List.length_singleton]
      exact hpending
    · rw [settled_append h.pending.le, h.tagged_eq, List.drop_eq_getElem_cons hlt, hline]
      simp [settled, tag]
  · refine ⟨fates, begun ++ [x], ⟨hpending, ?_⟩, rfl⟩
    rw [h.tagged_eq]
    simp [tag]

/-- A chunk of items is taken. -/
theorem Split.advance_chunk {lines : List (List α)} {tagged : List (Fate × α)}
    {chunk queue : List α} {fates : List Fate} {begun : List α}
    (hne : ∀ line ∈ lines, line ≠ [])
    (h : Split lines tagged (chunk ++ queue) fates begun) :
    ∃ fates' begun', Split lines (tagged ++ tag .taken chunk) queue fates' begun' ∧
      fates'.count .discarded = fates.count .discarded := by
  induction chunk generalizing tagged fates begun with
  | nil => exact ⟨fates, begun, by simpa using h, rfl⟩
  | cons x chunk ih =>
    rcases h.advance hne with ⟨fates', begun', hsplit, hcount⟩
    rcases ih hsplit with ⟨fates'', begun'', hsplit', hcount'⟩
    refine ⟨fates'', begun'', ?_, hcount'.trans hcount⟩
    simpa [tag] using hsplit'

/-- A further line is behind the begun one. -/
theorem Split.append_line {lines : List (List α)} {tagged : List (Fate × α)}
    {queue : List α} {fates : List Fate} {begun line : List α}
    (h : Split lines tagged queue fates begun) (hline : line ≠ []) :
    Split (lines ++ [line]) tagged (queue ++ line) fates begun := by
  refine ⟨h.pending.append_line hline, ?_⟩
  rw [settled_append_lines h.pending.le]
  exact h.tagged_eq

/-- Whole lines are discarded when no line is half taken. -/
theorem Split.discard {lines : List (List α)} {tagged : List (Fate × α)}
    {queue : List α} {fates : List Fate} (hne : ∀ line ∈ lines, line ≠ [])
    (h : Split lines tagged queue fates []) {n : Nat}
    (hn : n ≤ (lines.drop fates.length).length) :
    Split lines (tagged ++ tag .discarded ((lines.drop fates.length).take n).flatten)
      ((lines.drop fates.length).drop n).flatten
      (fates ++ List.replicate n .discarded) [] := by
  have hle := h.pending.le
  rw [List.length_drop] at hn
  refine ⟨⟨?_, ?_, ?_⟩, ?_⟩
  · rw [List.length_append, List.length_replicate]
    omega
  · rw [List.length_append, List.length_replicate, List.drop_drop, List.nil_append]
  · intro line hline
    exact List.length_pos_iff.mpr (hne line (List.mem_of_getElem? hline))
  · rw [settled_append hle, h.tagged_eq, settled_replicate]
    · simp
    · rw [List.length_drop]
      exact hn

/-- Every discarded block is exactly one line; {lit}`before` are the items removed
earlier. -/
def WholeBlocks (lines : List (List α)) : List α → List (Removal α) → Prop
  | _, [] => True
  | before, removal :: removals =>
      (removal.fate = .discarded →
        ∃ n, before = (lines.take n).flatten ∧ lines[n]? = some removal.items) ∧
      WholeBlocks lines (before ++ removal.items) removals

/-- The blocks of two lists of removals, the second one after what the first removed. -/
theorem wholeBlocks_append {lines : List (List α)} {before : List α}
    {removals removals' : List (Removal α)} :
    WholeBlocks lines before (removals ++ removals') ↔
      WholeBlocks lines before removals ∧
        WholeBlocks lines (before ++ removedItems removals) removals' := by
  induction removals generalizing before with
  | nil => simp [WholeBlocks, removedItems]
  | cons removal removals ih =>
    simp only [List.cons_append, WholeBlocks, ih, and_assoc, List.append_assoc]
    rfl

/-- Further lines leave whole blocks whole. -/
theorem WholeBlocks.append_lines {lines : List (List α)} {before : List α}
    {removals : List (Removal α)} (h : WholeBlocks lines before removals)
    (lines' : List (List α)) : WholeBlocks (lines ++ lines') before removals := by
  induction removals generalizing before with
  | nil => trivial
  | cons removal removals ih =>
    refine ⟨?_, ih h.2⟩
    intro hfate
    rcases h.1 hfate with ⟨n, hbefore, hget⟩
    rcases List.getElem?_eq_some_iff.mp hget with ⟨hlt, _⟩
    refine ⟨n, ?_, ?_⟩
    · rw [hbefore, List.take_append_of_le_length (Nat.le_of_lt hlt)]
    · rw [List.getElem?_append_left hlt, hget]

/-- Discarded lines are whole blocks. -/
theorem wholeBlocks_discards {lines : List (List α)} {n k : Nat} (h : n + k ≤ lines.length) :
    WholeBlocks lines (lines.take n).flatten (discards ((lines.drop n).take k)) := by
  induction k generalizing n with
  | zero =>
    rw [List.take_zero]
    trivial
  | succ k ih =>
    have hlt : n < lines.length := by omega
    rw [List.drop_eq_getElem_cons hlt, List.take_succ_cons]
    constructor
    · intro _
      exact ⟨n, rfl, List.getElem?_eq_getElem hlt⟩
    · have hnext : (lines.take n).flatten ++ lines[n] = (lines.take (n + 1)).flatten := by
        rw [List.take_succ_eq_append_getElem hlt, List.flatten_append, List.flatten_singleton]
      have hrest := @ih (n + 1) (by omega)
      rw [← hnext] at hrest
      exact hrest

/-- Every line that left the queue left it as a whole, the discarded ones one
block each; {lit}`begun` is the taken beginning of the next line. -/
structure Account (ledger : Ledger α) (fates : List Fate) (begun : List α) : Prop where
  ne_nil : ∀ line ∈ ledger.lines, line ≠ []
  split : Split ledger.lines (taggedItems ledger.removals) ledger.queue fates begun
  count : (discardedBlocks ledger.removals).length = fates.count .discarded
  blocks : WholeBlocks ledger.lines [] ledger.removals

/-- Nothing is pending before the first line. -/
theorem pending_empty : Pending ([] : List (List α)) 0 [] [] :=
  ⟨Nat.le_refl _, rfl, by simp⟩

/-- The empty ledger has an account. -/
theorem account_empty : Account (Ledger.empty : Ledger α) [] [] :=
  ⟨by simp [Ledger.empty], ⟨pending_empty, rfl⟩, rfl, trivial⟩

/-- The removed items of an account are whole lines and a taken beginning. -/
theorem Account.removed_eq {ledger : Ledger α} {fates : List Fate} {begun : List α}
    (h : Account ledger fates begun) :
    removedItems ledger.removals = (ledger.lines.take fates.length).flatten ++ begun := by
  rw [← map_snd_taggedItems, h.split.tagged_eq, List.map_append,
    map_snd_settled h.split.pending.le, map_snd_tag]

/-- Taking settles lines, and may begin one. -/
theorem Account.take {ledger : Ledger α} {fates : List Fate} {begun : List α}
    (h : Account ledger fates begun) (n : Nat) :
    ∃ fates' begun', Account (ledger.take n) fates' begun' := by
  have hsplit := h.split
  rw [← List.take_append_drop n ledger.queue] at hsplit
  rcases hsplit.advance_chunk h.ne_nil with ⟨fates', begun', hsplit', hcount⟩
  refine ⟨fates', begun', h.ne_nil, ?_, ?_, ?_⟩
  · simpa [Ledger.take, taggedItems] using hsplit'
  · rw [hcount, ← h.count]
    simp [Ledger.take, discardedBlocks]
  · refine wholeBlocks_append.mpr ⟨h.blocks, ?_, trivial⟩
    intro hfate
    contradiction

/-- Taking again and again. -/
theorem Account.iterate_take {ledger : Ledger α} {fates : List Fate} {begun : List α}
    (h : Account ledger fates begun) (n k : Nat) :
    ∃ fates' begun', Account ((Ledger.take n)^[k] ledger) fates' begun' := by
  induction k generalizing ledger fates begun with
  | zero => exact ⟨fates, begun, h⟩
  | succ k ih =>
    rcases h.take n with ⟨fates', begun', haccount⟩
    exact ih haccount

/-- When the queue is empty, no line is half taken. -/
theorem Account.begun_eq_nil {ledger : Ledger α} {fates : List Fate} {begun : List α}
    (h : Account ledger fates begun) (hqueue : ledger.queue = []) : begun = [] := by
  have hpending := h.split.pending
  rw [hqueue] at hpending
  exact hpending.begun_eq_nil.1

/-- An offer when no line is half taken discards the lines it evicts. -/
theorem Account.discards_eq [DecidableEq α] {d : α} {cap : Nat} {ledger : Ledger α}
    {fates : List Fate} (h : Account ledger fates [])
    (hwhole : WholeLines d (ledger.lines.drop fates.length)) (lineLen : Nat) :
    ledger.evictions d cap lineLen ≤ (ledger.lines.drop fates.length).length ∧
      takeSegments d (ledger.evictions d cap lineLen) ledger.queue =
        (ledger.lines.drop fates.length).take (ledger.evictions d cap lineLen) ∧
      dropSegments d (ledger.evictions d cap lineLen) ledger.queue =
        ((ledger.lines.drop fates.length).drop (ledger.evictions d cap lineLen)).flatten := by
  have hqueue : ledger.queue = (ledger.lines.drop fates.length).flatten := by
    rw [h.split.pending.rest, List.nil_append]
  have hcount : ledger.evictions d cap lineLen ≤
      (ledger.lines.drop fates.length).length := by
    rw [Ledger.evictions, hqueue]
    exact segmentsToDrop_flatten_le hwhole _
  have htake := takeSegments_flatten hwhole hcount
  have hdrop := dropSegments_flatten hwhole (ledger.evictions d cap lineLen)
  rw [← hqueue] at htake hdrop
  exact ⟨hcount, htake, hdrop⟩

/-- A line that fits, or that arrives when no line is half taken, evicts whole
lines only. -/
theorem Account.offer [DecidableEq α] {d : α} {cap : Nat} {ledger : Ledger α}
    {fates : List Fate} {begun line : List α} (h : Account ledger fates begun)
    (hline : line ≠ []) (hwhole : WholeLines d (ledger.lines.drop fates.length))
    (hstart : begun = [] ∨ ledger.evictions d cap line.length = 0) :
    ∃ fates', Account (ledger.offer d cap line) fates' begun := by
  have hne : ∀ line' ∈ ledger.lines ++ [line], line' ≠ [] := by
    intro line' hmem
    rcases List.mem_append.mp hmem with hold | hnew
    · exact h.ne_nil line' hold
    · rw [List.mem_singleton.mp hnew]
      exact hline
  refine ⟨fates ++ List.replicate (ledger.evictions d cap line.length) .discarded, hne, ?_, ?_,
    ?_⟩
  · rw [Ledger.offer, taggedItems_append, taggedItems_discards]
    rcases hstart with rfl | hzero
    · rcases h.discards_eq hwhole line.length with ⟨hcount, htake, hdrop⟩
      rw [htake, hdrop]
      exact (h.split.discard h.ne_nil hcount).append_line hline
    · simp only [hzero, takeSegments_zero, dropSegments_zero, List.replicate_zero,
        List.append_nil, List.flatten_nil, tag_nil]
      exact h.split.append_line hline
  · rw [Ledger.offer, discardedBlocks_append, discardedBlocks_discards, List.length_append,
      takeSegments_length, h.count, List.count_append]
    simp
  · refine wholeBlocks_append.mpr ⟨h.blocks.append_lines [line], ?_⟩
    rcases hstart with rfl | hzero
    · rcases h.discards_eq hwhole line.length with ⟨hcount, htake, _⟩
      have hle := h.split.pending.le
      rw [List.length_drop] at hcount
      rw [htake, List.nil_append, h.removed_eq, List.append_nil]
      exact (wholeBlocks_discards (by omega)).append_lines [line]
    · rw [hzero]
      trivial

/-! ## Reading an account -/

/-- Lines that all end in the delimiter and hold it nowhere else: no line is half
taken exactly when nothing was removed or the delimiter was removed last. -/
theorem Account.begun_eq_nil_iff {d : α} {ledger : Ledger α} {fates : List Fate}
    {begun : List α} (h : Account ledger fates begun)
    (hends : ∀ line ∈ ledger.lines, EndsIn d line ∧ d ∉ line.dropLast) :
    begun = [] ↔ removedItems ledger.removals = [] ∨ EndsIn d (removedItems ledger.removals) := by
  rw [h.removed_eq]
  constructor
  · rintro rfl
    rw [List.append_nil]
    by_cases hnil : ledger.lines.take fates.length = []
    · left
      rw [hnil]
      rfl
    · right
      apply endsIn_flatten hnil
      intro line hline
      exact (hends line (List.mem_of_mem_take hline)).1
  · intro hlast
    by_contra hbegun
    rcases hlast with hnil | hlast
    · exact hbegun (List.append_eq_nil_iff.mp hnil).2
    · unfold EndsIn at hlast
      rw [List.getLast?_append_of_ne_nil _ hbegun] at hlast
      rcases h.split.pending.cases with ⟨hnil, _⟩ | ⟨hlt, x, tail, hline, _⟩
      · exact hbegun hnil
      · -- the beginning of a line holds no delimiter
        apply (hends _ (List.getElem_mem hlt)).2
        rw [hline, List.dropLast_append_cons]
        exact List.mem_append_left _ (List.mem_of_getLast? hlast)

/-- The lines whose items were taken. -/
def takenLines (fates : List Fate) (lines : List (List α)) : List (List α) :=
  ((fates.zip lines).filter fun pair => pair.1 = .taken).map Prod.snd

/-- The taken lines are some of the lines, in order. -/
theorem takenLines_sublist (fates : List Fate) (lines : List (List α)) :
    (takenLines fates lines).Sublist lines := by
  induction fates generalizing lines with
  | nil => simp [takenLines]
  | cons fate fates ih =>
    cases lines with
    | nil => simp [takenLines]
    | cons line lines =>
      have ih' := ih lines
      simp only [takenLines] at ih'
      cases fate with
      | taken => simpa [takenLines] using ih'
      | discarded => simpa [takenLines] using ih'.cons line

/-- The taken items are those of the taken lines. -/
theorem filter_settled (fates : List Fate) (lines : List (List α)) :
    ((settled fates lines).filter fun pair => pair.1 = .taken).map Prod.snd =
      (takenLines fates lines).flatten := by
  induction fates generalizing lines with
  | nil => simp [settled, takenLines]
  | cons fate fates ih =>
    cases lines with
    | nil => simp [settled, takenLines]
    | cons line lines =>
      have hcons : settled (fate :: fates) (line :: lines) =
          tag fate line ++ settled fates lines := by
        simp [settled]
      rw [hcons, List.filter_append, List.map_append, ih, filter_tag]
      cases fate <;> simp [takenLines]

/-- What was taken are whole lines, in order, and the beginning of one more. -/
theorem Account.takenItems_eq {ledger : Ledger α} {fates : List Fate} {begun : List α}
    (h : Account ledger fates begun) :
    takenItems ledger.removals = (takenLines fates ledger.lines).flatten ++ begun := by
  rw [LineQueue.takenItems_eq, h.split.tagged_eq, List.filter_append, List.map_append,
    filter_settled, filter_tag, if_pos rfl]

/-! ## Lines that lose a beginning -/

/-- The items of lines that were discarded up to some point and then taken. -/
def trimmed (parts : List (List α × List α)) : List (Fate × α) :=
  parts.flatMap fun part => tag .discarded part.1 ++ tag .taken part.2

/-- The parts of the first lines, then those of the next. -/
theorem trimmed_append (parts parts' : List (List α × List α)) :
    trimmed (parts ++ parts') = trimmed parts ++ trimmed parts' :=
  List.flatMap_append

/-- The removed items are those of the first lines, each line with a discarded
beginning and a taken rest, and of a discarded beginning of one more line. -/
structure Trim (lines : List (List α)) (tagged : List (Fate × α)) (queue : List α)
    (parts : List (List α × List α)) (begun : List α) : Prop where
  pending : Pending lines parts.length begun queue
  lines_eq : lines.take parts.length = parts.map fun part => part.1 ++ part.2
  tagged_eq : tagged = trimmed parts ++ tag .discarded begun

/-- One more item is discarded. -/
theorem Trim.advance {lines : List (List α)} {tagged : List (Fate × α)} {x : α}
    {queue : List α} {parts : List (List α × List α)} {begun : List α}
    (hne : ∀ line ∈ lines, line ≠ []) (h : Trim lines tagged (x :: queue) parts begun) :
    ∃ parts' begun', Trim lines (tagged ++ [(.discarded, x)]) queue parts' begun' := by
  rcases h.pending.advance hne with ⟨hget, hpending⟩ | hpending
  · rcases List.getElem?_eq_some_iff.mp hget with ⟨hlt, hline⟩
    refine ⟨parts ++ [(begun ++ [x], [])], [], ?_, ?_, ?_⟩
    · rw [List.length_append, List.length_singleton]
      exact hpending
    · rw [List.length_append, List.length_singleton, List.take_succ_eq_append_getElem hlt,
        h.lines_eq, hline]
      simp
    · rw [h.tagged_eq, trimmed_append]
      simp [trimmed, tag]
  · refine ⟨parts, begun ++ [x], hpending, h.lines_eq, ?_⟩
    rw [h.tagged_eq]
    simp [tag]

/-- A chunk of items is discarded. -/
theorem Trim.advance_chunk {lines : List (List α)} {tagged : List (Fate × α)}
    {chunk queue : List α} {parts : List (List α × List α)} {begun : List α}
    (hne : ∀ line ∈ lines, line ≠ []) (h : Trim lines tagged (chunk ++ queue) parts begun) :
    ∃ parts' begun', Trim lines (tagged ++ tag .discarded chunk) queue parts' begun' := by
  induction chunk generalizing tagged parts begun with
  | nil => exact ⟨parts, begun, by simpa using h⟩
  | cons x chunk ih =>
    rcases h.advance hne with ⟨parts', begun', htrim⟩
    rcases ih htrim with ⟨parts'', begun'', htrim'⟩
    refine ⟨parts'', begun'', ?_⟩
    simpa [tag] using htrim'

/-- The whole queue is taken. -/
theorem Trim.take_all {lines : List (List α)} {tagged : List (Fate × α)} {queue : List α}
    {parts : List (List α × List α)} {begun : List α} (h : Trim lines tagged queue parts begun) :
    ∃ parts', Trim lines (tagged ++ tag .taken queue) [] parts' [] := by
  rcases h.pending.cases with ⟨rfl, rfl, _⟩ | ⟨hlt, x, tail, hline, hqueue⟩
  · refine ⟨parts, h.pending, h.lines_eq, ?_⟩
    rw [h.tagged_eq]
    simp
  · -- the next line loses what was discarded of it, and the later lines nothing
    have hlength : (parts ++ (begun, x :: tail) ::
        (lines.drop (parts.length + 1)).map (Prod.mk [])).length = lines.length := by
      rw [List.length_append, List.length_cons, List.length_map, List.length_drop]
      omega
    refine ⟨parts ++ (begun, x :: tail) ::
      (lines.drop (parts.length + 1)).map (Prod.mk []), ⟨?_, ?_, ?_⟩, ?_, ?_⟩
    · rw [hlength]
    · rw [hlength, List.drop_length]
      rfl
    · intro line hget
      rw [hlength, List.getElem?_length] at hget
      contradiction
    · rw [hlength, List.take_length, List.map_append, ← h.lines_eq, List.map_cons, ← hline,
        List.map_map]
      have hid : ((fun part : List α × List α => part.1 ++ part.2) ∘ Prod.mk []) = id := rfl
      rw [hid, List.map_id, ← List.drop_eq_getElem_cons hlt, List.take_append_drop]
    · rw [h.tagged_eq, trimmed_append, hqueue]
      simp [trimmed, tag, List.flatMap_def, List.map_flatten, Function.comp_def]

/-- A further line is behind the begun one. -/
theorem Trim.append_line {lines : List (List α)} {tagged : List (Fate × α)}
    {queue : List α} {parts : List (List α × List α)} {begun line : List α}
    (h : Trim lines tagged queue parts begun) (hline : line ≠ []) :
    Trim (lines ++ [line]) tagged (queue ++ line) parts begun := by
  refine ⟨h.pending.append_line hline, ?_, h.tagged_eq⟩
  rw [List.take_append_of_le_length h.pending.le]
  exact h.lines_eq

/-- Every line that left the queue lost at most a beginning to evictions, and the
rest of it was taken; {lit}`begun` is the discarded beginning of the next line. -/
structure Trimming (ledger : Ledger α) (parts : List (List α × List α)) (begun : List α) :
    Prop where
  ne_nil : ∀ line ∈ ledger.lines, line ≠ []
  trim : Trim ledger.lines (taggedItems ledger.removals) ledger.queue parts begun

/-- The empty ledger trims nothing. -/
theorem trimming_empty : Trimming (Ledger.empty : Ledger α) [] [] :=
  ⟨by simp [Ledger.empty], ⟨pending_empty, rfl, rfl⟩⟩

/-- A line may evict any part of the queue. -/
theorem Trimming.offer [DecidableEq α] {ledger : Ledger α} {parts : List (List α × List α)}
    {begun line : List α} (h : Trimming ledger parts begun) (hline : line ≠ []) (d : α)
    (cap : Nat) : ∃ parts' begun', Trimming (ledger.offer d cap line) parts' begun' := by
  have hne : ∀ line' ∈ ledger.lines ++ [line], line' ≠ [] := by
    intro line' hmem
    rcases List.mem_append.mp hmem with hold | hnew
    · exact h.ne_nil line' hold
    · rw [List.mem_singleton.mp hnew]
      exact hline
  have htrim := h.trim
  rw [← takeSegments_append_dropSegments d (ledger.evictions d cap line.length) ledger.queue]
    at htrim
  rcases htrim.advance_chunk h.ne_nil with ⟨parts', begun', htrim'⟩
  refine ⟨parts', begun', hne, ?_⟩
  rw [Ledger.offer, taggedItems_append, taggedItems_discards]
  exact htrim'.append_line hline

/-- The reader empties the queue. -/
theorem Trimming.drain {ledger ledger' : Ledger α} {parts : List (List α × List α)}
    {begun : List α} (h : Trimming ledger parts begun) (hlines : ledger'.lines = ledger.lines)
    (hqueue : ledger'.queue = [])
    (htagged : taggedItems ledger'.removals =
      taggedItems ledger.removals ++ tag .taken ledger.queue) :
    ∃ parts', Trimming ledger' parts' [] := by
  rcases h.trim.take_all with ⟨parts', htrim⟩
  refine ⟨parts', ?_, ?_⟩
  · rw [hlines]
    exact h.ne_nil
  · rw [hlines, hqueue, htagged]
    exact htrim

/-- The taken items are those of the kept parts. -/
theorem filter_trimmed (parts : List (List α × List α)) :
    ((trimmed parts).filter fun pair => pair.1 = .taken).map Prod.snd =
      (parts.map Prod.snd).flatten := by
  induction parts with
  | nil => rfl
  | cons part parts ih =>
    have hcons : trimmed (part :: parts) =
        (tag .discarded part.1 ++ tag .taken part.2) ++ trimmed parts := by
      simp [trimmed]
    rw [hcons, List.filter_append, List.filter_append, List.map_append, List.map_append,
      filter_tag, filter_tag, ih]
    simp

/-- What was taken are the rests of the lines. -/
theorem Trimming.takenItems_eq {ledger : Ledger α} {parts : List (List α × List α)}
    {begun : List α} (h : Trimming ledger parts begun) :
    takenItems ledger.removals = (parts.map Prod.snd).flatten := by
  rw [LineQueue.takenItems_eq, h.trim.tagged_eq, List.filter_append, List.map_append, filter_tag,
    filter_trimmed]
  simp

end LineQueue
