import Mathlib.Data.List.Permutation
import RadonMCU.Foundations.RealTime
import RadonMCU.Equinios.Recording

/-!
# Concurrent log calls in a sequential order

Calls of several contexts are linearized at the draw of their timestamp, and at their
only effect when they queue nothing.  This gives a sequential order of the calls as
long as the level still admits a line that draws its timestamp and lines are queued in
the order in which they drew.

Main results:

- Theorem {lit}`Sequenced.step`: under these conditions a step keeps a sequential order
  of the calls so far.
- Theorem {lit}`linesInOrder_step`: the buffer holds the queued lines in the order of their
  enqueue sections, always.
- Theorem {lit}`linearizable_run`: what holds when all calls have returned.
-/

namespace RadonMCU
namespace Equinios

open Segments LineQueue RealTime

/-- The machine after some calls, one after the other. -/
abbrev runOperations (order : List Operation) : Machine :=
  StepSystem.run (fun m op => op.call.run op.context m) Machine.reset order

namespace Recorded

/-- Some sequential order of the calls that returned respects real time and gives the
same ring contents and drop counter. -/
def Linearizable (s : Recorded) : Prop :=
  ∃ order : List Operation, order.Perm (s.returned.map Prod.fst) ∧
    Respects Operation.started s.returned order ∧
    (runOperations order).logger.queued = s.system.machine.logger.queued ∧
    (runOperations order).logger.droppedLines = s.system.machine.logger.droppedLines

instance (s : Recorded) : Decidable s.Linearizable :=
  decidable_of_iff
    (∃ order ∈ (s.returned.map Prod.fst).permutations',
      Respects Operation.started s.returned order ∧
      (runOperations order).logger.queued = s.system.machine.logger.queued ∧
      (runOperations order).logger.droppedLines = s.system.machine.logger.droppedLines)
    (exists_congr fun _ => and_congr_left' List.mem_permutations')

/-! ## A sequential order along the run -/

/-- Calls one after the other keep the logger consistent. -/
theorem consistent_runOperations (order : List Operation) :
    (runOperations order).Consistent :=
  StepSystem.run_invariant (fun _ op hm => hm.apiCall op.context op.call)
    Machine.consistent_reset order

/-- One more call acts on the log as the sequential log says. -/
theorem logState_runOperations_concat (order : List Operation) {op : Operation}
    (hop : op.call.IsLogging) :
    (runOperations (order ++ [op])).logState = (runOperations order).logState.apply op.call := by
  rw [runOperations, StepSystem.run_concat]
  exact Machine.logState_apiCall (consistent_runOperations order).toSound op.context hop

/-- The calls that returned or have drawn their timestamp in a sequential order, which
gives the log with all drawn lines queued. -/
structure Sequenced (s : Recorded) (order : List Operation) : Prop where
  linearizes : Linearizes Operation.started s.returned s.drawn order
  started : ∀ op ∈ order, op.started < s.clock
  log : (runOperations order).logState = s.log.enqueueAll s.pendingLines

/-- Before the first call the empty order will do. -/
theorem sequenced_reset : Sequenced reset [] where
  linearizes := linearizes_nil
  started := fun _ h => by contradiction
  log := rfl

variable {s : Recorded} {a : Action} {order : List Operation}

/-- An operation that is added to the order has been started. -/
theorem Sequenced.started_concat (h : Sequenced s order) {op : Operation}
    (hstarted : op.started < s.clock) : ∀ op' ∈ order ++ [op], op'.started < s.clock := by
  intro op' hop'
  rcases List.mem_append.mp hop' with hold | hnew
  · exact h.started op' hold
  · rw [List.mem_singleton.mp hnew]
    exact hstarted

/-- A step keeps a sequential order if the level still admits a line that draws its
timestamp, and lines are queued as drawn. -/
theorem Sequenced.step (h : Sequenced s order) (htracked : s.Tracked) (hkept : LevelKept s a)
    (horder : InOrder s a) : ∃ order', Sequenced (s.step a) order' := by
  have heffect := htracked.effect a
  have hclock : (s.step a).clock = s.clock + 1 := rfl
  generalize s.step a = s' at heffect hclock
  cases heffect with
  | kept hkept' =>
    refine ⟨order, ?_, ?_, ?_⟩
    · rw [hkept'.returned, hkept'.drawn]
      exact h.linearizes
    · rw [hclock]
      exact fun op hop => Nat.lt_succ_of_lt (h.started op hop)
    · rw [hkept'.log, hkept'.pending]
      exact h.log
  | @drew op level formatted answer hdrew =>
    refine ⟨order ++ [op], ?_, ?_, ?_⟩
    · rw [hdrew.returned, hdrew.drawn]
      exact h.linearizes.point hdrew.new
    · rw [hclock]
      exact fun op' hop' => Nat.lt_succ_of_lt (h.started_concat hdrew.started op' hop')
    · have hlogging : op.call.IsLogging := by
        rw [hdrew.call]
        trivial
      have hadmitted : ¬ (s.log.enqueueAll s.pendingLines).filters level = true := by
        rw [Bool.not_eq_true]
        exact hdrew.kept hkept
      rw [logState_runOperations_concat order hlogging, h.log, hdrew.call, LogState.apply,
        if_neg hadmitted, LogState.stamp_enqueueAll, hdrew.log, hdrew.pending]
  | @queued op line before after lines lines' hqueued =>
    have hbefore := hqueued.inOrder.mp horder
    have hnil := hqueued.lines_eq_nil.mp hbefore
    subst hbefore hnil
    refine ⟨order, ?_, ?_, ?_⟩
    · have hlinearizes := h.linearizes
      rw [hqueued.drawn] at hlinearizes
      rw [hqueued.returned, hqueued.drawn_after]
      exact hlinearizes.returns fun op' hop' => (h.started op' hop').le
    · rw [hclock]
      exact fun op' hop' => Nat.lt_succ_of_lt (h.started op' hop')
    · rw [h.log, hqueued.pending, hqueued.log, hqueued.pending_after]
      exact LogState.enqueueAll_append s.log [line] lines'
  | @whole op hwhole =>
    have hall := h.started_concat hwhole.started
    refine ⟨order ++ [op], ?_, ?_, ?_⟩
    · rw [hwhole.returned, hwhole.drawn]
      exact h.linearizes.point_return hwhole.new fun op' hop' => (hall op' hop').le
    · rw [hclock]
      exact fun op' hop' => Nat.lt_succ_of_lt (hall op' hop')
    · rw [logState_runOperations_concat order hwhole.logging, h.log, hwhole.call,
        hwhole.pending]

/-! ## The buffer and the queued lines -/

/-- The buffer is what the queued lines make of it, in the order of their enqueue
sections. -/
def LinesInOrder (s : Recorded) : Prop :=
  s.log.lines = s.accepted.foldl LineBuffer.enqueue { queued := [], droppedLines := 0 }

/-- Before the first call the buffer is empty. -/
theorem linesInOrder_reset : reset.LinesInOrder := by
  have hlines := Machine.sound_reset.lines_logState
  have hqueued : Machine.reset.logger.queued = [] := RingBuffer.contents_new
  rw [hqueued] at hlines
  exact hlines

/-- Every action keeps the buffer that of the queued lines. -/
theorem linesInOrder_step (h : s.LinesInOrder) (htracked : s.Tracked) :
    (s.step a).LinesInOrder := by
  have heffect := htracked.effect a
  generalize s.step a = s' at heffect
  unfold LinesInOrder at *
  cases heffect with
  | kept hkept => rw [hkept.log, hkept.accepted, h]
  | drew hdrew =>
    rw [hdrew.log, hdrew.accepted, ← h]
    rfl
  | queued hqueued =>
    rw [hqueued.log, hqueued.accepted, List.foldl_append, ← h]
    rfl
  | whole hwhole => rw [hwhole.lines, hwhole.accepted, h]

/-! ## Timestamps of the tick counter -/

/-- How many timestamps were drawn. -/
def draws (s : Recorded) : Nat := s.accepted.length + s.pendingLines.length

/-- The first values of the tick counter. -/
def ticks (n : Nat) : List UInt32 := (List.range n).map UInt32.ofNat

/-- One more tick. -/
theorem ticks_succ (n : Nat) : ticks (n + 1) = ticks n ++ [UInt32.ofNat n] := by
  rw [ticks, List.range_succ, List.map_append]
  rfl

/-- Fewer than {lit}`2^32` ticks are strictly increasing. -/
theorem pairwise_ticks {n : Nat} (h : n ≤ 2 ^ 32) : (ticks n).Pairwise (· < ·) := by
  unfold ticks
  rw [List.pairwise_map]
  apply List.pairwise_lt_range.imp_of_mem
  intro i j _ hj hij
  have hlt := List.mem_range.mp hj
  rw [UInt32.lt_iff_toNat_lt, UInt32.toNat_ofNat', UInt32.toNat_ofNat',
    Nat.mod_eq_of_lt (by omega), Nat.mod_eq_of_lt (by omega)]
  exact hij

/-- No timestamp function is installed. -/
def NoProvider (s : Recorded) : Prop := s.log.timestampProvider.timestampProvider = none

/-- The counter is the number of draws; the pending lines hold the ticks that no queued
line has, in the order drawn. -/
structure Ticking (s : Recorded) : Prop where
  counter : s.log.timestampProvider.ticksCount = UInt32.ofNat s.draws
  pending : (s.pendingLines.map Accepted.timestamp).Sublist (ticks s.draws)

/-- A function that is installed stays so. -/
theorem noProvider_of_step (htracked : s.Tracked) (h : (s.step a).NoProvider) :
    s.NoProvider := by
  have heffect := htracked.effect a
  generalize s.step a = s' at heffect h
  unfold NoProvider at *
  cases heffect with
  | kept hkept => rwa [hkept.log] at h
  | drew hdrew =>
    rw [hdrew.log] at h
    unfold LogState.draw TimestampProvider.getTimestamp at h
    split at h
    · rename_i hsome
      rw [hsome] at h
      contradiction
    · exact h
  | queued hqueued =>
    rw [hqueued.log] at h
    exact h
  | whole hwhole =>
    rw [← hwhole.provider h]
    exact h

/-- Without a provider a message gets the count, which goes up. -/
theorem draw_of_noProvider (h : s.NoProvider) (answer : UInt32) :
    (s.log.draw answer).1 = s.log.timestampProvider.ticksCount ∧
      (s.log.draw answer).2.timestampProvider.ticksCount =
        s.log.timestampProvider.ticksCount + 1 := by
  unfold NoProvider at h
  unfold LogState.draw TimestampProvider.getTimestamp
  rw [h]
  exact ⟨rfl, rfl⟩

/-- Every action without a provider keeps the counter the number of draws. -/
theorem Ticking.step (h : s.Ticking) (htracked : s.Tracked) (hnone : (s.step a).NoProvider) :
    (s.step a).Ticking := by
  have hbefore := noProvider_of_step htracked hnone
  have heffect := htracked.effect a
  generalize s.step a = s' at heffect hnone
  cases heffect with
  | kept hkept =>
    have hdraws : s'.draws = s.draws := by rw [draws, hkept.accepted, hkept.pending, draws]
    constructor
    · rw [hkept.log, hdraws]
      exact h.counter
    · rw [hkept.pending, hdraws]
      exact h.pending
  | @drew op level formatted answer hdrew =>
    rcases draw_of_noProvider hbefore answer with ⟨hdrawn, hcounter⟩
    have hdraws : s'.draws = s.draws + 1 := by
      rw [draws, hdrew.accepted, hdrew.pending, List.length_append, draws]
      rfl
    constructor
    · rw [hdrew.log, hcounter, hdraws, h.counter]
      exact (UInt32.ofNat_add _ _).symm
    · rw [hdrew.pending, hdraws, ticks_succ, List.map_append, ← h.counter, ← hdrawn]
      exact h.pending.append_right _
  | @queued op line before after lines lines' hqueued =>
    have hdraws : s'.draws = s.draws := by
      rw [draws, hqueued.accepted, hqueued.pending_after, draws, hqueued.pending]
      simp only [List.length_append, List.length_cons, List.length_nil]
      omega
    have hremaining : (lines ++ lines').Sublist (lines ++ line :: lines') :=
      (List.sublist_cons_self line lines').append_left lines
    constructor
    · rw [hqueued.log, hdraws]
      exact h.counter
    · rw [hqueued.pending_after, hdraws]
      have hall := h.pending
      rw [hqueued.pending] at hall
      exact (hremaining.map Accepted.timestamp).trans hall
  | whole hwhole =>
    have hdraws : s'.draws = s.draws := by rw [draws, hwhole.accepted, hwhole.pending, draws]
    constructor
    · rw [hwhole.provider hnone, hdraws]
      exact h.counter
    · rw [hwhole.pending, hdraws]
      exact h.pending

/-- The queued and the pending lines hold the ticks in order. -/
def TicksInOrder (s : Recorded) : Prop :=
  (s.accepted ++ s.pendingLines).map Accepted.timestamp = ticks s.draws

/-- Lines that are queued as drawn keep the ticks in order. -/
theorem ticksInOrder_step (h : s.TicksInOrder) (hticking : s.Ticking) (htracked : s.Tracked)
    (hnone : (s.step a).NoProvider) (horder : s.InOrder a) : (s.step a).TicksInOrder := by
  have hbefore := noProvider_of_step htracked hnone
  have heffect := htracked.effect a
  generalize s.step a = s' at heffect hnone
  unfold TicksInOrder draws at *
  cases heffect with
  | kept hkept => rw [hkept.accepted, hkept.pending, h]
  | @drew op level formatted answer hdrew =>
    have hdrawn := (draw_of_noProvider hbefore answer).1
    rw [hdrew.accepted, hdrew.pending, ← List.append_assoc, List.map_append, h,
      List.length_append, ← Nat.add_assoc]
    change _ = ticks (s.draws + 1)
    rw [ticks_succ, ← hticking.counter, ← hdrawn]
    rfl
  | @queued op line before after lines lines' hqueued =>
    have hnil := hqueued.lines_eq_nil.mp (hqueued.inOrder.mp horder)
    subst hnil
    rw [hqueued.pending, List.nil_append, List.length_cons] at h
    rw [hqueued.accepted, hqueued.pending_after, List.append_assoc, List.length_append,
      Nat.add_assoc, List.singleton_append, List.nil_append, h, List.length_singleton,
      Nat.add_comm 1]
  | whole hwhole => rw [hwhole.accepted, hwhole.pending, h]

/-! ## Whole runs -/

/-- A whole run is tracked. -/
theorem tracked_run {acts : List Action} (hacts : ∀ a ∈ acts, a.IsLogging) (hs : s.Tracked) :
    (run s acts).Tracked :=
  StepSystem.run_invariant_of_meets (fun _ _ h ha => h.step ha) hs
    (StepSystem.meets_of_forall hacts)

/-- When all calls have returned no line is pending. -/
theorem Tracked.pendingLines_eq_nil (h : s.Tracked) (hidle : ∀ c, s.system.pc c = .idle) :
    s.drawn = [] ∧ s.pendingLines = [] := by
  have hnil : s.drawn = [] := by
    apply List.eq_nil_iff_forall_not_mem.mpr
    intro op hop
    rcases h.pc_of_mem_drawn hop with ⟨_, _, hpc⟩
    rw [hidle] at hpc
    contradiction
  refine ⟨hnil, ?_⟩
  rw [pendingLines, hnil]
  rfl

/-- An order of the operations, when all contexts are idle, linearizes the run. -/
theorem Sequenced.linearizable (h : Sequenced s order) (htracked : s.Tracked)
    (hidle : ∀ c, s.system.pc c = .idle) : s.Linearizable := by
  rcases htracked.pendingLines_eq_nil hidle with ⟨hdrawn, hpending⟩
  have hperm := h.linearizes.perm
  have hlines := congrArg LogState.lines h.log
  rw [hdrawn, List.append_nil] at hperm
  rw [hpending] at hlines
  change _ = s.log.lines at hlines
  rw [(consistent_runOperations order).lines_logState,
    htracked.consistent.machine.lines_logState] at hlines
  exact ⟨order, hperm, h.linearizes.respects, congrArg LineBuffer.queued hlines,
    congrArg LineBuffer.droppedLines hlines⟩

/-- What a run keeps of the lines it starts with. -/
structure Later (s s' : Recorded) : Prop where
  accepted : ∃ rest, s'.accepted = s.accepted ++ rest ∧
    ∀ line ∈ s.pendingLines, line ∈ rest ∨ line ∈ s'.pendingLines
  draws : s.draws ≤ s'.draws
  provider : s'.NoProvider → s.NoProvider

/-- No action. -/
theorem Later.refl (s : Recorded) : Later s s :=
  ⟨⟨[], (List.append_nil _).symm, fun _ h => Or.inr h⟩, Nat.le_refl _, id⟩

/-- Some actions and then some more. -/
theorem Later.trans {s' s'' : Recorded} (h : Later s s') (h' : Later s' s'') : Later s s'' := by
  rcases h.accepted with ⟨rest, haccepted, hpending⟩
  rcases h'.accepted with ⟨rest', haccepted', hpending'⟩
  refine ⟨⟨rest ++ rest', ?_, ?_⟩, h.draws.trans h'.draws, h.provider ∘ h'.provider⟩
  · rw [haccepted', haccepted, List.append_assoc]
  · intro line hline
    rcases hpending line hline with hqueued | hstill
    · exact Or.inl (List.mem_append_left _ hqueued)
    · exact (hpending' line hstill).imp (List.mem_append_right _) id

/-- The same lines are queued and pending. -/
theorem later_of_pending {s' : Recorded} (haccepted : s'.accepted = s.accepted)
    (hpending : s'.pendingLines = s.pendingLines) (hprovider : s'.NoProvider → s.NoProvider) :
    Later s s' := by
  refine ⟨⟨[], ?_, ?_⟩, ?_, hprovider⟩
  · rw [haccepted, List.append_nil]
  · rw [hpending]
    exact fun _ hline => Or.inr hline
  · rw [draws, draws, haccepted, hpending]

/-- One action. -/
theorem Tracked.later (h : s.Tracked) (a : Action) : Later s (s.step a) := by
  have heffect := h.effect a
  have hprovider : (s.step a).NoProvider → s.NoProvider := noProvider_of_step h
  generalize s.step a = s' at heffect hprovider
  cases heffect with
  | kept hkept => exact later_of_pending hkept.accepted hkept.pending hprovider
  | drew hdrew =>
    refine ⟨⟨[], ?_, ?_⟩, ?_, hprovider⟩
    · rw [hdrew.accepted, List.append_nil]
    · rw [hdrew.pending]
      exact fun _ hline => Or.inr (List.mem_append_left _ hline)
    · rw [Recorded.draws, Recorded.draws, hdrew.accepted, hdrew.pending, List.length_append]
      omega
  | @queued op line before after lines lines' hqueued =>
    refine ⟨⟨[line], hqueued.accepted, ?_⟩, ?_, hprovider⟩
    · intro line' hline'
      rw [hqueued.pending, List.mem_append, List.mem_cons] at hline'
      rw [hqueued.pending_after, List.mem_append, List.mem_singleton]
      rcases hline' with hbefore | hsame | hafter
      · exact Or.inr (Or.inl hbefore)
      · exact Or.inl hsame
      · exact Or.inr (Or.inr hafter)
    · rw [Recorded.draws, Recorded.draws, hqueued.accepted, hqueued.pending_after,
        hqueued.pending]
      simp only [List.length_append, List.length_cons, List.length_nil]
      omega
  | whole hwhole => exact later_of_pending hwhole.accepted hwhole.pending hprovider

/-- Any number of actions. -/
theorem Tracked.later_run (h : s.Tracked) {acts : List Action}
    (hacts : ∀ a ∈ acts, a.IsLogging) : Later s (run s acts) := by
  induction acts generalizing s with
  | nil => exact Later.refl s
  | cons a acts ih =>
    have hrest := ih (h.step (hacts a List.mem_cons_self))
      fun b hb => hacts b (List.mem_cons_of_mem a hb)
    exact (h.later a).trans hrest

/-- A line that overtakes another one is queued with a later tick. -/
theorem exists_overtaken (htracked : s.Tracked) (hticking : s.Ticking)
    (hdraws : s.draws ≤ 2 ^ 32) (h : ¬ s.InOrder a) :
    ∃ line, (s.step a).accepted = s.accepted ++ [line] ∧
      ∃ first ∈ (s.step a).pendingLines, first.timestamp < line.timestamp := by
  have hqueues : s.system.queuedBy a ≠ none := by
    intro hnone
    apply h
    unfold InOrder
    rw [hnone]
    exact fun hsome => by contradiction
  have heffect := htracked.effect a
  generalize s.step a = s' at heffect
  cases heffect with
  | kept hkept => exact absurd hkept.queues hqueues
  | drew hdrew => exact absurd hdrew.queues hqueues
  | whole hwhole => exact absurd hwhole.queues hqueues
  | @queued op line before after lines lines' hqueued =>
    refine ⟨line, hqueued.accepted, ?_⟩
    cases lines with
    | nil => exact absurd (hqueued.inOrder.mpr (hqueued.lines_eq_nil.mpr rfl)) h
    | cons first lines =>
      refine ⟨first, ?_, ?_⟩
      · rw [hqueued.pending_after]
        exact List.mem_cons_self
      · have hsorted := (pairwise_ticks hdraws).sublist hticking.pending
        rw [hqueued.pending, List.pairwise_map, List.cons_append, List.pairwise_cons] at hsorted
        exact hsorted.1 line (List.mem_append_right _ List.mem_cons_self)

/-- Recording does not change what the system does. -/
theorem system_run (s : Recorded) (acts : List Action) :
    (run s acts).system = System.run s.system acts := by
  induction acts generalizing s with
  | nil => rfl
  | cons a acts ih => exact ih (s.step a)

/-- A run that keeps the level and in which no line overtakes another has an order. -/
theorem exists_sequenced_run {acts : List Action} (hacts : ∀ a ∈ acts, a.IsLogging)
    (hmeets : StepSystem.Meets step (fun s a => s.LevelKept a ∧ s.InOrder a) reset acts) :
    ∃ order, Sequenced (run reset acts) order := by
  have hboth := StepSystem.meets_and (StepSystem.meets_of_forall hacts) hmeets
  refine (StepSystem.run_invariant_of_meets
    (P := fun s : Recorded => s.Tracked ∧ ∃ order, Sequenced s order) ?_
    ⟨tracked_reset, [], sequenced_reset⟩ hboth).2
  rintro s a ⟨htracked, order, hsequenced⟩ ⟨ha, hkept, horder⟩
  exact ⟨htracked.step ha, hsequenced.step htracked hkept horder⟩

/-- After every run the buffer is that of the queued lines. -/
theorem linesInOrder_run {acts : List Action} (hacts : ∀ a ∈ acts, a.IsLogging) :
    (run reset acts).LinesInOrder := by
  refine (StepSystem.run_invariant_of_meets
    (P := fun s : Recorded => s.Tracked ∧ s.LinesInOrder) ?_ ⟨tracked_reset, linesInOrder_reset⟩
    (StepSystem.meets_of_forall hacts)).2
  intro s a h ha
  exact ⟨h.1.step ha, linesInOrder_step h.2 h.1⟩

/-- After every run without a provider the counter is the number of draws. -/
theorem ticking_run {acts : List Action} (hacts : ∀ a ∈ acts, a.IsLogging)
    (hnone : (run reset acts).NoProvider) : (run reset acts).Ticking := by
  refine (StepSystem.run_invariant_of_meets
    (P := fun s : Recorded => s.Tracked ∧ (s.NoProvider → s.Ticking)) ?_
    ⟨tracked_reset, fun _ => ⟨rfl, List.Sublist.refl _⟩⟩
    (StepSystem.meets_of_forall hacts)).2 hnone
  rintro s a ⟨htracked, hticking⟩ ha
  refine ⟨htracked.step ha, ?_⟩
  intro hafter
  exact (hticking (noProvider_of_step htracked hafter)).step htracked hafter

/-- If no line overtakes another, the lines then hold the ticks in order. -/
theorem ticksInOrder_run {acts : List Action} (hacts : ∀ a ∈ acts, a.IsLogging)
    (horder : StepSystem.Meets step InOrder reset acts)
    (hnone : (run reset acts).NoProvider) : (run reset acts).TicksInOrder := by
  refine (StepSystem.run_invariant_of_meets
    (P := fun s : Recorded => s.Tracked ∧ (s.NoProvider → s.Ticking ∧ s.TicksInOrder)) ?_
    ⟨tracked_reset, fun _ => ⟨⟨rfl, List.Sublist.refl _⟩, rfl⟩⟩
    (StepSystem.meets_and (StepSystem.meets_of_forall hacts) horder)).2 hnone |>.2
  rintro s a ⟨htracked, hticks⟩ ⟨ha, horder⟩
  refine ⟨htracked.step ha, ?_⟩
  intro hafter
  rcases hticks (noProvider_of_step htracked hafter) with ⟨hticking, hinorder⟩
  exact ⟨hticking.step htracked hafter,
    ticksInOrder_step hinorder hticking htracked hafter horder⟩

/-- The lines are queued in strictly increasing order of their timestamps. -/
def Increasing (s : Recorded) : Prop :=
  s.accepted.Pairwise fun line line' => line.timestamp < line'.timestamp

instance (s : Recorded) : Decidable s.Increasing :=
  inferInstanceAs (Decidable (List.Pairwise _ _))

/-- A line that overtakes another one spoils the order for good. -/
theorem inOrder_of_increasing (htracked : s.Tracked) (hticking : s.Ticking)
    (hdraws : s.draws ≤ 2 ^ 32) {s' : Recorded} (hlater : Later (s.step a) s')
    (hpending : s'.pendingLines = []) (hincreasing : s'.Increasing) : s.InOrder a := by
  by_contra hovertakes
  rcases exists_overtaken htracked hticking hdraws hovertakes with
    ⟨line, haccepted, first, hfirst, hlt⟩
  rcases hlater.accepted with ⟨rest, hrest, hqueued⟩
  have hmem : first ∈ rest := by
    rcases hqueued first hfirst with hin | hstill
    · exact hin
    · rw [hpending] at hstill
      contradiction
  unfold Increasing at hincreasing
  rw [hrest, haccepted, List.pairwise_append] at hincreasing
  have hgt := hincreasing.2.2 line (List.mem_append_right _ List.mem_cons_self) first hmem
  exact absurd hlt (UInt32.lt_asymm hgt)

/-- With the tick counter the timestamps increase exactly when lines are queued in the
order in which they drew them. -/
theorem increasing_iff {acts : List Action} (hacts : ∀ a ∈ acts, a.IsLogging)
    (hidle : ∀ c, (run reset acts).system.pc c = .idle)
    (hnone : (run reset acts).NoProvider)
    (hfew : (run reset acts).accepted.length < 2 ^ 32) :
    (run reset acts).Increasing ↔ StepSystem.Meets step InOrder reset acts := by
  have htracked := tracked_run hacts tracked_reset
  have hpending := (htracked.pendingLines_eq_nil hidle).2
  have hdraws : (run reset acts).draws = (run reset acts).accepted.length := by
    rw [draws, hpending]
    rfl
  constructor
  · intro hincreasing
    rw [StepSystem.meets_iff]
    intro pre a post hsplit
    have hpre : ∀ b ∈ pre, b.IsLogging := fun b hb => hacts b (by simp [hsplit, hb])
    have hpost : ∀ b ∈ post, b.IsLogging := fun b hb => hacts b (by simp [hsplit, hb])
    have hbefore := tracked_run hpre tracked_reset
    have hlater := (hbefore.step (hacts a (by simp [hsplit]))).later_run hpost
    have hfinal : run ((run reset pre).step a) post = run reset acts := by
      rw [hsplit]
      exact (StepSystem.run_append step reset pre (a :: post)).symm
    rw [hfinal] at hlater
    have hall := (hbefore.later a).trans hlater
    have hticking := ticking_run hpre (hall.provider hnone)
    have hle : (run reset pre).draws ≤ 2 ^ 32 := by
      have hgrows := hall.draws
      omega
    exact inOrder_of_increasing hbefore hticking hle hlater hpending hincreasing
  · intro horder
    have hticks := ticksInOrder_run hacts horder hnone
    unfold TicksInOrder at hticks
    rw [hpending, List.append_nil, hdraws] at hticks
    have hpairwise := pairwise_ticks hfew.le
    rw [← hticks, List.pairwise_map] at hpairwise
    exact hpairwise

/-- The logger has no provider. -/
theorem noProvider_of_logger
    (h : s.system.machine.logger.timestampProvider.timestampProvider = none) :
    s.NoProvider := by
  unfold NoProvider log Machine.logState EquiniosLogger.loggerEnsureInitialized
  split
  · exact h
  · rfl

/-- For every interleaving of log calls after which all calls have returned: the calls
are linearizable if the level admits every line that draws its timestamp and lines are
queued as drawn; the ring and the counter are always those of queueing the accepted
lines one after the other; and with fewer than {lit}`2^32` ticks of the built-in counter
the timestamps increase exactly when lines are queued as drawn. -/
theorem linearizable_run {acts : List Action} (hacts : ∀ a ∈ acts, a.IsLogging)
    (hidle : ∀ c, (System.run System.reset acts).pc c = .idle) :
    (StepSystem.Meets step (fun s a => s.LevelKept a ∧ s.InOrder a) reset acts →
      (run reset acts).Linearizable) ∧
    LineBuffer.mk (System.run System.reset acts).machine.logger.queued
        (System.run System.reset acts).machine.logger.droppedLines =
      (acceptedOf (System.run System.reset acts).machine.hist).foldl LineBuffer.enqueue
        { queued := [], droppedLines := 0 } ∧
    ((System.run System.reset acts).machine.logger.timestampProvider.timestampProvider =
        none →
      (acceptedOf (System.run System.reset acts).machine.hist).length < 2 ^ 32 →
      ((run reset acts).Increasing ↔ StepSystem.Meets step InOrder reset acts)) := by
  have htracked := tracked_run hacts tracked_reset
  have hsystem : (run reset acts).system = System.run System.reset acts := system_run reset acts
  rw [← hsystem] at hidle ⊢
  refine ⟨?_, ?_, ?_⟩
  · intro hmeets
    rcases exists_sequenced_run hacts hmeets with ⟨order, hsequenced⟩
    exact hsequenced.linearizable htracked hidle
  · rw [← htracked.consistent.machine.lines_logState]
    exact linesInOrder_run hacts
  · intro hnone hfew
    exact increasing_iff hacts hidle (noProvider_of_logger hnone) hfew

/-- An interrupt handler writes a line between the timestamp of the main loop and its
line. -/
def overtakingWrite : List Action :=
  .call 0 (.logWrite .info (bytesOf "a") 0) :: List.replicate 4 (.step 0) ++
    .call 1 (.logWrite .info (bytesOf "b") 0) :: List.replicate 5 (.step 1) ++ [.step 0]

/-- An interrupt handler filters out the level of the main loop after its test, and
then writes a line. -/
def filteringHandler : List Action :=
  .call 0 (.logWrite .info (bytesOf "a") 0) :: List.replicate 3 (.step 0) ++
    .call 1 (.logSetLevel .error) :: List.replicate 2 (.step 1) ++
    .call 1 (.logWrite .error (bytesOf "b") 0) :: List.replicate 5 (.step 1) ++
    List.replicate 2 (.step 0)

/-- The handler writes its line before the main loop draws its timestamp. -/
def orderlyWrite : List Action :=
  .call 0 (.logWrite .info (bytesOf "a") 0) :: List.replicate 3 (.step 0) ++
    .call 1 (.logWrite .info (bytesOf "b") 0) :: List.replicate 5 (.step 1) ++
    List.replicate 2 (.step 0)

/-- The main loop and the handler overlap in order. -/
theorem linearizable_run_orderly :
    (run reset orderlyWrite).Linearizable ∧ (run reset orderlyWrite).Increasing := by
  have hrun := @linearizable_run orderlyWrite (by decide)
    (System.run_pc_of_forall_idle (by decide +kernel))
  exact ⟨hrun.1 (by decide +kernel),
    (hrun.2.2 (by decide +kernel) (by decide +kernel)).mpr (by decide +kernel)⟩

/-- The second line drawn is queued first, and no order of the two calls queues it
first; with the level lowered in between, the handler's calls come first and filter the
line of the main loop out. -/
theorem not_linearizable_overtaking :
    ((∀ c, (System.run System.reset overtakingWrite).pc c = .idle) ∧
      ¬ (run reset overtakingWrite).Increasing ∧
      ¬ (run reset overtakingWrite).Linearizable) ∧
    (∀ c, (System.run System.reset filteringHandler).pc c = .idle) ∧
      StepSystem.Meets step InOrder reset filteringHandler ∧
      ¬ (run reset filteringHandler).Linearizable := by
  refine ⟨⟨?_, by decide +kernel, by decide +kernel⟩, ?_, by decide +kernel, by decide +kernel⟩
  · exact System.run_pc_of_forall_idle (by decide +kernel)
  · exact System.run_pc_of_forall_idle (by decide +kernel)

end Recorded

end Equinios
end RadonMCU
