import Mathlib.Data.List.Count
import RadonMCU.Equinios.Interleaving

/-!
# Flushes that overlap

{lit}`log_process` may be called from the main loop and from interrupt handlers.
Popping a chunk is locked, printing it is not: a chunk that was popped waits in a
local array while another context pops and prints the bytes behind it.

Main results:

- Theorem {lit}`perm_of_ofContext`: two histories of several contexts that agree on
  every context are permutations of each other.
- Theorem {lit}`overlap_run`: without a producer every context prints what it
  popped, in order, and nothing is lost; when no context pops while another one
  holds unprinted bytes, the whole output is in order.
-/

namespace RadonMCU
namespace Equinios

open Segments LineQueue

/-! ## Bytes of one context -/

section Contexts

variable {κ β : Type*} [DecidableEq κ] [DecidableEq β]

/-- The part of a history that belongs to one context. -/
def ofContext (c : κ) (hist : List (κ × β)) : List β :=
  (hist.filter fun pair => pair.1 = c).map Prod.snd

omit [DecidableEq β] in
/-- The entries of a context in two histories. -/
theorem ofContext_append (c : κ) (hist hist' : List (κ × β)) :
    ofContext c (hist ++ hist') = ofContext c hist ++ ofContext c hist' := by
  simp [ofContext]

omit [DecidableEq β] in
/-- All items are those of the context. -/
theorem ofContext_map_self (c : κ) (items : List β) :
    ofContext c (items.map (Prod.mk c)) = items := by
  simp [ofContext, List.filter_map, Function.comp_def]

omit [DecidableEq β] in
/-- None of the items is that of another context. -/
theorem ofContext_map_of_ne {c c' : κ} (h : c' ≠ c) (items : List β) :
    ofContext c (items.map (Prod.mk c')) = [] := by
  simp [ofContext, List.filter_map, Function.comp_def, h]

/-- How often a context has an item. -/
theorem count_ofContext (c : κ) (item : β) (hist : List (κ × β)) :
    (ofContext c hist).count item = hist.count (c, item) := by
  induction hist with
  | nil => rfl
  | cons pair hist ih =>
    rcases pair with ⟨c', item'⟩
    rw [← List.singleton_append, ofContext_append, List.count_append, List.count_append, ih]
    congr 1
    by_cases hself : c' = c
    · by_cases hitem : item' = item
      · simp [ofContext, hself, hitem]
      · simp [ofContext, hself, hitem]
    · simp [ofContext, hself]

/-- Two histories that agree on every context are permutations of each other. -/
theorem perm_of_ofContext {hist hist' : List (κ × β)}
    (h : ∀ c, ofContext c hist = ofContext c hist') : hist.Perm hist' := by
  rw [List.perm_iff_count]
  rintro ⟨c, item⟩
  rw [← count_ofContext, ← count_ofContext, h c]

end Contexts

/-- The bytes popped by {lit}`process`, each with its context. -/
def poppedOf (hist : History) : List (ContextId × UInt8) :=
  hist.flatMap fun entry =>
    match entry.2 with
    | .popped bytes => bytes.map (Prod.mk entry.1)
    | _ => []

/-- The bytes emitted through {lit}`putchar`, each with its context. -/
def printedOf (hist : History) : List (ContextId × UInt8) :=
  hist.filterMap fun entry => entry.2.byte?.map (Prod.mk entry.1)

/-- Without the contexts, the printed bytes are {lit}`stdout`. -/
theorem map_snd_printedOf (hist : History) : (printedOf hist).map Prod.snd = stdoutOf hist := by
  unfold printedOf stdoutOf
  rw [List.map_filterMap]
  congr 1
  ext1 entry
  cases entry.2.byte? <;> rfl

/-- A quiet part takes nothing from the ring. -/
theorem Machine.Quiet.poppedOf {m m' : Machine} (h : Machine.Quiet m m') :
    poppedOf m'.hist = Equinios.poppedOf m.hist := by
  rcases h.hist with ⟨entries, hhist, hentries⟩
  have hnone : Equinios.poppedOf entries = [] := by
    apply List.flatMap_eq_nil_iff.mpr
    rintro ⟨c, event⟩ hentry
    have hremoval := (hentries _ hentry).2.1
    cases event with
    | popped bytes => contradiction
    | _ => rfl
  rw [hhist, Equinios.poppedOf, List.flatMap_append, ← Equinios.poppedOf, ← Equinios.poppedOf,
    hnone, List.append_nil]

/-- A quiet part prints nothing. -/
theorem Machine.Quiet.printedOf {m m' : Machine} (h : Machine.Quiet m m') :
    printedOf m'.hist = Equinios.printedOf m.hist := by
  rcases h.hist with ⟨entries, hhist, hentries⟩
  have hnone : Equinios.printedOf entries = [] := by
    apply List.filterMap_eq_nil_iff.mpr
    intro entry hentry
    rw [(hentries entry hentry).2.2]
    rfl
  rw [hhist, Equinios.printedOf, List.filterMap_append, ← Equinios.printedOf,
    ← Equinios.printedOf, hnone, List.append_nil]

/-! ## No producer -/

/-- The action starts a {lit}`log_write`. -/
def Action.IsWrite : Action → Prop
  | .call _ (.logWrite _ _ _) => True
  | _ => False

instance : DecidablePred Action.IsWrite
  | .call _ (.logWrite _ _ _) => isTrue trivial
  | .call _ (.logSetLevel _) | .call _ (.logSetProcessEveryNCalls _)
  | .call _ (.logSetTimestampProvider _) | .call _ .logGetDroppedLines
  | .call _ .logResetDroppedLines | .call _ .logProcess | .step _ => isFalse id

/-- The context is inside {lit}`log_write`. -/
def Pc.InWrite : Pc → Prop
  | .getInstance (.logWrite _ _ _) | .logVwriteInit _ _ _ | .checkLevel _ _ _
  | .getTimestamp _ _ _ | .enqueueLine _ _ => True
  | _ => False

/-- A context enters {lit}`log_write` by a call only. -/
theorem Pc.not_inWrite_advance {c : ContextId} {m : Machine} {pc : Pc} (h : ¬ pc.InWrite) :
    ¬ (pc.advance c m).1.InWrite := by
  cases pc with
  | logVwriteInit | checkLevel | getTimestamp | enqueueLine => exact absurd trivial h
  | getInstance call =>
    cases call with
    | logWrite => exact absurd trivial h
    | _ => exact id
  | shouldProcess =>
    rw [advance]
    cases (m.shouldProcess c).1 <;> exact id
  | popChunk =>
    rw [advance]
    simp only
    cases (m.popChunk c).1 <;> exact id
  | putchar byte rest =>
    rw [advance]
    cases rest <;> exact id
  | _ => exact id

/-- What holds of the popped and the printed bytes while no line is queued. -/
structure Overlapping (initial : List UInt8) (s : System) : Prop where
  sound : s.machine.Sound
  noWrite : ∀ c, ¬ (s.pc c).InWrite
  popped : (poppedOf s.machine.hist).map Prod.snd ++ s.machine.logger.queued = initial
  printed : ∀ c, ofContext c (printedOf s.machine.hist) ++ (s.pc c).unprinted =
    ofContext c (poppedOf s.machine.hist)

/-- A chunk is taken by its context, and not yet printed. -/
theorem poppedOf_popChunk (m : Machine) (c : ContextId) :
    poppedOf (m.popChunk c).2.hist = poppedOf m.hist ++ (m.popChunk c).1.map (Prod.mk c) ∧
      printedOf (m.popChunk c).2.hist = printedOf m.hist := by
  constructor
  · simp [Machine.popChunk, poppedOf]
  · simp [Machine.popChunk, printedOf, Event.byte?]

/-- A byte is printed by its context, and nothing is taken. -/
theorem poppedOf_putchar (m : Machine) (c : ContextId) (byte : UInt8) :
    poppedOf (m.putchar c byte).hist = poppedOf m.hist ∧
      printedOf (m.putchar c byte).hist = printedOf m.hist ++ [(c, byte)] := by
  constructor
  · simp [Machine.putchar, poppedOf]
  · simp [Machine.putchar, printedOf, Event.byte?]

/-- A step that does not queue a line keeps the ring well formed. -/
theorem sound_advance {c : ContextId} {m : Machine} (h : m.Sound) {pc : Pc}
    (hwrite : ¬ pc.InWrite) : (pc.advance c m).2.Sound := by
  have hinit : ∀ timestamp message, pc = .enqueueLine timestamp message →
      m.logger.initialized = true := by
    rintro timestamp message rfl
    exact absurd trivial hwrite
  rcases System.advance_cases (c := c) hinit with hsame | hsection
  · rw [hsame]
    exact h
  · exact h.step hsection

/-- Without a new {lit}`log_write` no context enters one. -/
theorem noWrite_step {s : System} {a : Action} (h : ∀ c, ¬ (s.pc c).InWrite)
    (ha : ¬ a.IsWrite) : ∀ c, ¬ ((s.step a).pc c).InWrite := by
  apply System.step_pc (Q := fun _ pc => ¬ pc.InWrite) h
  · rintro c call rfl
    cases call with
    | logWrite => exact absurd trivial ha
    | _ => exact id
  · intro c _
    exact Pc.not_inWrite_advance (h c)

/-- Every action but a write keeps what overlapping flushes have taken and printed. -/
theorem Overlapping.step {initial : List UInt8} {s : System} {a : Action}
    (h : Overlapping initial s) (ha : ¬ a.IsWrite) : Overlapping initial (s.step a) := by
  have hnoWrite := noWrite_step h.noWrite ha
  cases a with
  | call c call =>
    refine ⟨?_, hnoWrite, ?_, ?_⟩
    · rw [System.step_call_machine]
      exact h.sound
    · rw [System.step_call_machine]
      exact h.popped
    · rw [System.step_call_machine]
      intro c'
      rw [System.unprinted_step_call]
      exact h.printed c'
  | step c =>
    have hsound := sound_advance (c := c) h.sound (h.noWrite c)
    cases (s.pc c).kind with
    | quiet hquiet =>
      have hm := (Pc.quiet_advance (c := c) h.sound hquiet).1
      refine ⟨hsound, hnoWrite, ?_, ?_⟩
      · rw [System.step_step_machine, hm.poppedOf, hm.queued]
        exact h.popped
      · intro c'
        rw [System.unprinted_step_quiet h.sound hquiet, System.step_step_machine, hm.poppedOf,
          hm.printedOf]
        exact h.printed c'
    | enqueueLine timestamp message hpc =>
      have hno := h.noWrite c
      rw [hpc] at hno
      exact absurd trivial hno
    | popChunk hpc =>
      have hmachine : (s.step (.step c)).machine = (s.machine.popChunk c).2 := by
        rw [System.step_step_machine, hpc]
        rfl
      rcases poppedOf_popChunk s.machine c with ⟨hpopped, hprinted⟩
      have hqueued : (s.machine.popChunk c).2.logger.queued = s.machine.logger.queued.drop 32 :=
        congrArg Ledger.queue (Machine.ledger_popChunk h.sound c)
      refine ⟨hsound, hnoWrite, ?_, ?_⟩
      · rw [hmachine, hpopped, hqueued, Machine.popChunk_fst h.sound c, List.map_append,
          List.append_assoc, ← h.popped]
        simp [Function.comp_def]
      · intro c'
        rw [hmachine, hpopped, hprinted, ofContext_append, ← h.printed c']
        by_cases hself : c' = c
        · subst hself
          rw [System.step_step_pc_self, hpc, Pc.advance, Pc.unprinted_printing,
            ofContext_map_self]
          simp [Pc.unprinted]
        · rw [System.step_step_pc_of_ne s hself, ofContext_map_of_ne (Ne.symm hself),
            List.append_nil]
    | putchar byte rest hpc =>
      have hmachine : (s.step (.step c)).machine = s.machine.putchar c byte := by
        rw [System.step_step_machine, hpc]
        rfl
      rcases poppedOf_putchar s.machine c byte with ⟨hpopped, hprinted⟩
      refine ⟨hsound, hnoWrite, ?_, ?_⟩
      · rw [hmachine, hpopped]
        exact h.popped
      · intro c'
        rw [hmachine, hpopped, hprinted, ofContext_append, ← h.printed c']
        by_cases hself : c' = c
        · subst hself
          rw [System.step_step_pc_self, hpc, Pc.advance, Pc.unprinted_afterPutchar]
          simp [ofContext, Pc.unprinted]
        · rw [System.step_step_pc_of_ne s hself]
          have hnone : ofContext c' [(c, byte)] = [] := ofContext_map_of_ne (Ne.symm hself) [byte]
          rw [hnone, List.append_nil]

/-! ## Flushes that do not overlap -/

/-- A context pops a chunk that is not empty only when no context holds unprinted
bytes. -/
def Exclusive (s : System) (a : Action) : Prop :=
  ∀ c, a = .step c → s.pc c = .popChunk → s.machine.logger.queued ≠ [] →
    ∀ c', (s.pc c').unprinted = []

/-- At most one context holds unprinted bytes, and they come between the output and
the ring. -/
def InOrder (initial : List UInt8) (s : System) : Prop :=
  ∃ c, stdoutOf s.machine.hist ++ (s.pc c).unprinted ++ s.machine.logger.queued = initial ∧
    ∀ c', c' ≠ c → (s.pc c').unprinted = []

/-- Every action keeps the order if no other context holds a chunk. -/
theorem InOrder.step {initial : List UInt8} {s : System} {a : Action}
    (h : InOrder initial s) (hsound : s.machine.Sound) (hnoWrite : ∀ c, ¬ (s.pc c).InWrite)
    (hexclusive : Exclusive s a) : InOrder initial (s.step a) := by
  rcases h with ⟨holder, hall, hothers⟩
  cases a with
  | call c call =>
    refine ⟨holder, ?_, ?_⟩
    · rw [System.step_call_machine, System.unprinted_step_call]
      exact hall
    · intro c' hc'
      rw [System.unprinted_step_call]
      exact hothers c' hc'
  | step c =>
    cases (s.pc c).kind with
    | quiet hquiet =>
      have hm := (Pc.quiet_advance (c := c) hsound hquiet).1
      have hsame := System.unprinted_step_quiet hsound hquiet
      refine ⟨holder, ?_, ?_⟩
      · rw [System.step_step_machine, hm.stdout, hm.queued, hsame]
        exact hall
      · intro c' hc'
        rw [hsame]
        exact hothers c' hc'
    | enqueueLine timestamp message hpc =>
      have hno := hnoWrite c
      rw [hpc] at hno
      exact absurd trivial hno
    | popChunk hpc =>
      have hmachine : (s.step (.step c)).machine = (s.machine.popChunk c).2 := by
        rw [System.step_step_machine, hpc]
        rfl
      rcases Machine.taken_popChunk hsound c with ⟨hledger, _, hstdout, _⟩
      have hchunk := Machine.popChunk_fst hsound c
      have hqueued : (s.machine.popChunk c).2.logger.queued = s.machine.logger.queued.drop 32 :=
        congrArg Ledger.queue hledger
      have hself : ((s.step (.step c)).pc c).unprinted = s.machine.logger.queued.take 32 := by
        rw [System.step_step_pc_self, hpc, Pc.advance, Pc.unprinted_printing, hchunk]
      by_cases hempty : s.machine.logger.queued = []
      · -- the ring is empty: the context leaves the loop
        have hsame : ∀ c', ((s.step (.step c)).pc c').unprinted = (s.pc c').unprinted := by
          intro c'
          by_cases hc' : c' = c
          · rw [hc', hself, hempty, hpc]
            rfl
          · rw [System.step_step_pc_of_ne s hc']
        refine ⟨holder, ?_, ?_⟩
        · rw [hmachine, hstdout, hqueued, hempty, hsame, ← hall, hempty]
          rfl
        · intro c' hc'
          rw [hsame]
          exact hothers c' hc'
      · -- nobody else holds bytes: the context becomes the holder
        have hnone := hexclusive c rfl hpc hempty
        refine ⟨c, ?_, ?_⟩
        · rw [hmachine, hstdout, hqueued, hself, List.append_assoc, List.take_append_drop,
            ← hall, hnone holder, List.append_nil]
        · intro c' hc'
          rw [System.step_step_pc_of_ne s hc']
          exact hnone c'
    | putchar byte rest hpc =>
      have hmachine : (s.step (.step c)).machine = s.machine.putchar c byte := by
        rw [System.step_step_machine, hpc]
        rfl
      -- only the holder has a byte to print
      have hholder : c = holder := by
        by_contra hne
        have hnone := hothers c hne
        rw [hpc] at hnone
        simp [Pc.unprinted] at hnone
      subst hholder
      rcases Machine.stdout_putchar s.machine c byte with ⟨hledger, hstdout, _⟩
      have hqueued : (s.machine.putchar c byte).logger.queued = s.machine.logger.queued :=
        congrArg Ledger.queue hledger
      refine ⟨c, ?_, ?_⟩
      · rw [hmachine, hstdout, hqueued, System.step_step_pc_self, hpc, Pc.advance,
          Pc.unprinted_afterPutchar, ← hall, hpc, Pc.unprinted]
        simp
      · intro c' hc'
        rw [System.step_step_pc_of_ne s hc']
        exact hothers c' hc'

/-- Only the contexts that act can hold unprinted bytes, so only these need to be looked
at. -/
theorem exclusive_of_contexts {m : Machine} {cs : List ContextId} {acts : List Action}
    (h : ∀ a ∈ acts, a.context ∈ cs)
    (hcs : StepSystem.Meets System.step
      (fun s a => ∀ c ∈ cs, a = .step c → s.pc c = .popChunk →
        ∀ c' ∈ cs, (s.pc c').unprinted = []) (System.start m) acts) :
    StepSystem.Meets System.step Exclusive (System.start m) acts := by
  rw [StepSystem.meets_iff] at hcs ⊢
  rintro pre a post rfl c rfl hpc _ other
  have hc : c ∈ cs := h (.step c) (by simp)
  by_cases hother : other ∈ cs
  · exact hcs pre (.step c) post rfl c hc rfl hpc other hother
  · have hidle : (System.run (System.start m) pre).pc other = .idle := by
      apply System.run_pc_of_forall_ne
      intro a ha hcontext
      exact hother (hcontext ▸ h a (List.mem_append_left _ ha))
    change ((System.run (System.start m) pre).pc other).unprinted = []
    rw [hidle]
    rfl

/-! ## Every run without a producer -/

/-- Nothing is lost or printed twice, and each context keeps its order. -/
structure NothingLost (initial : List UInt8) (s : System) : Prop where
  /-- The bytes are popped in order. -/
  popped : (poppedOf s.machine.hist).map Prod.snd ++ s.machine.logger.queued = initial
  /-- Each context prints what it popped, in order. -/
  printed : ∀ c, ofContext c (printedOf s.machine.hist) ++ (s.pc c).unprinted =
    ofContext c (poppedOf s.machine.hist)
  /-- When all calls have returned, the output and the ring are the initial contents up
  to their order. -/
  returned : (∀ c, ¬ (s.pc c).InProcess) →
    (stdoutOf s.machine.hist ++ s.machine.logger.queued).Perm initial

/-- The output is in order. -/
structure OutputInOrder (initial : List UInt8) (s : System) : Prop where
  emitted : stdoutOf s.machine.hist <+: initial
  returned : (∀ c, ¬ (s.pc c).InProcess) →
    stdoutOf s.machine.hist ++ s.machine.logger.queued = initial

/-- A context that is not in a flush holds no bytes. -/
theorem unprinted_of_returned {s : System} (h : ∀ c, ¬ (s.pc c).InProcess) (c : ContextId) :
    (s.pc c).unprinted = [] :=
  Pc.unprinted_of_not_inLoop fun hloop => h c hloop.inProcess

/-- When all flushes have returned, every taken byte is printed once. -/
theorem Overlapping.nothingLost {initial : List UInt8} {s : System}
    (h : Overlapping initial s) : NothingLost initial s := by
  refine ⟨h.popped, h.printed, ?_⟩
  intro hreturned
  have hsame : (printedOf s.machine.hist).Perm (poppedOf s.machine.hist) := by
    apply perm_of_ofContext
    intro c
    rw [← h.printed c, unprinted_of_returned hreturned c, List.append_nil]
  rw [← map_snd_printedOf, ← h.popped]
  exact (hsame.map Prod.snd).append_right _

/-- When all flushes have returned, the output is in the order of the queue. -/
theorem InOrder.outputInOrder {initial : List UInt8} {s : System} (h : InOrder initial s) :
    OutputInOrder initial s := by
  rcases h with ⟨c, hall, _⟩
  constructor
  · rw [List.append_assoc] at hall
    exact ⟨_, hall⟩
  · intro hreturned
    rw [unprinted_of_returned hreturned c, List.append_nil] at hall
    exact hall

/-- Before the first action nothing is taken or printed. -/
theorem overlapping_start {m : Machine} (hsound : m.Sound) (hhist : m.hist = []) :
    Overlapping m.logger.queued (System.start m) := by
  refine ⟨hsound, fun _ => id, ?_, ?_⟩
  · change (poppedOf m.hist).map Prod.snd ++ m.logger.queued = _
    rw [hhist]
    rfl
  · intro c
    change ofContext c (printedOf m.hist) ++ [] = ofContext c (poppedOf m.hist)
    rw [hhist]
    rfl

/-- From any well-formed logger and with no producer, in any interleaving of any
contexts: nothing is lost and each context keeps its order; when no context pops a
chunk while another one holds unprinted bytes, the whole output is in order. -/
theorem overlap_run {m : Machine} (hsound : m.Sound) (hhist : m.hist = [])
    {acts : List Action} (hacts : ∀ a ∈ acts, ¬ a.IsWrite) :
    NothingLost m.logger.queued (System.run (System.start m) acts) ∧
      (StepSystem.Meets System.step Exclusive (System.start m) acts →
        OutputInOrder m.logger.queued (System.run (System.start m) acts)) := by
  have hmeets : StepSystem.Meets System.step (fun _ a => ¬ a.IsWrite) (System.start m) acts :=
    StepSystem.meets_of_forall hacts
  have hstart := overlapping_start hsound hhist
  constructor
  · exact (StepSystem.run_invariant_of_meets (P := Overlapping m.logger.queued)
      (fun s a hs ha => hs.step ha) hstart hmeets).nothingLost
  · intro hexclusive
    refine (StepSystem.run_invariant_of_meets
      (P := fun s : System => Overlapping m.logger.queued s ∧ InOrder m.logger.queued s)
      ?_ ⟨hstart, ?_⟩ (StepSystem.meets_and hmeets hexclusive)).2.outputInOrder
    · intro s a hs ha
      exact ⟨hs.1.step ha.1, hs.2.step hs.1.sound hs.1.noWrite ha.2⟩
    · refine ⟨0, ?_, fun _ _ => rfl⟩
      change stdoutOf m.hist ++ [] ++ m.logger.queued = _
      rw [hhist]
      rfl

/-- A logger that flushes at every call and holds some bytes. -/
def loaded (bytes : List UInt8) : Machine where
  logger := ((gInstance.loggerEnsureInitialized.setProcessEveryNCalls 1).pushLoop bytes).2
  hist := []

/-- A ring that holds these bytes is sound. -/
theorem sound_loaded {bytes : List UInt8} (h : bytes.length ≤ 128) : (loaded bytes).Sound := by
  have hempty : (gInstance.loggerEnsureInitialized.setProcessEveryNCalls 1).queued = [] :=
    RingBuffer.contents_new
  have hfits : (gInstance.loggerEnsureInitialized.setProcessEveryNCalls 1).queued.length +
      bytes.length ≤ 128 := by
    rw [hempty]
    simpa using h
  rcases EquiniosLogger.pushLoop_spec RingBuffer.wellFormed_new hfits with
    ⟨ringBuffer, hpush, hwf, _⟩
  constructor
  · rw [loaded, hpush]
    exact hwf
  · rw [loaded, hpush]
    intro hinit
    contradiction

/-- Two contexts take turns at one ring: an interrupt handler flushes the second half when the
main loop has printed the first. -/
theorem overlap_run_turns :
    let m := loaded (List.replicate 32 97 ++ List.replicate 40 98)
    let acts : List Action :=
      .call 0 .logProcess :: List.replicate 35 (.step 0) ++
        .call 1 .logProcess :: List.replicate 50 (.step 1) ++ List.replicate 5 (.step 0)
    let s := System.run (System.start m) acts
    (ofContext 0 (printedOf s.machine.hist)).length = 32 ∧
      (ofContext 1 (printedOf s.machine.hist)).length = 40 ∧
      OutputInOrder m.logger.queued s :=
  ⟨by decide +kernel, by decide +kernel,
    (overlap_run (sound_loaded (by decide)) rfl (by decide)).2
      (@exclusive_of_contexts _ [0, 1] _ (by decide) (by decide +kernel))⟩

/-- The main loop has popped a chunk when an interrupt handler flushes the rest. -/
def overlappingFlush : List Action :=
  .call 0 .logProcess :: List.replicate 3 (.step 0) ++
    .call 1 .logProcess :: List.replicate 36 (.step 1) ++ List.replicate 33 (.step 0)

/-- The interrupt handler prints the second half of the ring before the first. -/
theorem out_of_order_overlap :
    ¬ ∀ (m : Machine) (acts : List Action), m.Sound → m.hist = [] →
      (∀ a ∈ acts, ¬ a.IsWrite) →
      stdoutOf (System.run (System.start m) acts).machine.hist <+: m.logger.queued := by
  intro h
  have hrun := h (loaded (List.replicate 32 97 ++ List.replicate 32 98)) overlappingFlush
    (sound_loaded (by decide)) rfl (by decide)
  revert hrun
  decide +kernel

end Equinios
end RadonMCU
