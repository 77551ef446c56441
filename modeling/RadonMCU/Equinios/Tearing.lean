import Mathlib.Data.List.Sublists
import RadonMCU.Equinios.Eviction
import RadonMCU.Equinios.Interleaving

/-!
# Lines torn by a producer that interrupts the flush

{lit}`process` takes the ring in chunks of 32 bytes and releases the lock between
them.  An overflow in between discards up to the next newline, which is the rest of
a line when its beginning is already taken.

Main results:

- Theorem {lit}`Unbroken.step`: a step that queues a line only when it fits or when
  a newline was removed last keeps every line whole.
- Theorem {lit}`not_wholeBlocks_of_unsafe`: any other line evicts a part of a line.
- Theorem {lit}`untorn_iff`: a run with one flushing context tears no line exactly
  when every line is queued so.
-/

namespace RadonMCU
namespace Equinios

open Segments LineQueue

/-! ## Lines that fit the ring -/

/-- The message holds no newline and the formatted line fits into the ring. -/
structure Accepted.FitsRing (line : Accepted) : Prop where
  newline_notMem : newline ∉ line.message.bytes
  length_le : line.full.length ≤ 128

instance (line : Accepted) : Decidable line.FitsRing :=
  decidable_of_iff (newline ∉ line.message.bytes ∧ line.full.length ≤ 128)
    ⟨fun h => ⟨h.1, h.2⟩, fun h => ⟨h.newline_notMem, h.length_le⟩⟩

theorem Accepted.FitsRing.stored_eq {line : Accepted} (h : line.FitsRing) :
    line.stored = line.full := by
  have hle := h.length_le
  unfold Accepted.stored storedLine
  rw [formatLine_bytes_of_fits (hle.trans (by decide))]
  unfold EquiniosLogger.lineTail
  rw [ringBufferSize_toNat]
  exact if_neg (Nat.not_lt.mpr hle)

/-- Such a line holds a newline at its end and nowhere else. -/
theorem Accepted.FitsRing.endsIn {line : Accepted} (h : line.FitsRing) :
    EndsIn newline line.stored ∧ newline ∉ line.stored.dropLast := by
  rw [h.stored_eq, Accepted.full, fullLine_eq_concat, List.dropLast_concat]
  exact ⟨by simp [EndsIn], newline_notMem_lineBody h.newline_notMem⟩

/-! ## The promise and the condition -/

/-- The bytes removed from the ring so far. -/
def removedBytes (hist : History) : List UInt8 := removedItems (removalsOf hist)

/-- No line is torn: the output outside {lit}`log_process` is made of complete lines
in queueing order, and an overflow discards whole lines only. -/
structure Untorn (s : System) : Prop where
  output : (∀ c, ¬ (s.pc c).InProcess) → ∃ lines : List Accepted,
    lines.Sublist (acceptedOf s.machine.hist) ∧
      stdoutOf s.machine.hist = (lines.map Accepted.full).flatten
  blocks : WholeBlocks (linesOf s.machine.hist) [] (removalsOf s.machine.hist)

/-- One context flushes, and every line fits the ring. -/
structure OneFlusher (flusher : ContextId) (s : System) (a : Action) : Prop where
  caller : ∀ c ∈ a.processCaller, c = flusher
  fits : ∀ line ∈ s.queuedBy a, line.FitsRing

instance (flusher : ContextId) (s : System) (a : Action) : Decidable (OneFlusher flusher s a) :=
  decidable_of_iff
    ((∀ c ∈ a.processCaller, c = flusher) ∧ ∀ line ∈ s.queuedBy a, line.FitsRing)
    ⟨fun h => ⟨h.1, h.2⟩, fun h => ⟨h.caller, h.fits⟩⟩

/-- The line fits without eviction, or nothing was removed from the ring yet, or a
newline was removed last. -/
def Machine.SafeFor (m : Machine) (line : Accepted) : Prop :=
  m.logger.queued.length + line.full.length ≤ 128 ∨
    removedBytes m.hist = [] ∨ EndsIn newline (removedBytes m.hist)

instance (m : Machine) (line : Accepted) : Decidable (m.SafeFor line) :=
  inferInstanceAs (Decidable (_ ∨ _ ∨ _))

/-- A line is queued only when it is safe. -/
def SafeEnqueue (s : System) (a : Action) : Prop :=
  ∀ line ∈ s.queuedBy a, s.machine.SafeFor line

instance (s : System) (a : Action) : Decidable (SafeEnqueue s a) :=
  inferInstanceAs (Decidable (∀ line ∈ s.queuedBy a, s.machine.SafeFor line))

/-! ## Whole lines -/

/-- The lines leave the ring as a whole; what was taken is printed or in the chunk
of the flusher, and outside its loop no line is half taken. -/
def FlushAccount (m : Machine) (pc : Pc) : Prop :=
  ∃ fates begun, Account m.ledger fates begun ∧
    stdoutOf m.hist ++ pc.unprinted = takenItems m.ledger.removals ∧
    (¬ pc.InLoop → begun = [])

/-- The lines of the ledger end in a newline and hold no other. -/
theorem endsIn_of_fitsRing {hist : History} (h : ∀ line ∈ acceptedOf hist, line.FitsRing) :
    ∀ line ∈ linesOf hist, EndsIn newline line ∧ newline ∉ line.dropLast := by
  intro stored hstored
  rcases List.mem_map.mp hstored with ⟨line, hline, rfl⟩
  exact (h line hline).endsIn

/-- Lines that end in a newline and hold no other can be told apart. -/
theorem wholeLines_of_endsIn {lines : List (List UInt8)}
    (h : ∀ line ∈ lines, EndsIn newline line ∧ newline ∉ line.dropLast) :
    WholeLines newline lines := by
  induction lines with
  | nil => trivial
  | cons line lines ih =>
    have hline := h line List.mem_cons_self
    refine ⟨⟨?_, hline.2⟩, Or.inl hline.1, ih fun l hl => h l (List.mem_cons_of_mem _ hl)⟩
    rintro rfl
    exact absurd hline.1 (by simp [EndsIn])

theorem FlushAccount.quiet {m m' : Machine} {pc pc' : Pc} (h : FlushAccount m pc)
    (hquiet : Machine.Quiet m m') (hunprinted : pc'.unprinted = pc.unprinted)
    (hloop : pc.InLoop → pc'.InLoop) : FlushAccount m' pc' := by
  rcases h with ⟨fates, begun, haccount, hprinted, hbegun⟩
  refine ⟨fates, begun, ?_, ?_, ?_⟩
  · rw [hquiet.ledger]
    exact haccount
  · rw [hquiet.stdout, hquiet.ledger, hunprinted, hprinted]
  · intro hout
    exact hbegun fun hin => hout (hloop hin)

/-- A line that is queued safely leaves every line whole. -/
theorem FlushAccount.enqueueLine {m : Machine} {pc pc' : Pc} (h : FlushAccount m pc)
    (hsound : m.Sound) (hlines : ∀ line ∈ acceptedOf m.hist, line.FitsRing) (c : ContextId)
    {timestamp : UInt32} {message : CString}
    (hfits : Accepted.FitsRing { timestamp, message })
    (hsafe : m.SafeFor { timestamp, message }) (hunprinted : pc'.unprinted = pc.unprinted)
    (hloop : pc.InLoop → pc'.InLoop) :
    FlushAccount (m.enqueueLine c timestamp message) pc' := by
  rcases h with ⟨fates, begun, haccount, hprinted, hbegun⟩
  have hends := endsIn_of_fitsRing hlines
  have hwrote := Machine.wrote_enqueueLine hsound c timestamp message
  have hwhole : WholeLines newline (m.ledger.lines.drop fates.length) := by
    apply wholeLines_of_endsIn
    intro line hline
    exact hends line (List.mem_of_mem_drop hline)
  have hstart : begun = [] ∨
      m.ledger.evictions newline 128 (storedLine timestamp message).length = 0 := by
    rcases hsafe with hroom | hlast
    · right
      have hstored : storedLine timestamp message = fullLine timestamp message := hfits.stored_eq
      change m.logger.queued.length + (fullLine timestamp message).length ≤ 128 at hroom
      apply segmentsToDrop_of_le
      rw [hstored]
      change m.logger.queued.length ≤ _
      omega
    · left
      exact (haccount.begun_eq_nil_iff hends).mpr hlast
  rcases haccount.offer (storedLine_ne_nil timestamp message) hwhole hstart with
    ⟨fates', haccount'⟩
  refine ⟨fates', begun, ?_, ?_, ?_⟩
  · rw [hwrote.ledger]
    exact haccount'
  · rw [hwrote.stdout, hwrote.ledger, hunprinted, hprinted, Ledger.offer, takenItems_append,
      takenItems_discards, List.append_nil]
  · intro hout
    exact hbegun fun hin => hout (hloop hin)

/-- The flusher pops a chunk; it leaves the loop when the ring was empty. -/
theorem FlushAccount.popChunk {m : Machine} (h : FlushAccount m .popChunk)
    (hsound : m.Sound) (c : ContextId) :
    FlushAccount (m.popChunk c).2 (Pc.printing (m.popChunk c).1) := by
  rcases h with ⟨fates, begun, haccount, hprinted, _⟩
  rcases Machine.taken_popChunk hsound c with ⟨hledger, htaken, hstdout, _⟩
  rcases haccount.take 32 with ⟨fates', begun', haccount'⟩
  rw [← hledger] at haccount'
  refine ⟨fates', begun', haccount', ?_, ?_⟩
  · rw [hstdout, htaken, Pc.unprinted_printing, ← hprinted]
    simp [Pc.unprinted]
  · intro hout
    have hchunk := Pc.chunk_eq_nil_of_not_inLoop hout
    rw [Machine.popChunk_fst hsound c] at hchunk
    apply haccount'.begun_eq_nil
    rw [hledger]
    change m.logger.queued.drop 32 = []
    have hqueue : m.logger.queued = [] := by
      cases hq : m.logger.queued with
      | nil => rfl
      | cons byte rest =>
        rw [hq] at hchunk
        simp at hchunk
    rw [hqueue]
    rfl

/-- The flusher prints a byte of its chunk. -/
theorem FlushAccount.putchar {m : Machine} {byte : UInt8} {rest : List UInt8}
    (h : FlushAccount m (.putchar byte rest)) (c : ContextId) :
    FlushAccount (m.putchar c byte) (Pc.afterPutchar rest) := by
  rcases h with ⟨fates, begun, haccount, hprinted, _⟩
  rcases Machine.stdout_putchar m c byte with ⟨hledger, hstdout, _⟩
  refine ⟨fates, begun, ?_, ?_, ?_⟩
  · rw [hledger]
    exact haccount
  · rw [hstdout, hledger, Pc.unprinted_afterPutchar, ← hprinted, Pc.unprinted, List.append_assoc]
    rfl
  · intro hout
    exact absurd (Pc.inLoop_afterPutchar rest) hout

/-! ## Every step -/

/-- Only the flusher is inside {lit}`log_process`, and the lines fit the ring and
leave it as a whole. -/
structure Unbroken (flusher : ContextId) (s : System) : Prop where
  consistent : s.Consistent
  fits : ∀ line ∈ acceptedOf s.machine.hist, line.FitsRing
  others : ∀ c, c ≠ flusher → ¬ (s.pc c).InProcess
  account : FlushAccount s.machine (s.pc flusher)

theorem unbroken_reset (flusher : ContextId) : Unbroken flusher System.reset := by
  refine ⟨System.consistent_start Machine.consistent_reset, ?_, fun _ _ => id, [], [], ?_, rfl,
    fun _ => rfl⟩
  · intro line hline
    simp [System.reset, System.start, Machine.reset, acceptedOf] at hline
  · change Account Machine.reset.ledger [] []
    rw [Machine.ledger_reset]
    exact account_empty

/-- Only the flusher enters {lit}`log_process`. -/
theorem others_step {flusher : ContextId} {s : System} {a : Action}
    (h : ∀ c, c ≠ flusher → ¬ (s.pc c).InProcess) (hone : OneFlusher flusher s a) :
    ∀ c, c ≠ flusher → ¬ ((s.step a).pc c).InProcess := by
  apply System.step_pc (Q := fun c pc => c ≠ flusher → ¬ pc.InProcess) h
  · rintro c call rfl hother
    cases call with
    | logProcess => exact absurd (hone.caller c rfl) hother
    | _ => exact id
  · intro c _ hother
    exact Pc.not_inProcess_advance (h c hother)

/-- The lines that were accepted after a step fit the ring. -/
theorem fits_step {flusher : ContextId} {s : System} {a : Action} (hsound : s.machine.Sound)
    (h : ∀ line ∈ acceptedOf s.machine.hist, line.FitsRing) (hone : OneFlusher flusher s a) :
    ∀ line ∈ acceptedOf (s.step a).machine.hist, line.FitsRing := by
  cases a with
  | call c call =>
    rw [System.step_call_machine]
    exact h
  | step c =>
    rw [System.step_step_machine]
    cases (s.pc c).kind with
    | quiet hquiet =>
      rw [(Pc.quiet_advance hsound hquiet).1.accepted]
      exact h
    | enqueueLine timestamp message hpc =>
      intro line hline
      rw [hpc, Pc.advance, (Machine.wrote_enqueueLine hsound c timestamp message).accepted] at hline
      rcases List.mem_append.mp hline with hold | hnew
      · exact h line hold
      · rw [List.mem_singleton.mp hnew]
        exact hone.fits _ (System.queuedBy_of_enqueueLine hpc)
    | popChunk hpc =>
      rw [hpc, Pc.advance, (Machine.taken_popChunk hsound c).2.2.2]
      exact h
    | putchar byte rest hpc =>
      rw [hpc, Pc.advance, (Machine.stdout_putchar s.machine c byte).2.2]
      exact h

/-- A step that queues a line safely keeps the account of the flusher. -/
theorem Unbroken.account_step {flusher : ContextId} {s : System} {a : Action}
    (h : Unbroken flusher s) (hone : OneFlusher flusher s a) (hsafe : SafeEnqueue s a) :
    FlushAccount (s.step a).machine ((s.step a).pc flusher) := by
  have hsound := h.consistent.machine.toSound
  cases a with
  | call c call =>
    rw [System.step_call_machine]
    by_cases hidle : s.pc c = .idle
    · rw [System.step_call_of_idle hidle]
      by_cases hself : flusher = c
      · subst hself
        have haccount := h.account
        rw [hidle] at haccount
        simp only [Function.update_self]
        exact haccount.quiet (.refl _) rfl False.elim
      · simp only [Function.update_of_ne hself]
        exact h.account
    · rw [System.step_call_of_busy hidle]
      exact h.account
  | step c =>
    rw [System.step_step_machine]
    by_cases hself : flusher = c
    · subst hself
      rw [System.step_step_pc_self]
      have haccount := h.account
      cases (s.pc flusher).kind with
      | quiet hquiet =>
        rcases Pc.quiet_advance (c := flusher) hsound hquiet with ⟨hm, hunprinted⟩
        have hout := hquiet.not_inLoop
        apply haccount.quiet hm
        · rw [hunprinted, Pc.unprinted_of_not_inLoop hout]
        · intro hin
          exact absurd hin hout
      | enqueueLine timestamp message hpc =>
        have hline := System.queuedBy_of_enqueueLine hpc
        rw [hpc] at haccount ⊢
        exact haccount.enqueueLine hsound h.fits flusher (hone.fits _ hline) (hsafe _ hline)
          rfl False.elim
      | popChunk hpc =>
        rw [hpc] at haccount ⊢
        exact haccount.popChunk hsound flusher
      | putchar byte rest hpc =>
        rw [hpc] at haccount ⊢
        exact haccount.putchar flusher
    · rw [System.step_step_pc_of_ne s hself]
      have hout := h.others c (fun heq => hself heq.symm)
      cases (s.pc c).kind with
      | quiet hquiet =>
        exact h.account.quiet (Pc.quiet_advance hsound hquiet).1 rfl id
      | enqueueLine timestamp message hpc =>
        have hline := System.queuedBy_of_enqueueLine hpc
        rw [hpc]
        exact h.account.enqueueLine hsound h.fits c (hone.fits _ hline) (hsafe _ hline) rfl id
      | popChunk hpc | putchar _ _ hpc =>
        rw [hpc] at hout
        exact absurd trivial hout

theorem Unbroken.step {flusher : ContextId} {s : System} {a : Action} (h : Unbroken flusher s)
    (hone : OneFlusher flusher s a) (hsafe : SafeEnqueue s a) : Unbroken flusher (s.step a) :=
  ⟨h.consistent.step a, fits_step h.consistent.machine.toSound h.fits hone,
    others_step h.others hone, h.account_step hone hsafe⟩

/-- Whole lines are not torn. -/
theorem Unbroken.untorn {flusher : ContextId} {s : System} (h : Unbroken flusher s) :
    Untorn s := by
  rcases h.account with ⟨fates, begun, haccount, hprinted, hbegun⟩
  refine ⟨?_, haccount.blocks⟩
  intro hidle
  have hout : ¬ (s.pc flusher).InLoop := fun hin => hidle flusher hin.inProcess
  rw [Pc.unprinted_of_not_inLoop hout, List.append_nil, haccount.takenItems_eq, hbegun hout,
    List.append_nil] at hprinted
  have hsublist : (takenLines fates s.machine.ledger.lines).Sublist
      ((acceptedOf s.machine.hist).map Accepted.stored) := takenLines_sublist _ _
  rcases List.sublist_map_iff.mp hsublist with ⟨lines, hlines, htaken⟩
  refine ⟨lines, hlines, ?_⟩
  rw [hprinted, htaken]
  congr 1
  apply List.map_congr_left
  intro line hline
  exact (h.fits line (hlines.subset hline)).stored_eq

/-! ## The condition is exact -/

/-- A line that is not queued safely evicts a block that is no whole line. -/
theorem not_wholeBlocks_of_unsafe {m : Machine} (hsound : m.Sound)
    (hlines : ∀ line ∈ acceptedOf m.hist, line.FitsRing) (c : ContextId) {timestamp : UInt32}
    {message : CString} (hfits : Accepted.FitsRing { timestamp, message })
    (hroom : 128 < m.logger.queued.length + (fullLine timestamp message).length)
    (hlast : ¬ (removedBytes m.hist = [] ∨ EndsIn newline (removedBytes m.hist))) :
    ¬ WholeBlocks (linesOf (m.enqueueLine c timestamp message).hist) []
      (removalsOf (m.enqueueLine c timestamp message).hist) := by
  intro hblocks
  have hledger := Machine.ledger_enqueueLine hsound c timestamp message
  have hstored : storedLine timestamp message = fullLine timestamp message := hfits.stored_eq
  have hlength := hfits.length_le
  change WholeBlocks (m.enqueueLine c timestamp message).ledger.lines []
    (m.enqueueLine c timestamp message).ledger.removals at hblocks
  rw [hledger, Ledger.offer] at hblocks
  simp only at hblocks
  have hover : 128 - (storedLine timestamp message).length < m.ledger.queue.length := by
    rw [hstored]
    change _ < m.logger.queued.length
    change (fullLine timestamp message).length ≤ 128 at hlength
    omega
  rw [Ledger.evictions, segmentsToDrop_of_lt newline hover, takeSegments_succ] at hblocks
  rcases (wholeBlocks_append.mp hblocks).2.1 rfl with ⟨n, hbefore, _⟩
  apply hlast
  rw [List.nil_append] at hbefore
  change removedBytes m.hist = _ at hbefore
  rw [hbefore]
  by_cases hnil : (m.ledger.lines ++ [storedLine timestamp message]).take n = []
  · left
    rw [hnil]
    rfl
  · right
    apply endsIn_flatten hnil
    intro line hline
    rcases List.mem_append.mp (List.mem_of_mem_take hline) with hold | hnew
    · exact (endsIn_of_fitsRing hlines line hold).1
    · rw [List.mem_singleton.mp hnew]
      exact hfits.endsIn.1

/-- In every run in which one context flushes and all lines hold no newline and fit
the ring: no state of the run has a torn line exactly when every line is queued at
a state where it fits, or nothing was removed yet, or a newline was removed last. -/
theorem untorn_iff {flusher : ContextId} {acts : List Action}
    (hone : StepSystem.Meets System.step (OneFlusher flusher) System.reset acts) :
    (∀ pre, pre <+: acts → Untorn (System.run System.reset pre)) ↔
      StepSystem.Meets System.step SafeEnqueue System.reset acts := by
  constructor
  · intro huntorn
    rw [StepSystem.meets_iff]
    intro pre a post hsplit line hline
    by_contra hunsafe
    rcases not_or.mp hunsafe with ⟨hroom, hlast⟩
    rcases System.queuedBy_eq_some hline with ⟨c, rfl, hpc⟩
    have hone' := hone
    rw [hsplit, StepSystem.meets_append] at hone'
    have hconsistent := System.consistent_run pre
    have hlines : ∀ line ∈ acceptedOf (System.run System.reset pre).machine.hist,
        line.FitsRing := by
      refine (StepSystem.run_invariant_of_meets
        (P := fun s : System => s.Consistent ∧
          ∀ line ∈ acceptedOf s.machine.hist, line.FitsRing)
        ?_ ⟨System.consistent_run [], ?_⟩ hone'.1).2
      · intro s a hs hstep
        exact ⟨hs.1.step a, fits_step hs.1.machine.toSound hs.2 hstep⟩
      · intro line hline
        simp [System.reset, System.start, Machine.reset, acceptedOf] at hline
    have hfits := hone'.2.1.fits line hline
    have hafter := (huntorn (pre ++ [.step c]) ⟨post, by rw [hsplit]; simp⟩).blocks
    rw [System.run, StepSystem.run_concat, System.step_step_machine, hpc] at hafter
    exact not_wholeBlocks_of_unsafe hconsistent.machine.toSound hlines c hfits
      (Nat.lt_of_not_le hroom) hlast hafter
  · rintro hsafe pre ⟨post, rfl⟩
    rw [StepSystem.meets_append] at hone hsafe
    have hboth := StepSystem.meets_and hone.1 hsafe.1
    exact (StepSystem.run_invariant_of_meets (P := Unbroken flusher)
      (fun s a hs hstep => hs.step hstep.1 hstep.2) (unbroken_reset flusher) hboth).untorn

/-- Context 1 queues two lines; context 2 queues a third one between two chunks of
the flush by context 0. -/
def interruptedFlush : List Action :=
  .call 1 (.logWrite .info (List.replicate 24 97) 0) :: List.replicate 5 (.step 1) ++
    .call 1 (.logWrite .info (List.replicate 54 98) 0) :: List.replicate 5 (.step 1) ++
    .call 0 .logProcess :: List.replicate 2 (.step 0) ++
    .call 0 .logProcess :: List.replicate 3 (.step 0) ++
    .call 2 (.logWrite .info (List.replicate 94 99) 0) :: List.replicate 5 (.step 2) ++
    List.replicate 137 (.step 0)

/-- Without context 2 the same flush tears nothing. -/
theorem untorn_iff_uninterrupted :
    StepSystem.Meets System.step SafeEnqueue System.reset
        (interruptedFlush.filter fun a => a.context ≠ 2) ∧
      ∀ pre, pre <+: interruptedFlush.filter (fun a => a.context ≠ 2) →
        Untorn (System.run System.reset pre) := by
  have hsafe : StepSystem.Meets System.step SafeEnqueue System.reset
      (interruptedFlush.filter fun a => a.context ≠ 2) := by
    decide +kernel
  exact ⟨hsafe, (@untorn_iff 0 _ (by decide +kernel)).mpr hsafe⟩

/-- The first chunk ends in the second line; the third line evicts the rest of it. -/
theorem torn_interruptedFlush :
    StepSystem.Meets System.step (OneFlusher 0) System.reset interruptedFlush ∧
      stdoutOf (System.run System.reset interruptedFlush).machine.hist =
        bytesOf "[0] " ++ List.replicate 24 97 ++ crlf ++ bytesOf "[1" ++
          bytesOf "[2] " ++ List.replicate 94 99 ++ crlf ∧
      ¬ Untorn (System.run System.reset interruptedFlush) := by
  -- one evaluation of the run for what it prints, accepts and leaves
  have hrun : stdoutOf (System.run System.reset interruptedFlush).machine.hist =
        bytesOf "[0] " ++ List.replicate 24 97 ++ crlf ++ bytesOf "[1" ++
          bytesOf "[2] " ++ List.replicate 94 99 ++ crlf ∧
      (∀ a ∈ interruptedFlush,
        (System.run System.reset interruptedFlush).pc a.context = .idle) ∧
      ∀ lines ∈ (acceptedOf (System.run System.reset interruptedFlush).machine.hist).sublists,
        stdoutOf (System.run System.reset interruptedFlush).machine.hist ≠
          (lines.map Accepted.full).flatten := by
    decide +kernel
  rcases hrun with ⟨hprinted, hreturned, hcheck⟩
  refine ⟨by decide +kernel, hprinted, ?_⟩
  intro huntorn
  have hidle : ∀ c, ¬ ((System.run System.reset interruptedFlush).pc c).InProcess := by
    intro c
    rw [System.run_pc_of_forall_idle hreturned c]
    exact id
  rcases huntorn.output hidle with ⟨lines, hlines, hstdout⟩
  exact hcheck lines (List.mem_sublists.mpr hlines) hstdout

end Equinios
end RadonMCU
