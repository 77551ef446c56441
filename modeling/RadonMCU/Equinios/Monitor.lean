import Mathlib.Data.Nat.ModEq
import RadonMCU.Equinios.Interleaving

/-!
# The monitor of dropped lines

The main loop of {lit}`NiosLoggerDemo` reads the drop counter, reports a value above
zero with a warning and clears the counter.  Other contexts run between any two of
its critical sections; they call everything but {lit}`log_reset_dropped_lines`.  What
is dropped from the read to the clearing, the window of the round, is forgotten.

Main results:

- Theorem {lit}`step_cases`: what one step of the monitored system does.
- Theorem {lit}`Balanced.step`: reported values, counter and forgotten drops are
  all drops, modulo {lit}`2^32`.
- Theorem {lit}`everyDropReported_iff`: between rounds nothing is forgotten when every
  line queued in a window fits the ring, and with fewer than {lit}`2^32` drops only
  then.
-/

namespace RadonMCU
namespace Equinios

/-! ## The monitored system -/

/-- The context of the monitor, and what its warning of a value formats to. -/
structure Monitor where
  context : ContextId
  report : UInt32 → List UInt8

/-- Where the monitor is in its round. -/
inductive Phase where
  | between
  /-- In {lit}`log_get_dropped_lines`. -/
  | reading
  /-- The value was read and is above zero; in the {lit}`log_write` of the report. -/
  | reporting
  /-- In {lit}`log_reset_dropped_lines`. -/
  | resetting
deriving DecidableEq

/-- The counter was read and is not cleared yet. -/
def Phase.InWindow : Phase → Prop
  | .between | .reading => False
  | .reporting | .resetting => True

instance : DecidablePred Phase.InWindow
  | .between | .reading => isFalse id
  | .reporting | .resetting => isTrue trivial

/-- The system, with the phase of its monitor and the values reported so far. -/
structure Monitored where
  system : System
  phase : Phase
  reported : List UInt32

/-- An action of a context outside the round, or the next step of the monitor, with
what an installed timestamp function would return to its report. -/
inductive MonitorAction where
  | other (a : Action)
  | monitor (answer : UInt32)
deriving DecidableEq

/-- The action calls {lit}`log_reset_dropped_lines`. -/
def Action.IsReset (a : Action) : Prop := a = .call a.context .logResetDroppedLines

instance : DecidablePred Action.IsReset := fun a => inferInstanceAs (Decidable (a = _))

theorem Action.isReset_of_inReset {c : ContextId} {call : ApiCall}
    (h : (Pc.getInstance call).InReset) : (Action.call c call).IsReset := by
  cases call with
  | logResetDroppedLines => rfl
  | _ => exact h.elim

namespace Monitored

def reset : Monitored := { system := System.reset, phase := .between, reported := [] }

variable (mon : Monitor)

/-- Only the monitor clears the counter, and its context acts for itself only between
two rounds. -/
def Allows (s : Monitored) (a : Action) : Prop :=
  ¬ a.IsReset ∧ (a.context = mon.context → s.phase = .between)

instance (s : Monitored) (a : Action) : Decidable (s.Allows mon a) :=
  inferInstanceAs (Decidable (_ ∧ _))

/-- The next step of the monitor. -/
def monitorStep (s : Monitored) (answer : UInt32) : Monitored :=
  let next := s.system.step (.step mon.context)
  match s.phase with
  | .between =>
      if s.system.pc mon.context = .idle then
        { s with
          system := s.system.step (.call mon.context .logGetDroppedLines)
          phase := .reading }
      else s
  | .reading =>
      if s.system.pc mon.context = .getDroppedLines then
        let dropped := s.system.machine.logger.getDroppedLines
        if dropped > 0 then
          { system := next.step (.call mon.context (.logWrite .warning (mon.report dropped) answer))
            phase := .reporting
            reported := s.reported ++ [dropped] }
        else { s with system := next, phase := .between }
      else { s with system := next }
  | .reporting =>
      if next.pc mon.context = .idle then
        { s with
          system := next.step (.call mon.context .logResetDroppedLines)
          phase := .resetting }
      else { s with system := next }
  | .resetting =>
      if next.pc mon.context = .idle then { s with system := next, phase := .between }
      else { s with system := next }

def step (s : Monitored) : MonitorAction → Monitored
  | .other a => if s.Allows mon a then { s with system := s.system.step a } else s
  | .monitor answer => s.monitorStep mon answer

abbrev run (s : Monitored) (acts : List MonitorAction) : Monitored :=
  StepSystem.run (step mon) s acts

/-- The action of the system that carries the step, if it is enabled. -/
def performs (s : Monitored) : MonitorAction → Option Action
  | .other a => if s.Allows mon a then some a else none
  | .monitor _ => if s.phase = .between then none else some (.step mon.context)

/-- What a step can do, with the action of the system that carries it. -/
inductive Moves (s : Monitored) : Option Action → Monitored → Prop
  | stay : Moves s none s
  | other (a : Action) (hallows : s.Allows mon a) :
      Moves s (some a) { s with system := s.system.step a }
  | start (hphase : s.phase = .between) :
      Moves s none
        { s with
          system := s.system.step (.call mon.context .logGetDroppedLines)
          phase := .reading }
  | inside (hphase : s.phase ≠ .between)
      (hbusy : s.phase = .resetting → (s.system.step (.step mon.context)).pc mon.context ≠ .idle) :
      Moves s (some (.step mon.context)) { s with system := s.system.step (.step mon.context) }
  | readZero (hphase : s.phase = .reading) (hpc : s.system.pc mon.context = .getDroppedLines) :
      Moves s (some (.step mon.context))
        { s with system := s.system.step (.step mon.context), phase := .between }
  | report (hphase : s.phase = .reading) (hpc : s.system.pc mon.context = .getDroppedLines)
      (call : ApiCall) (hcall : ¬ (Action.call mon.context call).IsReset) :
      Moves s (some (.step mon.context))
        { system := (s.system.step (.step mon.context)).step (.call mon.context call)
          phase := .reporting
          reported := s.reported ++ [s.system.machine.logger.getDroppedLines] }
  | clear (hphase : s.phase = .reporting)
      (hidle : (s.system.step (.step mon.context)).pc mon.context = .idle) :
      Moves s (some (.step mon.context))
        { s with
          system :=
            (s.system.step (.step mon.context)).step (.call mon.context .logResetDroppedLines)
          phase := .resetting }
  | finish (hphase : s.phase = .resetting)
      (hidle : (s.system.step (.step mon.context)).pc mon.context = .idle) :
      Moves s (some (.step mon.context))
        { s with system := s.system.step (.step mon.context), phase := .between }

theorem step_cases (s : Monitored) (a : MonitorAction) :
    Moves mon s (s.performs mon a) (s.step mon a) := by
  cases a with
  | other a =>
    by_cases hallows : s.Allows mon a
    · rw [performs, step, if_pos hallows, if_pos hallows]
      exact .other a hallows
    · rw [performs, step, if_neg hallows, if_neg hallows]
      exact .stay
  | monitor answer =>
    rcases s with ⟨system, phase, reported⟩
    cases phase with
    | between =>
      by_cases hidle : system.pc mon.context = .idle
      · simp only [performs, step, monitorStep, if_pos hidle, if_true]
        exact .start rfl
      · simp only [performs, step, monitorStep, if_neg hidle, if_true]
        exact .stay
    | reading =>
      by_cases hpc : system.pc mon.context = .getDroppedLines
      · by_cases hpos : system.machine.logger.getDroppedLines > 0
        · simp only [performs, step, monitorStep, if_pos hpc, if_pos hpos]
          exact .report rfl hpc _ (by simp [Action.IsReset])
        · simp only [performs, step, monitorStep, if_pos hpc, if_neg hpos]
          exact .readZero rfl hpc
      · simp only [performs, step, monitorStep, if_neg hpc]
        exact .inside Phase.noConfusion Phase.noConfusion
    | reporting =>
      by_cases hidle : (system.step (.step mon.context)).pc mon.context = .idle
      · simp only [performs, step, monitorStep, if_pos hidle]
        exact .clear rfl hidle
      · simp only [performs, step, monitorStep, if_neg hidle]
        exact .inside Phase.noConfusion Phase.noConfusion
    | resetting =>
      by_cases hidle : (system.step (.step mon.context)).pc mon.context = .idle
      · simp only [performs, step, monitorStep, if_pos hidle]
        exact .finish rfl hidle
      · simp only [performs, step, monitorStep, if_neg hidle]
        exact .inside Phase.noConfusion fun _ => hidle

/-! ## The promise and the condition -/

/-- The reported values and the counter are all drops. -/
def AllReported (s : Monitored) : Prop :=
  (s.reported.map UInt32.toNat).sum + s.system.machine.logger.getDroppedLines.toNat ≡
    dropsOf s.system.machine.hist [MOD 2 ^ 32]

instance (s : Monitored) : Decidable s.AllReported := inferInstanceAs (Decidable (_ ≡ _ [MOD _]))

/-- A line queued in the window of a round fits the ring without eviction. -/
def WindowFits (s : Monitored) (a : MonitorAction) : Prop :=
  s.phase.InWindow → ∀ act ∈ s.performs mon a, ∀ line ∈ s.system.queuedBy act,
    s.system.machine.logger.queued.length + line.stored.length ≤ 128

instance (s : Monitored) (a : MonitorAction) : Decidable (s.WindowFits mon a) :=
  inferInstanceAs
    (Decidable (_ → ∀ act ∈ s.performs mon a, ∀ line ∈ s.system.queuedBy act, _))

/-- The drops of a step that the end of the round forgets. -/
def forgottenBy (s : Monitored) : Option Action → Nat
  | some a => if s.phase.InWindow then s.system.evictionsBy a else 0
  | none => 0

/-- A step forgets nothing exactly when its line fits. -/
theorem forgottenBy_eq_zero_iff {s : Monitored} (h : s.system.machine.Sound)
    (a : MonitorAction) : s.forgottenBy (s.performs mon a) = 0 ↔ s.WindowFits mon a := by
  unfold WindowFits
  cases hperforms : s.performs mon a with
  | none => simp [forgottenBy]
  | some act => simp [forgottenBy, System.evictionsBy_eq_zero_iff h]

/-! ## Only the monitor clears the counter -/

/-- A context in {lit}`log_reset_dropped_lines` is the monitor in the last phase of its
round. -/
structure Tidy (s : Monitored) : Prop where
  consistent : s.system.Consistent
  onlyMonitor : ∀ c, (s.system.pc c).InReset → c = mon.context ∧ s.phase = .resetting
  clearing : s.phase = .resetting → (s.system.pc mon.context).InReset

variable {mon}

theorem tidy_reset : Tidy mon reset :=
  ⟨System.consistent_run [], fun _ h => h.elim, fun h => by contradiction⟩

/-- A step of the system brings no new context into {lit}`log_reset_dropped_lines`. -/
theorem inReset_of_step {s : System} {a : Action} (ha : ¬ a.IsReset) :
    ∀ c, ((s.step a).pc c).InReset → (s.pc c).InReset := by
  apply System.step_pc (Q := fun c pc => pc.InReset → (s.pc c).InReset)
  · exact fun c h => h
  · rintro c call rfl hin
    exact absurd (Action.isReset_of_inReset hin) ha
  · intro c _ hin
    by_contra hout
    exact Pc.not_inReset_advance hout hin

/-- A step of the system that leaves the phase keeps the monitor the only one in
{lit}`log_reset_dropped_lines`. -/
theorem Tidy.onlyMonitor_step {s : Monitored} (h : Tidy mon s) {a : Action}
    (ha : ¬ a.IsReset) :
    ∀ c, ((s.system.step a).pc c).InReset → c = mon.context ∧ s.phase = .resetting :=
  fun c hin => h.onlyMonitor c (inReset_of_step ha c hin)

/-- Outside the last phase no context is in {lit}`log_reset_dropped_lines`. -/
theorem Tidy.not_inReset {s : Monitored} (h : Tidy mon s) (hphase : s.phase ≠ .resetting)
    (c : ContextId) : ¬ (s.system.pc c).InReset :=
  fun hin => hphase (h.onlyMonitor c hin).2

theorem not_isReset_step (c : ContextId) : ¬ (Action.step c).IsReset := by
  simp [Action.IsReset]

/-- The last critical section of the round clears the counter. -/
theorem Tidy.pc_of_finish {s : Monitored} (h : Tidy mon s) (hphase : s.phase = .resetting)
    (hidle : (s.system.step (.step mon.context)).pc mon.context = .idle) :
    s.system.pc mon.context = .resetDroppedLines := by
  have hin := h.clearing hphase
  rw [System.step_step_pc_self] at hidle
  cases hpc : s.system.pc mon.context with
  | resetDroppedLines => rfl
  | getInstance call =>
    rw [hpc] at hidle
    cases call <;> contradiction
  | _ =>
    rw [hpc] at hin
    exact hin.elim

theorem Tidy.step {s : Monitored} (h : Tidy mon s) (a : MonitorAction) :
    Tidy mon (s.step mon a) := by
  have hmoves := step_cases mon s a
  generalize s.performs mon a = performed at hmoves
  generalize s.step mon a = s' at hmoves
  cases hmoves with
  | stay => exact h
  | other a hallows =>
    refine ⟨h.consistent.step a, h.onlyMonitor_step hallows.1, ?_⟩
    intro hphase
    have hne : mon.context ≠ a.context := by
      intro heq
      have hbetween := hallows.2 heq.symm
      rw [hphase] at hbetween
      contradiction
    rw [System.step_pc_of_ne _ hne]
    exact h.clearing hphase
  | start hphase =>
    refine ⟨h.consistent.step (.call mon.context .logGetDroppedLines), ?_, Phase.noConfusion⟩
    intro c hin
    exact absurd (inReset_of_step (by simp [Action.IsReset]) c hin)
      (h.not_inReset (by simp [hphase]) c)
  | inside hphase hbusy =>
    refine ⟨h.consistent.step (.step mon.context),
      h.onlyMonitor_step (not_isReset_step mon.context), ?_⟩
    intro hresetting
    have hin := h.clearing hresetting
    have hidle := hbusy hresetting
    rw [System.step_step_pc_self] at hidle ⊢
    cases hpc : s.system.pc mon.context with
    | resetDroppedLines =>
      rw [hpc] at hidle
      exact absurd rfl hidle
    | getInstance call =>
      rw [hpc] at hin
      cases call with
      | logResetDroppedLines => trivial
      | _ => exact hin.elim
    | _ =>
      rw [hpc] at hin
      exact hin.elim
  | readZero hphase hpc =>
    refine ⟨h.consistent.step (.step mon.context), ?_, Phase.noConfusion⟩
    intro c hin
    exact absurd (inReset_of_step (not_isReset_step mon.context) c hin)
      (h.not_inReset (by simp [hphase]) c)
  | report hphase hpc call hcall =>
    refine ⟨(h.consistent.step (.step mon.context)).step (.call mon.context call), ?_,
      Phase.noConfusion⟩
    intro c hin
    exact absurd (inReset_of_step (not_isReset_step mon.context) c (inReset_of_step hcall c hin))
      (h.not_inReset (by simp [hphase]) c)
  | clear hphase hidle =>
    refine ⟨(h.consistent.step (.step mon.context)).step
      (.call mon.context .logResetDroppedLines), ?_, ?_⟩
    · intro c hin
      by_cases hself : c = mon.context
      · exact ⟨hself, rfl⟩
      · rw [System.step_call_pc_of_ne _ hself] at hin
        exact absurd (inReset_of_step (not_isReset_step mon.context) c hin)
          (h.not_inReset (by simp [hphase]) c)
    · intro _
      rw [System.step_call_of_idle hidle]
      simp [Pc.InReset]
  | finish hphase hidle =>
    refine ⟨h.consistent.step (.step mon.context), ?_, Phase.noConfusion⟩
    intro c hin
    have hself := (h.onlyMonitor_step (not_isReset_step mon.context) c hin).1
    rw [hself, hidle] at hin
    exact hin.elim

/-! ## Drops are reported, counted or forgotten -/

/-- The part of the counter that no report holds yet. -/
def unreported (s : Monitored) : Nat :=
  if s.phase.InWindow then 0 else s.system.machine.logger.getDroppedLines.toNat

/-- The reported values, the rest of the counter and the forgotten drops are all
drops. -/
structure Balanced (s : Monitored) (forgotten : Nat) : Prop where
  sum : (s.reported.map UInt32.toNat).sum + s.unreported + forgotten ≡
    dropsOf s.system.machine.hist [MOD 2 ^ 32]
  le : forgotten ≤ dropsOf s.system.machine.hist

theorem balanced_reset : Balanced reset 0 := ⟨rfl, Nat.le_refl 0⟩

/-- The counter after a step of the system that does not clear it. -/
theorem counter_step {s : System} (h : s.machine.Sound) {a : Action}
    (hreset : ∀ c, a = .step c → ¬ (s.pc c).InReset) :
    (s.step a).machine.logger.getDroppedLines.toNat ≡
      s.machine.logger.getDroppedLines.toNat + s.evictionsBy a [MOD 2 ^ 32] := by
  have hcounter := System.droppedLines_step h (a := a) (by
    intro c ha hpc
    apply hreset c ha
    rw [hpc]
    trivial)
  unfold EquiniosLogger.getDroppedLines
  rw [hcounter, UInt32.toNat_add, UInt32.toNat_ofNat']
  unfold Nat.ModEq
  omega

/-- The balance depends on the sum and the history only. -/
theorem Balanced.of_eq {s s' : Monitored} {n : Nat} (h : Balanced s n)
    (hsum : (s'.reported.map UInt32.toNat).sum + s'.unreported =
      (s.reported.map UInt32.toNat).sum + s.unreported)
    (hmachine : s'.system.machine = s.system.machine) : Balanced s' n := by
  constructor
  · rw [hsum, hmachine]
    exact h.sum
  · rw [hmachine]
    exact h.le

/-- A step of the system in the same phase. -/
theorem Balanced.perform {s : Monitored} {n : Nat} (h : Balanced s n)
    (hsound : s.system.machine.Sound) {a : Action}
    (hreset : ¬ s.phase.InWindow → ∀ c, a = .step c → ¬ (s.system.pc c).InReset) :
    Balanced { s with system := s.system.step a } (n + s.forgottenBy (some a)) := by
  have hdrops := System.dropsOf_step hsound a
  have hle := h.le
  have hsum := h.sum
  by_cases hwindow : s.phase.InWindow
  · simp only [unreported, if_pos hwindow] at hsum
    constructor
    · simp only [unreported, forgottenBy, if_pos hwindow, hdrops, ← Nat.add_assoc]
      exact hsum.add_right _
    · simp only [forgottenBy, if_pos hwindow, hdrops]
      omega
  · have hcounter := counter_step hsound (hreset hwindow)
    simp only [unreported, if_neg hwindow] at hsum
    constructor
    · simp only [unreported, forgottenBy, if_neg hwindow, hdrops]
      unfold Nat.ModEq at hsum hcounter ⊢
      omega
    · simp only [forgottenBy, if_neg hwindow, hdrops]
      omega

/-- The balance is kept by every step, with the drops that it forgets. -/
theorem Balanced.step {s : Monitored} {n : Nat} (h : Balanced s n) (htidy : Tidy mon s)
    (a : MonitorAction) :
    Balanced (s.step mon a) (n + s.forgottenBy (s.performs mon a)) := by
  have hsound := htidy.consistent.machine.toSound
  have hmoves := step_cases mon s a
  generalize s.performs mon a = performed at hmoves
  generalize s.step mon a = s' at hmoves
  cases hmoves with
  | stay => exact h
  | other a hallows =>
    apply h.perform hsound
    rintro hwindow c rfl hin
    have hself := htidy.onlyMonitor c hin
    have hbetween := hallows.2 hself.1
    rw [hself.2] at hbetween
    contradiction
  | start hphase =>
    apply h.of_eq
    · simp [unreported, hphase, Phase.InWindow]
    · exact System.step_call_machine _ _ _
  | inside hphase hbusy =>
    apply h.perform hsound
    intro hwindow c _ hin
    exact hwindow (by simp [(htidy.onlyMonitor c hin).2, Phase.InWindow])
  | readZero hphase hpc =>
    have hnext := h.perform hsound (a := .step mon.context)
      fun _ c _ => htidy.not_inReset (by simp [hphase]) c
    apply hnext.of_eq
    · simp [unreported, hphase, Phase.InWindow]
    · rfl
  | report hphase hpc call hcall =>
    have hnext := h.perform hsound (a := .step mon.context)
      fun _ c _ => htidy.not_inReset (by simp [hphase]) c
    apply hnext.of_eq
    · have hread : ((s.system.pc mon.context).advance mon.context s.system.machine).2.logger =
          s.system.machine.logger := by
        rw [hpc]
        rfl
      simp [unreported, hphase, Phase.InWindow, hread]
    · exact System.step_call_machine _ _ _
  | clear hphase hidle =>
    have hnext := h.perform hsound (a := .step mon.context)
      fun hwindow => absurd (by simp [hphase, Phase.InWindow]) hwindow
    apply hnext.of_eq
    · simp [unreported, hphase, Phase.InWindow]
    · exact System.step_call_machine _ _ _
  | finish hphase hidle =>
    have hnext := h.perform hsound (a := .step mon.context)
      fun hwindow => absurd (by simp [hphase, Phase.InWindow]) hwindow
    apply hnext.of_eq
    · have hcleared :
          ((s.system.pc mon.context).advance mon.context
            s.system.machine).2.logger.getDroppedLines = 0 := by
        rw [htidy.pc_of_finish hphase hidle]
        rfl
      simp [unreported, hphase, Phase.InWindow, hcleared]
    · rfl

theorem tidy_run (acts : List MonitorAction) : Tidy mon (run mon reset acts) :=
  StepSystem.run_invariant (fun _ a h => h.step a) tidy_reset acts

/-- The drops that the rounds of a run forget. -/
def forgotten (mon : Monitor) (acts : List MonitorAction) : Nat :=
  StepSystem.total (step mon) (fun s a => s.forgottenBy (s.performs mon a)) reset acts

theorem balanced_run (mon : Monitor) (acts : List MonitorAction) :
    Balanced (run mon reset acts) (forgotten mon acts) := by
  have hboth : Tidy mon (run mon reset acts) ∧
      Balanced (run mon reset acts) (0 + forgotten mon acts) :=
    StepSystem.run_total_invariant (P := fun s n => Tidy mon s ∧ Balanced s n)
      (fun s n a h => ⟨h.1.step a, h.2.step h.1 a⟩) ⟨tidy_reset, balanced_reset⟩ acts
  rw [Nat.zero_add] at hboth
  exact hboth.2

/-- A run forgets nothing exactly when all lines queued in a window fit. -/
theorem forgotten_eq_zero_iff (acts : List MonitorAction) :
    forgotten mon acts = 0 ↔ StepSystem.Meets (step mon) (WindowFits mon) reset acts := by
  rw [forgotten, StepSystem.total_eq_zero_iff, StepSystem.meets_iff, StepSystem.meets_iff]
  apply forall_congr'
  intro pre
  apply forall_congr'
  intro a
  rw [forgottenBy_eq_zero_iff mon (tidy_run pre).consistent.machine.toSound]

/-- Between two rounds the reports and the counter are all drops but the forgotten
ones. -/
theorem allReported_iff (acts : List MonitorAction)
    (hphase : (run mon reset acts).phase = .between) :
    (run mon reset acts).AllReported ↔ forgotten mon acts ≡ 0 [MOD 2 ^ 32] := by
  have hsum := (balanced_run mon acts).sum
  simp only [unreported, hphase, Phase.InWindow, if_false] at hsum
  unfold AllReported Nat.ModEq at *
  omega

/-- Between two rounds every drop is reported or still counted if every line queued in
a window, the report included, fits the ring; with fewer than {lit}`2^32` drops it is
so at the end of a round only if they all did. -/
theorem everyDropReported_iff (mon : Monitor) (acts : List MonitorAction) :
    (StepSystem.Meets (step mon) (WindowFits mon) reset acts →
      ∀ pre, pre <+: acts → (run mon reset pre).phase = .between →
        (run mon reset pre).AllReported) ∧
    ((run mon reset acts).phase = .between →
      dropsOf (run mon reset acts).system.machine.hist < 2 ^ 32 →
      (run mon reset acts).AllReported →
      StepSystem.Meets (step mon) (WindowFits mon) reset acts) := by
  constructor
  · rintro hfits pre ⟨post, rfl⟩ hphase
    have hpre := (StepSystem.meets_append.mp hfits).1
    rw [allReported_iff pre hphase, (forgotten_eq_zero_iff pre).mpr hpre]
  · intro hphase hdrops hreported
    have hle := (balanced_run mon acts).le
    have hzero := (allReported_iff acts hphase).mp hreported
    rw [← forgotten_eq_zero_iff]
    unfold Nat.ModEq at hzero
    omega

/-- The monitor of {lit}`NiosLoggerDemo`, with the text of {lit}`LOG_WARNING`. -/
def demoMonitor : Monitor where
  context := 0
  report := fun dropped =>
    bytesOf "[WARNING] Dropped log lines since last check: " ++ decimal dropped

/-- The main loop writes a line of 100 bytes and a second one, which evicts it, and
then runs one round. -/
def oneRound (message : List UInt8) : List MonitorAction :=
  .other (.call 0 (.logWrite .info (List.replicate 94 97) 0)) ::
      List.replicate 5 (.other (.step 0)) ++
    .other (.call 0 (.logWrite .info message 0)) :: List.replicate 5 (.other (.step 0)) ++
    List.replicate 10 (.monitor 0)

/-- A short second line leaves room for the report. -/
theorem everyDropReported_iff_short :
    (∀ pre, pre <+: oneRound (List.replicate 34 98) →
      (run demoMonitor reset pre).phase = .between →
      (run demoMonitor reset pre).AllReported) ∧
    StepSystem.Meets (step demoMonitor) (WindowFits demoMonitor) reset
      (oneRound (List.replicate 34 98)) ∧
    (run demoMonitor reset (oneRound (List.replicate 34 98))).reported = [1] := by
  have hiff := everyDropReported_iff demoMonitor (oneRound (List.replicate 34 98))
  -- one evaluation of the round for all four facts
  have hround : (run demoMonitor reset (oneRound (List.replicate 34 98))).phase = .between ∧
      dropsOf (run demoMonitor reset (oneRound (List.replicate 34 98))).system.machine.hist <
        2 ^ 32 ∧
      (run demoMonitor reset (oneRound (List.replicate 34 98))).AllReported ∧
      (run demoMonitor reset (oneRound (List.replicate 34 98))).reported = [1] := by
    decide +kernel
  rcases hround with ⟨hphase, hdrops, hall, hreported⟩
  have hfits := hiff.2 hphase hdrops hall
  exact ⟨hiff.1 hfits, hfits, hreported⟩

/-- The report evicts the second line, and the counter is cleared after it: two lines
were dropped, one is reported. -/
theorem not_allReported_oneRound :
    (run demoMonitor reset (oneRound (List.replicate 94 98))).phase = .between ∧
      (run demoMonitor reset (oneRound (List.replicate 94 98))).reported = [1] ∧
      dropsOf (run demoMonitor reset (oneRound (List.replicate 94 98))).system.machine.hist =
        2 ∧
      ¬ (run demoMonitor reset (oneRound (List.replicate 94 98))).AllReported := by
  decide +kernel

end Monitored

end Equinios
end RadonMCU
