import RadonMCU.Equinios.Interleaving
import RadonMCU.Equinios.SequentialLog

/-!
# Recorded runs of log calls

{lit}`log_vwrite` tests the level, draws the timestamp and queues the line in three
critical sections.  A run is recorded with a clock: when each call started and
returned, and which calls have drawn a timestamp and not queued their line yet.

Main results:

- Theorem {lit}`Tracked.step`: the record follows the program counters.
- Theorem {lit}`Tracked.effect`: a step leaves the log, draws a timestamp, queues a
  line, or is a whole call of the sequential log.
-/

namespace RadonMCU
namespace Equinios

/-! ## Recorded runs -/

/-- A call of a context and when it started. -/
structure Operation where
  context : ContextId
  call : ApiCall
  started : Nat
deriving DecidableEq

/-- The system with a clock that counts actions. -/
structure Recorded where
  system : System
  clock : Nat
  /-- The call each context is in. -/
  current : ContextId → Option Operation
  /-- The calls that returned, and when. -/
  returned : List (Operation × Nat)
  /-- The calls that have drawn a timestamp and not queued their line, in the order
  they drew. -/
  drawn : List Operation

namespace Recorded

/-- Before the first call. -/
def reset : Recorded where
  system := System.reset
  clock := 0
  current := fun _ => none
  returned := []
  drawn := []

/-- The call that the acting context is in after the action. -/
def currentAfter (s : Recorded) : Action → Option Operation
  | .call c call =>
      if s.system.pc c = .idle then some { context := c, call, started := s.clock }
      else s.current c
  | .step c => if (s.system.step (.step c)).pc c = .idle then none else s.current c

/-- The call that returns with the action. -/
def returns (s : Recorded) : Action → List (Operation × Nat)
  | .call _ _ => []
  | .step c =>
      if (s.system.step (.step c)).pc c = .idle then
        (s.current c).toList.map fun op => (op, s.clock)
      else []

/-- The calls with a timestamp and no queued line, after an action. -/
def drawnAfter (s : Recorded) : Action → List Operation
  | .call _ _ => s.drawn
  | .step c =>
      match s.system.pc c with
      | .getTimestamp _ _ _ => s.drawn ++ (s.current c).toList
      | .enqueueLine _ _ => s.drawn.filter fun op => op.context ≠ c
      | _ => s.drawn

/-- An action of the system, with what is recorded of it. -/
def step (s : Recorded) (a : Action) : Recorded where
  system := s.system.step a
  clock := s.clock + 1
  current := Function.update s.current a.context (s.currentAfter a)
  returned := s.returned ++ s.returns a
  drawn := s.drawnAfter a

/-- The records of a run. -/
abbrev run (s : Recorded) (acts : List Action) : Recorded := StepSystem.run step s acts

/-- The line that a call queues with its next step. -/
def lineOf (s : Recorded) (op : Operation) : Option Accepted :=
  s.system.queuedBy (.step op.context)

/-- The lines with a timestamp that are not queued yet. -/
def pendingLines (s : Recorded) : List Accepted := s.drawn.filterMap s.lineOf

end Recorded

/-! ## The conditions -/

/-- The level of the line that draws its timestamp with an action. -/
def System.stampedBy (s : System) : Action → Option LogLevel
  | .step c =>
      match s.pc c with
      | .getTimestamp level _ _ => some level
      | _ => none
  | .call _ _ => none

/-- The level still admits a line that draws its timestamp. -/
def Recorded.LevelKept (s : Recorded) (a : Action) : Prop :=
  ∀ level ∈ s.system.stampedBy a, s.system.machine.logger.filters level = false

instance (s : Recorded) (a : Action) : Decidable (s.LevelKept a) :=
  inferInstanceAs (Decidable (∀ level ∈ s.system.stampedBy a, _ = false))

/-- Lines are queued in the order in which they drew their timestamps. -/
def Recorded.InOrder (s : Recorded) (a : Action) : Prop :=
  (s.system.queuedBy a).isSome → s.drawn.head?.map Operation.context = some a.context

instance (s : Recorded) (a : Action) : Decidable (s.InOrder a) :=
  inferInstanceAs (Decidable (_ → _))

/-- The call that an action starts. -/
def Action.called : Action → Option ApiCall
  | .call _ started => some started
  | .step _ => none

/-- The action starts no call but {lit}`log_write`, {lit}`log_set_level` and
{lit}`log_set_timestamp_provider`. -/
def Action.IsLogging (a : Action) : Prop := ∀ call ∈ a.called, call.IsLogging

instance (a : Action) : Decidable a.IsLogging :=
  inferInstanceAs (Decidable (∀ call ∈ a.called, _))

/-! ## Where a logging call is -/

/-- The program counter is inside the call. -/
inductive ApiCall.Runs : ApiCall → Pc → Prop
  | getInstance {call : ApiCall} (hcall : call.IsLogging) : Runs call (.getInstance call)
  | setLogLevel (level : LogLevel) : Runs (.logSetLevel level) (.setLogLevel level)
  | setTimestampProviderInit (provider : Option Provider) :
      Runs (.logSetTimestampProvider provider) (.setTimestampProviderInit provider)
  | setTimestampProvider (provider : Option Provider) :
      Runs (.logSetTimestampProvider provider) (.setTimestampProvider provider)
  | logVwriteInit (level : LogLevel) (formatted : List UInt8) (answer : UInt32) :
      Runs (.logWrite level formatted answer) (.logVwriteInit level formatted answer)
  | checkLevel (level : LogLevel) (formatted : List UInt8) (answer : UInt32) :
      Runs (.logWrite level formatted answer) (.checkLevel level formatted answer)
  | getTimestamp (level : LogLevel) (formatted : List UInt8) (answer : UInt32) :
      Runs (.logWrite level formatted answer)
        (.getTimestamp level (formatMessage formatted) answer)
  | enqueueLine (level : LogLevel) (formatted : List UInt8) (answer timestamp : UInt32) :
      Runs (.logWrite level formatted answer) (.enqueueLine timestamp (formatMessage formatted))

namespace ApiCall.Runs

variable {call : ApiCall} {pc : Pc}

/-- A call in progress is one of those that are recorded. -/
theorem isLogging (h : call.Runs pc) : call.IsLogging := by
  cases h with
  | getInstance hcall => exact hcall
  | _ => trivial

/-- A step of the call returns or stays in it. -/
theorem advance (h : call.Runs pc) (c : ContextId) (m : Machine) :
    (pc.advance c m).1 = .idle ∨ call.Runs (pc.advance c m).1 := by
  cases h with
  | getInstance hcall =>
    right
    cases call with
    | logSetLevel level => exact .setLogLevel level
    | logSetTimestampProvider provider => exact .setTimestampProviderInit provider
    | logWrite level formatted answer => exact .logVwriteInit level formatted answer
    | _ => exact hcall.elim
  | setLogLevel | setTimestampProvider | enqueueLine => exact Or.inl rfl
  | setTimestampProviderInit provider => exact Or.inr (.setTimestampProvider provider)
  | logVwriteInit level formatted answer => exact Or.inr (.checkLevel level formatted answer)
  | checkLevel level formatted answer =>
    rw [Pc.advance]
    cases m.logger.filters level with
    | true => exact Or.inl rfl
    | false => exact Or.inr (.getTimestamp level formatted answer)
  | getTimestamp level formatted answer => exact Or.inr (.enqueueLine level formatted answer _)

end ApiCall.Runs

/-! ## The record follows the system -/

namespace Recorded

/-- The record of a run of logging calls. -/
structure Tracked (s : Recorded) : Prop where
  consistent : s.system.Consistent
  idle : ∀ c, s.current c = none → s.system.pc c = .idle
  runs : ∀ c op, s.current c = some op →
    op.context = c ∧ op.started < s.clock ∧ op.call.Runs (s.system.pc c)
  returned_started : ∀ entry ∈ s.returned, entry.1.started < s.clock
  fresh : ∀ c op, s.current c = some op → op ∉ s.returned.map Prod.fst
  drawn_iff : ∀ op, op ∈ s.drawn ↔
    s.current op.context = some op ∧ (s.system.queuedBy (.step op.context)).isSome
  nodup : s.drawn.Nodup

/-- Before the first call nothing is recorded. -/
theorem tracked_reset : reset.Tracked where
  consistent := System.consistent_run []
  idle := fun _ _ => rfl
  runs := fun _ _ h => by contradiction
  returned_started := fun _ h => by contradiction
  fresh := fun _ _ h => by contradiction
  drawn_iff := fun op => by simp [reset]
  nodup := List.nodup_nil

variable {s : Recorded} {a : Action}

/-- The call that the acting context is in afterwards. -/
@[simp] theorem current_step_self (s : Recorded) (a : Action) :
    (s.step a).current a.context = s.currentAfter a := by
  simp [step]

/-- The other contexts stay in their calls. -/
theorem current_step_of_ne {c : ContextId} (h : c ≠ a.context) :
    (s.step a).current c = s.current c := by
  simp [step, h]

/-- A context without a call is idle. -/
theorem Tracked.idle_step (h : s.Tracked) (c : ContextId)
    (hnone : (s.step a).current c = none) : (s.step a).system.pc c = .idle := by
  by_cases hself : c = a.context
  · subst hself
    rw [current_step_self] at hnone
    cases a with
    | call c call =>
      rw [currentAfter] at hnone
      by_cases hidle : s.system.pc c = .idle
      · rw [if_pos hidle] at hnone
        contradiction
      · rw [if_neg hidle] at hnone
        exact absurd (h.idle c hnone) hidle
    | step c =>
      rw [currentAfter] at hnone
      by_cases hidle : (s.system.step (.step c)).pc c = .idle
      · exact hidle
      · rw [if_neg hidle] at hnone
        apply absurd _ hidle
        rw [System.step_step_pc_self, h.idle c hnone]
        rfl
  · rw [current_step_of_ne hself] at hnone
    exact (System.step_pc_of_ne _ hself).trans (h.idle c hnone)

/-- A context with a call is somewhere in it. -/
theorem Tracked.runs_step (h : s.Tracked) (ha : a.IsLogging) (c : ContextId) (op : Operation)
    (hop : (s.step a).current c = some op) :
    op.context = c ∧ op.started < s.clock + 1 ∧ op.call.Runs ((s.step a).system.pc c) := by
  by_cases hself : c = a.context
  · subst hself
    rw [current_step_self] at hop
    cases a with
    | call c call =>
      rw [currentAfter] at hop
      by_cases hidle : s.system.pc c = .idle
      · rw [if_pos hidle] at hop
        cases hop
        refine ⟨rfl, Nat.lt_succ_self _, ?_⟩
        rw [step, System.step_call_of_idle hidle]
        simp only [Action.context, Function.update_self]
        exact .getInstance (ha call rfl)
      · rw [if_neg hidle] at hop
        rcases h.runs c op hop with ⟨hcontext, hstarted, hruns⟩
        refine ⟨hcontext, Nat.lt_succ_of_lt hstarted, ?_⟩
        rw [step, System.step_call_of_busy hidle]
        exact hruns
    | step c =>
      rw [currentAfter] at hop
      by_cases hidle : (s.system.step (.step c)).pc c = .idle
      · rw [if_pos hidle] at hop
        contradiction
      · rw [if_neg hidle] at hop
        rcases h.runs c op hop with ⟨hcontext, hstarted, hruns⟩
        refine ⟨hcontext, Nat.lt_succ_of_lt hstarted, ?_⟩
        have hnext := hruns.advance c s.system.machine
        rw [← System.step_step_pc_self] at hnext
        exact hnext.resolve_left hidle
  · rw [current_step_of_ne hself] at hop
    rcases h.runs c op hop with ⟨hcontext, hstarted, hruns⟩
    refine ⟨hcontext, Nat.lt_succ_of_lt hstarted, ?_⟩
    have hpc : (s.step a).system.pc c = s.system.pc c := System.step_pc_of_ne _ hself
    rw [hpc]
    exact hruns

/-- The call that returns is the current one. -/
theorem mem_returns {entry : Operation × Nat} (hentry : entry ∈ s.returns a) :
    s.current a.context = some entry.1 ∧ entry.2 = s.clock ∧
      (s.step a).current a.context = none := by
  cases a with
  | call c call => contradiction
  | step c =>
    rw [returns] at hentry
    by_cases hidle : (s.system.step (.step c)).pc c = .idle
    · rw [if_pos hidle, List.mem_map] at hentry
      rcases hentry with ⟨op, hop, rfl⟩
      rw [current_step_self, currentAfter, if_pos hidle]
      exact ⟨Option.mem_toList.mp hop, rfl, rfl⟩
    · rw [if_neg hidle] at hentry
      contradiction

/-- A call that returned had been started. -/
theorem Tracked.returned_step (h : s.Tracked) (entry : Operation × Nat)
    (hentry : entry ∈ (s.step a).returned) : entry.1.started < s.clock + 1 := by
  rcases List.mem_append.mp hentry with hold | hnew
  · exact Nat.lt_succ_of_lt (h.returned_started entry hold)
  · exact Nat.lt_succ_of_lt (h.runs _ _ (mem_returns hnew).1).2.1

/-- The acting context starts a call now or was in it before. -/
theorem current_of_currentAfter {op : Operation} (h : s.currentAfter a = some op) :
    op.started = s.clock ∨ s.current a.context = some op := by
  cases a with
  | call c call =>
    rw [currentAfter] at h
    by_cases hidle : s.system.pc c = .idle
    · rw [if_pos hidle] at h
      left
      rw [← Option.some.inj h]
    · rw [if_neg hidle] at h
      exact Or.inr h
  | step c =>
    rw [currentAfter] at h
    by_cases hidle : (s.system.step (.step c)).pc c = .idle
    · rw [if_pos hidle] at h
      contradiction
    · rw [if_neg hidle] at h
      exact Or.inr h

/-- A call in progress has not returned. -/
theorem Tracked.fresh_step (h : s.Tracked) (c : ContextId) (op : Operation)
    (hop : (s.step a).current c = some op) : op ∉ (s.step a).returned.map Prod.fst := by
  intro hmem
  rcases List.mem_map.mp hmem with ⟨entry, hentry, rfl⟩
  rcases List.mem_append.mp hentry with hold | hnew
  · have hlt := h.returned_started entry hold
    have hfst := List.mem_map_of_mem (f := Prod.fst) hold
    by_cases hself : c = a.context
    · rw [hself, current_step_self] at hop
      rcases current_of_currentAfter hop with hnow | hcurrent
      · omega
      · exact h.fresh _ _ hcurrent hfst
    · rw [current_step_of_ne hself] at hop
      exact h.fresh c _ hop hfst
  · rcases mem_returns hnew with ⟨hcurrent, _, hnone⟩
    by_cases hself : c = a.context
    · rw [hself, hnone] at hop
      contradiction
    · rw [current_step_of_ne hself] at hop
      exact hself ((h.runs _ _ hop).1.symm.trans (h.runs _ _ hcurrent).1)

/-! ## Calls between their timestamp and their line -/

/-- A call with a timestamp and no queued line is about to queue it. -/
theorem Tracked.pc_of_mem_drawn (h : s.Tracked) {op : Operation} (hop : op ∈ s.drawn) :
    ∃ timestamp message, s.system.pc op.context = .enqueueLine timestamp message := by
  rcases Option.isSome_iff_exists.mp ((h.drawn_iff op).mp hop).2 with ⟨line, hline⟩
  rcases System.queuedBy_eq_some hline with ⟨c, hc, hpc⟩
  cases hc
  exact ⟨_, _, hpc⟩

/-- A context that is not about to queue a line has none pending. -/
theorem Tracked.notMem_drawn (h : s.Tracked) {op : Operation}
    (hpc : s.system.queuedBy (.step op.context) = none) : op ∉ s.drawn := by
  intro hop
  have hsome := ((h.drawn_iff op).mp hop).2
  rw [hpc] at hsome
  contradiction

/-- The calls of the other contexts are drawn as before. -/
theorem Tracked.mem_drawnAfter_of_ne (h : s.Tracked) {op : Operation}
    (hne : op.context ≠ a.context) : op ∈ s.drawnAfter a ↔ op ∈ s.drawn := by
  cases a with
  | call c call => exact Iff.rfl
  | step c =>
    simp only [drawnAfter]
    split
    · rw [List.mem_append, Option.mem_toList]
      constructor
      · rintro (hold | hnew)
        · exact hold
        · exact absurd (h.runs c op hnew).1 hne
      · exact Or.inl
    · rw [List.mem_filter]
      exact and_iff_left (decide_eq_true hne)
    · exact Iff.rfl

/-- The pending lines of the other contexts stay. -/
theorem Tracked.drawn_iff_of_ne (h : s.Tracked) {op : Operation}
    (hne : op.context ≠ a.context) :
    op ∈ (s.step a).drawn ↔ (s.step a).current op.context = some op ∧
      ((s.step a).system.queuedBy (.step op.context)).isSome := by
  have hpc : (s.system.step a).pc op.context = s.system.pc op.context :=
    System.step_pc_of_ne _ hne
  rw [current_step_of_ne hne]
  simp only [step, h.mem_drawnAfter_of_ne hne, h.drawn_iff, System.queuedBy, hpc]

/-- The acting context draws its timestamp, or its call is not drawn afterwards. -/
theorem Tracked.drawn_iff_self (h : s.Tracked) {op : Operation}
    (hself : op.context = a.context) :
    op ∈ (s.step a).drawn ↔ (s.step a).current op.context = some op ∧
      ((s.step a).system.queuedBy (.step op.context)).isSome := by
  rw [hself, current_step_self]
  cases a with
  | call c call =>
    have hcontext : op.context = c := hself
    simp only [step, drawnAfter, Action.context, h.drawn_iff, hcontext, currentAfter]
    by_cases hidle : s.system.pc c = .idle
    · simp [System.step_call_of_idle hidle, System.queuedBy, hidle]
    · rw [if_neg hidle, System.step_call_of_busy hidle]
  | step c =>
    have hcontext : op.context = c := hself
    cases hcurrent : s.current c with
    | none =>
      have hidle := h.idle c hcurrent
      simp [step, drawnAfter, Action.context, currentAfter, hidle, hcurrent, h.drawn_iff,
        hcontext]
    | some op' =>
      have hruns := (h.runs c op' hcurrent).2.2
      have hnotin : s.system.queuedBy (.step op.context) = none → op ∉ s.drawn := h.notMem_drawn
      rw [hcontext] at hnotin
      generalize hpc : s.system.pc c = pc at hruns
      generalize op'.call = call at hruns
      cases hruns with
      | getTimestamp level formatted answer =>
        have hnew := hnotin (by simp [System.queuedBy, hpc])
        simp [step, drawnAfter, Action.context, currentAfter, hpc, hcurrent, hnew, Pc.advance,
          System.queuedBy, eq_comm]
      | enqueueLine level formatted answer timestamp =>
        simp [step, drawnAfter, Action.context, currentAfter, hpc, hcontext, Pc.advance]
      | checkLevel level formatted answer =>
        have hnew := hnotin (by simp [System.queuedBy, hpc])
        cases hfilter : s.system.machine.logger.filters level <;>
          simp [step, drawnAfter, Action.context, hpc, hnew, Pc.advance, System.queuedBy,
            hfilter]
      | getInstance hcall =>
        have hnew := hnotin (by simp [System.queuedBy, hpc])
        cases call <;>
          simp [step, drawnAfter, Action.context, hpc, hnew, Pc.advance, Pc.enter,
            System.queuedBy]
      | _ =>
        have hnew := hnotin (by simp [System.queuedBy, hpc])
        simp [step, drawnAfter, Action.context, hpc, hnew, Pc.advance, System.queuedBy]

/-- No call has two pending lines. -/
theorem Tracked.nodup_step (h : s.Tracked) : (s.step a).drawn.Nodup := by
  cases a with
  | call c call => exact h.nodup
  | step c =>
    simp only [step, drawnAfter]
    split
    · rename_i level message answer hpc
      rw [List.nodup_append]
      refine ⟨h.nodup, ?_, ?_⟩
      · cases s.current c <;> simp
      · rintro op hop op' hop' rfl
        rcases h.pc_of_mem_drawn hop with ⟨_, _, hqueues⟩
        rw [(h.runs c op (Option.mem_toList.mp hop')).1, hpc] at hqueues
        contradiction
    · exact h.nodup.filter _
    · exact h.nodup

/-- The record follows the system in every step of a logging call. -/
theorem Tracked.step (h : s.Tracked) (ha : a.IsLogging) : (s.step a).Tracked where
  consistent := h.consistent.step a
  idle := h.idle_step
  runs := h.runs_step ha
  returned_started := h.returned_step
  fresh := h.fresh_step
  drawn_iff := fun op => by
    by_cases hself : op.context = a.context
    · exact h.drawn_iff_self hself
    · exact h.drawn_iff_of_ne hself
  nodup := h.nodup_step

/-! ## What a step does to the log -/

/-- The log as the next section sees it. -/
abbrev log (s : Recorded) : LogState := s.system.machine.logState

/-- The lines queued so far. -/
abbrev accepted (s : Recorded) : List Accepted := acceptedOf s.system.machine.hist

/-- The step leaves the log and the pending lines. -/
structure Kept (s : Recorded) (a : Action) (s' : Recorded) : Prop where
  queues : s.system.queuedBy a = none
  returned : s'.returned = s.returned
  drawn : s'.drawn = s.drawn
  pending : s'.pendingLines = s.pendingLines
  log : s'.log = s.log
  accepted : s'.accepted = s.accepted

/-- The call {lit}`op` draws the timestamp of the line. -/
structure Drew (s : Recorded) (a : Action) (s' : Recorded) (op : Operation) (level : LogLevel)
    (formatted : List UInt8) (answer : UInt32) : Prop where
  queues : s.system.queuedBy a = none
  call : op.call = .logWrite level formatted answer
  kept : s.LevelKept a → s.log.filters level = false
  new : op ∉ s.returned.map Prod.fst
  started : op.started < s.clock
  returned : s'.returned = s.returned
  drawn : s'.drawn = s.drawn ++ [op]
  pending : s'.pendingLines = s.pendingLines ++
    [{ timestamp := (s.log.draw answer).1, message := formatMessage formatted }]
  log : s'.log = (s.log.draw answer).2
  accepted : s'.accepted = s.accepted

/-- The call {lit}`op` queues its line and returns; the calls {lit}`before` drew their
timestamps earlier and the lines of these are {lit}`lines`. -/
structure Queued (s : Recorded) (a : Action) (s' : Recorded) (op : Operation) (line : Accepted)
    (before after : List Operation) (lines lines' : List Accepted) : Prop where
  drawn : s.drawn = before ++ op :: after
  drawn_after : s'.drawn = before ++ after
  pending : s.pendingLines = lines ++ line :: lines'
  pending_after : s'.pendingLines = lines ++ lines'
  inOrder : s.InOrder a ↔ before = []
  lines_eq_nil : before = [] ↔ lines = []
  returned : s'.returned = s.returned ++ [(op, s.clock)]
  log : s'.log = s.log.enqueueAll [line]
  accepted : s'.accepted = s.accepted ++ [line]

/-- The step is the whole effect of the call {lit}`op`, which queues no line. -/
structure Whole (s : Recorded) (a : Action) (s' : Recorded) (op : Operation) : Prop where
  queues : s.system.queuedBy a = none
  logging : op.call.IsLogging
  new : op ∉ s.returned.map Prod.fst
  started : op.started < s.clock
  returned : s'.returned = s.returned ++ [(op, s.clock)]
  drawn : s'.drawn = s.drawn
  pending : s'.pendingLines = s.pendingLines
  call : ∀ lines, (s.log.enqueueAll lines).apply op.call = s'.log.enqueueAll lines
  lines : s'.log.lines = s.log.lines
  provider : s'.log.timestampProvider.timestampProvider = none →
    s'.log.timestampProvider = s.log.timestampProvider
  accepted : s'.accepted = s.accepted

/-- A step leaves the log, draws a timestamp, queues a line, or is a whole call of
the sequential log. -/
inductive Effect (s : Recorded) (a : Action) (s' : Recorded) : Prop
  | kept (h : Kept s a s')
  | drew {op : Operation} {level : LogLevel} {formatted : List UInt8} {answer : UInt32}
      (h : Drew s a s' op level formatted answer)
  | queued {op : Operation} {line : Accepted} {before after : List Operation}
      {lines lines' : List Accepted} (h : Queued s a s' op line before after lines lines')
  | whole {op : Operation} (h : Whole s a s' op)

/-- The pending lines are those of other contexts. -/
theorem Tracked.context_ne (h : s.Tracked) {c : ContextId}
    (hnone : s.system.queuedBy (.step c) = none) : ∀ op ∈ s.drawn, op.context ≠ c := by
  rintro op hop rfl
  exact h.notMem_drawn hnone hop

/-- The lines of the other contexts are pending as before. -/
theorem pendingLines_step {ops : List Operation} (hops : ∀ op ∈ ops, op.context ≠ a.context) :
    ops.filterMap (s.step a).lineOf = ops.filterMap s.lineOf := by
  apply List.filterMap_congr
  intro op hop
  have hpc : (s.step a).system.pc op.context = s.system.pc op.context :=
    System.step_pc_of_ne _ (hops op hop)
  simp only [lineOf, System.queuedBy, hpc]

/-- An action that draws no timestamp and queues no line leaves the pending lines. -/
theorem Tracked.pendingLines_of_drawn (h : s.Tracked)
    (hnone : s.system.queuedBy (.step a.context) = none) (hdrawn : s.drawnAfter a = s.drawn) :
    (s.step a).pendingLines = s.pendingLines := by
  have hdrawn' : (s.step a).drawn = s.drawn := hdrawn
  rw [pendingLines, hdrawn']
  exact pendingLines_step (h.context_ne hnone)

/-- The begin of a call changes nothing else. -/
theorem Tracked.kept_call (h : s.Tracked) (c : ContextId) (call : ApiCall) :
    Kept s (.call c call) (s.step (.call c call)) := by
  have hmachine : (s.step (.call c call)).system.machine = s.system.machine :=
    System.step_call_machine _ _ _
  constructor
  · rfl
  · exact List.append_nil _
  · rfl
  · by_cases hidle : s.system.pc c = .idle
    · exact h.pendingLines_of_drawn (by simp [System.queuedBy, Action.context, hidle]) rfl
    · rw [pendingLines, Recorded.step, System.step_call_of_busy hidle]
      rfl
  · rw [log, hmachine]
  · rw [accepted, hmachine]

section Step

variable {c : ContextId} (h : s.Tracked)
include h

/-- A section of a call that neither draws nor queues and does not end the call. -/
theorem Tracked.kept (hquiet : (s.system.pc c).IsQuiet)
    (hstays : (s.system.step (.step c)).pc c ≠ .idle)
    (hdrawn : s.drawnAfter (.step c) = s.drawn)
    (hlog : (s.step (.step c)).log = s.log) : Kept s (.step c) (s.step (.step c)) := by
  have hnone := System.queuedBy_of_isQuiet hquiet
  constructor
  · exact hnone
  · rw [Recorded.step, returns, if_neg hstays, List.append_nil]
  · exact hdrawn
  · exact h.pendingLines_of_drawn hnone hdrawn
  · exact hlog
  · exact (Pc.quiet_advance h.consistent.machine.toSound hquiet).1.accepted

/-- A section that ends a call without a line. -/
theorem Tracked.whole {op : Operation} (hcurrent : s.current c = some op)
    (hquiet : (s.system.pc c).IsQuiet) (hends : (s.system.step (.step c)).pc c = .idle)
    (hdrawn : s.drawnAfter (.step c) = s.drawn)
    (hcall : ∀ lines, (s.log.enqueueAll lines).apply op.call =
      (s.step (.step c)).log.enqueueAll lines)
    (hlines : (s.step (.step c)).log.lines = s.log.lines)
    (hprovider : (s.step (.step c)).log.timestampProvider.timestampProvider = none →
      (s.step (.step c)).log.timestampProvider = s.log.timestampProvider) :
    Whole s (.step c) (s.step (.step c)) op := by
  rcases h.runs c op hcurrent with ⟨_, hstarted, hruns⟩
  have hnone := System.queuedBy_of_isQuiet hquiet
  constructor
  · exact hnone
  · exact hruns.isLogging
  · exact h.fresh c op hcurrent
  · exact hstarted
  · rw [Recorded.step, returns, if_pos hends, hcurrent]
    rfl
  · exact hdrawn
  · exact h.pendingLines_of_drawn hnone hdrawn
  · exact hcall
  · exact hlines
  · exact hprovider
  · exact (Pc.quiet_advance h.consistent.machine.toSound hquiet).1.accepted

/-- A context outside every call does nothing. -/
theorem Tracked.kept_idle (hcurrent : s.current c = none) :
    Kept s (.step c) (s.step (.step c)) := by
  have hidle := h.idle c hcurrent
  have hdrawn : s.drawnAfter (.step c) = s.drawn := by simp [drawnAfter, hidle]
  have hmachine : (s.step (.step c)).system.machine = s.system.machine := by
    rw [Recorded.step, System.step_step_machine, hidle]
    rfl
  have hnone : s.system.queuedBy (.step c) = none := by simp [System.queuedBy, hidle]
  constructor
  · exact hnone
  · simp [Recorded.step, returns, hcurrent]
  · exact hdrawn
  · exact h.pendingLines_of_drawn hnone hdrawn
  · rw [log, hmachine]
  · rw [accepted, hmachine]

/-- The test of the level. -/
theorem Tracked.effect_checkLevel {op : Operation} (hcurrent : s.current c = some op)
    {level : LogLevel} {formatted : List UInt8} {answer : UInt32}
    (hcall : op.call = .logWrite level formatted answer)
    (hpc : s.system.pc c = .checkLevel level formatted answer) :
    Effect s (.step c) (s.step (.step c)) := by
  have hinit := h.consistent.initialized c (by rw [hpc]; trivial)
  have hquiet : (s.system.pc c).IsQuiet := by
    rw [hpc]
    trivial
  have hdrawn : s.drawnAfter (.step c) = s.drawn := by simp [drawnAfter, hpc]
  have hlog : (s.step (.step c)).log = s.log := by
    rw [log, Recorded.step, System.step_step_machine, hpc]
    rfl
  cases hfilter : s.system.machine.logger.filters level with
  | false =>
    apply Effect.kept
    apply h.kept hquiet _ hdrawn hlog
    simp [hpc, Pc.advance, hfilter]
  | true =>
    apply Effect.whole
    apply h.whole hcurrent hquiet _ hdrawn
    · intro lines
      have hfilters : (s.log.enqueueAll lines).filters level = true :=
        (Machine.filters_logState hinit level).trans hfilter
      rw [hlog, hcall, LogState.apply, if_pos hfilters]
    · rw [hlog]
    · intro _
      rw [hlog]
    · simp [hpc, Pc.advance, hfilter]

/-- The draw of a timestamp. -/
theorem Tracked.drew {op : Operation} (hcurrent : s.current c = some op)
    {level : LogLevel} {formatted : List UInt8} {answer : UInt32}
    (hcall : op.call = .logWrite level formatted answer)
    (hpc : s.system.pc c = .getTimestamp level (formatMessage formatted) answer) :
    Drew s (.step c) (s.step (.step c)) op level formatted answer := by
  rcases h.runs c op hcurrent with ⟨hcontext, hstarted, _⟩
  have hinit := h.consistent.initialized c (by rw [hpc]; trivial)
  have hnone : s.system.queuedBy (.step c) = none := by simp [System.queuedBy, hpc]
  have hothers : ∀ op' ∈ s.drawn, op'.context ≠ (Action.step c).context := h.context_ne hnone
  have hdraw := Machine.logState_getTimestamp hinit c answer
  have hdrawn : s.drawnAfter (.step c) = s.drawn ++ [op] := by simp [drawnAfter, hpc, hcurrent]
  have hline : (s.step (.step c)).lineOf op =
      some { timestamp := (s.log.draw answer).1, message := formatMessage formatted } := by
    rw [← hdraw]
    simp [lineOf, System.queuedBy, Recorded.step, hcontext, hpc, Pc.advance]
  constructor
  · exact hnone
  · exact hcall
  · intro hkept
    rw [Machine.filters_logState hinit]
    exact hkept level (by simp [System.stampedBy, hpc])
  · exact h.fresh c op hcurrent
  · exact hstarted
  · simp [Recorded.step, returns, hpc, Pc.advance]
  · exact hdrawn
  · have hdrawn' : (s.step (.step c)).drawn = s.drawn ++ [op] := hdrawn
    rw [pendingLines, hdrawn', List.filterMap_append, List.filterMap_cons_some hline,
      List.filterMap_nil, pendingLines_step hothers, pendingLines]
  · rw [← hdraw, log, Recorded.step, System.step_step_machine, hpc]
    rfl
  · rw [accepted, Recorded.step, System.step_step_machine, hpc]
    exact (Machine.quiet_getTimestamp _ c answer).accepted

/-- A drawn call is the only one of its context. -/
theorem Tracked.drawn_split {op : Operation} (hcurrent : s.current c = some op)
    (hqueues : (s.system.queuedBy (.step c)).isSome) :
    ∃ before after, s.drawn = before ++ op :: after ∧
      ∀ op' ∈ before ++ after, op' ∈ s.drawn ∧ op'.context ≠ c := by
  have hcontext := (h.runs c op hcurrent).1
  have hmem : op ∈ s.drawn := by
    rw [h.drawn_iff, hcontext]
    exact ⟨hcurrent, hqueues⟩
  rcases List.append_of_mem hmem with ⟨before, after, hdrawn⟩
  refine ⟨before, after, hdrawn, ?_⟩
  intro op' hop'
  have hmem' : op' ∈ s.drawn := by
    rw [hdrawn]
    exact ((List.sublist_cons_self op after).append_left before).subset hop'
  refine ⟨hmem', ?_⟩
  intro hself
  have hsame := ((h.drawn_iff op').mp hmem').1
  rw [hself, hcurrent] at hsame
  have hnodup := h.nodup
  rw [hdrawn, List.nodup_middle, List.nodup_cons] at hnodup
  rw [← Option.some.inj hsame] at hop'
  exact hnodup.1 hop'

/-- The enqueue section. -/
theorem Tracked.queued {op : Operation} (hcurrent : s.current c = some op)
    {timestamp : UInt32} {message : CString}
    (hpc : s.system.pc c = .enqueueLine timestamp message) :
    ∃ before after lines lines', Queued s (.step c) (s.step (.step c)) op
      { timestamp, message } before after lines lines' := by
  have hcontext := (h.runs c op hcurrent).1
  have hinit := h.consistent.initialized c (by rw [hpc]; trivial)
  have hsound := h.consistent.machine.toSound
  have hline := System.queuedBy_of_enqueueLine hpc
  rcases h.drawn_split hcurrent (by rw [hline]; rfl) with ⟨before, after, hdrawn, hothers⟩
  have hdrawn' : (s.step (.step c)).drawn = before ++ after := by
    have hkeep : ∀ op' ∈ before ++ after, decide (op'.context ≠ c) = true :=
      fun op' hop' => decide_eq_true (hothers op' hop').2
    simp only [Recorded.step, drawnAfter, hpc, hdrawn]
    rw [List.filter_append, List.filter_cons_of_neg (by simp [hcontext]), ← List.filter_append,
      List.filter_eq_self.mpr hkeep]
  have hsome : ∀ op' ∈ before, (s.lineOf op').isSome :=
    fun op' hop' => ((h.drawn_iff op').mp (hothers op' (List.mem_append_left _ hop')).1).2
  have hop : s.lineOf op = some { timestamp, message } := by
    rw [lineOf, hcontext, hline]
  refine ⟨before, after, before.filterMap s.lineOf, after.filterMap s.lineOf, ?_⟩
  constructor
  · exact hdrawn
  · exact hdrawn'
  · rw [pendingLines, hdrawn, List.filterMap_append, List.filterMap_cons_some hop]
  · have hne : ∀ op' ∈ before ++ after, op'.context ≠ (Action.step c).context :=
      fun op' hop' => (hothers op' hop').2
    rw [pendingLines, hdrawn', pendingLines_step hne, List.filterMap_append]
  · rw [InOrder, hline, hdrawn]
    cases before with
    | nil => simp [hcontext, Action.context]
    | cons first before =>
      have hne := (hothers first List.mem_cons_self).2
      simp [hne, Action.context]
  · cases before with
    | nil => simp
    | cons first before =>
      rcases Option.isSome_iff_exists.mp (hsome first List.mem_cons_self) with ⟨line, hfirst⟩
      simp [List.filterMap_cons_some hfirst]
  · simp [Recorded.step, returns, hpc, Pc.advance, hcurrent]
  · rw [log, Recorded.step, System.step_step_machine, hpc]
    exact Machine.logState_enqueueLine hinit hsound c timestamp message
  · rw [accepted, Recorded.step, System.step_step_machine, hpc]
    exact (Machine.wrote_enqueueLine hsound c timestamp message).accepted

end Step

/-- What each step of a logging call does. -/
theorem Tracked.effect (h : s.Tracked) (a : Action) : Effect s a (s.step a) := by
  cases a with
  | call c call => exact .kept (h.kept_call c call)
  | step c =>
    cases hcurrent : s.current c with
    | none => exact .kept (h.kept_idle hcurrent)
    | some op =>
      have hruns := (h.runs c op hcurrent).2.2
      have hinit := h.consistent.initialized c
      generalize hpc : s.system.pc c = pc at hruns
      generalize hcall : op.call = call at hruns
      rw [hpc] at hinit
      have hmachine : (s.step (.step c)).system.machine = (pc.advance c s.system.machine).2 := by
        rw [Recorded.step, System.step_step_machine, hpc]
      cases hruns with
      | checkLevel level formatted answer => exact h.effect_checkLevel hcurrent hcall hpc
      | getTimestamp level formatted answer => exact .drew (h.drew hcurrent hcall hpc)
      | enqueueLine level formatted answer timestamp =>
        rcases h.queued hcurrent hpc with ⟨_, _, _, _, hqueued⟩
        exact .queued hqueued
      | getInstance hlogging =>
        apply Effect.kept
        apply h.kept (by rw [hpc]; trivial)
        · cases call <;> simp [hpc, Pc.advance, Pc.enter]
        · simp [drawnAfter, hpc]
        · rw [log, hmachine]
          exact Machine.logState_loggerEnsureInitialized _
      | setTimestampProviderInit | logVwriteInit =>
        apply Effect.kept
        apply h.kept (by rw [hpc]; trivial)
        · simp [hpc, Pc.advance]
        · simp [drawnAfter, hpc]
        · rw [log, hmachine]
          exact Machine.logState_loggerEnsureInitialized _
      | setLogLevel level =>
        have hlog : (s.step (.step c)).log = { s.log with logLevel := level } := by
          rw [log, hmachine]
          exact Machine.logState_setLogLevel (hinit trivial) level
        apply Effect.whole
        apply h.whole hcurrent (by rw [hpc]; trivial)
        · simp [hpc, Pc.advance]
        · simp [drawnAfter, hpc]
        · intro lines
          rw [hlog, hcall]
          rfl
        · rw [hlog]
        · intro _
          rw [hlog]
      | setTimestampProvider provider =>
        have hlog : (s.step (.step c)).log =
            { s.log with
              timestampProvider := (s.log.timestampProvider.setProvider provider).2 } := by
          rw [log, hmachine]
          exact Machine.logState_setTimestampProvider (hinit trivial) provider
        apply Effect.whole
        apply h.whole hcurrent (by rw [hpc]; trivial)
        · simp [hpc, Pc.advance]
        · simp [drawnAfter, hpc]
        · intro lines
          rw [hlog, hcall]
          rfl
        · rw [hlog]
        · rw [hlog]
          cases provider with
          | none => exact fun _ => rfl
          | some provider => exact fun hnone => by contradiction

end Recorded

end Equinios
end RadonMCU
