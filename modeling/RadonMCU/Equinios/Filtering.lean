import RadonMCU.Equinios.Flush
import RadonMCU.Equinios.SequentialLog

/-!
# Filtered calls

A {lit}`log_write` above the level in force returns after its level check.  It may
still be the call that initialises the logger, so the run without it can be in
another state: two machines are alike when they have the same history and are the
same once they are initialised.  Every call keeps machines alike, because each
wrapper of {lit}`equinios.c` first initialises the logger.

Main results:

- Theorem {lit}`Alike.apiCall`: calls keep machines alike.
- Theorem {lit}`inForce_runCalls`: the settings are those of the calls so far.
- Theorem {lit}`acceptedOf_runCalls_of_ticks`: without a provider the accepted lines
  are numbered from the tick counter on.
- Theorem {lit}`filteredInvisible_runCalls`: the law of filtered calls, for every run
  of one context.
-/

namespace RadonMCU
namespace Equinios

/-! ## Settings in force -/

/-- What the setters of {lit}`equinios.h` have set. -/
structure Settings where
  level : LogLevel
  provider : Option Provider
  schedule : Schedule

namespace Settings

/-- The settings before any call. -/
def initial : Settings := { level := .info, provider := none, schedule := .initial }

/-- A null provider sets nothing. -/
def step (s : Settings) (call : ApiCall) : Settings where
  level :=
    match call with
    | .logSetLevel level => level
    | _ => s.level
  provider :=
    match call with
    | .logSetTimestampProvider (some provider) => some provider
    | _ => s.provider
  schedule := s.schedule.step call

end Settings

/-- The settings after some calls. -/
def settingsOf (calls : List ApiCall) : Settings :=
  StepSystem.run Settings.step .initial calls

/-- The logger has these settings. -/
structure InForce (this : EquiniosLogger) (s : Settings) : Prop where
  level : this.logLevel = s.level
  provider : this.timestampProvider.timestampProvider = s.provider
  schedule : OnSchedule this s.schedule

/-- The call is not a {lit}`log_write` above the level in force. -/
def ApiCall.visible (s : Settings) : ApiCall → Bool
  | .logWrite level _ _ => decide (level.value ≤ s.level.value)
  | _ => true

/-- The calls without the filtered ones. -/
def visibleCalls (s : Settings) (calls : List ApiCall) : List ApiCall :=
  StepSystem.purge ApiCall.visible Settings.step s calls

theorem visibleCalls_cons (s : Settings) (call : ApiCall) (calls : List ApiCall) :
    visibleCalls s (call :: calls) =
      if call.visible s then call :: visibleCalls (s.step call) calls
      else visibleCalls (s.step call) calls := rfl

/-- The text a {lit}`log_write` formats to. -/
def ApiCall.text? : ApiCall → Option (List UInt8)
  | .logWrite _ formatted _ => some formatted
  | _ => none

/-- The texts of the {lit}`log_write` calls. -/
def textsOf (calls : List ApiCall) : List (List UInt8) := calls.filterMap ApiCall.text?

/-- Lines with these texts, numbered from a tick count on. -/
def numbered (ticks : UInt32) (texts : List (List UInt8)) : List Accepted :=
  texts.mapIdx fun i text =>
    { timestamp := ticks + UInt32.ofNat i, message := formatMessage text }

theorem numbered_cons (ticks : UInt32) (text : List UInt8) (texts : List (List UInt8)) :
    numbered ticks (text :: texts) =
      { timestamp := ticks, message := formatMessage text } :: numbered (ticks + 1) texts := by
  rw [numbered, List.mapIdx_cons, numbered]
  congr 1
  · simp
  · congr 1
    funext i text
    rw [Nat.add_comm i 1, UInt32.ofNat_add, UInt32.add_assoc]
    rfl

namespace Machine

/-! ## Machines that are the same once initialised -/

/-- The history is the same, and so is the logger after its first use.  The history
has the emitted bytes, the answers of {lit}`log_get_dropped_lines`, the calls of
the timestamp provider and the decisions of {lit}`should_process`. -/
structure Alike (m m' : Machine) : Prop where
  hist : m.hist = m'.hist
  logger : m.logger.loggerEnsureInitialized = m'.logger.loggerEnsureInitialized

theorem Alike.refl (m : Machine) : Alike m m := ⟨rfl, rfl⟩

theorem alike_iff {m m' : Machine} :
    Alike m m' ↔ m.loggerEnsureInitialized = m'.loggerEnsureInitialized := by
  rw [loggerEnsureInitialized, loggerEnsureInitialized, Machine.mk.injEq]
  exact ⟨fun h => ⟨h.logger, h.hist⟩, fun h => ⟨h.2, h.1⟩⟩

/-- The wrapper of every call first initialises the logger. -/
theorem run_loggerEnsureInitialized (c : ContextId) (m : Machine) (call : ApiCall) :
    call.run c m.loggerEnsureInitialized = call.run c m := by
  cases call <;> simp only [ApiCall.run, loggerEnsureInitialized_idem]

/-- Calls keep machines alike. -/
theorem Alike.apiCall {m m' : Machine} (h : Alike m m') (c : ContextId) (call : ApiCall) :
    Alike (call.run c m) (call.run c m') := by
  rw [← run_loggerEnsureInitialized c m, ← run_loggerEnsureInitialized c m',
    alike_iff.mp h]
  exact .refl _

theorem Alike.runCalls {m m' : Machine} (h : Alike m m') (c : ContextId)
    (calls : List ApiCall) : Alike (runCalls c m calls) (runCalls c m' calls) :=
  StepSystem.run_simulation (fun _ _ call hm => hm.apiCall c call) h calls

theorem alike_loggerEnsureInitialized (m : Machine) : Alike m.loggerEnsureInitialized m :=
  alike_iff.mpr (loggerEnsureInitialized_idem m)

/-- A filtered call only initialises the logger. -/
theorem run_of_filtered {m : Machine} {level : LogLevel}
    (h : m.logState.filters level = true) (c : ContextId) (formatted : List UInt8)
    (answer : UInt32) :
    (ApiCall.logWrite level formatted answer).run c m = m.loggerEnsureInitialized := by
  have hfilters : m.loggerEnsureInitialized.loggerEnsureInitialized.logger.filters level =
      true := by
    rw [loggerEnsureInitialized_idem]
    exact h
  rw [ApiCall.run, logVwrite_of_filtered hfilters, loggerEnsureInitialized_idem]

/-- A null provider only initialises the logger. -/
theorem run_nullProvider (c : ContextId) (m : Machine) :
    (ApiCall.logSetTimestampProvider none).run c m = m.loggerEnsureInitialized := by
  rw [ApiCall.run, loggerEnsureInitialized_idem]
  rfl

/-! ## Settings along a run -/

theorem logState_of_same_settings {m m' : Machine} (hinit : m'.logger.initialized = true)
    (hlevel : m'.logger.logLevel = m.loggerEnsureInitialized.logger.logLevel)
    (hprovider : m'.logger.timestampProvider =
      m.loggerEnsureInitialized.logger.timestampProvider) :
    m'.logState.logLevel = m.logState.logLevel ∧
      m'.logState.timestampProvider = m.logState.timestampProvider := by
  rw [logState_of_initialized hinit]
  exact ⟨hlevel, hprovider⟩

/-- Calls that neither log nor set leave the level and the timestamp provider. -/
theorem logState_of_not_isLogging {m : Machine} (h : m.Sound) (c : ContextId) {call : ApiCall}
    (hcall : ¬ call.IsLogging) :
    (call.run c m).logState.logLevel = m.logState.logLevel ∧
      (call.run c m).logState.timestampProvider = m.logState.timestampProvider := by
  have hinit := initialized_loggerEnsureInitialized m
  cases call with
  | logSetLevel | logSetTimestampProvider | logWrite => exact absurd trivial hcall
  | logSetProcessEveryNCalls | logGetDroppedLines | logResetDroppedLines =>
    exact logState_of_same_settings hinit rfl rfl
  | logProcess =>
    have hsound : (m.loggerEnsureInitialized.shouldProcess c).2.Sound :=
      h.loggerEnsureInitialized.step .shouldProcess
    rcases process_cases h.loggerEnsureInitialized c with ⟨_, hskip⟩ | ⟨_, hloop, _⟩
    · rw [ApiCall.run, hskip]
      exact logState_of_same_settings hinit rfl rfl
    · rcases processLoop_logger hsound c with ⟨ringBuffer, hlogger⟩
      rw [← hloop] at hlogger
      rw [ApiCall.run]
      apply logState_of_same_settings
      · rw [hlogger]
        exact hinit
      · rw [hlogger]
        rfl
      · rw [hlogger]
        rfl

end Machine

/-- Every call leaves the settings it should. -/
theorem InForce.apiCall {m : Machine} {s : Settings} (hsound : m.Sound)
    (h : InForce m.logger.loggerEnsureInitialized s) (c : ContextId) (call : ApiCall) :
    InForce (call.run c m).logger.loggerEnsureInitialized (s.step call) := by
  have hschedule : OnSchedule (call.run c m).logger.loggerEnsureInitialized
      (s.schedule.step call) := by
    rw [← Machine.run_loggerEnsureInitialized]
    have hinit : OnSchedule m.loggerEnsureInitialized.logger s.schedule := h.schedule
    exact (hinit.apiCall hsound.loggerEnsureInitialized c call).loggerEnsureInitialized
  by_cases hcall : call.IsLogging
  · have hstate := Machine.logState_apiCall hsound c hcall
    have hlevel : m.logState.logLevel = s.level := h.level
    have hprovider : m.logState.timestampProvider.timestampProvider = s.provider := h.provider
    refine ⟨(congrArg LogState.logLevel hstate).trans ?_,
      (congrArg (fun log => log.timestampProvider.timestampProvider) hstate).trans ?_, hschedule⟩
    · cases call with
      | logSetLevel level => rfl
      | logSetTimestampProvider provider => exact hlevel
      | logWrite level formatted answer =>
        rw [LogState.apply]
        split <;> exact hlevel
      | _ => exact hcall.elim
    · cases call with
      | logSetLevel level => exact hprovider
      | logSetTimestampProvider provider =>
        cases provider with
        | none => exact hprovider
        | some provider => rfl
      | logWrite level formatted answer =>
        rw [LogState.apply]
        split
        · exact hprovider
        · refine Eq.trans ?_ hprovider
          change (m.logState.timestampProvider.getTimestamp answer).2.timestampProvider = _
          unfold TimestampProvider.getTimestamp
          split
          · rfl
          · rfl
      | _ => exact hcall.elim
  · rcases Machine.logState_of_not_isLogging hsound c hcall with ⟨hlevel, hprovider⟩
    refine ⟨hlevel.trans (h.level.trans ?_),
      (congrArg TimestampProvider.timestampProvider hprovider).trans (h.provider.trans ?_),
      hschedule⟩
    · cases call <;> first | rfl | exact absurd trivial hcall
    · cases call <;> first | rfl | exact absurd trivial hcall

/-- After any calls of one context the settings are those of the calls. -/
theorem inForce_runCalls (c : ContextId) (calls : List ApiCall) :
    InForce (runCalls c Machine.reset calls).logger.loggerEnsureInitialized
      (settingsOf calls) := by
  have hstart : InForce Machine.reset.logger.loggerEnsureInitialized .initial :=
    ⟨rfl, rfl, rfl, by decide, rfl⟩
  refine (StepSystem.run_simulation
    (R := fun (m : Machine) (s : Settings) =>
      m.Consistent ∧ InForce m.logger.loggerEnsureInitialized s)
    ?_ ⟨Machine.consistent_reset, hstart⟩ calls).2
  intro m s call hm
  exact ⟨hm.1.apiCall c call, hm.2.apiCall hm.1.toSound c call⟩

/-! ## Numbered lines -/

namespace Machine

/-- The tick counter the next section after the initialisation sees. -/
def ticks (m : Machine) : UInt32 := m.logState.timestampProvider.ticksCount

/-- A call that is no {lit}`log_write` accepts nothing and leaves the tick counter. -/
theorem accepted_of_not_write {m : Machine} (h : m.Sound) (c : ContextId) {call : ApiCall}
    (hcall : call.text? = none) :
    acceptedOf (call.run c m).hist = acceptedOf m.hist ∧ (call.run c m).ticks = m.ticks := by
  constructor
  · cases apiCall_cases h c call with
    | quiet h' _ => exact h'.accepted
    | wrote => contradiction
    | drained h' => exact h'.accepted
  · by_cases hlogging : call.IsLogging
    · rw [ticks, logState_apiCall h c hlogging]
      cases call with
      | logSetLevel => rfl
      | logSetTimestampProvider provider => cases provider <;> rfl
      | logWrite => contradiction
      | _ => exact hlogging.elim
    · exact congrArg TimestampProvider.ticksCount (logState_of_not_isLogging h c hlogging).2

/-- Without a provider an accepted {lit}`log_write` takes the next tick. -/
theorem accepted_write {m : Machine} (h : m.Sound) (c : ContextId) {level : LogLevel}
    (hfilters : m.logState.filters level = false)
    (hprovider : m.logState.timestampProvider.timestampProvider = none)
    (formatted : List UInt8) (answer : UInt32) :
    acceptedOf ((ApiCall.logWrite level formatted answer).run c m).hist =
        acceptedOf m.hist ++
          [{ timestamp := m.ticks, message := formatMessage formatted }] ∧
      ((ApiCall.logWrite level formatted answer).run c m).ticks = m.ticks + 1 := by
  have hdraw : m.logState.timestampProvider.getTimestamp answer =
      (m.ticks, { m.logState.timestampProvider with ticksCount := m.ticks + 1 }) := by
    simp [TimestampProvider.getTimestamp, hprovider, ticks]
  constructor
  · have haccepted : m.loggerEnsureInitialized.loggerEnsureInitialized.logger.filters level =
        false := by
      rw [loggerEnsureInitialized_idem]
      exact hfilters
    have hwrote := wrote_logVwrite h.loggerEnsureInitialized haccepted c formatted answer
    rw [loggerEnsureInitialized_idem] at hwrote
    have hstamp : m.loggerEnsureInitialized.stamp answer = m.ticks := congrArg Prod.fst hdraw
    rw [ApiCall.run, hwrote.accepted, hstamp]
    rfl
  · have hlogging : (ApiCall.logWrite level formatted answer).IsLogging := trivial
    rw [ticks, logState_apiCall h c hlogging, LogState.apply, hfilters]
    exact congrArg (fun drawn => drawn.2.ticksCount) hdraw

end Machine

/-- Without a provider the accepted lines are numbered from the tick counter on. -/
theorem acceptedOf_runCalls_of_ticks (c : ContextId) {m : Machine} {s : Settings}
    (hm : m.Consistent) (hs : InForce m.logger.loggerEnsureInitialized s)
    (hprovider : s.provider = none) {calls : List ApiCall}
    (hcalls : ∀ provider, ApiCall.logSetTimestampProvider (some provider) ∉ calls) :
    acceptedOf (runCalls c m calls).hist =
      acceptedOf m.hist ++ numbered m.ticks (textsOf (visibleCalls s calls)) := by
  induction calls generalizing m s with
  | nil => exact (List.append_nil _).symm
  | cons call calls ih =>
    have hsound := hm.toSound
    have hprovider' : (s.step call).provider = none := by
      cases call with
      | logSetTimestampProvider provider =>
        cases provider with
        | none => exact hprovider
        | some provider => exact absurd List.mem_cons_self (hcalls provider)
      | _ => exact hprovider
    have hrest := ih (hm.apiCall c call) (hs.apiCall hsound c call) hprovider'
      fun provider hmem => hcalls provider (List.mem_cons_of_mem _ hmem)
    rw [runCalls, StepSystem.run_cons, ← runCalls, hrest, visibleCalls_cons]
    cases htext : call.text? with
    | none =>
      rcases Machine.accepted_of_not_write hsound c htext with ⟨haccepted, hticks⟩
      have hvisible : call.visible s = true := by
        cases call with
        | logWrite => contradiction
        | _ => rfl
      rw [haccepted, hticks, if_pos hvisible, textsOf, textsOf,
        List.filterMap_cons_none htext]
    | some text =>
      cases call with
      | logWrite level formatted answer =>
        have hlevel : m.logState.filters level = decide (level.value > s.level.value) := by
          rw [← hs.level]
          rfl
        cases hfilters : m.logState.filters level with
        | true =>
          have hhidden : ¬ level.value ≤ s.level.value := by
            rw [hlevel, decide_eq_true_iff] at hfilters
            omega
          rw [Machine.run_of_filtered hfilters, ApiCall.visible, decide_eq_false hhidden,
            if_neg Bool.false_ne_true]
          rw [show m.loggerEnsureInitialized.ticks = m.ticks from
            congrArg (fun log => log.timestampProvider.ticksCount)
              (Machine.logState_loggerEnsureInitialized m)]
          rfl
        | false =>
          have hshown : level.value ≤ s.level.value := by
            rw [hlevel, decide_eq_false_iff_not] at hfilters
            omega
          rcases Machine.accepted_write hsound c hfilters (hs.provider.trans hprovider)
            formatted answer with ⟨haccepted, hticks⟩
          rw [haccepted, hticks, ApiCall.visible, decide_eq_true hshown, if_pos rfl, textsOf,
            textsOf, List.filterMap_cons_some htext, numbered_cons, List.append_assoc]
          cases htext
          rfl
      | _ => contradiction

/-! ## The law of filtered calls -/

/-- What filtered calls, null providers and the first-use initialisation do to a run of
one context. -/
structure FilteredInvisible (c : ContextId) (calls : List ApiCall) : Prop where
  /-- Without the filtered calls everything is the same. -/
  visible : Machine.Alike (runCalls c Machine.reset calls)
    (runCalls c Machine.reset (visibleCalls .initial calls))
  /-- Before a provider is installed the accepted lines are numbered from zero. -/
  numbered : ∀ pre, pre <+: calls →
    (∀ provider, ApiCall.logSetTimestampProvider (some provider) ∉ pre) →
    numbered 0 (textsOf (visibleCalls .initial pre)) <+:
      acceptedOf (runCalls c Machine.reset calls).hist
  /-- Without a null provider everything is the same. -/
  nullProvider : ∀ pre post, calls = pre ++ .logSetTimestampProvider none :: post →
    Machine.Alike (runCalls c Machine.reset calls) (runCalls c Machine.reset (pre ++ post))
  /-- The first-use initialisation keeps what was set before it. -/
  settings : InForce (runCalls c Machine.reset calls).logger.loggerEnsureInitialized
    (settingsOf calls)

theorem alike_visibleCalls (c : ContextId) (calls : List ApiCall) :
    Machine.Alike (runCalls c Machine.reset calls)
      (runCalls c Machine.reset (visibleCalls .initial calls)) := by
  refine StepSystem.run_purge
    (V := fun (s : Settings) (m : Machine) =>
      m.Consistent ∧ InForce m.logger.loggerEnsureInitialized s)
    ?_ ?_ ?_ ⟨Machine.consistent_reset, inForce_runCalls c []⟩ (.refl _) calls
  · intro s m call hm
    exact ⟨hm.1.apiCall c call, hm.2.apiCall hm.1.toSound c call⟩
  · intro m m' call hm
    exact hm.apiCall c call
  · intro s m m' call hm hhidden hmm'
    cases call with
    | logWrite level formatted answer =>
      have hfilters : m.logState.filters level = true := by
        rw [ApiCall.visible, decide_eq_false_iff_not, ← hm.2.level] at hhidden
        exact decide_eq_true (Nat.lt_of_not_le hhidden)
      rw [Machine.run_of_filtered hfilters]
      exact Machine.alike_iff.mpr
        ((Machine.loggerEnsureInitialized_idem m).trans (Machine.alike_iff.mp hmm'))
    | _ => contradiction

/-- Filtered calls, null providers and the first-use initialisation are invisible in
every run of one context. -/
theorem filteredInvisible_runCalls (c : ContextId) (calls : List ApiCall) :
    FilteredInvisible c calls := by
  refine ⟨alike_visibleCalls c calls, ?_, ?_, inForce_runCalls c calls⟩
  · rintro pre ⟨post, rfl⟩ hpre
    have haccepted := acceptedOf_runCalls_of_ticks c Machine.consistent_reset
      (inForce_runCalls c []) rfl hpre
    have hprefix := acceptedOf_prefix_runCalls (Machine.consistent_runCalls c pre) c post
    rw [haccepted] at hprefix
    rw [runCalls, StepSystem.run_append]
    exact hprefix
  · rintro pre post rfl
    rw [runCalls, runCalls, StepSystem.run_append, StepSystem.run_append,
      StepSystem.run_cons, ← runCalls, Machine.run_nullProvider]
    exact (Machine.alike_loggerEnsureInitialized _).runCalls c post

end Equinios
end RadonMCU
