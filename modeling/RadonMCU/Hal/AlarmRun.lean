import RadonMCU.Hal.Alarm

/-!
# The alarms keep their timetable

An alarm waits less than a turn of the tick counter, so that its time, its roll-over flag and
the counter tell when it is due, also across the wrap of the counter.  The list of alarms
holds those that wait; one tick visits each of them once, also when visited alarms leave the
list.

Main results:

- Theorem {lit}`visit_spec`: a turn of the loop makes the callback of an alarm that is due,
  and of no other.
- Theorem {lit}`altTickLoop_spec`: the loop visits every alarm that waits, and ends.
- Theorem {lit}`keeps_step`: every action keeps the timetable.
- Theorem {lit}`alarms_run`: in every run the callbacks are those of the timetable.
-/

namespace RadonMCU
namespace Hal

open LinkedRing WrappedClock

/-! ## Waiting alarms -/

/-- The alarm waits for its due tick, which is less than a turn of the counter ahead. -/
structure Waits (s : Clock) (now : Nat) (entry : AlarmId × Nat) : Prop where
  now_lt : now < entry.2
  due_lt : entry.2 < now + 2 ^ 32
  time : (s.alarm entry.1).time.toNat = entry.2 % 2 ^ 32
  rollover : (s.alarm entry.1).rollover = true ↔ Later (2 ^ 32) now entry.2

/-- The list cells of the alarms that wait. -/
def cells (armed : List (AlarmId × Nat)) : List (Option AlarmId) :=
  armed.map fun entry => some entry.1

/-- The cells of two lists of alarms. -/
theorem cells_append (armed armed' : List (AlarmId × Nat)) :
    cells (armed ++ armed') = cells armed ++ cells armed' :=
  List.map_append

/-- An alarm is in the list when it waits. -/
theorem mem_cells_iff {armed : List (AlarmId × Nat)} {a : AlarmId} :
    some a ∈ cells armed ↔ a ∈ armed.map Prod.fst := by
  simp [cells]

/-- An alarm that is not touched waits as before. -/
theorem Waits.congr {s s' : Clock} {now : Nat} {entry : AlarmId × Nat} (h : Waits s now entry)
    (halarm : s'.alarm entry.1 = s.alarm entry.1) : Waits s' now entry :=
  ⟨h.now_lt, h.due_lt, by rw [halarm, h.time], by rw [halarm, h.rollover]⟩

namespace Clock

variable {s : Clock} {now : Nat} {a : AlarmId} {due : Nat}

/-- The alarm that was written. -/
@[simp] theorem setAlarm_alarm (s : Clock) (a : AlarmId) (alarm : AltAlarm) :
    (s.setAlarm a alarm).alarm a = alarm :=
  Function.update_self _ _ _

/-- The clock differs at most in one alarm. -/
structure SameBut (a : AlarmId) (s s' : Clock) : Prop where
  altTickRate : s'.altTickRate = s.altTickRate
  altNticks : s'.altNticks = s.altNticks
  alarm : ∀ b, b ≠ a → s'.alarm b = s.alarm b

/-- Nothing is changed. -/
theorem SameBut.refl (a : AlarmId) (s : Clock) : SameBut a s s := ⟨rfl, rfl, fun _ _ => rfl⟩

/-- Two changes of one alarm. -/
theorem SameBut.trans {s' s'' : Clock} (h : SameBut a s s') (h' : SameBut a s' s'') :
    SameBut a s s'' :=
  ⟨h'.altTickRate.trans h.altTickRate, h'.altNticks.trans h.altNticks,
    fun b hb => (h'.alarm b hb).trans (h.alarm b hb)⟩

/-- Writing an alarm changes no other. -/
theorem sameBut_setAlarm (s : Clock) (a : AlarmId) (alarm : AltAlarm) :
    SameBut a s (s.setAlarm a alarm) :=
  ⟨rfl, rfl, fun _ hb => Function.update_of_ne hb _ _⟩

/-- What follows the callback of an alarm changes no other. -/
theorem sameBut_reschedule (s : Clock) (a : AlarmId) (nextCallback : UInt32) :
    SameBut a s (s.reschedule a nextCallback) := by
  unfold reschedule
  split
  · exact ⟨rfl, rfl, fun _ _ => rfl⟩
  · simp only
    split
    · exact (sameBut_setAlarm _ _ _).trans (sameBut_setAlarm _ _ _)
    · exact sameBut_setAlarm _ _ _

/-- After its flag is cleared an alarm stands right for the new tick. -/
theorem clearRollover_spec (h : Waits s now (a, due))
    (hnticks : s.altNticks.toNat = (now + 1) % 2 ^ 32) :
    SameBut a s (s.clearRollover a) ∧ (s.clearRollover a).links = s.links ∧
      ((s.clearRollover a).alarm a).time = (s.alarm a).time ∧
      (((s.clearRollover a).alarm a).rollover = true ↔ Later (2 ^ 32) (now + 1) due) := by
  have hzero : (now + 1) % 2 ^ 32 ≠ 0 ↔ s.altNticks ≠ 0 := by
    rw [← hnticks, ne_eq, ne_eq, ← UInt32.toNat_inj]
    rfl
  rw [later_succ_iff h.now_lt h.due_lt, ← h.rollover, hzero]
  unfold clearRollover
  split
  · rename_i hclear
    refine ⟨sameBut_setAlarm _ _ _, rfl, ?_, ?_⟩
    · rw [setAlarm_alarm]
    · simp [hclear.2]
  · rename_i hkeep
    refine ⟨SameBut.refl _ _, rfl, rfl, ?_⟩
    constructor
    · intro hset
      exact ⟨hset, fun hnticks => hkeep ⟨hset, hnticks⟩⟩
    · exact And.left

/-- An alarm that was due is rescheduled from its due tick. -/
theorem reschedule_spec (hnticks : s.altNticks.toNat = due % 2 ^ 32)
    (htime : (s.alarm a).time.toNat = due % 2 ^ 32) (hrollover : (s.alarm a).rollover = false)
    {nextCallback : UInt32} (hnext : nextCallback ≠ 0) :
    (s.reschedule a nextCallback).links = s.links ∧
      Waits (s.reschedule a nextCallback) due (a, due + nextCallback.toNat) := by
  have hlt := UInt32.toNat_lt nextCallback
  have hpos : 0 < nextCallback.toNat := by
    rw [Nat.pos_iff_ne_zero, ne_eq, ← UInt32.toNat_zero, UInt32.toNat_inj]
    exact hnext
  have hsum : ((s.alarm a).time + nextCallback).toNat = (due + nextCallback.toNat) % 2 ^ 32 := by
    rw [UInt32.toNat_add, htime, Nat.mod_add_mod]
  have hwrap : (s.alarm a).time + nextCallback < s.altNticks ↔
      Later (2 ^ 32) due (due + nextCallback.toNat) := by
    rw [UInt32.lt_iff_toNat_lt, hsum, hnticks, mod_lt_iff hlt]
  unfold reschedule
  rw [if_neg hnext]
  simp only
  split
  · rename_i hset
    refine ⟨rfl, Nat.lt_add_of_pos_right hpos, Nat.add_lt_add_left hlt _, ?_, ?_⟩
    · rw [setAlarm_alarm, setAlarm_alarm]
      exact hsum
    · rw [setAlarm_alarm]
      exact iff_of_true rfl (hwrap.mp hset)
  · rename_i hkeep
    refine ⟨rfl, Nat.lt_add_of_pos_right hpos, Nat.add_lt_add_left hlt _, ?_, ?_⟩
    · rw [setAlarm_alarm]
      exact hsum
    · rw [setAlarm_alarm]
      exact iff_of_false (by simp [hrollover]) (mt hwrap.mpr hkeep)

/-- A turn of the loop makes the callback of an alarm that is due, and of no other. -/
theorem visit_spec (callback : AlarmId → UInt32) (h : Waits s now (a, due))
    (hnticks : s.altNticks.toNat = (now + 1) % 2 ^ 32) :
    SameBut a s (s.visit callback a).2 ∧
      (s.visit callback a).1 = decide (due = now + 1) ∧
      match Timetable.after (now + 1) callback (a, due) with
      | none => (s.visit callback a).2.links = remove s.links (some a)
      | some entry => (s.visit callback a).2.links = s.links ∧ entry.1 = a ∧
          Waits (s.visit callback a).2 (now + 1) entry := by
  obtain ⟨hsame, hlinks, htime, hrollover⟩ := clearRollover_spec h hnticks
  have htimeNat : ((s.clearRollover a).alarm a).time.toNat = due % 2 ^ 32 := by
    rw [htime, h.time]
  have hnow : (s.clearRollover a).altNticks.toNat = (now + 1) % 2 ^ 32 := by
    rw [hsame.altNticks, hnticks]
  have hexpired : (((s.clearRollover a).alarm a).time ≤ (s.clearRollover a).altNticks ∧
      ((s.clearRollover a).alarm a).rollover = false) ↔ due = now + 1 := by
    rw [UInt32.le_iff_toNat_le, htimeNat, hnow, ← Bool.not_eq_true, hrollover]
    exact expired_iff h.now_lt
  unfold visit
  simp only
  by_cases hdue : due = now + 1
  · rw [if_pos (hexpired.mpr hdue)]
    have hclear : ((s.clearRollover a).alarm a).rollover = false := (hexpired.mpr hdue).2
    refine ⟨hsame.trans (sameBut_reschedule _ _ _), (decide_eq_true hdue).symm, ?_⟩
    by_cases hnext : callback a = 0
    · have hafter : Timetable.after (now + 1) callback (a, due) = none := by
        simp [Timetable.after, hdue, hnext]
      rw [hafter]
      simp only [reschedule, if_pos hnext, altAlarmStop]
      rw [hlinks]
    · have hafter : Timetable.after (now + 1) callback (a, due) =
          some (a, due + (callback a).toNat) := by
        simp [Timetable.after, hdue, hnext]
      rw [← hdue] at hnow ⊢
      obtain ⟨hkeep, hwaits⟩ := reschedule_spec hnow htimeNat hclear hnext
      rw [← hdue] at hafter
      rw [hafter]
      exact ⟨hkeep.trans hlinks, rfl, hwaits⟩
  · rw [if_neg (mt hexpired.mp hdue)]
    have hafter : Timetable.after (now + 1) callback (a, due) = some (a, due) := by
      simp [Timetable.after, hdue]
    have hlt : now < due := h.now_lt
    have hle : due < now + 2 ^ 32 := h.due_lt
    refine ⟨hsame, (decide_eq_false hdue).symm, ?_⟩
    rw [hafter]
    refine ⟨hlinks, rfl, ?_, ?_, htimeNat, hrollover⟩
    · change now + 1 < due
      omega
    · change due < now + 1 + 2 ^ 32
      omega

/-- The loop has visited the alarms {lit}`rest` of the list. -/
structure Visited (callback : AlarmId → UInt32) (now : Nat) (kept rest : List (AlarmId × Nat))
    (s s' : Clock) : Prop where
  altTickRate : s'.altTickRate = s.altTickRate
  altNticks : s'.altNticks = s.altNticks
  holds : Holds s'.links none
    (cells (kept ++ rest.filterMap (Timetable.after (now + 1) callback)))
  waits : ∀ entry ∈ kept ++ rest.filterMap (Timetable.after (now + 1) callback),
    Waits s' (now + 1) entry
  /-- Alarms that left the list, now or before, are linked to themselves. -/
  alone : ∀ b,
    b ∉ (kept ++ rest.filterMap (Timetable.after (now + 1) callback)).map Prod.fst →
    Alone s.links (some b) ∨ b ∈ rest.map Prod.fst → Alone s'.links (some b)

/-- An alarm stands in the list once. -/
theorem notMem_of_holds {l : Links (Option AlarmId)} {kept rest : List (AlarmId × Nat)}
    (h : Holds l none (cells kept ++ some a :: cells rest)) :
    a ∉ kept.map Prod.fst ∧ a ∉ rest.map Prod.fst := by
  have hnodup := (List.nodup_cons.mp h.nodup).2
  obtain ⟨-, hcons, hdisjoint⟩ := List.nodup_append.mp hnodup
  constructor
  · intro hmem
    exact hdisjoint _ (mem_cells_iff.mpr hmem) _ List.mem_cons_self rfl
  · intro hmem
    exact (List.nodup_cons.mp hcons).1 (mem_cells_iff.mpr hmem)

/-- Whether the first alarm is due. -/
theorem due_cons (now : Nat) (rest : List (AlarmId × Nat)) :
    Timetable.due now ((a, due) :: rest) =
      if due = now then a :: Timetable.due now rest else Timetable.due now rest := by
  by_cases hdue : due = now <;> simp [Timetable.due, hdue]

/-- The loop visits every alarm that waits, and ends. -/
theorem altTickLoop_spec (callback : AlarmId → UInt32) (kept : List (AlarmId × Nat))
    {rest : List (AlarmId × Nat)} {fuel : Nat} (hfuel : rest.length ≤ fuel)
    (hnticks : s.altNticks.toNat = (now + 1) % 2 ^ 32)
    (hholds : Holds s.links none (cells (kept ++ rest)))
    (hkept : ∀ entry ∈ kept, Waits s (now + 1) entry)
    (hrest : ∀ entry ∈ rest, Waits s now entry) :
    ∃ s', altTickLoop callback fuel ((cells rest).headD none) s =
        some (Timetable.due (now + 1) rest, s') ∧
      Visited callback now kept rest s s' := by
  induction rest generalizing kept s fuel with
  | nil =>
    refine ⟨s, by cases fuel <;> rfl, rfl, rfl, hholds, by simpa using hkept, ?_⟩
    rintro b - (halone | hmem)
    · exact halone
    · simp at hmem
  | cons entry rest ih =>
    obtain ⟨a, due⟩ := entry
    cases fuel with
    | zero => exact absurd hfuel (Nat.not_succ_le_zero _)
    | succ fuel =>
      have hcells : Holds s.links none (cells kept ++ some a :: cells rest) := by
        rw [cells_append] at hholds
        exact hholds
      obtain ⟨hnotKept, hnotRest⟩ := notMem_of_holds hcells
      have hnext : s.links.next (some a) = (cells rest).headD none :=
        hcells.path.suffix.next_eq
      obtain ⟨hsame, hfires, hafter⟩ :=
        visit_spec callback (hrest _ List.mem_cons_self) hnticks
      have hloop : altTickLoop callback (fuel + 1) ((cells ((a, due) :: rest)).headD none) s =
          (altTickLoop callback fuel ((cells rest).headD none) (s.visit callback a).2).map
            fun fired => (if due = now + 1 then a :: fired.1 else fired.1, fired.2) := by
        rw [← hnext]
        change Option.map _ _ = _
        rw [hfires]
        simp only [decide_eq_true_eq]
      have hkept' : ∀ entry ∈ kept, Waits (s.visit callback a).2 (now + 1) entry := by
        intro entry hentry
        refine (hkept entry hentry).congr (hsame.alarm _ ?_)
        rintro rfl
        exact hnotKept (List.mem_map_of_mem hentry)
      have hrest' : ∀ entry ∈ rest, Waits (s.visit callback a).2 now entry := by
        intro entry hentry
        refine (hrest entry (List.mem_cons_of_mem _ hentry)).congr (hsame.alarm _ ?_)
        rintro rfl
        exact hnotRest (List.mem_map_of_mem hentry)
      have hnticks' := (congrArg UInt32.toNat hsame.altNticks).trans hnticks
      have hfuel' := Nat.le_of_succ_le_succ hfuel
      rw [hloop, due_cons]
      cases hcase : Timetable.after (now + 1) callback (a, due) with
      | none =>
        rw [hcase] at hafter
        have hholds' : Holds (s.visit callback a).2.links none (cells (kept ++ rest)) := by
          rw [hafter, cells_append]
          exact hcells.remove
        obtain ⟨s', hrun, hvisited⟩ := ih _ hfuel' hnticks' hholds' hkept' hrest'
        rw [hrun]
        refine ⟨s', rfl, hvisited.altTickRate.trans hsame.altTickRate,
          hvisited.altNticks.trans hsame.altNticks, ?_, ?_, ?_⟩
        · rw [List.filterMap_cons_none hcase]
          exact hvisited.holds
        · rw [List.filterMap_cons_none hcase]
          exact hvisited.waits
        · rw [List.filterMap_cons_none hcase]
          intro b hb halone
          refine hvisited.alone b hb ?_
          rw [hafter]
          by_cases hba : b = a
          · exact Or.inl (hba ▸ alone_remove _ _)
          · by_cases hmem : b ∈ rest.map Prod.fst
            · exact Or.inr hmem
            · have hbKept : b ∉ kept.map Prod.fst := by
                intro hin
                exact hb (by rw [List.map_append]; exact List.mem_append_left _ hin)
              have hbList : some b ∉ none :: (cells kept ++ some a :: cells rest) := by
                simp only [List.mem_cons, List.mem_append, mem_cells_iff, not_or]
                exact ⟨by simp, hbKept, by simpa using hba, hmem⟩
              rcases halone with halone | hin
              · exact Or.inl (halone.remove hcells hbList)
              · exact absurd hin (by simpa [hba] using hmem)
      | some entry =>
        rw [hcase] at hafter
        obtain ⟨hlinks, hentry, hwaits⟩ := hafter
        have hsplit : cells (kept ++ [entry]) ++ cells rest =
            cells kept ++ some a :: cells rest := by
          rw [cells_append, List.append_assoc, ← hentry]
          rfl
        have hholds' : Holds (s.visit callback a).2.links none
            (cells (kept ++ [entry] ++ rest)) := by
          rw [hlinks, cells_append, hsplit]
          exact hcells
        obtain ⟨s', hrun, hvisited⟩ := ih _ hfuel' hnticks' hholds'
          (List.forall_mem_append.mpr ⟨hkept', List.forall_mem_singleton.mpr hwaits⟩) hrest'
        have hresult : kept ++ [entry] ++ rest.filterMap (Timetable.after (now + 1) callback) =
            kept ++ ((a, due) :: rest).filterMap (Timetable.after (now + 1) callback) := by
          rw [List.filterMap_cons_some hcase, List.append_assoc]
          rfl
        rw [hrun]
        refine ⟨s', rfl, hvisited.altTickRate.trans hsame.altTickRate,
          hvisited.altNticks.trans hsame.altNticks, ?_, ?_, ?_⟩
        · rw [← hresult]
          exact hvisited.holds
        · rw [← hresult]
          exact hvisited.waits
        · rw [← hresult]
          intro b hb halone
          refine hvisited.alone b hb ?_
          rcases halone with halone | hmem
          · exact Or.inl (hlinks ▸ halone)
          · rcases List.mem_cons.mp hmem with rfl | hmem
            · exact absurd (by simp [← hentry]) hb
            · exact Or.inr hmem

end Clock

/-! ## Every action -/

/-- The clock keeps the timetable. -/
structure Keeps (s : ClockSystem) (t : Timetable) : Prop where
  altTickRate : s.clock.altTickRate ≠ 0
  altNticks : s.clock.altNticks.toNat = t.ticks % 2 ^ 32
  ticks : s.ticks = t.ticks
  started : s.started = t.started
  fired : s.fired = t.fired
  hung : s.hung = false
  holds : Holds s.clock.links none (cells t.armed)
  waits : ∀ entry ∈ t.armed, Waits s.clock t.ticks entry
  /-- A started alarm that waits no more is linked to itself. -/
  alone : ∀ a ∈ t.started, a ∉ t.armed.map Prod.fst → Alone s.clock.links (some a)
  armed_le : t.armed.length ≤ t.started.length

section Steps

variable {s : ClockSystem} {t : Timetable}

/-- At first no alarm waits. -/
theorem keeps_init {altTickRate : UInt32} (hrate : altTickRate ≠ 0) :
    Keeps (ClockSystem.init altTickRate) Timetable.init where
  altTickRate := hrate
  altNticks := rfl
  ticks := rfl
  started := rfl
  fired := rfl
  hung := rfl
  holds := holds_nil_iff.mpr ⟨rfl, rfl⟩
  waits := nofun
  alone := nofun
  armed_le := Nat.le_refl _

/-- An alarm that is started is put in front, with its due tick. -/
theorem keeps_start (h : Keeps s t) {a : AlarmId} {nticks : UInt32}
    (hidle : a ∉ t.armed.map Prod.fst) (hnticks : nticks.toNat + 1 < 2 ^ 32) :
    Keeps (s.step (.start a nticks)) (t.step (.start a nticks)) := by
  have hcell : some a ∉ none :: cells t.armed := by
    simp only [List.mem_cons, mem_cells_iff, not_or]
    exact ⟨by simp, hidle⟩
  have htime : (nticks + s.clock.altNticks + 1).toNat =
      (t.ticks + (nticks.toNat + 1)) % 2 ^ 32 := by
    rw [UInt32.toNat_add, UInt32.toNat_add, h.altNticks, UInt32.toNat_one]
    omega
  have hlater : nticks + s.clock.altNticks + 1 < s.clock.altNticks ↔
      Later (2 ^ 32) t.ticks (t.ticks + (nticks.toNat + 1)) := by
    rw [UInt32.lt_iff_toNat_lt, htime, h.altNticks, mod_lt_iff hnticks]
  have hstart : s.clock.altAlarmStart (some a) nticks = (.ok,
      { s.clock.setAlarm a
          { time := nticks + s.clock.altNticks + 1
            rollover := decide (nticks + s.clock.altNticks + 1 < s.clock.altNticks) } with
        links := insert s.clock.links none (some a) }) := by
    rw [Clock.altAlarmStart, if_pos h.altTickRate]
    rfl
  have hstep : s.step (.start a nticks) =
      { s with
        clock := (s.clock.altAlarmStart (some a) nticks).2
        started := a :: s.started } := by
    rw [ClockSystem.step, hstart]
    rfl
  rw [hstep, hstart]
  exact
    { altTickRate := h.altTickRate
      altNticks := h.altNticks
      ticks := h.ticks
      started := congrArg (List.cons a) h.started
      fired := h.fired
      hung := h.hung
      holds := h.holds.insert hcell
      waits := by
        intro entry hentry
        rcases List.mem_cons.mp hentry with rfl | hmem
        · refine ⟨?_, ?_, ?_, ?_⟩
          · change t.ticks < t.ticks + nticks.toNat + 1
            omega
          · change t.ticks + nticks.toNat + 1 < t.ticks + 2 ^ 32
            omega
          · rw [Clock.setAlarm_alarm]
            exact htime
          · rw [Clock.setAlarm_alarm, decide_eq_true_iff]
            exact hlater
        · refine (h.waits entry hmem).congr (Function.update_of_ne ?_ _ _)
          rintro rfl
          exact hidle (List.mem_map_of_mem hmem)
      alone := by
        intro b hb hgone
        change b ∈ a :: t.started at hb
        change b ∉ a :: t.armed.map Prod.fst at hgone
        obtain ⟨hba, hgone⟩ := not_or.mp (mt List.mem_cons.mpr hgone)
        have hstarted := (List.mem_cons.mp hb).resolve_left hba
        refine (h.alone b hstarted hgone).insert h.holds ?_ (by simp) (by simpa using hba)
        simp only [List.mem_cons, mem_cells_iff, not_or]
        exact ⟨by simp, hgone⟩
      armed_le := Nat.succ_le_succ h.armed_le }

/-- The alarms that still wait after one of them is stopped. -/
theorem filter_ne {before after : List (AlarmId × Nat)} {entry : AlarmId × Nat}
    (hbefore : entry.1 ∉ before.map Prod.fst) (hafter : entry.1 ∉ after.map Prod.fst) :
    (before ++ entry :: after).filter (fun e => e.1 ≠ entry.1) = before ++ after := by
  have hkeep {entries : List (AlarmId × Nat)} (hnot : entry.1 ∉ entries.map Prod.fst) :
      entries.filter (fun e => e.1 ≠ entry.1) = entries := by
    rw [List.filter_eq_self]
    intro e he
    rw [decide_eq_true_iff]
    intro heq
    exact hnot (heq ▸ List.mem_map_of_mem he)
  rw [List.filter_append, List.filter_cons_of_neg (by simp), hkeep hbefore, hkeep hafter]

/-- An alarm that is stopped leaves the list, if it is there. -/
theorem keeps_stop (h : Keeps s t) {a : AlarmId} (ha : a ∈ t.started) :
    Keeps (s.step (.stop a)) (t.step (.stop a)) := by
  by_cases hmem : a ∈ t.armed.map Prod.fst
  · obtain ⟨entry, hentry, rfl⟩ := List.mem_map.mp hmem
    obtain ⟨before, after, hsplit⟩ := List.append_of_mem hentry
    have hholds : Holds s.clock.links none (cells before ++ some entry.1 :: cells after) := by
      have hcells := h.holds
      rw [hsplit, cells_append] at hcells
      exact hcells
    obtain ⟨hbefore, hafter⟩ := Clock.notMem_of_holds hholds
    have harmed : (t.step (.stop entry.1)).armed = before ++ after := by
      rw [← filter_ne hbefore hafter, ← hsplit]
      rfl
    exact
      { altTickRate := h.altTickRate
        altNticks := h.altNticks
        ticks := h.ticks
        started := h.started
        fired := h.fired
        hung := h.hung
        holds := by
          rw [harmed, cells_append]
          exact hholds.remove
        waits := fun e he => (h.waits e (List.mem_of_mem_filter he)).congr rfl
        alone := by
          intro b hb hgone
          rw [harmed, List.map_append, List.mem_append, not_or] at hgone
          by_cases hba : b = entry.1
          · exact hba ▸ alone_remove _ _
          · have hold : b ∉ t.armed.map Prod.fst := by
              rw [hsplit, List.map_append, List.map_cons, List.mem_append, List.mem_cons]
              simp [hgone, hba]
            refine (h.alone b hb hold).remove hholds ?_
            simp only [List.mem_cons, List.mem_append, mem_cells_iff, not_or]
            exact ⟨by simp, hgone.1, by simpa using hba, hgone.2⟩
        armed_le := (List.length_filter_le _ _).trans h.armed_le }
  · have harmed : t.armed.filter (fun e => e.1 ≠ a) = t.armed := by
      rw [List.filter_eq_self]
      intro e he
      rw [decide_eq_true_iff]
      rintro rfl
      exact hmem (List.mem_map_of_mem he)
    have hclock : s.step (.stop a) = s := by
      rw [ClockSystem.step, Clock.altAlarmStop, remove_of_alone (h.alone a ha hmem)]
    have htable : t.step (.stop a) = t := by
      rw [Timetable.step, harmed]
    rw [hclock, htable]
    exact h

/-- A tick makes the callbacks that are due, alarm by alarm along the list. -/
theorem keeps_tick (h : Keeps s t) (callback : AlarmId → UInt32) :
    Keeps (s.step (.tick callback)) (t.step (.tick callback)) := by
  have hticks : (s.clock.altNticks + 1).toNat = (t.ticks + 1) % 2 ^ 32 := by
    rw [UInt32.toNat_add, h.altNticks, UInt32.toNat_one, Nat.mod_add_mod]
  have hfuel : t.armed.length ≤ s.started.length := by
    rw [h.started]
    exact h.armed_le
  obtain ⟨clock, hloop, hvisited⟩ := Clock.altTickLoop_spec callback [] hfuel
    (s := { s.clock with altNticks := s.clock.altNticks + 1 }) hticks h.holds nofun
    (fun entry hentry => (h.waits entry hentry).congr rfl)
  have htick : s.clock.altTick callback s.started.length =
      some (Timetable.due (t.ticks + 1) t.armed, clock) := by
    rw [Clock.altTick, ← hloop]
    exact congrArg (Clock.altTickLoop callback _ · _) h.holds.path.next_eq
  have hstep : s.step (.tick callback) =
      { s with
        clock
        ticks := s.ticks + 1
        fired := s.fired ++
          (Timetable.due (t.ticks + 1) t.armed).map fun a => (s.ticks + 1, a) } := by
    rw [ClockSystem.step, htick]
  rw [hstep]
  exact
    { altTickRate := by
        rw [hvisited.altTickRate]
        exact h.altTickRate
      altNticks := by
        rw [hvisited.altNticks]
        exact hticks
      ticks := by rw [h.ticks]; rfl
      started := h.started
      fired := by
        rw [h.fired, h.ticks]
        rfl
      hung := h.hung
      holds := hvisited.holds
      waits := hvisited.waits
      alone := by
        intro a ha hgone
        refine hvisited.alone a hgone ?_
        by_cases hmem : a ∈ t.armed.map Prod.fst
        · exact Or.inr hmem
        · exact Or.inl (h.alone a ha hmem)
      armed_le := (List.length_filterMap_le _ _).trans h.armed_le }

/-- Every allowed action keeps the timetable. -/
theorem keeps_step (h : Keeps s t) {act : ClockAction} (hallowed : t.Allowed act) :
    Keeps (s.step act) (t.step act) := by
  cases act with
  | start a nticks => exact keeps_start h hallowed.1 hallowed.2
  | stop a => exact keeps_stop h hallowed
  | tick callback => exact keeps_tick h callback

/-- Every allowed run keeps the timetable. -/
theorem keeps_run (h : Keeps s t) {acts : List ClockAction}
    (hallowed : StepSystem.Meets Timetable.step Timetable.Allowed t acts) :
    Keeps (s.run acts) (t.run acts) := by
  induction acts generalizing s t with
  | nil => exact h
  | cons act acts ih => exact ih (keeps_step h hallowed.1) hallowed.2

end Steps

/-! ## Runs -/

/-- In every run in which alarms are started and stopped as allowed, every tick ends and
makes the callbacks that are due at it, in the order of the timetable, and no other: none is
early, late, lost or repeated, also when the tick counter wraps.  The counter is the number of
ticks modulo {lit}`2^32`, and the linked list holds the alarms that wait, in order. -/
theorem alarms_run {altTickRate : UInt32} (hrate : altTickRate ≠ 0) (acts : List ClockAction)
    (hallowed : StepSystem.Meets Timetable.step Timetable.Allowed Timetable.init acts) :
    let s := (ClockSystem.init altTickRate).run acts
    let t := Timetable.init.run acts
    s.fired = t.fired ∧ s.hung = false ∧ s.ticks = t.ticks ∧
      s.clock.altNticks = UInt32.ofNat t.ticks ∧ Holds s.clock.links none (cells t.armed) := by
  have h := keeps_run (keeps_init hrate) hallowed
  refine ⟨h.fired, h.hung, h.ticks, ?_, h.holds⟩
  rw [← UInt32.toNat_inj, h.altNticks, UInt32.toNat_ofNat']

/-- Two alarms, of which one is called again and one is stopped in time. -/
theorem alarms_run_periodic :
    let acts := [ClockAction.start 1 0, .start 2 1, .tick fun _ => 2, .tick fun _ => 2, .stop 2,
      .tick fun _ => 0, .tick fun _ => 0]
    (Timetable.init.run acts).fired = [(1, 1), (2, 2), (3, 1)] ∧
      ((ClockSystem.init 1000).run acts).fired = (Timetable.init.run acts).fired :=
  ⟨by decide, (alarms_run (by decide) _ (by decide)).1⟩

end Hal
end RadonMCU
