import RadonMCU.JtagUart.Returns

/-!
# Calls with a host that is there

What a blocking call gives while the alarm routine always finds the host: {lit}`write` puts all
its bytes into the ring, {lit}`read` waits for a byte, and {lit}`close` for the ring to empty.

Main results:

- Theorem {lit}`complete_run`: while the alarm routine never finds the host missing, every
  blocking call does its whole work.
- Theorem {lit}`drained_run`: then a {lit}`close` that returns 0 leaves none of the bytes
  behind that were accepted before it.
-/

namespace RadonMCU
namespace JtagUart
namespace Fast

/-! ## Complete calls -/

/-- A blocking call has done its whole work: a write of some bytes has written all of them, a
read of some bytes has delivered at least one and tells how many, a close gives 0. -/
def Outcome.Complete : Outcome → Prop
  | write buf false code => buf ≠ [] → code = .ok buf.length
  | read size false data code => 0 < size → data ≠ [] ∧ code = .ok data.length
  | close false code => code = .ok 0
  | _ => True

/-- A write that has no bytes left is complete. -/
theorem WriteCall.outcome_complete {w : WriteCall} (h : w.done = w.buf.length) :
    w.outcome.Complete := by
  unfold outcome
  cases w.nonblock with
  | true => trivial
  | false =>
    intro hne
    have hpos := List.length_pos_of_ne_nil hne
    rw [code, h, if_pos (by omega)]

/-- A call that must not wait owes nothing. -/
theorem WriteCall.outcome_complete_of_nonblock {w : WriteCall} (h : w.nonblock = true) :
    w.outcome.Complete := by
  rw [outcome, h]
  trivial

/-- A read that has a byte is complete. -/
theorem ReadCall.outcome_complete {r : ReadCall} (h : r.got ≠ []) : r.outcome.Complete := by
  unfold outcome
  cases r.nonblock with
  | true => trivial
  | false =>
    intro _
    exact ⟨h, by rw [code, if_pos h]⟩

/-- A read that must not wait owes nothing. -/
theorem ReadCall.outcome_complete_of_nonblock {r : ReadCall} (h : r.nonblock = true) :
    r.outcome.Complete := by
  rw [outcome, h]
  trivial

/-- The host has not been missed, and every call that has returned is complete. -/
structure System.Attended (s : System) : Prop where
  active : s.uart.hostInactive = 0
  timeout_pos : 0 < s.uart.timeout
  complete : ∀ o ∈ s.outcomes, o.Complete
  arrived : ∀ r inIdx, s.pc = .leaveRx r inIdx → s.uart.rxIn ≠ s.uart.rxOut

section Steps

variable {s : System}

/-! ## Every action with a host that is there -/

/-- A call that returns completely. -/
theorem attended_return (h : s.Attended) {o : Outcome} (ho : o.Complete) :
    ({ s with pc := .idle, outcomes := s.outcomes ++ [o] } : System).Attended :=
  ⟨h.active, h.timeout_pos,
    List.forall_mem_append.mpr ⟨h.complete, List.forall_mem_singleton.mpr ho⟩, nofun⟩

/-- The foreground goes on, and leaves no wait without cause. -/
theorem attended_goto (h : s.Attended) {pc : Pc}
    (hpc : ∀ r inIdx, pc = .leaveRx r inIdx → s.uart.rxIn ≠ s.uart.rxOut) :
    ({ s with pc } : System).Attended :=
  ⟨h.active, h.timeout_pos, h.complete, hpc⟩

/-- The end of the copy loop of a read. -/
theorem attended_afterCopy (h : s.Attended) (r : ReadCall) (inIdx : Nat) :
    (s.afterCopy r inIdx).Attended := by
  unfold System.afterCopy
  split
  · exact attended_goto h nofun
  · split
    · rename_i hnonblock
      exact attended_return h (ReadCall.outcome_complete_of_nonblock hnonblock)
    · exact attended_goto h nofun

/-- Every step of the foreground completes the blocking calls that return. -/
theorem attended_foreground (h : s.Attended) (hreturned : s.Returned) :
    s.foreground.Attended := by
  have hdone := hreturned.running.transmits.done_le
  have hread : s.pc.ReadRight s.uart.rxOut := hreturned.atRead
  obtain ⟨uart, device, pie, pc, isr, outcomes⟩ := s
  have hinactive : uart.hostInactive = 0 := h.active
  have htimeout : uart.hostInactive < uart.timeout := by
    rw [hinactive]
    exact h.timeout_pos
  cases pc with
  | idle => exact h
  | copyLoop w out =>
    simp only [System.foreground]
    split
    · split <;> exact attended_goto h (by simp)
    · exact attended_goto h (by simp)
  | memcpyTx w inIdx out n i =>
    simp only [System.foreground]
    split
    · exact ⟨h.active, h.timeout_pos, h.complete, (by simp)⟩
    · exact attended_goto h (by simp)
  | storeTxIn w inIdx out n => exact ⟨h.active, h.timeout_pos, h.complete, (by rintro _ _ ⟨⟩)⟩
  | disableAll k => exact ⟨h.active, h.timeout_pos, h.complete, (by rintro _ _ ⟨⟩)⟩
  | loadEnable k context => exact attended_goto h (by simp)
  | storeEnable k context value =>
    exact ⟨h.active, h.timeout_pos, h.complete, (by rintro _ _ ⟨⟩)⟩
  | writeControl k context => exact ⟨h.active, h.timeout_pos, h.complete, (by rintro _ _ ⟨⟩)⟩
  | enableAll k context =>
    have houtside : (System.mk uart device context .idle isr outcomes).Attended :=
      ⟨h.active, h.timeout_pos, h.complete, (by simp)⟩
    cases k with
    | write w out =>
      simp only [System.foreground, System.afterKick]
      split
      · split
        · rename_i hnonblock
          exact attended_return houtside (WriteCall.outcome_complete_of_nonblock hnonblock)
        · exact attended_goto houtside (by simp)
      · rename_i hcount
        have hall := count_eq (hdone w rfl)
        exact attended_return houtside (WriteCall.outcome_complete (by omega))
    | read r => exact attended_return houtside (ReadCall.outcome_complete hread.1)
  | spinTx w out =>
    simp only [System.foreground]
    split <;> exact attended_goto h (by simp)
  | spinTxHost w out =>
    simp only [System.foreground]
    rw [if_pos htimeout]
    exact attended_goto h (by simp)
  | leaveTx w out =>
    simp only [System.foreground]
    rw [if_neg (not_not.mpr hinactive)]
    exact attended_goto h (by simp)
  | readLoop r =>
    simp only [System.foreground]
    split
    · exact attended_afterCopy h r _
    · exact attended_goto h (by simp)
  | memcpyRx r inIdx out n chunk =>
    simp only [System.foreground]
    split <;> exact attended_goto h (by simp)
  | storeRxOut r inIdx out n chunk =>
    have hmoved : (System.mk { uart with rxOut := (out + n) % bufLen } device pie .idle isr
        outcomes).Attended := ⟨h.active, h.timeout_pos, h.complete, (by simp)⟩
    simp only [System.foreground]
    split
    · exact attended_goto hmoved (by simp)
    · exact attended_afterCopy hmoved _ inIdx
  | spinRx r inIdx =>
    simp only [System.foreground]
    split
    · exact attended_goto h (by simp)
    · rename_i hmoved
      refine attended_goto h (fun _ _ _ heq => hmoved ?_)
      rw [hread.2.2, heq]
  | spinRxHost r inIdx =>
    simp only [System.foreground]
    rw [if_pos htimeout]
    exact attended_goto h (by simp)
  | leaveRx r inIdx =>
    have hmoved : inIdx ≠ uart.rxIn := by
      rw [hread.2.2]
      exact (h.arrived r inIdx rfl).symm
    simp only [System.foreground]
    rw [if_neg hmoved]
    exact attended_goto h (by simp)
  | closeTx nonblock =>
    simp only [System.foreground]
    split
    · exact attended_return h (by cases nonblock <;> trivial)
    · exact attended_goto h (by simp)
  | closeHost nonblock =>
    simp only [System.foreground]
    rw [if_pos htimeout]
    split
    · rename_i hnonblock
      exact attended_return h (by rw [hnonblock]; trivial)
    · exact attended_goto h (by simp)

/-- The interrupt routine and an alarm routine that finds the host leave the host
attended. -/
theorem attended_interrupt (h : s.Attended) (hreturned : s.Returned) (pending : Pending)
    (hseen : s.isr = .alarmRead → s.device.active = true) : (s.interrupt pending).Attended := by
  obtain ⟨uart, device, pie, pc, isr, outcomes⟩ := s
  cases isr with
  | idle => exact h
  | readControl =>
    simp only [System.interrupt, System.afterReceive]
    repeat' split
    all_goals exact ⟨h.active, h.timeout_pos, h.complete, h.arrived⟩
  | receive control data =>
    simp only [System.interrupt]
    split
    · exact ⟨h.active, h.timeout_pos, h.complete, h.arrived⟩
    · rename_i hroom
      split
      · exact ⟨h.active, h.timeout_pos, h.complete, h.arrived⟩
      · exact ⟨h.active, h.timeout_pos, h.complete, fun _ _ _ => hroom⟩
  | receiveDone control data =>
    simp only [System.interrupt, System.afterReceive]
    repeat' split
    all_goals exact ⟨h.active, h.timeout_pos, h.complete, h.arrived⟩
  | receiveDummy control =>
    simp only [System.interrupt, System.afterReceive]
    split <;> exact ⟨h.active, h.timeout_pos, h.complete, h.arrived⟩
  | transmit space =>
    simp only [System.interrupt]
    repeat' split
    all_goals exact ⟨h.active, h.timeout_pos, h.complete, h.arrived⟩
  | transmitDummy => exact ⟨h.active, h.timeout_pos, h.complete, h.arrived⟩
  | alarmRead =>
    simp only [System.interrupt]
    rw [if_pos ((device.control_active pending).mpr (hseen rfl))]
    exact ⟨h.active, h.timeout_pos, h.complete, h.arrived⟩
  | alarmWrite => exact ⟨rfl, h.timeout_pos, h.complete, h.arrived⟩

/-- The action is a step of the interrupt or alarm routine. -/
def Action.isInterrupt : Action → Bool
  | .interrupt _ => true
  | _ => false

/-- Whenever the alarm routine looks at the activity bit, the host has polled the device. -/
def HostSeen (s : System) (a : Action) : Prop :=
  a.isInterrupt = true → s.isr = .alarmRead → s.device.active = true

instance (s : System) (a : Action) : Decidable (HostSeen s a) :=
  inferInstanceAs (Decidable (_ → _ → _))

/-- Every action that does not miss the host completes the blocking calls that return. -/
theorem attended_step (h : s.Attended) (hreturned : s.Returned) (a : Action)
    (hseen : HostSeen s a) : (s.step a).Attended := by
  refine System.step_rule a h ?_ ?_ ?_ ?_ ?_ ?_ ?_ ?_ ?_ ?_ ?_
  · intro _ _ buf nonblock
    exact attended_goto h nofun
  · intro _ _ size nonblock
    unfold System.startRead
    split
    · exact attended_goto h nofun
    · rename_i hspace
      refine attended_return h ?_
      unfold ReadCall.outcome
      cases nonblock with
      | true => trivial
      | false => exact fun hpos => absurd hpos hspace
  · intro _ _ nonblock
    exact attended_goto h nofun
  · intro hpc _ request
    obtain ⟨value, code, houtcomes, -⟩ := ioctl_lawful s (fun _ => True) request
    obtain ⟨hkeep, -, -, hinactive, htimeout⟩ := ioctl_frame (s := s) request
    refine ⟨by rw [hinactive]; exact h.active, htimeout h.timeout_pos, ?_, ?_⟩
    · rw [houtcomes]
      exact List.forall_mem_append.mpr ⟨h.complete, List.forall_mem_singleton.mpr trivial⟩
    · rw [hkeep, hpc]
      nofun
  · intro _
    exact attended_foreground h hreturned
  · intro _ _
    exact ⟨h.active, h.timeout_pos, h.complete, h.arrived⟩
  · intro _ _
    exact ⟨h.active, h.timeout_pos, h.complete, h.arrived⟩
  · rintro pending rfl
    exact attended_interrupt h hreturned pending (hseen rfl)
  · exact ⟨h.active, h.timeout_pos, h.complete, h.arrived⟩
  · intro byte
    exact ⟨h.active, h.timeout_pos, h.complete, h.arrived⟩
  · exact ⟨h.active, h.timeout_pos, h.complete, h.arrived⟩

/-- Along a run whose alarms find the host, the calls have returned and the host is
attended. -/
theorem attended_run {timeout : Nat} (htimeout : 0 < timeout) {acts : List Action}
    (hseen : StepSystem.Meets System.step HostSeen (System.init timeout) acts) :
    ((System.init timeout).run acts).Returned ∧ ((System.init timeout).run acts).Attended :=
  StepSystem.run_invariant_of_meets (P := fun s : System => s.Returned ∧ s.Attended)
    (fun _ a hs ha => ⟨returned_step hs.1 a, attended_step hs.2 hs.1 a ha⟩)
    ⟨returned_init timeout, rfl, htimeout, nofun, nofun⟩ hseen

/-- A read that waits for a byte of the host, a write, and a close that waits until the
interrupt routine has emptied the ring; the alarm routine finds the host each time. -/
def waitingCalls : List Action :=
  let quiet : Action := .interrupt { read := false, write := false }
  let alarm : List Action := [.hostActivity, .alarm, quiet, quiet]
  let receive : List Action :=
    .irq :: List.replicate 4 (.interrupt { read := true, write := false }) ++ [quiet]
  let transmit : List Action :=
    .irq :: List.replicate 5 (.interrupt { read := false, write := true }) ++ [quiet]
  [.read 4 false] ++ List.replicate 5 .foreground ++ alarm ++ [.hostSend 67] ++ receive ++
    List.replicate 12 .foreground ++ [.write [65, 66] false] ++ List.replicate 12 .foreground ++
    [.close false] ++ List.replicate 5 .foreground ++ alarm ++ transmit ++
    List.replicate 2 .foreground ++ [.hostFetch]

/-- What the waiting calls return. -/
theorem outcomes_waitingCalls : ((System.init 10).run waitingCalls).outcomes =
    [.read 4 false [67] (.ok 1), .write [65, 66] false (.ok 2), .close false (.ok 0)] := by
  decide +kernel

namespace System

/-- What has left the driver, oldest first. -/
def output (s : System) : List UInt8 := s.device.fetched ++ s.device.writeFifo

/-- What was accepted before a close that returned 0 has left the driver. -/
def Drained (s : System) : Prop :=
  ∀ before after nonblock, s.outcomes = before ++ .close nonblock (.ok 0) :: after →
    before.flatMap Outcome.written <+: s.output

end System

/-- A close that ends the outcomes of a call is the call's own. -/
theorem drained_concat {outcomes : List Outcome} {o : Outcome} {output : List UInt8}
    (h : ∀ before after nonblock, outcomes = before ++ .close nonblock (.ok 0) :: after →
      before.flatMap Outcome.written <+: output)
    (ho : ∀ nonblock, o = .close nonblock (.ok 0) →
      outcomes.flatMap Outcome.written <+: output) :
    ∀ before after nonblock, outcomes ++ [o] = before ++ .close nonblock (.ok 0) :: after →
      before.flatMap Outcome.written <+: output := by
  intro before after nonblock hsplit
  rcases List.eq_nil_or_concat after with rfl | ⟨after', last, rfl⟩
  · obtain ⟨rfl, hlast⟩ := List.append_inj' hsplit rfl
    exact ho nonblock (List.cons.inj hlast).1
  · rw [List.concat_eq_append, ← List.cons_append, ← List.append_assoc] at hsplit
    exact h before after' nonblock (List.append_inj' hsplit rfl).1

/-- The foreground writes no data to the device. -/
theorem foreground_output (s : System) : s.foreground.output = s.output := by
  unfold System.foreground System.afterCopy System.afterKick
  split
  all_goals
    try dsimp only
    repeat' split
    all_goals rfl

/-- The interrupt routine only adds to what has left the driver. -/
theorem interrupt_output (s : System) (pending : Pending) :
    s.output <+: (s.interrupt pending).output := by
  have hread : s.output <+: { s with device := s.device.iordData.2 }.output := by
    rw [Device.iordData_snd]
    exact List.prefix_rfl
  have hwrite : ∀ byte, s.output <+: { s with device := s.device.iowrData byte }.output := by
    intro byte
    unfold System.output Device.iowrData
    split
    · rw [← List.append_assoc]
      exact List.prefix_append _ _
    · exact List.prefix_rfl
  unfold System.interrupt System.afterReceive
  split
  all_goals
    try dsimp only
    repeat' split
    all_goals first | exact List.prefix_rfl | exact hread | exact hwrite _

/-- Every action only adds to what has left the driver. -/
theorem step_output (s : System) (a : Action) : s.output <+: (s.step a).output := by
  refine System.step_rule (P := fun s' => s.output <+: s'.output) a List.prefix_rfl
    ?_ ?_ ?_ ?_ ?_ ?_ ?_ ?_ ?_ ?_ ?_
  · exact fun _ _ _ _ => List.prefix_rfl
  · intro _ _ size nonblock
    unfold System.startRead
    split <;> exact List.prefix_rfl
  · exact fun _ _ _ => List.prefix_rfl
  · intro _ _ request
    unfold System.ioctl
    repeat' split
    all_goals exact List.prefix_rfl
  · intro _
    rw [foreground_output]
  · exact fun _ _ => List.prefix_rfl
  · exact fun _ _ => List.prefix_rfl
  · exact fun pending _ => interrupt_output s pending
  · rw [System.output, System.output, Device.hostFetch_conveyed]
  · intro byte
    unfold Device.hostSend
    split <;> exact List.prefix_rfl
  · exact List.prefix_rfl

/-- An action returns no call, or one; a close that returns 0 leaves nothing behind. -/
def System.Appends (s s' : System) : Prop :=
  s'.outcomes = s.outcomes ∨
    ∃ o, s'.outcomes = s.outcomes ++ [o] ∧
      ∀ nonblock, o = .close nonblock (.ok 0) → s.outcomes.flatMap Outcome.written <+: s.output

/-- The foreground returns at most one call, and no close before the ring is empty. -/
theorem appends_foreground (h : s.Attended) (hreturned : s.Returned) :
    s.Appends s.foreground := by
  have hconveyed := hreturned.running.transmits.conveyed
  obtain ⟨uart, device, pie, pc, isr, outcomes⟩ := s
  cases pc with
  | closeTx nonblock =>
    simp only [System.foreground]
    split
    · rename_i hempty
      refine Or.inr ⟨_, rfl, fun _ _ => ?_⟩
      have hnone : IndexRing.contents uart.txBuf bufLen uart.txIn uart.txOut = [] := by
        have hin : uart.txIn < bufLen := hreturned.running.transmits.in_lt
        rw [hempty, IndexRing.contents, IndexRing.used_self hin, BoundedFifo.window_zero]
      change device.fetched ++ device.writeFifo ++
        IndexRing.contents uart.txBuf bufLen uart.txIn uart.txOut =
        outcomes.flatMap Outcome.written ++ [] at hconveyed
      rw [hnone, List.append_nil, List.append_nil] at hconveyed
      rw [System.output, hconveyed]
    · exact Or.inl rfl
  | closeHost nonblock =>
    have hactive : uart.hostInactive = 0 := h.active
    have htimeout : 0 < uart.timeout := h.timeout_pos
    simp only [System.foreground]
    rw [if_pos (by rw [hactive]; exact htimeout)]
    split
    · exact Or.inr ⟨_, rfl, by rintro _ ⟨⟩⟩
    · exact Or.inl rfl
  | enableAll k context =>
    cases k <;> simp only [System.foreground, System.afterKick]
    all_goals
      repeat' split
      all_goals first | exact Or.inl rfl | exact Or.inr ⟨_, rfl, by rintro _ ⟨⟩⟩
  | _ =>
    simp only [System.foreground, System.afterCopy]
    repeat' split
    all_goals first | exact Or.inl rfl | exact Or.inr ⟨_, rfl, by rintro _ ⟨⟩⟩

/-- Every action returns at most one call, and no close before the ring is empty. -/
theorem appends_step (h : s.Attended) (hreturned : s.Returned) (a : Action) :
    s.Appends (s.step a) := by
  refine System.step_rule (P := s.Appends) a (Or.inl rfl) ?_ ?_ ?_ ?_ ?_ ?_ ?_ ?_ ?_ ?_ ?_
  · exact fun _ _ _ _ => Or.inl rfl
  · intro _ _ size nonblock
    unfold System.startRead
    split
    · exact Or.inl rfl
    · exact Or.inr ⟨_, rfl, nofun⟩
  · exact fun _ _ _ => Or.inl rfl
  · intro _ _ request
    obtain ⟨value, code, houtcomes, -⟩ := ioctl_lawful s (fun _ => True) request
    exact Or.inr ⟨_, houtcomes, nofun⟩
  · exact fun _ => appends_foreground h hreturned
  · exact fun _ _ => Or.inl rfl
  · exact fun _ _ => Or.inl rfl
  · exact fun pending _ => Or.inl (interrupt_frame s pending).1
  · exact Or.inl rfl
  · exact fun _ => Or.inl rfl
  · exact Or.inl rfl

/-- Every action that does not miss the host keeps closed calls drained. -/
theorem drained_step (hdrained : s.Drained) (h : s.Attended) (hreturned : s.Returned)
    (a : Action) : (s.step a).Drained := by
  have hgrow := step_output s a
  rcases appends_step h hreturned a with hsame | ⟨o, hmore, ho⟩
  · intro before after nonblock hsplit
    rw [hsame] at hsplit
    exact (hdrained before after nonblock hsplit).trans hgrow
  · rw [System.Drained, hmore]
    exact drained_concat
      (fun before after nonblock hsplit => (hdrained before after nonblock hsplit).trans hgrow)
      (fun nonblock hclose => (ho nonblock hclose).trans hgrow)

/-- While the alarm routine never misses the host, all bytes that writes had accepted before
a close that returned 0 have left the driver, in order. -/
theorem drained_run (timeout : Nat) (htimeout : 0 < timeout) (acts : List Action)
    (hseen : StepSystem.Meets System.step HostSeen (System.init timeout) acts) :
    ((System.init timeout).run acts).Drained := by
  refine (StepSystem.run_invariant_of_meets
    (P := fun s : System => s.Drained ∧ s.Returned ∧ s.Attended) ?_ ?_ hseen).1
  · rintro s a ⟨hdrained, hreturned, hattended⟩ ha
    exact ⟨drained_step hdrained hattended hreturned a, returned_step hreturned a,
      attended_step hattended hreturned a ha⟩
  · refine ⟨?_, returned_init timeout, rfl, htimeout, nofun, nofun⟩
    intro before after nonblock hsplit
    exact absurd hsplit.symm (List.append_ne_nil_of_right_ne_nil _ (List.cons_ne_nil _ _))

/-- Behind the close the written bytes have left the driver. -/
theorem drained_run_waits :
    ((System.init 10).run waitingCalls).output = [65, 66] ∧
      ((System.init 10).run waitingCalls).Drained :=
  ⟨by decide +kernel, drained_run 10 (by decide) waitingCalls (by decide +kernel)⟩

end Steps

end Fast
end JtagUart
end RadonMCU
