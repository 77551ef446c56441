import RadonMCU.JtagUart.Attended

/-!
# The polled driver

The driver with {lit}`ALTERA_AVALON_JTAG_UART_SMALL`, which this board support package
builds.  {lit}`altera_avalon_jtag_uart_write` polls the control register before each byte and
{lit}`altera_avalon_jtag_uart_read` the data register; one step is one access to the device,
and the host may come between any two of them.

Main results:

- Theorem {lit}`polled_run`: in any interleaving with the host no byte is lost, repeated or
  reordered in either direction, and every write returns the number of its bytes.
- Theorem {lit}`fast_agrees`: for the same blocking writes the interrupt-driven driver has
  sent what the polled driver has, but for the bytes that still wait in its ring.
-/

namespace RadonMCU
namespace JtagUart
namespace Small

open Fast (WriteCall ReadCall ReturnCode Outcome)
open WordBits

/-! ## The system -/

/-- Where the foreground is. -/
inductive Pc where
  | idle
  /-- {lit}`while (ptr < end)`, and the read of the control register. -/
  | poll (w : WriteCall)
  /-- The write of the data register. -/
  | put (w : WriteCall)
  /-- {lit}`while (ptr < end)`, and the read of the data register. -/
  | get (r : ReadCall)
deriving DecidableEq

/-- The device and the foreground; beside them the calls that have returned. -/
structure System where
  device : Device
  pc : Pc
  outcomes : List Outcome

/-- What can happen next. -/
inductive Action where
  | write (buf : List UInt8) (nonblock : Bool)
  | read (size : Nat) (nonblock : Bool)
  | foreground
  | hostFetch
  | hostSend (byte : UInt8)
  | hostActivity
deriving DecidableEq, Repr

namespace System

/-- A read returns. -/
def returnRead (s : System) (r : ReadCall) : System :=
  { s with pc := .idle, outcomes := s.outcomes ++ [r.outcome] }

/-- One step of the foreground; the driver enables no interrupt. -/
def foreground (s : System) : System :=
  match s.pc with
  | .idle => s
  | .poll w =>
    if w.count > 0 then
      if s.device.control { read := false, write := false } &&& controlWspaceMsk ≠ 0 then
        { s with pc := .put w }
      else s
    else
      { s with pc := .idle, outcomes := s.outcomes ++ [.write w.buf w.nonblock (.ok w.buf.length)] }
  | .put w =>
    { s with
      device := s.device.iowrData (w.buf.getD w.done 0)
      pc := .poll { w with done := w.done + 1 } }
  | .get r =>
    if r.space > 0 then
      let read := s.device.iordData
      let s := { s with device := read.2 }
      if read.1 &&& dataRvalidMsk ≠ 0 then
        { s with pc := .get { r with got := r.got ++ [(read.1 &&& dataDataMsk).toUInt8] } }
      else if r.got ≠ [] then s.returnRead r
      else if r.nonblock then s.returnRead r
      else s
    else s.returnRead r

/-- The device after reset. -/
def init : System where
  device :=
    { readFifo := []
      writeFifo := []
      enables := 0
      active := false
      sent := []
      fetched := [] }
  pc := .idle
  outcomes := []

/-- The actions. -/
def step (s : System) : Action → System
  | .write buf nonblock =>
    if s.pc = .idle then { s with pc := .poll { buf, nonblock, done := 0 } } else s
  | .read size nonblock =>
    if s.pc = .idle then { s with pc := .get { size, nonblock, got := [] } } else s
  | .foreground => s.foreground
  | .hostFetch => { s with device := s.device.hostFetch }
  | .hostSend byte => { s with device := s.device.hostSend byte }
  | .hostActivity => { s with device := s.device.hostActivity }

/-- The system after some actions. -/
abbrev run (s : System) (acts : List Action) : System := StepSystem.run step s acts

/-- What has left the driver, oldest first. -/
def output (s : System) : List UInt8 := s.device.fetched ++ s.device.writeFifo

end System

/-! ## The invariant -/

/-- The bytes that the call in progress has written. -/
def Pc.written : Pc → List UInt8
  | poll w | put w => w.written
  | _ => []

/-- The bytes that the call in progress has read. -/
def Pc.got : Pc → List UInt8
  | get r => r.got
  | _ => []

/-- A polled write returns the number of its bytes, a read the number of those it has; the
polled driver has no other calls. -/
def ReturnsAll : Outcome → Prop
  | .write buf _ code => code = .ok buf.length
  | .read size nonblock data code => code.OfRead size nonblock data
  | .close _ _ | .ioctl _ _ _ => False

/-- What the call in progress knows. -/
def System.PcRight (s : System) : Prop :=
  match s.pc with
  | .idle => True
  | .poll w => w.done ≤ w.buf.length
  | .put w => w.done < w.buf.length ∧ s.device.writeFifo.length < writeDepth
  | .get r => r.got.length ≤ r.size

/-- The bytes of both directions are accounted for, and every call returns all it can. -/
structure System.Polled (s : System) : Prop where
  writeFifo_le : s.device.writeFifo.length ≤ writeDepth
  readFifo_le : s.device.readFifo.length ≤ readDepth
  conveyed : s.output = s.outcomes.flatMap Outcome.written ++ s.pc.written
  received : s.outcomes.flatMap Outcome.delivered ++ s.pc.got ++ s.device.readFifo =
    s.device.sent
  returned : ∀ o ∈ s.outcomes, ReturnsAll o
  atPc : s.PcRight

section Steps

variable {s : System}

/-- A call returns what it has written and read. -/
theorem polled_return (h : s.Polled) {o : Outcome} (hwritten : o.written = s.pc.written)
    (hdelivered : o.delivered = s.pc.got) (ho : ReturnsAll o) :
    ({ s with pc := .idle, outcomes := s.outcomes ++ [o] } : System).Polled where
  writeFifo_le := h.writeFifo_le
  readFifo_le := h.readFifo_le
  conveyed := by
    change s.output = _ ++ []
    rw [h.conveyed, List.flatMap_append, List.flatMap_singleton, hwritten, List.append_nil]
  received := by
    change _ ++ [] ++ s.device.readFifo = s.device.sent
    rw [← h.received, List.flatMap_append, List.flatMap_singleton, hdelivered, List.append_nil]
  returned := List.forall_mem_append.mpr ⟨h.returned, List.forall_mem_singleton.mpr ho⟩
  atPc := trivial

/-- A read that returns. -/
theorem polled_returnRead (h : s.Polled) {r : ReadCall} (hpc : s.pc = .get r) :
    (s.returnRead r).Polled := by
  have hright := h.atPc
  rw [System.PcRight, hpc] at hright
  exact polled_return h (by rw [hpc]; rfl) (by rw [hpc]; rfl) (ReadCall.code_ofRead hright)

/-- The control register shows that the device has room for a byte. -/
theorem polled_room (d : Device) (pending : Pending)
    (h : d.control pending &&& controlWspaceMsk ≠ 0) : d.writeFifo.length < writeDepth := by
  have hshown := (highHalf_ne_zero_iff (d.control pending)).mp h
  rw [d.control_wspace pending, Device.wspace] at hshown
  omega

/-- Every step of the foreground keeps the invariant. -/
theorem polled_foreground (h : s.Polled) : s.foreground.Polled := by
  obtain ⟨device, pc, outcomes⟩ := s
  cases pc with
  | idle => exact h
  | poll w =>
    have hdone : w.done ≤ w.buf.length := h.atPc
    have hcount := Fast.count_eq hdone
    simp only [System.foreground]
    split
    · split
      · rename_i hmore hroom
        exact ⟨h.writeFifo_le, h.readFifo_le, h.conveyed, h.received, h.returned,
          ⟨by omega, polled_room device _ hroom⟩⟩
      · exact h
    · have hall : w.written = w.buf := List.take_of_length_le (by omega)
      exact polled_return h (by rw [Outcome.written, List.take_length]; exact hall.symm) rfl rfl
  | put w =>
    obtain ⟨hlt, hroom⟩ := h.atPc
    have hwritten : ({ w with done := w.done + 1 } : WriteCall).written =
        w.written ++ [w.buf.getD w.done 0] := by
      rw [WriteCall.written_add w hlt]
      rfl
    simp only [System.foreground]
    rw [Device.iowrData, if_pos hroom]
    refine ⟨?_, h.readFifo_le, ?_, h.received, h.returned, hlt⟩
    · rw [List.length_append]
      exact hroom
    · change device.fetched ++ (device.writeFifo ++ [_]) = _ ++ WriteCall.written _
      have hconveyed : device.fetched ++ device.writeFifo =
        outcomes.flatMap Outcome.written ++ w.written := h.conveyed
      rw [hwritten, ← List.append_assoc, hconveyed, List.append_assoc]
  | get r =>
    simp only [System.foreground]
    split
    · rename_i hspace
      cases hfifo : device.readFifo with
      | nil =>
        have hinvalid : ¬ (0 : UInt32) &&& dataRvalidMsk ≠ 0 := by decide
        rw [Device.iordData_nil hfifo, if_neg hinvalid]
        split
        · exact polled_returnRead h rfl
        · split
          · exact polled_returnRead h rfl
          · exact h
      | cons byte rest =>
        obtain ⟨word, hread, hvalid, hbyte, -⟩ := Device.iordData_cons hfifo h.readFifo_le
        rw [hread]
        dsimp only
        rw [if_pos ((and_mask_ne_zero_iff (k := 15) rfl).mpr hvalid), hbyte]
        have hle : device.readFifo.length ≤ readDepth := h.readFifo_le
        have hreceived : outcomes.flatMap Outcome.delivered ++ r.got ++ device.readFifo =
          device.sent := h.received
        refine ⟨h.writeFifo_le, ?_, h.conveyed, ?_, h.returned, ?_⟩
        · rw [hfifo, List.length_cons] at hle
          exact Nat.le_of_succ_le hle
        · change _ ++ (r.got ++ [byte]) ++ rest = device.sent
          rw [← hreceived, hfifo]
          simp
        · have hsize : r.space = r.size - r.got.length := rfl
          change (r.got ++ [byte]).length ≤ r.size
          rw [List.length_append, List.length_singleton]
          omega
    · exact polled_returnRead h rfl

/-- A call begins with nothing written and nothing read. -/
theorem polled_begin (h : s.Polled) {pc : Pc} (hidle : s.pc = .idle) (hwritten : pc.written = [])
    (hgot : pc.got = []) (hright : ({ s with pc } : System).PcRight) :
    ({ s with pc } : System).Polled where
  writeFifo_le := h.writeFifo_le
  readFifo_le := h.readFifo_le
  conveyed := by
    have hconveyed := h.conveyed
    rw [hidle] at hconveyed
    rw [hwritten]
    exact hconveyed
  received := by
    have hreceived := h.received
    rw [hidle] at hreceived
    rw [hgot]
    exact hreceived
  returned := h.returned
  atPc := hright

/-- The host takes a byte. -/
theorem polled_fetch (h : s.Polled) :
    ({ s with device := s.device.hostFetch } : System).Polled := by
  obtain ⟨hreadFifo, hsent⟩ := s.device.hostFetch_frame
  have hshrink := s.device.hostFetch_length_le
  refine ⟨Nat.le_trans hshrink h.writeFifo_le, ?_, ?_, ?_, h.returned, ?_⟩
  · rw [hreadFifo]
    exact h.readFifo_le
  · rw [← h.conveyed]
    exact s.device.hostFetch_conveyed
  · rw [hreadFifo, hsent]
    exact h.received
  · have hright := h.atPc
    unfold System.PcRight at hright ⊢
    dsimp only
    split
    · trivial
    · rename_i w hpc
      rw [hpc] at hright
      exact hright
    · rename_i w hpc
      rw [hpc] at hright
      exact ⟨hright.1, Nat.lt_of_le_of_lt hshrink hright.2⟩
    · rename_i r hpc
      rw [hpc] at hright
      exact hright

/-- Every action keeps the invariant. -/
theorem polled_step (h : s.Polled) (a : Action) : (s.step a).Polled := by
  cases a with
  | write buf nonblock =>
    rw [System.step]
    split
    · rename_i hidle
      exact polled_begin h hidle rfl rfl (Nat.zero_le _)
    · exact h
  | read size nonblock =>
    rw [System.step]
    split
    · rename_i hidle
      exact polled_begin h hidle rfl rfl (Nat.zero_le _)
    · exact h
  | foreground => exact polled_foreground h
  | hostFetch => exact polled_fetch h
  | hostSend byte =>
    rw [System.step, Device.hostSend]
    split
    · rename_i hroom
      refine ⟨h.writeFifo_le, ?_, h.conveyed, ?_, h.returned, h.atPc⟩
      · rw [List.length_append]
        exact hroom
      · change _ ++ _ ++ (s.device.readFifo ++ [byte]) = s.device.sent ++ [byte]
        rw [← List.append_assoc, h.received]
    · exact h
  | hostActivity =>
    exact ⟨h.writeFifo_le, h.readFifo_le, h.conveyed, h.received, h.returned, h.atPc⟩

/-- At first nothing is sent. -/
theorem polled_init : System.init.Polled :=
  ⟨Nat.zero_le _, Nat.zero_le _, rfl, rfl, nofun, trivial⟩

/-- Every run keeps the account. -/
theorem polled_invariant (acts : List Action) : (System.init.run acts).Polled :=
  StepSystem.run_invariant (P := System.Polled) (fun _ a hs => polled_step hs a) polled_init acts

/-- The bytes that a returned call was asked to write. -/
def requested : Outcome → List UInt8
  | .write buf _ _ => buf
  | _ => []

/-- The call may wait. -/
def Blocking : Outcome → Prop
  | .write _ nonblock _ => nonblock = false
  | _ => True

/-- A polled write has written what was asked of it. -/
theorem written_of_returnsAll {o : Outcome} (h : ReturnsAll o) : o.written = requested o := by
  cases o with
  | write buf nonblock code =>
    change code = .ok buf.length at h
    rw [h, Outcome.written, List.take_length, requested]
  | read size nonblock data code => rfl
  | close nonblock code => rfl
  | ioctl request value code => rfl

/-- A blocking write that is complete has written what was asked of it. -/
theorem written_of_complete {o : Outcome} (hcomplete : o.Complete)
    (hblocking : Blocking o) : o.written = requested o := by
  cases o with
  | write buf nonblock code =>
    change nonblock = false at hblocking
    subst hblocking
    by_cases hbuf : buf = []
    · subst hbuf
      cases code <;> simp [Outcome.written, requested]
    · rw [hcomplete hbuf, Outcome.written, List.take_length, requested]
  | read size nonblock data code => rfl
  | close nonblock code => rfl
  | ioctl request value code => rfl

theorem flatMap_written {outcomes : List Outcome} (h : ∀ o ∈ outcomes, o.written = requested o) :
    outcomes.flatMap Outcome.written = outcomes.flatMap requested :=
  List.flatMap_congr h

/-- When both drivers have returned from blocking writes of the same bytes, and the host of
the interrupt-driven one was never missed, the polled driver has sent all of them and the
interrupt-driven one the same but for the end that waits in its ring. -/
theorem fast_agrees (timeout : Nat) (htimeout : 0 < timeout) (acts : List Fast.Action)
    (hseen : StepSystem.Meets Fast.System.step Fast.HostSeen (Fast.System.init timeout) acts)
    (acts' : List Action)
    (hidle : ((Fast.System.init timeout).run acts).pc = .idle)
    (hidle' : (System.init.run acts').pc = .idle)
    (hblocking : ∀ o ∈ ((Fast.System.init timeout).run acts).outcomes, Blocking o)
    (hrequested : ((Fast.System.init timeout).run acts).outcomes.flatMap requested =
      (System.init.run acts').outcomes.flatMap requested) :
    ((Fast.System.init timeout).run acts).output ++
        ((Fast.System.init timeout).run acts).tx.waiting = (System.init.run acts').output := by
  obtain ⟨hreturned, hattended⟩ := Fast.attended_run htimeout hseen
  have hpolled := polled_invariant acts'
  have hfast : ((Fast.System.init timeout).run acts).outcomes.flatMap Outcome.written =
      ((Fast.System.init timeout).run acts).outcomes.flatMap requested :=
    flatMap_written fun o ho => written_of_complete (hattended.complete o ho)
      (hblocking o ho)
  have hsmall : (System.init.run acts').outcomes.flatMap Outcome.written =
      (System.init.run acts').outcomes.flatMap requested :=
    flatMap_written fun o ho => written_of_returnsAll (hpolled.returned o ho)
  have hconveyed := hpolled.conveyed
  have hnone : Pc.idle.written = [] := rfl
  rw [hidle', hnone, List.append_nil, hsmall, ← hrequested, ← hfast] at hconveyed
  rw [hconveyed, Fast.System.output]
  refine hreturned.running.transmits.conveyed.trans ?_
  change Fast.System.accepted _ = _
  rw [Fast.System.accepted, hidle]
  exact List.append_nil _

/-- The waiting calls of the interrupt-driven driver, and a polled write of the same bytes. -/
theorem fast_agrees_waits :
    let acts := Fast.waitingCalls
    let acts' := Action.write [65, 66] false :: List.replicate 5 Action.foreground
    ((Fast.System.init 10).run acts).output ++ ((Fast.System.init 10).run acts).tx.waiting =
      (System.init.run acts').output ∧ (System.init.run acts').output = [65, 66] := by
  refine ⟨fast_agrees 10 (by decide) _ (by decide +kernel) _ (by decide +kernel) (by decide)
    ?_ (by decide +kernel), by decide⟩
  intro o ho
  rw [Fast.outcomes_waitingCalls] at ho
  simp only [List.mem_cons, List.not_mem_nil, or_false] at ho
  rcases ho with rfl | rfl | rfl
  · trivial
  · rfl
  · trivial

end Steps

end Small
end JtagUart
end RadonMCU
