import Mathlib.Data.List.Infix
import RadonMCU.JtagUart.Wakeup

/-!
# What the calls return

The return codes of {lit}`write`, {lit}`read`, {lit}`close` and {lit}`ioctl` in any
interleaving: how many bytes a call has moved, and in which situation it gives which code.

A call is looked at from a state between two calls to the action that returns it.  What the
call has seen on its way (a full ring, a missing host) may have changed again before it
returns, so its situation is that of some state met during the call.

Main results:

- Theorem {lit}`underway_run`: what the place of the foreground tells about the call so far.
- Theorem {lit}`returns_step`: the action that returns a call gives it a lawful code.
- Theorem {lit}`lawful_run`: the code and the moved bytes of every call.
-/

namespace RadonMCU
namespace JtagUart
namespace Fast

/-! ## Laws of the calls -/

namespace System

/-- The transmit ring is full. -/
def TxFull (s : System) : Prop :=
  IndexRing.used bufLen s.uart.txIn s.uart.txOut = bufLen - 1

/-- The transmit ring is empty. -/
def TxEmpty (s : System) : Prop := s.uart.txOut = s.uart.txIn

/-- The receive ring is empty. -/
def RxEmpty (s : System) : Prop := s.uart.rxIn = s.uart.rxOut

/-- The host is taken for missing. -/
def HostMissing (s : System) : Prop := s.uart.timeout ≤ s.uart.hostInactive

/-- What the transmit ring has ever taken: what the host has fetched, what waits in the device
and what waits in the ring. -/
def conveyed (s : System) : List UInt8 :=
  s.device.fetched ++ s.device.writeFifo ++
    IndexRing.contents s.uart.txBuf bufLen s.uart.txIn s.uart.txOut

/-- What the device has taken from the host and no read has taken from the ring. -/
def unread (s : System) : List UInt8 :=
  IndexRing.contents s.uart.rxBuf bufLen s.uart.rxIn s.uart.rxOut ++ s.device.readFifo

/-- Some state on the way of the actions has the property. -/
abbrev Met (s : System) (acts : List Action) (P : System → Prop) : Prop :=
  StepSystem.Met step s acts P

end System

namespace ReturnCode

/-- The code of a write: a number of bytes of the buffer, or an error that tells whether the
call might wait. -/
def OfWrite (buf : List UInt8) (nonblock : Bool) : ReturnCode → Prop
  | ok n => 0 < n ∧ n ≤ buf.length
  | eWouldBlock => nonblock = true
  | eIo => nonblock = false
  | eNotTty => False

/-- The code of a read: the number of its bytes, or an error if it has none. -/
def OfRead (size : Nat) (nonblock : Bool) (data : List UInt8) : ReturnCode → Prop
  | ok n => n = data.length ∧ 0 < n ∧ n ≤ size
  | eWouldBlock => nonblock = true ∧ data = []
  | eIo => nonblock = false ∧ data = []
  | eNotTty => False

end ReturnCode

namespace Outcome

/-- The action that began the call. -/
def call : Outcome → Action
  | write buf nonblock _ => .write buf nonblock
  | read size nonblock _ _ => .read size nonblock
  | close nonblock _ => .close nonblock
  | ioctl request _ _ => .ioctl request

/-- The code fits the situation: {lit}`u` is the state in which the call returns, and
{lit}`met` holds of the properties of some state during the call.

A write leaves bytes over only after it has met a full ring, and then because it must not
wait or because the host is inactive; a read delivers nothing only when the ring is empty,
and then because it must not wait or has found the host missing. -/
def Lawful (u : System) (met : (System → Prop) → Prop) : Outcome → Prop
  | write buf nonblock code =>
    code.OfWrite buf nonblock ∧
    ((write buf nonblock code).written.length < buf.length →
      met System.TxFull ∧ (nonblock = true ∨ u.uart.hostInactive ≠ 0))
  | read size nonblock data code =>
    code.OfRead size nonblock data ∧
    (data = [] → size = 0 ∨ u.RxEmpty ∧ (nonblock = true ∨ met System.HostMissing))
  | close nonblock code =>
    match code with
    | .ok n => n = 0 ∧ (u.TxEmpty ∨ u.HostMissing)
    | .eWouldBlock => nonblock = true ∧ ¬ u.HostMissing ∧ met fun x => ¬ x.TxEmpty
    | .eIo | .eNotTty => False
  | ioctl request value code =>
    match request with
    | .setTimeout _ => value = none ∧ code = if u.uart.timeout = intMax then .eNotTty else .ok 0
    | .getConnected =>
      if u.uart.timeout = intMax then code = .eNotTty ∧ value = none
      else code = .ok 0 ∧ (value = some 0 ∧ u.HostMissing ∨ value = some 1 ∧ ¬ u.HostMissing)
    | .other => code = .eNotTty ∧ value = none

end Outcome

/-- A call that is begun after {lit}`s` and returned by the action {lit}`a` after the actions
{lit}`acts`: its code fits the situation, the bytes it has accepted are those that went into
the transmit ring meanwhile, and the bytes it has delivered are those that were taken from
the receive ring. -/
structure CallEffect (s : System) (acts : List Action) (a : Action) (o : Outcome) : Prop where
  outcomes : ((s.run acts).step a).outcomes = s.outcomes ++ [o]
  call : o.call ∈ acts ++ [a]
  lawful : o.Lawful (s.run acts) (s.Met acts)
  written : ((s.run acts).step a).conveyed = s.conveyed ++ o.written
  delivered : ∃ earlier, s.device.sent = earlier ++ s.unread ∧
    ((s.run acts).step a).device.sent =
      earlier ++ o.delivered ++ ((s.run acts).step a).unread

/-! ## What a read knows -/

/-- A read enables its interrupt only after it has delivered something. -/
def Kick.ReadRight : Kick → Prop
  | .write _ _ => True
  | .read r => r.got ≠ [] ∧ r.got.length ≤ r.size

/-- What a read knows of the bytes it has and of the ring it waits for. -/
def Pc.ReadRight (rxOut : Nat) : Pc → Prop
  | readLoop r => r.got.length ≤ r.size
  | memcpyRx r _ _ n _ | storeRxOut r _ _ n _ => r.got.length + n ≤ r.size
  | disableAll k | loadEnable k _ | storeEnable k _ _ | writeControl k _ | enableAll k _ =>
    k.ReadRight
  | spinRx r inIdx | spinRxHost r inIdx | leaveRx r inIdx =>
    r.got = [] ∧ r.nonblock = false ∧ inIdx = rxOut
  | _ => True

namespace System

/-- What the foreground knows of the read it is in, is right. -/
def ReadRight (s : System) : Prop := s.pc.ReadRight s.uart.rxOut

end System

section Steps

variable {s : System}

/-- After the copy loop a read returns, or waits for the ring it has emptied. -/
theorem readRight_afterCopy {r : ReadCall} {inIdx : Nat} (hr : r.got.length ≤ r.size)
    (hin : r.got = [] → inIdx = s.uart.rxOut) : (s.afterCopy r inIdx).ReadRight := by
  unfold System.afterCopy
  split
  · rename_i hgot
    exact ⟨hgot, hr⟩
  · rename_i hgot
    split
    · trivial
    · rename_i hblock
      exact ⟨not_not.mp hgot, Bool.not_eq_true _ ▸ hblock, hin (not_not.mp hgot)⟩

/-- Every step of the foreground keeps what a read knows. -/
theorem readRight_foreground (h : s.ReadRight) (hrunning : s.Running) :
    s.foreground.ReadRight := by
  have htaken := hrunning.receives.taken
  have hin := hrunning.receives.in_lt
  have hout := hrunning.receives.out_lt
  have hlocal := hrunning.wakeful.atPc
  obtain ⟨uart, device, pie, pc, isr, outcomes⟩ := s
  cases pc with
  | disableAll k => exact h
  | loadEnable k context => exact h
  | storeEnable k context value => exact h
  | writeControl k context => exact h
  | enableAll k context =>
    cases k with
    | write w out =>
      simp only [System.foreground, System.afterKick]
      repeat' split
      all_goals trivial
    | read r => trivial
  | readLoop r =>
    simp only [System.foreground]
    split
    · rename_i hnone
      exact readRight_afterCopy h fun _ => (IndexRing.filledRun_spec hin hout).2.2.mp hnone
    · have hspace : r.space = r.size - r.got.length := rfl
      have hfits : r.got.length ≤ r.size := h
      have hmin := Nat.min_le_right (IndexRing.filledRun bufLen uart.rxIn uart.rxOut) r.space
      change r.got.length + min _ r.space ≤ r.size
      omega
  | memcpyRx r inIdx out n chunk =>
    simp only [System.foreground]
    split <;> exact h
  | storeRxOut r inIdx out n chunk =>
    have hlen : chunk.length = n := (htaken _ rfl).2
    have hfits : r.got.length + n ≤ r.size := h
    have hgot : (r.got ++ chunk).length ≤ r.size := by
      rw [List.length_append, hlen]
      exact hfits
    have hpos : 0 < n := hlocal
    simp only [System.foreground]
    split
    · exact hgot
    · refine readRight_afterCopy hgot ?_
      intro hnil
      rw [List.append_eq_nil_iff] at hnil
      rw [hnil.2, List.length_nil] at hlen
      omega
  | spinRx r inIdx =>
    simp only [System.foreground]
    split <;> exact h
  | spinRxHost r inIdx =>
    simp only [System.foreground]
    split <;> exact h
  | leaveRx r inIdx =>
    simp only [System.foreground]
    split
    · trivial
    · change r.got.length ≤ r.size
      rw [h.1]
      exact Nat.zero_le _
  | _ =>
    simp only [System.foreground]
    repeat' split
    all_goals trivial

/-- The interrupt routine returns no call and moves no index of a read. -/
theorem interrupt_frame (s : System) (pending : Pending) :
    (s.interrupt pending).outcomes = s.outcomes ∧ (s.interrupt pending).pc = s.pc ∧
      (s.interrupt pending).uart.rxOut = s.uart.rxOut ∧
      (s.interrupt pending).uart.timeout = s.uart.timeout := by
  unfold System.interrupt System.afterReceive
  split
  all_goals
    try dsimp only
    repeat' split
    all_goals exact ⟨rfl, rfl, rfl, rfl⟩

/-- An {lit}`ioctl` returns at once, and changes at most the timeout. -/
theorem ioctl_frame (request : Request) :
    (s.ioctl request).pc = s.pc ∧ (s.ioctl request).isr = s.isr ∧
      (s.ioctl request).uart.rxOut = s.uart.rxOut ∧
      (s.ioctl request).uart.hostInactive = s.uart.hostInactive ∧
      (0 < s.uart.timeout → 0 < (s.ioctl request).uart.timeout) := by
  cases request with
  | setTimeout timeout =>
    simp only [System.ioctl]
    split
    · refine ⟨rfl, rfl, rfl, rfl, fun _ => ?_⟩
      dsimp only
      split
      · rename_i hrange
        omega
      · decide
    · exact ⟨rfl, rfl, rfl, rfl, id⟩
  | getConnected =>
    simp only [System.ioctl]
    split <;> exact ⟨rfl, rfl, rfl, rfl, id⟩
  | other => exact ⟨rfl, rfl, rfl, rfl, id⟩

/-- Every action keeps what a read knows. -/
theorem readRight_step (h : s.ReadRight) (hrunning : s.Running) (a : Action) :
    (s.step a).ReadRight := by
  refine System.step_rule a h ?_ ?_ ?_ ?_ ?_ ?_ ?_ ?_ ?_ ?_ ?_
  · exact fun _ _ _ _ => trivial
  · intro _ _ size nonblock
    unfold System.startRead
    split
    · exact Nat.zero_le _
    · trivial
  · exact fun _ _ _ => trivial
  · intro hpc _ request
    rw [System.ReadRight, (ioctl_frame request).1, hpc]
    trivial
  · exact fun _ => readRight_foreground h hrunning
  · exact fun _ _ => h
  · exact fun _ _ => h
  · intro pending _
    obtain ⟨-, hpc, hrxOut, -⟩ := interrupt_frame s pending
    rw [System.ReadRight, hpc, hrxOut]
    exact h
  · exact h
  · exact fun _ => h
  · exact h

/-- The invariant of the whole driver. -/
structure System.Returned (s : System) : Prop where
  running : s.Running
  atRead : s.ReadRight

/-- Before the first call nothing is known. -/
theorem returned_init (timeout : Nat) : (System.init timeout).Returned :=
  ⟨running_init timeout, trivial⟩

/-- Every action keeps the invariant of the driver. -/
theorem returned_step (h : s.Returned) (a : Action) : (s.step a).Returned :=
  ⟨running_step h.running a, readRight_step h.atRead h.running a⟩

/-- Every run keeps the invariant of the driver. -/
theorem returned_run (h : s.Returned) (acts : List Action) : (s.run acts).Returned :=
  StepSystem.run_invariant (P := System.Returned) (fun _ a hs => returned_step hs a) h acts

/-! ## The call so far -/

namespace Pc

/-- The action that began the call in progress. -/
def call : Pc → Option Action
  | closeTx nonblock | closeHost nonblock => some (.close nonblock)
  | pc =>
    (pc.writing.map fun w => .write w.buf w.nonblock).or
      (pc.reading.map fun r => .read r.size r.nonblock)

end Pc

/-- A write has no bytes left, or it has met a full ring. -/
def Kick.Looked (met : (System → Prop) → Prop) : Kick → Prop
  | .write w _ => w.count = 0 ∨ met System.TxFull
  | .read _ => True

/-- What the call has met that explains where it is. -/
def Pc.Looked (met : (System → Prop) → Prop) (rxIn : Nat) : Pc → Prop
  | disableAll k | loadEnable k _ | storeEnable k _ _ | writeControl k _ | enableAll k _ =>
    k.Looked met
  | spinTx _ _ | spinTxHost _ _ | leaveTx _ _ => met System.TxFull
  | leaveRx _ inIdx => inIdx = rxIn → met System.HostMissing
  | closeHost _ => met fun x => ¬ x.TxEmpty
  | _ => True

/-- The call in progress was begun by one of the actions, and it has met on its way what
explains where it is. -/
structure Underway (s : System) (acts : List Action) (u : System) : Prop where
  call : ∀ call, u.pc.call = some call → call ∈ acts
  looked : u.pc.Looked (s.Met acts) u.uart.rxIn

/-- What was met stays met. -/
theorem Kick.Looked.mono {met met' : (System → Prop) → Prop} (hmet : ∀ P, met P → met' P)
    {k : Kick} (h : k.Looked met) : k.Looked met' := by
  cases k with
  | write w out => exact h.imp id (hmet _)
  | read r => trivial

/-- What was met stays met. -/
theorem Pc.Looked.mono {met met' : (System → Prop) → Prop} (hmet : ∀ P, met P → met' P)
    {rxIn : Nat} {pc : Pc} (h : pc.Looked met rxIn) : pc.Looked met' rxIn := by
  cases pc with
  | disableAll k => exact Kick.Looked.mono hmet h
  | loadEnable k context => exact Kick.Looked.mono hmet h
  | storeEnable k context value => exact Kick.Looked.mono hmet h
  | writeControl k context => exact Kick.Looked.mono hmet h
  | enableAll k context => exact Kick.Looked.mono hmet h
  | spinTx w out => exact hmet _ h
  | spinTxHost w out => exact hmet _ h
  | leaveTx w out => exact hmet _ h
  | leaveRx r inIdx => exact fun hsame => hmet _ (h hsame)
  | closeHost nonblock => exact hmet _ h
  | _ => trivial

/-- The foreground begins no call. -/
theorem call_foreground (u : System) :
    ∀ call, u.foreground.pc.call = some call → u.pc.call = some call := by
  obtain ⟨uart, device, pie, pc, isr, outcomes⟩ := u
  intro call
  cases pc with
  | enableAll k context =>
    cases k <;> simp only [System.foreground, System.afterKick, System.returnWrite,
      System.returnRead]
    all_goals
      repeat' split
      all_goals first | exact id | exact fun hcall => by cases hcall
  | _ =>
    simp only [System.foreground, System.afterCopy, System.returnWrite, System.returnRead,
      System.returnClose]
    repeat' split
    all_goals first | exact id | exact fun hcall => by cases hcall

/-- A step of the foreground meets what explains its next place. -/
theorem looked_foreground {u : System} {met : (System → Prop) → Prop} (hu : u.Running)
    (hnow : ∀ P : System → Prop, P u → met P) (h : u.pc.Looked met u.uart.rxIn) :
    u.foreground.pc.Looked met u.foreground.uart.rxIn := by
  have hin := hu.transmits.in_lt
  have hout := hu.transmits.out_lt
  obtain ⟨uart, device, pie, pc, isr, outcomes⟩ := u
  cases pc with
  | copyLoop w out =>
    simp only [System.foreground]
    split
    · split
      · rename_i hnone
        exact Or.inr (hnow _ ((IndexRing.freeRun_spec hin hout).2.2.mp hnone))
      · trivial
    · rename_i hcount
      exact Or.inl (Nat.eq_zero_of_not_pos hcount)
  | disableAll k => exact h
  | loadEnable k context => exact h
  | storeEnable k context value => exact h
  | writeControl k context => exact h
  | enableAll k context =>
    cases k with
    | write w out =>
      simp only [System.foreground, System.afterKick]
      split
      · rename_i hcount
        split
        · trivial
        · exact h.resolve_left (Nat.pos_iff_ne_zero.mp hcount)
      · trivial
    | read r => trivial
  | spinTx w out =>
    simp only [System.foreground]
    split <;> exact h
  | spinTxHost w out =>
    simp only [System.foreground]
    split <;> exact h
  | spinRx r inIdx =>
    simp only [System.foreground]
    split
    · trivial
    · rename_i hmoved
      exact fun hsame => absurd hsame hmoved
  | spinRxHost r inIdx =>
    simp only [System.foreground]
    split
    · trivial
    · rename_i hmissing
      exact fun _ => hnow _ (Nat.not_lt.mp hmissing)
  | closeTx nonblock =>
    simp only [System.foreground]
    split
    · trivial
    · rename_i hwaiting
      exact hnow _ hwaiting
  | _ =>
    simp only [System.foreground, System.afterCopy]
    repeat' split
    all_goals trivial

/-- The interrupt routine fills no receive ring up to where its reader waits. -/
theorem looked_interrupt {u : System} {met : (System → Prop) → Prop} (hread : u.ReadRight)
    (h : u.pc.Looked met u.uart.rxIn) (pending : Pending) :
    (u.interrupt pending).pc.Looked met (u.interrupt pending).uart.rxIn := by
  obtain ⟨uart, device, pie, pc, isr, outcomes⟩ := u
  cases isr with
  | receive control data =>
    simp only [System.interrupt]
    split
    · exact h
    · rename_i hroom
      split
      · exact h
      · cases pc with
        | leaveRx r inIdx =>
          exact fun hsame => absurd (hsame.symm.trans hread.2.2) hroom
        | _ => exact h
  | _ =>
    simp only [System.interrupt, System.afterReceive]
    repeat' split
    all_goals exact h

/-- Every action meets what explains the next place of the call. -/
theorem underway_step {acts : List Action} (hreturned : (s.run acts).Returned)
    (h : Underway s acts (s.run acts)) (a : Action) :
    Underway s (acts ++ [a]) ((s.run acts).step a) := by
  have hcall : ∀ call, (s.run acts).pc.call = some call → call ∈ acts ++ [a] :=
    fun call hcall => List.mem_append_left _ (h.call call hcall)
  have hlooked : (s.run acts).pc.Looked (s.Met (acts ++ [a])) (s.run acts).uart.rxIn :=
    h.looked.mono fun _ hmet => hmet.concat a
  have hnow : ∀ P : System → Prop, P (s.run acts) → s.Met (acts ++ [a]) P :=
    fun P hP => (StepSystem.met_run hP).concat a
  generalize s.run acts = u at *
  cases a with
  | write buf nonblock =>
    rw [System.step]
    split
    · refine ⟨fun call hwrite => ?_, trivial⟩
      rw [← Option.some.inj hwrite]
      exact List.mem_append_right _ (List.mem_singleton_self _)
    · exact ⟨hcall, hlooked⟩
  | read size nonblock =>
    rw [System.step]
    split
    · rw [System.startRead]
      split
      · refine ⟨fun call hread => ?_, trivial⟩
        rw [← Option.some.inj hread]
        exact List.mem_append_right _ (List.mem_singleton_self _)
      · exact ⟨fun call hcall => (by cases hcall), trivial⟩
    · exact ⟨hcall, hlooked⟩
  | close nonblock =>
    rw [System.step]
    split
    · refine ⟨fun call hclose => ?_, trivial⟩
      rw [← Option.some.inj hclose]
      exact List.mem_append_right _ (List.mem_singleton_self _)
    · exact ⟨hcall, hlooked⟩
  | ioctl request =>
    rw [System.step]
    split
    · rename_i hidle
      have hpc := (ioctl_frame (s := u) request).1.trans hidle.1
      refine ⟨fun call hcall => ?_, by rw [hpc]; trivial⟩
      rw [hpc] at hcall
      cases hcall
    · exact ⟨hcall, hlooked⟩
  | foreground =>
    rw [System.step]
    split
    · exact ⟨fun call hnext => hcall call (call_foreground u call hnext),
        looked_foreground hreturned.running hnow hlooked⟩
    · exact ⟨hcall, hlooked⟩
  | irq =>
    rw [System.step]
    split <;> exact ⟨hcall, hlooked⟩
  | alarm =>
    rw [System.step]
    split <;> exact ⟨hcall, hlooked⟩
  | interrupt pending =>
    refine ⟨?_, looked_interrupt hreturned.atRead hlooked pending⟩
    rw [System.step, (interrupt_frame u pending).2.1]
    exact hcall
  | hostFetch => exact ⟨hcall, hlooked⟩
  | hostSend byte => exact ⟨hcall, hlooked⟩
  | hostActivity => exact ⟨hcall, hlooked⟩

/-- Along a run from a state between two calls, the call in progress is one of the run. -/
theorem underway_run (hreturned : s.Returned) (hidle : s.pc = .idle) (acts : List Action) :
    Underway s acts (s.run acts) := by
  refine (StepSystem.run_history (I := fun acts u => u.Returned ∧ Underway s acts u)
    ⟨hreturned, ?_, ?_⟩ ?_ acts).2
  · rw [hidle]
    nofun
  · rw [hidle]
    trivial
  · exact fun acts a h => ⟨returned_step h.1 a, underway_step h.1 h.2 a⟩

/-! ## The end of a call -/

section Ends

variable {u : System} {met : (System → Prop) → Prop}

/-- A write that has met what it should. -/
theorem WriteCall.outcome_lawful {w : WriteCall} (hdone : w.done ≤ w.buf.length)
    (hleft : w.done < w.buf.length →
      met System.TxFull ∧ (w.nonblock = true ∨ u.uart.hostInactive ≠ 0)) :
    w.outcome.Lawful u met := by
  refine ⟨?_, fun hlt => hleft ?_⟩
  · unfold code
    by_cases hzero : w.done = 0
    · rw [if_neg (not_not.mpr hzero)]
      cases hnonblock : w.nonblock <;> simp [ReturnCode.OfWrite]
    · rw [if_pos hzero]
      exact ⟨Nat.pos_of_ne_zero hzero, hdone⟩
  · change w.outcome.written.length < w.buf.length at hlt
    rw [w.outcome_written, WriteCall.written, List.length_take, Nat.min_eq_left hdone] at hlt
    exact hlt

/-- The code of a read fits its bytes. -/
theorem ReadCall.code_ofRead {r : ReadCall} (hfits : r.got.length ≤ r.size) :
    r.code.OfRead r.size r.nonblock r.got := by
  unfold code
  by_cases hgot : r.got = []
  · rw [if_neg (not_not.mpr hgot)]
    cases hnonblock : r.nonblock <;> simp [ReturnCode.OfRead, hgot]
  · rw [if_pos hgot]
    exact ⟨rfl, List.length_pos_of_ne_nil hgot, hfits⟩

/-- A read that has met what it should. -/
theorem ReadCall.outcome_lawful {r : ReadCall} (hfits : r.got.length ≤ r.size)
    (hnone : r.got = [] →
      r.size = 0 ∨ u.RxEmpty ∧ (r.nonblock = true ∨ met System.HostMissing)) :
    r.outcome.Lawful u met :=
  ⟨ReadCall.code_ofRead hfits, hnone⟩

/-- Every {lit}`ioctl` returns lawfully. -/
theorem ioctl_lawful (u : System) (met : (System → Prop) → Prop) (request : Request) :
    ∃ value code, (u.ioctl request).outcomes = u.outcomes ++ [.ioctl request value code] ∧
      (Outcome.ioctl request value code).Lawful u met := by
  cases request with
  | setTimeout timeout =>
    simp only [System.ioctl]
    split
    · rename_i hset
      exact ⟨none, .ok 0, rfl, rfl, (if_neg hset).symm⟩
    · rename_i hunset
      exact ⟨none, .eNotTty, rfl, rfl, (if_pos (not_not.mp hunset)).symm⟩
  | getConnected =>
    simp only [System.ioctl]
    split
    · rename_i hset
      refine ⟨some _, .ok 0, rfl, ?_⟩
      rw [Outcome.Lawful, if_neg hset]
      refine ⟨rfl, ?_⟩
      split
      · rename_i hthere
        exact Or.inr ⟨rfl, Nat.not_le.mpr hthere⟩
      · rename_i hmissing
        exact Or.inl ⟨rfl, Nat.not_lt.mp hmissing⟩
    · rename_i hunset
      refine ⟨none, .eNotTty, rfl, ?_⟩
      rw [Outcome.Lawful, if_pos (not_not.mp hunset)]
      exact ⟨rfl, rfl⟩
  | other => exact ⟨none, .eNotTty, rfl, rfl, rfl⟩

/-- An action returns no call, or it returns the call in progress (or the one it begins) with
a lawful code. -/
def System.Returns (u u' : System) (met : (System → Prop) → Prop) (begun : Option Action) :
    Prop :=
  u'.outcomes = u.outcomes ∨
    ∃ o, u'.outcomes = u.outcomes ++ [o] ∧ u'.pc = .idle ∧ begun = some o.call ∧ o.Lawful u met

/-- After its copy loop a read returns lawfully, or goes on. -/
theorem returns_afterCopy {u' : System} {r : ReadCall} {inIdx : Nat} {begun : Option Action}
    (hsame : u'.outcomes = u.outcomes) (hfits : r.got.length ≤ r.size)
    (hempty : r.got = [] → u.RxEmpty) (hbegun : begun = some (.read r.size r.nonblock)) :
    u.Returns (u'.afterCopy r inIdx) met begun := by
  rw [System.afterCopy]
  split
  · exact Or.inl hsame
  · split
    · rename_i hnonblock
      refine Or.inr ⟨r.outcome, congrArg (· ++ _) hsame, rfl, hbegun, ?_⟩
      exact ReadCall.outcome_lawful hfits fun hgot => Or.inr ⟨hempty hgot, Or.inl hnonblock⟩
    · exact Or.inl hsame

/-- The foreground returns its call lawfully. -/
theorem returns_foreground (hu : u.Returned) (hlooked : u.pc.Looked met u.uart.rxIn) :
    u.Returns u.foreground met u.pc.call := by
  have hdone := hu.running.transmits.done_le
  have hin := hu.running.receives.in_lt
  have hout := hu.running.receives.out_lt
  have htaken := hu.running.receives.taken
  have hlocal := hu.running.wakeful.atPc
  have hread := hu.atRead
  obtain ⟨uart, device, pie, pc, isr, outcomes⟩ := u
  cases pc with
  | enableAll k context =>
    cases k with
    | write w out =>
      have hle : w.done ≤ w.buf.length := hdone w rfl
      simp only [System.foreground, System.afterKick]
      split
      · rename_i hcount
        split
        · rename_i hnonblock
          refine Or.inr ⟨w.outcome, rfl, rfl, rfl, WriteCall.outcome_lawful hle fun _ => ?_⟩
          exact ⟨hlooked.resolve_left (Nat.pos_iff_ne_zero.mp hcount), Or.inl hnonblock⟩
        · exact Or.inl rfl
      · rename_i hcount
        refine Or.inr ⟨w.outcome, rfl, rfl, rfl, WriteCall.outcome_lawful hle fun hlt => ?_⟩
        have hall := count_eq hle
        omega
    | read r =>
      exact Or.inr ⟨r.outcome, rfl, rfl, rfl,
        ReadCall.outcome_lawful hread.2 fun hgot => absurd hgot hread.1⟩
  | leaveTx w out =>
    have hle : w.done ≤ w.buf.length := hdone w rfl
    simp only [System.foreground]
    split
    · rename_i hinactive
      exact Or.inr ⟨w.outcome, rfl, rfl, rfl,
        WriteCall.outcome_lawful hle fun _ => ⟨hlooked, Or.inr hinactive⟩⟩
    · exact Or.inl rfl
  | readLoop r =>
    simp only [System.foreground]
    split
    · rename_i hnone
      exact returns_afterCopy rfl hread
        (fun _ => (IndexRing.filledRun_spec hin hout).2.2.mp hnone) rfl
    · exact Or.inl rfl
  | storeRxOut r inIdx out n chunk =>
    have hlen : chunk.length = n := (htaken _ rfl).2
    have hfits : r.got.length + n ≤ r.size := hread
    have hpos : 0 < n := hlocal
    have hgot : (r.got ++ chunk).length = r.got.length + n := by rw [List.length_append, hlen]
    simp only [System.foreground]
    split
    · exact Or.inl rfl
    · refine returns_afterCopy (r := { r with got := r.got ++ chunk }) rfl (hgot ▸ hfits) ?_ rfl
      intro hnil
      have hzero : (r.got ++ chunk).length = 0 := congrArg List.length hnil
      omega
  | leaveRx r inIdx =>
    obtain ⟨hgot, hblock, hwait⟩ := hread
    simp only [System.foreground]
    split
    · rename_i hsame
      refine Or.inr ⟨r.outcome, rfl, rfl, rfl, ReadCall.outcome_lawful ?_ fun _ => ?_⟩
      · rw [hgot]
        exact Nat.zero_le _
      · exact Or.inr ⟨hsame.symm.trans hwait, Or.inr (hlooked hsame)⟩
    · exact Or.inl rfl
  | closeTx nonblock =>
    simp only [System.foreground]
    split
    · rename_i hempty
      exact Or.inr ⟨.close nonblock (.ok 0), rfl, rfl, rfl, rfl, Or.inl hempty⟩
    · exact Or.inl rfl
  | closeHost nonblock =>
    simp only [System.foreground]
    split
    · rename_i hthere
      split
      · rename_i hnonblock
        exact Or.inr ⟨.close nonblock .eWouldBlock, rfl, rfl, rfl, hnonblock,
          Nat.not_le.mpr hthere, hlooked⟩
      · exact Or.inl rfl
    · rename_i hmissing
      exact Or.inr ⟨.close nonblock (.ok 0), rfl, rfl, rfl, rfl, Or.inr (Nat.not_lt.mp hmissing)⟩
  | _ =>
    simp only [System.foreground]
    repeat' split
    all_goals exact Or.inl rfl

/-- The action that returns a call gives it a lawful code. -/
theorem returns_step (hu : u.Returned) (hlooked : u.pc.Looked met u.uart.rxIn) (a : Action) :
    u.Returns (u.step a) met (u.pc.call.or (some a)) := by
  cases a with
  | write buf nonblock =>
    rw [System.step]
    split <;> exact Or.inl rfl
  | read size nonblock =>
    rw [System.step]
    split
    · rename_i hidle
      rw [System.startRead]
      split
      · exact Or.inl rfl
      · rename_i hspace
        refine Or.inr ⟨_, rfl, rfl, by rw [hidle.1]; rfl, ?_⟩
        exact ReadCall.outcome_lawful (Nat.zero_le _)
          fun _ => Or.inl (Nat.eq_zero_of_not_pos hspace)
    · exact Or.inl rfl
  | close nonblock =>
    rw [System.step]
    split <;> exact Or.inl rfl
  | ioctl request =>
    rw [System.step]
    split
    · rename_i hidle
      obtain ⟨value, code, houtcomes, hlawful⟩ := ioctl_lawful u met request
      refine Or.inr ⟨_, houtcomes, (ioctl_frame request).1.trans hidle.1, ?_, hlawful⟩
      rw [hidle.1]
      rfl
    · exact Or.inl rfl
  | foreground =>
    rw [System.step]
    split
    · rcases returns_foreground hu hlooked with hsame | ⟨o, houtcomes, hidle, hcall, hlawful⟩
      · exact Or.inl hsame
      · exact Or.inr ⟨o, houtcomes, hidle, by rw [hcall]; rfl, hlawful⟩
    · exact Or.inl rfl
  | irq =>
    rw [System.step]
    split <;> exact Or.inl rfl
  | alarm =>
    rw [System.step]
    split <;> exact Or.inl rfl
  | interrupt pending => exact Or.inl (interrupt_frame u pending).1
  | hostFetch => exact Or.inl rfl
  | hostSend byte => exact Or.inl rfl
  | hostActivity => exact Or.inl rfl

end Ends

/-- Between two calls nothing is accepted or delivered but what the returned calls have. -/
theorem moved_of_idle (h : s.Running) (hidle : s.pc = .idle) :
    s.conveyed = s.outcomes.flatMap Outcome.written ∧
      s.outcomes.flatMap Outcome.delivered ++ s.unread = s.device.sent := by
  have haccepted : s.accepted = s.outcomes.flatMap Outcome.written := by
    rw [System.accepted, hidle]
    exact List.append_nil _
  have hdelivered : s.delivered = s.outcomes.flatMap Outcome.delivered := by
    rw [System.delivered, hidle]
    exact List.append_nil _
  have hreceived : s.delivered ++ IndexRing.contents s.uart.rxBuf bufLen s.uart.rxIn s.uart.rxOut ++
      s.device.readFifo = s.device.sent := h.receives.conveyed
  rw [hdelivered, List.append_assoc] at hreceived
  exact ⟨h.transmits.conveyed.trans haccepted, hreceived⟩

/-- For every call in every interleaving, from a state between two calls to the action that
returns the next one: the code fits the situation, a write has put exactly the bytes it counts
into the transmit ring, and a read has taken exactly the bytes it gives from the receive
ring. -/
theorem lawful_run (timeout : Nat) {before acts : List Action} {a : Action}
    (hidle : ((System.init timeout).run before).pc = .idle)
    (hcalling : (((System.init timeout).run before).run acts).outcomes =
      ((System.init timeout).run before).outcomes)
    (hreturn : ((((System.init timeout).run before).run acts).step a).outcomes ≠
      (((System.init timeout).run before).run acts).outcomes) :
    ∃ o, CallEffect ((System.init timeout).run before) acts a o := by
  have hstart := returned_run (returned_init timeout) before
  generalize (System.init timeout).run before = s at *
  have hcall := returned_run hstart acts
  have hunderway := underway_run hstart hidle acts
  rcases returns_step hcall hunderway.looked a with hsame | ⟨o, houtcomes, hend, hbegun, hlawful⟩
  · exact absurd hsame hreturn
  rw [hcalling] at houtcomes
  obtain ⟨hconveyed, hreceived⟩ := moved_of_idle hstart.running hidle
  obtain ⟨hconveyed', hreceived'⟩ := moved_of_idle (returned_step hcall a).running hend
  rw [houtcomes, List.flatMap_append, List.flatMap_singleton] at hconveyed' hreceived'
  refine ⟨o, houtcomes, ?_, hlawful, ?_, ?_⟩
  · cases hpc : (s.run acts).pc.call with
    | none =>
      rw [hpc, Option.none_or] at hbegun
      rw [← Option.some.inj hbegun]
      exact List.mem_append_right _ (List.mem_singleton_self a)
    | some call =>
      rw [hpc, Option.some_or] at hbegun
      rw [← Option.some.inj hbegun]
      exact List.mem_append_left _ (hunderway.call call hpc)
  · rw [hconveyed', hconveyed]
  · exact ⟨_, hreceived.symm, hreceived'.symm⟩

/-- A blocking read waits on an empty ring, through an alarm that misses the host, until the
interrupt routine has moved a byte. -/
theorem lawful_run_read :
    let quiet : Pending := { read := false, write := false }
    let before : List Action := .write [65, 66] true :: List.replicate 12 .foreground
    let acts : List Action :=
      [.read 4 false] ++ List.replicate 5 .foreground ++ [.alarm, .interrupt quiet, .hostSend 67,
        .irq] ++ List.replicate 4 (.interrupt { read := true, write := false }) ++
        [.interrupt quiet] ++ List.replicate 11 .foreground
    let s := (System.init 10).run before
    s.outcomes = [.write [65, 66] true (.ok 2)] ∧
      ((s.run acts).step .foreground).outcomes =
        [.write [65, 66] true (.ok 2), .read 4 false [67] (.ok 1)] ∧
      ∃ o, CallEffect s acts .foreground o :=
  ⟨by decide, by decide, lawful_run 10 (by decide) (by decide) (by decide)⟩

end Steps

end Fast
end JtagUart
end RadonMCU
