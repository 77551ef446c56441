import RadonMCU.JtagUart.Fast

/-!
# The transmit side

What the writes have accepted is, at every moment and in order, what the host has fetched,
what waits in the device and what waits in the transmit ring.  The interrupt routine may
come between any two accesses of a write to memory; the write works with old values of the
output index and of the space it has computed from it, and the routine with an old value of
the space of the device.

Main results:

- Theorem {lit}`TxSide.Sound.copied`: moving {lit}`tx_in` appends the bytes that were copied.
- Theorem {lit}`transmits_step`: every action keeps the transmit side sound.
- Theorem {lit}`transmitted_run`: no byte is lost, repeated or reordered, and no byte is
  written to a full device, in any interleaving.
-/

namespace RadonMCU
namespace JtagUart
namespace Fast

open BoundedFifo

/-! ## The view of the transmit side -/

/-- The bytes a write has put into the ring. -/
def WriteCall.written (w : WriteCall) : List UInt8 := w.buf.take w.done

/-- The bytes a returned call has accepted for transmission. -/
def Outcome.written : Outcome → List UInt8
  | .write buf _ (.ok n) => buf.take n
  | _ => []

/-- A {lit}`memcpy` into the ring: {lit}`copied` of {lit}`count` bytes of the call are
stored from the cell {lit}`start` on. -/
structure Copy where
  call : WriteCall
  start : Nat
  count : Nat
  copied : Nat

/-- The write that enables its interrupt. -/
def Kick.writing : Kick → Option WriteCall
  | .write w _ => some w
  | .read _ => none

namespace Pc

/-- The write in progress. -/
def writing : Pc → Option WriteCall
  | copyLoop w _ | memcpyTx w _ _ _ _ | storeTxIn w _ _ _ => some w
  | spinTx w _ | spinTxHost w _ | leaveTx w _ => some w
  | disableAll k | loadEnable k _ | storeEnable k _ _ | writeControl k _ | enableAll k _ =>
    k.writing
  | _ => none

/-- The copy in progress. -/
def copying : Pc → Option Copy
  | memcpyTx w inIdx _ n i => some { call := w, start := inIdx, count := n, copied := i }
  | storeTxIn w inIdx _ n => some { call := w, start := inIdx, count := n, copied := n }
  | _ => none

end Pc

/-- The space that the interrupt routine still counts on. -/
def IsrPc.space : IsrPc → Option Nat
  | receive control _ | receiveDone control _ | receiveDummy control =>
    some (controlSpace control)
  | transmit space => some space
  | _ => none

namespace System

/-- All bytes that writes have accepted so far. -/
def accepted (s : System) : List UInt8 :=
  s.outcomes.flatMap Outcome.written ++ s.pc.writing.elim [] WriteCall.written

end System

/-- What the transmit side consists of. -/
structure TxSide where
  inIdx : Nat
  outIdx : Nat
  cells : Nat → UInt8
  fetched : List UInt8
  fifo : List UInt8
  accepted : List UInt8
  writing : Option WriteCall
  copying : Option Copy
  space : Option Nat

/-- The transmitting side of the system. -/
def System.tx (s : System) : TxSide where
  inIdx := s.uart.txIn
  outIdx := s.uart.txOut
  cells := s.uart.txBuf
  fetched := s.device.fetched
  fifo := s.device.writeFifo
  accepted := s.accepted
  writing := s.pc.writing
  copying := s.pc.copying
  space := s.isr.space

namespace TxSide

/-- The bytes that wait in the ring. -/
def waiting (t : TxSide) : List UInt8 :=
  IndexRing.contents t.cells bufLen t.inIdx t.outIdx

/-- The number of bytes that wait in the ring. -/
def used (t : TxSide) : Nat := IndexRing.used bufLen t.inIdx t.outIdx

end TxSide

/-- A copy fills free cells that do not wrap, with the next bytes of its call. -/
structure Copy.Sound (c : Copy) (t : TxSide) : Prop where
  writing : t.writing = some c.call
  start : c.start = t.inIdx
  copied_le : c.copied ≤ c.count
  count_le : c.count ≤ c.call.count
  fits : t.used + c.count < bufLen
  no_wrap : t.inIdx + c.count ≤ bufLen
  stored : ∀ j < c.copied, t.cells (t.inIdx + j) = c.call.buf.getD (c.call.done + j) 0

/-- The invariant of the transmit side. -/
structure TxSide.Sound (t : TxSide) : Prop where
  in_lt : t.inIdx < bufLen
  out_lt : t.outIdx < bufLen
  fifo_le : t.fifo.length ≤ writeDepth
  conveyed : t.fetched ++ t.fifo ++ t.waiting = t.accepted
  space_le : ∀ n, t.space = some n → t.fifo.length + n ≤ writeDepth
  done_le : ∀ w, t.writing = some w → w.done ≤ w.buf.length
  copying : ∀ c, t.copying = some c → c.Sound t

/-- The transmit side of a system is sound. -/
def System.Transmits (s : System) : Prop := s.tx.Sound

/-! ## Small facts -/

/-- What a write reports is what it has put into the ring. -/
theorem WriteCall.outcome_written (w : WriteCall) : w.outcome.written = w.written := by
  unfold outcome code written
  by_cases hdone : w.done = 0
  · rw [if_neg (not_not.mpr hdone), hdone, List.take_zero]
    split <;> rfl
  · rw [if_pos hdone, Outcome.written]

/-- The bytes of a list from an offset on, read one by one. -/
theorem take_drop_eq_map (l : List UInt8) {d n : Nat} (h : d + n ≤ l.length) :
    (l.drop d).take n = (List.range n).map fun j => l.getD (d + j) 0 := by
  apply List.ext_getElem
  · rw [List.length_take, List.length_drop, List.length_map, List.length_range]
    omega
  · intro j hj hj'
    have hlt : d + j < l.length := by
      rw [List.length_map, List.length_range] at hj'
      omega
    rw [List.getElem_take, List.getElem_drop, List.getElem_map, List.getElem_range,
      List.getD_eq_getElem l 0 hlt]

/-- A write that goes on extends what it has put into the ring. -/
theorem WriteCall.written_add (w : WriteCall) {n : Nat} (h : w.done + n ≤ w.buf.length) :
    ({ w with done := w.done + n } : WriteCall).written =
      w.written ++ (List.range n).map fun j => w.buf.getD (w.done + j) 0 := by
  rw [written, written, List.take_add, take_drop_eq_map w.buf h]

/-- What is done and what is left are the whole buffer. -/
theorem count_eq {w : WriteCall} (h : w.done ≤ w.buf.length) :
    w.done + w.count = w.buf.length := by
  unfold WriteCall.count
  omega

/-! ## Changes of the transmit side -/

namespace TxSide
namespace Sound

variable {t : TxSide}

/-- A cell of the ring stays free. -/
theorem used_lt (h : t.Sound) : t.used < bufLen := IndexRing.used_lt h.in_lt

/-- The host or the interrupt routine may take bytes out of the FIFO or stop counting on
its space, and a write may begin, go on or end without touching the ring. -/
theorem recount (h : t.Sound) {fetched fifo accepted : List UInt8} {writing : Option WriteCall}
    {space : Option Nat}
    (hconveyed : fetched ++ fifo = t.fetched ++ t.fifo) (hfifo : fifo.length ≤ t.fifo.length)
    (haccepted : accepted = t.accepted)
    (hspace : ∀ n, space = some n → fifo.length + n ≤ writeDepth)
    (hdone : ∀ w, writing = some w → w.done ≤ w.buf.length) :
    ({ t with fetched, fifo, accepted, writing, copying := none, space } : TxSide).Sound where
  in_lt := h.in_lt
  out_lt := h.out_lt
  fifo_le := Nat.le_trans hfifo h.fifo_le
  conveyed := by
    rw [haccepted, ← h.conveyed, ← hconveyed]
    rfl
  space_le := hspace
  done_le := hdone
  copying := by simp

/-- The host takes a byte during a copy. -/
theorem fetch (h : t.Sound) {fetched fifo : List UInt8}
    (hconveyed : fetched ++ fifo = t.fetched ++ t.fifo)
    (hfifo : fifo.length ≤ t.fifo.length) :
    ({ t with fetched, fifo } : TxSide).Sound where
  in_lt := h.in_lt
  out_lt := h.out_lt
  fifo_le := Nat.le_trans hfifo h.fifo_le
  conveyed := by
    rw [← h.conveyed, ← hconveyed]
    rfl
  space_le n hn := Nat.le_trans (Nat.add_le_add_right hfifo n) (h.space_le n hn)
  done_le := h.done_le
  copying c hc := ⟨(h.copying c hc).writing, (h.copying c hc).start, (h.copying c hc).copied_le,
    (h.copying c hc).count_le, (h.copying c hc).fits, (h.copying c hc).no_wrap,
    (h.copying c hc).stored⟩

/-- The interrupt routine counts on the space it has just seen, or on none. -/
theorem seeSpace (h : t.Sound) (space : Option Nat)
    (hspace : ∀ n, space = some n → t.fifo.length + n ≤ writeDepth) :
    ({ t with space } : TxSide).Sound where
  in_lt := h.in_lt
  out_lt := h.out_lt
  fifo_le := h.fifo_le
  conveyed := h.conveyed
  space_le := hspace
  done_le := h.done_le
  copying c hc := ⟨(h.copying c hc).writing, (h.copying c hc).start, (h.copying c hc).copied_le,
    (h.copying c hc).count_le, (h.copying c hc).fits, (h.copying c hc).no_wrap,
    (h.copying c hc).stored⟩

/-- The interrupt routine moves a byte from the ring to the device, which has room for
it. -/
theorem transmit (h : t.Sound) {n : Nat} (hspace : t.space = some (n + 1))
    (hne : t.outIdx ≠ t.inIdx) :
    ({ t with
      outIdx := (t.outIdx + 1) % bufLen
      fifo := t.fifo ++ [t.cells t.outIdx]
      space := some n } : TxSide).Sound := by
  have hroom := h.space_le _ hspace
  have hlen : (t.fifo ++ [t.cells t.outIdx]).length = t.fifo.length + 1 := by simp
  have hused := IndexRing.used_next h.in_lt h.out_lt hne.symm
  refine ⟨h.in_lt, Nat.mod_lt _ bufLen_pos, ?_, ?_, ?_, h.done_le, ?_⟩
  · rw [hlen]
    omega
  · rw [← h.conveyed]
    have hcons := IndexRing.contents_cons t.cells h.in_lt h.out_lt hne.symm
    rw [waiting, waiting, hcons]
    simp
  · rintro m hm
    have hmn : n = m := by simpa using hm
    rw [hlen]
    omega
  · intro c hc
    have hcopy := h.copying c hc
    refine ⟨hcopy.writing, hcopy.start, hcopy.copied_le, hcopy.count_le, ?_, hcopy.no_wrap,
      hcopy.stored⟩
    have hfits := hcopy.fits
    change IndexRing.used bufLen t.inIdx ((t.outIdx + 1) % bufLen) + c.count < bufLen
    unfold used at hfits
    omega

/-- A write that finds free cells starts to copy into them. -/
theorem startCopy (h : t.Sound) {w : WriteCall} {n : Nat} (hw : t.writing = some w)
    (hfree : n ≤ IndexRing.freeRun bufLen t.inIdx t.outIdx) (hcount : n ≤ w.count) :
    ({ t with copying := some { call := w, start := t.inIdx, count := n, copied := 0 } } :
      TxSide).Sound where
  in_lt := h.in_lt
  out_lt := h.out_lt
  fifo_le := h.fifo_le
  conveyed := h.conveyed
  space_le := h.space_le
  done_le := h.done_le
  copying := by
    have hspec := IndexRing.freeRun_spec h.in_lt h.out_lt
    rintro c hc
    rw [Option.some.injEq] at hc
    subst hc
    refine ⟨hw, rfl, Nat.zero_le _, hcount, ?_, ?_, by simp⟩
    · change IndexRing.used bufLen t.inIdx t.outIdx + n < bufLen
      omega
    · change t.inIdx + n ≤ bufLen
      omega

/-- A byte is copied into a free cell. -/
theorem copyByte (h : t.Sound) {c : Copy} (hc : t.copying = some c) (hlt : c.copied < c.count) :
    ({ t with
      cells := Function.update t.cells (c.start + c.copied)
        (c.call.buf.getD (c.call.done + c.copied) 0)
      copying := some { c with copied := c.copied + 1 } } : TxSide).Sound := by
  have hcopy := h.copying c hc
  have hfits := hcopy.fits
  have hwrap := hcopy.no_wrap
  refine ⟨h.in_lt, h.out_lt, h.fifo_le, ?_, h.space_le, h.done_le, ?_⟩
  · have hcell : c.start + c.copied = (t.inIdx + c.copied) % bufLen := by
      rw [hcopy.start, Nat.mod_eq_of_lt (by omega)]
    have hfree : IndexRing.used bufLen t.inIdx t.outIdx + c.copied < bufLen := by
      unfold used at hfits
      omega
    rw [← h.conveyed, waiting, waiting]
    simp only [hcell]
    rw [IndexRing.contents_update _ h.in_lt h.out_lt hfree]
  · rintro c' hc'
    rw [Option.some.injEq] at hc'
    subst hc'
    refine ⟨hcopy.writing, hcopy.start, hlt, hcopy.count_le, hfits, hwrap, ?_⟩
    intro j hj
    change Function.update t.cells _ _ (t.inIdx + j) = _
    rw [hcopy.start]
    rcases Nat.lt_succ_iff_lt_or_eq.mp hj with hbefore | rfl
    · rw [Function.update_of_ne (by omega)]
      exact hcopy.stored j hbefore
    · rw [Function.update_self]

/-- Moving {lit}`tx_in` appends the bytes that were copied. -/
theorem copied (h : t.Sound) {c : Copy} (hc : t.copying = some c) (hcount : c.copied = c.count)
    {accepted : List UInt8}
    (haccepted : accepted = t.accepted ++
      (List.range c.count).map fun j => c.call.buf.getD (c.call.done + j) 0) :
    ({ t with
      inIdx := (c.start + c.count) % bufLen
      accepted
      writing := some { c.call with done := c.call.done + c.count }
      copying := none } : TxSide).Sound := by
  have hcopy := h.copying c hc
  have hcells : window t.cells bufLen t.inIdx c.count =
      (List.range c.count).map fun j => c.call.buf.getD (c.call.done + j) 0 := by
    rw [IndexRing.window_run hcopy.no_wrap]
    apply List.map_congr_left
    intro j hj
    exact hcopy.stored j (by rw [hcount]; exact List.mem_range.mp hj)
  refine ⟨Nat.mod_lt _ bufLen_pos, h.out_lt, h.fifo_le, ?_, h.space_le, ?_, by simp⟩
  · have hadvance := IndexRing.contents_advance t.cells h.in_lt h.out_lt hcopy.fits
    rw [haccepted, ← h.conveyed, ← hcells, waiting, waiting]
    simp only [hcopy.start]
    rw [hadvance, List.append_assoc _ (IndexRing.contents _ _ _ _)]
  · rintro w hw
    rw [Option.some.injEq] at hw
    subst hw
    have hdone := count_eq (h.done_le _ hcopy.writing)
    have hle := hcopy.count_le
    change c.call.done + c.count ≤ c.call.buf.length
    omega

end Sound
end TxSide

/-! ## Steps -/

section Steps

variable {s : System}

/-- At first nothing is transmitted. -/
theorem transmits_init (timeout : Nat) : (System.init timeout).Transmits where
  in_lt := bufLen_pos
  out_lt := bufLen_pos
  fifo_le := Nat.zero_le _
  conveyed := by
    change [] ++ [] ++ IndexRing.contents _ bufLen 0 0 = []
    rw [(IndexRing.contents_eq_nil_iff bufLen_pos bufLen_pos).mpr rfl]
    rfl
  space_le _ hn := nomatch hn
  done_le _ hw := nomatch hw
  copying _ hc := nomatch hc

/-- A call that returns has accepted what it had put into the ring. -/
theorem transmits_return (h : s.Transmits) {o : Outcome}
    (ho : o.written = s.pc.writing.elim [] WriteCall.written) :
    ({ s with pc := .idle, outcomes := s.outcomes ++ [o] } : System).Transmits := by
  refine TxSide.Sound.recount h rfl (Nat.le_refl _) ?_ h.space_le (fun _ hw => nomatch hw)
  change List.flatMap Outcome.written (s.outcomes ++ [o]) ++ [] = s.accepted
  rw [List.append_nil, List.flatMap_append, List.flatMap_singleton, ho, System.accepted]

/-- A write that returns. -/
theorem transmits_returnWrite {w : WriteCall} (h : s.Transmits) (hw : s.pc.writing = some w) :
    (s.returnWrite w).Transmits :=
  transmits_return h (by rw [WriteCall.outcome_written, hw, Option.elim_some])

/-- A read that returns has written nothing. -/
theorem transmits_returnRead (h : s.Transmits) (r : ReadCall) (hw : s.pc.writing = none) :
    (s.returnRead r).Transmits :=
  transmits_return h (by rw [hw]; rfl)

/-- A close that returns. -/
theorem transmits_returnClose (h : s.Transmits) (nonblock : Bool) (code : ReturnCode)
    (hw : s.pc.writing = none) : (s.returnClose nonblock code).Transmits :=
  transmits_return h (by rw [hw]; rfl)

/-- Every step of the foreground keeps the transmit side sound. -/
theorem transmits_foreground (h : s.Transmits) : s.foreground.Transmits := by
  obtain ⟨uart, device, pie, pc, isr, outcomes⟩ := s
  cases pc with
  | idle => exact h
  | copyLoop w out =>
    simp only [System.foreground]
    split
    · split
      · exact h
      · exact TxSide.Sound.startCopy h rfl (Nat.min_le_left _ _) (Nat.min_le_right _ _)
    · exact h
  | memcpyTx w inIdx out n i =>
    simp only [System.foreground]
    split
    · rename_i hlt
      exact TxSide.Sound.copyByte h rfl hlt
    · rename_i hge
      have hcopy := h.copying _ rfl
      have hin : i = n := Nat.le_antisymm hcopy.copied_le (Nat.not_lt.mp hge)
      subst hin
      exact h
  | storeTxIn w inIdx out n =>
    refine TxSide.Sound.copied h rfl rfl ?_
    have hcopy := h.copying _ rfl
    have hdone := count_eq (h.done_le _ hcopy.writing)
    have hle := hcopy.count_le
    change _ ++ ({ w with done := w.done + n } : WriteCall).written = _
    rw [WriteCall.written_add w (by dsimp only at hdone hle; omega), ← List.append_assoc]
    rfl
  | disableAll k => exact h
  | loadEnable k context => exact h
  | storeEnable k context value => exact h
  | writeControl k context => exact h
  | enableAll k context =>
    cases k with
    | write w out =>
      simp only [System.foreground, System.afterKick]
      split
      · split
        · exact transmits_returnWrite h rfl
        · exact h
      · exact transmits_returnWrite h rfl
    | read r => exact transmits_returnRead h r rfl
  | spinTx w out =>
    simp only [System.foreground]
    split <;> exact h
  | spinTxHost w out =>
    simp only [System.foreground]
    split <;> exact h
  | leaveTx w out =>
    simp only [System.foreground]
    split
    · exact transmits_returnWrite h rfl
    · exact h
  | readLoop r =>
    simp only [System.foreground, System.afterCopy]
    split
    · split
      · exact h
      · split
        · exact transmits_returnRead h r rfl
        · exact h
    · exact h
  | memcpyRx r inIdx out n chunk =>
    simp only [System.foreground]
    split <;> exact h
  | storeRxOut r inIdx out n chunk =>
    simp only [System.foreground, System.afterCopy]
    split
    · exact h
    · split
      · exact h
      · split
        · exact transmits_returnRead h _ rfl
        · exact h
  | spinRx r inIdx =>
    simp only [System.foreground]
    split <;> exact h
  | spinRxHost r inIdx =>
    simp only [System.foreground]
    split <;> exact h
  | leaveRx r inIdx =>
    simp only [System.foreground]
    split
    · exact transmits_returnRead h r rfl
    · exact h
  | closeTx nonblock =>
    simp only [System.foreground]
    split
    · exact transmits_returnClose h nonblock _ rfl
    · exact h
  | closeHost nonblock =>
    simp only [System.foreground]
    split
    · split
      · exact transmits_returnClose h nonblock _ rfl
      · exact h
    · exact transmits_returnClose h nonblock _ rfl

/-- The interrupt routine counts on no space any more. -/
theorem transmits_quiet (h : s.Transmits) {isr : IsrPc} (hisr : isr.space = none) :
    ({ s with isr } : System).Transmits := by
  refine TxSide.Sound.seeSpace h isr.space ?_
  rw [hisr]
  simp

/-- The transmit half begins with the space that was read. -/
theorem transmits_afterReceive (h : s.Transmits) {control : UInt32}
    (hspace : s.device.writeFifo.length + controlSpace control ≤ writeDepth) :
    (s.afterReceive control).Transmits := by
  unfold System.afterReceive
  split
  · refine TxSide.Sound.seeSpace h (some (controlSpace control)) ?_
    rintro n hn
    rw [Option.some.injEq] at hn
    subst hn
    exact hspace
  · exact transmits_quiet h rfl

/-- Every step of the interrupt routine and of the alarm routine keeps the transmit side
sound. -/
theorem transmits_interrupt (h : s.Transmits) (pending : Pending) :
    (s.interrupt pending).Transmits := by
  obtain ⟨uart, device, pie, pc, isr, outcomes⟩ := s
  cases isr with
  | idle => exact h
  | readControl =>
    have hspace : device.writeFifo.length + controlSpace (device.control pending) ≤ writeDepth := by
      have hfifo : device.writeFifo.length ≤ writeDepth := h.fifo_le
      have hshown := device.control_wspace pending
      rw [controlSpace, controlWspaceMsk, WordBits.highHalf_toNat, hshown, Device.wspace]
      omega
    simp only [System.interrupt]
    split
    · exact transmits_quiet h rfl
    · split
      · refine TxSide.Sound.seeSpace h (some (controlSpace _)) ?_
        rintro n hn
        rw [Option.some.injEq] at hn
        subst hn
        exact hspace
      · exact transmits_afterReceive h hspace
  | receive control data =>
    simp only [System.interrupt]
    split
    · exact h
    · split
      · rw [Device.iordData_snd]
        exact h
      · rw [Device.iordData_snd]
        exact h
  | receiveDone control data =>
    simp only [System.interrupt]
    split
    · exact h
    · exact transmits_afterReceive h (h.space_le _ rfl)
  | receiveDummy control => exact transmits_afterReceive h (h.space_le _ rfl)
  | transmit space =>
    simp only [System.interrupt]
    split
    · rename_i hmore
      obtain ⟨n, rfl⟩ : ∃ n, space = n + 1 := ⟨space - 1, by omega⟩
      have hroom : device.writeFifo.length < writeDepth := by
        have := h.space_le _ rfl
        change device.writeFifo.length + (n + 1) ≤ writeDepth at this
        omega
      rw [Device.iowrData, if_pos hroom]
      exact TxSide.Sound.transmit h rfl hmore.2
    · split
      · exact transmits_quiet
          (s := { uart := _, device := _, pie, pc, isr := .transmit space, outcomes }) h rfl
      · exact transmits_quiet h rfl
  | transmitDummy => exact transmits_quiet h rfl
  | alarmRead =>
    simp only [System.interrupt]
    split
    · exact h
    · split <;> exact h
  | alarmWrite => exact h

/-- An {lit}`ioctl` transmits nothing. -/
theorem transmits_ioctl (h : s.Transmits) (hw : s.pc = .idle) (request : Request) :
    (s.ioctl request).Transmits := by
  obtain ⟨uart, device, pie, pc, isr, outcomes⟩ := s
  change pc = .idle at hw
  subst hw
  cases request with
  | setTimeout timeout =>
    simp only [System.ioctl]
    split
    · exact transmits_return h (o := .ioctl _ none (.ok 0)) rfl
    · exact transmits_return h (o := .ioctl _ none .eNotTty) rfl
  | getConnected =>
    simp only [System.ioctl]
    split
    · exact transmits_return h (o := .ioctl _ (some _) (.ok 0)) rfl
    · exact transmits_return h (o := .ioctl _ none .eNotTty) rfl
  | other => exact transmits_return h (o := .ioctl _ none .eNotTty) rfl

/-- A call that is not a write begins. -/
theorem transmits_begin (h : s.Transmits) {pc : Pc} (hidle : s.pc = .idle)
    (hw : pc.writing = none) (hc : pc.copying = none) : ({ s with pc } : System).Transmits := by
  have htx : ({ s with pc } : System).tx = s.tx := by
    simp only [System.tx, System.accepted, hidle, hw, hc]
    rfl
  rw [System.Transmits, htx]
  exact h

/-- Every action keeps the transmit side sound. -/
theorem transmits_step (h : s.Transmits) (a : Action) : (s.step a).Transmits := by
  have hhost : ∀ d : Device, d.fetched = s.device.fetched → d.writeFifo = s.device.writeFifo →
      ({ s with device := d } : System).Transmits := by
    intro d hfetched hfifo
    exact TxSide.Sound.fetch h (by rw [hfetched, hfifo]; rfl) (Nat.le_of_eq (by rw [hfifo]; rfl))
  refine System.step_rule a h ?_ ?_ ?_ ?_ ?_ ?_ ?_ ?_ ?_ ?_ ?_
  · intro hpc hisr buf nonblock
    refine TxSide.Sound.recount h rfl (Nat.le_refl _) ?_ h.space_le ?_
    · change _ ++ ({ buf, nonblock, done := 0 } : WriteCall).written = s.accepted
      rw [System.accepted, hpc]
      rfl
    · rintro w hw
      change some _ = some w at hw
      rw [Option.some.injEq] at hw
      subst hw
      exact Nat.zero_le _
  · intro hpc hisr size nonblock
    unfold System.startRead
    split
    · exact transmits_begin h hpc rfl rfl
    · exact transmits_returnRead h _ (by rw [hpc]; rfl)
  · intro hpc hisr nonblock
    exact transmits_begin h hpc rfl rfl
  · intro hpc hisr request
    exact transmits_ioctl h hpc request
  · intro _
    exact transmits_foreground h
  · intro _ _
    exact transmits_quiet h rfl
  · intro _ _
    exact transmits_quiet h rfl
  · intro pending _
    exact transmits_interrupt h pending
  · exact TxSide.Sound.fetch h s.device.hostFetch_conveyed s.device.hostFetch_length_le
  · intro byte
    unfold Device.hostSend
    split
    · exact hhost _ rfl rfl
    · exact h
  · exact hhost _ rfl rfl

/-- Along every run the bytes that writes have accepted are, in order and each once, those
the host has fetched, those in the device and those in the transmit ring; the interrupt
routine writes a byte only while the device has room for it. -/
theorem transmitted_run (timeout : Nat) (acts : List Action) :
    let s := (System.init timeout).run acts
    s.device.fetched ++ s.device.writeFifo ++
        IndexRing.contents s.uart.txBuf bufLen s.uart.txIn s.uart.txOut = s.accepted ∧
      s.device.writeFifo.length ≤ writeDepth ∧
      (∀ space, s.isr = .transmit (space + 1) → s.device.writeFifo.length < writeDepth) := by
  have h : ((System.init timeout).run acts).Transmits :=
    StepSystem.run_invariant (P := System.Transmits) (fun s a hs => transmits_step hs a)
      (transmits_init timeout) acts
  refine ⟨h.conveyed, h.fifo_le, ?_⟩
  intro space hspace
  have hroom := h.space_le (space + 1) (by rw [System.tx, hspace]; rfl)
  exact Nat.lt_of_lt_of_le (Nat.lt_add_of_pos_right (Nat.succ_pos space)) hroom

end Steps

end Fast
end JtagUart
end RadonMCU
