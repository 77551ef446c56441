import RadonMCU.JtagUart.Fast

/-!
# The receive side

What the host has sent is, at every moment and in order, what the reads have delivered, what
waits in the receive ring and what waits in the device.  A read copies bytes out of the ring
while the interrupt routine adds bytes to it; the cells it copies from are given back only
when it moves {lit}`rx_out`.

Main results:

- Theorem {lit}`RxSide.Sound.receive`: the interrupt routine moves the oldest byte of the
  device into the ring.
- Theorem {lit}`receives_step`: every action keeps the receive side sound.
- Theorem {lit}`received_run`: no byte that the device has taken from the host is lost,
  repeated or reordered, in any interleaving.
-/

namespace RadonMCU
namespace JtagUart
namespace Fast

open BoundedFifo WordBits

/-! ## The view of the receive side -/

/-- The bytes that a returned call has delivered. -/
def Outcome.delivered : Outcome → List UInt8
  | .read _ _ data _ => data
  | _ => []

/-- A {lit}`memcpy` out of the ring: {lit}`chunk` holds the first of {lit}`count` bytes from
the cell {lit}`start` on. -/
structure Take where
  call : ReadCall
  start : Nat
  count : Nat
  chunk : List UInt8

/-- The read that enables its interrupt. -/
def Kick.reading : Kick → Option ReadCall
  | .write _ _ => none
  | .read r => some r

namespace Pc

/-- The read in progress. -/
def reading : Pc → Option ReadCall
  | readLoop r | memcpyRx r _ _ _ _ | storeRxOut r _ _ _ _ => some r
  | spinRx r _ | spinRxHost r _ | leaveRx r _ => some r
  | disableAll k | loadEnable k _ | storeEnable k _ _ | writeControl k _ | enableAll k _ =>
    k.reading
  | _ => none

/-- The copy in progress. -/
def taking : Pc → Option Take
  | memcpyRx r _ out n chunk | storeRxOut r _ out n chunk =>
    some { call := r, start := out, count := n, chunk }
  | _ => none

/-- The copy that is about to be given back. -/
def taken : Pc → Option Take
  | storeRxOut r _ out n chunk => some { call := r, start := out, count := n, chunk }
  | _ => none

end Pc

namespace System

/-- All bytes that reads have delivered so far. -/
def delivered (s : System) : List UInt8 :=
  s.outcomes.flatMap Outcome.delivered ++ s.pc.reading.elim [] ReadCall.got

end System

/-- What the receive side consists of. -/
structure RxSide where
  inIdx : Nat
  outIdx : Nat
  cells : Nat → UInt8
  sent : List UInt8
  fifo : List UInt8
  delivered : List UInt8
  taking : Option Take
  taken : Option Take

/-- The receiving side of the system. -/
def System.rx (s : System) : RxSide where
  inIdx := s.uart.rxIn
  outIdx := s.uart.rxOut
  cells := s.uart.rxBuf
  sent := s.device.sent
  fifo := s.device.readFifo
  delivered := s.delivered
  taking := s.pc.taking
  taken := s.pc.taken

namespace RxSide

/-- The bytes that wait in the ring. -/
def waiting (t : RxSide) : List UInt8 :=
  IndexRing.contents t.cells bufLen t.inIdx t.outIdx

/-- The number of bytes that wait in the ring. -/
def used (t : RxSide) : Nat := IndexRing.used bufLen t.inIdx t.outIdx

end RxSide

/-- A copy reads the oldest bytes of the ring, from cells that do not wrap. -/
structure Take.Sound (c : Take) (t : RxSide) : Prop where
  start : c.start = t.outIdx
  length_le : c.chunk.length ≤ c.count
  stored : c.count ≤ t.used
  no_wrap : t.outIdx + c.count ≤ bufLen
  chunk_eq : c.chunk = t.waiting.take c.chunk.length

/-- The invariant of the receive side. -/
structure RxSide.Sound (t : RxSide) : Prop where
  in_lt : t.inIdx < bufLen
  out_lt : t.outIdx < bufLen
  fifo_le : t.fifo.length ≤ readDepth
  conveyed : t.delivered ++ t.waiting ++ t.fifo = t.sent
  taking : ∀ c, t.taking = some c → c.Sound t
  taken : ∀ c, t.taken = some c → t.taking = some c ∧ c.chunk.length = c.count

/-- The receive side of a system is sound. -/
def System.Receives (s : System) : Prop := s.rx.Sound

/-! ## Changes of the receive side -/

namespace RxSide
namespace Sound

variable {t : RxSide}

/-- A read begins, goes on or ends without touching the ring. -/
theorem restart (h : t.Sound) {delivered : List UInt8} (hdelivered : delivered = t.delivered) :
    ({ t with delivered, taking := none, taken := none } : RxSide).Sound where
  in_lt := h.in_lt
  out_lt := h.out_lt
  fifo_le := h.fifo_le
  conveyed := by
    rw [hdelivered]
    exact h.conveyed
  taking _ hc := nomatch hc
  taken _ hc := nomatch hc

/-- The host sends a byte that fits. -/
theorem send (h : t.Sound) (byte : UInt8) (hroom : t.fifo.length < readDepth) :
    ({ t with sent := t.sent ++ [byte], fifo := t.fifo ++ [byte] } : RxSide).Sound where
  in_lt := h.in_lt
  out_lt := h.out_lt
  fifo_le := by
    rw [List.length_append]
    exact hroom
  conveyed := by
    change t.delivered ++ t.waiting ++ (t.fifo ++ [byte]) = t.sent ++ [byte]
    rw [← h.conveyed, List.append_assoc _ t.fifo]
  taking c hc := ⟨(h.taking c hc).start, (h.taking c hc).length_le, (h.taking c hc).stored,
    (h.taking c hc).no_wrap, (h.taking c hc).chunk_eq⟩
  taken := h.taken

/-- The interrupt routine moves the oldest byte of the device into the ring, which has room
for it. -/
theorem receive (h : t.Sound) {byte : UInt8} {rest : List UInt8} (hfifo : t.fifo = byte :: rest)
    (hroom : (t.inIdx + 1) % bufLen ≠ t.outIdx) :
    ({ t with
      inIdx := (t.inIdx + 1) % bufLen
      cells := Function.update t.cells t.inIdx byte
      fifo := rest } : RxSide).Sound := by
  have hused : IndexRing.used bufLen t.inIdx t.outIdx < bufLen := IndexRing.used_lt h.in_lt
  have hnotFull := mt (IndexRing.next_eq_iff h.in_lt h.out_lt).mpr hroom
  have hfree : IndexRing.used bufLen t.inIdx t.outIdx + 1 < bufLen := by omega
  have hpush := IndexRing.contents_push t.cells h.in_lt h.out_lt hfree byte
  have hgrow := IndexRing.used_advance h.in_lt h.out_lt hfree
  refine ⟨Nat.mod_lt _ bufLen_pos, h.out_lt, ?_, ?_, ?_, h.taken⟩
  · have hle := h.fifo_le
    rw [hfifo, List.length_cons] at hle
    exact Nat.le_of_succ_le hle
  · rw [← h.conveyed, hfifo, waiting, waiting, hpush]
    simp
  · intro c hc
    have htake := h.taking c hc
    refine ⟨htake.start, htake.length_le, ?_, htake.no_wrap, ?_⟩
    · have hstored := htake.stored
      change c.count ≤ IndexRing.used bufLen ((t.inIdx + 1) % bufLen) t.outIdx
      rw [hgrow]
      exact Nat.le_succ_of_le hstored
    · have hlen : c.chunk.length ≤
          (IndexRing.contents t.cells bufLen t.inIdx t.outIdx).length := by
        rw [IndexRing.contents_length]
        exact Nat.le_trans htake.length_le htake.stored
      change _ = (IndexRing.contents _ bufLen ((t.inIdx + 1) % bufLen) t.outIdx).take _
      rw [hpush, List.take_append_of_le_length hlen]
      exact htake.chunk_eq

/-- A read that finds bytes starts to copy them. -/
theorem startTake (h : t.Sound) (htaken : t.taken = none) {r : ReadCall} {n : Nat}
    (hn : n ≤ IndexRing.filledRun bufLen t.inIdx t.outIdx) :
    ({ t with taking := some { call := r, start := t.outIdx, count := n, chunk := [] } } :
      RxSide).Sound where
  in_lt := h.in_lt
  out_lt := h.out_lt
  fifo_le := h.fifo_le
  conveyed := h.conveyed
  taking := by
    have hspec := IndexRing.filledRun_spec h.in_lt h.out_lt
    rintro c hc
    rw [Option.some.injEq] at hc
    subst hc
    refine ⟨rfl, Nat.zero_le _, ?_, ?_, rfl⟩
    · change n ≤ IndexRing.used bufLen t.inIdx t.outIdx
      omega
    · change t.outIdx + n ≤ bufLen
      omega
  taken c hc := by
    rw [htaken] at hc
    contradiction

/-- A byte is copied. -/
theorem takeByte (h : t.Sound) (htaken : t.taken = none) {c : Take} (hc : t.taking = some c)
    (hlt : c.chunk.length < c.count) :
    ({ t with
      taking := some { c with chunk := c.chunk ++ [t.cells (c.start + c.chunk.length)] } } :
      RxSide).Sound := by
  have htake := h.taking c hc
  have hstored := htake.stored
  have hwrap := htake.no_wrap
  have hlen : (c.chunk ++ [t.cells (c.start + c.chunk.length)]).length = c.chunk.length + 1 := by
    simp
  refine ⟨h.in_lt, h.out_lt, h.fifo_le, h.conveyed, ?_, ?_⟩
  · rintro c' hc'
    rw [Option.some.injEq] at hc'
    subst hc'
    refine ⟨htake.start, ?_, hstored, hwrap, ?_⟩
    · rw [hlen]
      exact hlt
    · have hprefix : c.chunk = window t.cells bufLen t.outIdx c.chunk.length := by
        have hle : c.chunk.length ≤ IndexRing.used bufLen t.inIdx t.outIdx :=
          Nat.le_trans htake.length_le hstored
        rw [← IndexRing.contents_take h.in_lt h.out_lt hle]
        exact htake.chunk_eq
      have hnext : c.chunk.length + 1 ≤ IndexRing.used bufLen t.inIdx t.outIdx :=
        Nat.le_trans hlt hstored
      change c.chunk ++ [_] = (IndexRing.contents t.cells bufLen t.inIdx t.outIdx).take
        (c.chunk ++ [t.cells (c.start + c.chunk.length)]).length
      rw [hlen, IndexRing.contents_take h.in_lt h.out_lt hnext, window_succ, ← hprefix,
        htake.start, Nat.mod_eq_of_lt (by omega)]
  · intro c' hc'
    rw [htaken] at hc'
    contradiction

/-- All bytes of a copy are copied. -/
theorem finishTake (h : t.Sound) {c : Take} (hc : t.taking = some c)
    (hge : ¬ c.chunk.length < c.count) : ({ t with taken := some c } : RxSide).Sound where
  in_lt := h.in_lt
  out_lt := h.out_lt
  fifo_le := h.fifo_le
  conveyed := h.conveyed
  taking c' hc' := ⟨(h.taking c' hc').start, (h.taking c' hc').length_le,
    (h.taking c' hc').stored, (h.taking c' hc').no_wrap, (h.taking c' hc').chunk_eq⟩
  taken := by
    rintro c' hc'
    rw [Option.some.injEq] at hc'
    subst hc'
    exact ⟨hc, Nat.le_antisymm (h.taking c hc).length_le (Nat.not_lt.mp hge)⟩

/-- Moving {lit}`rx_out` gives back the cells of the bytes that were copied. -/
theorem giveBack (h : t.Sound) {c : Take} (hc : t.taken = some c) {delivered : List UInt8}
    (hdelivered : delivered = t.delivered ++ c.chunk) :
    ({ t with
      outIdx := (c.start + c.count) % bufLen
      delivered
      taking := none
      taken := none } : RxSide).Sound := by
  obtain ⟨htaking, hlen⟩ := h.taken c hc
  have htake := h.taking c htaking
  refine ⟨h.in_lt, Nat.mod_lt _ bufLen_pos, h.fifo_le, ?_, nofun, nofun⟩
  have hsplit := IndexRing.contents_append t.cells h.in_lt h.out_lt htake.stored
  have hchunk : c.chunk = window t.cells bufLen t.outIdx c.count := by
    rw [← IndexRing.contents_take h.in_lt h.out_lt htake.stored, ← hlen]
    exact htake.chunk_eq
  rw [hdelivered, ← h.conveyed, waiting, waiting, hsplit, ← hchunk, htake.start]
  simp

end Sound
end RxSide

/-! ## Steps -/

section Steps

variable {s : System}

/-- At first nothing is received. -/
theorem receives_init (timeout : Nat) : (System.init timeout).Receives where
  in_lt := bufLen_pos
  out_lt := bufLen_pos
  fifo_le := Nat.zero_le _
  conveyed := by
    change [] ++ IndexRing.contents _ bufLen 0 0 ++ [] = []
    rw [(IndexRing.contents_eq_nil_iff bufLen_pos bufLen_pos).mpr rfl]
    rfl
  taking _ hc := nomatch hc
  taken _ hc := nomatch hc

/-- A call that returns has delivered what it had copied. -/
theorem receives_return (h : s.Receives) {o : Outcome}
    (ho : o.delivered = s.pc.reading.elim [] ReadCall.got) :
    ({ s with pc := .idle, outcomes := s.outcomes ++ [o] } : System).Receives := by
  refine RxSide.Sound.restart h ?_
  change List.flatMap Outcome.delivered (s.outcomes ++ [o]) ++ [] = s.delivered
  rw [List.append_nil, List.flatMap_append, List.flatMap_singleton, ho, System.delivered]

/-- A read that returns. -/
theorem receives_returnRead {r : ReadCall} (h : s.Receives) (hr : s.pc.reading = some r) :
    (s.returnRead r).Receives :=
  receives_return h (by rw [hr]; rfl)

/-- A write that returns. -/
theorem receives_returnWrite (h : s.Receives) (w : WriteCall) (hr : s.pc.reading = none) :
    (s.returnWrite w).Receives :=
  receives_return h (by rw [hr]; rfl)

/-- A close that returns. -/
theorem receives_returnClose (h : s.Receives) (nonblock : Bool) (code : ReturnCode)
    (hr : s.pc.reading = none) : (s.returnClose nonblock code).Receives :=
  receives_return h (by rw [hr]; rfl)

/-- The place of the foreground changes between two copies. -/
theorem receives_goto (h : s.Receives) {pc : Pc}
    (hr : pc.reading.elim [] ReadCall.got = s.pc.reading.elim [] ReadCall.got)
    (htaking : pc.taking = none) (htaken : pc.taken = none) :
    ({ s with pc } : System).Receives := by
  have hrx : ({ s with pc } : System).rx = { s.rx with taking := none, taken := none } := by
    simp only [System.rx, System.delivered, hr, htaking, htaken]
  rw [System.Receives, hrx]
  exact RxSide.Sound.restart h rfl

/-- What a read does when no more bytes are there. -/
theorem receives_afterCopy {r : ReadCall} (h : s.Receives) (hr : s.pc.reading = some r)
    (inIdx : Nat) : (s.afterCopy r inIdx).Receives := by
  unfold System.afterCopy
  split
  · exact receives_goto h (by rw [hr]; rfl) rfl rfl
  · split
    · exact receives_returnRead h hr
    · exact receives_goto h (by rw [hr]; rfl) rfl rfl

/-- Every step of the foreground keeps the receive side sound. -/
theorem receives_foreground (h : s.Receives) : s.foreground.Receives := by
  obtain ⟨uart, device, pie, pc, isr, outcomes⟩ := s
  cases pc with
  | idle => exact h
  | copyLoop w out =>
    simp only [System.foreground]
    split
    · split <;> exact h
    · exact h
  | memcpyTx w inIdx out n i =>
    simp only [System.foreground]
    split <;> exact h
  | storeTxIn w inIdx out n => exact h
  | disableAll k => exact h
  | loadEnable k context => exact h
  | storeEnable k context value => exact h
  | writeControl k context => exact h
  | enableAll k context =>
    cases k with
    | write w out =>
      simp only [System.foreground, System.afterKick]
      split
      · split
        · exact receives_returnWrite h w rfl
        · exact h
      · exact receives_returnWrite h w rfl
    | read r => exact receives_returnRead h rfl
  | spinTx w out =>
    simp only [System.foreground]
    split <;> exact h
  | spinTxHost w out =>
    simp only [System.foreground]
    split <;> exact h
  | leaveTx w out =>
    simp only [System.foreground]
    split
    · exact receives_returnWrite h w rfl
    · exact h
  | readLoop r =>
    simp only [System.foreground]
    split
    · exact receives_afterCopy h rfl _
    · exact RxSide.Sound.startTake h rfl (Nat.min_le_left _ _)
  | memcpyRx r inIdx out n chunk =>
    simp only [System.foreground]
    split
    · rename_i hlt
      exact RxSide.Sound.takeByte h rfl rfl hlt
    · rename_i hge
      exact RxSide.Sound.finishTake h rfl hge
  | storeRxOut r inIdx out n chunk =>
    have hback := RxSide.Sound.giveBack h rfl
      (List.append_assoc (outcomes.flatMap Outcome.delivered) r.got chunk).symm
    simp only [System.foreground]
    split
    · exact hback
    · exact receives_afterCopy
        (s := { uart := { uart with rxOut := (out + n) % bufLen }, device, pie,
                pc := .readLoop { r with got := r.got ++ chunk }, isr, outcomes })
        hback rfl inIdx
  | spinRx r inIdx =>
    simp only [System.foreground]
    split <;> exact h
  | spinRxHost r inIdx =>
    simp only [System.foreground]
    split <;> exact h
  | leaveRx r inIdx =>
    simp only [System.foreground]
    split
    · exact receives_returnRead h rfl
    · exact h
  | closeTx nonblock =>
    simp only [System.foreground]
    split
    · exact receives_returnClose h nonblock _ rfl
    · exact h
  | closeHost nonblock =>
    simp only [System.foreground]
    split
    · split
      · exact receives_returnClose h nonblock _ rfl
      · exact h
    · exact receives_returnClose h nonblock _ rfl

/-- The interrupt routine after its receiving part. -/
theorem receives_afterReceive (h : s.Receives) (control : UInt32) :
    (s.afterReceive control).Receives := by
  unfold System.afterReceive
  split <;> exact h

/-- Every step of the interrupt routine and of the alarm routine keeps the receive side
sound. -/
theorem receives_interrupt (h : s.Receives) (pending : Pending) :
    (s.interrupt pending).Receives := by
  obtain ⟨uart, device, pie, pc, isr, outcomes⟩ := s
  cases isr with
  | idle => exact h
  | readControl =>
    simp only [System.interrupt]
    split
    · exact h
    · split
      · exact h
      · exact receives_afterReceive h _
  | receive control data =>
    simp only [System.interrupt]
    split
    · exact h
    · rename_i hroom
      cases hfifo : device.readFifo with
      | nil =>
        have hinvalid : (0 : UInt32) &&& dataRvalidMsk = 0 := by decide
        rw [Device.iordData_nil hfifo, if_pos hinvalid]
        exact h
      | cons byte rest =>
        obtain ⟨word, hread, hvalid, hbyte, -⟩ := Device.iordData_cons hfifo h.fifo_le
        rw [hread]
        dsimp only
        rw [if_neg ((and_mask_ne_zero_iff (k := 15) rfl).mpr hvalid), hbyte]
        exact RxSide.Sound.receive h hfifo hroom
  | receiveDone control data =>
    simp only [System.interrupt]
    split
    · exact h
    · exact receives_afterReceive h control
  | receiveDummy control => exact receives_afterReceive h control
  | transmit space =>
    simp only [System.interrupt]
    split
    · unfold Device.iowrData
      split <;> exact h
    · split <;> exact h
  | transmitDummy => exact h
  | alarmRead =>
    simp only [System.interrupt]
    split
    · exact h
    · split <;> exact h
  | alarmWrite => exact h

/-- An {lit}`ioctl` receives nothing. -/
theorem receives_ioctl (h : s.Receives) (hr : s.pc = .idle) (request : Request) :
    (s.ioctl request).Receives := by
  obtain ⟨uart, device, pie, pc, isr, outcomes⟩ := s
  change pc = .idle at hr
  subst hr
  cases request with
  | setTimeout timeout =>
    simp only [System.ioctl]
    split
    · exact receives_return h (o := .ioctl _ none (.ok 0)) rfl
    · exact receives_return h (o := .ioctl _ none .eNotTty) rfl
  | getConnected =>
    simp only [System.ioctl]
    split
    · exact receives_return h (o := .ioctl _ (some _) (.ok 0)) rfl
    · exact receives_return h (o := .ioctl _ none .eNotTty) rfl
  | other => exact receives_return h (o := .ioctl _ none .eNotTty) rfl

/-- Every action keeps the receive side sound. -/
theorem receives_step (h : s.Receives) (a : Action) : (s.step a).Receives := by
  refine System.step_rule a h ?_ ?_ ?_ ?_ ?_ ?_ ?_ ?_ ?_ ?_ ?_
  · intro hpc _ buf nonblock
    exact receives_goto h (by rw [hpc]; rfl) rfl rfl
  · intro hpc _ size nonblock
    unfold System.startRead
    split
    · exact receives_goto h (by rw [hpc]; rfl) rfl rfl
    · exact receives_return h (by rw [hpc]; rfl)
  · intro hpc _ nonblock
    exact receives_goto h (by rw [hpc]; rfl) rfl rfl
  · intro hpc _ request
    exact receives_ioctl h hpc request
  · intro _
    exact receives_foreground h
  · intro _ _
    exact h
  · intro _ _
    exact h
  · intro pending _
    exact receives_interrupt h pending
  · unfold Device.hostFetch
    split <;> exact h
  · intro byte
    unfold Device.hostSend
    split
    · rename_i hroom
      exact RxSide.Sound.send h byte hroom
    · exact h
  · exact h

/-- Along every run the bytes that the device has taken from the host are, in order and each
once, those that reads have delivered, those in the receive ring and those in the device. -/
theorem received_run (timeout : Nat) (acts : List Action) :
    let s := (System.init timeout).run acts
    s.delivered ++ IndexRing.contents s.uart.rxBuf bufLen s.uart.rxIn s.uart.rxOut ++
        s.device.readFifo = s.device.sent := by
  have h : ((System.init timeout).run acts).Receives :=
    StepSystem.run_invariant (P := System.Receives) (fun s a hs => receives_step hs a)
      (receives_init timeout) acts
  exact h.conveyed

end Steps

end Fast
end JtagUart
end RadonMCU
