import RadonMCU.Foundations.IndexRing
import RadonMCU.Foundations.StepSystem
import RadonMCU.JtagUart.Device

/-!
# The interrupt-driven driver

The driver without {lit}`ALTERA_AVALON_JTAG_UART_SMALL`.
{lit}`altera_avalon_jtag_uart_write`, {lit}`altera_avalon_jtag_uart_read`,
{lit}`altera_avalon_jtag_uart_close` and {lit}`altera_avalon_jtag_uart_ioctl` run in the
foreground and share two rings with the interrupt routine; a blocking call spins until the
interrupt routine has moved the index it waits for.

One step of the foreground is one access to memory that the interrupt routine shares, or to
the device; the interrupt routine may come between any two of them while interrupts are
enabled.  It runs to its end before the foreground goes on, so one of its steps is one
access to the device, which the host also changes.  An action that is not enabled leaves
the system as it is.

Semaphores and event flags do nothing without an operating system and are left out, and so
are the messages of {lit}`alt_log_printf.h`.

Main results:

- Theorem {lit}`step_rule`: what has to be shown for a property to survive every action.
-/

namespace RadonMCU
namespace JtagUart
namespace Fast

open WordBits

/-- {lit}`ALTERA_AVALON_JTAG_UART_BUF_LEN`. -/
def bufLen : Nat := 2048

theorem bufLen_pos : 0 < bufLen := by decide

/-- {lit}`INT_MAX`. -/
def intMax : Nat := 2147483647

/-- The data of {lit}`altera_avalon_jtag_uart_state`. -/
structure UartState where
  timeout : Nat
  irqEnable : UInt32
  hostInactive : Nat
  rxIn : Nat
  rxOut : Nat
  txIn : Nat
  txOut : Nat
  rxBuf : Nat → UInt8
  txBuf : Nat → UInt8

/-! ## Calls -/

/-- What a call returns: a number, or minus an error number. -/
inductive ReturnCode where
  | ok (n : Nat)
  | eWouldBlock
  | eIo
  | eNotTty
deriving DecidableEq, Repr

/-- The requests of {lit}`ioctl`. -/
inductive Request where
  /-- {lit}`TIOCSTIMEOUT`, with what {lit}`arg` points to. -/
  | setTimeout (timeout : Int)
  /-- {lit}`TIOCGCONNECTED`. -/
  | getConnected
  | other
deriving DecidableEq, Repr

/-- The arguments of a {lit}`write`, and the bytes before {lit}`ptr`. -/
structure WriteCall where
  buf : List UInt8
  nonblock : Bool
  done : Nat
deriving DecidableEq, Repr

/-- {lit}`count`. -/
def WriteCall.count (w : WriteCall) : Nat := w.buf.length - w.done

/-- The arguments of a {lit}`read`, and the bytes it has stored. -/
structure ReadCall where
  size : Nat
  nonblock : Bool
  got : List UInt8
deriving DecidableEq, Repr

/-- {lit}`space`. -/
def ReadCall.space (r : ReadCall) : Nat := r.size - r.got.length

/-- A call that has returned. -/
inductive Outcome where
  | write (buf : List UInt8) (nonblock : Bool) (code : ReturnCode)
  | read (size : Nat) (nonblock : Bool) (data : List UInt8) (code : ReturnCode)
  | close (nonblock : Bool) (code : ReturnCode)
  /-- With the value stored through {lit}`arg`, if any. -/
  | ioctl (request : Request) (value : Option Nat) (code : ReturnCode)
deriving DecidableEq, Repr

/-- The return value of a write: the bytes it has put into the ring, or an error. -/
def WriteCall.code (w : WriteCall) : ReturnCode :=
  if w.done ≠ 0 then .ok w.done else if w.nonblock then .eWouldBlock else .eIo

/-- The return value of a read: the bytes it has taken, or an error. -/
def ReadCall.code (r : ReadCall) : ReturnCode :=
  if r.got ≠ [] then .ok r.got.length else if r.nonblock then .eWouldBlock else .eIo

/-- The end of a {lit}`write`. -/
def WriteCall.outcome (w : WriteCall) : Outcome := .write w.buf w.nonblock w.code

/-- The end of a {lit}`read`. -/
def ReadCall.outcome (r : ReadCall) : Outcome := .read r.size r.nonblock r.got r.code

/-- The section that enables an interrupt, and the call it belongs to. -/
inductive Kick where
  | write (w : WriteCall) (out : Nat)
  | read (r : ReadCall)
deriving DecidableEq, Repr

/-- The enable bit that the call sets. -/
def Kick.mask : Kick → UInt32
  | .write _ _ => controlWeMsk
  | .read _ => controlReMsk

/-! ## Program counters -/

/-- Where the foreground is; each constructor holds the locals that it needs later. -/
inductive Pc where
  | idle
  /-- {lit}`while (count > 0)`, and the reads of {lit}`tx_in` and {lit}`tx_out`. -/
  | copyLoop (w : WriteCall) (out : Nat)
  | memcpyTx (w : WriteCall) (inIdx out n i : Nat)
  | storeTxIn (w : WriteCall) (inIdx out n : Nat)
  | disableAll (k : Kick)
  | loadEnable (k : Kick) (context : Bool)
  | storeEnable (k : Kick) (context : Bool) (value : UInt32)
  | writeControl (k : Kick) (context : Bool)
  | enableAll (k : Kick) (context : Bool)
  /-- {lit}`out == sp->tx_out` in the spin loop. -/
  | spinTx (w : WriteCall) (out : Nat)
  /-- {lit}`sp->host_inactive < sp->timeout` in the spin loop. -/
  | spinTxHost (w : WriteCall) (out : Nat)
  /-- {lit}`if (sp->host_inactive)`. -/
  | leaveTx (w : WriteCall) (out : Nat)
  /-- The reads of {lit}`rx_in` and {lit}`rx_out`. -/
  | readLoop (r : ReadCall)
  | memcpyRx (r : ReadCall) (inIdx out n : Nat) (chunk : List UInt8)
  | storeRxOut (r : ReadCall) (inIdx out n : Nat) (chunk : List UInt8)
  | spinRx (r : ReadCall) (inIdx : Nat)
  | spinRxHost (r : ReadCall) (inIdx : Nat)
  /-- {lit}`if (in == sp->rx_in)`. -/
  | leaveRx (r : ReadCall) (inIdx : Nat)
  /-- {lit}`sp->tx_out != sp->tx_in` in {lit}`close`. -/
  | closeTx (nonblock : Bool)
  /-- {lit}`sp->host_inactive < sp->timeout` in {lit}`close`. -/
  | closeHost (nonblock : Bool)
deriving DecidableEq

/-- The space that a value of the control register shows. -/
def controlSpace (control : UInt32) : Nat := ((control &&& controlWspaceMsk) >>> 16).toNat

/-- Where the interrupt routine or the alarm routine is. -/
inductive IsrPc where
  | idle
  | readControl
  | receive (control data : UInt32)
  | receiveDone (control data : UInt32)
  | receiveDummy (control : UInt32)
  | transmit (space : Nat)
  | transmitDummy
  | alarmRead
  | alarmWrite
deriving DecidableEq, Repr

/-! ## The system -/

/-- The driver, the device, the interrupt enable of the processor, and both program
counters; beside them the calls that have returned. -/
structure System where
  uart : UartState
  device : Device
  pie : Bool
  pc : Pc
  isr : IsrPc
  outcomes : List Outcome

namespace System

/-- A write returns. -/
def returnWrite (s : System) (w : WriteCall) : System :=
  { s with pc := .idle, outcomes := s.outcomes ++ [w.outcome] }

/-- A read returns. -/
def returnRead (s : System) (r : ReadCall) : System :=
  { s with pc := .idle, outcomes := s.outcomes ++ [r.outcome] }

/-- A close returns. -/
def returnClose (s : System) (nonblock : Bool) (code : ReturnCode) : System :=
  { s with pc := .idle, outcomes := s.outcomes ++ [.close nonblock code] }

/-- The end of the inner copy loop of {lit}`read`. -/
def afterCopy (s : System) (r : ReadCall) (inIdx : Nat) : System :=
  if r.got ≠ [] then { s with pc := .disableAll (.read r) }
  else if r.nonblock then s.returnRead r
  else { s with pc := .spinRx r inIdx }

/-- What follows the section that enables an interrupt. -/
def afterKick (s : System) : Kick → System
  | .write w out =>
    if w.count > 0 then
      if w.nonblock then s.returnWrite w else { s with pc := .spinTx w out }
    else s.returnWrite w
  | .read r => s.returnRead r

/-- One step of the foreground. -/
def foreground (s : System) : System :=
  match s.pc with
  | .idle => s
  | .copyLoop w out =>
    if w.count > 0 then
      let n := IndexRing.freeRun bufLen s.uart.txIn s.uart.txOut
      if n = 0 then { s with pc := .disableAll (.write w s.uart.txOut) }
      else { s with pc := .memcpyTx w s.uart.txIn s.uart.txOut (min n w.count) 0 }
    else { s with pc := .disableAll (.write w out) }
  | .memcpyTx w inIdx out n i =>
    if i < n then
      { s with
        uart := { s.uart with
          txBuf := Function.update s.uart.txBuf (inIdx + i) (w.buf.getD (w.done + i) 0) }
        pc := .memcpyTx w inIdx out n (i + 1) }
    else { s with pc := .storeTxIn w inIdx out n }
  | .storeTxIn w inIdx out n =>
    { s with
      uart := { s.uart with txIn := (inIdx + n) % bufLen }
      pc := .copyLoop { w with done := w.done + n } out }
  | .disableAll k => { s with pie := false, pc := .loadEnable k s.pie }
  | .loadEnable k context => { s with pc := .storeEnable k context s.uart.irqEnable }
  | .storeEnable k context value =>
    { s with
      uart := { s.uart with irqEnable := value ||| k.mask }
      pc := .writeControl k context }
  | .writeControl k context =>
    { s with device := s.device.iowrControl s.uart.irqEnable, pc := .enableAll k context }
  | .enableAll k context => { s with pie := context }.afterKick k
  | .spinTx w out =>
    if out = s.uart.txOut then { s with pc := .spinTxHost w out }
    else { s with pc := .leaveTx w out }
  | .spinTxHost w out =>
    if s.uart.hostInactive < s.uart.timeout then { s with pc := .spinTx w out }
    else { s with pc := .leaveTx w out }
  | .leaveTx w out =>
    if s.uart.hostInactive ≠ 0 then s.returnWrite w else { s with pc := .copyLoop w out }
  | .readLoop r =>
    let n := IndexRing.filledRun bufLen s.uart.rxIn s.uart.rxOut
    if n = 0 then s.afterCopy r s.uart.rxIn
    else { s with pc := .memcpyRx r s.uart.rxIn s.uart.rxOut (min n r.space) [] }
  | .memcpyRx r inIdx out n chunk =>
    if chunk.length < n then
      { s with pc := .memcpyRx r inIdx out n (chunk ++ [s.uart.rxBuf (out + chunk.length)]) }
    else { s with pc := .storeRxOut r inIdx out n chunk }
  | .storeRxOut r inIdx out n chunk =>
    let r := { r with got := r.got ++ chunk }
    let s := { s with uart := { s.uart with rxOut := (out + n) % bufLen } }
    if r.space > 0 then { s with pc := .readLoop r } else s.afterCopy r inIdx
  | .spinRx r inIdx =>
    if inIdx = s.uart.rxIn then { s with pc := .spinRxHost r inIdx }
    else { s with pc := .leaveRx r inIdx }
  | .spinRxHost r inIdx =>
    if s.uart.hostInactive < s.uart.timeout then { s with pc := .spinRx r inIdx }
    else { s with pc := .leaveRx r inIdx }
  | .leaveRx r inIdx =>
    if inIdx = s.uart.rxIn then s.returnRead r else { s with pc := .readLoop r }
  | .closeTx nonblock =>
    if s.uart.txOut = s.uart.txIn then s.returnClose nonblock (.ok 0)
    else { s with pc := .closeHost nonblock }
  | .closeHost nonblock =>
    if s.uart.hostInactive < s.uart.timeout then
      if nonblock then s.returnClose nonblock .eWouldBlock else { s with pc := .closeTx nonblock }
    else s.returnClose nonblock (.ok 0)

/-- The transmit half of {lit}`altera_avalon_jtag_uart_irq`, if its interrupt is
pending. -/
def afterReceive (s : System) (control : UInt32) : System :=
  if control &&& controlWiMsk ≠ 0 then { s with isr := .transmit (controlSpace control) }
  else { s with isr := .readControl }

/-- One step of {lit}`altera_avalon_jtag_uart_irq` or of
{lit}`altera_avalon_jtag_uart_timeout`. -/
def interrupt (s : System) (pending : Pending) : System :=
  match s.isr with
  | .idle => s
  | .readControl =>
    let control := s.device.control pending
    if control &&& (controlRiMsk ||| controlWiMsk) = 0 then { s with isr := .idle }
    else if control &&& controlRiMsk ≠ 0 then
      { s with isr := .receive control ((1 : UInt32) <<< 16) }
    else s.afterReceive control
  | .receive control data =>
    let next := (s.uart.rxIn + 1) % bufLen
    if next = s.uart.rxOut then { s with isr := .receiveDone control data }
    else
      let read := s.device.iordData
      if read.1 &&& dataRvalidMsk = 0 then
        { s with device := read.2, isr := .receiveDone control read.1 }
      else
        { s with
          uart := { s.uart with
            rxBuf := Function.update s.uart.rxBuf s.uart.rxIn (read.1 &&& dataDataMsk).toUInt8
            rxIn := (s.uart.rxIn + 1) % bufLen }
          device := read.2
          isr := .receive control read.1 }
  | .receiveDone control data =>
    if data &&& dataRavailMsk ≠ 0 then
      let irqEnable := s.uart.irqEnable &&& ~~~controlReMsk
      { s with
        uart := { s.uart with irqEnable }
        device := s.device.iowrControl irqEnable
        isr := .receiveDummy control }
    else s.afterReceive control
  | .receiveDummy control => s.afterReceive control
  | .transmit space =>
    if space > 0 ∧ s.uart.txOut ≠ s.uart.txIn then
      { s with
        uart := { s.uart with txOut := (s.uart.txOut + 1) % bufLen }
        device := s.device.iowrData (s.uart.txBuf s.uart.txOut)
        isr := .transmit (space - 1) }
    else if space > 0 then
      let irqEnable := s.uart.irqEnable &&& ~~~controlWeMsk
      { s with
        uart := { s.uart with irqEnable }
        device := s.device.iowrControl irqEnable
        isr := .transmitDummy }
    else { s with isr := .readControl }
  | .transmitDummy => { s with isr := .readControl }
  | .alarmRead =>
    if s.device.control pending &&& controlAcMsk ≠ 0 then { s with isr := .alarmWrite }
    else if s.uart.hostInactive < intMax - 2 then
      { s with
        uart := { s.uart with hostInactive := s.uart.hostInactive + 1 }
        isr := .idle }
    else { s with isr := .idle }
  | .alarmWrite =>
    { s with
      uart := { s.uart with hostInactive := 0 }
      device := s.device.iowrControl (s.uart.irqEnable ||| controlAcMsk)
      isr := .idle }

end System

/-- What can happen next. -/
inductive Action where
  | write (buf : List UInt8) (nonblock : Bool)
  | read (size : Nat) (nonblock : Bool)
  | close (nonblock : Bool)
  | ioctl (request : Request)
  | foreground
  /-- The processor takes an interrupt of the device. -/
  | irq
  /-- The system clock calls the alarm routine. -/
  | alarm
  /-- The routine goes on; the device sees these conditions if its control register is
  read. -/
  | interrupt (pending : Pending)
  | hostFetch
  | hostSend (byte : UInt8)
  | hostActivity
deriving DecidableEq, Repr

namespace System

/-- After {lit}`altera_avalon_jtag_uart_init`, with a given timeout. -/
def init (timeout : Nat) : System where
  uart :=
    { timeout
      irqEnable := controlReMsk
      hostInactive := 0
      rxIn := 0
      rxOut := 0
      txIn := 0
      txOut := 0
      rxBuf := fun _ => 0
      txBuf := fun _ => 0 }
  device :=
    { readFifo := []
      writeFifo := []
      enables := controlReMsk
      active := false
      sent := []
      fetched := [] }
  pie := true
  pc := .idle
  isr := .idle
  outcomes := []

/-- The first step of a {lit}`read` tests its size. -/
def startRead (s : System) (r : ReadCall) : System :=
  if r.space > 0 then { s with pc := .readLoop r } else s.returnRead r

/-- {lit}`altera_avalon_jtag_uart_ioctl`. -/
def ioctl (s : System) (request : Request) : System :=
  let notTty := { s with outcomes := s.outcomes ++ [.ioctl request none .eNotTty] }
  match request with
  | .setTimeout timeout =>
    if s.uart.timeout ≠ intMax then
      { s with
        uart := { s.uart with
          timeout := if timeout ≥ 2 ∧ timeout < intMax then timeout.toNat else intMax - 1 }
        outcomes := s.outcomes ++ [.ioctl request none (.ok 0)] }
    else notTty
  | .getConnected =>
    if s.uart.timeout ≠ intMax then
      { s with
        outcomes := s.outcomes ++
          [.ioctl request (some (if s.uart.hostInactive < s.uart.timeout then 1 else 0))
            (.ok 0)] }
    else notTty
  | .other => notTty

/-- The actions.  The foreground does nothing while an interrupt is served. -/
def step (s : System) : Action → System
  | .write buf nonblock =>
    if s.pc = .idle ∧ s.isr = .idle then
      { s with pc := .copyLoop { buf, nonblock, done := 0 } 0 }
    else s
  | .read size nonblock =>
    if s.pc = .idle ∧ s.isr = .idle then s.startRead { size, nonblock, got := [] } else s
  | .close nonblock =>
    if s.pc = .idle ∧ s.isr = .idle then { s with pc := .closeTx nonblock } else s
  | .ioctl request => if s.pc = .idle ∧ s.isr = .idle then s.ioctl request else s
  | .foreground => if s.isr = .idle then s.foreground else s
  | .irq => if s.isr = .idle ∧ s.pie then { s with isr := .readControl } else s
  | .alarm => if s.isr = .idle ∧ s.pie then { s with isr := .alarmRead } else s
  | .interrupt pending => s.interrupt pending
  | .hostFetch => { s with device := s.device.hostFetch }
  | .hostSend byte => { s with device := s.device.hostSend byte }
  | .hostActivity => { s with device := s.device.hostActivity }

/-- The system after some actions. -/
abbrev run (s : System) (acts : List Action) : System := StepSystem.run step s acts

/-- A property survives an action if it survives what the action does when it is
enabled. -/
theorem step_rule {P : System → Prop} {s : System} (a : Action) (hs : P s)
    (hwrite : s.pc = .idle → s.isr = .idle → ∀ buf nonblock,
      P { s with pc := .copyLoop { buf, nonblock, done := 0 } 0 })
    (hread : s.pc = .idle → s.isr = .idle → ∀ size nonblock,
      P (s.startRead { size, nonblock, got := [] }))
    (hclose : s.pc = .idle → s.isr = .idle → ∀ nonblock, P { s with pc := .closeTx nonblock })
    (hioctl : s.pc = .idle → s.isr = .idle → ∀ request, P (s.ioctl request))
    (hforeground : s.isr = .idle → P s.foreground)
    (hirq : s.isr = .idle → s.pie = true → P { s with isr := .readControl })
    (halarm : s.isr = .idle → s.pie = true → P { s with isr := .alarmRead })
    (hinterrupt : ∀ pending, a = .interrupt pending → P (s.interrupt pending))
    (hfetch : P { s with device := s.device.hostFetch })
    (hsend : ∀ byte, P { s with device := s.device.hostSend byte })
    (hactivity : P { s with device := s.device.hostActivity }) : P (s.step a) := by
  cases a with
  | write buf nonblock =>
    rw [step]
    split
    · rename_i hidle
      exact hwrite hidle.1 hidle.2 buf nonblock
    · exact hs
  | read size nonblock =>
    rw [step]
    split
    · rename_i hidle
      exact hread hidle.1 hidle.2 size nonblock
    · exact hs
  | close nonblock =>
    rw [step]
    split
    · rename_i hidle
      exact hclose hidle.1 hidle.2 nonblock
    · exact hs
  | ioctl request =>
    rw [step]
    split
    · rename_i hidle
      exact hioctl hidle.1 hidle.2 request
    · exact hs
  | foreground =>
    rw [step]
    split
    · rename_i hidle
      exact hforeground hidle
    · exact hs
  | irq =>
    rw [step]
    split
    · rename_i henabled
      exact hirq henabled.1 henabled.2
    · exact hs
  | alarm =>
    rw [step]
    split
    · rename_i henabled
      exact halarm henabled.1 henabled.2
    · exact hs
  | interrupt pending => exact hinterrupt pending rfl
  | hostFetch => exact hfetch
  | hostSend byte => exact hsend byte
  | hostActivity => exact hactivity

end System

end Fast
end JtagUart
end RadonMCU
