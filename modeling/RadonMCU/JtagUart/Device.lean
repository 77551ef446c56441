import RadonMCU.Foundations.WordBits

/-!
# The JTAG UART

The registers of {lit}`altera_avalon_jtag_uart_regs.h` over the two FIFOs of the device.  The
host at the other end takes bytes from the write FIFO and puts bytes into the read FIFO; it
keeps a byte that does not fit.  A byte written to a full write FIFO is lost.

The device tells in its control register which interrupts are pending; when it raises
them is left open here.

Main results:

- Theorem {lit}`control_wspace`: the control register shows the space of the write FIFO.
- Theorems {lit}`iordData_nil` and {lit}`iordData_cons`: what a read of the data register
  gives.
-/

namespace RadonMCU
namespace JtagUart

open WordBits

/-! ## Constants -/

/-- {lit}`JTAG_UART_WRITE_DEPTH`. -/
def writeDepth : Nat := 64

/-- {lit}`JTAG_UART_READ_DEPTH`. -/
def readDepth : Nat := 64

/-- {lit}`ALTERA_AVALON_JTAG_UART_DATA_DATA_MSK`. -/
def dataDataMsk : UInt32 := 0x000000FF

/-- {lit}`ALTERA_AVALON_JTAG_UART_DATA_RVALID_MSK`. -/
def dataRvalidMsk : UInt32 := 0x00008000

/-- {lit}`ALTERA_AVALON_JTAG_UART_DATA_RAVAIL_MSK`. -/
def dataRavailMsk : UInt32 := 0xFFFF0000

/-- {lit}`ALTERA_AVALON_JTAG_UART_CONTROL_RE_MSK`. -/
def controlReMsk : UInt32 := 0x00000001

/-- {lit}`ALTERA_AVALON_JTAG_UART_CONTROL_WE_MSK`. -/
def controlWeMsk : UInt32 := 0x00000002

/-- {lit}`ALTERA_AVALON_JTAG_UART_CONTROL_RI_MSK`. -/
def controlRiMsk : UInt32 := 0x00000100

/-- {lit}`ALTERA_AVALON_JTAG_UART_CONTROL_WI_MSK`. -/
def controlWiMsk : UInt32 := 0x00000200

/-- {lit}`ALTERA_AVALON_JTAG_UART_CONTROL_AC_MSK`. -/
def controlAcMsk : UInt32 := 0x00000400

/-- {lit}`ALTERA_AVALON_JTAG_UART_CONTROL_WSPACE_MSK`. -/
def controlWspaceMsk : UInt32 := 0xFFFF0000

/-! ## The device -/

/-- The FIFOs, the interrupt enables and the activity bit; beside them what the host has
sent and fetched so far. -/
structure Device where
  readFifo : List UInt8
  writeFifo : List UInt8
  enables : UInt32
  active : Bool
  sent : List UInt8
  fetched : List UInt8

/-- The interrupt conditions the device sees when its control register is read. -/
structure Pending where
  read : Bool
  write : Bool
deriving DecidableEq, Repr

namespace Device

/-- The free places of the write FIFO. -/
def wspace (d : Device) : Nat := writeDepth - d.writeFifo.length

/-- A condition is pending while its interrupt is enabled. -/
def control (d : Device) (pending : Pending) : UInt32 :=
  UInt32.ofNat (d.enables.toNat % 4 + 256 * (pending.read && bit d.enables 0).toNat +
    512 * (pending.write && bit d.enables 1).toNat + 1024 * d.active.toNat + 65536 * d.wspace)

/-- {lit}`IORD_ALTERA_AVALON_JTAG_UART_DATA`. -/
def iordData (d : Device) : UInt32 × Device :=
  match d.readFifo with
  | [] => (0, d)
  | byte :: rest =>
    (UInt32.ofNat (byte.toNat + 32768 + 65536 * rest.length), { d with readFifo := rest })

/-- {lit}`IOWR_ALTERA_AVALON_JTAG_UART_DATA`. -/
def iowrData (d : Device) (byte : UInt8) : Device :=
  if d.writeFifo.length < writeDepth then { d with writeFifo := d.writeFifo ++ [byte] } else d

/-- {lit}`IOWR_ALTERA_AVALON_JTAG_UART_CONTROL`: writing the activity bit clears it. -/
def iowrControl (d : Device) (value : UInt32) : Device :=
  { d with enables := value, active := d.active && !bit value 10 }

/-- The host takes a byte. -/
def hostFetch (d : Device) : Device :=
  match d.writeFifo with
  | [] => d
  | byte :: rest => { d with writeFifo := rest, fetched := d.fetched ++ [byte] }

/-- The host sends a byte, if it fits. -/
def hostSend (d : Device) (byte : UInt8) : Device :=
  if d.readFifo.length < readDepth then
    { d with readFifo := d.readFifo ++ [byte], sent := d.sent ++ [byte] }
  else d

/-- The host polls the device. -/
def hostActivity (d : Device) : Device := { d with active := true }

/-! ## Register fields -/

/-- The control register shows the space of the write FIFO. -/
theorem control_wspace (d : Device) (pending : Pending) :
    (d.control pending).toNat / 65536 = d.wspace := by
  have hspace : d.wspace ≤ 64 := Nat.sub_le _ _
  have hread := Bool.toNat_le (pending.read && bit d.enables 0)
  have hwrite := Bool.toNat_le (pending.write && bit d.enables 1)
  have hactive := Bool.toNat_le d.active
  have hword : d.enables.toNat % 4 + 256 * (pending.read && bit d.enables 0).toNat +
      512 * (pending.write && bit d.enables 1).toNat + 1024 * d.active.toNat +
      65536 * d.wspace < 2 ^ 32 := by
    omega
  rw [control, UInt32.toNat_ofNat_of_lt' hword]
  omega

/-- The control register shows the activity bit. -/
theorem control_active (d : Device) (pending : Pending) :
    d.control pending &&& controlAcMsk ≠ 0 ↔ d.active = true := by
  have hspace : d.wspace ≤ 64 := Nat.sub_le _ _
  have hread := Bool.toNat_le (pending.read && bit d.enables 0)
  have hwrite := Bool.toNat_le (pending.write && bit d.enables 1)
  have hactive := Bool.toNat_le d.active
  rw [and_mask_ne_zero_iff (k := 10) rfl, control, bit_ofNat (by omega),
    Nat.testBit_eq_decide_div_mod_eq, decide_eq_true_iff, ← Bool.toNat_eq_one]
  omega

theorem iordData_nil {d : Device} (h : d.readFifo = []) : d.iordData = (0, d) := by
  simp [iordData, h]

theorem iordData_snd (d : Device) :
    d.iordData.2 = { d with readFifo := d.readFifo.tail } := by
  obtain ⟨readFifo, writeFifo, enables, active, sent, fetched⟩ := d
  cases readFifo <;> rfl

/-- A read of a FIFO that is not empty takes its oldest byte and shows how many are
left. -/
theorem iordData_cons {d : Device} {byte : UInt8} {rest : List UInt8}
    (h : d.readFifo = byte :: rest) (hlen : d.readFifo.length ≤ readDepth) :
    ∃ data, d.iordData = (data, { d with readFifo := rest }) ∧
      bit data 15 = true ∧ (data &&& dataDataMsk).toUInt8 = byte ∧
      data.toNat / 65536 = rest.length := by
  have hbyte := UInt8.toNat_lt byte
  rw [h, List.length_cons, readDepth] at hlen
  have hdata : byte.toNat + 32768 + 65536 * rest.length < 2 ^ 32 := by omega
  refine ⟨UInt32.ofNat (byte.toNat + 32768 + 65536 * rest.length), by simp [iordData, h],
    ?_, ?_, ?_⟩
  · rw [bit_ofNat hdata, Nat.testBit_eq_decide_div_mod_eq, decide_eq_true_iff]
    omega
  · rw [← UInt8.toNat_inj, UInt32.toNat_toUInt8, dataDataMsk, lowByte_toNat,
      UInt32.toNat_ofNat_of_lt' hdata]
    omega
  · rw [UInt32.toNat_ofNat_of_lt' hdata]
    omega

/-! ## Steps of the device -/

section Steps

variable (d : Device) (byte : UInt8)

theorem hostFetch_conveyed :
    d.hostFetch.fetched ++ d.hostFetch.writeFifo = d.fetched ++ d.writeFifo := by
  unfold hostFetch
  split
  · rfl
  · rename_i h
    simp [h]

theorem hostFetch_frame :
    d.hostFetch.readFifo = d.readFifo ∧ d.hostFetch.sent = d.sent := by
  unfold hostFetch
  split <;> exact ⟨rfl, rfl⟩

theorem hostFetch_length_le : d.hostFetch.writeFifo.length ≤ d.writeFifo.length := by
  unfold hostFetch
  split
  · exact Nat.le_refl _
  · rename_i h
    simp [h]

end Steps

end Device

end JtagUart
end RadonMCU
