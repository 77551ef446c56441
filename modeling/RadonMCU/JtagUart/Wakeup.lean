import RadonMCU.JtagUart.Receive
import RadonMCU.JtagUart.Transmit

/-!
# The interrupt enables

The interrupt routine turns the transmit interrupt off when it finds the transmit ring
empty, and the receive interrupt when it finds the receive ring full; a call that has put
bytes in, or taken bytes out, turns its interrupt on again in a section with interrupts
disabled.  No order of these steps loses a wakeup: outside the part of a call that comes
before its section, a ring that the routine could serve has its interrupt enabled.

Main results:

- Theorem {lit}`wakeful_foreground` and {lit}`wakeful_interrupt`: the steps of both sides
  keep the enables right.
- Theorem {lit}`wakeful_run`: in any interleaving, a waiting byte has its transmit interrupt
  enabled and a free place its receive interrupt, whenever the foreground is not on its way
  to enable it.
-/

namespace RadonMCU
namespace JtagUart
namespace Fast

open WordBits

/-! ## Where the foreground is -/

/-- The section that enables an interrupt: where it is, with its locals. -/
inductive Section where
  | outside
  | entered (context : Bool)
  | loaded (context : Bool) (value : UInt32)
  | stored (context : Bool)
  | leaving (context : Bool)
deriving DecidableEq

/-- The call that enables its interrupt is a write. -/
def Kick.isWrite : Kick → Bool
  | .write _ _ => true
  | .read _ => false

namespace Pc

/-- Where the place is in the section that enables an interrupt. -/
def inSection : Pc → Section
  | loadEnable _ context => .entered context
  | storeEnable _ context value => .loaded context value
  | writeControl _ context => .stored context
  | enableAll _ context => .leaving context
  | _ => .outside

/-- A write that has yet to enable the transmit interrupt. -/
def kicksTx : Pc → Bool
  | copyLoop _ _ | memcpyTx _ _ _ _ _ | storeTxIn _ _ _ _ => true
  | disableAll k | loadEnable k _ | storeEnable k _ _ => k.isWrite
  | _ => false

/-- A read that has taken bytes and has yet to enable the receive interrupt. -/
def kicksRx : Pc → Bool
  | readLoop r | memcpyRx r _ _ _ _ | storeRxOut r _ _ _ _ => r.got ≠ []
  | disableAll k | loadEnable k _ | storeEnable k _ _ => !k.isWrite
  | _ => false

/-- What a read knows of its locals. -/
def Local : Pc → Prop
  | readLoop r | spinRx r _ | spinRxHost r _ | leaveRx r _ => 0 < r.space
  | memcpyRx _ _ _ n _ | storeRxOut _ _ _ n _ => 0 < n
  | _ => True

end Pc

/-! ## The invariant -/

/-- Two words enable the same interrupts. -/
def Agree (x y : UInt32) : Prop := bit x 0 = bit y 0 ∧ bit x 1 = bit y 1

namespace System

/-- What holds at each place of the section.  The device follows {lit}`irq_enable` but for
the moment between the two writes. -/
def SectionRight (s : System) : Section → Prop
  | .outside => s.pie = true ∧ Agree s.device.enables s.uart.irqEnable
  | .entered context =>
    context = true ∧ s.pie = false ∧ s.isr = .idle ∧ Agree s.device.enables s.uart.irqEnable
  | .loaded context value =>
    context = true ∧ s.pie = false ∧ s.isr = .idle ∧ Agree s.device.enables s.uart.irqEnable ∧
      value = s.uart.irqEnable
  | .stored context => context = true ∧ s.pie = false ∧ s.isr = .idle
  | .leaving context =>
    context = true ∧ s.pie = false ∧ s.isr = .idle ∧ Agree s.device.enables s.uart.irqEnable

/-- The receive ring is full. -/
def RxFull (s : System) : Prop :=
  IndexRing.used bufLen s.uart.rxIn s.uart.rxOut = bufLen - 1

/-- The interrupt enables are right. -/
structure Wakeful (s : System) : Prop where
  inSection : s.SectionRight s.pc.inSection
  tx : s.pc.kicksTx = false → s.uart.txIn ≠ s.uart.txOut → bit s.uart.irqEnable 1 = true
  rx : s.pc.kicksRx = false → ¬ s.RxFull → bit s.uart.irqEnable 0 = true
  full : ∀ control data, s.isr = .receiveDone control data →
    data &&& dataRavailMsk ≠ 0 → s.RxFull
  atPc : s.pc.Local

end System

theorem bit_re : bit controlReMsk 0 = true := by decide

theorem bit_we : bit controlWeMsk 1 = true := by decide

/-! ## Steps outside the section -/

section Steps

variable {s s' : System}

/-- A step from outside the section to outside the section that leaves the enables. -/
theorem wakeful_outside (h : s.Wakeful) (hsection : s.pc.inSection = .outside)
    (hsection' : s'.pc.inSection = .outside) (hpie : s'.pie = s.pie)
    (henables : s'.device.enables = s.device.enables)
    (hirqEnable : s'.uart.irqEnable = s.uart.irqEnable)
    (htx : s'.pc.kicksTx = false → s'.uart.txIn ≠ s'.uart.txOut →
      s.pc.kicksTx = false ∧ s.uart.txIn ≠ s.uart.txOut)
    (hrx : s'.pc.kicksRx = false → ¬ s'.RxFull → s.pc.kicksRx = false ∧ ¬ s.RxFull)
    (hfull : ∀ control data, s'.isr = .receiveDone control data →
      data &&& dataRavailMsk ≠ 0 → s'.RxFull)
    (hlocal : s'.pc.Local) : s'.Wakeful where
  inSection := by
    have hright := h.inSection
    rw [hsection] at hright
    rw [hsection', System.SectionRight, hpie, henables, hirqEnable]
    exact hright
  tx hkick hne := by
    rw [hirqEnable]
    exact h.tx (htx hkick hne).1 (htx hkick hne).2
  rx hkick hfull := by
    rw [hirqEnable]
    exact h.rx (hrx hkick hfull).1 (hrx hkick hfull).2
  full := hfull
  atPc := hlocal

/-- The foreground goes to another place outside the section. -/
theorem wakeful_goto (h : s.Wakeful) {pc : Pc} {outcomes : List Outcome}
    (hsection : s.pc.inSection = .outside) (hsection' : pc.inSection = .outside)
    (htx : pc.kicksTx = false → s.pc.kicksTx = false)
    (hrx : pc.kicksRx = false → s.pc.kicksRx = false) (hlocal : pc.Local) :
    ({ s with pc, outcomes } : System).Wakeful :=
  wakeful_outside h hsection hsection' rfl rfl rfl (fun hkick hne => ⟨htx hkick, hne⟩)
    (fun hkick hfull => ⟨hrx hkick, hfull⟩) h.full hlocal

/-- Bits beside the two enable bits do not matter. -/
theorem agree_or_mask {x y mask : UInt32} (h : Agree x y) (h0 : bit mask 0 = false)
    (h1 : bit mask 1 = false) : Agree (x ||| mask) y := by
  simpa [Agree, h0, h1] using h

/-- A read that finds no more bytes. -/
theorem wakeful_afterCopy (h : s.Wakeful) {r : ReadCall} (inIdx : Nat)
    (hsection : s.pc.inSection = .outside) (hwrite : s.pc.kicksTx = false)
    (hread : r.got = [] → s.pc.kicksRx = false ∧ 0 < r.space) :
    (s.afterCopy r inIdx).Wakeful := by
  unfold System.afterCopy
  split
  · exact wakeful_goto h hsection rfl (fun _ => hwrite) nofun trivial
  · rename_i hnone
    obtain ⟨hkick, hspace⟩ := hread (not_not.mp hnone)
    split
    · exact wakeful_goto h hsection rfl (fun _ => hwrite) (fun _ => hkick) trivial
    · exact wakeful_goto h hsection rfl (fun _ => hwrite) (fun _ => hkick) hspace

/-- A read that has taken bytes is on its way to enable the receive interrupt. -/
theorem wakeful_storeRxOut {r : ReadCall} {inIdx out n : Nat} {chunk : List UInt8}
    (h : s.Wakeful) (hreceives : s.Receives) (hisr : s.isr = .idle)
    (hpc : s.pc = .storeRxOut r inIdx out n chunk) : s.foreground.Wakeful := by
  have htaken := hreceives.taken { call := r, start := out, count := n, chunk } (by
    rw [System.rx, hpc]
    rfl)
  have hpos : 0 < n := by
    have hlocal := h.atPc
    rw [hpc] at hlocal
    exact hlocal
  have hgot : r.got ++ chunk ≠ [] := by
    intro hnil
    have hlen : chunk.length = n := htaken.2
    rw [List.append_eq_nil_iff] at hnil
    rw [hnil.2, List.length_nil] at hlen
    omega
  have hloop : ({ s with
      uart := { s.uart with rxOut := (out + n) % bufLen }
      pc := .readLoop { r with got := r.got ++ chunk } } : System).pc.kicksRx = true := by
    simpa [Pc.kicksRx, imp_iff_not_or] using hgot
  simp only [System.foreground, hpc, System.afterCopy]
  split
  · rename_i hspace
    refine wakeful_outside h (by rw [hpc]; rfl) rfl rfl rfl rfl ?_ ?_ ?_ hspace
    · intro _ hne
      exact ⟨by rw [hpc]; rfl, hne⟩
    · intro hkick
      rw [hloop] at hkick
      contradiction
    · intro control data hdone
      rw [hisr] at hdone
      contradiction
  · refine wakeful_outside h (by rw [hpc]; rfl) rfl rfl rfl rfl ?_ (by rintro ⟨⟩) ?_ trivial
    · intro _ hne
      exact ⟨by rw [hpc]; rfl, hne⟩
    · intro control data hdone
      rw [hisr] at hdone
      contradiction

/-- Every step of the foreground keeps the enables right. -/
theorem wakeful_foreground (h : s.Wakeful) (hreceives : s.Receives) (hisr : s.isr = .idle) :
    s.foreground.Wakeful := by
  obtain ⟨uart, device, pie, pc, isr, outcomes⟩ := s
  cases pc with
  | idle => exact h
  | copyLoop w out =>
    simp only [System.foreground]
    split
    · split
      · exact wakeful_goto h rfl rfl (by rintro ⟨⟩) (fun _ => rfl) trivial
      · exact wakeful_goto h rfl rfl (by rintro ⟨⟩) (fun _ => rfl) trivial
    · exact wakeful_goto h rfl rfl (by rintro ⟨⟩) (fun _ => rfl) trivial
  | memcpyTx w inIdx out n i =>
    simp only [System.foreground]
    split
    · exact wakeful_outside h rfl rfl rfl rfl rfl (by rintro ⟨⟩) (fun _ hfull => ⟨rfl, hfull⟩)
        h.full trivial
    · exact wakeful_goto h rfl rfl (by rintro ⟨⟩) (fun _ => rfl) trivial
  | storeTxIn w inIdx out n =>
    exact wakeful_outside h rfl rfl rfl rfl rfl (by rintro ⟨⟩) (fun _ hfull => ⟨rfl, hfull⟩)
      h.full trivial
  | disableAll k =>
    exact ⟨⟨h.inSection.1, rfl, hisr, h.inSection.2⟩, h.tx, h.rx, h.full, trivial⟩
  | loadEnable k context =>
    obtain ⟨hcontext, hpie, -, hagree⟩ := h.inSection
    exact ⟨⟨hcontext, hpie, hisr, hagree, rfl⟩, h.tx, h.rx, h.full, trivial⟩
  | storeEnable k context value =>
    obtain ⟨hcontext, hpie, -, hagree, hvalue⟩ := h.inSection
    change value = uart.irqEnable at hvalue
    subst hvalue
    refine ⟨⟨hcontext, hpie, hisr⟩, ?_, ?_, h.full, trivial⟩
    · intro _ hne
      change bit (uart.irqEnable ||| k.mask) 1 = true
      rw [bit_or, Bool.or_eq_true]
      cases k with
      | write w out => exact Or.inr bit_we
      | read r => exact Or.inl (h.tx rfl hne)
    · intro _ hfull
      change bit (uart.irqEnable ||| k.mask) 0 = true
      rw [bit_or, Bool.or_eq_true]
      cases k with
      | write w out => exact Or.inl (h.rx rfl hfull)
      | read r => exact Or.inr bit_re
  | writeControl k context =>
    obtain ⟨hcontext, hpie, -⟩ := h.inSection
    exact ⟨⟨hcontext, hpie, hisr, rfl, rfl⟩, h.tx, h.rx, h.full, trivial⟩
  | enableAll k context =>
    obtain ⟨hcontext, -, -, hagree⟩ := h.inSection
    have houtside :
        ({ uart, device, pie := context, pc := .idle, isr, outcomes } : System).Wakeful :=
      ⟨⟨hcontext, hagree⟩, h.tx, h.rx, h.full, trivial⟩
    cases k with
    | write w out =>
      simp only [System.foreground, System.afterKick]
      split
      · split
        · exact wakeful_goto houtside rfl rfl (fun _ => rfl) (fun _ => rfl) trivial
        · exact wakeful_goto houtside rfl rfl (fun _ => rfl) (fun _ => rfl) trivial
      · exact wakeful_goto houtside rfl rfl (fun _ => rfl) (fun _ => rfl) trivial
    | read r => exact wakeful_goto houtside rfl rfl (fun _ => rfl) (fun _ => rfl) trivial
  | spinTx w out =>
    simp only [System.foreground]
    split <;> exact wakeful_goto h rfl rfl (fun _ => rfl) (fun _ => rfl) trivial
  | spinTxHost w out =>
    simp only [System.foreground]
    split <;> exact wakeful_goto h rfl rfl (fun _ => rfl) (fun _ => rfl) trivial
  | leaveTx w out =>
    simp only [System.foreground]
    split <;> exact wakeful_goto h rfl rfl (fun _ => rfl) (fun _ => rfl) trivial
  | readLoop r =>
    simp only [System.foreground]
    split
    · refine wakeful_afterCopy h _ rfl rfl ?_
      intro hnone
      exact ⟨by simpa [Pc.kicksRx] using hnone, h.atPc⟩
    · rename_i hsome
      exact wakeful_goto h rfl rfl (fun _ => rfl) id
        (Nat.lt_min.mpr ⟨Nat.pos_of_ne_zero hsome, h.atPc⟩)
  | memcpyRx r inIdx out n chunk =>
    simp only [System.foreground]
    split <;> exact wakeful_goto h rfl rfl (fun _ => rfl) id h.atPc
  | storeRxOut r inIdx out n chunk => exact wakeful_storeRxOut h hreceives hisr rfl
  | spinRx r inIdx =>
    simp only [System.foreground]
    split <;> exact wakeful_goto h rfl rfl (fun _ => rfl) (fun _ => rfl) h.atPc
  | spinRxHost r inIdx =>
    simp only [System.foreground]
    split <;> exact wakeful_goto h rfl rfl (fun _ => rfl) (fun _ => rfl) h.atPc
  | leaveRx r inIdx =>
    simp only [System.foreground]
    split
    · exact wakeful_goto h rfl rfl (fun _ => rfl) (fun _ => rfl) trivial
    · exact wakeful_goto h rfl rfl (fun _ => rfl) (fun _ => rfl) h.atPc
  | closeTx nonblock =>
    simp only [System.foreground]
    split <;> exact wakeful_goto h rfl rfl (fun _ => rfl) (fun _ => rfl) trivial
  | closeHost nonblock =>
    simp only [System.foreground]
    split
    · split <;> exact wakeful_goto h rfl rfl (fun _ => rfl) (fun _ => rfl) trivial
    · exact wakeful_goto h rfl rfl (fun _ => rfl) (fun _ => rfl) trivial

/-- In the section the interrupts are disabled and no routine runs. -/
theorem section_masked (h : s.Wakeful) (hsection : s.pc.inSection ≠ .outside) :
    s.pie = false ∧ s.isr = .idle := by
  have hright := h.inSection
  cases hcase : s.pc.inSection with
  | outside => exact absurd hcase hsection
  | entered context =>
    rw [hcase] at hright
    exact ⟨hright.2.1, hright.2.2.1⟩
  | loaded context value =>
    rw [hcase] at hright
    exact ⟨hright.2.1, hright.2.2.1⟩
  | stored context =>
    rw [hcase] at hright
    exact ⟨hright.2.1, hright.2.2⟩
  | leaving context =>
    rw [hcase] at hright
    exact ⟨hright.2.1, hright.2.2.1⟩

/-- While an interrupt is served the foreground is outside its section. -/
theorem outside_of_running (h : s.Wakeful) (hisr : s.isr ≠ .idle) :
    s.pc.inSection = .outside := by
  by_contra hsection
  exact hisr (section_masked h hsection).2

/-- While interrupts are enabled the foreground is outside its section. -/
theorem outside_of_enabled (h : s.Wakeful) (hpie : s.pie = true) :
    s.pc.inSection = .outside := by
  by_contra hsection
  rw [(section_masked h hsection).1] at hpie
  contradiction

/-- The interrupt routine goes on without touching the rings or the enables. -/
theorem wakeful_isr (h : s.Wakeful) (hsection : s.pc.inSection = .outside) {isr : IsrPc}
    (hfull : ∀ control data, isr = .receiveDone control data →
      data &&& dataRavailMsk ≠ 0 → s.RxFull) : ({ s with isr } : System).Wakeful :=
  wakeful_outside h hsection hsection rfl rfl rfl (fun hkick hne => ⟨hkick, hne⟩)
    (fun hkick hnot => ⟨hkick, hnot⟩) hfull h.atPc

/-- The interrupt routine after its receiving part. -/
theorem wakeful_afterReceive (h : s.Wakeful) (hsection : s.pc.inSection = .outside)
    (control : UInt32) : (s.afterReceive control).Wakeful := by
  unfold System.afterReceive
  split <;> exact wakeful_isr h hsection nofun

/-- The interrupt routine turns an interrupt off: its ring is empty, or full. -/
theorem wakeful_disable (h : s.Wakeful) (hsection : s.pc.inSection = .outside) {mask : UInt32}
    {isr : IsrPc} (htx : s.uart.txIn ≠ s.uart.txOut → bit mask 1 = false)
    (hrx : ¬ s.RxFull → bit mask 0 = false)
    (hisr : ∀ control data, isr ≠ .receiveDone control data) :
    ({ s with
      uart := { s.uart with irqEnable := s.uart.irqEnable &&& ~~~mask }
      device := s.device.iowrControl (s.uart.irqEnable &&& ~~~mask)
      isr } : System).Wakeful where
  inSection := by
    have hright := h.inSection
    rw [hsection] at hright
    change System.SectionRight _ s.pc.inSection
    rw [hsection]
    exact ⟨hright.1, rfl, rfl⟩
  tx hkick hne := by
    change bit (s.uart.irqEnable &&& ~~~mask) 1 = true
    rw [bit_and, bit_not _ (by decide), htx hne, h.tx hkick hne]
    rfl
  rx hkick hnot := by
    change bit (s.uart.irqEnable &&& ~~~mask) 0 = true
    rw [bit_and, bit_not _ (by decide), hrx hnot, h.rx hkick hnot]
    rfl
  full control data hdone := absurd hdone (hisr control data)
  atPc := h.atPc

/-- Every step of the interrupt routine and of the alarm routine keeps the enables right. -/
theorem wakeful_interrupt (h : s.Wakeful) (hreceives : s.Receives) (pending : Pending) :
    (s.interrupt pending).Wakeful := by
  by_cases hidle : s.isr = .idle
  · rw [System.interrupt, hidle]
    exact h
  have hsection := outside_of_running h hidle
  obtain ⟨uart, device, pie, pc, isr, outcomes⟩ := s
  cases isr with
  | idle => exact h
  | readControl =>
    simp only [System.interrupt]
    split
    · exact wakeful_isr h hsection (by simp)
    · split
      · exact wakeful_isr h hsection (by simp)
      · exact wakeful_afterReceive h hsection _
  | receive control data =>
    simp only [System.interrupt]
    split
    · rename_i hnext
      refine wakeful_isr h hsection (fun _ _ _ _ => ?_)
      exact (IndexRing.next_eq_iff hreceives.in_lt hreceives.out_lt).mp hnext
    · rename_i hroom
      cases hfifo : device.readFifo with
      | nil =>
        have hinvalid : (0 : UInt32) &&& dataRvalidMsk = 0 := by decide
        have hnothing : (0 : UInt32) &&& dataRavailMsk = 0 := by decide
        rw [Device.iordData_nil hfifo, if_pos hinvalid]
        refine wakeful_isr h hsection ?_
        rintro control' data' hdone hleft
        obtain ⟨-, rfl⟩ := IsrPc.receiveDone.inj hdone
        exact absurd hnothing hleft
      | cons byte rest =>
        have hnotFull := mt (IndexRing.next_eq_iff hreceives.in_lt hreceives.out_lt).mpr hroom
        obtain ⟨word, hread, hvalid, -⟩ := Device.iordData_cons hfifo hreceives.fifo_le
        rw [hread]
        dsimp only
        rw [if_neg ((and_mask_ne_zero_iff (k := 15) rfl).mpr hvalid)]
        exact wakeful_outside h hsection hsection rfl rfl rfl (fun hkick hne => ⟨hkick, hne⟩)
          (fun hkick _ => ⟨hkick, hnotFull⟩) (by simp) h.atPc
  | receiveDone control data =>
    simp only [System.interrupt]
    split
    · rename_i hleft
      have hfull := h.full _ _ rfl hleft
      exact wakeful_disable h hsection (fun _ => by decide) (fun hnot => absurd hfull hnot)
        (by simp)
    · exact wakeful_afterReceive h hsection control
  | receiveDummy control => exact wakeful_afterReceive h hsection control
  | transmit space =>
    simp only [System.interrupt]
    split
    · rename_i hmore
      refine wakeful_outside h hsection hsection rfl ?_ rfl ?_ (fun hkick hnot => ⟨hkick, hnot⟩)
        (by simp) h.atPc
      · unfold Device.iowrData
        split <;> rfl
      · exact fun hkick _ => ⟨hkick, hmore.2.symm⟩
    · rename_i hnone
      split
      · rename_i hspace
        have hempty : uart.txIn = uart.txOut := by
          by_contra hne
          exact hnone ⟨hspace, fun heq => hne heq.symm⟩
        exact wakeful_disable h hsection (fun hne => absurd hempty hne) (fun _ => by decide)
          (by simp)
      · exact wakeful_isr h hsection (by simp)
  | transmitDummy => exact wakeful_isr h hsection (by simp)
  | alarmRead =>
    simp only [System.interrupt]
    split
    · exact wakeful_isr h hsection (by simp)
    · split
      · exact wakeful_outside h hsection hsection rfl rfl rfl (fun hkick hne => ⟨hkick, hne⟩)
          (fun hkick hnot => ⟨hkick, hnot⟩) (by simp) h.atPc
      · exact wakeful_isr h hsection (by simp)
  | alarmWrite =>
    -- The write that clears the activity bit enables what {lit}`irq_enable` enables.
    refine ⟨?_, h.tx, h.rx, (by rintro _ _ ⟨⟩), h.atPc⟩
    have hright := h.inSection
    rw [hsection] at hright
    change System.SectionRight _ pc.inSection
    rw [hsection]
    exact ⟨hright.1, agree_or_mask ⟨rfl, rfl⟩ (by decide) (by decide)⟩

/-- An {lit}`ioctl` enables and disables nothing. -/
theorem wakeful_ioctl (h : s.Wakeful) (hpc : s.pc = .idle) (request : Request) :
    (s.ioctl request).Wakeful := by
  obtain ⟨uart, device, pie, pc, isr, outcomes⟩ := s
  change pc = .idle at hpc
  subst hpc
  cases request with
  | setTimeout timeout =>
    simp only [System.ioctl]
    split <;>
      exact wakeful_outside h rfl rfl rfl rfl rfl (fun hkick hne => ⟨hkick, hne⟩)
        (fun hkick hnot => ⟨hkick, hnot⟩) h.full trivial
  | getConnected =>
    simp only [System.ioctl]
    split <;> exact wakeful_goto h rfl rfl (fun _ => rfl) (fun _ => rfl) trivial
  | other => exact wakeful_goto h rfl rfl (fun _ => rfl) (fun _ => rfl) trivial

/-- What all three sides need of each other. -/
structure System.Running (s : System) : Prop where
  transmits : s.Transmits
  receives : s.Receives
  wakeful : s.Wakeful

/-- Every action keeps the enables right. -/
theorem wakeful_step (h : s.Running) (a : Action) : (s.step a).Wakeful := by
  have hw := h.wakeful
  refine System.step_rule a hw ?_ ?_ ?_ ?_ ?_ ?_ ?_ ?_ ?_ ?_ ?_
  · intro hpc _ buf nonblock
    exact wakeful_goto hw (by rw [hpc]; rfl) rfl nofun (fun _ => by rw [hpc]; rfl) trivial
  · intro hpc _ size nonblock
    have hsection : s.pc.inSection = .outside := by
      rw [hpc]
      rfl
    unfold System.startRead
    split
    · rename_i hspace
      exact wakeful_goto hw hsection rfl (fun _ => by rw [hpc]; rfl) (fun _ => by rw [hpc]; rfl)
        hspace
    · exact wakeful_goto hw hsection rfl (fun _ => by rw [hpc]; rfl) (fun _ => by rw [hpc]; rfl)
        trivial
  · intro hpc _ nonblock
    exact wakeful_goto hw (by rw [hpc]; rfl) rfl (fun _ => by rw [hpc]; rfl)
      (fun _ => by rw [hpc]; rfl) trivial
  · intro hpc _ request
    exact wakeful_ioctl hw hpc request
  · exact wakeful_foreground hw h.receives
  · intro _ hpie
    exact wakeful_isr hw (outside_of_enabled hw hpie) nofun
  · intro _ hpie
    exact wakeful_isr hw (outside_of_enabled hw hpie) nofun
  · intro pending _
    exact wakeful_interrupt hw h.receives pending
  · unfold Device.hostFetch
    split
    · exact hw
    · exact ⟨hw.inSection, hw.tx, hw.rx, hw.full, hw.atPc⟩
  · intro byte
    unfold Device.hostSend
    split
    · exact ⟨hw.inSection, hw.tx, hw.rx, hw.full, hw.atPc⟩
    · exact hw
  · exact ⟨hw.inSection, hw.tx, hw.rx, hw.full, hw.atPc⟩

/-- The invariant of both directions and the wakeups holds at first. -/
theorem running_init (timeout : Nat) : (System.init timeout).Running where
  transmits := transmits_init timeout
  receives := receives_init timeout
  wakeful :=
    { inSection := ⟨rfl, rfl, rfl⟩
      tx := fun _ hne => absurd rfl hne
      rx := fun _ _ => bit_re
      full := nofun
      atPc := trivial }

/-- Every action keeps both directions and the wakeups. -/
theorem running_step (h : s.Running) (a : Action) : (s.step a).Running :=
  ⟨transmits_step h.transmits a, receives_step h.receives a, wakeful_step h a⟩

/-- Every run keeps both directions and the wakeups. -/
theorem running_run (timeout : Nat) (acts : List Action) :
    ((System.init timeout).run acts).Running :=
  StepSystem.run_invariant (P := System.Running) (fun _ a hs => running_step hs a)
    (running_init timeout) acts

/-- Along every run, outside the sections of the driver, interrupts are enabled; the
transmit interrupt of the device is enabled while bytes wait in the transmit ring, unless a
write is on its way to enable it; and its receive interrupt while the receive ring has
room, unless a read is on its way to enable it. -/
theorem wakeful_run (timeout : Nat) (acts : List Action) :
    let s := (System.init timeout).run acts
    (s.pc.inSection = .outside → s.pie = true) ∧
      (s.pc.inSection = .outside → s.pc.kicksTx = false → s.uart.txIn ≠ s.uart.txOut →
        bit s.device.enables 1 = true) ∧
      (s.pc.inSection = .outside → s.pc.kicksRx = false → ¬ s.RxFull →
        bit s.device.enables 0 = true) := by
  have h := (running_run timeout acts).wakeful
  have houtside : ((System.init timeout).run acts).pc.inSection = .outside →
      ((System.init timeout).run acts).SectionRight .outside := by
    intro hsection
    have hright := h.inSection
    rw [hsection] at hright
    exact hright
  refine ⟨fun hsection => (houtside hsection).1, ?_, ?_⟩
  · intro hsection hkick hne
    rw [(houtside hsection).2.2]
    exact h.tx hkick hne
  · intro hsection hkick hnot
    rw [(houtside hsection).2.1]
    exact h.rx hkick hnot

end Steps

end Fast
end JtagUart
end RadonMCU
