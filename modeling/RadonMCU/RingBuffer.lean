import Mathlib.Data.Vector.Basic
import RadonMCU.Foundations.BoundedFifo
import RadonMCU.Foundations.StepSystem

/-!
# The ring buffer of the logger

{lit}`RingBuffer.c` keeps 128 bytes in an array with a head index for writing, a
tail index for reading and a separate count.  The model keeps the array and the
three {lit}`size_t` words; {lit}`size_t` has 32 bits on Nios II.  The method
pointers of the C structure are constant and carry no state.

Main results:

- Theorem {lit}`wellFormed_run`: the index invariant holds after every sequence
  of operations.
- Theorems {lit}`push_of_lt`, {lit}`push_of_full`, {lit}`pop_of_cons` and
  {lit}`pop_of_nil`: the operations are those of a bounded FIFO queue on the
  contents, at every wrap position.
- Theorem {lit}`refines_run`: every sequence of operations answers as a bounded
  FIFO queue does, and no access or count of it goes out of range.
-/

namespace RadonMCU

/-- {lit}`size_t` of the target. -/
abbrev SizeT := UInt32

/-- {lit}`RING_BUFFER_SIZE`. -/
def ringBufferSize : SizeT := 128

@[simp] theorem ringBufferSize_toNat : ringBufferSize.toNat = 128 := rfl

/-- The data of {lit}`struct RingBuffer`, that is its {lit}`ring_buffer_t`. -/
structure RingBuffer where
  buffer : Vector UInt8 ringBufferSize.toNat
  head : SizeT
  tail : SizeT
  count : SizeT

namespace RingBuffer

/-! ## The functions of RingBuffer.c -/

/-- {lit}`RingBuffer_init`. -/
def init (this : RingBuffer) : RingBuffer :=
  { this with head := 0, tail := 0, count := 0 }

/-- {lit}`RingBuffer_is_empty`. -/
def isEmpty (this : RingBuffer) : Bool := this.count == 0

/-- {lit}`RingBuffer_is_full`. -/
def isFull (this : RingBuffer) : Bool := this.count == ringBufferSize

/-- {lit}`RingBuffer_size`. -/
def size (this : RingBuffer) : SizeT := this.count

/-- {lit}`RingBuffer_push`: a byte goes to the head, unless the ring is full. -/
def push (this : RingBuffer) (data : UInt8) : Bool × RingBuffer :=
  if this.isFull then (false, this)
  else
    (true,
      { this with
        buffer := this.buffer.setIfInBounds this.head.toNat data
        head := (this.head + 1) % ringBufferSize
        count := this.count + 1 })

/-- The byte of the array at an index; every index the code uses is in range
({lit}`WellFormed.tail_lt`). -/
def cell (this : RingBuffer) (i : Nat) : UInt8 := this.buffer[i]?.getD 0

/-- A refused {lit}`pop` writes nothing through its pointer. -/
def pop (this : RingBuffer) : Option (UInt8 × RingBuffer) :=
  if this.isEmpty then none
  else
    some (this.cell this.tail.toNat,
      { this with
        tail := (this.tail + 1) % ringBufferSize
        count := this.count - 1 })

/-- {lit}`newRingBuffer`; the members the initialiser leaves out are zero. -/
def new : RingBuffer :=
  init { buffer := Vector.replicate _ 0, head := 0, tail := 0, count := 0 }

/-! ## Index arithmetic -/

/-- The next index wraps at the size of the ring. -/
theorem next_toNat (i : SizeT) :
    ((i + 1) % ringBufferSize).toNat = (i.toNat + 1) % 128 := by
  rw [UInt32.toNat_mod, UInt32.toNat_add, ringBufferSize_toNat, UInt32.toNat_one]
  omega

/-- The ring is empty when its count is 0. -/
theorem isEmpty_iff (rb : RingBuffer) : rb.isEmpty = true ↔ rb.count.toNat = 0 := by
  rw [isEmpty, beq_iff_eq, ← UInt32.toNat_inj, UInt32.toNat_zero]

/-- The ring is full when its count is its size. -/
theorem isFull_iff (rb : RingBuffer) : rb.isFull = true ↔ rb.count.toNat = 128 := by
  rw [isFull, beq_iff_eq, ← UInt32.toNat_inj, ringBufferSize_toNat]

/-- The count of a ring with bytes is decremented without a wrap. -/
theorem pred_toNat {n : SizeT} (hn : n.toNat ≠ 0) : (n - 1).toNat = n.toNat - 1 := by
  have hlt := UInt32.toNat_lt n
  rw [UInt32.toNat_sub, UInt32.toNat_one]
  omega

/-- A successful {lit}`pop` lowers the count, whatever the other words hold. -/
theorem pop_count {rb rb' : RingBuffer} {byte : UInt8} (h : rb.pop = some (byte, rb')) :
    rb.count.toNat = rb'.count.toNat + 1 := by
  unfold pop at h
  split at h
  · contradiction
  · rename_i hne
    rw [isEmpty_iff] at hne
    cases h
    rw [pred_toNat hne]
    omega

/-! ## The representation invariant -/

/-- Head, tail and count describe one circular window of the array. -/
structure WellFormed (rb : RingBuffer) : Prop where
  head_lt : rb.head.toNat < 128
  tail_lt : rb.tail.toNat < 128
  count_le : rb.count.toNat ≤ 128
  head_eq : rb.head.toNat = (rb.tail.toNat + rb.count.toNat) % 128

/-- The stored bytes, oldest first. -/
def contents (rb : RingBuffer) : List UInt8 :=
  BoundedFifo.window rb.cell 128 rb.tail.toNat rb.count.toNat

/-- The contents are as long as the count says. -/
@[simp] theorem contents_length (rb : RingBuffer) : rb.contents.length = rb.count.toNat :=
  BoundedFifo.window_length _ _ _ _

/-- Whatever the memory held, an initialised ring is well-formed. -/
theorem wellFormed_init (rb : RingBuffer) : rb.init.WellFormed := by
  constructor <;> simp [init]

/-- An initialised ring is empty. -/
@[simp] theorem contents_init (rb : RingBuffer) : rb.init.contents = [] := by
  simp [contents, init]

/-- A new ring is well-formed. -/
theorem wellFormed_new : new.WellFormed := wellFormed_init _

/-- A new ring is empty. -/
@[simp] theorem contents_new : new.contents = [] := contents_init _

/-- A ring never holds more bytes than it has cells. -/
theorem WellFormed.contents_length_le {rb : RingBuffer} (h : rb.WellFormed) :
    rb.contents.length ≤ 128 := by
  rw [contents_length]
  exact h.count_le

/-- The bounded queue a well-formed ring buffer stands for. -/
def WellFormed.toFifo {rb : RingBuffer} (h : rb.WellFormed) : BoundedFifo UInt8 128 :=
  ⟨rb.contents, h.contents_length_le⟩

/-- {lit}`RingBuffer_is_empty` tells whether the contents are empty. -/
theorem contents_eq_nil_iff (rb : RingBuffer) : rb.contents = [] ↔ rb.isEmpty = true := by
  rw [isEmpty_iff, ← contents_length, List.length_eq_zero_iff]

/-- Writing the head cell changes no other cell. -/
theorem cell_set {rb : RingBuffer} (hhead : rb.head.toNat < 128) (data : UInt8) :
    (fun i => (rb.buffer.setIfInBounds rb.head.toNat data)[i]?.getD 0) =
      Function.update rb.cell rb.head.toNat data := by
  funext i
  rw [Vector.getElem?_setIfInBounds, Function.update_apply]
  by_cases hi : i = rb.head.toNat
  · subst hi
    simp [hhead]
  · rw [if_neg hi, if_neg (fun h => hi h.symm)]
    rfl

/-- A full buffer refuses a byte and stays as it is. -/
theorem push_of_full {rb : RingBuffer} (h : rb.count.toNat = 128) (data : UInt8) :
    rb.push data = (false, rb) := by
  rw [push, if_pos ((isFull_iff rb).mpr h)]

/-- A buffer that is not full appends the byte to its contents. -/
theorem push_of_lt {rb : RingBuffer} (hrb : rb.WellFormed) (h : rb.count.toNat < 128)
    (data : UInt8) :
    ∃ rb', rb.push data = (true, rb') ∧ rb'.WellFormed ∧
      rb'.contents = rb.contents ++ [data] := by
  have hnot : ¬ rb.isFull = true := by
    rw [isFull_iff]
    omega
  have hcount : (rb.count + 1).toNat = rb.count.toNat + 1 := by
    rw [UInt32.toNat_add, UInt32.toNat_one]
    omega
  refine ⟨_, by rw [push, if_neg hnot], ?_, ?_⟩
  · refine ⟨?_, hrb.tail_lt, ?_, ?_⟩
    · rw [next_toNat]
      omega
    · rw [hcount]
      omega
    · have heq := hrb.head_eq
      rw [next_toNat, hcount]
      change (rb.head.toNat + 1) % 128 = (rb.tail.toNat + (rb.count.toNat + 1)) % 128
      omega
  · simp only [contents]
    rw [hcount, BoundedFifo.window_succ]
    have hcell := cell_set hrb.head_lt data
    have hupdate := BoundedFifo.window_update rb.cell rb.tail.toNat h data
    rw [← hrb.head_eq] at hupdate
    congr 1
    · rw [← hupdate, ← hcell]
      rfl
    · rw [← hrb.head_eq]
      exact congrArg (fun byte => [byte])
        ((congrFun hcell rb.head.toNat).trans (Function.update_self _ _ _))

/-- An empty buffer has nothing to remove. -/
theorem pop_of_nil {rb : RingBuffer} (h : rb.contents = []) : rb.pop = none := by
  rw [pop, if_pos ((contents_eq_nil_iff rb).mp h)]

/-- A buffer that is not empty gives its oldest byte. -/
theorem pop_of_cons {rb : RingBuffer} (hrb : rb.WellFormed) {byte : UInt8}
    {rest : List UInt8} (h : rb.contents = byte :: rest) :
    ∃ rb', rb.pop = some (byte, rb') ∧ rb'.WellFormed ∧ rb'.contents = rest := by
  have hlen : rb.count.toNat = rest.length + 1 := by
    rw [← contents_length, h, List.length_cons]
  have hne : ¬ rb.isEmpty = true := by
    rw [isEmpty_iff]
    omega
  have hcount : (rb.count - 1).toNat = rest.length := by
    rw [pred_toNat (by omega)]
    omega
  have hwindow := BoundedFifo.window_cons rb.cell 128 rb.tail.toNat rest.length
  rw [← hlen, Nat.mod_eq_of_lt hrb.tail_lt] at hwindow
  obtain ⟨hbyte, hrest⟩ := List.cons.inj (h.symm.trans hwindow)
  refine ⟨_, by rw [pop, if_neg hne, hbyte], ?_, ?_⟩
  · refine ⟨hrb.head_lt, ?_, ?_, ?_⟩
    · rw [next_toNat]
      omega
    · have hle := hrb.count_le
      rw [hcount]
      omega
    · have heq := hrb.head_eq
      rw [next_toNat, hcount]
      simp only
      omega
  · simp only [contents]
    rw [next_toNat, hcount]
    exact hrest.symm

/-- What a successful {lit}`pop` does to the contents. -/
theorem contents_of_pop {rb rb' : RingBuffer} (hrb : rb.WellFormed) {byte : UInt8}
    (h : rb.pop = some (byte, rb')) :
    rb'.WellFormed ∧ rb.contents = byte :: rb'.contents := by
  cases hc : rb.contents with
  | nil =>
    rw [pop_of_nil hc] at h
    contradiction
  | cons x xs =>
    obtain ⟨rb'', hpop, hwf, hrest⟩ := pop_of_cons hrb hc
    rw [hpop] at h
    cases h
    exact ⟨hwf, by rw [hrest]⟩

/-! ## Sequences of operations -/

/-- A call of one of the buffer's methods. -/
inductive Op where
  | init
  | isEmpty
  | isFull
  | size
  | push (data : UInt8)
  | pop
deriving DecidableEq, Repr

/-- The buffer after one call. -/
def Op.apply (rb : RingBuffer) : Op → RingBuffer
  | .init => rb.init
  | .isEmpty | .isFull | .size => rb
  | .push data => (rb.push data).2
  | .pop => (rb.pop.map Prod.snd).getD rb

/-- The buffer can be reached from a new one by calls of its methods. -/
def Reachable (rb : RingBuffer) : Prop :=
  ∃ ops : List Op, rb = StepSystem.run Op.apply new ops

/-- What a run of operations gives is reachable. -/
theorem reachable_run (ops : List Op) : (StepSystem.run Op.apply new ops).Reachable := ⟨ops, rfl⟩

/-! ## Refinement of the bounded queue -/

/-- What a call gives to its caller. -/
inductive Result where
  | done
  | flag (answer : Bool)
  | size (bytes : Nat)
  /-- The byte written through the pointer of {lit}`pop`, if it returns true. -/
  | popped (byte : Option UInt8)
deriving DecidableEq, Repr

/-- What an operation of the ring returns. -/
def Op.result (rb : RingBuffer) : Op → Result
  | .init => .done
  | .isEmpty => .flag rb.isEmpty
  | .isFull => .flag rb.isFull
  | .size => .size rb.size.toNat
  | .push data => .flag (rb.push data).1
  | .pop => .popped (rb.pop.map Prod.fst)

/-- The call on the abstract queue. -/
def Op.applyFifo (q : BoundedFifo UInt8 128) : Op → BoundedFifo UInt8 128
  | .init => .empty
  | .isEmpty | .isFull | .size => q
  | .push data => (q.push data).2
  | .pop => (q.pop.map Prod.snd).getD q

/-- What the operation of the queue returns. -/
def Op.resultFifo (q : BoundedFifo UInt8 128) : Op → Result
  | .init => .done
  | .isEmpty => .flag q.isEmpty
  | .isFull => .flag q.isFull
  | .size => .size q.size
  | .push data => .flag (q.push data).1
  | .pop => .popped (q.pop.map Prod.fst)

/-- The words of the buffer are in range, and it stores the abstract queue. -/
structure Refines (rb : RingBuffer) (q : BoundedFifo UInt8 128) : Prop extends rb.WellFormed where
  contents_eq : rb.contents = q.items

/-- The array index the call uses is in range, and its step of the count does not
wrap. -/
def Op.InRange (rb : RingBuffer) : Op → Prop
  | .push _ => rb.isFull = false →
      rb.head < ringBufferSize ∧ (rb.count + 1).toNat = rb.count.toNat + 1
  | .pop => rb.isEmpty = false →
      rb.tail < ringBufferSize ∧ rb.count.toNat = (rb.count - 1).toNat + 1
  | _ => True

section Refines

variable {rb : RingBuffer} {q : BoundedFifo UInt8 128} (h : rb.Refines q)
include h

/-- The count is the length of the queue. -/
theorem Refines.count_toNat : rb.count.toNat = q.items.length := by
  rw [← h.contents_eq, contents_length]

/-- The ring is empty when the queue is. -/
theorem Refines.isEmpty_eq : rb.isEmpty = q.isEmpty := by
  rw [Bool.eq_iff_iff, ← contents_eq_nil_iff, h.contents_eq, BoundedFifo.isEmpty,
    List.isEmpty_iff]

/-- The ring is full when the queue is. -/
theorem Refines.isFull_eq : rb.isFull = q.isFull := by
  rw [Bool.eq_iff_iff, isFull_iff, h.count_toNat, BoundedFifo.isFull, decide_eq_true_iff]

/-- A push answers like that of the queue, and refines it. -/
theorem Refines.push (data : UInt8) :
    (rb.push data).1 = (q.push data).1 ∧ (rb.push data).2.Refines (q.push data).2 := by
  rcases Nat.lt_or_ge q.items.length 128 with hlt | hge
  · rcases push_of_lt h.toWellFormed (h.count_toNat.trans_lt hlt) data with
      ⟨rb', hpush, hwf, hcontents⟩
    rcases BoundedFifo.push_of_lt data hlt with ⟨q', hpushq, hitems⟩
    rw [hpush, hpushq]
    exact ⟨rfl, hwf, by rw [hcontents, hitems, h.contents_eq]⟩
  · have hfull : rb.count.toNat = 128 :=
      h.count_toNat.trans (Nat.le_antisymm q.length_le hge)
    rw [push_of_full hfull, BoundedFifo.push_of_not_lt data (Nat.not_lt.mpr hge)]
    exact ⟨rfl, h⟩

/-- A pop takes the byte that the queue gives, and refines it. -/
theorem Refines.pop :
    rb.pop.map Prod.fst = q.pop.map Prod.fst ∧
      ((rb.pop.map Prod.snd).getD rb).Refines ((q.pop.map Prod.snd).getD q) := by
  cases hitems : q.items with
  | nil =>
    rw [pop_of_nil (h.contents_eq.trans hitems), BoundedFifo.pop_of_nil hitems]
    exact ⟨rfl, h⟩
  | cons byte rest =>
    rcases pop_of_cons h.toWellFormed (h.contents_eq.trans hitems) with
      ⟨rb', hpop, hwf, hcontents⟩
    rcases BoundedFifo.pop_of_cons hitems with ⟨q', hpopq, hrest⟩
    rw [hpop, hpopq]
    exact ⟨rfl, hwf, hcontents.trans hrest.symm⟩

/-- Every call answers as on the abstract queue and keeps the relation to it. -/
theorem Refines.op (op : Op) :
    op.result rb = op.resultFifo q ∧ (op.apply rb).Refines (op.applyFifo q) := by
  cases op with
  | init => exact ⟨rfl, wellFormed_init rb, contents_init rb⟩
  | isEmpty => exact ⟨congrArg Result.flag h.isEmpty_eq, h⟩
  | isFull => exact ⟨congrArg Result.flag h.isFull_eq, h⟩
  | size => exact ⟨congrArg Result.size h.count_toNat, h⟩
  | push data => exact ⟨congrArg Result.flag (h.push data).1, (h.push data).2⟩
  | pop => exact ⟨congrArg Result.popped h.pop.1, h.pop.2⟩

end Refines

/-- A well-formed ring refines the queue of its contents. -/
theorem WellFormed.refines {rb : RingBuffer} (h : rb.WellFormed) : rb.Refines h.toFifo :=
  ⟨h, rfl⟩

/-- Every operation keeps a ring well-formed. -/
theorem Op.wellFormed_apply {rb : RingBuffer} (h : rb.WellFormed) (op : Op) :
    (op.apply rb).WellFormed :=
  (h.refines.op op).2.toWellFormed

/-- The index invariant holds after every sequence of operations. -/
theorem wellFormed_run (ops : List Op) : (StepSystem.run Op.apply new ops).WellFormed :=
  StepSystem.run_invariant (fun _ op hrb => op.wellFormed_apply hrb) wellFormed_new ops

/-- Every reachable ring is well-formed. -/
theorem Reachable.wellFormed {rb : RingBuffer} (h : rb.Reachable) : rb.WellFormed := by
  obtain ⟨ops, rfl⟩ := h
  exact wellFormed_run ops

/-- No operation on a well-formed ring touches a cell outside its array. -/
theorem WellFormed.inRange {rb : RingBuffer} (h : rb.WellFormed) (op : Op) : op.InRange rb := by
  cases op with
  | push data =>
    intro hnot
    have hle := h.count_le
    have hne : rb.count.toNat ≠ 128 := by
      rw [ne_eq, ← isFull_iff, hnot]
      exact Bool.false_ne_true
    refine ⟨UInt32.lt_iff_toNat_lt.mpr h.head_lt, ?_⟩
    rw [UInt32.toNat_add, UInt32.toNat_one]
    omega
  | pop =>
    intro hnot
    have hne : rb.count.toNat ≠ 0 := by
      rw [ne_eq, ← isEmpty_iff, hnot]
      exact Bool.false_ne_true
    refine ⟨UInt32.lt_iff_toNat_lt.mpr h.tail_lt, ?_⟩
    rw [pred_toNat hne]
    omega
  | _ => trivial

/-- Every sequence of calls on a new buffer gives what it gives on an empty queue of
at most 128 bytes, ends in a buffer that stores that queue, and never leaves the
range of the array or of the count. -/
theorem refines_run (ops : List Op) :
    StepSystem.outputs Op.apply Op.result new ops =
        StepSystem.outputs Op.applyFifo Op.resultFifo .empty ops ∧
      (StepSystem.run Op.apply new ops).Refines (StepSystem.run Op.applyFifo .empty ops) ∧
      StepSystem.Meets Op.apply Op.InRange new ops := by
  have hnew : new.Refines .empty := ⟨wellFormed_new, contents_new⟩
  refine ⟨?_, ?_, ?_⟩
  · exact StepSystem.outputs_simulation (fun _ _ op h => h.op op) hnew ops
  · exact StepSystem.run_simulation (fun _ _ op h => (h.op op).2) hnew ops
  · rw [StepSystem.meets_iff]
    intro pre op _ _
    exact (wellFormed_run pre).inRange op

end RingBuffer

end RadonMCU
