import TyphoonZero.ByteBufferBounds
import TyphoonZero.PackedAppend

/-! Copies and moves of byte buffers, by construction and by assignment, and what later
reads and writes make of the difference. -/
namespace TyphoonZero.ByteBuffer
open ByteOrder

namespace ByteBuffer
variable (b other : ByteBuffer)

/-- `Move()`: the storage, and the buffer that it leaves. -/
def move : List UInt8 × ByteBuffer :=
  (b.storage, { rpos := 0, wpos := 0, bitpos := kInitialBitPos, curBitVal := 0, storage := [] })

/-- The copy constructor is the default one. -/
def copyConstruct : ByteBuffer :=
  { rpos := other.rpos
    wpos := other.wpos
    bitpos := other.bitpos
    curBitVal := other.curBitVal
    storage := other.storage }

/-- The new buffer and what is left of the other. -/
def moveConstruct : ByteBuffer × ByteBuffer :=
  ({ rpos := other.rpos
     wpos := other.wpos
     bitpos := other.bitpos
     curBitVal := other.curBitVal
     storage := other.move.1 }, other.move.2)

/-- The four fields before the storage are in their first state. -/
def AtStart : Prop := b.rpos = 0 ∧ b.wpos = 0 ∧ b.bitpos = kInitialBitPos ∧ b.curBitVal = 0

end ByteBuffer

section Assign
variable {K : Type} [DecidableEq K]

/-- `*this = other` on the buffers of a memory. -/
def copyAssign (mem : K → ByteBuffer) (this other : K) : K → ByteBuffer :=
  if this ≠ other then
    Function.update mem this
      { rpos := 0, wpos := 0, bitpos := kInitialBitPos, curBitVal := 0, storage := (mem other).storage }
  else mem

/-- `*this = std::move(other)`. -/
def moveAssign (mem : K → ByteBuffer) (this other : K) : K → ByteBuffer :=
  if this ≠ other then
    Function.update (Function.update mem this
      { rpos := 0, wpos := 0, bitpos := kInitialBitPos, curBitVal := 0, storage := (mem other).move.1 })
      other (mem other).move.2
  else mem

end Assign

/-- What a read returns. -/
inductive ReadValue
  | bytes (val : List UInt8)
  | number (val : ℕ)
  | bit (val : Bool)
  | char (val : Option UInt8)
  | nothing

def Outcome.map {α β : Type} (f : α → β) (o : Outcome α) : Outcome β := { o with value := o.value.map f }

def execReadValue (native : Endian) (b : ByteBuffer) : ReadOp → Outcome ReadValue
  | .readDest len => (b.readDest len).map .bytes
  | .readT t => (b.readT native t).map .number
  | .readBit => (b.readNextBit native).map .bit
  | .readSkip skip => (b.readSkip skip).map fun _ => .nothing
  | .readChars length => (b.readChars length).map .bytes
  | .shiftRight t => (b.shiftRight native t).map fun val => .number val.toNat
  | .index pos => (b.index pos).map .char

inductive BufferOp
  | read (op : ReadOp)
  | write (op : WriteOp)

/-- The results of reads and writes one after the other; a failed write is the last. -/
def results (native : Endian) : ByteBuffer → List BufferOp → List (Except Fault ReadValue)
  | _, [] => []
  | b, .read op :: ops =>
    let o := execReadValue native b op
    o.value :: results native o.after ops
  | b, .write op :: ops =>
    match execWrite native b op with
    | .ok b => .ok .nothing :: results native b ops
    | .error fault => [.error fault]

section Copies
variable {K : Type} [DecidableEq K] {native : Endian} {mem : K → ByteBuffer} {this other : K}

/-- A copy is the source, a buffer moved by assignment is one moved by construction, and
all later results are the same. -/
structure CopiesAgree (native : Endian) (mem : K → ByteBuffer) (this other : K) : Prop where
  copy : copyAssign mem this other this = mem other ∧ (mem other).copyConstruct = mem other
  move : moveAssign mem this other this = (mem other).moveConstruct.1
  copyResults : ∀ ops, results native (copyAssign mem this other this) ops =
    results native (mem other).copyConstruct ops
  moveResults : ∀ ops, results native (moveAssign mem this other this) ops =
    results native (mem other).moveConstruct.1 ops

lemma atStart_iff (b : ByteBuffer) : { storage := b.storage } = b ↔ b.AtStart := by
  constructor
  · intro h
    rw [← h]
    exact ⟨rfl, rfl, rfl, rfl⟩
  · intro h
    obtain ⟨hr, hw, hbit, hcur⟩ := h
    cases b
    subst hr hw hbit hcur
    rfl

lemma moveConstruct_fst (b : ByteBuffer) : b.moveConstruct.1 = b := rfl

lemma copyAssign_this (h : this ≠ other) : copyAssign mem this other this = { storage := (mem other).storage } := by
  rw [copyAssign, if_pos h, Function.update_self]

lemma moveAssign_this (h : this ≠ other) : moveAssign mem this other this = { storage := (mem other).storage } := by
  rw [moveAssign, if_pos h, Function.update_of_ne h, Function.update_self]
  rfl

/-- Assignment agrees with construction just when the source is the target itself, or is
neither read nor written to and has no bits. -/
theorem copiesAgree_iff (native : Endian) (mem : K → ByteBuffer) (this other : K) :
    CopiesAgree native mem this other ↔ this = other ∨ (mem other).AtStart := by
  by_cases hsame : this = other
  · subst hsame
    have hcopy : copyAssign mem this this = mem := if_neg (not_not.mpr rfl)
    have hmove : moveAssign mem this this = mem := if_neg (not_not.mpr rfl)
    refine iff_of_true ⟨⟨by rw [hcopy], rfl⟩, ?_, fun ops => ?_, fun ops => ?_⟩ (.inl rfl)
    · rw [hmove, moveConstruct_fst]
    · rw [hcopy]
      rfl
    · rw [hmove, moveConstruct_fst]
  · rw [or_iff_right hsame, ← atStart_iff]
    constructor
    · intro h
      rw [← copyAssign_this hsame]
      exact h.copy.1
    · intro h
      have hcopy := (copyAssign_this hsame).trans h
      have hmove := (moveAssign_this hsame).trans h
      refine ⟨⟨hcopy, rfl⟩, hmove, fun ops => ?_, fun ops => ?_⟩
      · rw [hcopy]
        rfl
      · rw [hmove, moveConstruct_fst]

/-- A buffer with one written byte, beside an empty one. -/
def oneWritten : Bool → ByteBuffer
  | false => {}
  | true => { wpos := 1, storage := [7] }

/-- The assigned copy of a written buffer overwrites what the constructed one keeps. -/
theorem assigned_overwrites : (ByteBuffer.append {} [7] = .ok (oneWritten true)) ∧
    ¬ CopiesAgree .little oneWritten false true ∧
    (copyAssign oneWritten false true false).append [9] = .ok { wpos := 1, storage := [9] } ∧
    (oneWritten true).copyConstruct.append [9] = .ok { wpos := 2, storage := [7, 9] } := by
  refine ⟨rfl, fun h => ?_, rfl, rfl⟩
  have hstart := (copiesAgree_iff .little oneWritten false true).mp h
  rcases hstart with hsame | hstart
  · cases hsame
  · exact absurd hstart.2.1 (by decide)

end Copies

end TyphoonZero.ByteBuffer
