import TyphoonZero.Rounding
import TyphoonZero.Storage
import TyphoonZero.Transition

/-! The message buffer: storage with a read and a write position. -/
namespace TyphoonZero.MessageBuffer
open Rounding Storage Transition

structure MessageBuffer where
  wpos : ℕ := 0
  rpos : ℕ := 0
  storage : List UInt8 := []
  deriving DecidableEq

namespace MessageBuffer
variable (b : MessageBuffer)

def ofSize (initialSize : ℕ) : MessageBuffer := { storage := List.replicate initialSize 0 }

def new : MessageBuffer := ofSize 4096

/-- The move constructor: the new buffer and what is left of the other. -/
def moveFrom (other : MessageBuffer) : MessageBuffer × MessageBuffer := (other, {})

def reset : MessageBuffer := { b with wpos := 0, rpos := 0 }

def resize (bytes : ℕ) : MessageBuffer := { b with storage := Storage.resize 0 b.storage bytes }

def readCompleted (bytes : ℕ) : MessageBuffer := { b with rpos := (b.rpos + bytes) % 2 ^ 64 }

def writeCompleted (bytes : ℕ) : MessageBuffer := { b with wpos := (b.wpos + bytes) % 2 ^ 64 }

def getRemainingSpace : ℕ := (b.storage.length + (2 ^ 64 - b.wpos)) % 2 ^ 64

def getActiveSize : ℕ := (b.wpos + (2 ^ 64 - b.rpos)) % 2 ^ 64

def getBufferSize : ℕ := b.storage.length

/-- `max_size()` of a vector of bytes. -/
abbrev kMaxSize : ℕ := 2 ^ 63 - 1

/-- The positions delimit bytes of the storage. -/
def Wf : Prop := b.rpos ≤ b.wpos ∧ b.wpos ≤ b.storage.length

instance : Decidable b.Wf := inferInstanceAs (Decidable (_ ∧ _))

/-- The bytes from `GetReadPointer` on, up to the write position. -/
def active : List UInt8 := slice b.storage b.rpos b.wpos

/-- `none` stands for an access outside the storage, here and below. -/
def normalize : Option MessageBuffer :=
  if b.rpos = 0 then some b
  else if b.rpos = b.wpos then some { b with wpos := 0, rpos := 0 }
  else if b.Wf then
    some { wpos := b.wpos - b.rpos, rpos := 0, storage := writeAt b.storage 0 b.active }
  else none

/-- `size * 1.5` in doubles, and back to an integer. -/
def grown (size : ℕ) : ℕ := roundEven 53 (3 * roundEven 53 size) / 2

/-- `none` stands here for the `length_error` of a vector that gets too long. -/
def ensureFreeSpace : Option MessageBuffer :=
  if b.getRemainingSpace = 0 then
    if grown b.storage.length ≤ kMaxSize then some (b.resize (grown b.storage.length)) else none
  else some b

/-- Bytes written through a pointer that the buffer gave out. -/
def store (pos : ℕ) (bytes : List UInt8) : Option MessageBuffer :=
  if pos + bytes.length ≤ b.storage.length then
    some { b with storage := writeAt b.storage pos bytes }
  else none

def write (data : List UInt8) : Option MessageBuffer :=
  if data.length = 0 then some b
  else (b.store b.wpos data).map fun b => b.writeCompleted data.length

end MessageBuffer

inductive Op
  | reset
  | resize (bytes : ℕ)
  | readCompleted (bytes : ℕ)
  | writeCompleted (bytes : ℕ)
  | normalize
  | ensureFreeSpace
  | store (pos : ℕ) (bytes : List UInt8)
  | write (data : List UInt8)
  | moveAway

def exec (b : MessageBuffer) : Op → Option MessageBuffer
  | .reset => some b.reset
  | .resize bytes => some (b.resize bytes)
  | .readCompleted bytes => some (b.readCompleted bytes)
  | .writeCompleted bytes => some (b.writeCompleted bytes)
  | .normalize => b.normalize
  | .ensureFreeSpace => b.ensureFreeSpace
  | .store pos bytes => b.store pos bytes
  | .write data => b.write data
  | .moveAway => some (b.moveFrom).2

/-- Runs of one buffer from any constructor. -/
def bufferRuns : System MessageBuffer Op where
  init b := b = .new ∨ ∃ initialSize, b = .ofSize initialSize
  step b op c := exec b op = some c

section Active
variable {b : MessageBuffer}

lemma length_active (h : b.Wf) : b.active.length = b.wpos - b.rpos := length_slice h.2

lemma length_active_le (h : b.Wf) : b.active.length ≤ b.storage.length := by
  have hw := h.2
  rw [length_active h]
  omega

/-- The active bytes are the whole storage just when the positions are its ends. -/
lemma storage_eq_active_iff (h : b.Wf) :
    b.storage = b.active ↔ b.wpos - b.rpos = b.storage.length := by
  have hr := h.1
  have hw := h.2
  constructor
  · intro heq
    have hlen := congrArg List.length heq
    rw [length_active h] at hlen
    exact hlen.symm
  · intro hlen
    have hrpos : b.rpos = 0 := by omega
    have hwpos : b.wpos = b.storage.length := by omega
    rw [MessageBuffer.active, hrpos, hwpos, slice_full]

/-- `Normalize` keeps the active bytes. -/
lemma normalize_active {c : MessageBuffer} (h : b.Wf) (hn : b.normalize = some c) :
    c.Wf ∧ c.active = b.active := by
  have hw := h.2
  unfold MessageBuffer.normalize at hn
  split_ifs at hn with hr heq
  · cases hn
    exact ⟨h, rfl⟩
  · cases hn
    refine ⟨⟨le_rfl, Nat.zero_le _⟩, ?_⟩
    rw [MessageBuffer.active, MessageBuffer.active, heq, slice_self, slice_self]
  · cases hn
    have hlen : (writeAt b.storage 0 b.active).length = b.storage.length := by
      apply length_writeAt
      have hle := length_active_le h
      omega
    refine ⟨⟨Nat.zero_le _, ?_⟩, slice_moveToFront hw⟩
    dsimp only
    omega

/-- `Write` appends to the active bytes. -/
lemma write_active {c : MessageBuffer} {data : List UInt8} (h : b.Wf) (hlt : b.storage.length < 2 ^ 64)
    (hw : b.write data = some c) : c.Wf ∧ c.active = b.active ++ data := by
  have hr := h.1
  have hwl := h.2
  unfold MessageBuffer.write at hw
  split_ifs at hw with hz
  · cases hw
    rw [List.length_eq_zero_iff] at hz
    subst hz
    exact ⟨h, (List.append_nil _).symm⟩
  · unfold MessageBuffer.store at hw
    split_ifs at hw with hin
    · cases hw
      have hpos : (b.wpos + data.length) % 2 ^ 64 = b.wpos + data.length := Nat.mod_eq_of_lt (by omega)
      have hlen := length_writeAt hin
      refine ⟨⟨?_, ?_⟩, ?_⟩
      · dsimp only [MessageBuffer.writeCompleted]
        omega
      · dsimp only [MessageBuffer.writeCompleted]
        omega
      · dsimp only [MessageBuffer.writeCompleted, MessageBuffer.active]
        rw [hpos, ← slice_append hr (Nat.le_add_right _ _) (by omega), slice_writeAt_left le_rfl hwl,
          slice_writeAt_self hwl]
    · cases hw

end Active

end TyphoonZero.MessageBuffer
