import TyphoonZero.ByteBuffer

/-! The primitive reads of the byte buffer with all that they change: the state after
an exception, the bytes touched, and positions modulo `2 ^ 64`. -/
namespace TyphoonZero.ByteBuffer
open ByteOrder ByteConverter

/-- Bytes `start`, `start + 1`, .. of the storage. -/
structure Access where
  start : ℕ
  length : ℕ

/-- What a read returns or throws, and what it did. -/
structure Outcome (α : Type) where
  value : Except Fault α
  after : ByteBuffer
  accesses : List Access := []
  consumed : ℕ := 0

namespace ByteBuffer
variable (b : ByteBuffer)

/-- The test before a read, in 64 bits. -/
def outside (len : ℕ) : Bool := (b.rpos + len) % 2 ^ 64 > b.storage.length

def throwPosition {α : Type} (pos len : ℕ) : Outcome α :=
  { value := .error (.byteBufferException pos len b.storage.length), after := b }

/-- The end of a read that takes `len` bytes from the read position. -/
def takeBytes (len : ℕ) : Outcome (List UInt8) :=
  { value := .ok ((b.storage.drop b.rpos).take len)
    after := { b with rpos := (b.rpos + len) % 2 ^ 64 }
    accesses := [⟨b.rpos, len⟩]
    consumed := len }

/-- `Read(dest, len)`. -/
def readDest (len : UInt64) : Outcome (List UInt8) :=
  if b.outside len.toNat then b.throwPosition b.rpos len.toNat else b.resetBitPos.takeBytes len.toNat

/-- `Read<T>()`; the bits are reset before the test. -/
def readT (native : Endian) (t : IntType) : Outcome ℕ :=
  let b := b.resetBitPos
  if b.outside t.sizeof then b.throwPosition b.rpos t.sizeof
  else
    let o := b.takeBytes t.sizeof
    { o with value := o.value.map fun val => native.load (endianRefMakeLittle native val) }

def bitAt : Bool := (b.curBitVal >>> UInt8.ofNat (kBoundaryBitPos - b.bitpos)) &&& 0x1 ≠ 0

/-- `ReadBit()`; the bit position moves before the read of the next byte. -/
def readNextBit (native : Endian) : Outcome Bool :=
  let b := { b with bitpos := (b.bitpos + 1) % 2 ^ 64 }
  if b.bitpos > kBoundaryBitPos then
    let o := b.readT native .uint8
    match o.value with
    | .error fault => { o with value := .error fault }
    | .ok val =>
      let b := { o.after with curBitVal := UInt8.ofNat val, bitpos := 0 }
      { o with value := .ok b.bitAt, after := b }
  else { value := .ok b.bitAt, after := b }

def readSkip (skip : UInt64) : Outcome Unit :=
  if b.outside skip.toNat then b.throwPosition b.rpos skip.toNat
  else
    let b := b.resetBitPos
    { value := .ok (), after := { b with rpos := (b.rpos + skip.toNat) % 2 ^ 64 }, consumed := skip.toNat }

/-- `ReadString(length)`. -/
def readChars (length : UInt32) : Outcome (List UInt8) :=
  if b.outside length.toNat then b.throwPosition b.rpos length.toNat
  else
    let b := b.resetBitPos
    if length.toNat = 0 then { value := .ok [], after := b } else b.takeBytes length.toNat

/-- The integer `operator>>`. -/
def shiftRight (native : Endian) (t : IntType) : Outcome t.Val :=
  let o := b.readT native t.readAs
  { o with value := o.value.map fun val => BitVec.ofNat _ val }

/-- `operator[]`. -/
def index (pos : UInt64) : Outcome (Option UInt8) :=
  if pos.toNat ≥ b.storage.length then b.throwPosition pos.toNat 1
  else { value := .ok b.storage[pos.toNat]?, after := b, accesses := [⟨pos.toNat, 1⟩] }

end ByteBuffer

inductive ReadOp
  | readDest (len : UInt64)
  | readT (t : IntType)
  | readBit
  | readSkip (skip : UInt64)
  | readChars (length : UInt32)
  | shiftRight (t : IntType)
  | index (pos : UInt64)

/-- What one operation does, without its value. -/
def Outcome.done {α : Type} (o : Outcome α) : Outcome Unit := { o with value := o.value.map fun _ => () }

def execRead (native : Endian) (b : ByteBuffer) : ReadOp → Outcome Unit
  | .readDest len => (b.readDest len).done
  | .readT t => (b.readT native t).done
  | .readBit => (b.readNextBit native).done
  | .readSkip skip => b.readSkip skip
  | .readChars length => (b.readChars length).done
  | .shiftRight t => (b.shiftRight native t).done
  | .index pos => (b.index pos).done

/-- A read throws the position exception and changes nothing, or it returns, touches
bytes of the storage only, and moves the read position by what it consumed. -/
inductive Atomic (b : ByteBuffer) (o : Outcome Unit) : Prop
  | throws (pos len : ℕ) (value : o.value = .error (.byteBufferException pos len b.storage.length))
      (after : o.after = b)
  | returns (value : o.value = .ok ())
      (touched : ∀ a ∈ o.accesses, ∀ i < a.length, (a.start + i) % 2 ^ 64 < b.storage.length)
      (kept : o.after.storage = b.storage ∧ o.after.wpos = b.wpos)
      (moved : o.after.rpos = (b.rpos + o.consumed) % 2 ^ 64) (inside : o.after.rpos ≤ b.storage.length)

/-- Positions and the size are 64-bit values. -/
structure ByteBuffer.InRange (b : ByteBuffer) : Prop where
  rpos : b.rpos < 2 ^ 64
  bitpos : b.bitpos < 2 ^ 64
  size : b.storage.length < 2 ^ 64

/-- When a read is safe and atomic. The sum of the test must not wrap into the buffer;
`Read<T>()` must succeed or find no pending bits, `ReadBit()` must succeed. -/
def ReadsWell (b : ByteBuffer) : ReadOp → Prop
  | .readDest len => b.rpos + len.toNat < 2 ^ 64 ∨ b.outside len.toNat
  | .readT t => b.rpos + t.sizeof ≤ b.storage.length ∨ kBoundaryBitPos < b.bitpos ∧ b.outside t.sizeof
  | .readBit =>
    if (b.bitpos + 1) % 2 ^ 64 ≤ kBoundaryBitPos then b.rpos ≤ b.storage.length
    else b.rpos < b.storage.length
  | .readSkip _ => True
  | .readChars length => b.rpos + length.toNat < 2 ^ 64 ∨ b.outside length.toNat
  | .shiftRight t =>
    b.rpos + t.readAs.sizeof ≤ b.storage.length ∨ kBoundaryBitPos < b.bitpos ∧ b.outside t.readAs.sizeof
  | .index pos => b.storage.length ≤ pos.toNat ∨ b.rpos ≤ b.storage.length

section Reads
variable {b : ByteBuffer} {native : Endian}

lemma resetBitPos_rest (b : ByteBuffer) : b.resetBitPos.rpos = b.rpos ∧ b.resetBitPos.wpos = b.wpos ∧
    b.resetBitPos.storage = b.storage := by
  unfold ByteBuffer.resetBitPos
  split_ifs <;> exact ⟨rfl, rfl, rfl⟩

lemma resetBitPos_eq_iff : b.resetBitPos = b ↔ kBoundaryBitPos < b.bitpos := by
  unfold ByteBuffer.resetBitPos
  split_ifs with h
  · exact iff_of_true rfl h
  · refine iff_of_false ?_ h
    intro heq
    have hbit := congrArg ByteBuffer.bitpos heq
    have hk : kInitialBitPos = 8 := rfl
    have hk' : kBoundaryBitPos = 7 := rfl
    dsimp only at hbit
    omega

lemma outside_resetBitPos (b : ByteBuffer) (len : ℕ) : b.resetBitPos.outside len = b.outside len := by
  obtain ⟨hr, _, hs⟩ := resetBitPos_rest b
  rw [ByteBuffer.outside, ByteBuffer.outside, hr, hs]

/-- A read whose sum wrapped touches a byte outside. -/
lemma exists_outside (h : b.InRange) {len : ℕ} (hw : 2 ^ 64 ≤ b.rpos + len) :
    ∃ i < len, ¬ (b.rpos + i) % 2 ^ 64 < b.storage.length := by
  have hr := h.rpos
  have hs := h.size
  refine ⟨b.storage.length - b.rpos, by omega, ?_⟩
  rw [Nat.mod_eq_of_lt (by omega)]
  omega

/-- Taking bytes after a passed test is safe just when the sum did not wrap. -/
lemma takeBytes_atomic_iff (h : b.InRange) {len : ℕ} (hin : b.outside len = false) :
    Atomic b (b.resetBitPos.takeBytes len).done ↔ b.rpos + len < 2 ^ 64 := by
  obtain ⟨hr, hw, hs⟩ := resetBitPos_rest b
  rw [ByteBuffer.outside, decide_eq_false_iff_not, not_lt] at hin
  constructor
  · intro ha
    by_contra hwrap
    cases ha with
    | throws pos len' hv => cases hv
    | returns hv htouched =>
      obtain ⟨i, hi, hout⟩ := exists_outside h (not_lt.mp hwrap)
      have ht := htouched ⟨b.resetBitPos.rpos, len⟩ (List.mem_singleton.mpr rfl) i hi
      rw [hr] at ht
      exact hout ht
  · intro hlt
    rw [Nat.mod_eq_of_lt hlt] at hin
    refine .returns rfl ?_ ⟨hs, hw⟩ ?_ ?_
    · intro a ha i hi
      rw [List.mem_singleton.mp ha] at hi ⊢
      dsimp only at hi ⊢
      rw [hr, Nat.mod_eq_of_lt (by omega)]
      omega
    · simp only [Outcome.done, ByteBuffer.takeBytes, hr]
    · simp only [Outcome.done, ByteBuffer.takeBytes, hr, Nat.mod_eq_of_lt hlt]
      exact hin

lemma throwPosition_atomic_iff {α : Type} {c : ByteBuffer} (hs : c.storage = b.storage) (pos len : ℕ) :
    Atomic b (c.throwPosition pos len : Outcome α).done ↔ c = b := by
  constructor
  · intro ha
    cases ha with
    | throws _ _ _ hafter => exact hafter
    | returns hv => cases hv
  · intro hc
    subst hc
    exact .throws pos len rfl rfl

/-- Only what a read returns, touches and moves matters for its safety. -/
lemma Atomic.congr {o o' : Outcome Unit} (h : Atomic b o) (hv : o'.value = o.value)
    (ha : o'.accesses = o.accesses) (hc : o'.consumed = o.consumed)
    (herr : o.value ≠ .ok () → o'.after = o.after)
    (hok : o'.after.storage = o.after.storage ∧ o'.after.wpos = o.after.wpos ∧ o'.after.rpos = o.after.rpos) :
    Atomic b o' := by
  cases h with
  | throws pos len hvalue hafter =>
    refine .throws pos len (hv.trans hvalue) ((herr ?_).trans hafter)
    rw [hvalue]
    exact nofun
  | returns hvalue htouched hkept hmoved hinside =>
    refine .returns (hv.trans hvalue) ?_ ?_ ?_ ?_
    · rw [ha]
      exact htouched
    · exact ⟨hok.1.trans hkept.1, hok.2.1.trans hkept.2⟩
    · rw [hok.2.2, hc]
      exact hmoved
    · rw [hok.2.2]
      exact hinside

/-- A test that passes and a sum that does not wrap: the bytes are in the storage. -/
lemma inside_iff (h : b.InRange) (len : ℕ) :
    b.rpos + len ≤ b.storage.length ↔ b.outside len = false ∧ b.rpos + len < 2 ^ 64 := by
  have hr := h.rpos
  have hs := h.size
  rw [ByteBuffer.outside, decide_eq_false_iff_not, not_lt]
  constructor
  · intro hin
    rw [Nat.mod_eq_of_lt (by omega)]
    exact ⟨hin, by omega⟩
  · intro hin
    rw [Nat.mod_eq_of_lt hin.2] at hin
    exact hin.1

lemma tested_atomic_iff (len : ℕ) {α : Type} (ok : Outcome α) (hok : b.outside len = false →
      (Atomic b ok.done ↔ b.rpos + len < 2 ^ 64)) :
    Atomic b (if b.outside len then b.throwPosition b.rpos len else ok).done ↔
      b.rpos + len < 2 ^ 64 ∨ b.outside len := by
  cases ho : b.outside len with
  | true =>
    rw [if_pos rfl]
    exact iff_of_true (.throws b.rpos len rfl rfl) (.inr rfl)
  | false =>
    rw [if_neg Bool.false_ne_true, hok ho]
    simp

lemma readT_atomic_iff (h : b.InRange) (t : IntType) :
    Atomic b (b.readT native t).done ↔
      b.rpos + t.sizeof ≤ b.storage.length ∨ kBoundaryBitPos < b.bitpos ∧ b.outside t.sizeof := by
  rw [inside_iff h t.sizeof]
  unfold ByteBuffer.readT
  dsimp only
  rw [outside_resetBitPos]
  cases ho : b.outside t.sizeof with
  | true =>
    rw [if_pos rfl, throwPosition_atomic_iff (resetBitPos_rest b).2.2, resetBitPos_eq_iff]
    simp
  | false =>
    rw [if_neg Bool.false_ne_true]
    have htake := takeBytes_atomic_iff h ho
    constructor
    · intro ha
      refine .inl ⟨rfl, htake.mp ?_⟩
      exact ha.congr rfl rfl rfl (fun hne => absurd rfl hne) ⟨rfl, rfl, rfl⟩
    · intro hc
      rcases hc with hc | hc
      · exact (htake.mpr hc.2).congr rfl rfl rfl (fun hne => absurd rfl hne) ⟨rfl, rfl, rfl⟩
      · cases hc.2

/-- A read that returns is as safe from another bit state. -/
lemma Atomic.of_ok {c : ByteBuffer} {o : Outcome Unit} (h : Atomic b o) (hv : o.value = .ok ())
    (hs : c.storage = b.storage) (hw : c.wpos = b.wpos) (hr : c.rpos = b.rpos) : Atomic c o := by
  cases h with
  | throws _ _ hv' =>
    rw [hv] at hv'
    cases hv'
  | returns _ htouched hkept hmoved hin =>
    refine .returns hv ?_ ?_ ?_ ?_
    · rw [hs]
      exact htouched
    · rw [hs, hw]
      exact hkept
    · rw [hr]
      exact hmoved
    · rw [hs]
      exact hin

/-- A pending bit is read from the current byte; else the bit position has moved when
the read of the next byte throws. -/
lemma readNextBit_atomic_iff (h : b.InRange) :
    Atomic b (b.readNextBit native).done ↔
      if (b.bitpos + 1) % 2 ^ 64 ≤ kBoundaryBitPos then b.rpos ≤ b.storage.length
      else b.rpos < b.storage.length := by
  have hbit := h.bitpos
  have hrpos := h.rpos
  unfold ByteBuffer.readNextBit
  dsimp only
  by_cases hpend : (b.bitpos + 1) % 2 ^ 64 ≤ kBoundaryBitPos
  · rw [if_neg (not_lt.mpr hpend), if_pos hpend]
    constructor
    · intro ha
      cases ha with
      | throws _ _ hv => cases hv
      | returns _ _ _ _ hin => exact hin
    · intro hin
      refine .returns rfl ?_ ⟨rfl, rfl⟩ ?_ hin
      · intro a ha
        cases ha
      · exact (Nat.mod_eq_of_lt hrpos).symm
  · rw [if_pos (not_le.mp hpend), if_neg hpend]
    have hc : ({ b with bitpos := (b.bitpos + 1) % 2 ^ 64 } : ByteBuffer).InRange :=
      ⟨hrpos, Nat.mod_lt _ (by decide), h.size⟩
    have hreset : ({ b with bitpos := (b.bitpos + 1) % 2 ^ 64 } : ByteBuffer).resetBitPos
        = { b with bitpos := (b.bitpos + 1) % 2 ^ 64 } := resetBitPos_eq_iff.mpr (not_le.mp hpend)
    unfold ByteBuffer.readT
    dsimp only
    rw [hreset]
    have hinside := inside_iff hc 1
    rw [show IntType.uint8.sizeof = 1 from rfl]
    dsimp only at hinside
    cases ho : ({ b with bitpos := (b.bitpos + 1) % 2 ^ 64 } : ByteBuffer).outside 1 with
    | true =>
      rw [if_pos rfl]
      rw [ho] at hinside
      refine iff_of_false ?_ ?_
      · intro ha
        cases ha with
        | throws _ _ _ hafter =>
          have hb := congrArg ByteBuffer.bitpos hafter
          simp only [Outcome.done, ByteBuffer.throwPosition] at hb
          omega
        | returns hv => cases hv
      · intro hlt
        cases (hinside.mp hlt).1
    | false =>
      rw [if_neg Bool.false_ne_true]
      have htake := takeBytes_atomic_iff hc ho
      rw [hreset] at htake
      rw [ho] at hinside
      constructor
      · intro ha
        apply hinside.mpr
        have hback := Atomic.of_ok (c := { b with bitpos := (b.bitpos + 1) % 2 ^ 64 }) ha rfl rfl rfl rfl
        refine ⟨rfl, htake.mp ?_⟩
        exact hback.congr rfl rfl rfl (fun hne => absurd rfl hne) ⟨rfl, rfl, rfl⟩
      · intro hlt
        have hback := Atomic.of_ok (c := b) (htake.mpr (hinside.mp hlt).2) rfl rfl rfl rfl
        exact hback.congr rfl rfl rfl (fun hne => absurd rfl hne) ⟨rfl, rfl, rfl⟩

/-- For every state, operation and argument: the read is safe and atomic just when
its condition holds. -/
theorem read_atomic_iff (h : b.InRange) (op : ReadOp) :
    Atomic b (execRead native b op) ↔ ReadsWell b op := by
  have hrpos := h.rpos
  obtain ⟨hr, hw, hs⟩ := resetBitPos_rest b
  cases op with
  | readDest len => exact tested_atomic_iff len.toNat _ (takeBytes_atomic_iff h)
  | readT t => exact readT_atomic_iff h t
  | readBit => exact readNextBit_atomic_iff h
  | readSkip skip =>
    refine iff_of_true ?_ trivial
    simp only [execRead, ByteBuffer.readSkip]
    cases ho : b.outside skip.toNat with
    | true => exact .throws b.rpos skip.toNat rfl rfl
    | false =>
      rw [ByteBuffer.outside, decide_eq_false_iff_not, not_lt] at ho
      rw [if_neg Bool.false_ne_true]
      refine .returns rfl ?_ ⟨hs, hw⟩ ?_ ?_
      · intro a ha
        cases ha
      · simp only [hr]
      · simp only [hr]
        exact ho
  | readChars length =>
    apply tested_atomic_iff length.toNat
    intro ho
    dsimp only
    split_ifs with hz
    · rw [hz] at ho ⊢
      rw [ByteBuffer.outside, decide_eq_false_iff_not, not_lt, Nat.add_zero, Nat.mod_eq_of_lt hrpos] at ho
      refine iff_of_true ?_ hrpos
      refine .returns rfl ?_ ⟨hs, hw⟩ ?_ ?_
      · intro a ha
        cases ha
      · simp only [Outcome.done, hr, Nat.add_zero, Nat.mod_eq_of_lt hrpos]
      · simp only [Outcome.done, hr]
        exact ho
    · exact takeBytes_atomic_iff h ho
  | shiftRight t =>
    rw [show ReadsWell b (.shiftRight t) = ReadsWell b (.readT t.readAs) from rfl]
    have hread := @readT_atomic_iff b native h t.readAs
    have hdone : execRead native b (.shiftRight t) = (b.readT native t.readAs).done := by
      simp only [execRead, ByteBuffer.shiftRight, Outcome.done]
      cases (b.readT native t.readAs).value <;> rfl
    rw [hdone]
    exact hread
  | index pos =>
    simp only [execRead, ByteBuffer.index, ReadsWell]
    by_cases hpos : b.storage.length ≤ pos.toNat
    · rw [if_pos hpos]
      exact iff_of_true (.throws pos.toNat 1 rfl rfl) (.inl hpos)
    · rw [if_neg hpos, or_iff_right hpos]
      constructor
      · intro ha
        cases ha with
        | throws _ _ hv => cases hv
        | returns _ _ _ _ hin => exact hin
      · intro hin
        refine .returns rfl ?_ ⟨rfl, rfl⟩ (Nat.mod_eq_of_lt hrpos).symm hin
        intro a ha i hi
        rw [List.mem_singleton.mp ha] at hi ⊢
        have hlt := pos.toNat_lt
        dsimp only at hi ⊢
        rw [Nat.mod_eq_of_lt (by omega)]
        omega

/-- Without a wrap `Read<T>()` is the read of the stream model, with its end state. -/
lemma readT_eq_read (t : IntType) (hw : b.rpos + t.sizeof < 2 ^ 64) :
    (b.readT native t).value.map (fun val => (val, (b.readT native t).after)) = b.read native t.sizeof := by
  obtain ⟨hr, _, hs⟩ := resetBitPos_rest b
  unfold ByteBuffer.readT ByteBuffer.read ByteBuffer.peek
  dsimp only
  rw [hr, hs]
  by_cases hin : b.rpos + t.sizeof > b.storage.length
  · have hout : b.resetBitPos.outside t.sizeof = true := by
      rw [outside_resetBitPos, ByteBuffer.outside, Nat.mod_eq_of_lt hw]
      exact decide_eq_true hin
    rw [if_pos hin, hout, if_pos rfl]
    simp only [ByteBuffer.throwPosition, hs]
    rfl
  · have hout : b.resetBitPos.outside t.sizeof = false := by
      rw [outside_resetBitPos, ByteBuffer.outside, Nat.mod_eq_of_lt hw]
      exact decide_eq_false hin
    rw [if_neg hin, hout, if_neg Bool.false_ne_true]
    simp only [ByteBuffer.takeBytes, hr, hs, Nat.mod_eq_of_lt hw]
    rfl

end Reads

/-- Three bytes into a buffer of two: the exception leaves all as it was. -/
theorem read_atomic_iff_short :
    Atomic { wpos := 2, storage := [1, 2] } (execRead .little { wpos := 2, storage := [1, 2] } (.readDest 3)) :=
  (read_atomic_iff ⟨by decide, by decide, by decide⟩ (.readDest 3)).mpr (.inl (by decide))

/-- `ReadBit()` on an empty buffer throws and leaves the bit position at 9. -/
theorem readBit_moves_bitpos :
    (execRead .little {} .readBit).value = .error (.byteBufferException 0 1 0) ∧
      ({} : ByteBuffer).bitpos = 8 ∧ (execRead .little {} .readBit).after.bitpos = 9 ∧
      ¬ Atomic {} (execRead .little {} .readBit) := by
  refine ⟨rfl, rfl, rfl, ?_⟩
  intro ha
  cases ha with
  | throws _ _ _ hafter => cases congrArg ByteBuffer.bitpos hafter
  | returns hv => cases hv

end TyphoonZero.ByteBuffer
