import TyphoonZero.ByteConverter

/-! The byte buffer: integers, strings and single bits are written one after the
other and read back in the same order. Positions are natural numbers; an integer
is the bit vector that its type stores. -/
namespace TyphoonZero.ByteBuffer
open ByteOrder ByteConverter

inductive Fault
  | assertion
  | byteBufferException (pos size valueSize : ℕ)
  deriving DecidableEq, Repr

abbrev kBoundaryBitPos : ℕ := 7
abbrev kInitialBitPos : ℕ := 8

structure ByteBuffer where
  rpos : ℕ := 0
  wpos : ℕ := 0
  bitpos : ℕ := kInitialBitPos
  curBitVal : UInt8 := 0
  storage : List UInt8 := []

namespace ByteBuffer
variable (b : ByteBuffer)

/-- The last part of `Append`: the storage grows if it must and the bytes are
copied to the write position. -/
def copyIn (src : List UInt8) : ByteBuffer :=
  let newSize := b.wpos + src.length
  let storage := b.storage ++ List.replicate (newSize - b.storage.length) 0
  { b with
    storage := storage.take b.wpos ++ src ++ storage.drop newSize
    wpos := newSize }

def checkAppend (src : List UInt8) : Except Fault Unit :=
  if src.length = 0 then .error .assertion
  else if b.storage.length < 10000000 then .ok ()
  else .error .assertion

/-- `Append` when no bits are pending: the `FlushBits` inside returns at once. -/
def appendAligned (src : List UInt8) : Except Fault ByteBuffer := do
  b.checkAppend src
  pure (b.copyIn src)

def flushBits : Except Fault ByteBuffer :=
  if b.bitpos = kInitialBitPos then pure b
  else do
    let b ← appendAligned { b with bitpos := kInitialBitPos } [b.curBitVal]
    pure { b with curBitVal := 0 }

def append (src : List UInt8) : Except Fault ByteBuffer := do
  b.checkAppend src
  let b ← b.flushBits
  pure (b.copyIn src)

def resetBitPos : ByteBuffer :=
  if b.bitpos > kBoundaryBitPos then b else { b with bitpos := kInitialBitPos, curBitVal := 0 }

/-- While a buffer is written the position, a `size_t`, is never 0 here, where it would wrap. -/
def writeBit (bit : Bool) : Except Fault ByteBuffer :=
  let b := { b with bitpos := b.bitpos - 1 }
  let b := if bit then { b with curBitVal := b.curBitVal ||| 1 <<< UInt8.ofNat b.bitpos } else b
  if b.bitpos = 0 then do
    let b ← append { b with bitpos := kInitialBitPos } [b.curBitVal]
    pure { b with curBitVal := 0 }
  else pure b

/-- `WriteBits` for the positions below `bits`, the highest one first. -/
def writeBits (value : UInt64) : ℕ → ByteBuffer → Except Fault ByteBuffer
  | 0, b => pure b
  | i + 1, b => do
    let b ← b.writeBit ((value >>> UInt64.ofNat i) &&& 0x1 ≠ 0)
    writeBits value i b

/-- `Read<T>(pos)` at the read position: the bytes in memory. -/
def peek (len : ℕ) : Except Fault (List UInt8) :=
  if b.rpos + len > b.storage.length then .error (.byteBufferException b.rpos len b.storage.length)
  else pure ((b.storage.drop b.rpos).take len)

/-- `Read<T>()` for a type `T` of `size` bytes, on a machine with byte order `native`. -/
def read (native : Endian) (size : ℕ) : Except Fault (ℕ × ByteBuffer) := do
  let b := b.resetBitPos
  let val ← b.peek size
  pure (native.load (endianRefMakeLittle native val), { b with rpos := b.rpos + size })

def readBit (native : Endian) : Except Fault (Bool × ByteBuffer) :=
  let b := { b with bitpos := b.bitpos + 1 }
  if b.bitpos > kBoundaryBitPos then do
    let (val, b) ← b.read native 1
    let b := { b with curBitVal := UInt8.ofNat val, bitpos := 0 }
    pure ((b.curBitVal >>> UInt8.ofNat (kBoundaryBitPos - b.bitpos)) &&& 0x1 ≠ 0, b)
  else
    pure ((b.curBitVal >>> UInt8.ofNat (kBoundaryBitPos - b.bitpos)) &&& 0x1 ≠ 0, b)

/-- The loop of `ReadBits` for the positions below `bits`. -/
def readBitsLoop (native : Endian) : ℕ → UInt32 → ByteBuffer → Except Fault (UInt32 × ByteBuffer)
  | 0, value, b => pure (value, b)
  | i + 1, value, b => do
    let (bit, b) ← b.readBit native
    readBitsLoop native i (if bit then value ||| 0x1 <<< UInt32.ofNat i else value) b

def readBits (native : Endian) (bits : ℕ) : Except Fault (UInt32 × ByteBuffer) :=
  readBitsLoop native bits 0 b

/-- `operator<<` of a string. -/
def writeString (value : List UInt8) : Except Fault ByteBuffer := do
  let b ← if value.length = 0 then pure b else b.append value
  b.append [0]

/-- The loop of `operator>>` into a string; every turn reads one of the `n` bytes left. -/
def readStringLoop (native : Endian) : ℕ → List UInt8 → ByteBuffer → Except Fault (List UInt8 × ByteBuffer)
  | 0, value, b => pure (value, b)
  | n + 1, value, b =>
    if b.rpos < b.storage.length then do
      let (c, b) ← b.read native 1
      if c = 0 then pure (value, b) else readStringLoop native n (value ++ [UInt8.ofNat c]) b
    else pure (value, b)

def readString (native : Endian) : Except Fault (List UInt8 × ByteBuffer) :=
  readStringLoop native (b.storage.length - b.rpos) [] b

def put (pos : ℕ) (src : List UInt8) : Except Fault ByteBuffer :=
  if pos + src.length > b.storage.length then .error .assertion
  else if src.length = 0 then .error .assertion
  else pure { b with storage := b.storage.take pos ++ src ++ b.storage.drop (pos + src.length) }

/-- One turn of the loop of `PutBits`. -/
def putBit (pos : ℕ) (value : UInt64) (bitCount : ℕ) (storage : List UInt8) (i : ℕ) : List UInt8 :=
  let bit := (pos + i) % kInitialBitPos
  storage.modify ((pos + i) / kInitialBitPos) fun c =>
    if (value >>> UInt64.ofNat (bitCount - i - 1)) &&& 0x1 ≠ 0 then c ||| 1 <<< UInt8.ofNat (kBoundaryBitPos - bit)
    else c &&& ~~~(1 <<< UInt8.ofNat (kBoundaryBitPos - bit))

def putBits (pos : ℕ) (value : UInt64) (bitCount : ℕ) : Except Fault ByteBuffer :=
  if pos + bitCount > b.storage.length * kInitialBitPos then .error .assertion
  else if bitCount = 0 then .error .assertion
  else pure { b with storage := (List.range bitCount).foldl (putBit pos value bitCount) b.storage }

/-- `WriteString(str)`. -/
def writeChars (str : List UInt8) : Except Fault ByteBuffer :=
  if str.length ≠ 0 then b.append str else pure b

end ByteBuffer

/-- The integer types with `operator<<` and `operator>>`. -/
inductive IntType
  | uint8 | uint16 | uint32 | uint64 | int8 | int16 | int32 | int64
  deriving DecidableEq, Repr

def IntType.sizeof : IntType → ℕ
  | .uint8 | .int8 => 1
  | .uint16 | .int16 => 2
  | .uint32 | .int32 => 4
  | .uint64 | .int64 => 8

/-- The type that `operator>>` reads; an `int8_t` is read as `uint8_t`. -/
def IntType.readAs : IntType → IntType
  | .int8 => .uint8
  | t => t

abbrev IntType.Val (t : IntType) : Type := BitVec (8 * t.sizeof)

namespace ByteBuffer
variable (b : ByteBuffer)

def writeInt (native : Endian) (t : IntType) (value : t.Val) : Except Fault ByteBuffer :=
  b.append (endianRefMakeLittle native (native.store t.sizeof value.toNat))

def readInt (native : Endian) (t : IntType) : Except Fault (t.Val × ByteBuffer) := do
  let (val, b) ← b.read native t.readAs.sizeof
  pure (BitVec.ofNat _ val, b)

end ByteBuffer

inductive Item
  | int (t : IntType) (value : t.Val)
  | str (value : List UInt8)
  | bits (n : ℕ) (value : UInt32)
  deriving DecidableEq

/-- The reading call that mirrors an item. -/
inductive Call
  | int (t : IntType)
  | str
  | bits (n : ℕ)
  deriving DecidableEq, Repr

def Item.call : Item → Call
  | .int t _ => .int t
  | .str _ => .str
  | .bits n _ => .bits n

def writeItem (native : Endian) (b : ByteBuffer) : Item → Except Fault ByteBuffer
  | .int t value => b.writeInt native t value
  | .str value => b.writeString value
  | .bits n value => ByteBuffer.writeBits value.toUInt64 n b

def readItem (native : Endian) (b : ByteBuffer) : Call → Except Fault (Item × ByteBuffer)
  | .int t => (b.readInt native t).map fun r => (.int t r.1, r.2)
  | .str => (b.readString native).map fun r => (.str r.1, r.2)
  | .bits n => (b.readBits native n).map fun r => (.bits n r.1, r.2)

/-- All items, written to an empty buffer, and the last bits. -/
def writeItems (native : Endian) (items : List Item) : Except Fault ByteBuffer := do
  let b ← items.foldlM (writeItem native) {}
  b.flushBits

def readItems (native : Endian) : List Call → ByteBuffer → Except Fault (List Item × ByteBuffer)
  | [], b => pure ([], b)
  | c :: calls, b => do
    let (item, b) ← readItem native b c
    let (items, b) ← readItems native calls b
    pure (item :: items, b)

end TyphoonZero.ByteBuffer
