import TyphoonZero.ByteConverter
import TyphoonZero.FrameStream
import TyphoonZero.Loop

/-! The receive path of a TCP session: the match condition that finds the end of
a packet, the read that calls it on the buffer, and the handler of the read. -/
namespace TyphoonZero.TcpFraming
open ByteOrder ByteConverter Loop

abbrev kHeaderBytes : ℕ := 2

/-- The message `Header` with its parser and the field `size`, on a machine with
byte order `native`. -/
structure Protocol (Header : Type) where
  native : Endian
  parseFromArray : List UInt8 → Option Header
  size : Header → UInt32

variable {Header : Type} (P : Protocol Header)

/-- The first two bytes, read as `uint16_t` and made little-endian. -/
def Protocol.headerLength (buffer : List UInt8) : UInt16 :=
  UInt16.ofNat (P.native.load (endianRefMakeLittle P.native (buffer.take kHeaderBytes)))

structure TcpMatchCondition where
  headerLen : UInt16 := 0
  packetLen : UInt32 := 0

namespace TcpMatchCondition
variable (m : TcpMatchCondition) (range : List UInt8)

/-- The part of a call after the header is known. -/
def matchPacket : TcpMatchCondition × ℕ × Bool :=
  if range.length - kHeaderBytes - m.headerLen.toNat < m.packetLen.toNat then (m, 0, false)
  else ({}, kHeaderBytes + m.headerLen.toNat + m.packetLen.toNat, true)

/-- `operator()` on the bytes from `begin` to `end`: the members afterwards, the
distance from `begin` to the returned iterator, and whether it is a match. -/
def call : TcpMatchCondition × ℕ × Bool :=
  if range.length < kHeaderBytes then (m, 0, false)
  else
    let m : TcpMatchCondition := if m.headerLen = 0 then { m with headerLen := P.headerLength range } else m
    if m.headerLen = 0 then (m, 0, true)
    else if range.length - kHeaderBytes < m.headerLen.toNat then (m, 0, false)
    else if m.packetLen = 0 then
      match P.parseFromArray ((range.drop kHeaderBytes).take m.headerLen.toNat) with
      | none => (m, 0, true)
      | some header =>
        let m : TcpMatchCondition := { m with packetLen := P.size header }
        if m.packetLen = 0 then ({}, kHeaderBytes + m.headerLen.toNat, true)
        else m.matchPacket range
    else m.matchPacket range

end TcpMatchCondition

/-- A pending `async_read_until` with its copy of the match condition. -/
structure ReadUntil where
  matchCondition : TcpMatchCondition
  searchPosition : ℕ := 0

/-- A read waits for more data, or has completed and its handler is due. -/
inductive Recv
  | waiting (r : ReadUntil)
  | completed (bytesRecvd : ℕ)

def ReadUntil.search (r : ReadUntil) (buffer : List UInt8) : Recv :=
  let (m, offset, found) := r.matchCondition.call P (buffer.drop r.searchPosition)
  if found then .completed (r.searchPosition + offset)
  else .waiting ⟨m, r.searchPosition + offset⟩

/-- `packets` were given to `FireRecv`, `consumed` was removed from the buffer. -/
structure Session (Header : Type) where
  started : Bool := true
  matchCondition : TcpMatchCondition := {}
  buffer : List UInt8 := []
  recv : Option Recv := none
  packets : List (Header × List UInt8) := []
  consumed : List UInt8 := []

namespace Session
variable {P} (s : Session Header)

def doDisconnect : Session Header := { s with started := false, recv := none }

def consume (n : ℕ) : Session Header :=
  { s with
    buffer := s.buffer.drop n
    consumed := s.consumed ++ s.buffer.take n }

def fireRecv (header : Header) (packet : List UInt8) : Session Header :=
  { s with packets := s.packets ++ [(header, packet)] }

variable (P)

/-- `TcpPostRecv`; the new read searches the buffer at once. -/
def tcpPostRecv : Session Header :=
  if s.started then
    { s with recv := some (ReadUntil.search P { matchCondition := s.matchCondition } s.buffer) }
  else { s with recv := none }

end Session

/-- The header and the packet that the handler reads from the buffer. -/
def Protocol.unpack (buffer : List UInt8) (bytesRecvd : ℕ) : Option (Header × List UInt8) :=
  let headerLength := P.headerLength buffer
  if headerLength = 0 ∨ headerLength.toNat + kHeaderBytes > bytesRecvd then none
  else
    match P.parseFromArray ((buffer.drop kHeaderBytes).take headerLength.toNat) with
    | none => none
    | some header =>
      if P.size header = 0 then some (header, [])
      -- the sum is computed in 32 bits
      else if (P.size header + headerLength.toUInt32 + 2).toNat > bytesRecvd then none
      else some (header,
        (buffer.drop (kHeaderBytes + headerLength.toNat)).take (P.size header).toNat)

namespace Session
variable (s : Session Header)

/-- `TcpHandleRecv`; `ec` tells whether the read failed. -/
def tcpHandleRecv (ec : Bool) (bytesRecvd : ℕ) : Session Header :=
  if bytesRecvd = 0 then s.doDisconnect
  else if ec = false then
    match P.unpack s.buffer bytesRecvd with
    | none => s.doDisconnect
    | some (header, packet) => ((s.fireRecv header packet).consume bytesRecvd).tcpPostRecv P
  else s.doDisconnect

/-- The handler of a completed read, if there is one. -/
def complete : Option (Session Header) :=
  match s.recv with
  | some (.completed bytesRecvd) => some (s.tcpHandleRecv P false bytesRecvd)
  | _ => none

/-- A chunk arrives at a waiting read; then handlers run until a read waits
again. A disconnected session reads nothing. -/
def arrive (fuel : ℕ) (chunk : List UInt8) : Option (Session Header) :=
  match s.recv with
  | some (.waiting r) =>
    whileSome (complete P) fuel
      { s with
        buffer := s.buffer ++ chunk
        recv := some (r.search P (s.buffer ++ chunk)) }
  | _ => some s

end Session

/-- The session after all chunks arrived. -/
def receive (fuel : ℕ) (chunks : List (List UInt8)) : Option (Session Header) :=
  chunks.foldlM (fun s chunk => s.arrive P fuel chunk) (({} : Session Header).tcpPostRecv P)

end TyphoonZero.TcpFraming
