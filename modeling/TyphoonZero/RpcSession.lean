import TyphoonZero.RpcMessages
import TyphoonZero.TcpSend

/-! A session that sends remote calls and their responses. Header and body are written into a message
buffer of their size, which goes through the event queue of the connection; the other end takes the
packets out of the stream. -/
namespace TyphoonZero.Rpc
open ByteOrder ByteConverter Storage Transition MessageBuffer EventQueue TcpFraming FrameStream Loop WireFormat

/-- `INT_MAX`. -/
abbrev kIntMax : ℕ := 2 ^ 31 - 1

/-- A message as a session sees it: its size, which it keeps, and its bytes. -/
structure Message where
  byteSizeLong : ℕ
  serialize : List UInt8
  length_serialize : serialize.length = byteSizeLong
  small : byteSizeLong ≤ kIntMax

/-- What a session gives to `Send`. -/
structure Packet where
  header : Header
  body : Option Message

namespace Packet
variable (p : Packet)

def bodySize : ℕ := (p.body.map Message.byteSizeLong).getD 0

def bodyBytes : List UInt8 := (p.body.map Message.serialize).getD []

/-- The part of a packet that is written through a pointer which was taken before. -/
def writeThrough (packet : MessageBuffer) (size : ℕ) (bytes : List UInt8) : Option MessageBuffer :=
  let ptr := packet.wpos
  (packet.writeCompleted size).store ptr bytes

/-- The buffer of a packet on a machine with byte order `native`. -/
def buffer (native : Endian) : Option MessageBuffer :=
  let headerSize := endianRefMakeLittle native (native.store 2 (p.header.byteSizeLong % 2 ^ 16))
  ((MessageBuffer.ofSize (2 + p.header.byteSizeLong + p.bodySize)).write headerSize).bind fun packet =>
    (writeThrough packet p.header.byteSizeLong p.header.serialize).bind fun packet =>
      match p.body with
      | none => some packet
      | some message => writeThrough packet message.byteSizeLong message.serialize

end Packet

/-- `request_token_`, and the packets that were given to `Send`. -/
structure Session where
  requestToken : UInt32 := 0
  sent : List Packet := []

namespace Session
variable (s : Session)

def send (p : Packet) : Session := { s with sent := s.sent ++ [p] }

def sendRequest (serviceHash methodId : UInt32) (request : Message) : Session :=
  ({ s with requestToken := s.requestToken + 1 }).send
    ⟨{ serviceHash, methodId, token := s.requestToken, size := UInt32.ofNat request.byteSizeLong }, some request⟩

/-- `SendResponse` with a status. -/
def sendStatus (serviceHash methodId token : UInt32) (status : Int32) : Session :=
  s.send ⟨{ serviceHash, methodId, token, status }, none⟩

def sendResponse (serviceHash methodId token : UInt32) (response : Message) : Session :=
  s.send ⟨{ serviceHash, methodId, token, size := UInt32.ofNat response.byteSizeLong }, some response⟩

end Session

/-- The receive path of a session, for the headers of the calls. -/
def headerProtocol (native : Endian) : Protocol Header where
  native := native
  parseFromArray := parseFromArray Header.type
  size := Header.size

/-- The header tells the size of the body, and is not empty. -/
structure Packet.Wf (p : Packet) : Prop where
  size : p.header.size = UInt32.ofNat p.bodySize
  nonempty : p.header ≠ {}

section Header

lemma length_header (h : Header) : h.serialize.length = h.byteSizeLong :=
  (@header_sound 0).length h trivial

lemma parse_header (h : Header) : parseFromArray Header.type h.serialize = some h :=
  (@header_sound kDefaultRecursionLimit).roundTrips.parse h trivial

lemma varintSize_le {n : ℕ} (h : n < 2 ^ 32) : varintSize n ≤ 5 := by
  rw [varintSize, log2_or_one]
  have hlog : Nat.log2 n < 32 := by
    rcases eq_or_ne n 0 with rfl | hne
    · decide
    · exact (Nat.log2_lt hne).mpr h
  omega

lemma int32Size_le (v : Int32) : int32Size v ≤ 10 := by
  unfold int32Size
  split_ifs
  · exact le_rfl
  · exact (varintSize_le v.toUInt32.toNat_lt).trans (by norm_num)

/-- A header fits into its length field. -/
lemma header_small (h : Header) : h.byteSizeLong ≤ 34 := by
  have hbound : ∀ (p : Prop) [Decidable p] {n k : ℕ}, n ≤ k → (if p then n else 0) ≤ k := by
    intro p _ n k hle
    split_ifs
    · exact hle
    · exact Nat.zero_le k
  have hserviceHash := hbound (h.serviceHash ≠ 0) (le_refl (1 + 4))
  have hmethodId := hbound (h.methodId ≠ 0) (Nat.add_le_add_left (varintSize_le h.methodId.toNat_lt) 1)
  have htoken := hbound (h.token ≠ 0) (Nat.add_le_add_left (varintSize_le h.token.toNat_lt) 1)
  have hsize := hbound (h.size ≠ 0) (Nat.add_le_add_left (varintSize_le h.size.toNat_lt) 1)
  have hstatus := hbound (h.status ≠ 0) (Nat.add_le_add_left (int32Size_le h.status) 1)
  unfold Header.byteSizeLong
  omega

/-- Only the header without any field is written as nothing. -/
lemma serialize_ne_nil {h : Header} (hne : h ≠ {}) : h.serialize ≠ [] := by
  intro hnil
  have hparse := parse_header h
  rw [hnil] at hparse
  exact hne (Option.some.inj hparse).symm

end Header

section Buffer

/-- A buffer that has been written up to some place. -/
def filled (pre : List UInt8) (r : ℕ) : MessageBuffer := ⟨pre.length, 0, pre ++ List.replicate r 0⟩

variable {pre bytes : List UInt8} {n r : ℕ}

lemma writeAt_filled (hn : bytes.length = n) :
    writeAt (pre ++ List.replicate (n + r) 0) pre.length bytes = pre ++ bytes ++ List.replicate r 0 := by
  rw [writeAt, List.take_left, hn, List.drop_append, List.drop_eq_nil_of_le (Nat.le_add_right _ _), List.nil_append,
    List.drop_replicate]
  congr 2
  omega

lemma store_eq {b : MessageBuffer} {pos : ℕ} (h : pos + bytes.length ≤ b.storage.length) :
    b.store pos bytes = some { b with storage := writeAt b.storage pos bytes } := if_pos h

lemma fits_filled (hn : bytes.length = n) : pre.length + bytes.length ≤ (filled pre (n + r)).storage.length := by
  simp only [filled, List.length_append, List.length_replicate]
  omega

lemma filled_append (hn : bytes.length = n) (hlt : pre.length + n < 2 ^ 64) :
    (⟨(pre.length + n) % 2 ^ 64, 0, writeAt (pre ++ List.replicate (n + r) 0) pre.length bytes⟩ : MessageBuffer) =
      filled (pre ++ bytes) r := by
  rw [writeAt_filled hn, Nat.mod_eq_of_lt hlt, filled, List.length_append, hn]

lemma writeThrough_filled (hn : bytes.length = n) (hlt : pre.length + n < 2 ^ 64) :
    Packet.writeThrough (filled pre (n + r)) n bytes = some (filled (pre ++ bytes) r) := by
  have hstore := @store_eq bytes ((filled pre (n + r)).writeCompleted n) pre.length (fits_filled hn)
  exact hstore.trans (congrArg some (filled_append hn hlt))

lemma write_filled (hn : bytes.length = n) (hpos : n ≠ 0) (hlt : pre.length + n < 2 ^ 64) :
    (filled pre (n + r)).write bytes = some (filled (pre ++ bytes) r) := by
  have hstore := @store_eq bytes (filled pre (n + r)) (filled pre (n + r)).wpos (fits_filled hn)
  rw [MessageBuffer.write, if_neg (hn ▸ hpos), hstore, Option.map_some, hn]
  exact congrArg some (filled_append hn hlt)

/-- The bytes of a packet: the length of its header, the header and the body. -/
def Packet.encode (p : Packet) : List UInt8 := leBytes 2 p.header.byteSizeLong ++ p.header.serialize ++ p.bodyBytes

lemma length_bodyBytes (p : Packet) : p.bodyBytes.length = p.bodySize := by
  unfold Packet.bodyBytes Packet.bodySize
  cases p.body with
  | none => rfl
  | some message => exact message.length_serialize

lemma bodySize_lt (p : Packet) : p.bodySize < 2 ^ 31 := by
  unfold Packet.bodySize
  cases p.body with
  | none => exact Nat.two_pow_pos 31
  | some message => exact message.small.trans_lt (by norm_num)

/-- The buffer of a packet is full and holds just its bytes. -/
lemma buffer_eq (native : Endian) (p : Packet) : p.buffer native = some (filled p.encode 0) := by
  have hsmall := header_small p.header
  have hmod : p.header.byteSizeLong % 2 ^ 16 = p.header.byteSizeLong := Nat.mod_eq_of_lt (by omega)
  have hnew : MessageBuffer.ofSize (2 + p.header.byteSizeLong + p.bodySize) =
      filled [] (2 + (p.header.byteSizeLong + p.bodySize)) := by
    rw [Nat.add_assoc]
    rfl
  have hlen : (leBytes 2 p.header.byteSizeLong).length = 2 := length_leBytes 2 _
  simp only [Packet.buffer]
  rw [hmod, endianRefMakeLittle_store, hnew, write_filled hlen (by norm_num) (by simp), Option.bind_some,
    List.nil_append, writeThrough_filled (length_header p.header) (by rw [hlen]; omega), Option.bind_some]
  have hheader : (leBytes 2 p.header.byteSizeLong ++ p.header.serialize).length = 2 + p.header.byteSizeLong := by
    rw [List.length_append, hlen, length_header]
  unfold Packet.encode Packet.bodySize Packet.bodyBytes
  cases hp : p.body with
  | none => simp
  | some message =>
    have hsize := message.small.trans_lt (by norm_num : kIntMax < 2 ^ 31)
    have hfits : (leBytes 2 p.header.byteSizeLong ++ p.header.serialize).length + message.byteSizeLong < 2 ^ 64 := by
      omega
    exact writeThrough_filled (r := 0) message.length_serialize hfits

end Buffer

section Stream
variable {native : Endian} {p : Packet}

/-- A packet that a session sent, as a frame of the stream. -/
def Packet.frame (native : Endian) (p : Packet) (h : p.Wf) : Frame (headerProtocol native) where
  header := p.header
  headerBytes := p.header.serialize
  body := p.bodyBytes
  nonempty := serialize_ne_nil h.nonempty
  short := by
    rw [length_header]
    exact (header_small p.header).trans_lt (by norm_num)
  parses := parse_header p.header
  size := by
    have hsize : (headerProtocol native).size p.header = UInt32.ofNat p.bodySize := h.size
    have hlt := bodySize_lt p
    rw [length_bodyBytes, hsize, UInt32.toNat_ofNat']
    exact (Nat.mod_eq_of_lt (by omega)).symm

lemma encode_frame (h : p.Wf) : (p.frame native h).encode = p.encode := by
  rw [Frame.encode, Packet.encode, ← length_header]
  rfl

/-- What the other end gets from a packet. -/
def Packet.received (p : Packet) : Header × List UInt8 := (p.header, p.bodyBytes)

lemma nextFrame_packet (h : p.Wf) (c : List UInt8) :
    nextFrame (headerProtocol native) (p.encode ++ c) = some (.frame p.encode.length p.received) := by
  rw [← @encode_frame native p h]
  exact nextFrame_encode (p.frame native h) c

/-- Whatever part of the stream has arrived, and however it was cut: the packets taken out are the first
of those sent, and all of them when the whole stream has arrived. -/
lemma receive_packets {ps : List Packet} (hps : ∀ p ∈ ps, p.Wf) {chunks : List (List UInt8)} {unread : List UInt8}
    (hcut : chunks.flatten ++ unread = ps.flatMap Packet.encode) {fuel : ℕ} (hfuel : chunks.flatten.length + 1 < fuel) :
    ∃ t, receive (headerProtocol native) fuel chunks = some t ∧ t.started = true ∧
      t.packets <+: ps.map Packet.received ∧ (unread = [] → t.packets = ps.map Packet.received ∧ t.buffer = []) := by
  obtain ⟨t, ht, hinv, hidle⟩ := (receive_fuelled (P := headerProtocol native) chunks).eq_some hfuel
  refine ⟨t, ht, ?_⟩
  obtain ⟨rest, htaken, hrest⟩ := hinv.taken
  have hsent : Parsed (frames (headerProtocol native)) (chunks.flatten ++ unread) (ps.map Packet.received) [] := by
    have hall := @parsed_encode _ _ (frames (headerProtocol native)) _ Packet.encode Packet.received ps []
      fun p hp c => nextFrame_packet (hps p hp) c
    rwa [List.append_nil, ← hcut] at hall
  have hread : Parsed (frames (headerProtocol native)) (chunks.flatten ++ unread) t.packets
      (t.buffer ++ (rest ++ unread)) := by
    have happ := hinv.parsed.append (rest ++ unread)
    rwa [← List.append_assoc, ← htaken] at happ
  have hempty : ∀ {as r}, Parsed (frames (headerProtocol native)) [] as r → as = [] ∧ r = [] := by
    intro as r h
    cases h with
    | nil => exact ⟨rfl, rfl⟩
    | cons hn _ => cases hn
  -- what is left of the stream begins with no broken frame
  have hleft : t.packets <+: ps.map Packet.received ∧
      ∃ as, ps.map Packet.received = t.packets ++ as ∧
        Parsed (frames (headerProtocol native)) (t.buffer ++ (rest ++ unread)) as [] := by
    rcases hread.compare hsent with hmore | hless
    · obtain ⟨as, has, hp⟩ := hmore
      exact ⟨⟨as, has.symm⟩, as, has, hp⟩
    · obtain ⟨as, has, hp⟩ := hless
      obtain ⟨rfl, hnil⟩ := hempty hp
      rw [List.append_nil] at has
      rw [has, hnil]
      exact ⟨List.prefix_rfl, [], (List.append_nil _).symm, .nil []⟩
  obtain ⟨hinitial, as, has, hp⟩ := hleft
  have hrecv := hinv.recv
  cases hst : t.started with
  | false =>
    rw [hst, if_neg Bool.false_ne_true] at hrecv
    have hbad := nextFrame_stable _ _ hrecv.2 (rest ++ unread)
    generalize t.buffer ++ (rest ++ unread) = b at hp hbad
    cases hp with
    | nil => cases hbad
    | cons hn _ => cases hbad.symm.trans hn
  | true =>
    refine ⟨rfl, hinitial, fun hunread => ?_⟩
    obtain rfl := hrest hst
    rw [hst, if_pos rfl] at hrecv
    obtain ⟨r, hr, hexp⟩ := hrecv
    cases r with
    | completed n =>
      rw [TcpFraming.Session.complete, hr] at hidle
      cases hidle
    | waiting r =>
      have hwait := hexp.1
      rw [hunread, List.append_nil, List.append_nil] at hp
      generalize t.buffer = b at hp hwait
      cases hp with
      | nil => exact ⟨by rw [has, List.append_nil], rfl⟩
      | cons hn _ => cases hwait.symm.trans hn

end Stream

end TyphoonZero.Rpc
