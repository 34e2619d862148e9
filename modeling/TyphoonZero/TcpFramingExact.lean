import TyphoonZero.TcpFraming

/-! A session delivers the packets of its stream, however the stream is cut. -/
namespace TyphoonZero.TcpFraming
open ByteOrder ByteConverter Loop FrameStream

variable {Header : Type} (P : Protocol Header)

/-- What the front of a buffer holds, read at once. -/
def nextFrame (b : List UInt8) : Option (Verdict (Header × List UInt8)) :=
  if b.length < 2 then none
  else if ofLeBytes (b.take 2) = 0 then some .bad
  else if b.length < 2 + ofLeBytes (b.take 2) then none
  else
    match P.parseFromArray ((b.drop 2).take (ofLeBytes (b.take 2))) with
    | none => some .bad
    | some header =>
      if b.length < 2 + ofLeBytes (b.take 2) + (P.size header).toNat then none
      else some (.frame (2 + ofLeBytes (b.take 2) + (P.size header).toNat)
        (header, (b.drop (2 + ofLeBytes (b.take 2))).take (P.size header).toNat))

section NextFrame
variable {P} {b : List UInt8}

lemma nextFrame_short (h : b.length < 2) : nextFrame P b = none := if_pos h

lemma nextFrame_zero (h2 : 2 ≤ b.length) (h : ofLeBytes (b.take 2) = 0) : nextFrame P b = some .bad := by
  rw [nextFrame, if_neg (by omega), if_pos h]

section Header
variable {n : ℕ} (h2 : 2 ≤ b.length) (hn : ofLeBytes (b.take 2) = n) (h0 : n ≠ 0)
include h2 hn h0

lemma nextFrame_header_short (h : b.length < 2 + n) : nextFrame P b = none := by
  rw [nextFrame, if_neg (by omega), hn, if_neg h0, if_pos h]

lemma nextFrame_unparsed (hlen : 2 + n ≤ b.length) (h : P.parseFromArray ((b.drop 2).take n) = none) :
    nextFrame P b = some .bad := by
  rw [nextFrame, if_neg (by omega), hn, if_neg h0, if_neg (by omega), h]

lemma nextFrame_parsed {header : Header} (hlen : 2 + n ≤ b.length)
    (h : P.parseFromArray ((b.drop 2).take n) = some header) :
    nextFrame P b =
      if b.length < 2 + n + (P.size header).toNat then none
      else some (.frame (2 + n + (P.size header).toNat)
        (header, (b.drop (2 + n)).take (P.size header).toNat)) := by
  rw [nextFrame, if_neg (by omega), hn, if_neg h0, if_neg (by omega), h]

end Header

/-- Reading a buffer stops at one of four places. -/
lemma nextFrame_cases (b : List UInt8) : b.length < 2 ∨ 2 ≤ b.length ∧
    (ofLeBytes (b.take 2) = 0 ∨ ofLeBytes (b.take 2) ≠ 0 ∧
      (b.length < 2 + ofLeBytes (b.take 2) ∨ 2 + ofLeBytes (b.take 2) ≤ b.length)) := by
  omega

lemma nextFrame_stable (b : List UInt8) (v : Verdict (Header × List UInt8)) (h : nextFrame P b = some v)
    (c : List UInt8) : nextFrame P (b ++ c) = some v := by
  rcases nextFrame_cases b with hs | ⟨h2, hcase⟩
  · rw [nextFrame_short hs] at h
    cases h
  have htake : (b ++ c).take 2 = b.take 2 := List.take_append_of_le_length h2
  have hlen : (b ++ c).length = b.length + c.length := List.length_append
  rcases hcase with hz | ⟨hz, hshort | hfull⟩
  · rw [nextFrame_zero h2 hz] at h
    rw [nextFrame_zero (by omega) (by rw [htake, hz]), h]
  · rw [nextFrame_header_short h2 rfl hz hshort] at h
    cases h
  have hdrop : ((b ++ c).drop 2).take (ofLeBytes (b.take 2)) = (b.drop 2).take (ofLeBytes (b.take 2)) := by
    rw [List.drop_append_of_le_length h2, List.take_append_of_le_length (by simp; omega)]
  cases hp : P.parseFromArray ((b.drop 2).take (ofLeBytes (b.take 2))) with
  | none =>
    rw [nextFrame_unparsed h2 rfl hz hfull hp] at h
    rw [nextFrame_unparsed (by omega) (by rw [htake]) hz (by omega) (by rw [hdrop, hp]), h]
  | some header =>
    rw [nextFrame_parsed h2 rfl hz hfull hp] at h
    rw [nextFrame_parsed (by omega) (by rw [htake]) hz (by omega) (by rw [hdrop, hp])]
    split_ifs at h with hbody
    rw [if_neg (by omega), List.drop_append_of_le_length (by omega),
      List.take_append_of_le_length (by simp; omega), h]

lemma nextFrame_frame {n : ℕ} {a : Header × List UInt8} (h : nextFrame P b = some (.frame n a)) :
    2 ≤ b.length ∧ ofLeBytes (b.take 2) ≠ 0 ∧ n ≤ b.length ∧
      n = 2 + ofLeBytes (b.take 2) + (P.size a.1).toNat ∧
      P.parseFromArray ((b.drop 2).take (ofLeBytes (b.take 2))) = some a.1 ∧
      a.2 = (b.drop (2 + ofLeBytes (b.take 2))).take (P.size a.1).toNat := by
  rcases nextFrame_cases b with hs | ⟨h2, hcase⟩
  · rw [nextFrame_short hs] at h
    cases h
  rcases hcase with hz | ⟨hz, hshort | hfull⟩
  · rw [nextFrame_zero h2 hz] at h
    cases h
  · rw [nextFrame_header_short h2 rfl hz hshort] at h
    cases h
  cases hp : P.parseFromArray ((b.drop 2).take (ofLeBytes (b.take 2))) with
  | none =>
    rw [nextFrame_unparsed h2 rfl hz hfull hp] at h
    cases h
  | some header =>
    rw [nextFrame_parsed h2 rfl hz hfull hp] at h
    split_ifs at h with hbody
    cases h
    exact ⟨h2, hz, by omega, rfl, rfl, rfl⟩

end NextFrame

/-- The stream of a session as a stream of frames. -/
def frames : Reader UInt8 (Header × List UInt8) where
  next := nextFrame P
  stable := nextFrame_stable
  fits _ _ _ h := (nextFrame_frame h).2.2.1

lemma headerLength_toNat (b : List UInt8) : (P.headerLength b).toNat = ofLeBytes (b.take 2) := by
  have hlt := ofLeBytes_lt (b.take 2)
  have hpow : 256 ^ (b.take 2).length ≤ 256 ^ 2 := Nat.pow_le_pow_right (by norm_num) (by simp)
  rw [Protocol.headerLength, load_endianRefMakeLittle, UInt16.toNat_ofNat']
  exact Nat.mod_eq_of_lt (hlt.trans_le hpow)

/-- What a match condition has kept was read from the front of `b`. -/
structure Consistent (m : TcpMatchCondition) (b : List UInt8) : Prop where
  header : m.headerLen ≠ 0 → 2 ≤ b.length ∧ m.headerLen.toNat = ofLeBytes (b.take 2)
  packet : m.packetLen ≠ 0 → m.headerLen ≠ 0 ∧ 2 + m.headerLen.toNat ≤ b.length ∧
    ∃ header, P.parseFromArray ((b.drop 2).take m.headerLen.toNat) = some header ∧
      P.size header = m.packetLen

section Call
variable {P} {m : TcpMatchCondition} {b : List UInt8}

lemma consistent_new (b : List UInt8) : Consistent P {} b :=
  ⟨fun h => absurd rfl h, fun h => absurd rfl h⟩

lemma Consistent.append (h : Consistent P m b) (c : List UInt8) : Consistent P m (b ++ c) := by
  constructor
  · intro hm
    obtain ⟨h2, hlen⟩ := h.header hm
    refine ⟨by simp; omega, ?_⟩
    rwa [List.take_append_of_le_length h2]
  · intro hm
    obtain ⟨hne, hlen, header, hp, hsize⟩ := h.packet hm
    obtain ⟨h2, -⟩ := h.header hne
    refine ⟨hne, by simp; omega, header, ?_, hsize⟩
    rwa [List.drop_append_of_le_length h2, List.take_append_of_le_length (by simp; omega)]

/-- What a call answers about a buffer, as `nextFrame` sees it. -/
def Answers (P : Protocol Header) (b : List UInt8) (r : TcpMatchCondition × ℕ × Bool) : Prop :=
  match nextFrame P b with
  | none => r.2 = (0, false) ∧ Consistent P r.1 b
  | some (.frame n _) => r.2 = (n, true)
  | some .bad => r.2 = (0, true)

lemma matchPacket_answers {header : Header} (h : Consistent P m b) (hm : m.headerLen ≠ 0)
    (hlen : 2 + m.headerLen.toNat ≤ b.length)
    (hp : P.parseFromArray ((b.drop 2).take m.headerLen.toNat) = some header)
    (hsize : P.size header = m.packetLen) : Answers P b (m.matchPacket b) := by
  obtain ⟨h2, hread⟩ := h.header hm
  have hne : m.headerLen.toNat ≠ 0 := fun h0 => hm (UInt16.toNat_inj.mp h0)
  have hnext := nextFrame_parsed h2 hread.symm hne hlen hp
  unfold Answers
  have hk : kHeaderBytes = 2 := rfl
  rw [hnext, hsize, TcpMatchCondition.matchPacket]
  split_ifs with h1 h3
  · exact ⟨rfl, h⟩
  · omega
  · omega
  · rfl

/-- A call that goes on from what was kept answers as one that reads the whole
buffer anew. -/
theorem call_answers (h : Consistent P m b) : Answers P b (m.call P b) := by
  unfold TcpMatchCondition.call
  by_cases hshort : b.length < 2
  · rw [if_pos hshort, Answers, nextFrame_short hshort]
    exact ⟨rfl, h⟩
  rw [if_neg hshort]
  obtain ⟨m', hm'⟩ : ∃ m' : TcpMatchCondition, m' =
    if m.headerLen = 0 then { m with headerLen := P.headerLength b } else m := ⟨_, rfl⟩
  have hread : m'.headerLen.toNat = ofLeBytes (b.take 2) := by
    rw [hm']
    split_ifs with h0
    · exact headerLength_toNat P b
    · exact (h.header h0).2
  have hpacket : m'.packetLen = m.packetLen := by
    rw [hm']
    split_ifs <;> rfl
  have hkeep : m.headerLen ≠ 0 → m' = m := fun h0 => by rw [hm', if_neg h0]
  have hcons : Consistent P m' b := by
    refine ⟨fun _ => ⟨by omega, hread⟩, fun hne => ?_⟩
    rw [hpacket] at hne
    have hm := h.packet hne
    rw [hkeep hm.1]
    exact hm
  dsimp only
  rw [← hm']
  by_cases hzero : m'.headerLen = 0
  · rw [if_pos hzero, Answers, nextFrame_zero (by omega) (by rw [← hread, hzero]; rfl)]
  have hne : m'.headerLen.toNat ≠ 0 := fun h0 => hzero (UInt16.toNat_inj.mp h0)
  rw [if_neg hzero]
  by_cases hless : b.length - 2 < m'.headerLen.toNat
  · rw [if_pos hless, Answers, nextFrame_header_short (by omega) hread.symm hne (by omega)]
    exact ⟨rfl, hcons⟩
  rw [if_neg hless]
  have hlen : 2 + m'.headerLen.toNat ≤ b.length := by omega
  by_cases hnew : m'.packetLen = 0
  · rw [if_pos hnew]
    cases hp : P.parseFromArray ((b.drop 2).take m'.headerLen.toNat) with
    | none =>
      rw [Answers, nextFrame_unparsed (by omega) hread.symm hne (by omega) hp]
    | some header =>
      dsimp only
      split_ifs with hsize
      · rw [Answers, nextFrame_parsed (by omega) hread.symm hne (by omega) hp, hsize]
        rw [if_neg (by simp; omega)]
        simp
      · refine @matchPacket_answers _ _ { m' with packetLen := P.size header } b header ?_ hzero hlen hp rfl
        exact ⟨hcons.header, fun _ => ⟨hzero, hlen, header, hp, rfl⟩⟩
  · rw [if_neg hnew]
    obtain ⟨-, -, header, hp, hsize⟩ := hcons.packet hnew
    exact matchPacket_answers hcons hzero hlen hp hsize

end Call

section Session
variable {P} {s : Session Header} {b : List UInt8}

/-- A read agrees with the buffer it searches. -/
def Expected (P : Protocol Header) (b : List UInt8) : Recv → Prop
  | .waiting r => nextFrame P b = none ∧ r.searchPosition = 0 ∧ Consistent P r.matchCondition b
  | .completed n => (∃ a, nextFrame P b = some (.frame n a)) ∨ n = 0 ∧ nextFrame P b = some .bad

lemma search_expected {r : ReadUntil} (h0 : r.searchPosition = 0) (hc : Consistent P r.matchCondition b) :
    Expected P b (r.search P b) := by
  have hans := call_answers hc
  rw [ReadUntil.search, h0, List.drop_zero]
  unfold Answers at hans
  cases hn : nextFrame P b with
  | none =>
    rw [hn] at hans
    rw [show (r.matchCondition.call P b) = ((r.matchCondition.call P b).1, 0, false) from
      Prod.ext rfl hans.1]
    exact ⟨hn, rfl, hans.2⟩
  | some v =>
    rw [hn] at hans
    cases v with
    | frame n a =>
      rw [show (r.matchCondition.call P b) = ((r.matchCondition.call P b).1, n, true) from
        Prod.ext rfl hans]
      exact .inl ⟨a, by simpa using hn⟩
    | bad =>
      rw [show (r.matchCondition.call P b) = ((r.matchCondition.call P b).1, 0, true) from
        Prod.ext rfl hans]
      exact .inr ⟨rfl, hn⟩

/-- The handler finds the frame that the match condition found. -/
lemma unpack_frame {n : ℕ} {a : Header × List UInt8} (h : nextFrame P b = some (.frame n a)) :
    P.unpack b n = some a := by
  obtain ⟨-, hz, -, rfl, hp, hbody⟩ := nextFrame_frame h
  have hread := headerLength_toNat P b
  have hne : P.headerLength b ≠ 0 := by
    intro h0
    rw [h0] at hread
    exact hz hread.symm
  have hsum : (P.size a.1 + (P.headerLength b).toUInt32 + 2).toNat ≤
      2 + ofLeBytes (b.take 2) + (P.size a.1).toNat := by
    simp only [UInt32.toNat_add, UInt16.toNat_toUInt32, hread]
    have hmod := Nat.mod_le (((P.size a.1).toNat + ofLeBytes (b.take 2)) % 2 ^ 32 + 2) (2 ^ 32)
    have hmod' := Nat.mod_le ((P.size a.1).toNat + ofLeBytes (b.take 2)) (2 ^ 32)
    exact hmod.trans (by omega)
  unfold Protocol.unpack
  dsimp only
  rw [hread, if_neg, hp]
  · dsimp only
    split_ifs with hsize hover
    · rw [hsize] at hbody
      exact congrArg some (Prod.ext rfl (by rw [hbody]; rfl))
    · omega
    · exact congrArg some (Prod.ext rfl hbody.symm)
  · intro hbad
    rcases hbad with h0 | hgt
    · exact hne h0
    · have hk : kHeaderBytes = 2 := rfl
      omega

/-- A session that has taken a part of `received` from its stream. -/
structure Inv (P : Protocol Header) (received : List UInt8) (s : Session Header) : Prop where
  taken : ∃ unread, received = s.consumed ++ s.buffer ++ unread ∧ (s.started = true → unread = [])
  parsed : Parsed (frames P) (s.consumed ++ s.buffer) s.packets s.buffer
  matchCondition : s.matchCondition = {}
  recv : if s.started then ∃ r, s.recv = some r ∧ Expected P s.buffer r
    else s.recv = none ∧ nextFrame P s.buffer = some .bad

variable {received chunk : List UInt8}

lemma start_inv : Inv P [] (({} : Session Header).tcpPostRecv P) :=
  ⟨⟨[], rfl, fun _ => rfl⟩, .nil [], rfl, _, rfl, search_expected rfl (consistent_new [])⟩

/-- A handler takes a packet from the buffer or disconnects. -/
lemma complete_inv {k : ℕ} {t : Session Header} (h : Inv P received s)
    (hk : k = if s.started then s.buffer.length + 1 else 0) (hs : s.complete P = some t) :
    ∃ k' < k, Inv P received t ∧ k' = if t.started then t.buffer.length + 1 else 0 := by
  cases hst : s.started with
  | false =>
    have hrecv := h.recv
    rw [hst, if_neg Bool.false_ne_true] at hrecv
    rw [Session.complete, hrecv.1] at hs
    cases hs
  | true =>
    have hrecv := h.recv
    rw [hst, if_pos rfl] at hrecv hk
    obtain ⟨r, hr, hexp⟩ := hrecv
    obtain ⟨unread, htaken, hunread⟩ := h.taken
    obtain rfl := hunread hst
    cases r with
    | waiting r =>
      rw [Session.complete, hr] at hs
      cases hs
    | completed n =>
      rw [Session.complete, hr] at hs
      cases hs
      rcases hexp with hframe | ⟨rfl, hbad⟩
      · obtain ⟨a, ha⟩ := hframe
        obtain ⟨h2, -, hle, hn, -⟩ := nextFrame_frame ha
        rw [Session.tcpHandleRecv, if_neg (by omega), if_pos rfl, unpack_frame ha]
        refine ⟨(s.buffer.drop n).length + 1, by simp; omega, ?_⟩
        have hconsumed : s.consumed ++ s.buffer.take n ++ s.buffer.drop n = s.consumed ++ s.buffer := by
          rw [List.append_assoc, List.take_append_drop]
        simp only [Session.tcpPostRecv, Session.consume, Session.fireRecv, hst, if_true]
        refine ⟨⟨⟨[], ?_, fun _ => rfl⟩, ?_, h.matchCondition, ?_⟩, trivial⟩
        · rw [hconsumed, htaken]
        · rw [hconsumed]
          exact h.parsed.snoc ha
        · refine ⟨_, rfl, search_expected rfl ?_⟩
          rw [h.matchCondition]
          exact consistent_new _
      · rw [Session.tcpHandleRecv, if_pos rfl]
        exact ⟨0, by omega, ⟨⟨[], htaken, fun _ => rfl⟩, h.parsed, h.matchCondition, rfl, hbad⟩, rfl⟩

/-- After a chunk the session waits for the next one or is disconnected. -/
theorem arrive_fuelled {fuel : ℕ} (h : Inv P received s) (hidle : s.complete P = none) :
    Fuelled ((received ++ chunk).length + 1 < fuel) (s.arrive P fuel chunk) fun t =>
      Inv P (received ++ chunk) t ∧ t.complete P = none := by
  obtain ⟨unread, htaken, hunread⟩ := h.taken
  cases hst : s.started with
  | false =>
    have hrecv := h.recv
    rw [hst, if_neg Bool.false_ne_true] at hrecv
    rw [Session.arrive, hrecv.1]
    refine .some ⟨⟨⟨unread ++ chunk, ?_, fun ht => ?_⟩, h.parsed, h.matchCondition, h.recv⟩, hidle⟩
    · rw [htaken, List.append_assoc]
    · rw [hst] at ht
      cases ht
  | true =>
    have hrecv := h.recv
    rw [hst, if_pos rfl] at hrecv
    obtain ⟨r, hr, hexp⟩ := hrecv
    obtain rfl := hunread hst
    cases r with
    | completed n =>
      rw [Session.complete, hr] at hidle
      cases hidle
    | waiting r =>
      obtain ⟨-, h0, hc⟩ := hexp
      rw [Session.arrive, hr]
      have hinv : Inv P (received ++ chunk) { s with
          buffer := s.buffer ++ chunk
          recv := some (r.search P (s.buffer ++ chunk)) } := by
        refine ⟨⟨[], ?_, fun _ => rfl⟩, ?_, h.matchCondition, ?_⟩
        · simp [htaken]
        · have hp := h.parsed.append chunk
          rwa [List.append_assoc] at hp
        · simp only [hst, if_true]
          exact ⟨_, rfl, search_expected h0 (hc.append chunk)⟩
      have hloop := whileSome_fuelled (n := fuel)
        (I := fun k t => Inv P (received ++ chunk) t ∧ k = if t.started then t.buffer.length + 1 else 0)
        (fun k a b hab hstep => complete_inv hab.1 hab.2 hstep) ⟨hinv, rfl⟩
      refine (hloop.enough fun hf => ?_).weaken fun t ht => ?_
      · simp only [hst, if_true, htaken, List.length_append, List.append_nil] at hf ⊢
        omega
      · obtain ⟨⟨k, hk⟩, hnone⟩ := ht
        exact ⟨hk.1, hnone⟩

lemma receive_fuelled {fuel : ℕ} (chunks : List (List UInt8)) :
    Fuelled (chunks.flatten.length + 1 < fuel) (receive P fuel chunks) fun t =>
      Inv P chunks.flatten t ∧ t.complete P = none := by
  have hfold : ∀ (chunks : List (List UInt8)) (received : List UInt8) (s : Session Header),
      Inv P received s → s.complete P = none →
      Fuelled ((received ++ chunks.flatten).length + 1 < fuel)
        (chunks.foldlM (fun s chunk => s.arrive P fuel chunk) s) fun t =>
          Inv P (received ++ chunks.flatten) t ∧ t.complete P = none := by
    intro chunks
    induction chunks with
    | nil =>
      intro received s h hidle
      simp only [List.flatten_nil, List.append_nil]
      exact .some ⟨h, hidle⟩
    | cons chunk chunks ih =>
      intro received s h hidle
      rw [List.foldlM_cons, List.flatten_cons, ← List.append_assoc]
      refine ((arrive_fuelled h hidle).enough fun hf => ?_).bind fun t ht => ih _ t ht.1 ht.2
      simp only [List.length_append] at hf ⊢
      omega
  exact hfold chunks [] _ start_inv rfl

end Session

/-- A frame of a stream: the bytes of its header parse as `header`, which tells
the size of the body. -/
structure Frame (P : Protocol Header) where
  header : Header
  headerBytes : List UInt8
  body : List UInt8
  nonempty : headerBytes ≠ []
  short : headerBytes.length < 2 ^ 16
  parses : P.parseFromArray headerBytes = some header
  size : body.length = (P.size header).toNat

def Frame.encode {P : Protocol Header} (f : Frame P) : List UInt8 :=
  leBytes 2 f.headerBytes.length ++ f.headerBytes ++ f.body

def Frame.packet {P : Protocol Header} (f : Frame P) : Header × List UInt8 := (f.header, f.body)

/-- A rest of a stream that does not begin with a header. -/
inductive Malformed (P : Protocol Header) : List UInt8 → Prop
  | noHeader (tail) : Malformed P (leBytes 2 0 ++ tail)
  | unparsed (headerBytes tail) : headerBytes ≠ [] → headerBytes.length < 2 ^ 16 →
      P.parseFromArray headerBytes = none →
      Malformed P (leBytes 2 headerBytes.length ++ headerBytes ++ tail)

section Exact
variable {P}

lemma take_length_field {n : ℕ} (hn : n < 2 ^ 16) (c : List UInt8) :
    ofLeBytes ((leBytes 2 n ++ c).take 2) = n := by
  have htake : (leBytes 2 n ++ c).take 2 = leBytes 2 n := by
    rw [List.take_append_of_le_length (by simp), List.take_of_length_le (by simp)]
  rw [htake, ofLeBytes_leBytes]
  exact Nat.mod_eq_of_lt hn

lemma drop_length_field (n : ℕ) (c : List UInt8) : (leBytes 2 n ++ c).drop 2 = c :=
  List.drop_left' (length_leBytes 2 n)

lemma nextFrame_encode (f : Frame P) (c : List UInt8) :
    nextFrame P (f.encode ++ c) = some (.frame f.encode.length f.packet) := by
  have hne : f.headerBytes.length ≠ 0 := fun h0 => f.nonempty (List.length_eq_zero_iff.mp h0)
  have hlen : f.encode.length = 2 + f.headerBytes.length + (P.size f.header).toNat := by
    simp [Frame.encode, f.size, Nat.add_assoc]
  have hsplit : f.encode ++ c = leBytes 2 f.headerBytes.length ++ (f.headerBytes ++ (f.body ++ c)) := by
    simp [Frame.encode]
  have htotal : (f.encode ++ c).length = 2 + f.headerBytes.length + (P.size f.header).toNat + c.length := by
    rw [List.length_append, hlen]
  have hheader : ((f.encode ++ c).drop 2).take f.headerBytes.length = f.headerBytes := by
    rw [hsplit, drop_length_field, List.take_left' rfl]
  have hbody : ((f.encode ++ c).drop (2 + f.headerBytes.length)).take (P.size f.header).toNat = f.body := by
    rw [hsplit, ← List.drop_drop, drop_length_field, List.drop_left' rfl, List.take_left' f.size]
  rw [nextFrame_parsed (by omega) (by rw [hsplit, take_length_field f.short]) hne (by omega)
    (by rw [hheader, f.parses]), if_neg (by omega), hbody, hlen]
  rfl

lemma nextFrame_malformed {b : List UInt8} (h : Malformed P b) : nextFrame P b = some .bad := by
  cases h with
  | noHeader tail => exact nextFrame_zero (by simp) (take_length_field (by norm_num) tail)
  | unparsed headerBytes tail hne hshort hparse =>
    have hne' : headerBytes.length ≠ 0 := fun h0 => hne (List.length_eq_zero_iff.mp h0)
    rw [List.append_assoc]
    refine nextFrame_unparsed (by simp) (take_length_field hshort _) hne' (by simp) ?_
    rw [drop_length_field, List.take_left' rfl, hparse]

/-- However the stream of the frames `fs` is cut, exactly their packets are
delivered and their bytes consumed; a malformed rest disconnects the session. -/
theorem tcp_framing (fs : List (Frame P)) {rest : List UInt8} (hrest : rest = [] ∨ Malformed P rest)
    {chunks : List (List UInt8)} (hcut : chunks.flatten = fs.flatMap Frame.encode ++ rest) {fuel : ℕ}
    (hfuel : chunks.flatten.length + 1 < fuel) :
    ∃ s, receive P fuel chunks = some s ∧ s.packets = fs.map Frame.packet ∧
      s.consumed = fs.flatMap Frame.encode ∧
      (rest = [] → s.started = true ∧ s.buffer = []) ∧ (Malformed P rest → s.started = false) := by
  obtain ⟨s, hs, hinv, hidle⟩ := (receive_fuelled (P := P) chunks).eq_some hfuel
  refine ⟨s, hs, ?_⟩
  obtain ⟨unread, htaken, hunread⟩ := hinv.taken
  have hsent : Parsed (frames P) chunks.flatten (fs.map Frame.packet) rest := by
    rw [hcut]
    exact parsed_encode fs rest fun f _ c => nextFrame_encode f c
  have hread : Parsed (frames P) chunks.flatten s.packets (s.buffer ++ unread) := by
    rw [htaken]
    exact hinv.parsed.append unread
  have hstop : ∀ n a, (frames P).next rest ≠ some (.frame n a) := by
    intro n a h
    rcases hrest with rfl | hbad
    · cases h
    · rw [show (frames P).next rest = some .bad from nextFrame_malformed hbad] at h
      cases h
  have hrecv := hinv.recv
  have hconsumed : s.buffer ++ unread = rest → s.consumed = fs.flatMap Frame.encode := by
    intro he
    rw [htaken, List.append_assoc, he] at hcut
    exact List.append_cancel_right hcut
  cases hst : s.started with
  | true =>
    obtain rfl := hunread hst
    rw [hst, if_pos rfl] at hrecv
    obtain ⟨r, hr, hexp⟩ := hrecv
    cases r with
    | completed n =>
      rw [Session.complete, hr] at hidle
      cases hidle
    | waiting r =>
      rw [List.append_nil] at hread hconsumed
      have hwait : ∀ n a, (frames P).next s.buffer ≠ some (.frame n a) := by
        intro n a h
        rw [show (frames P).next s.buffer = none from hexp.1] at h
        cases h
      obtain ⟨hpackets, hbuffer⟩ := hread.unique hsent hwait hstop
      refine ⟨hpackets, hconsumed hbuffer, fun he => ⟨rfl, hbuffer.trans he⟩, fun hbad => ?_⟩
      have hnone := hexp.1
      rw [hbuffer, nextFrame_malformed hbad] at hnone
      cases hnone
  | false =>
    rw [hst, if_neg Bool.false_ne_true] at hrecv
    have hbad := nextFrame_stable _ _ hrecv.2 unread
    have hstuck : ∀ n a, (frames P).next (s.buffer ++ unread) ≠ some (.frame n a) := by
      intro n a h
      rw [show (frames P).next (s.buffer ++ unread) = some .bad from hbad] at h
      cases h
    obtain ⟨hpackets, hbuffer⟩ := hread.unique hsent hstuck hstop
    refine ⟨hpackets, hconsumed hbuffer, fun he => ?_, fun _ => rfl⟩
    rw [hbuffer, he] at hbad
    cases hbad

end Exact

/-- A header with the field `size` below 128 and no other field. -/
def sizeOnly : Protocol UInt32 where
  native := .little
  parseFromArray
    | [0x20, size] => if size < 0x80 then some size.toUInt32 else none
    | _ => none
  size := id

/-- Two frames, of one and of no byte, cut inside the first length and inside
the second header; then the same with a rest whose header has no bytes. -/
theorem tcp_framing_two_frames :
    (∃ s, receive sizeOnly 20 [[2], [0, 0x20, 1, 7, 2, 0, 0x20], [0]] = some s ∧
      s.packets = [(1, [7]), (0, [])] ∧ s.started = true) ∧
    ∃ s, receive sizeOnly 20 [[2], [0, 0x20, 1, 7, 2, 0, 0x20], [0, 0], [0, 9]] = some s ∧
      s.packets = [(1, [7]), (0, [])] ∧ s.started = false := by
  let f : Frame sizeOnly := ⟨1, [0x20, 1], [7], by simp, by simp, rfl, rfl⟩
  let g : Frame sizeOnly := ⟨0, [0x20, 0], [], by simp, by simp, rfl, rfl⟩
  have hcut : [[2], [0, 0x20, 1, 7, 2, 0, 0x20], [0]].flatten = [f, g].flatMap Frame.encode ++ [] := by
    decide
  obtain ⟨s, hs, hpackets, -, hok, -⟩ := @tcp_framing UInt32 sizeOnly [f, g] [] (.inl rfl) _ hcut 20 (by decide)
  have hbad : Malformed sizeOnly [0, 0, 9] := .noHeader [9]
  have hcut' : [[2], [0, 0x20, 1, 7, 2, 0, 0x20], [0, 0], [0, 9]].flatten =
      [f, g].flatMap Frame.encode ++ [0, 0, 9] := by
    decide
  obtain ⟨s', hs', hpackets', -, -, hstopped⟩ :=
    @tcp_framing UInt32 sizeOnly [f, g] [0, 0, 9] (.inr hbad) _ hcut' 20 (by decide)
  exact ⟨⟨s, hs, hpackets, (hok rfl).1⟩, s', hs', hpackets', hstopped hbad⟩

end TyphoonZero.TcpFraming
