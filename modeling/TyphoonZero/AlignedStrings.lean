import TyphoonZero.ByteBufferBounds
import TyphoonZero.ByteBufferRoundtrip

/-! Strings of a known length between groups of bits. A string begins at a whole byte;
the reader skips to it always, the writer only when there is a character to write. -/
namespace TyphoonZero.ByteBuffer
open ByteOrder ByteConverter BitStream Loop

/-- `WriteBits` or `WriteString`. -/
inductive Part
  | bits (n : ℕ) (value : UInt64)
  | chars (str : List UInt8)

/-- A part without the value of its bits: all that the positions depend on. -/
inductive Shape
  | bits (n : ℕ)
  | chars (str : List UInt8)

def Part.shape : Part → Shape
  | .bits n _ => .bits n
  | .chars str => .chars str

/-- What `ReadBits` or `ReadString` returns. -/
inductive Got
  | bits (value : UInt32)
  | chars (str : List UInt8)

def Part.Matches : Part → Got → Prop
  | .bits n value, .bits v => v.toNat = value.toNat % 2 ^ n
  | .chars str, .chars s => s = str
  | _, _ => False

def writePart (b : ByteBuffer) : Part → Except Fault ByteBuffer
  | .bits n value => ByteBuffer.writeBits value n b
  | .chars str => b.writeChars str

/-- All parts, written to an empty buffer, and the last bits. -/
def writeParts (parts : List Part) : Except Fault ByteBuffer := do
  let b ← parts.foldlM writePart {}
  b.flushBits

/-- The mirrored call; `ReadString` takes the length as 32 bits. -/
def readPart (native : Endian) (b : ByteBuffer) : Shape → Except Fault (Got × ByteBuffer)
  | .bits n => (b.readBits native n).map fun r => (.bits r.1, r.2)
  | .chars str =>
    let o := b.readChars (UInt32.ofNat str.length)
    o.value.map fun s => (.chars s, o.after)

def readParts (native : Endian) : List Shape → ByteBuffer → Except Fault (List Got × ByteBuffer)
  | [], b => pure ([], b)
  | s :: shapes, b => do
    let (g, b) ← readPart native b s
    let (got, b) ← readParts native shapes b
    pure (g :: got, b)

/-- The mirrored calls return all parts and end at the end of the buffer. -/
def RoundTrips (native : Endian) (parts : List Part) : Prop :=
  ∃ b, writeParts parts = .ok b ∧ ∃ got b', readParts native (parts.map Part.shape) b = .ok (got, b') ∧
    List.Forall₂ Part.Matches parts got ∧ b'.rpos = b'.storage.length

/-- The next whole byte of a stream. -/
def up (p : ℕ) : ℕ := 8 * ((p + 7) / 8)

/-- The position in the stream behind a part that is written at `p`. -/
def Shape.next (p : ℕ) : Shape → ℕ
  | .bits n => p + n
  | .chars str => if str = [] then p else up p + 8 * str.length

/-- The position behind a part that is read at `q`: an empty string stands at a whole byte, too. -/
def Shape.readNext (q : ℕ) : Shape → ℕ
  | .bits n => q + n
  | .chars str => up q + 8 * str.length

/-- Every `Append` of a part at `p` begins below the limit. -/
def Shape.Fits (p : ℕ) : Shape → Prop
  | .bits n => Room p (p + n)
  | .chars str => str = [] ∨ p / 8 < limit

def Fit : ℕ → List Shape → Prop
  | p, [] => p % 8 = 0 ∨ p / 8 < limit
  | p, s :: shapes => s.Fits p ∧ Fit (s.next p) shapes

/-- The bits that a part adds to a stream of `p` bits. -/
def Part.encode (p : ℕ) : Part → List Bool
  | .bits n value => writtenBits value n
  | .chars str => if str = [] then [] else List.replicate ((8 - p % 8) % 8) false ++ bytesBits str

def encodeParts : ℕ → List Part → List Bool
  | _, [] => []
  | p, part :: parts => part.encode p ++ encodeParts (part.shape.next p) parts

/-- The number that `ReadBits` makes of bits, the highest position first. -/
def gather : List Bool → UInt32 → UInt32
  | [], value => value
  | bit :: bits, value => gather bits (if bit then value ||| 0x1 <<< UInt32.ofNat bits.length else value)

/-- A part of a stream that was written at `p` and is read at `q`: 32 bits hold its number or its length, and if
the two places differ, the same stands at the other one. -/
def Part.Found (stream : List Bool) (p q : ℕ) : Part → Prop
  | .bits n value => value.toNat % 2 ^ n < 2 ^ 32 ∧
      (q = p ∨ q + n ≤ stream.length ∧ (gather ((stream.drop q).take n) 0).toNat = value.toNat % 2 ^ n)
  | .chars str => str.length < 2 ^ 32 ∧ (up q = up p ∨ bytesBits str <+: stream.drop (up q))

/-- All parts are found, and the reader ends in the byte in which the writer ended. -/
def Found (stream : List Bool) : ℕ → ℕ → List Part → Prop
  | p, q, [] => up q = up p
  | p, q, part :: parts =>
    part.Found stream p q ∧ Found stream (part.shape.next p) (part.shape.readNext q) parts

section Write
variable {w : List Bool} {b : ByteBuffer}

lemma length_encode (w : List Bool) (part : Part) :
    (w ++ part.encode w.length).length = part.shape.next w.length := by
  cases part with
  | bits n value => rw [List.length_append, Part.encode, length_writtenBits, Part.shape, Shape.next]
  | chars str =>
    by_cases hnil : str = []
    · simp only [Part.encode, Part.shape, Shape.next, if_pos hnil, List.append_nil]
    · simp only [Part.encode, Part.shape, Shape.next, up, if_neg hnil, List.length_append, List.length_replicate,
        length_bytesBits]
      omega

lemma writePart_exact (part : Part) (h : Writing w b) :
    Exactly (part.shape.Fits w.length) (writePart b part) (Writing (w ++ part.encode w.length)) := by
  cases part with
  | bits n value => exact writeBits_written value h
  | chars str =>
    change Exactly (str = [] ∨ w.length / 8 < limit) (b.writeChars str) _
    unfold ByteBuffer.writeChars
    by_cases hnil : str = []
    · rw [if_neg (by simp [hnil]), Part.encode, if_pos hnil, List.append_nil]
      exact ⟨.inl hnil, h⟩
    · rw [if_pos fun hlen => hnil (List.length_eq_zero_iff.mp hlen), Part.encode, if_neg hnil,
        ← List.append_assoc]
      exact (append_exact h hnil).iff (by simp [hnil])

/-- The writer refuses just when a part does not fit. -/
lemma foldlM_exact {parts : List Part} (h : Writing w b) :
    Exactly (Fit w.length (parts.map Part.shape)) (parts.foldlM writePart b >>= ByteBuffer.flushBits)
      fun b' => Writing (align (w ++ encodeParts w.length parts)) b' ∧ b'.bitpos = kInitialBitPos := by
  induction parts generalizing w b with
  | nil =>
    rw [encodeParts, List.append_nil]
    exact flushBits_exact h
  | cons part parts ih =>
    rw [List.map_cons, Fit, List.foldlM_cons, bind_assoc, encodeParts, ← List.append_assoc, ← length_encode]
    exact (writePart_exact part h).bind fun b' hb' => ih hb'

/-- What is in the buffer before the first read. -/
lemma writeParts_exact (parts : List Part) :
    Exactly (Fit 0 (parts.map Part.shape)) (writeParts parts) fun b =>
      Reading 0 b ∧ bytesBits b.storage = align (encodeParts 0 parts) := by
  refine (foldlM_exact writing_empty).weaken fun b hb => ?_
  obtain ⟨⟨hrpos, -, pending, hw, -, hpos, -⟩, h8⟩ := hb
  have hnil : pending = [] := List.length_eq_zero_iff.mp (by omega)
  rw [hnil, List.append_nil] at hw
  refine ⟨.inl ⟨rfl, hrpos, ?_, h8.le⟩, hw.symm⟩
  rw [h8]
  decide

/-- No part begins above the limit. -/
lemma length_encodeParts_le {parts : List Part} {p : ℕ} (hfit : Fit p (parts.map Part.shape))
    (hshort : ∀ str, .chars str ∈ parts → str.length < 2 ^ 32) (hp : p / 8 ≤ limit + 2 ^ 32) :
    (p + (encodeParts p parts).length) / 8 ≤ limit + 2 ^ 32 := by
  induction parts generalizing p with
  | nil => exact hp
  | cons part parts ih =>
    have hlen := length_encode (List.replicate p false) part
    rw [List.length_append, List.length_replicate] at hlen
    rw [encodeParts, List.length_append, ← Nat.add_assoc, hlen]
    refine ih hfit.2 (fun str hstr => hshort str (List.mem_cons_of_mem _ hstr)) ?_
    cases part with
    | bits n value =>
      rcases hfit.1 with hsame | hroom
      · exact hsame.trans_le hp
      · exact hroom.trans (Nat.le_add_right _ _)
    | chars str =>
      have hstr := hshort str List.mem_cons_self
      rw [Part.shape, Shape.next]
      split_ifs with hnil
      · exact hp
      · have hbegin := hfit.1.resolve_left hnil
        unfold up
        omega

end Write

section Gather

lemma shift_mod (value : UInt64) (i : ℕ) : value >>> UInt64.ofNat i = value >>> UInt64.ofNat (i % 64) := by
  apply UInt64.toNat_inj.mp
  simp only [UInt64.toNat_shiftRight, UInt64.toNat_ofNat']
  congr 1
  omega

lemma one_shift_mod (i : ℕ) : (0x1 : UInt32) <<< UInt32.ofNat i = 0x1 <<< UInt32.ofNat (i % 32) := by
  apply UInt32.toNat_inj.mp
  simp only [UInt32.toNat_shiftLeft, UInt32.toNat_ofNat']
  congr 2
  omega

/-- Every shift is taken modulo the width. -/
lemma testBit_gather (value : UInt64) (n j : ℕ) (acc : UInt32) :
    (gather (writtenBits value n) acc).toNat.testBit j = true ↔
      acc.toNat.testBit j = true ∨ ∃ i < n, i % 32 = j ∧ value.toNat.testBit (i % 64) = true := by
  induction n generalizing acc with
  | zero => simp [writtenBits, gather]
  | succ n ih =>
    have hbit := testBit_of_shift value (Nat.mod_lt n (by norm_num : 64 > 0))
    rw [← shift_mod] at hbit
    rw [writtenBits, gather, length_writtenBits, ih, hbit, Nat.exists_lt_succ_right]
    split_ifs with hset
    · rw [UInt32.toNat_or, Nat.testBit_or, one_shift_mod, toNat_one_shift (Nat.mod_lt _ (by norm_num)),
        Nat.testBit_two_pow, Bool.or_eq_true, decide_eq_true_eq, and_iff_left hset, or_right_comm, or_assoc]
    · simp only [hset, Bool.false_eq_true, and_false, or_false]

/-- A group is read back when its number has 32 bits. -/
lemma gather_written {value : UInt64} {n : ℕ} (h : value.toNat % 2 ^ n < 2 ^ 32) :
    (gather (writtenBits value n) 0).toNat = value.toNat % 2 ^ n := by
  have hsmall : ∀ j, 32 ≤ j → (value.toNat % 2 ^ n).testBit j = false := fun j hj =>
    Nat.testBit_lt_two_pow (h.trans_le (Nat.pow_le_pow_right (by norm_num) hj))
  refine Nat.eq_of_testBit_eq fun j => Bool.eq_iff_iff.mpr ?_
  rw [testBit_gather, Nat.testBit_mod_two_pow, Bool.and_eq_true, decide_eq_true_eq]
  constructor
  · rintro (hzero | ⟨i, hi, rfl, hset⟩)
    · simp at hzero
    · have hlow : i % 64 < 32 := by
        by_contra hhigh
        have hfalse := hsmall (i % 64) (by omega)
        rw [Nat.testBit_mod_two_pow, decide_eq_true (show i % 64 < n by omega), hset] at hfalse
        cases hfalse
      have heq : i % 32 = i % 64 := by omega
      rw [heq]
      exact ⟨by omega, hset⟩
  · rintro ⟨hj, hset⟩
    have hlow : j < 32 := by
      by_contra hhigh
      have hfalse := hsmall j (by omega)
      rw [Nat.testBit_mod_two_pow, decide_eq_true hj, hset] at hfalse
      cases hfalse
    refine .inr ⟨j, hj, Nat.mod_eq_of_lt hlow, ?_⟩
    rwa [Nat.mod_eq_of_lt (by omega)]

end Gather

section Read
variable {native : Endian} {w : List Bool} {b : ByteBuffer} {q : ℕ}

lemma readBit_none (h : Reading q b) (hget : (bytesBits b.storage)[q]? = none) : ∃ x, b.readBit native = .error x := by
  have hsize := List.getElem?_eq_none_iff.mp hget
  rw [length_bytesBits] at hsize
  rcases h with ⟨-, hrpos, hlo, -⟩ | ⟨-, -, -, hcur⟩
  · have hk : kBoundaryBitPos = 7 := rfl
    have hout : b.rpos + 1 > b.storage.length := by omega
    refine ⟨.byteBufferException b.rpos 1 b.storage.length, ?_⟩
    rw [ByteBuffer.readBit]
    dsimp only
    rw [if_pos (by omega), ByteBuffer.read, ByteBuffer.resetBitPos]
    dsimp only
    rw [if_pos (by omega), ByteBuffer.peek]
    dsimp only
    rw [if_pos hout]
    rfl
  · -- inside a byte there is one
    have hlt := (List.getElem?_eq_some_iff.mp hcur).1
    omega

lemma readBitsLoop_gather {n : ℕ} (h : Reading q b) (hn : q + n ≤ (bytesBits b.storage).length) (value : UInt32) :
    ∃ b', ByteBuffer.readBitsLoop native n value b =
        .ok (gather (((bytesBits b.storage).drop q).take n) value, b') ∧ Reading (q + n) b' ∧ Keeps b b' := by
  induction n generalizing q b value with
  | zero => exact ⟨b, rfl, h, rfl, rfl⟩
  | succ n ih =>
    have hlt : q < (bytesBits b.storage).length := by omega
    have hrun : Runs (b.readBit native) _ := readBit_runs h (List.getElem?_eq_getElem hlt)
    obtain ⟨⟨bit, b₁⟩, hread, rfl, hreading, hkeep⟩ := hrun.exists_ok trivial
    have hn' : q + 1 + n ≤ (bytesBits b₁.storage).length := by
      rw [hkeep.1]
      omega
    obtain ⟨b', hloop, hreading', hkeep'⟩ :=
      ih hreading hn' (if (bytesBits b.storage)[q] then value ||| 0x1 <<< UInt32.ofNat n else value)
    refine ⟨b', ?_, by rwa [Nat.add_right_comm] at hreading', hkeep.trans hkeep'⟩
    have hlen : (((bytesBits b.storage).drop (q + 1)).take n).length = n := by
      rw [List.length_take, List.length_drop]
      omega
    rw [hkeep.1] at hloop
    rw [List.drop_eq_getElem_cons hlt, List.take_succ_cons, gather, hlen, ← hloop, ByteBuffer.readBitsLoop, hread]
    rfl

lemma readBitsLoop_inside {n : ℕ} {value : UInt32} {r : UInt32 × ByteBuffer} (h : Reading q b)
    (hq : q ≤ (bytesBits b.storage).length) (hok : ByteBuffer.readBitsLoop native n value b = .ok r) :
    q + n ≤ (bytesBits b.storage).length := by
  induction n generalizing q b value with
  | zero => exact hq
  | succ n ih =>
    rw [ByteBuffer.readBitsLoop] at hok
    cases hget : (bytesBits b.storage)[q]? with
    | none =>
      obtain ⟨x, hx⟩ := @readBit_none native b q h hget
      rw [hx] at hok
      cases hok
    | some bit =>
      have hrun : Runs (b.readBit native) _ := readBit_runs h hget
      obtain ⟨r', hread, -, hreading, hkeep⟩ := hrun.exists_ok trivial
      rw [hread] at hok
      have hlt := (List.getElem?_eq_some_iff.mp hget).1
      have hle := ih hreading (by rw [hkeep.1]; omega) hok
      rw [hkeep.1] at hle
      omega

lemma readChars_at {str : List UInt8} (hshort : str.length < 2 ^ 32) (hsize : b.storage.length + 2 ^ 32 ≤ 2 ^ 64)
    (h : Reading q b) (hq : q ≤ (bytesBits b.storage).length)
    (hbits : bytesBits str <+: (bytesBits b.storage).drop (up q)) :
    ∃ b', readPart native b (.chars str) = .ok (.chars str, b') ∧ Reading (up q + 8 * str.length) b' ∧ Keeps b b' := by
  obtain ⟨hrpos, hbit, hkeep⟩ := resetBitPos_spec h
  rw [length_bytesBits] at hq
  have hdrop : str <+: b.resetBitPos.storage.drop b.resetBitPos.rpos := by
    rw [hkeep.1, hrpos]
    rw [up, ← bytesBits_drop] at hbits
    exact bytesBits_prefix hbits
  have hend : b.resetBitPos.rpos + str.length ≤ b.storage.length := by
    have hle := hdrop.length_le
    rw [List.length_drop, hkeep.1] at hle
    omega
  have hsmall : b.resetBitPos.rpos + str.length < 2 ^ 64 := by omega
  have hcast : (UInt32.ofNat str.length).toNat = str.length := UInt32.toNat_ofNat_of_lt' hshort
  have hin : ¬ b.outside str.length = true := by
    rw [← outside_resetBitPos, ByteBuffer.outside, hkeep.1, Nat.mod_eq_of_lt hsmall, decide_eq_true_eq]
    omega
  rw [readPart, ByteBuffer.readChars]
  dsimp only
  rw [hcast, if_neg hin]
  split_ifs with hzero
  · obtain rfl := List.length_eq_zero_iff.mp hzero
    refine ⟨_, rfl, .inl ⟨?_, ?_, ?_, hbit.le⟩, hkeep⟩
    · exact Nat.mul_mod_right 8 _
    · rw [hrpos, up, List.length_nil]
      omega
    · rw [hbit]
      decide
  · rw [ByteBuffer.takeBytes, ← List.prefix_iff_eq_take.mp hdrop]
    refine ⟨_, rfl, .inl ⟨?_, ?_, ?_, hbit.le⟩, hkeep⟩
    · rw [up]
      omega
    · dsimp only
      rw [Nat.mod_eq_of_lt hsmall, hrpos, up]
      omega
    · dsimp only
      rw [hbit]
      decide

lemma length_readChars {len : UInt32} {s : List UInt8} (h : (b.readChars len).value = .ok s) :
    s.length ≤ len.toNat := by
  unfold ByteBuffer.readChars ByteBuffer.throwPosition at h
  split_ifs at h with hout hzero
  · rw [← Except.ok.inj h]
    exact Nat.zero_le _
  · rw [← Except.ok.inj h]
    exact List.length_take_le _ _

lemma readPart_chars {len s : List UInt8} {b' : ByteBuffer}
    (hok : readPart native b (.chars len) = .ok (.chars s, b')) :
    (b.readChars (UInt32.ofNat len.length)).value = .ok s := by
  rw [readPart] at hok
  cases hread : (b.readChars (UInt32.ofNat len.length)).value with
  | error x =>
    rw [hread] at hok
    cases hok
  | ok s' =>
    rw [hread] at hok
    rw [Got.chars.inj (Prod.mk.inj (Except.ok.inj hok)).1]

/-- A string that is returned was short enough, and stands in the storage. -/
lemma found_of_readChars {str : List UInt8} {b' : ByteBuffer} (h : Reading q b)
    (hok : readPart native b (.chars str) = .ok (.chars str, b')) :
    str.length < 2 ^ 32 ∧ bytesBits str <+: (bytesBits b.storage).drop (up q) := by
  obtain ⟨hrpos, -, hkeep⟩ := resetBitPos_spec h
  have hvalue := readPart_chars hok
  refine ⟨(length_readChars hvalue).trans_lt (UInt32.toNat_lt _), ?_⟩
  unfold ByteBuffer.readChars ByteBuffer.throwPosition at hvalue
  split_ifs at hvalue with hout hzero
  · rw [← Except.ok.inj hvalue]
    exact List.nil_prefix
  · have hstr := (Except.ok.inj hvalue).symm
    rw [hkeep.1, hrpos] at hstr
    obtain ⟨rest, hrest⟩ := hstr ▸ List.take_prefix _ (b.storage.drop ((q + 7) / 8))
    exact ⟨bytesBits rest, by rw [← bytesBits_append, hrest, bytesBits_drop, up]⟩

/-- One part is returned just when it is found. -/
lemma readPart_iff {part : Part} (hsize : b.storage.length + 2 ^ 32 ≤ 2 ^ 64) (h : Reading q b)
    (hq : q ≤ (bytesBits b.storage).length) (hpart : w ++ part.encode w.length <+: bytesBits b.storage) :
    (∃ g b', readPart native b part.shape = .ok (g, b') ∧ part.Matches g ∧ Reading (part.shape.readNext q) b' ∧
        part.shape.readNext q ≤ (bytesBits b.storage).length ∧ Keeps b b') ↔
      part.Found (bytesBits b.storage) w.length q := by
  cases part with
  | bits n value =>
    have hvalue : value.toNat % 2 ^ n < 2 ^ 32 → q = w.length →
        q + n ≤ (bytesBits b.storage).length ∧
          (gather (((bytesBits b.storage).drop q).take n) 0).toNat = value.toNat % 2 ^ n := by
      rintro hsmall rfl
      obtain ⟨rest, hrest⟩ := hpart
      rw [Part.encode] at hrest
      refine ⟨?_, ?_⟩
      · rw [← hrest, List.length_append, List.length_append, length_writtenBits]
        exact Nat.le_add_right _ _
      · rw [← hrest, List.append_assoc, List.drop_left, List.take_left' (length_writtenBits value n)]
        exact gather_written hsmall
    constructor
    · rintro ⟨g, b', hok, hmatch, -, hle, -⟩
      obtain ⟨b₁, hloop, -⟩ := @readBitsLoop_gather native b q n h hle 0
      have hread : readPart native b (.bits n) = .ok (.bits _, b₁) := congrArg (Except.map _) hloop
      obtain rfl := (Prod.mk.inj (Except.ok.inj (hok.symm.trans hread))).1
      exact ⟨hmatch ▸ UInt32.toNat_lt _, .inr ⟨hle, hmatch⟩⟩
    · rintro ⟨hsmall, hplace⟩
      obtain ⟨hle, hgather⟩ := hplace.elim (hvalue hsmall) id
      obtain ⟨b', hloop, hreading, hkeep⟩ := @readBitsLoop_gather native b q n h hle 0
      exact ⟨_, b', congrArg (Except.map _) hloop, hgather, hreading, hle, hkeep⟩
  | chars str =>
    have hplace : up q = up w.length → bytesBits str <+: (bytesBits b.storage).drop (up q) := by
      intro hup
      by_cases hnil : str = []
      · rw [hnil]
        exact List.nil_prefix
      · obtain ⟨rest, hrest⟩ := hpart
        rw [Part.encode, if_neg hnil, ← List.append_assoc] at hrest
        rw [← hrest, List.append_assoc, hup, up, ← length_align, align, List.drop_left]
        exact List.prefix_append _ _
    constructor
    · rintro ⟨g, b', hok, hmatch, -⟩
      cases g with
      | bits v => exact hmatch.elim
      | chars s =>
        obtain rfl : s = str := hmatch
        obtain ⟨hshort, hbits⟩ := found_of_readChars h hok
        exact ⟨hshort, .inr hbits⟩
    · rintro ⟨hshort, hat⟩
      have hbits := hat.elim hplace id
      obtain ⟨b', hok, hreading, hkeep⟩ := @readChars_at native b q str hshort hsize h hq hbits
      have hle := hbits.length_le
      rw [length_bytesBits, List.length_drop] at hle
      have hup : up q ≤ (bytesBits b.storage).length := by
        rw [length_bytesBits] at hq ⊢
        unfold up
        omega
      exact ⟨_, b', hok, rfl, hreading, by rw [Part.shape, Shape.readNext]; omega, hkeep⟩

/-- What a call returns says where the reader is. -/
lemma readPart_reading {part : Part} {g : Got} {b' : ByteBuffer} (hsize : b.storage.length + 2 ^ 32 ≤ 2 ^ 64)
    (h : Reading q b) (hq : q ≤ (bytesBits b.storage).length) (hok : readPart native b part.shape = .ok (g, b'))
    (hmatch : part.Matches g) :
    Reading (part.shape.readNext q) b' ∧ part.shape.readNext q ≤ (bytesBits b.storage).length ∧ Keeps b b' := by
  cases part with
  | bits n value =>
    cases hloop : b.readBits native n with
    | error x =>
      rw [Part.shape, readPart, hloop] at hok
      cases hok
    | ok r =>
      have hle := readBitsLoop_inside h hq hloop
      obtain ⟨b₁, hloop', hreading, hkeep⟩ := @readBitsLoop_gather native b q n h hle 0
      have hread : readPart native b (.bits n) = .ok (.bits _, b₁) := congrArg (Except.map _) hloop'
      obtain rfl := (Prod.mk.inj (Except.ok.inj (hok.symm.trans hread))).2
      exact ⟨hreading, hle, hkeep⟩
  | chars str =>
    cases g with
    | bits v => exact hmatch.elim
    | chars s =>
      obtain rfl : s = str := hmatch
      obtain ⟨hshort, hbits⟩ := found_of_readChars h hok
      obtain ⟨b₁, hok', hreading, hkeep⟩ := @readChars_at native b q s hshort hsize h hq hbits
      obtain rfl := (Prod.mk.inj (Except.ok.inj (hok.symm.trans hok'))).2
      have hle := hbits.length_le
      rw [length_bytesBits, List.length_drop] at hle
      have hup : up q ≤ (bytesBits b.storage).length := by
        rw [length_bytesBits] at hq ⊢
        unfold up
        omega
      exact ⟨hreading, by rw [Part.shape, Shape.readNext]; omega, hkeep⟩

lemma readParts_cons {part : Part} {parts : List Part} {got : List Got} {b' : ByteBuffer}
    (h : readParts native ((part :: parts).map Part.shape) b = .ok (got, b'))
    (hmatch : List.Forall₂ Part.Matches (part :: parts) got) :
    ∃ g b₁ got', readPart native b part.shape = .ok (g, b₁) ∧ part.Matches g ∧
      readParts native (parts.map Part.shape) b₁ = .ok (got', b') ∧ List.Forall₂ Part.Matches parts got' := by
  rw [List.map_cons, readParts] at h
  cases hhead : readPart native b part.shape with
  | error x =>
    rw [hhead] at h
    cases h
  | ok r =>
    obtain ⟨g, b₁⟩ := r
    rw [hhead] at h
    change (readParts native (parts.map Part.shape) b₁ >>= _) = _ at h
    cases htail : readParts native (parts.map Part.shape) b₁ with
    | error x =>
      rw [htail] at h
      cases h
    | ok r =>
      obtain ⟨got', b₂⟩ := r
      rw [htail] at h
      obtain ⟨rfl, rfl⟩ := Prod.mk.inj (Except.ok.inj h)
      rcases hmatch with _ | ⟨hg, hgot⟩
      exact ⟨g, b₁, got', rfl, hg, htail, hgot⟩

/-- All parts are returned, to the end of the storage, just when they are found in it. -/
lemma readParts_iff {parts : List Part} (hsize : b.storage.length + 2 ^ 32 ≤ 2 ^ 64) (h : Reading q b)
    (hq : q ≤ (bytesBits b.storage).length)
    (hstream : bytesBits b.storage = align (w ++ encodeParts w.length parts)) :
    (∃ got b', readParts native (parts.map Part.shape) b = .ok (got, b') ∧ List.Forall₂ Part.Matches parts got ∧
        b'.rpos = b'.storage.length) ↔ Found (bytesBits b.storage) w.length q parts := by
  induction parts generalizing w q b with
  | nil =>
    have hlen := congrArg List.length hstream
    rw [encodeParts, List.append_nil, length_bytesBits, length_align] at hlen
    have hend : b.rpos = b.storage.length ↔ up q = up w.length := by
      rw [h.rpos, up, up]
      omega
    rw [Found, ← hend]
    constructor
    · rintro ⟨got, b', hok, -, hrpos⟩
      obtain ⟨-, rfl⟩ := Prod.mk.inj (Except.ok.inj hok)
      exact hrpos
    · exact fun hrpos => ⟨[], b, rfl, .nil, hrpos⟩
  | cons part parts ih =>
    rw [encodeParts, ← List.append_assoc, ← length_encode] at hstream
    have hpart : w ++ part.encode w.length <+: bytesBits b.storage := by
      rw [hstream, align, List.append_assoc]
      exact List.prefix_append _ _
    -- the rest is read behind a part that was returned
    have hrest : ∀ {b₁ : ByteBuffer}, Reading (part.shape.readNext q) b₁ →
        part.shape.readNext q ≤ (bytesBits b.storage).length → Keeps b b₁ →
        ((∃ got b', readParts native (parts.map Part.shape) b₁ = .ok (got, b') ∧ List.Forall₂ Part.Matches parts got ∧
            b'.rpos = b'.storage.length) ↔
          Found (bytesBits b.storage) (part.shape.next w.length) (part.shape.readNext q) parts) := by
      intro b₁ hreading hle hkeep
      rw [← length_encode, ← hkeep.1] at *
      exact ih hsize hreading hle hstream
    rw [Found, ← readPart_iff hsize h hq hpart]
    constructor
    · rintro ⟨got, b', hok, hmatch, hend⟩
      obtain ⟨g, b₁, got', hhead, hg, htail, hgot⟩ := readParts_cons hok hmatch
      obtain ⟨hreading, hle, hkeep⟩ := readPart_reading hsize h hq hhead hg
      exact ⟨⟨g, b₁, hhead, hg, hreading, hle, hkeep⟩, (hrest hreading hle hkeep).mp ⟨got', b', htail, hgot, hend⟩⟩
    · rintro ⟨⟨g, b₁, hhead, hg, hreading, hle, hkeep⟩, hfound⟩
      obtain ⟨got', b', htail, hgot, hend⟩ := (hrest hreading hle hkeep).mpr hfound
      refine ⟨g :: got', b', ?_, .cons hg hgot, hend⟩
      rw [List.map_cons, readParts, hhead]
      change (readParts native (parts.map Part.shape) b₁ >>= _) = _
      rw [htail]
      rfl

lemma short_of_read {parts : List Part} {got : List Got} {b' : ByteBuffer}
    (h : readParts native (parts.map Part.shape) b = .ok (got, b')) (hmatch : List.Forall₂ Part.Matches parts got) :
    ∀ str, .chars str ∈ parts → str.length < 2 ^ 32 := by
  induction parts generalizing b got with
  | nil => exact fun str hstr => absurd hstr List.not_mem_nil
  | cons part parts ih =>
    obtain ⟨g, b₁, got', hhead, hg, htail, hgot⟩ := readParts_cons h hmatch
    intro str hstr
    rcases List.mem_cons.mp hstr with rfl | hstr
    · cases g with
      | bits v => exact hg.elim
      | chars s =>
        obtain rfl : s = str := hg
        exact (length_readChars (readPart_chars hhead)).trans_lt (UInt32.toNat_lt _)
    · exact ih htail hgot str hstr

lemma Found.short {stream : List Bool} {p : ℕ} {parts : List Part} (h : Found stream p q parts) :
    ∀ str, .chars str ∈ parts → str.length < 2 ^ 32 := by
  induction parts generalizing p q with
  | nil => exact fun str hstr => absurd hstr List.not_mem_nil
  | cons part parts ih =>
    intro str hstr
    rcases List.mem_cons.mp hstr with rfl | hstr
    · exact h.1.1
    · exact ih h.2 str hstr

end Read

/-- Groups of bits and strings of a known length are read back just when the writer stays below the limit and every
part is found in the stream by the reader, who skips to a whole byte at an empty string, too. -/
theorem strings_roundtrip_iff (native : Endian) (parts : List Part) :
    RoundTrips native parts ↔
      Fit 0 (parts.map Part.shape) ∧ Found (align (encodeParts 0 parts)) 0 0 parts := by
  have hreads : ∀ b, writeParts parts = .ok b → Fit 0 (parts.map Part.shape) →
      (∀ str, .chars str ∈ parts → str.length < 2 ^ 32) →
      ((∃ got b', readParts native (parts.map Part.shape) b = .ok (got, b') ∧ List.Forall₂ Part.Matches parts got ∧
        b'.rpos = b'.storage.length) ↔ Found (align (encodeParts 0 parts)) 0 0 parts) := by
    intro b hwrite hfit hshort
    obtain ⟨-, hreading, hbits⟩ := Safe.of_eq_ok (writeParts_exact parts) hwrite
    have hsmall := length_encodeParts_le hfit hshort (Nat.zero_le _)
    have hlen := congrArg List.length hbits
    rw [length_bytesBits, length_align] at hlen
    have hl : limit = 10000000 := rfl
    rw [← hbits]
    exact @readParts_iff native [] b 0 parts (by omega) hreading (Nat.zero_le _) hbits
  constructor
  · rintro ⟨b, hwrite, got, b', hok, hmatch, hend⟩
    have hfit := (Safe.of_eq_ok (writeParts_exact parts) hwrite).1
    exact ⟨hfit, (hreads b hwrite hfit (short_of_read hok hmatch)).mp ⟨got, b', hok, hmatch, hend⟩⟩
  · rintro ⟨hfit, hfound⟩
    obtain ⟨b, hwrite, -⟩ := Safe.exists_ok (writeParts_exact parts) hfit
    exact ⟨b, hwrite, (hreads b hwrite hfit hfound.short).mpr hfound⟩

/-- An empty string between two single bits. -/
def skippedBits : List Part := [.bits 1 1, .chars [], .bits 1 1]

/-- One byte is written; the reader skips to a second one. -/
theorem skippedBits_lost : ¬ RoundTrips .little skippedBits := by
  rintro ⟨b, hwrite, got, b', hread, -⟩
  have hb : writeParts skippedBits = .ok { wpos := 1, storage := [0xC0] } := rfl
  obtain rfl := Except.ok.inj (hwrite.symm.trans hb)
  have herror : readParts .little (skippedBits.map Part.shape) { wpos := 1, storage := [0xC0] } =
      .error (.byteBufferException 1 1 1) := rfl
  cases hread.symm.trans herror

end TyphoonZero.ByteBuffer
