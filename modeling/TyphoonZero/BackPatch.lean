import TyphoonZero.ByteBufferReposition
import TyphoonZero.PackedAppend
import TyphoonZero.Storage

/-! Bits that are written as a placeholder and put right by `PutBits` later on. -/
namespace TyphoonZero.ByteBuffer
open ByteOrder ByteConverter BitStream Loop Storage

/-- The zero bits that a flush adds to a stream of `p` bits. -/
def pad (p : ℕ) : List Bool := List.replicate ((8 - p % 8) % 8) false

lemma align_eq (w : List Bool) : align w = w ++ pad w.length := rfl

namespace WriteOp

/-- The bits that an operation adds to a stream of `p` bits. -/
def tail (p : ℕ) : WriteOp → List Bool
  | .append src => pad p ++ bytesBits src
  | .writeBit bit => [bit]
  | .writeBits value bits => writtenBits value bits
  | .flushBits => pad p
  | .writeInt t value => pad p ++ bytesBits (leBytes t.sizeof value.toNat)
  | .writeString value => pad p ++ bytesBits (value ++ [0])
  | .writeChars str => if str = [] then [] else pad p ++ bytesBits str
  | .appendPackedUInt64 guid => pad p ++ bytesBits (0 :: (packUInt64 guid).2)
  | .put .. => []
  | .putBits .. => []

/-- The bits that it writes over others, and where. The mask of a packed integer goes over
the byte in which the stream ended. -/
def cover (p : ℕ) : WriteOp → ℕ × List Bool
  | .appendPackedUInt64 guid => (8 * (p / 8), byteBits (packUInt64 guid).1)
  | .put pos src => if pos + src.length ≤ p / 8 then (8 * pos, bytesBits src) else (0, [])
  | .putBits pos value bitCount => if pos + bitCount ≤ 8 * (p / 8) then (pos, writtenBits value bitCount) else (0, [])
  | _ => (0, [])

def Covers (p : ℕ) (op : WriteOp) (i : ℕ) : Prop := (op.cover p).1 ≤ i ∧ i < (op.cover p).1 + (op.cover p).2.length

def next (p : ℕ) (op : WriteOp) : ℕ := p + (op.tail p).length

/-- The stream after the operation. -/
def encode (w : List Bool) (op : WriteOp) : List Bool :=
  writeAt (w ++ op.tail w.length) (op.cover w.length).1 (op.cover w.length).2

end WriteOp

/-- No operation writes over bit `i` of the stream, of which `p` bits are written. -/
def Spares (i : ℕ) : ℕ → List WriteOp → Prop
  | _, [] => True
  | p, op :: ops => ¬ op.Covers p i ∧ Spares i (op.next p) ops

/-- A value in `n` bits, other writes, and the last bits. -/
def written (native : Endian) (b : ByteBuffer) (value : UInt64) (n : ℕ) (after : List WriteOp) :
    Except Fault ByteBuffer := do
  let b ← b.writeBits value n
  let b ← after.foldlM (execWrite native) b
  b.flushBits

/-- The same with a placeholder that is patched at the end. -/
def patched (native : Endian) (b : ByteBuffer) (placeholder value : UInt64) (n : ℕ) (after : List WriteOp) :
    Except Fault ByteBuffer := do
  let p := b.getLastWriteBitPos
  let b ← written native b placeholder n after
  b.putBits p value n

section Streams
variable {w w' : List Bool} {op : WriteOp} {p : ℕ}

lemma cover_fits (op : WriteOp) (w : List Bool) :
    (op.cover w.length).1 + (op.cover w.length).2.length ≤ (w ++ op.tail w.length).length := by
  cases op with
  | appendPackedUInt64 guid =>
    simp only [WriteOp.cover, WriteOp.tail, pad, length_byteBits, List.length_append, List.length_replicate,
      length_bytesBits, List.length_cons]
    omega
  | put pos src =>
    rw [WriteOp.cover, WriteOp.tail, List.append_nil]
    split_ifs
    · rw [length_bytesBits]
      omega
    · exact Nat.zero_le _
  | putBits pos value bitCount =>
    rw [WriteOp.cover, WriteOp.tail, List.append_nil]
    split_ifs
    · rw [length_writtenBits]
      omega
    · exact Nat.zero_le _
  | _ => exact Nat.zero_le _

lemma getElem?_encode (op : WriteOp) (w : List Bool) (i : ℕ) [Decidable (op.Covers w.length i)] :
    (op.encode w)[i]? = if op.Covers w.length i then (op.cover w.length).2[i - (op.cover w.length).1]?
      else (w ++ op.tail w.length)[i]? := by
  rw [WriteOp.encode, getElem?_writeAt (cover_fits op w)]
  exact if_congr Iff.rfl rfl rfl

lemma length_encode_op (op : WriteOp) (w : List Bool) : (op.encode w).length = op.next w.length := by
  rw [WriteOp.encode, length_writeAt (cover_fits op w), List.length_append, WriteOp.next]

lemma length_foldl_encode (ops : List WriteOp) (w : List Bool) :
    (ops.foldl WriteOp.encode w).length = ops.foldl (fun p op => op.next p) w.length := by
  induction ops generalizing w with
  | nil => rfl
  | cons op ops ih => rw [List.foldl_cons, List.foldl_cons, ih, length_encode_op]

lemma encode_of_cover (h : (op.cover w.length).2 = []) : op.encode w = w ++ op.tail w.length := by
  rw [WriteOp.encode, h, writeAt, List.append_nil, List.length_nil, Nat.add_zero, List.take_append_drop]

/-- The same length, and the same bits outside `s`. -/
def SameOff (s : Set ℕ) (w w' : List Bool) : Prop := w.length = w'.length ∧ ∀ j ∉ s, w[j]? = w'[j]?

/-- Streams with a common front. -/
lemma sameOff_behind {s : Set ℕ} {x y : List Bool} (hlen : x.length = y.length)
    (h : ∀ j, w.length + j ∉ s → x[j]? = y[j]?) : SameOff s (w ++ x) (w ++ y) := by
  refine ⟨by rw [List.length_append, List.length_append, hlen], fun j hj => ?_⟩
  rcases Nat.lt_or_ge j w.length with hlt | hge
  · rw [List.getElem?_append_left hlt, List.getElem?_append_left hlt]
  · obtain ⟨k, rfl⟩ := Nat.exists_eq_add_of_le hge
    rw [List.getElem?_append_right hge, List.getElem?_append_right hge, Nat.add_sub_cancel_left]
    exact h k hj

lemma SameOff.append {s : Set ℕ} (h : SameOff s w w') (t : List Bool) : SameOff s (w ++ t) (w' ++ t) := by
  obtain ⟨hlen, hsame⟩ := h
  refine ⟨by rw [List.length_append, List.length_append, hlen], fun j hj => ?_⟩
  rcases Nat.lt_or_ge j w.length with hlt | hge
  · rw [List.getElem?_append_left hlt, List.getElem?_append_left (hlen ▸ hlt), hsame j hj]
  · rw [List.getElem?_append_right hge, List.getElem?_append_right (hlen ▸ hge), hlen]

lemma SameOff.encode {s : Set ℕ} (h : SameOff s w w') (op : WriteOp) : SameOff s (op.encode w) (op.encode w') := by
  classical
  refine ⟨by rw [length_encode_op, length_encode_op, h.1], fun j hj => ?_⟩
  rw [getElem?_encode, getElem?_encode, ← h.1]
  split_ifs
  · rfl
  · exact (h.append _).2 j hj

lemma SameOff.foldl {s : Set ℕ} (h : SameOff s w w') (ops : List WriteOp) :
    SameOff s (ops.foldl WriteOp.encode w) (ops.foldl WriteOp.encode w') := by
  induction ops generalizing w w' with
  | nil => exact h
  | cons op ops ih => exact ih (h.encode op)

/-- Streams that differ in one bit become equal when it is written over. -/
lemma encode_covered {i : ℕ} (h : SameOff {i} w w') (hcover : op.Covers w.length i) : op.encode w = op.encode w' := by
  classical
  refine List.ext_getElem? fun j => ?_
  rw [getElem?_encode, getElem?_encode, ← h.1]
  split_ifs with hj
  · rfl
  · exact (h.append _).2 j fun hji => hj (Set.mem_singleton_iff.mp hji ▸ hcover)

/-- A bit that is spared keeps its value. -/
lemma foldl_kept {i : ℕ} {ops : List WriteOp} (hi : i < w.length) (h : Spares i w.length ops) :
    (ops.foldl WriteOp.encode w)[i]? = w[i]? := by
  classical
  induction ops generalizing w with
  | nil => rfl
  | cons op ops ih =>
    obtain ⟨hspare, hrest⟩ := h
    have hlen := length_encode_op op w
    have hmono : w.length ≤ op.next w.length := Nat.le_add_right _ _
    rw [List.foldl_cons, ih (by omega) (hlen ▸ hrest), getElem?_encode, if_neg hspare, List.getElem?_append_left hi]

/-- One that is written over makes no difference. -/
lemma foldl_covered {i : ℕ} {ops : List WriteOp} (h : SameOff {i} w w') (hcover : ¬ Spares i w.length ops) :
    ops.foldl WriteOp.encode w = ops.foldl WriteOp.encode w' := by
  induction ops generalizing w w' with
  | nil => exact absurd trivial hcover
  | cons op ops ih =>
    rw [List.foldl_cons, List.foldl_cons]
    by_cases hop : op.Covers w.length i
    · rw [encode_covered h hop]
    · refine ih (h.encode op) fun hrest => hcover ⟨hop, ?_⟩
      rwa [length_encode_op] at hrest

/-- Patching the bits in which two streams differ. -/
lemma writeAt_of_sameOff {bits : List Bool} (hin : p + bits.length ≤ w.length)
    (hoff : SameOff (Set.Ico p (p + bits.length)) w w')
    (hbits : ∀ i < bits.length, w'[p + i]? = bits[i]?) : writeAt w p bits = w' := by
  refine List.ext_getElem? fun i => ?_
  rw [getElem?_writeAt hin]
  split_ifs with h
  · have hi := hbits (i - p) (by omega)
    rw [Nat.add_sub_of_le h.1] at hi
    exact hi.symm
  · exact hoff.2 i h

end Streams

section Buffers
variable {native : Endian} {w : List Bool} {b c : ByteBuffer} {op : WriteOp}

/-- The stream determines the buffer. -/
lemma Writing.unique (h : Writing w b) (h' : Writing w c) : b = c := by
  obtain ⟨hrpos, hwpos, pending, hw, hlt, hpos, hcur⟩ := h
  obtain ⟨hrpos', hwpos', pending', hw', hlt', hpos', hcur'⟩ := h'
  have hlen := congrArg List.length (hw.symm.trans hw')
  simp only [List.length_append, length_bytesBits] at hlen
  obtain ⟨hbytes, rfl⟩ := List.append_inj (hw.symm.trans hw') (by rw [length_bytesBits, length_bytesBits]; omega)
  have hstorage : b.storage = c.storage := by
    have hprefix : b.storage <+: c.storage := bytesBits_prefix (hbytes ▸ List.prefix_rfl)
    exact hprefix.eq_of_length (by omega)
  have hval : b.curBitVal = c.curBitVal := by
    refine UInt8.toBitVec_inj.mp (BitVec.eq_of_getMsbD_eq fun i hi => ?_)
    rw [hcur i hi, hcur' i hi]
  cases b
  cases c
  simp only at hrpos hrpos' hwpos hwpos' hstorage hpos hpos' hval
  subst hrpos hrpos' hstorage hval
  simp only [ByteBuffer.mk.injEq, true_and, and_true]
  omega

/-- Patching the storage. -/
lemma Writing.patch (h : Writing w b) {pos : ℕ} {bits : List Bool} {storage : List UInt8}
    (hlen : storage.length = b.storage.length) (hin : pos + bits.length ≤ 8 * b.storage.length)
    (hbits : bytesBits storage = writeAt (bytesBits b.storage) pos bits) :
    Writing (writeAt w pos bits) { b with storage := storage } := by
  obtain ⟨hrpos, hwpos, pending, rfl, hlt, hpos, hcur⟩ := h
  refine ⟨hrpos, by rw [hwpos, hlen], pending, ?_, hlt, hpos, hcur⟩
  have hlen' : (bytesBits b.storage).length = 8 * b.storage.length := length_bytesBits _
  rw [hbits, writeAt, writeAt, List.take_append_of_le_length (by omega), List.drop_append_of_le_length (by omega),
    List.append_assoc _ _ pending]

lemma put_refuses {pos : ℕ} {src : List UInt8} (h : ¬ (src ≠ [] ∧ pos + src.length ≤ b.storage.length)) :
    b.put pos src = .error .assertion := by
  unfold ByteBuffer.put
  split_ifs with hout hnil
  · rfl
  · rfl
  · exact absurd ⟨fun hsrc => hnil (List.length_eq_zero_iff.mpr hsrc), Nat.le_of_not_gt hout⟩ h

lemma putBits_refuses {pos bitCount : ℕ} {value : UInt64}
    (h : ¬ (1 ≤ bitCount ∧ pos + bitCount ≤ 8 * b.storage.length)) :
    b.putBits pos value bitCount = .error .assertion := by
  unfold ByteBuffer.putBits
  rw [show kInitialBitPos = 8 from rfl]
  split_ifs
  · rfl
  · rfl
  · exact absurd ⟨by omega, by omega⟩ h

lemma put_written (h : Writing w b) {pos : ℕ} {src : List UInt8} (hsrc : src ≠ [])
    (hin : pos + src.length ≤ b.storage.length) :
    Exactly True (b.put pos src) (Writing (writeAt w (8 * pos) (bytesBits src))) := by
  rw [ByteBuffer.put, if_neg (by omega), if_neg fun hnil => hsrc (List.length_eq_zero_iff.mp hnil)]
  refine ⟨trivial, h.patch (length_writeAt hin) ?_ ?_⟩
  · rw [length_bytesBits]
    omega
  · rw [writeAt, bytesBits_append, bytesBits_append, bytesBits_take, bytesBits_drop, length_bytesBits, Nat.mul_add]

/-- Setting bit `k` of a byte, and clearing it. -/
lemma getMsbD_setBit (c : UInt8) (bit : Prop) [Decidable bit] {k r : ℕ} (hk : k < 8) (hr : r < 8) :
    (if bit then c ||| 1 <<< UInt8.ofNat (7 - k) else c &&& ~~~(1 <<< UInt8.ofNat (7 - k))).toBitVec.getMsbD r =
      if r = k then decide bit else c.toBitVec.getMsbD r := by
  have hone : ∀ k < 8, ∀ r < 8, ((1 : UInt8) <<< UInt8.ofNat (7 - k)).toBitVec.getMsbD r = decide (r = k) := by decide
  have hbit := hone k hk r hr
  by_cases hset : bit
  · rw [if_pos hset, UInt8.toBitVec_or, BitVec.getMsbD_or, hbit]
    split_ifs with hrk <;> simp [hset, hrk]
  · rw [if_neg hset, UInt8.toBitVec_and, BitVec.getMsbD_and, UInt8.toBitVec_not, BitVec.getMsbD_not, hbit]
    split_ifs with hrk <;> simp [hset, hrk, hr]

/-- One turn of `PutBits` writes one bit. -/
lemma bytesBits_putBit (storage : List UInt8) (value : UInt64) {pos bitCount i : ℕ}
    (hin : pos + i < 8 * storage.length) :
    bytesBits (ByteBuffer.putBit pos value bitCount storage i) =
      writeAt (bytesBits storage) (pos + i) [decide ((value >>> UInt64.ofNat (bitCount - i - 1)) &&& 0x1 ≠ 0)] := by
  refine List.ext_getElem? fun j => ?_
  rw [getElem?_writeAt (by rw [length_bytesBits, List.length_singleton]; omega), List.length_singleton]
  obtain ⟨q, r, hr, rfl⟩ : ∃ q r, r < 8 ∧ j = 8 * q + r := ⟨j / 8, j % 8, by omega, by omega⟩
  rw [getElem_bytesBits _ _ hr, getElem_bytesBits _ _ hr, ByteBuffer.putBit, show kInitialBitPos = 8 from rfl]
  by_cases hq : (pos + i) / 8 = q
  · have hlt : q < storage.length := by omega
    subst hq
    rw [List.getElem?_modify_eq, List.getElem?_eq_getElem hlt, Option.map_eq_map, Option.map_some, Option.map_some,
      Option.map_some, getMsbD_setBit _ _ (Nat.mod_lt _ (by norm_num)) hr]
    by_cases hrk : r = (pos + i) % 8
    · rw [if_pos hrk, if_pos (by omega), show 8 * ((pos + i) / 8) + r - (pos + i) = 0 by omega]
      rfl
    · rw [if_neg hrk, if_neg (by omega)]
  · rw [List.getElem?_modify_ne _ _ hq, if_neg (by omega)]

lemma writtenBits_take_succ (value : UInt64) {n k : ℕ} (hk : k < n) :
    (writtenBits value n).take (k + 1) =
      (writtenBits value n).take k ++ [decide ((value >>> UInt64.ofNat (n - k - 1)) &&& 0x1 ≠ 0)] := by
  induction n generalizing k with
  | zero => exact absurd hk (Nat.not_lt_zero k)
  | succ n ih =>
    cases k with
    | zero => rfl
    | succ k =>
      rw [writtenBits, List.take_succ_cons, ih (Nat.lt_of_succ_lt_succ hk), Nat.succ_sub_succ]
      rfl

lemma bytesBits_putBits (storage : List UInt8) (value : UInt64) {pos n : ℕ} (hin : pos + n ≤ 8 * storage.length)
    {k : ℕ} (hk : k ≤ n) :
    bytesBits ((List.range k).foldl (ByteBuffer.putBit pos value n) storage) =
      writeAt (bytesBits storage) pos ((writtenBits value n).take k) := by
  induction k with
  | zero =>
    rw [List.range_zero, List.foldl_nil, List.take_zero, writeAt, List.append_nil, List.length_nil, Nat.add_zero,
      List.take_append_drop]
  | succ k ih =>
    have hturn := @bytesBits_putBit ((List.range k).foldl (ByteBuffer.putBit pos value n) storage) value pos n k
      (by rw [length_putBits]; omega)
    have hlen : ((writtenBits value n).take k).length = k := by
      rw [List.length_take, length_writtenBits]
      omega
    have hadd := @writeAt_writeAt _ (bytesBits storage) ((writtenBits value n).take k)
      [decide ((value >>> UInt64.ofNat (n - k - 1)) &&& 0x1 ≠ 0)] pos (by
        rw [hlen, length_bytesBits, List.length_singleton]
        omega)
    rw [hlen] at hadd
    rw [List.range_succ, List.foldl_append, List.foldl_cons, List.foldl_nil, hturn, ih (by omega),
      writtenBits_take_succ value hk]
    exact hadd

lemma putBits_written (h : Writing w b) {pos n : ℕ} (value : UInt64) (hn : 1 ≤ n)
    (hin : pos + n ≤ 8 * b.storage.length) :
    ∃ c, b.putBits pos value n = .ok c ∧ Writing (writeAt w pos (writtenBits value n)) c := by
  have hbits := bytesBits_putBits b.storage value hin le_rfl
  rw [List.take_of_length_le (length_writtenBits value n).le] at hbits
  unfold ByteBuffer.putBits
  rw [show kInitialBitPos = 8 from rfl, if_neg (by omega), if_neg (by omega)]
  refine ⟨_, rfl, h.patch (length_putBits ..) ?_ hbits⟩
  rw [length_writtenBits]
  exact hin

lemma writeChars_written (h : Writing w b) (str : List UInt8) :
    Exactly (str = [] ∨ w.length / 8 < limit) (b.writeChars str)
      (Writing (w ++ (WriteOp.writeChars str).tail w.length)) := by
  unfold ByteBuffer.writeChars
  by_cases hnil : str = []
  · rw [if_neg (by simp [hnil]), WriteOp.tail, if_pos hnil, List.append_nil]
    exact ⟨.inl hnil, h⟩
  · rw [if_pos fun hz => hnil (List.length_eq_zero_iff.mp hz), WriteOp.tail, if_neg hnil, ← List.append_assoc,
      ← align_eq]
    exact Exactly.iff (append_exact h hnil) ⟨.inr, fun he => he.resolve_left hnil⟩

lemma aligned_bytes (w : List Bool) (src : List UInt8) : (align w ++ bytesBits src).length % 8 = 0 := by
  rw [List.length_append, length_align, length_bytesBits]
  omega

lemma writeString_written (h : Writing w b) (value : List UInt8) :
    Exactly (w.length / 8 < limit ∧ (value = [] ∨ (w.length + 7) / 8 + value.length < limit)) (b.writeString value)
      (Writing (w ++ (WriteOp.writeString value).tail w.length)) := by
  unfold ByteBuffer.writeString
  rw [WriteOp.tail, ← List.append_assoc, ← align_eq, bytesBits_append]
  by_cases hnil : value = []
  · subst hnil
    rw [bytesBits_nil, List.nil_append]
    exact Exactly.iff (append_exact h (by simp)) ⟨fun hlt => ⟨hlt, .inl rfl⟩, And.left⟩
  · rw [if_neg fun hz => hnil (List.length_eq_zero_iff.mp hz), ← List.append_assoc]
    have haligned := aligned_bytes w value
    have hroom : w.length / 8 < limit ∧ (align w ++ bytesBits value).length / 8 < limit ↔
        w.length / 8 < limit ∧ (value = [] ∨ (w.length + 7) / 8 + value.length < limit) := by
      rw [or_iff_right hnil, List.length_append, length_align, length_bytesBits]
      omega
    refine Exactly.iff ((append_exact h hnil).bind fun b' hb' => ?_) hroom
    have hrec := @append_exact _ _ [0] hb' (by simp)
    rwa [align_of_mod _ haligned] at hrec

lemma appendPackedUInt64_written (h : Writing w b) (guid : UInt64) :
    Exactly (w.length / 8 < limit ∧ ((packUInt64 guid).2 = [] ∨ (w.length + 7) / 8 + 1 < limit))
      (b.appendPackedUInt64 guid) (Writing ((WriteOp.appendPackedUInt64 guid).encode w)) := by
  have hfits := cover_fits (.appendPackedUInt64 guid) w
  have hpos : b.wpos = w.length / 8 := by rw [h.2.1, h.size]
  have haligned := aligned_bytes w [0]
  have htail :
      align w ++ bytesBits [0] ++ (WriteOp.writeChars (packUInt64 guid).2).tail (align w ++ bytesBits [0]).length =
      w ++ (WriteOp.appendPackedUInt64 guid).tail w.length := by
    have hpad : pad (align w ++ bytesBits [0]).length = [] := by rw [pad, haligned]; rfl
    rw [WriteOp.tail, hpad, List.nil_append, WriteOp.tail, align_eq, bytesBits_cons 0 (packUInt64 guid).2]
    split_ifs with hnil
    · rw [hnil]
      simp
    · simp
  have hroom :
      w.length / 8 < limit ∧ ((packUInt64 guid).2 = [] ∨ (align w ++ bytesBits [0]).length / 8 < limit) ∧ True ↔
      w.length / 8 < limit ∧ ((packUInt64 guid).2 = [] ∨ (w.length + 7) / 8 + 1 < limit) := by
    have hlen : (align w ++ bytesBits [0]).length / 8 = (w.length + 7) / 8 + 1 := by
      rw [List.length_append, length_align, length_bytesBits, List.length_singleton]
      omega
    rw [and_true, hlen]
  rw [appendPackedUInt64_eq]
  refine Exactly.iff ((append_exact h (by simp)).bind fun b₁ h₁ => (writeChars_written h₁ _).bind fun b₂ h₂ => ?_) hroom
  rw [htail] at h₂
  have hsize := h₂.size
  rw [WriteOp.cover, length_byteBits] at hfits
  have hput := @put_written _ _ h₂ b.wpos [(packUInt64 guid).1] (by simp) (by
    rw [hsize, hpos, List.length_singleton]
    omega)
  rw [bytesBits_cons, bytesBits_nil, List.append_nil] at hput
  rw [hpos] at hput ⊢
  exact hput

/-- Whether an operation is refused depends on the length of the stream only. -/
lemma execWrite_written (native : Endian) (op : WriteOp) (p : ℕ) : ∃ e : Prop, ∀ w b, w.length = p → Writing w b →
    Exactly e (execWrite native b op) (Writing (op.encode w)) := by
  have hplain : ∀ {e : Prop} {r : Except Fault ByteBuffer} {w : List Bool}, (op.cover w.length).2 = [] →
      Exactly e r (Writing (w ++ op.tail w.length)) → Exactly e r (Writing (op.encode w)) := by
    intro e r w hcover hr
    rwa [encode_of_cover hcover]
  cases op with
  | append src =>
    by_cases hsrc : src = []
    · refine ⟨False, fun w b _ _ => ?_⟩
      subst hsrc
      exact ⟨rfl, not_false⟩
    · refine ⟨p / 8 < limit, fun w b hp h => hplain rfl ?_⟩
      rw [← hp, WriteOp.tail, ← List.append_assoc]
      exact append_exact h hsrc
  | writeBit bit =>
    refine ⟨Room p (p + 1), fun w b hp h => hplain rfl ?_⟩
    rw [← hp]
    exact writeBit_exact h bit
  | writeBits value bits =>
    refine ⟨Room p (p + bits), fun w b hp h => hplain rfl ?_⟩
    rw [← hp]
    exact writeBits_written value h
  | flushBits =>
    refine ⟨p % 8 = 0 ∨ p / 8 < limit, fun w b hp h => hplain rfl ?_⟩
    rw [← hp]
    exact (flushBits_exact h).weaken fun _ hb => hb.1
  | writeInt t value =>
    refine ⟨p / 8 < limit, fun w b hp h => hplain rfl ?_⟩
    have hne : leBytes t.sizeof value.toNat ≠ [] := by
      intro hnil
      have hlen := length_leBytes t.sizeof value.toNat
      rw [hnil] at hlen
      exact absurd hlen t.sizeof_pos.ne
    change Exactly _ (b.writeInt native t value) _
    rw [← hp, ByteBuffer.writeInt, endianRefMakeLittle_store, WriteOp.tail, ← List.append_assoc]
    exact append_exact h hne
  | writeString value =>
    refine ⟨p / 8 < limit ∧ (value = [] ∨ (p + 7) / 8 + value.length < limit), fun w b hp h => hplain rfl ?_⟩
    rw [← hp]
    exact writeString_written h value
  | writeChars str =>
    refine ⟨str = [] ∨ p / 8 < limit, fun w b hp h => hplain rfl ?_⟩
    rw [← hp]
    exact writeChars_written h str
  | appendPackedUInt64 guid =>
    refine ⟨p / 8 < limit ∧ ((packUInt64 guid).2 = [] ∨ (p + 7) / 8 + 1 < limit), fun w b hp h => ?_⟩
    rw [← hp]
    exact appendPackedUInt64_written h guid
  | put pos src =>
    refine ⟨src ≠ [] ∧ pos + src.length ≤ p / 8, fun w b hp h => ?_⟩
    have hsize := h.size
    rw [hp] at hsize
    change Exactly _ (b.put pos src) _
    by_cases hin : src ≠ [] ∧ pos + src.length ≤ p / 8
    · have hput := put_written h hin.1 (hsize.symm ▸ hin.2)
      rw [WriteOp.encode, WriteOp.cover, hp, if_pos hin.2, WriteOp.tail, List.append_nil]
      exact Exactly.iff hput (iff_of_true trivial hin)
    · rw [put_refuses (by rwa [hsize])]
      exact ⟨rfl, hin⟩
  | putBits pos value bitCount =>
    refine ⟨1 ≤ bitCount ∧ pos + bitCount ≤ 8 * (p / 8), fun w b hp h => ?_⟩
    have hsize := h.size
    rw [hp] at hsize
    change Exactly _ (b.putBits pos value bitCount) _
    by_cases hin : 1 ≤ bitCount ∧ pos + bitCount ≤ 8 * (p / 8)
    · obtain ⟨c, hc, hw⟩ := putBits_written h value hin.1 (hsize.symm ▸ hin.2)
      rw [hc, WriteOp.encode, WriteOp.cover, hp, if_pos hin.2, WriteOp.tail, List.append_nil]
      exact ⟨hin, hw⟩
    · rw [putBits_refuses (by rwa [hsize])]
      exact ⟨rfl, hin⟩

lemma foldlM_written (native : Endian) (ops : List WriteOp) (p : ℕ) :
    ∃ e : Prop, ∀ w b, w.length = p → Writing w b →
      Exactly e (ops.foldlM (execWrite native) b) (Writing (ops.foldl WriteOp.encode w)) := by
  induction ops generalizing p with
  | nil => exact ⟨True, fun w b _ h => ⟨trivial, h⟩⟩
  | cons op ops ih =>
    obtain ⟨e, he⟩ := execWrite_written native op p
    obtain ⟨e', he'⟩ := ih (op.next p)
    refine ⟨e ∧ e', fun w b hp h => ?_⟩
    rw [List.foldlM_cons, List.foldl_cons]
    exact (he w b hp h).bind fun b' hb' => he' _ b' (by rw [length_encode_op, hp]) hb'

/-- The stream that `written` leaves. -/
def encodeWritten (w : List Bool) (value : UInt64) (n : ℕ) (after : List WriteOp) : List Bool :=
  align (after.foldl WriteOp.encode (w ++ writtenBits value n))

lemma written_written (native : Endian) (after : List WriteOp) (p n : ℕ) :
    ∃ e : Prop, ∀ w b, w.length = p → Writing w b → ∀ value,
      Exactly e (written native b value n after) (Writing (encodeWritten w value n after)) := by
  obtain ⟨e, he⟩ := foldlM_written native after (p + n)
  have hend : ∀ w value, w.length = p → (after.foldl WriteOp.encode (w ++ writtenBits value n)).length =
      after.foldl (fun p op => op.next p) (p + n) := by
    intro w value hp
    rw [length_foldl_encode, List.length_append, length_writtenBits, hp]
  generalize after.foldl (fun p op => op.next p) (p + n) = q at hend
  refine ⟨Room p (p + n) ∧ e ∧ (q % 8 = 0 ∨ q / 8 < limit), fun w b hp h value => ?_⟩
  have hwrite := writeBits_written value h (n := n)
  rw [hp] at hwrite
  refine hwrite.bind fun b₁ h₁ => (he _ b₁ (by rw [List.length_append, length_writtenBits, hp]) h₁).bind fun b₂ h₂ => ?_
  rw [← hend w value hp]
  exact (flushBits_exact h₂).weaken fun _ hb => hb.1

end Buffers

lemma Writing.lastWriteBitPos {w : List Bool} {b : ByteBuffer} (h : Writing w b) : b.getLastWriteBitPos = w.length := by
  obtain ⟨-, hwpos, pending, rfl, hlt, hpos, -⟩ := h
  rw [show kInitialBitPos = 8 from rfl] at hpos
  rw [List.length_append, length_bytesBits, ByteBuffer.getLastWriteBitPos, hwpos, show kInitialBitPos = 8 from rfl]
  omega

/-- Patching the bits behind the buffer `b` is as good as writing the value at once, and
changes no other bit. -/
def BackPatches (native : Endian) (b : ByteBuffer) (n : ℕ) (after : List WriteOp) : Prop :=
  ∀ placeholder v : UInt64, placeholder.toNat < 2 ^ n → v.toNat < 2 ^ n →
    patched native b placeholder v n after = written native b v n after ∧
    ∀ c d, written native b placeholder n after = .ok c → patched native b placeholder v n after = .ok d →
      ∀ i, i < b.getLastWriteBitPos ∨ b.getLastWriteBitPos + n ≤ i →
        (bytesBits d.storage)[i]? = (bytesBits c.storage)[i]?

section Main
variable {native : Endian} {w : List Bool} {b : ByteBuffer} {n : ℕ} {after : List WriteOp}

lemma le_foldl_next (ops : List WriteOp) (p : ℕ) : p ≤ ops.foldl (fun p op => op.next p) p := by
  induction ops generalizing p with
  | nil => exact le_rfl
  | cons op ops ih => exact (Nat.le_add_right p _).trans (ih (op.next p))

lemma patch_fits (w : List Bool) (value : UInt64) (n : ℕ) (after : List WriteOp) :
    w.length + n ≤ (encodeWritten w value n after).length := by
  have hle := le_foldl_next after (w.length + n)
  rw [encodeWritten, length_align, length_foldl_encode, List.length_append, length_writtenBits]
  omega

lemma length_encodeWritten_mod (w : List Bool) (value : UInt64) (n : ℕ) (after : List WriteOp) :
    (encodeWritten w value n after).length % 8 = 0 := by
  rw [encodeWritten, length_align]
  omega

/-- Two values make a difference in their own bits only. -/
lemma encodeWritten_sameOff (w : List Bool) (value value' : UInt64) (n : ℕ) (after : List WriteOp) :
    SameOff (Set.Ico w.length (w.length + n)) (encodeWritten w value n after) (encodeWritten w value' n after) := by
  have hbase : SameOff (Set.Ico w.length (w.length + n)) (w ++ writtenBits value n) (w ++ writtenBits value' n) := by
    refine sameOff_behind (by simp) fun j hj => ?_
    have hend : n ≤ j := by
      by_contra hlt
      exact hj ⟨Nat.le_add_right _ _, by omega⟩
    rw [List.getElem?_eq_none (by simpa using hend), List.getElem?_eq_none (by simpa using hend)]
  have hfold := hbase.foldl after
  rw [encodeWritten, encodeWritten, align_eq, align_eq, ← hfold.1]
  exact hfold.append _

/-- Spared bits are there at the end. -/
lemma encodeWritten_bits (value : UInt64) {i : ℕ} (hi : i < n) (hspare : Spares (w.length + i) (w.length + n) after) :
    (encodeWritten w value n after)[w.length + i]? = (writtenBits value n)[i]? := by
  have hlen : (w ++ writtenBits value n).length = w.length + n := by simp
  have hle := le_foldl_next after (w.length + n)
  rw [encodeWritten, align_eq, List.getElem?_append_left (by rw [length_foldl_encode, hlen]; omega),
    foldl_kept (by omega) (hlen.symm ▸ hspare), List.getElem?_append_right (Nat.le_add_right _ _),
    Nat.add_sub_cancel_left]

lemma Writing.bytes (h : Writing w b) (hmod : w.length % 8 = 0) : bytesBits b.storage = w := by
  obtain ⟨-, -, pending, rfl, hlt, -, -⟩ := h
  rw [List.length_append, length_bytesBits] at hmod
  rw [List.length_eq_zero_iff.mp (show pending.length = 0 by omega), List.append_nil]

/-- If one value can be written, so can every other one. -/
lemma written_ok (h : Writing w b) {b' : ByteBuffer}
    (hok : written native b 0 n after = .ok b') (value : UInt64) :
    ∃ c, written native b value n after = .ok c ∧ Writing (encodeWritten w value n after) c := by
  obtain ⟨e, he⟩ := written_written native after w.length n
  have hzero := he w b rfl h 0
  have hvalue := he w b rfl h value
  rw [hok] at hzero
  cases hc : written native b value n after with
  | ok c =>
    rw [hc] at hvalue
    exact ⟨c, rfl, hvalue.2⟩
  | error x =>
    rw [hc] at hvalue
    exact absurd hzero.1 hvalue.2

lemma patched_ok (h : Writing w b) (hn : 1 ≤ n) {placeholder : UInt64} {c : ByteBuffer}
    (hc : written native b placeholder n after = .ok c) (hw : Writing (encodeWritten w placeholder n after) c)
    (value : UInt64) :
    ∃ d, patched native b placeholder value n after = .ok d ∧
      Writing (writeAt (encodeWritten w placeholder n after) w.length (writtenBits value n)) d := by
  have hfits := patch_fits w placeholder n after
  have hbytes := congrArg List.length (hw.bytes (length_encodeWritten_mod ..))
  rw [length_bytesBits] at hbytes
  rw [patched, hc, h.lastWriteBitPos]
  exact putBits_written hw value hn (by omega)

/-- A right patch puts the bits of the value in their place. -/
lemma patched_bits (h : Writing w b) (hn : 1 ≤ n) {placeholder value : UInt64} {c d : ByteBuffer}
    (hc : written native b placeholder n after = .ok c) (hwc : Writing (encodeWritten w placeholder n after) c)
    (hd : written native b value n after = .ok d) (hwd : Writing (encodeWritten w value n after) d)
    (hpatch : patched native b placeholder value n after = written native b value n after) {i : ℕ} (hi : i < n) :
    (encodeWritten w value n after)[w.length + i]? = (writtenBits value n)[i]? := by
  have hfits := patch_fits w placeholder n after
  have hin : w.length + (writtenBits value n).length ≤ (encodeWritten w placeholder n after).length := by
    rw [length_writtenBits]
    exact hfits
  obtain ⟨e, he, hwe⟩ := patched_ok h hn hc hwc value
  obtain rfl : e = d := Except.ok.inj (he.symm.trans (hpatch.trans hd))
  have hstream := (hwe.bytes (by rw [length_writeAt hin, length_encodeWritten_mod])).symm.trans
    (hwd.bytes (length_encodeWritten_mod ..))
  rw [← hstream, getElem?_writeAt hin, length_writtenBits, if_pos (by omega), Nat.add_sub_cancel_left]

lemma getElem?_writtenBits (value : UInt64) (hn : n ≤ 64) {k : ℕ} (hk : k < n) :
    (writtenBits value n)[k]? = some (value.toNat.testBit (n - 1 - k)) := by
  induction n generalizing k with
  | zero => exact absurd hk (Nat.not_lt_zero k)
  | succ n ih =>
    cases k with
    | zero => rw [writtenBits, testBit_of_shift value (by omega)]; rfl
    | succ k =>
      rw [writtenBits, List.getElem?_cons_succ, ih (by omega) (by omega), show n + 1 - 1 - (k + 1) = n - 1 - k by omega]

/-- The value with bit `k` of its `n` ones. -/
def bitValue (n k : ℕ) : UInt64 := UInt64.ofNat (2 ^ (n - 1 - k))

lemma toNat_bitValue (hn : n ≤ 64) {k : ℕ} (hk : k < n) : (bitValue n k).toNat = 2 ^ (n - 1 - k) := by
  rw [bitValue, UInt64.toNat_ofNat']
  exact Nat.mod_eq_of_lt (Nat.pow_lt_pow_right (by norm_num) (by omega))

/-- A bit that is written over is the same for the values 0 and `bitValue`. -/
lemma encodeWritten_covered (hn64 : n ≤ 64) {k : ℕ} (hk : k < n)
    (hcover : ¬ Spares (w.length + k) (w.length + n) after) :
    encodeWritten w 0 n after = encodeWritten w (bitValue n k) n after := by
  have hoff : SameOff {w.length + k} (w ++ writtenBits 0 n) (w ++ writtenBits (bitValue n k) n) := by
    refine sameOff_behind (by simp) fun j hj => ?_
    have hjk : j ≠ k := fun h => hj (Set.mem_singleton_iff.mpr (congrArg (w.length + ·) h))
    rcases Nat.lt_or_ge j n with hin | hout
    · rw [getElem?_writtenBits _ hn64 hin, getElem?_writtenBits _ hn64 hin, toNat_bitValue hn64 hk,
        Nat.testBit_two_pow_of_ne (by omega)]
      simp
    · rw [List.getElem?_eq_none (by simpa using hout), List.getElem?_eq_none (by simpa using hout)]
  have hfold := @foldl_covered _ _ _ after hoff (by
    rw [List.length_append, length_writtenBits]
    exact hcover)
  rw [encodeWritten, encodeWritten, hfold]

end Main

/-- A patch is right just when no operation in between writes over one of the patched bits. -/
theorem backPatch_iff {native : Endian} {before after : List WriteOp} {b b' : ByteBuffer} {n : ℕ}
    (hbefore : before.foldlM (execWrite native) {} = .ok b) (hn : 1 ≤ n) (hn32 : n ≤ 32)
    (hok : written native b 0 n after = .ok b') :
    BackPatches native b n after ↔
      ∀ i < n, Spares (b.getLastWriteBitPos + i) (b.getLastWriteBitPos + n) after := by
  have hwritten := @foldlM_writes native _ ⟨[], writing_empty⟩ before
  rw [hbefore] at hwritten
  obtain ⟨w, hw⟩ : Written b := hwritten
  have hrun := written_ok hw hok
  rw [hw.lastWriteBitPos]
  constructor
  · intro hpatch k hk
    by_contra hcover
    obtain ⟨c, hc, hwc⟩ := hrun 0
    obtain ⟨d, hd, hwd⟩ := hrun (bitValue n k)
    have htoNat := @toNat_bitValue n (by omega) k hk
    have hlt : (bitValue n k).toNat < 2 ^ n := by
      rw [htoNat]
      exact Nat.pow_lt_pow_right (by norm_num) (by omega)
    have hzero := patched_bits hw hn hc hwc hc hwc (hpatch 0 0 (by simp) (by simp)).1 hk
    have hvalue := patched_bits hw hn hc hwc hd hwd (hpatch 0 (bitValue n k) (by simp) hlt).1 hk
    rw [← encodeWritten_covered (by omega) hk hcover, hzero, getElem?_writtenBits _ (by omega) hk,
      getElem?_writtenBits _ (by omega) hk, htoNat, Nat.testBit_two_pow_self] at hvalue
    simp at hvalue
  · intro hspare placeholder v hp hv
    obtain ⟨c, hc, hwc⟩ := hrun placeholder
    obtain ⟨d, hd, hwd⟩ := hrun v
    obtain ⟨e, he, hwe⟩ := patched_ok hw hn hc hwc v
    have hin : w.length + (writtenBits v n).length ≤ (encodeWritten w placeholder n after).length := by
      rw [length_writtenBits]
      exact patch_fits ..
    refine ⟨?_, fun c' e' hc' he' i hi => ?_⟩
    · have hsame := @writeAt_of_sameOff _ (encodeWritten w v n after) _ _ hin
        (by rw [length_writtenBits]; exact encodeWritten_sameOff ..)
        (by rw [length_writtenBits]; exact fun i hi => encodeWritten_bits v hi (hspare i hi))
      rw [hsame] at hwe
      rw [he, hd, hwe.unique hwd]
    · obtain rfl := Except.ok.inj (hc.symm.trans hc')
      obtain rfl := Except.ok.inj (he.symm.trans he')
      rw [hw.lastWriteBitPos] at hi
      rw [hwe.bytes (by rw [length_writeAt hin, length_encodeWritten_mod]), hwc.bytes (length_encodeWritten_mod ..),
        getElem?_writeAt hin, length_writtenBits, if_neg (by omega)]

/-- Three bits between other ones. -/
theorem backPatch_three_bits : BackPatches .little { bitpos := 7, curBitVal := 0x80 } 3 [.writeBits 0x15 9] := by
  refine (@backPatch_iff .little [.writeBit true] [.writeBits 0x15 9] { bitpos := 7, curBitVal := 0x80 }
    { wpos := 2, storage := [0x80, 0xa8] } 3 rfl (by decide) (by decide) rfl).mpr fun i hi => ?_
  exact ⟨fun hcover => Nat.not_lt_zero _ hcover.2, trivial⟩

/-- The packed integer 0 behind a single bit. -/
theorem backPatch_under_mask : ∃ c d, patched .little {} 0 1 1 [.appendPackedUInt64 0] = .ok c ∧
    written .little {} 1 1 [.appendPackedUInt64 0] = .ok d ∧ c.storage = [0x80, 0] ∧ d.storage = [0, 0] := by
  have hpack (b : ByteBuffer) : execWrite .little b (.appendPackedUInt64 0) =
      (b.append [0] >>= fun b₁ => b₁.writeChars [] >>= fun b₂ => b₂.put b.wpos [0]) := by
    rw [execWrite, appendPackedUInt64_eq, packUInt64_zero]
  simp only [patched, written, List.foldlM_cons, List.foldlM_nil, hpack]
  exact ⟨_, _, rfl, rfl, rfl, rfl⟩

end TyphoonZero.ByteBuffer
