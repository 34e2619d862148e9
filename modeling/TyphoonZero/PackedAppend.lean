import TyphoonZero.PackedUInt64

/-! Packed integers written behind anything else. The mask is put at the write
position of the call, which is not yet behind the pending bits. -/
namespace TyphoonZero.ByteBuffer
open ByteOrder ByteConverter BitStream SparseCode Loop

namespace ByteBuffer
variable (b : ByteBuffer)

def appendPackedUInt64 (guid : UInt64) : Except Fault ByteBuffer := do
  let mask : UInt8 := 0
  let pos := b.wpos
  let b ← b.append [mask]
  let (mask, packed) := packUInt64 guid
  let b ← if packed.length ≠ 0 then b.append packed else pure b
  b.put pos [mask]

/-- The bytes of the buffer, with the pending bits as a byte of their own. -/
def flushed : List UInt8 := b.storage ++ if b.bitpos = kInitialBitPos then [] else [b.curBitVal]

end ByteBuffer

/-- The operations that write; the other forms of `Append` and `operator<<` are these
on the bytes of a value. -/
inductive WriteOp
  | append (src : List UInt8)
  | writeBit (bit : Bool)
  | writeBits (value : UInt64) (bits : ℕ)
  | flushBits
  | writeInt (t : IntType) (value : t.Val)
  | writeString (value : List UInt8)
  | writeChars (str : List UInt8)
  | put (pos : ℕ) (src : List UInt8)
  | putBits (pos : ℕ) (value : UInt64) (bitCount : ℕ)
  | appendPackedUInt64 (guid : UInt64)

def execWrite (native : Endian) (b : ByteBuffer) : WriteOp → Except Fault ByteBuffer
  | .append src => b.append src
  | .writeBit bit => b.writeBit bit
  | .writeBits value bits => ByteBuffer.writeBits value bits b
  | .flushBits => b.flushBits
  | .writeInt t value => b.writeInt native t value
  | .writeString value => b.writeString value
  | .writeChars str => b.writeChars str
  | .put pos src => b.put pos src
  | .putBits pos value bitCount => b.putBits pos value bitCount
  | .appendPackedUInt64 guid => b.appendPackedUInt64 guid

/-- The call returns, all that was written before it is still there with the pending
bits as a byte, and behind it the value is read back with all bytes to the end. -/
def AppendsPacked (native : Endian) (b : ByteBuffer) (guid : UInt64) : Prop :=
  ∃ b', b.appendPackedUInt64 guid = .ok b' ∧ b.flushed <+: b'.storage ∧
    ∃ b'', ByteBuffer.readPackedUInt64 native { b' with rpos := b.flushed.length } = .ok (guid, b'') ∧
      b''.rpos = b'.storage.length

/-- Something is written to the buffer and nothing read. -/
def Written (b : ByteBuffer) : Prop := ∃ w, Writing w b

section Written
variable {native : Endian} {w : List Bool} {b b' : ByteBuffer} {src : List UInt8}

/-- A write that ends keeps the buffer well formed. -/
abbrev Writes (r : Except Fault ByteBuffer) : Prop := Safe .assertion False r Written

lemma Exactly.writes {e : Prop} {r : Except Fault ByteBuffer} (h : Exactly e r (Writing w)) : Writes r :=
  (h.enough False.elim).weaken fun _ hb => ⟨w, hb.2⟩

lemma append_writes (h : Written b) (src : List UInt8) : Writes (b.append src) := by
  obtain ⟨w, hw⟩ := h
  by_cases hsrc : src = []
  · subst hsrc
    exact ⟨rfl, not_false⟩
  · exact (append_exact hw hsrc).writes

lemma writeBits_writes (h : Written b) (value : UInt64) (n : ℕ) : Writes (ByteBuffer.writeBits value n b) := by
  induction n generalizing b with
  | zero => exact h
  | succ n ih =>
    obtain ⟨w, hw⟩ := h
    exact (writeBit_exact hw _).writes.bind fun b' hb' => ih hb'

/-- Overwriting bytes of the storage. -/
lemma Written.overwrite (h : Written b) {storage : List UInt8} (hlen : storage.length = b.storage.length) :
    Written { b with storage := storage } := by
  obtain ⟨w, hrpos, hwpos, pending, -, hlt, hpos, hcur⟩ := h
  exact ⟨_, hrpos, by rw [hwpos, hlen], pending, rfl, hlt, hpos, hcur⟩

lemma put_writes (h : Written b) (pos : ℕ) (src : List UInt8) : Writes (b.put pos src) := by
  unfold ByteBuffer.put
  split_ifs with hout hnil
  · exact ⟨rfl, not_false⟩
  · exact ⟨rfl, not_false⟩
  · refine h.overwrite ?_
    simp only [List.length_append, List.length_take, List.length_drop]
    omega

lemma length_putBits (pos : ℕ) (value : UInt64) (bitCount : ℕ) (turns : List ℕ) (storage : List UInt8) :
    (turns.foldl (ByteBuffer.putBit pos value bitCount) storage).length = storage.length := by
  induction turns generalizing storage with
  | nil => rfl
  | cons i turns ih => rw [List.foldl_cons, ih, ByteBuffer.putBit, List.length_modify]

lemma putBits_writes (h : Written b) (pos : ℕ) (value : UInt64) (bitCount : ℕ) :
    Writes (b.putBits pos value bitCount) := by
  unfold ByteBuffer.putBits
  split_ifs with hout hnil
  · exact ⟨rfl, not_false⟩
  · exact ⟨rfl, not_false⟩
  · exact h.overwrite (length_putBits ..)

lemma writeString_writes (h : Written b) (value : List UInt8) : Writes (b.writeString value) := by
  unfold ByteBuffer.writeString
  split_ifs
  · exact append_writes h [0]
  · exact (append_writes h value).bind fun b' hb' => append_writes hb' [0]

lemma writeChars_writes (h : Written b) (str : List UInt8) : Writes (b.writeChars str) := by
  unfold ByteBuffer.writeChars
  split_ifs
  · exact append_writes h str
  · exact h

lemma appendPackedUInt64_eq (b : ByteBuffer) (guid : UInt64) : b.appendPackedUInt64 guid =
    (b.append [0] >>= fun b₁ => b₁.writeChars (packUInt64 guid).2 >>= fun b₂ =>
      b₂.put b.wpos [(packUInt64 guid).1]) := by
  unfold ByteBuffer.appendPackedUInt64 ByteBuffer.writeChars
  refine congrArg (b.append [0] >>= ·) (funext fun b₁ => ?_)
  dsimp only
  split_ifs <;> rfl

lemma appendPackedUInt64_writes (h : Written b) (guid : UInt64) : Writes (b.appendPackedUInt64 guid) := by
  rw [appendPackedUInt64_eq]
  refine (append_writes h [0]).bind fun b₁ hb₁ => ?_
  exact (writeChars_writes hb₁ (packUInt64 guid).2).bind fun b₂ hb₂ => put_writes hb₂ b.wpos [(packUInt64 guid).1]

lemma execWrite_writes (h : Written b) (op : WriteOp) : Writes (execWrite native b op) := by
  cases op with
  | append src => exact append_writes h src
  | writeBit bit =>
    obtain ⟨w, hw⟩ := h
    exact (writeBit_exact hw bit).writes
  | writeBits value bits => exact writeBits_writes h value bits
  | flushBits =>
    obtain ⟨w, hw⟩ := h
    exact ((flushBits_exact hw).weaken fun _ hb => hb.1).writes
  | writeInt t value => exact append_writes h _
  | writeString value => exact writeString_writes h value
  | writeChars str => exact writeChars_writes h str
  | put pos src => exact put_writes h pos src
  | putBits pos value bitCount => exact putBits_writes h pos value bitCount
  | appendPackedUInt64 guid => exact appendPackedUInt64_writes h guid

/-- A whole run of writes. -/
lemma foldlM_writes (h : Written b) (ops : List WriteOp) : Writes (ops.foldlM (execWrite native) b) := by
  induction ops generalizing b with
  | nil => exact h
  | cons op ops ih =>
    rw [List.foldlM_cons]
    exact (execWrite_writes h op).bind fun b' hb' => ih hb'

/-- `Append` below the limit: the pending bits become a byte, the new bytes follow. -/
lemma append_flushed (hwpos : b.wpos = b.storage.length) (hsrc : src ≠ []) (hroom : b.storage.length < limit) :
    ∃ b', b.append src = .ok b' ∧ b'.storage = b.flushed ++ src ∧ b'.wpos = b'.storage.length ∧
      b'.bitpos = kInitialBitPos := by
  unfold ByteBuffer.append
  rw [checkAppend_runs hsrc hroom, ByteBuffer.flushBits, ByteBuffer.flushed]
  by_cases h8 : b.bitpos = kInitialBitPos
  · obtain ⟨hcopy, hcopyw⟩ := @copyIn_end b src hwpos
    rw [if_pos h8, if_pos h8, List.append_nil]
    exact ⟨_, rfl, hcopy, by rw [hcopyw, hcopy], h8⟩
  · obtain ⟨hcopy, hcopyw⟩ := @copyIn_end { b with bitpos := kInitialBitPos } [b.curBitVal] hwpos
    obtain ⟨hcopy', hcopyw'⟩ := @copyIn_end { ByteBuffer.copyIn { b with bitpos := kInitialBitPos } [b.curBitVal]
      with curBitVal := 0 } src (by rw [hcopyw, hcopy])
    rw [if_neg h8, if_neg h8, @appendAligned_runs { b with bitpos := kInitialBitPos } [b.curBitVal] (by simp) hroom]
    refine ⟨_, rfl, ?_, by rw [hcopyw', hcopy'], rfl⟩
    rw [hcopy', hcopy]

lemma append_refuses (hroom : ¬ b.storage.length < limit) : b.append src = .error .assertion := by
  rw [ByteBuffer.append, ByteBuffer.checkAppend]
  by_cases hsrc : src.length = 0
  · rw [if_pos hsrc]
    rfl
  · rw [if_neg hsrc, if_neg hroom]
    rfl

/-- The storage has room for the appends of a packed integer. -/
def HasRoom (b : ByteBuffer) (guid : UInt64) : Prop :=
  b.storage.length < limit ∧ (guid ≠ 0 → b.flushed.length + 1 < limit)

lemma packUInt64_zero : packUInt64 0 = (0, []) := by
  rw [packUInt64, packLoop, if_pos rfl]

lemma packUInt64_ne_nil {guid : UInt64} (h : guid ≠ 0) : (packUInt64 guid).2 ≠ [] := by
  intro hnil
  have hbits : ∀ i, (packUInt64 guid).1.toNat.testBit i = (packUInt64 0).1.toNat.testBit i := by
    intro i
    rw [packUInt64_zero]
    have hzero : ∀ c ∈ leBytes 8 guid.toNat, c = 0 := by
      rw [(packUInt64_spec guid).2, nonzero, List.filter_eq_nil_iff] at hnil
      simpa using hnil
    have hbyte : byteAt guid i = 0 := by
      rcases Nat.lt_or_ge i 8 with hi | hi
      · refine hzero _ ?_
        rw [leBytes_eq_map]
        exact List.mem_map.mpr ⟨i, List.mem_range.mpr hi, rfl⟩
      · have hpow : 256 ^ 8 ≤ 256 ^ i := Nat.pow_le_pow_right (by norm_num) hi
        rw [byteAt, Nat.div_eq_of_lt (guid.toNat_lt.trans_le hpow)]
        rfl
    have hoff := (testBit_packUInt64 guid i).not.mpr (not_not.mpr hbyte)
    rw [Bool.not_eq_true] at hoff
    rw [hoff]
    exact (Nat.zero_testBit i).symm
  have hmask := UInt8.toNat_inj.mp (Nat.eq_of_testBit_eq hbits)
  have hbytes : packedBytes guid = packedBytes 0 := by
    rw [packedBytes, packedBytes, hmask, hnil, packUInt64_zero]
  exact h (packedBytes_prefixFree ⟨[], by rw [hbytes, List.append_nil]⟩)

/-- What is stored: the mask where the pending byte has to be, and behind it the byte
that was kept for the mask. -/
def packedStorage (b : ByteBuffer) (guid : UInt64) : List UInt8 :=
  b.storage ++ (packUInt64 guid).1 ::
    if b.bitpos = kInitialBitPos then (packUInt64 guid).2 else 0 :: (packUInt64 guid).2

lemma put_mask {guid : UInt64} (hwpos : b.wpos = b.storage.length)
    (hstorage : b'.storage = b.flushed ++ 0 :: (packUInt64 guid).2) :
    ∃ b₃, b'.put b.wpos [(packUInt64 guid).1] = .ok b₃ ∧ b₃.storage = packedStorage b guid := by
  have hlen : b.wpos + 1 ≤ b'.storage.length := by
    rw [hstorage, ByteBuffer.flushed, hwpos]
    simp only [List.length_append, List.length_cons]
    omega
  rw [ByteBuffer.put, if_neg (by rw [List.length_singleton]; omega), if_neg (by simp)]
  refine ⟨_, rfl, ?_⟩
  dsimp only
  rw [hstorage, hwpos, List.length_singleton, packedStorage, ByteBuffer.flushed]
  split_ifs with h8
  · rw [List.append_nil, List.take_left' rfl, List.drop_append, List.drop_of_length_le (by omega)]
    simp
  · rw [List.append_assoc b.storage [b.curBitVal], List.take_left' rfl, List.drop_append,
      List.drop_of_length_le (by omega)]
    simp

lemma appendPackedUInt64_exact (hwpos : b.wpos = b.storage.length) (guid : UInt64) :
    Exactly (HasRoom b guid) (b.appendPackedUInt64 guid) fun b' => b'.storage = packedStorage b guid := by
  rw [appendPackedUInt64_eq]
  by_cases hroom : b.storage.length < limit
  · obtain ⟨b₁, happend, hstorage, hwpos₁, h8⟩ := @append_flushed b [0] hwpos (by simp) hroom
    rw [happend]
    change Exactly _ (b₁.writeChars (packUInt64 guid).2 >>= _) _
    unfold ByteBuffer.writeChars
    by_cases hzero : guid = 0
    · subst hzero
      rw [packUInt64_zero, if_neg (by simp)]
      obtain ⟨b₃, hput, hb₃⟩ := @put_mask b b₁ 0 hwpos (by rw [hstorage, packUInt64_zero])
      rw [packUInt64_zero] at hput
      change Exactly _ (b₁.put b.wpos [0]) _
      rw [hput]
      exact ⟨⟨hroom, fun h => absurd rfl h⟩, hb₃⟩
    · have hne := packUInt64_ne_nil hzero
      rw [if_pos fun h => hne (List.length_eq_zero_iff.mp h)]
      have hlen : b₁.storage.length = b.flushed.length + 1 := by
        rw [hstorage, List.length_append, List.length_singleton]
      by_cases hroom' : b₁.storage.length < limit
      · obtain ⟨b₂, happend', hstorage', -, -⟩ := @append_flushed b₁ _ hwpos₁ hne hroom'
        rw [ByteBuffer.flushed, if_pos h8, hstorage, List.append_nil, List.append_assoc] at hstorage'
        obtain ⟨b₃, hput, hb₃⟩ := @put_mask b b₂ guid hwpos hstorage'
        rw [happend']
        change Exactly _ (b₂.put b.wpos _) _
        rw [hput]
        exact ⟨⟨hroom, fun _ => hlen ▸ hroom'⟩, hb₃⟩
      · rw [append_refuses hroom']
        exact ⟨rfl, fun h => hroom' (hlen ▸ h.2 hzero)⟩
  · rw [append_refuses hroom]
    exact ⟨rfl, fun h => hroom h.1⟩

/-- Behind the storage, with the pending byte already in it. -/
lemma appendsPacked_iff (hwpos : b.wpos = b.storage.length) (guid : UInt64) : AppendsPacked native b guid ↔
    (b.bitpos = kInitialBitPos ∨ guid = 0 ∧ b.curBitVal = 0) ∧ HasRoom b guid := by
  have hexact := appendPackedUInt64_exact hwpos guid
  have hone : packedBytes 0 = [0] := by rw [packedBytes, packUInt64_zero]
  constructor
  · rintro ⟨b', hok, hprefix, b'', hread, hend⟩
    rw [hok] at hexact
    obtain ⟨hroom, hstorage⟩ := hexact
    refine ⟨?_, hroom⟩
    rw [or_iff_not_imp_left]
    intro h8
    rw [packedStorage, if_neg h8] at hstorage
    -- the reader finds the zero byte that was kept for the mask
    have hdrop : b'.storage.drop b.flushed.length = packedBytes 0 ++ (packUInt64 guid).2 := by
      rw [hstorage, ByteBuffer.flushed, if_neg h8, hone, List.append_cons b.storage _ (0 :: _),
        List.drop_left' (by simp)]
      rfl
    have hzero := @readPackedUInt64_packed native 0 { b' with rpos := b.flushed.length } _ hdrop
    rw [hread] at hzero
    obtain rfl : guid = 0 := (Prod.mk.inj (Except.ok.inj hzero)).1
    refine ⟨rfl, ?_⟩
    rw [hstorage, ByteBuffer.flushed, if_neg h8, packUInt64_zero, List.prefix_append_right_inj,
      List.cons_prefix_cons] at hprefix
    exact hprefix.1
  · rintro ⟨hpending, hroom⟩
    obtain ⟨b', hok, -, hstorage⟩ := Safe.exists_ok hexact hroom
    refine ⟨b', hok, ?_⟩
    have hsplit : b'.storage = b.flushed ++ packedBytes guid := by
      rw [hstorage, packedStorage, ByteBuffer.flushed]
      by_cases h8 : b.bitpos = kInitialBitPos
      · rw [if_pos h8, if_pos h8, List.append_nil, packedBytes]
      · obtain ⟨rfl, hcur⟩ := hpending.resolve_left h8
        rw [if_neg h8, if_neg h8, hone, packUInt64_zero, hcur, List.append_assoc]
        rfl
    have hdrop : b'.storage.drop b.flushed.length = packedBytes guid ++ [] := by
      rw [hsplit, List.drop_left' rfl, List.append_nil]
    refine ⟨⟨_, hsplit.symm⟩, _, @readPackedUInt64_packed native guid { b' with rpos := b.flushed.length } [] hdrop, ?_⟩
    dsimp only
    rw [hsplit, List.length_append]

end Written

/-- In every buffer that writes can make, a packed integer is appended and read back just
when no bits are pending, or the integer and the pending bits are zero, and the storage
has room. -/
theorem appendPacked_iff (native : Endian) {ops : List WriteOp} {b : ByteBuffer}
    (hb : ops.foldlM (execWrite native) {} = .ok b) (guid : UInt64) :
    AppendsPacked native b guid ↔
      (b.bitpos = kInitialBitPos ∨ guid = 0 ∧ b.curBitVal = 0) ∧ HasRoom b guid := by
  obtain ⟨w, hw⟩ := Safe.of_eq_ok (foldlM_writes ⟨[], writing_empty⟩ ops) hb
  exact appendsPacked_iff hw.2.1 guid

/-- A buffer with one pending bit. -/
def onePending : ByteBuffer := { bitpos := 7, curBitVal := 0x80 }

/-- Not even the integer 0 is appended behind it, but it is behind a pending bit that is 0. -/
theorem appendPacked_onePending : ¬ AppendsPacked .little onePending 0 ∧ AppendsPacked .little { bitpos := 7 } 0 := by
  refine ⟨fun h => ?_, (@appendPacked_iff .little [.writeBit false] { bitpos := 7 } rfl 0).mpr
    ⟨.inr ⟨rfl, rfl⟩, by decide, fun h => absurd rfl h⟩⟩
  have hpending := ((@appendPacked_iff .little [.writeBit true] onePending rfl 0).mp h).1
  revert hpending
  decide

/-- The pending bit is lost and the integer is not read back. -/
theorem pending_overwritten : [WriteOp.writeBit true].foldlM (execWrite .little) {} = .ok onePending ∧
    HasRoom onePending 1 ∧ ¬ AppendsPacked .little onePending 1 := by
  refine ⟨rfl, ⟨by decide, fun _ => by decide⟩, fun h => ?_⟩
  have hpending := ((appendsPacked_iff rfl 1).mp h).1
  revert hpending
  decide

end TyphoonZero.ByteBuffer
