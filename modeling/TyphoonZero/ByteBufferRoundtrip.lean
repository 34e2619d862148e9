import TyphoonZero.ByteBufferWrite

/-! What is written to a byte buffer is read back. The reader is described by its
position in the bits of the storage. -/
namespace TyphoonZero.ByteBuffer
open ByteOrder ByteConverter BitStream Loop

/-- The next bit to read has the position `p`. Inside a byte the read position is
already behind it and the byte is kept. -/
def Reading (p : ℕ) (b : ByteBuffer) : Prop :=
  (p % 8 = 0 ∧ b.rpos = p / 8 ∧ kBoundaryBitPos ≤ b.bitpos ∧ b.bitpos ≤ kInitialBitPos) ∨
    (p % 8 ≠ 0 ∧ b.rpos = p / 8 + 1 ∧ b.bitpos + 1 = p % 8 ∧ b.storage[p / 8]? = some b.curBitVal)

/-- Reading changes neither the storage nor the write position. -/
def Keeps (b b' : ByteBuffer) : Prop := b'.storage = b.storage ∧ b'.wpos = b.wpos

lemma Keeps.trans {a b c : ByteBuffer} (h : Keeps a b) (h' : Keeps b c) : Keeps a c :=
  ⟨h'.1.trans h.1, h'.2.trans h.2⟩

section Reading
variable {native : Endian} {w : List Bool} {b : ByteBuffer} {p : ℕ}

lemma resetBitPos_spec (h : Reading p b) :
    b.resetBitPos.rpos = (p + 7) / 8 ∧ b.resetBitPos.bitpos = kInitialBitPos ∧ Keeps b b.resetBitPos := by
  have hk : kBoundaryBitPos = 7 ∧ kInitialBitPos = 8 := ⟨rfl, rfl⟩
  have hrpos : b.rpos = (p + 7) / 8 := by
    rcases h with ⟨h0, hr, -⟩ | ⟨h0, hr, -⟩
    · omega
    · omega
  unfold ByteBuffer.resetBitPos
  split_ifs with hbit
  · refine ⟨hrpos, ?_, rfl, rfl⟩
    rcases h with ⟨-, -, -, hle⟩ | ⟨-, -, heq, -⟩
    · omega
    · omega
  · exact ⟨hrpos, rfl, rfl, rfl⟩

lemma peek_eq {bs : List UInt8} (hne : bs ≠ []) (h : bs <+: b.storage.drop b.rpos) :
    b.peek bs.length = .ok bs := by
  have hlen := h.length_le
  have hpos := List.length_pos_iff.mpr hne
  rw [List.length_drop] at hlen
  rw [ByteBuffer.peek, if_neg (by omega), ← List.prefix_iff_eq_take.mp h]
  rfl

lemma read_eq {bs : List UInt8} (hbit : b.bitpos > kBoundaryBitPos) (hne : bs ≠ [])
    (h : bs <+: b.storage.drop b.rpos) :
    b.read native bs.length = .ok (ofLeBytes bs, { b with rpos := b.rpos + bs.length }) := by
  unfold ByteBuffer.read ByteBuffer.resetBitPos
  rw [if_pos hbit]
  dsimp only
  rw [peek_eq hne h]
  exact congrArg (fun v => Except.ok (v, _)) (load_endianRefMakeLittle native bs)

/-- The bytes behind `w`, from the next whole byte on. -/
lemma read_runs {bs : List UInt8} (hne : bs ≠ []) (h : Reading w.length b)
    (hbits : align w ++ bytesBits bs <+: bytesBits b.storage) :
    Runs (b.read native bs.length) fun r => r.1 = ofLeBytes bs ∧
      Reading (align w ++ bytesBits bs).length r.2 ∧ Keeps b r.2 := by
  obtain ⟨hrpos, hbit, hkeep⟩ := resetBitPos_spec h
  have hbs : bs <+: b.resetBitPos.storage.drop b.resetBitPos.rpos := by
    rw [hkeep.1, hrpos]
    exact bytes_at (length_align w) hbits
  unfold ByteBuffer.read
  dsimp only
  rw [peek_eq hne hbs]
  refine ⟨load_endianRefMakeLittle native bs, .inl ⟨?_, ?_, ?_, ?_⟩, hkeep⟩
  · rw [List.length_append, length_align, length_bytesBits]
    omega
  · dsimp only
    rw [List.length_append, length_align, length_bytesBits, hrpos]
    omega
  · dsimp only
    rw [hbit]
    decide
  · exact hbit.le

lemma shift_eq_getMsbD (c : UInt8) {i : ℕ} (hi : i < 8) :
    decide ((c >>> UInt8.ofNat (7 - i)) &&& 0x1 ≠ 0) = c.toBitVec.getMsbD i := by
  have hshift : (c >>> UInt8.ofNat (7 - i)).toNat = c.toNat >>> (7 - i) := by
    have hmod : (7 - i) % 256 % 8 = 7 - i := by omega
    simp [UInt8.toNat_shiftRight, hmod]
  have hand : ((c >>> UInt8.ofNat (7 - i)) &&& 0x1).toNat = (c.toNat >>> (7 - i)) % 2 := by
    rw [UInt8.toNat_and, hshift]
    exact Nat.and_one_is_mod _
  have hget : c.toBitVec.getMsbD i = c.toNat.testBit (7 - i) := by
    rw [BitVec.getMsbD, decide_eq_true hi, Bool.true_and]
    rfl
  rw [hget, Nat.testBit, Nat.and_comm, Nat.and_one_is_mod, ← hand]
  generalize (c >>> UInt8.ofNat (7 - i)) &&& 0x1 = x
  by_cases hx : x = 0
  · rw [hx]
    rfl
  · have hx' : x.toNat ≠ 0 := fun h0 => hx (UInt8.toNat_inj.mp h0)
    rw [decide_eq_true hx, bne_iff_ne.mpr hx']

lemma readBit_runs {bit : Bool} (h : Reading p b) (hbit : (bytesBits b.storage)[p]? = some bit) :
    Runs (b.readBit native) fun r => r.1 = bit ∧ Reading (p + 1) r.2 ∧ Keeps b r.2 := by
  have hk : kBoundaryBitPos = 7 ∧ kInitialBitPos = 8 := ⟨rfl, rfl⟩
  have hsplit : 8 * (p / 8) + p % 8 = p := Nat.div_add_mod p 8
  have hbyte := getElem_bytesBits b.storage (p / 8) (Nat.mod_lt p (by norm_num))
  rw [hsplit, hbit] at hbyte
  obtain ⟨c, hc, hval⟩ := Option.map_eq_some_iff.mp hbyte.symm
  unfold ByteBuffer.readBit
  dsimp only
  rcases h with ⟨h0, hrpos, hlo, hhi⟩ | ⟨h0, hrpos, hpos, hcur⟩
  · -- the byte with this bit is not read yet
    rw [if_pos (by omega)]
    have hpre : [c] <+: b.storage.drop b.rpos := by
      obtain ⟨hlt, hget⟩ := List.getElem?_eq_some_iff.mp hc
      rw [hrpos, List.drop_eq_getElem_cons hlt, hget]
      exact List.cons_prefix_cons.mpr ⟨rfl, List.nil_prefix⟩
    have hread := @read_eq native { b with bitpos := b.bitpos + 1 } [c] (by dsimp only; omega) (by simp) hpre
    rw [List.length_singleton] at hread
    rw [hread]
    have hbyte : UInt8.ofNat (ofLeBytes [c]) = c := by
      rw [ofLeBytes_cons, ofLeBytes_nil, Nat.mul_zero, Nat.add_zero, UInt8.ofNat_toNat]
    refine ⟨?_, .inr ⟨by omega, ?_, ?_, ?_⟩, rfl, rfl⟩
    · dsimp only
      rw [hbyte, ← hval, h0]
      exact shift_eq_getMsbD c (by norm_num)
    · dsimp only
      omega
    · dsimp only
      omega
    · dsimp only
      rw [hbyte, show (p + 1) / 8 = p / 8 by omega]
      exact hc
  · rw [if_neg (by omega)]
    obtain rfl : c = b.curBitVal := Option.some.inj (hc.symm.trans hcur)
    refine ⟨?_, ?_, rfl, rfl⟩
    · dsimp only
      rw [hpos, ← hval]
      exact shift_eq_getMsbD _ (Nat.mod_lt p (by norm_num))
    · by_cases hlast : p % 8 = 7
      · refine .inl ⟨by omega, ?_, ?_, ?_⟩
        · dsimp only
          omega
        · dsimp only
          omega
        · dsimp only
          omega
      · refine .inr ⟨by omega, ?_, ?_, ?_⟩
        · dsimp only
          omega
        · dsimp only
          omega
        · rw [show (p + 1) / 8 = p / 8 by omega]
          exact hcur

lemma getElem_behind {w t : List Bool} {bit : Bool} {rest : List Bool} (h : w ++ bit :: rest <+: t) :
    t[w.length]? = some bit := by
  obtain ⟨u, rfl⟩ := h
  simp

lemma toNat_one_shift {i : ℕ} (hi : i < 32) : ((0x1 : UInt32) <<< UInt32.ofNat i).toNat = 2 ^ i := by
  have hpow : 2 ^ i < 2 ^ 32 := Nat.pow_lt_pow_right (by norm_num) hi
  simp [UInt32.toNat_shiftLeft, Nat.mod_eq_of_lt hi, Nat.shiftLeft_eq]
  omega

/-- The bits of a number from the highest on, read into `value`. -/
lemma readBitsLoop_runs {n v : ℕ} (hn : n ≤ 32) (value : UInt32) (h : Reading w.length b)
    (hbits : w ++ natBits n v <+: bytesBits b.storage) :
    Runs (ByteBuffer.readBitsLoop native n value b) fun r =>
      r.1.toNat = value.toNat ||| v % 2 ^ n ∧ Reading (w ++ natBits n v).length r.2 ∧ Keeps b r.2 := by
  induction n generalizing w b value with
  | zero =>
    simp only [natBits, List.append_nil]
    exact ⟨by simp [Nat.mod_one], h, rfl, rfl⟩
  | succ i ih =>
    rw [natBits] at hbits ⊢
    refine (readBit_runs h (getElem_behind hbits)).bind fun r hr => ?_
    obtain ⟨hbit, hreading, hkeep⟩ := hr
    have hlen : w.length + 1 = (w ++ [v.testBit i]).length := by simp
    rw [List.append_cons] at hbits ⊢
    rw [hlen] at hreading
    rw [← hkeep.1] at hbits
    refine (ih (by omega) _ hreading hbits).weaken fun r' hr' => ?_
    obtain ⟨hval, hreading', hkeep'⟩ := hr'
    refine ⟨?_, hreading', hkeep.trans hkeep'⟩
    have hone := @toNat_one_shift i (by omega)
    have hsplit : v % 2 ^ (i + 1) = (if v.testBit i then 2 ^ i else 0) ||| v % 2 ^ i := by
      refine Nat.eq_of_testBit_eq fun j => ?_
      rw [Nat.testBit_or, Nat.testBit_mod_two_pow, Nat.testBit_mod_two_pow]
      rcases Nat.lt_trichotomy j i with hlt | heq | hgt
      · have hne : (if v.testBit i then 2 ^ i else 0).testBit j = false := by
          split_ifs
          · rw [Nat.testBit_two_pow]
            exact decide_eq_false (by omega)
          · exact Nat.zero_testBit j
        rw [hne, decide_eq_true hlt, decide_eq_true (show j < i + 1 by omega), Bool.false_or]
      · subst heq
        cases hv : v.testBit j <;> simp
      · have hne : (if v.testBit i then 2 ^ i else 0).testBit j = false := by
          split_ifs
          · rw [Nat.testBit_two_pow]
            exact decide_eq_false (by omega)
          · exact Nat.zero_testBit j
        rw [hne, decide_eq_false (show ¬ j < i by omega), decide_eq_false (show ¬ j < i + 1 by omega)]
        simp
    rw [hval, hsplit, hbit, ← Nat.or_assoc]
    congr 1
    split_ifs
    · rw [UInt32.toNat_or, hone]
    · simp

lemma Reading.rpos (h : Reading p b) : b.rpos = (p + 7) / 8 := by
  rcases h with ⟨h0, hr, -⟩ | ⟨h0, hr, -⟩
  · omega
  · omega

lemma readChar_runs {c : UInt8} {rest : List UInt8} (h : Reading w.length b)
    (hbits : align w ++ bytesBits (c :: rest) <+: bytesBits b.storage) :
    b.rpos < b.storage.length ∧ Runs (b.read native 1) fun r => r.1 = c.toNat ∧
      Reading (align w ++ bytesBits [c]).length r.2 ∧ Keeps b r.2 := by
  constructor
  · have hlen := (bytes_at (length_align w) hbits).length_le
    rw [List.length_drop, List.length_cons] at hlen
    rw [h.rpos]
    omega
  · have hpre : align w ++ bytesBits [c] <+: bytesBits b.storage := by
      refine List.IsPrefix.trans ?_ hbits
      rw [bytesBits_cons c rest, ← List.append_assoc, bytesBits_cons, bytesBits_nil, List.append_nil]
      exact List.prefix_append _ _
    refine (read_runs (by simp) h hpre).weaken fun r hr => ?_
    obtain ⟨hval, hreading, hkeep⟩ := hr
    refine ⟨?_, hreading, hkeep⟩
    rw [hval, ofLeBytes_cons, ofLeBytes_nil, Nat.mul_zero, Nat.add_zero]

lemma readStringLoop_runs {value : List UInt8} (s : List UInt8) (hs : 0 ∉ s) (n : ℕ)
    (hn : s.length < n) (h : Reading w.length b)
    (hbits : align w ++ bytesBits (s ++ [0]) <+: bytesBits b.storage) :
    Runs (ByteBuffer.readStringLoop native n value b) fun r =>
      r.1 = value ++ s ∧ Reading (align w ++ bytesBits (s ++ [0])).length r.2 ∧ Keeps b r.2 := by
  induction s generalizing w b value n with
  | nil =>
    obtain ⟨m, rfl⟩ : ∃ m, n = m + 1 := ⟨n - 1, by simp at hn; omega⟩
    obtain ⟨hlt, hchar⟩ := readChar_runs h hbits
    rw [ByteBuffer.readStringLoop, if_pos hlt]
    refine hchar.bind fun r hr => ?_
    obtain ⟨hval, hreading, hkeep⟩ := hr
    dsimp only
    rw [if_pos (by rw [hval]; rfl)]
    exact ⟨(List.append_nil value).symm, hreading, hkeep⟩
  | cons c s ih =>
    obtain ⟨m, rfl⟩ : ∃ m, n = m + 1 := ⟨n - 1, by simp at hn; omega⟩
    obtain ⟨hlt, hchar⟩ := readChar_runs h hbits
    rw [ByteBuffer.readStringLoop, if_pos hlt]
    refine hchar.bind fun r hr => ?_
    obtain ⟨hval, hreading, hkeep⟩ := hr
    have hc : c.toNat ≠ 0 := by
      intro h0
      have hzero : c = 0 := UInt8.toNat_inj.mp h0
      exact hs (by simp [hzero])
    have haligned : align (align w ++ bytesBits [c]) = align w ++ bytesBits [c] := by
      apply align_of_mod
      rw [List.length_append, length_align, length_bytesBits]
      omega
    have hsplit : align w ++ bytesBits (c :: s ++ [0]) =
        align (align w ++ bytesBits [c]) ++ bytesBits (s ++ [0]) := by
      rw [haligned, List.append_assoc, ← bytesBits_append]
      rfl
    dsimp only
    rw [if_neg (by rw [hval]; exact hc), hval, UInt8.ofNat_toNat]
    rw [hsplit, ← hkeep.1] at hbits
    have hrec : Runs (ByteBuffer.readStringLoop native m (value ++ [c]) r.2) _ :=
      ih (fun h0 => hs (by simp [h0])) m (by simpa using hn) hreading hbits
    refine hrec.weaken fun r' hr' => ?_
    obtain ⟨hval', hreading', hkeep'⟩ := hr'
    refine ⟨by rw [hval', List.append_assoc]; rfl, ?_, hkeep.trans hkeep'⟩
    rw [hsplit]
    exact hreading'

lemma IntType.sizeof_readAs (t : IntType) : t.readAs.sizeof = t.sizeof := by
  cases t <;> rfl

lemma readItem_runs {item : Item} (hv : item.Valid) (h : Reading w.length b)
    (hbits : item.encode w <+: bytesBits b.storage) :
    Runs (readItem native b item.call) fun r =>
      r.1 = item ∧ Reading (item.encode w).length r.2 ∧ Keeps b r.2 := by
  cases item with
  | int t value =>
    have hlen : t.readAs.sizeof = (leBytes t.sizeof value.toNat).length := by
      rw [t.sizeof_readAs, length_leBytes]
    have hne : leBytes t.sizeof value.toNat ≠ [] := by
      intro hnil
      have hpos := t.sizeof_pos
      rw [← t.sizeof_readAs, hlen, hnil] at hpos
      simp at hpos
    have hint : Runs (b.readInt native t) fun r => r.1 = value ∧
        Reading (align w ++ bytesBits (leBytes t.sizeof value.toNat)).length r.2 ∧ Keeps b r.2 := by
      rw [ByteBuffer.readInt, hlen]
      refine (read_runs hne h hbits).bind fun r hr => ?_
      obtain ⟨hval, hreading, hkeep⟩ := hr
      refine ⟨?_, hreading, hkeep⟩
      have hlt : value.toNat < 256 ^ t.sizeof := by
        have hpow : 2 ^ (8 * t.sizeof) = 256 ^ t.sizeof := by
          rw [pow_mul]
          norm_num
        rw [← hpow]
        exact value.isLt
      dsimp only
      rw [hval, ofLeBytes_leBytes, Nat.mod_eq_of_lt hlt, BitVec.ofNat_toNat, BitVec.setWidth_eq]
    exact hint.map fun r hr => ⟨by rw [hr.1], hr.2⟩
  | str value =>
    have hloop : Runs (b.readString native) fun r => r.1 = [] ++ value ∧
        Reading (align w ++ bytesBits (value ++ [0])).length r.2 ∧ Keeps b r.2 := by
      refine readStringLoop_runs value hv _ ?_ h hbits
      have hlen := (bytes_at (length_align w) hbits).length_le
      rw [List.length_drop, List.length_append, List.length_singleton] at hlen
      rw [h.rpos]
      omega
    exact hloop.map fun r hr => ⟨by rw [hr.1]; rfl, hr.2⟩
  | bits n value =>
    obtain ⟨hn, hlt⟩ := hv
    have hloop : Runs (b.readBits native n) _ := readBitsLoop_runs hn 0 h hbits
    refine Safe.map hloop fun r hr => ⟨?_, hr.2⟩
    have hval : r.1.toNat = value.toNat := by
      rw [hr.1, Nat.mod_eq_of_lt hlt]
      exact Nat.zero_or _
    rw [UInt32.toNat_inj.mp hval]

lemma readItems_runs {items : List Item} (hv : ∀ i ∈ items, i.Valid) (h : Reading w.length b)
    (hbits : items.foldl Item.encode w <+: bytesBits b.storage) :
    Runs (readItems native (items.map Item.call) b) fun r =>
      r.1 = items ∧ Reading (items.foldl Item.encode w).length r.2 ∧ Keeps b r.2 := by
  induction items generalizing w b with
  | nil => exact ⟨rfl, h, rfl, rfl⟩
  | cons item items ih =>
    rw [List.map_cons, readItems]
    have hpre := (prefix_foldl items (item.encode w)).trans hbits
    refine (readItem_runs (hv item (by simp)) h hpre).bind fun r hr => ?_
    obtain ⟨hitem, hreading, hkeep⟩ := hr
    rw [List.foldl_cons, ← hkeep.1] at hbits
    refine (ih (fun i hi => hv i (by simp [hi])) hreading hbits).bind fun r' hr' => ?_
    obtain ⟨hitems, hreading', hkeep'⟩ := hr'
    exact ⟨by rw [hitem, hitems], hreading', hkeep.trans hkeep'⟩

end Reading

/-- The bytes of the whole stream. -/
def encodedSize (items : List Item) : ℕ := (align (encodeItems items)).length / 8

/-- Reading with the mirrored calls gives back the items and ends at the end of
the buffer. -/
theorem roundtrip (native : Endian) {items : List Item} (hv : ∀ i ∈ items, i.Valid)
    (hsize : encodedSize items < 10000000) :
    ∃ b, writeItems native items = .ok b ∧ ∃ b', readItems native (items.map Item.call) b = .ok (items, b') ∧
      b'.rpos = b'.wpos ∧ b'.wpos = b'.storage.length := by
  have hlen : (align (encodeItems items)).length ≤ 8 * limit := by
    have hl : limit = 10000000 := rfl
    rw [encodedSize, length_align] at hsize
    rw [length_align]
    omega
  have hwrite : Runs (writeItems native items) _ := writeItems_runs hv hlen
  obtain ⟨b, hb, hrpos, hwpos, hbit, hbits⟩ := hwrite.exists_ok trivial
  have hstart : Reading ([] : List Bool).length b := by
    refine .inl ⟨rfl, hrpos, ?_, hbit.le⟩
    rw [hbit]
    decide
  have hpre : items.foldl Item.encode [] <+: bytesBits b.storage := by
    rw [hbits]
    exact List.prefix_append _ _
  have hread : Runs (readItems native (items.map Item.call) b) _ := readItems_runs hv hstart hpre
  obtain ⟨r, hr, hitems, hreading, hkeep⟩ := hread.exists_ok trivial
  refine ⟨b, hb, r.2, by rw [hr, ← hitems], ?_, by rw [hkeep.1, hkeep.2, hwpos]⟩
  have htotal := congrArg List.length hbits
  rw [length_bytesBits, length_align] at htotal
  rw [hreading.rpos, hkeep.2, hwpos]
  change ((encodeItems items).length + 7) / 8 = _
  omega

/-- Bits before and behind a string, and a number behind bits. -/
def mixed : List Item := [.bits 3 5, .str [104, 105], .bits 9 300, .int .int16 (-2)]

theorem roundtrip_mixed :
    ∃ b, writeItems .little mixed = .ok b ∧ ∃ b', readItems .little (mixed.map Item.call) b = .ok (mixed, b') ∧
      b'.rpos = b'.wpos ∧ b'.wpos = b'.storage.length :=
  roundtrip .little (by simp [mixed, Item.Valid]) (by decide +kernel)

end TyphoonZero.ByteBuffer
