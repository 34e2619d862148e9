import TyphoonZero.ByteBufferBounds
import TyphoonZero.ByteBufferRoundtrip
import TyphoonZero.SparseCode

/-! Packed 64-bit integers: a mask of the bytes that are not zero, then these bytes. -/
namespace TyphoonZero.ByteBuffer
open ByteOrder ByteConverter SparseCode

/-- The loop of `PackUInt64` from byte `i` on. -/
def packLoop (value : UInt64) (i : ℕ) (mask : UInt8) (result : List UInt8) : UInt8 × List UInt8 :=
  if value = 0 then (mask, result)
  else if value &&& 0xFF ≠ 0 then
    packLoop (value >>> 8) (i + 1) (mask ||| UInt8.ofNat (1 <<< i)) (result ++ [(value &&& 0xFF).toUInt8])
  else packLoop (value >>> 8) (i + 1) mask result
termination_by value.toNat
decreasing_by
  all_goals
    have hpos : value.toNat ≠ 0 := fun h => ‹¬ value = 0› (UInt64.toNat_inj.mp h)
    rw [UInt64.toNat_shiftRight, Nat.shiftRight_eq_div_pow]
    exact Nat.div_lt_self (Nat.pos_of_ne_zero hpos) (by decide)

/-- The mask and the bytes of `result` that `PackUInt64` fills. -/
def packUInt64 (value : UInt64) : UInt8 × List UInt8 := packLoop value 0 0 []

/-- The mask and the bytes behind it. -/
def packedBytes (value : UInt64) : List UInt8 := (packUInt64 value).1 :: (packUInt64 value).2

/-- The loop of `ReadPackedUInt64` for `n` bits of the mask from bit `i` on. -/
def readPackedLoop (native : Endian) (mask : UInt8) : ℕ → ℕ → UInt64 → ByteBuffer → Except Fault (UInt64 × ByteBuffer)
  | 0, _, value, b => pure (value, b)
  | n + 1, i, value, b =>
    if mask &&& UInt8.ofNat (1 <<< i) ≠ 0 then do
      let (byte, b) ← b.read native 1
      readPackedLoop native mask n (i + 1) (value ||| UInt64.ofNat byte <<< UInt64.ofNat (i * kInitialBitPos)) b
    else readPackedLoop native mask n (i + 1) value b

def ByteBuffer.readPackedUInt64 (native : Endian) (b : ByteBuffer) : Except Fault (UInt64 × ByteBuffer) := do
  let (mask, b) ← b.read native 1
  readPackedLoop native (UInt8.ofNat mask) kInitialBitPos 0 0 b

/-- Byte `i` of a value. -/
def byteAt (value : UInt64) (i : ℕ) : UInt8 := UInt8.ofNat (value.toNat / 256 ^ i)

/-- `n` bits of a mask from bit `i` on. -/
def maskBits (mask : UInt8) (i n : ℕ) : List Bool := (List.range' i n).map mask.toNat.testBit

/-- A mask and, for each of its bits, one byte that is not zero. -/
def WellFormed (bytes : List UInt8) : Prop :=
  ∃ mask bs, bytes = mask :: bs ∧ bs.length = (maskBits mask 0 8).count true ∧ 0 ∉ bs

section Pack
variable {value : UInt64} {mask : UInt8} {i n : ℕ}

lemma toNat_low (value : UInt64) : (value &&& 0xFF).toNat = value.toNat % 256 := by
  rw [UInt64.toNat_and]
  exact Nat.and_two_pow_sub_one_eq_mod value.toNat 8

lemma toUInt8_low (value : UInt64) : (value &&& 0xFF).toUInt8 = UInt8.ofNat value.toNat := by
  apply UInt8.toNat_inj.mp
  rw [UInt64.toNat_toUInt8, toNat_low, UInt8.toNat_ofNat', Nat.mod_mod]

lemma low_ne_zero_iff (value : UInt64) : value &&& 0xFF ≠ 0 ↔ UInt8.ofNat value.toNat ≠ 0 := by
  rw [← toUInt8_low]
  refine not_congr ?_
  rw [← UInt64.toNat_inj, ← UInt8.toNat_inj, UInt64.toNat_toUInt8, toNat_low, Nat.mod_mod]
  rfl

lemma toNat_shift (value : UInt64) : (value >>> 8).toNat = value.toNat / 256 := by
  rw [UInt64.toNat_shiftRight, Nat.shiftRight_eq_div_pow]
  rfl

lemma toNat_oneBit (hi : i < 8) : (UInt8.ofNat (1 <<< i)).toNat = 2 ^ i := by
  have hlt : 2 ^ i < 2 ^ 8 := Nat.pow_lt_pow_right (by norm_num) hi
  rw [UInt8.toNat_ofNat', Nat.one_shiftLeft, Nat.mod_eq_of_lt hlt]

lemma maskBits_succ : maskBits mask i (n + 1) = mask.toNat.testBit i :: maskBits mask (i + 1) n := by
  rw [maskBits, List.range'_succ, List.map_cons]
  rfl

/-- A mask is known from its eight bits. -/
lemma mask_eq_of_bits {mask' : UInt8} (h : maskBits mask 0 8 = maskBits mask' 0 8) : mask = mask' := by
  apply UInt8.toNat_inj.mp
  refine Nat.eq_of_testBit_eq fun j => ?_
  rcases Nat.lt_or_ge j 8 with hj | hj
  · have hget := congrArg (fun l => l[j]?) h
    simpa [maskBits, List.getElem?_range', hj] using hget
  · have hpow : 2 ^ 8 ≤ 2 ^ j := Nat.pow_le_pow_right (by norm_num) hj
    rw [Nat.testBit_lt_two_pow (mask.toNat_lt.trans_le hpow), Nat.testBit_lt_two_pow (mask'.toNat_lt.trans_le hpow)]

lemma testBit_or_oneBit (mask : UInt8) (hi : i < 8) (j : ℕ) :
    (mask ||| UInt8.ofNat (1 <<< i)).toNat.testBit j = (mask.toNat.testBit j || decide (i = j)) := by
  rw [UInt8.toNat_or, Nat.testBit_or, toNat_oneBit hi, Nat.testBit_two_pow]

lemma and_oneBit_iff (mask : UInt8) (hi : i < 8) : mask &&& UInt8.ofNat (1 <<< i) ≠ 0 ↔ mask.toNat.testBit i := by
  rw [Ne, ← UInt8.toNat_inj, UInt8.toNat_and, toNat_oneBit hi, Nat.and_two_pow]
  cases hbit : mask.toNat.testBit i with
  | false => simp
  | true => simp

/-- A turn of the loop; a value that is zero may take turns as well. -/
lemma packLoop_step (result : List UInt8) : packLoop value i mask result =
    if UInt8.ofNat value.toNat = 0 then packLoop (value >>> 8) (i + 1) mask result
    else packLoop (value >>> 8) (i + 1) (mask ||| UInt8.ofNat (1 <<< i)) (result ++ [UInt8.ofNat value.toNat]) := by
  by_cases h0 : value = 0
  · subst h0
    rw [if_pos (by rfl), packLoop, if_pos rfl, UInt64.zero_shiftRight, packLoop, if_pos rfl]
  · rw [packLoop, if_neg h0, toUInt8_low]
    by_cases hlow : UInt8.ofNat value.toNat = 0
    · rw [if_pos hlow, if_neg fun h => (low_ne_zero_iff value).mp h hlow]
    · rw [if_neg hlow, if_pos ((low_ne_zero_iff value).mpr hlow)]

/-- The loop over a value of `k` bytes. The bits of the mask below `i` stay. -/
lemma packLoop_spec {k : ℕ} {result : List UInt8} (hvalue : value.toNat < 256 ^ k) (hk : i + k ≤ 8)
    (hmask : ∀ j, i ≤ j → mask.toNat.testBit j = false) :
    (packLoop value i mask result).2 = result ++ nonzero (leBytes k value.toNat) ∧
      maskBits (packLoop value i mask result).1 i k = SparseCode.mask (leBytes k value.toNat) ∧
      ∀ j < i, (packLoop value i mask result).1.toNat.testBit j = mask.toNat.testBit j := by
  induction k generalizing value i mask result with
  | zero =>
    have h0 : value = 0 := UInt64.toNat_inj.mp (by simpa using hvalue)
    rw [packLoop, if_pos h0]
    exact ⟨(List.append_nil _).symm, rfl, fun _ _ => rfl⟩
  | succ k ih =>
    have hshift : (value >>> 8).toNat < 256 ^ k := by
      rw [toNat_shift]
      rw [pow_succ] at hvalue
      exact Nat.div_lt_of_lt_mul (by omega)
    rw [packLoop_step, leBytes, maskBits_succ, ← toNat_shift, mask_cons]
    by_cases hlow : UInt8.ofNat value.toNat = 0
    · obtain ⟨hres, hbits, hbelow⟩ :=
        @ih _ mask (i + 1) result hshift (by omega) fun j hj => hmask j (by omega)
      rw [if_pos hlow, hbits, hbelow i (by omega), hmask i le_rfl, decide_eq_false (not_not.mpr hlow)]
      exact ⟨by rw [hres, nonzero_cons_zero hlow], rfl, fun j hj => hbelow j (by omega)⟩
    · obtain ⟨hres, hbits, hbelow⟩ :=
        @ih _ (mask ||| UInt8.ofNat (1 <<< i)) (i + 1) (result ++ [UInt8.ofNat value.toNat]) hshift (by omega) (by
          intro j hj
          rw [testBit_or_oneBit mask (by omega), hmask j (by omega), decide_eq_false (by omega), Bool.false_or])
      rw [if_neg hlow, hbits, hbelow i (by omega), testBit_or_oneBit mask (by omega), decide_eq_true hlow,
        decide_eq_true rfl, Bool.or_true]
      refine ⟨?_, rfl, ?_⟩
      · rw [hres, nonzero_cons hlow, List.append_assoc]
        rfl
      · intro j hj
        rw [hbelow j (by omega), testBit_or_oneBit mask (by omega), decide_eq_false (by omega), Bool.or_false]

/-- The mask and the bytes are the sparse code of the eight bytes of the value. -/
lemma packUInt64_spec (value : UInt64) :
    maskBits (packUInt64 value).1 0 8 = SparseCode.mask (leBytes 8 value.toNat) ∧
      (packUInt64 value).2 = nonzero (leBytes 8 value.toNat) := by
  have hzero : ∀ j, 0 ≤ j → (0 : UInt8).toNat.testBit j = false := fun j _ => Nat.zero_testBit j
  obtain ⟨hres, hbits, -⟩ := @packLoop_spec value 0 0 8 [] (value.toNat_lt.trans_le (by norm_num)) le_rfl hzero
  exact ⟨hbits, hres⟩

end Pack

section ReadPacked
variable {native : Endian} {value : UInt64} {mask : UInt8} {b : ByteBuffer} {i n : ℕ}

/-- A byte joins the value above its `i` bytes. -/
lemma toNat_joined {c : UInt8} (hi : i < 8) (hvalue : value.toNat < 256 ^ i) :
    (value ||| UInt64.ofNat c.toNat <<< UInt64.ofNat (i * kInitialBitPos)).toNat =
      value.toNat + 256 ^ i * c.toNat := by
  have hk : kInitialBitPos = 8 := rfl
  have hpow : (256 : ℕ) ^ i = 2 ^ (i * 8) := by
    rw [Nat.mul_comm, pow_mul]
    norm_num
  have hc := c.toNat_lt
  have hlt : c.toNat * 2 ^ (i * 8) < 2 ^ 64 := by
    have hle : (2 : ℕ) ^ (i * 8) ≤ 2 ^ 56 := Nat.pow_le_pow_right (by norm_num) (by omega)
    calc c.toNat * 2 ^ (i * 8) < 2 ^ 8 * 2 ^ (i * 8) := Nat.mul_lt_mul_of_pos_right hc (by positivity)
      _ ≤ 2 ^ 8 * 2 ^ 56 := Nat.mul_le_mul_left _ hle
      _ = 2 ^ 64 := by norm_num
  have hshift : (UInt64.ofNat c.toNat <<< UInt64.ofNat (i * kInitialBitPos)).toNat = 2 ^ (i * 8) * c.toNat := by
    rw [UInt64.toNat_shiftLeft, UInt64.toNat_ofNat', UInt64.toNat_ofNat', hk,
      Nat.mod_eq_of_lt (show i * 8 < 2 ^ 64 by omega), Nat.mod_eq_of_lt (show i * 8 < 64 by omega),
      Nat.mod_eq_of_lt (show c.toNat < 2 ^ 64 by omega), Nat.shiftLeft_eq, Nat.mod_eq_of_lt hlt, Nat.mul_comm]
  rw [UInt64.toNat_or, hshift, hpow, Nat.or_comm, ← Nat.two_pow_add_eq_or_of_lt (hpow ▸ hvalue), Nat.add_comm]

/-- The loop reads what the rest of the mask expands to. -/
lemma readPackedLoop_spec {l rest : List UInt8} (hbit : b.bitpos > kBoundaryBitPos) (hin : i + n = 8)
    (hvalue : value.toNat < 256 ^ i) (hrpos : b.rpos ≤ b.storage.length)
    (hexpand : expand (maskBits mask i n) (b.storage.drop b.rpos) = some (l, rest)) :
    readPackedLoop native mask n i value b =
      .ok (UInt64.ofNat (value.toNat + 256 ^ i * ofLeBytes l), { b with rpos := b.storage.length - rest.length }) := by
  induction n generalizing i value b l with
  | zero =>
    obtain ⟨rfl, rfl⟩ := Prod.mk.inj (Option.some.inj hexpand)
    rw [readPackedLoop, ofLeBytes_nil, Nat.mul_zero, Nat.add_zero, UInt64.ofNat_toNat, List.length_drop,
      Nat.sub_sub_self hrpos]
    rfl
  | succ n ih =>
    rw [maskBits_succ] at hexpand
    rw [readPackedLoop]
    have hpow : (256 : ℕ) ^ i ≤ 256 ^ (i + 1) := Nat.pow_le_pow_right (by norm_num) (by omega)
    cases htest : mask.toNat.testBit i with
    | false =>
      rw [htest, expand] at hexpand
      obtain ⟨⟨l', rest'⟩, hexp, heq⟩ := Option.map_eq_some_iff.mp hexpand
      obtain ⟨rfl, rfl⟩ := Prod.mk.inj heq
      have hoff : ¬ mask &&& UInt8.ofNat (1 <<< i) ≠ 0 := by
        rw [and_oneBit_iff mask (by omega), htest]
        exact Bool.false_ne_true
      rw [if_neg hoff, @ih value b (i + 1) l' hbit (by omega) (hvalue.trans_le hpow) hrpos hexp, ofLeBytes_cons,
        pow_succ, Nat.mul_assoc]
      simp
    | true =>
      obtain ⟨c, s, hs⟩ : ∃ c s, b.storage.drop b.rpos = c :: s := by
        cases hdrop : b.storage.drop b.rpos with
        | nil => rw [htest, hdrop, expand] at hexpand; cases hexpand
        | cons c s => exact ⟨c, s, rfl⟩
      rw [htest, hs, expand] at hexpand
      obtain ⟨⟨l', rest'⟩, hexp, heq⟩ := Option.map_eq_some_iff.mp hexpand
      obtain ⟨rfl, rfl⟩ := Prod.mk.inj heq
      have hread := @read_eq native b [c] hbit (by simp) (by rw [hs]; exact ⟨s, rfl⟩)
      rw [List.length_singleton, ofLeBytes_cons, ofLeBytes_nil, Nat.mul_zero, Nat.add_zero] at hread
      have hlen : b.rpos + 1 ≤ b.storage.length := by
        have hl := congrArg List.length hs
        rw [List.length_drop, List.length_cons] at hl
        omega
      have hdrop : b.storage.drop (b.rpos + 1) = s := by
        rw [← List.drop_drop, hs]
        rfl
      have hjoin := @toNat_joined value i c (by omega) hvalue
      have hlt : value.toNat + 256 ^ i * c.toNat < 256 ^ (i + 1) := by
        have hmul := Nat.mul_le_mul_left (256 ^ i) (Nat.le_of_lt_succ c.toNat_lt)
        rw [pow_succ]
        omega
      rw [if_pos ((and_oneBit_iff mask (by omega)).mpr htest), hread]
      refine (@ih _ { b with rpos := b.rpos + 1 } (i + 1) l' hbit (by omega) (by rwa [hjoin]) hlen
        (by rw [hdrop]; exact hexp)).trans ?_
      rw [hjoin, ofLeBytes_cons, pow_succ, Nat.mul_assoc, Nat.mul_add, Nat.add_assoc]

/-- The mask and then the bytes that it wants. -/
lemma readPackedUInt64_spec {s l rest : List UInt8} (hdrop : b.storage.drop b.rpos = mask :: s)
    (hexpand : expand (maskBits mask 0 8) s = some (l, rest)) :
    b.readPackedUInt64 native =
      .ok (UInt64.ofNat (ofLeBytes l), { b.resetBitPos with rpos := b.storage.length - rest.length }) := by
  obtain ⟨hr, -, hs⟩ := resetBitPos_rest b
  have hread : b.read native 1 = .ok (mask.toNat, { b.resetBitPos with rpos := b.rpos + 1 }) := by
    have hpeek := @peek_eq b.resetBitPos [mask] (by simp) (by rw [hr, hs, hdrop]; exact ⟨s, rfl⟩)
    have hload := load_endianRefMakeLittle native [mask]
    rw [List.length_singleton] at hpeek
    rw [ofLeBytes_cons, ofLeBytes_nil, Nat.mul_zero, Nat.add_zero] at hload
    rw [ByteBuffer.read]
    dsimp only
    rw [hpeek, hr]
    exact congrArg (fun v => Except.ok (v, _)) hload
  have hlen : b.rpos + 1 ≤ b.storage.length := by
    have hl := congrArg List.length hdrop
    rw [List.length_drop, List.length_cons] at hl
    omega
  have hbit : b.resetBitPos.bitpos > kBoundaryBitPos := by
    unfold ByteBuffer.resetBitPos
    split_ifs with h
    · exact h
    · exact Nat.lt_succ_self kBoundaryBitPos
  have hrest : b.storage.drop (b.rpos + 1) = s := by
    rw [← List.drop_drop, hdrop]
    rfl
  have hloop := @readPackedLoop_spec native 0 mask { b.resetBitPos with rpos := b.rpos + 1 } 0 8 l rest hbit rfl
    (by decide) (by rw [hs]; exact hlen) (by rw [hs, hrest]; exact hexpand)
  rw [ByteBuffer.readPackedUInt64, hread]
  refine (congrArg (fun m => readPackedLoop native m kInitialBitPos 0 0 _) UInt8.ofNat_toNat).trans (hloop.trans ?_)
  simp [hs]

/-- What `WellFormed` bytes are the code of. -/
lemma WellFormed.exists_digits {bs : List UInt8} (hcount : bs.length = (maskBits mask 0 8).count true)
    (hzero : 0 ∉ bs) : ∃ l, l.length = 8 ∧ SparseCode.mask l = maskBits mask 0 8 ∧ nonzero l = bs := by
  obtain ⟨l, hmask, hl⟩ := exists_of_count hzero hcount.symm
  refine ⟨l, ?_, hmask, hl⟩
  rw [← length_mask l, hmask, maskBits, List.length_map, List.length_range']

lemma leBytes_ofLeBytes (l : List UInt8) : leBytes l.length (ofLeBytes l) = l := by
  induction l with
  | nil => rfl
  | cons c l ih =>
    have hc := c.toNat_lt
    have hlow : UInt8.ofNat (c.toNat + 256 * ofLeBytes l) = c := by
      apply UInt8.toNat_inj.mp
      rw [UInt8.toNat_ofNat']
      omega
    have hhigh : (c.toNat + 256 * ofLeBytes l) / 256 = ofLeBytes l := by omega
    rw [ofLeBytes_cons, List.length_cons, leBytes, hlow, hhigh, ih]

lemma leBytes_eq_map (k n : ℕ) : leBytes k n = (List.range k).map fun i => UInt8.ofNat (n / 256 ^ i) := by
  induction k generalizing n with
  | zero => rfl
  | succ k ih =>
    rw [leBytes, ih, List.range_succ_eq_map, List.map_cons, List.map_map, pow_zero, Nat.div_one]
    congr 1
    refine List.map_congr_left fun i _ => ?_
    rw [Function.comp, pow_succ', Nat.div_div_eq_div_mul]

/-- Reading the code of eight bytes, wherever it lies. -/
lemma read_sparse {l rest : List UInt8} (hlen : l.length = 8) (hmask : SparseCode.mask l = maskBits mask 0 8)
    (hdrop : b.storage.drop b.rpos = mask :: nonzero l ++ rest) :
    b.readPackedUInt64 native = .ok (UInt64.ofNat (ofLeBytes l),
      { b.resetBitPos with rpos := b.rpos + (mask :: nonzero l).length }) ∧
    packedBytes (UInt64.ofNat (ofLeBytes l)) = mask :: nonzero l := by
  have hvalue : (UInt64.ofNat (ofLeBytes l)).toNat = ofLeBytes l := by
    have hlt := ofLeBytes_lt l
    rw [hlen] at hlt
    exact UInt64.toNat_ofNat_of_lt' (hlt.trans_le (by norm_num))
  have hbytes : leBytes 8 (ofLeBytes l) = l := by
    rw [← hlen]
    exact leBytes_ofLeBytes l
  obtain ⟨hbits, hpacked⟩ := packUInt64_spec (UInt64.ofNat (ofLeBytes l))
  rw [hvalue, hbytes] at hbits hpacked
  constructor
  · have hsize := congrArg List.length hdrop
    rw [List.length_drop, List.length_append, List.length_cons] at hsize
    have hend : b.storage.length - rest.length = b.rpos + (mask :: nonzero l).length := by
      rw [List.length_cons]
      omega
    rw [readPackedUInt64_spec hdrop (by rw [← hmask]; exact expand_mask l rest), hend]
  · rw [packedBytes, hpacked, mask_eq_of_bits (hbits.trans hmask)]

lemma packUInt64_digits (value : UInt64) : packedBytes value = (packUInt64 value).1 :: nonzero (leBytes 8 value.toNat) ∧
    UInt64.ofNat (ofLeBytes (leBytes 8 value.toNat)) = value := by
  refine ⟨by rw [packedBytes, (packUInt64_spec value).2], ?_⟩
  rw [ofLeBytes_leBytes, Nat.mod_eq_of_lt (value.toNat_lt.trans_le (by norm_num)), UInt64.ofNat_toNat]

lemma readPackedUInt64_packed {rest : List UInt8} (hdrop : b.storage.drop b.rpos = packedBytes value ++ rest) :
    b.readPackedUInt64 native =
      .ok (value, { b.resetBitPos with rpos := b.rpos + (packedBytes value).length }) := by
  obtain ⟨hbytes, hvalue⟩ := packUInt64_digits value
  rw [hbytes] at hdrop ⊢
  have hread := (@read_sparse native _ b _ rest (length_leBytes 8 value.toNat) (packUInt64_spec value).1.symm hdrop).1
  rwa [hvalue] at hread

lemma packedBytes_prefixFree {value' : UInt64} (h : packedBytes value <+: packedBytes value') : value = value' := by
  obtain ⟨hbytes, hvalue⟩ := packUInt64_digits value
  obtain ⟨hbytes', hvalue'⟩ := packUInt64_digits value'
  rw [hbytes, hbytes', List.cons_prefix_cons] at h
  have hmask : SparseCode.mask (leBytes 8 value.toNat) = SparseCode.mask (leBytes 8 value'.toNat) := by
    rw [← (packUInt64_spec value).1, ← (packUInt64_spec value').1, h.1]
  rw [← hvalue, ← hvalue', eq_of_isPrefix hmask h.2]

lemma testBit_packUInt64 (value : UInt64) (i : ℕ) :
    (packUInt64 value).1.toNat.testBit i = true ↔ byteAt value i ≠ 0 := by
  rcases Nat.lt_or_ge i 8 with hi | hi
  · have hget := congrArg (fun l => l[i]?) (packUInt64_spec value).1
    simp only [maskBits, SparseCode.mask, leBytes_eq_map, List.getElem?_map, List.getElem?_range' hi,
      List.getElem?_range hi, Option.map_some, Option.some.injEq, Nat.zero_add, Nat.one_mul] at hget
    rw [hget, decide_eq_true_iff, byteAt]
  · have hpow : 2 ^ 8 ≤ 2 ^ i := Nat.pow_le_pow_right (by norm_num) hi
    have hpow' : 256 ^ 8 ≤ 256 ^ i := Nat.pow_le_pow_right (by norm_num) hi
    have hzero : value.toNat / 256 ^ i = 0 := Nat.div_eq_of_lt (value.toNat_lt.trans_le hpow')
    rw [Nat.testBit_lt_two_pow ((packUInt64 value).1.toNat_lt.trans_le hpow), byteAt, hzero]
    simp

end ReadPacked

/-- The packed form of an integer is a canonical code. -/
theorem packed_canonical (native : Endian) :
    (∀ value, (∀ i, (packUInt64 value).1.toNat.testBit i = true ↔ byteAt value i ≠ 0) ∧
      (packUInt64 value).2 = ((List.range 8).map (byteAt value)).filter (fun c => decide (c ≠ 0)) ∧
      (packedBytes value).length = 1 + (List.range 8).countP fun i => decide (byteAt value i ≠ 0)) ∧
    (∀ value (b : ByteBuffer) rest, b.storage.drop b.rpos = packedBytes value ++ rest →
      b.readPackedUInt64 native =
        .ok (value, { b.resetBitPos with rpos := b.rpos + (packedBytes value).length })) ∧
    Function.Injective packedBytes ∧
    (∀ value value', packedBytes value <+: packedBytes value' → value = value') ∧
    ∀ bytes, WellFormed bytes → ∀ (b : ByteBuffer) rest, b.storage.drop b.rpos = bytes ++ rest →
      ∃ value, b.readPackedUInt64 native =
        .ok (value, { b.resetBitPos with rpos := b.rpos + bytes.length }) ∧ packedBytes value = bytes := by
  refine ⟨fun value => ⟨testBit_packUInt64 value, ?_, ?_⟩, fun value b rest => readPackedUInt64_packed, ?_, ?_, ?_⟩
  · rw [(packUInt64_spec value).2, leBytes_eq_map]
    rfl
  · rw [packedBytes, (packUInt64_spec value).2, leBytes_eq_map, List.length_cons, Nat.add_comm, nonzero,
      ← List.countP_eq_length_filter, List.countP_map]
    rfl
  · intro value value' h
    exact packedBytes_prefixFree ⟨[], by rw [h, List.append_nil]⟩
  · intro value value'
    exact packedBytes_prefixFree
  · rintro bytes ⟨mask, bs, rfl, hcount, hzero⟩ b rest hdrop
    obtain ⟨l, hlen, hmask, rfl⟩ := WellFormed.exists_digits hcount hzero
    exact ⟨_, read_sparse hlen hmask hdrop⟩

/-- A value with six zero bytes, at the start of a buffer. -/
def sparse : ByteBuffer := { storage := packedBytes 0x0200000000000001 }

theorem packed_canonical_sparse : sparse.readPackedUInt64 .little =
    .ok (0x0200000000000001, { sparse.resetBitPos with rpos := (packedBytes 0x0200000000000001).length }) := by
  have hread := (packed_canonical .little).2.1 0x0200000000000001 sparse [] (List.append_nil _).symm
  rw [hread, sparse, Nat.zero_add]

end TyphoonZero.ByteBuffer
