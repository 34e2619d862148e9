import TyphoonZero.BitStream
import TyphoonZero.ByteBuffer
import TyphoonZero.Loop

/-! Writing to a byte buffer, described by the bits written so far. -/
namespace TyphoonZero.ByteBuffer
open ByteOrder ByteConverter BitStream Loop

/-- `Append` refuses to write when the storage has this many bytes. -/
abbrev limit : ℕ := 10000000

/-- The bits `w` are written and none is read: the last ones, fewer than eight,
wait in the current byte. -/
def Writing (w : List Bool) (b : ByteBuffer) : Prop :=
  b.rpos = 0 ∧ b.wpos = b.storage.length ∧ ∃ pending, w = bytesBits b.storage ++ pending ∧ pending.length < 8 ∧
    b.bitpos + pending.length = kInitialBitPos ∧
    ∀ i < 8, b.curBitVal.toBitVec.getMsbD i = pending.getD i false

/-- A run without an error. -/
abbrev Runs {β : Type} (r : Except Fault β) (Q : β → Prop) : Prop := Safe .assertion True r Q

/-- A run that ends in the assertion of `Append` just when `e` fails. -/
abbrev Exactly {β : Type} (e : Prop) (r : Except Fault β) (Q : β → Prop) : Prop :=
  Safe .assertion e r fun b => e ∧ Q b

section Exactly
variable {β γ : Type} {e e' : Prop} {r : Except Fault β} {f : β → Except Fault γ} {Q Q' : β → Prop} {R : γ → Prop}

lemma Exactly.runs (h : Exactly e r Q) (he : e) : Runs r Q :=
  (h.enough fun _ => he).weaken fun _ hb => hb.2

lemma Exactly.bind (h : Exactly e r Q) (hf : ∀ b, Q b → Exactly e' (f b) R) :
    Exactly (e ∧ e') (r >>= f) R := by
  cases r with
  | ok b =>
    exact ((hf b h.2).enough And.right).weaken fun c hc => ⟨⟨h.1, hc.1⟩, hc.2⟩
  | error x => exact ⟨h.1, fun he => h.2 he.1⟩

lemma Exactly.weaken (h : Exactly e r Q) (hQ : ∀ b, Q b → Q' b) : Exactly e r Q' :=
  Safe.weaken h fun b hb => ⟨hb.1, hQ b hb.2⟩

lemma Exactly.iff (h : Exactly e r Q) (he : e ↔ e') : Exactly e' r Q := by
  rwa [propext he] at h

end Exactly

section Writing
variable {w : List Bool} {b : ByteBuffer} {src : List UInt8}

lemma no_pending : ∀ i < 8, (0 : UInt8).toBitVec.getMsbD i = ([] : List Bool).getD i false := by decide

lemma writing_empty : Writing [] {} := ⟨rfl, rfl, [], rfl, by norm_num, rfl, no_pending⟩

lemma copyIn_end (h : b.wpos = b.storage.length) :
    (b.copyIn src).storage = b.storage ++ src ∧ (b.copyIn src).wpos = (b.storage ++ src).length := by
  refine ⟨?_, by simp [ByteBuffer.copyIn, h]⟩
  simp only [ByteBuffer.copyIn, h]
  rw [List.take_left' rfl, List.drop_of_length_le (by simp), List.append_nil]

lemma checkAppend_runs (hsrc : src ≠ []) (hsize : b.storage.length < limit) :
    b.checkAppend src = .ok () := by
  rw [ByteBuffer.checkAppend, if_neg fun h => hsrc (List.length_eq_zero_iff.mp h), if_pos hsize]

lemma appendAligned_runs (hsrc : src ≠ []) (hsize : b.storage.length < limit) :
    b.appendAligned src = .ok (b.copyIn src) := by
  rw [ByteBuffer.appendAligned, checkAppend_runs hsrc hsize]
  rfl

lemma append_runs_aligned (h8 : b.bitpos = kInitialBitPos) (hsrc : src ≠ []) (hsize : b.storage.length < limit) :
    b.append src = .ok (b.copyIn src) := by
  rw [ByteBuffer.append, checkAppend_runs hsrc hsize, ByteBuffer.flushBits, if_pos h8]
  rfl

lemma Writing.size (h : Writing w b) : b.storage.length = w.length / 8 := by
  obtain ⟨-, -, pending, hw, hlt, -⟩ := h
  have hlen := congrArg List.length hw
  rw [List.length_append, length_bytesBits] at hlen
  omega

/-- The bytes stay below the limit while the stream grows from `p` to `q` bits. -/
def Room (p q : ℕ) : Prop := q / 8 = p / 8 ∨ q / 8 ≤ limit

lemma checkAppend_exact (hsrc : src ≠ []) :
    Exactly (b.storage.length < limit) (b.checkAppend src) fun _ => True := by
  rw [ByteBuffer.checkAppend, if_neg fun h => hsrc (List.length_eq_zero_iff.mp h)]
  split_ifs with h
  · exact ⟨h, trivial⟩
  · exact ⟨rfl, h⟩

lemma flushBits_exact (h : Writing w b) :
    Exactly (w.length % 8 = 0 ∨ w.length / 8 < limit) b.flushBits
      fun b' => Writing (align w) b' ∧ b'.bitpos = kInitialBitPos := by
  have hsize := h.size
  obtain ⟨hrpos, hwpos, pending, hw, hlt, hpos, hcur⟩ := h
  have hlen : w.length = 8 * b.storage.length + pending.length := by
    rw [hw, List.length_append, length_bytesBits]
  unfold ByteBuffer.flushBits
  by_cases h8 : b.bitpos = kInitialBitPos
  · rw [if_pos h8]
    have hnil : pending = [] := List.length_eq_zero_iff.mp (by omega)
    have hmod : w.length % 8 = 0 := by
      rw [hlen, hnil]
      simp
    rw [align_of_mod w hmod]
    exact ⟨.inl hmod, ⟨hrpos, hwpos, pending, hw, hlt, hpos, hcur⟩, h8⟩
  · rw [if_neg h8]
    have hroom : b.storage.length < limit ↔ w.length % 8 = 0 ∨ w.length / 8 < limit := by
      have hk : kInitialBitPos = 8 := rfl
      omega
    refine Exactly.iff ?_ hroom
    have hcheck := @checkAppend_exact { b with bitpos := kInitialBitPos } [b.curBitVal] (by simp)
    obtain ⟨hcopy, hcopyw⟩ := @copyIn_end { b with bitpos := kInitialBitPos } [b.curBitVal] hwpos
    by_cases hstorage : b.storage.length < limit
    · rw [@appendAligned_runs { b with bitpos := kInitialBitPos } [b.curBitVal] (by simp) hstorage]
      refine ⟨hstorage, ⟨hrpos, ?_, [], ?_, by norm_num, rfl, no_pending⟩, rfl⟩
      · dsimp only
        rw [hcopyw, hcopy]
      · dsimp only
        rw [hcopy, bytesBits_append, List.append_nil, align, hw, List.append_assoc]
        congr 1
        have hpad : (8 - (bytesBits b.storage ++ pending).length % 8) % 8 = 8 - pending.length := by
          rw [← hw]
          omega
        rw [hpad, bytesBits_cons, bytesBits_nil, List.append_nil]
        refine ((byteBits_eq_iff _ _ (by simp; omega)).mpr fun i hi => ?_).symm
        rw [hcur i hi]
        simp only [List.getD_eq_getElem?_getD]
        rcases Nat.lt_or_ge i pending.length with hi' | hi'
        · rw [List.getElem?_append_left hi']
        · rw [List.getElem?_append_right hi', List.getElem?_eq_none hi', List.getElem?_replicate]
          split_ifs <;> rfl
    · have herror : ByteBuffer.appendAligned { b with bitpos := kInitialBitPos } [b.curBitVal] =
          .error .assertion := by
        rw [ByteBuffer.appendAligned, ByteBuffer.checkAppend, if_neg (by simp), if_neg hstorage]
        rfl
      rw [herror]
      exact ⟨rfl, hstorage⟩

lemma flushBits_runs (h : Writing w b) (hsize : (align w).length ≤ 8 * limit) :
    Runs b.flushBits fun b' => Writing (align w) b' ∧ b'.bitpos = kInitialBitPos := by
  rw [length_align] at hsize
  exact (flushBits_exact h).runs (by omega)

lemma append_exact (h : Writing w b) (hsrc : src ≠ []) :
    Exactly (w.length / 8 < limit) (b.append src) (Writing (align w ++ bytesBits src)) := by
  have hsize := h.size
  have hiff : b.storage.length < limit ∧ (w.length % 8 = 0 ∨ w.length / 8 < limit) ∧ True ↔
      w.length / 8 < limit := by
    rw [and_true]
    omega
  unfold ByteBuffer.append
  refine Exactly.iff ((checkAppend_exact hsrc).bind fun _ _ => (flushBits_exact h).bind fun b' hb' => ?_) hiff
  obtain ⟨⟨hrpos, hwpos, pending, hw, hlt, hbit, hcur⟩, h8⟩ := hb'
  have hnil : pending = [] := List.length_eq_zero_iff.mp (by omega)
  subst hnil
  obtain ⟨hcopy, hcopyw⟩ := @copyIn_end b' src hwpos
  refine ⟨trivial, hrpos, by rw [hcopyw, hcopy], [], ?_, by norm_num, h8, hcur⟩
  rw [hcopy, bytesBits_append, hw, List.append_nil, List.append_nil]

lemma append_runs (h : Writing w b) (hsrc : src ≠ [])
    (hsize : (align w ++ bytesBits src).length ≤ 8 * limit) :
    Runs (b.append src) (Writing (align w ++ bytesBits src)) := by
  have hpos : 0 < src.length := List.length_pos_iff.mpr hsrc
  rw [List.length_append, length_bytesBits, length_align] at hsize
  exact (append_exact h hsrc).runs (by omega)

/-- A bit joins the current byte below the pending ones. -/
lemma pending_snoc {pending : List Bool} {cur : UInt8} (bit : Bool) (hlt : pending.length < 8)
    (hcur : ∀ i < 8, cur.toBitVec.getMsbD i = pending.getD i false) :
    ∀ i < 8, (if bit then cur ||| 1 <<< UInt8.ofNat (7 - pending.length) else cur).toBitVec.getMsbD i =
      (pending ++ [bit]).getD i false := by
  have hone : ∀ k < 8, ∀ i < 8,
      ((1 : UInt8) <<< UInt8.ofNat (7 - k)).toBitVec.getMsbD i = decide (i = k) := by decide
  intro i hi
  have hget : (pending ++ [bit]).getD i false = (pending.getD i false || (decide (i = pending.length) && bit)) := by
    simp only [List.getD_eq_getElem?_getD]
    rcases Nat.lt_trichotomy i pending.length with hlt | heq | hgt
    · rw [List.getElem?_append_left hlt, decide_eq_false (by omega)]
      simp
    · subst heq
      simp
    · rw [List.getElem?_eq_none (by simp; omega), List.getElem?_eq_none (by omega), decide_eq_false (by omega)]
      simp
  rw [hget, ← hcur i hi]
  cases bit with
  | false => simp
  | true =>
    simp only [if_true, UInt8.toBitVec_or, BitVec.getMsbD_or, Bool.and_true]
    rw [hone pending.length hlt i hi]

lemma writeBit_eq (b : ByteBuffer) (bit : Bool) {k : ℕ} (hk : b.bitpos - 1 = k) :
    b.writeBit bit =
      let b := { b with
        bitpos := k
        curBitVal := if bit then b.curBitVal ||| 1 <<< UInt8.ofNat k else b.curBitVal }
      if k = 0 then do
        let b ← ByteBuffer.append { b with bitpos := kInitialBitPos } [b.curBitVal]
        pure { b with curBitVal := 0 }
      else pure b := by
  subst hk
  cases bit <;> rfl

lemma writeBit_exact (h : Writing w b) (bit : Bool) :
    Exactly (Room w.length (w.length + 1)) (b.writeBit bit) (Writing (w ++ [bit])) := by
  have hsize := h.size
  obtain ⟨hrpos, hwpos, pending, hw, hlt, hpos, hcur⟩ := h
  have hlen : w.length = 8 * b.storage.length + pending.length := by
    rw [hw, List.length_append, length_bytesBits]
  have hk : kInitialBitPos = 8 := rfl
  have hcur' := pending_snoc bit hlt hcur
  rw [writeBit_eq b bit (show b.bitpos - 1 = 7 - pending.length by omega)]
  generalize (if bit then b.curBitVal ||| 1 <<< UInt8.ofNat (7 - pending.length) else b.curBitVal) = cur
    at hcur' ⊢
  dsimp only
  by_cases hfull : 7 - pending.length = 0
  · have hroom : b.storage.length < limit ∧ True ↔ Room w.length (w.length + 1) := by
      rw [Room, and_true]
      omega
    rw [if_pos hfull, ByteBuffer.append]
    refine Exactly.iff ?_ hroom
    have hcheck := @checkAppend_exact { b with bitpos := kInitialBitPos, curBitVal := cur } [cur] (by simp)
    by_cases hstorage : b.storage.length < limit
    · have happend := @append_runs_aligned { b with bitpos := kInitialBitPos, curBitVal := cur } [cur] rfl
        (by simp) hstorage
      rw [ByteBuffer.append] at happend
      rw [happend]
      obtain ⟨hcopy, hcopyw⟩ := @copyIn_end { b with bitpos := kInitialBitPos, curBitVal := cur } [cur] hwpos
      have hbyte := (byteBits_eq_iff cur (pending ++ [bit]) (by simp; omega)).mpr hcur'
      refine ⟨⟨hstorage, trivial⟩, hrpos, ?_, [], ?_, by norm_num, rfl, no_pending⟩
      · dsimp only
        rw [hcopyw, hcopy]
      · dsimp only
        rw [hcopy, bytesBits_append, bytesBits_cons, hbyte, bytesBits_nil, hw]
        simp
    · rw [ByteBuffer.checkAppend, if_neg (by simp), if_neg hstorage]
      exact ⟨rfl, fun hs => hstorage hs.1⟩
  · rw [if_neg hfull]
    refine ⟨.inl (by omega), hrpos, hwpos, pending ++ [bit], by rw [hw, List.append_assoc], by simp; omega, ?_, hcur'⟩
    dsimp only
    rw [List.length_append, List.length_singleton]
    omega

lemma testBit_of_shift (value : UInt64) {i : ℕ} (hi : i < 64) :
    decide ((value >>> UInt64.ofNat i) &&& 0x1 ≠ 0) = value.toNat.testBit i := by
  have hshift : (value >>> UInt64.ofNat i).toNat = value.toNat >>> i := by
    simp [UInt64.toNat_shiftRight, Nat.mod_eq_of_lt hi]
  have hand : ((value >>> UInt64.ofNat i) &&& 0x1).toNat = (value.toNat >>> i) % 2 := by
    rw [UInt64.toNat_and, hshift]
    exact Nat.and_one_is_mod _
  rw [Nat.testBit, Nat.and_comm, Nat.and_one_is_mod, ← hand]
  generalize (value >>> UInt64.ofNat i) &&& 0x1 = x
  by_cases hx : x = 0
  · rw [hx]
    rfl
  · have hx' : x.toNat ≠ 0 := fun h0 => hx (UInt64.toNat_inj.mp h0)
    rw [decide_eq_true hx, bne_iff_ne.mpr hx']

/-- The bits that `WriteBits` writes, the highest one first. -/
def writtenBits (value : UInt64) : ℕ → List Bool
  | 0 => []
  | i + 1 => decide ((value >>> UInt64.ofNat i) &&& 0x1 ≠ 0) :: writtenBits value i

lemma writtenBits_eq (value : UInt64) {n : ℕ} (hn : n ≤ 64) : writtenBits value n = natBits n value.toNat := by
  induction n with
  | zero => rfl
  | succ i ih => rw [writtenBits, natBits, testBit_of_shift value (by omega), ih (by omega)]

@[simp] lemma length_writtenBits (value : UInt64) (n : ℕ) : (writtenBits value n).length = n := by
  induction n with
  | zero => rfl
  | succ i ih => rw [writtenBits, List.length_cons, ih]

lemma writeBits_written (value : UInt64) {n : ℕ} (h : Writing w b) :
    Exactly (Room w.length (w.length + n)) (ByteBuffer.writeBits value n b) (Writing (w ++ writtenBits value n)) := by
  induction n generalizing w b with
  | zero =>
    rw [writtenBits, List.append_nil]
    exact ⟨.inl rfl, h⟩
  | succ i ih =>
    unfold ByteBuffer.writeBits
    have hroom : Room w.length (w.length + 1) ∧ Room (w.length + 1) (w.length + 1 + i) ↔
        Room w.length (w.length + (i + 1)) := by
      simp only [Room]
      omega
    refine Exactly.iff ((writeBit_exact h _).bind fun b' hb' => ?_) hroom
    have hrec := ih hb'
    rwa [List.length_append, List.length_singleton, List.append_assoc] at hrec

lemma writeBits_exact (value : UInt64) {n : ℕ} (hn : n ≤ 64) (h : Writing w b) :
    Exactly (Room w.length (w.length + n)) (ByteBuffer.writeBits value n b)
      (Writing (w ++ natBits n value.toNat)) := by
  rw [← writtenBits_eq value hn]
  exact writeBits_written value h

lemma writeBits_runs (value : UInt64) (n : ℕ) (hn : n ≤ 64) (h : Writing w b)
    (hsize : w.length + n ≤ 8 * limit) :
    Runs (ByteBuffer.writeBits value n b) (Writing (w ++ natBits n value.toNat)) :=
  (writeBits_exact value hn h).runs (.inr (by omega))

lemma writeString_runs {value : List UInt8} (h : Writing w b)
    (hsize : (align w ++ bytesBits (value ++ [0])).length ≤ 8 * limit) :
    Runs (b.writeString value) (Writing (align w ++ bytesBits (value ++ [0]))) := by
  unfold ByteBuffer.writeString
  rw [bytesBits_append] at hsize ⊢
  split_ifs with hnil
  · rw [List.length_eq_zero_iff.mp hnil] at hsize ⊢
    exact append_runs h (by simp) hsize
  · have hne : value ≠ [] := fun he => hnil (List.length_eq_zero_iff.mpr he)
    rw [← List.append_assoc] at hsize ⊢
    have haligned : align (align w ++ bytesBits value) = align w ++ bytesBits value := by
      apply align_of_mod
      rw [List.length_append, length_align, length_bytesBits]
      omega
    refine (append_runs h hne ?_).bind fun b' hb' => ?_
    · rw [List.length_append] at hsize
      omega
    · have hrec := @append_runs _ _ [0] hb' (by simp) (by rwa [haligned])
      rwa [haligned] at hrec

end Writing

/-- What a reader can tell the end of: a text without NUL, and a value that fits into its bits. -/
def Item.Valid : Item → Prop
  | .int _ _ => True
  | .str value => 0 ∉ value
  | .bits n value => n ≤ 32 ∧ value.toNat < 2 ^ n

/-- The bits of the stream after an item is written behind `w`. -/
def Item.encode (w : List Bool) : Item → List Bool
  | .int t value => align w ++ bytesBits (leBytes t.sizeof value.toNat)
  | .str value => align w ++ bytesBits (value ++ [0])
  | .bits n value => w ++ natBits n value.toNat

def encodeItems (items : List Item) : List Bool := items.foldl Item.encode []

section Items
variable {native : Endian} {w : List Bool} {b : ByteBuffer}

lemma IntType.sizeof_pos (t : IntType) : 0 < t.sizeof := by
  cases t <;> decide

lemma prefix_encode (w : List Bool) (item : Item) : w <+: item.encode w := by
  cases item with
  | int t value => exact (List.prefix_append _ _).trans (List.prefix_append _ _)
  | str value => exact (List.prefix_append _ _).trans (List.prefix_append _ _)
  | bits n value => exact List.prefix_append _ _

lemma prefix_foldl (items : List Item) (w : List Bool) : w <+: items.foldl Item.encode w := by
  induction items generalizing w with
  | nil => exact List.prefix_rfl
  | cons item items ih => exact (prefix_encode w item).trans (ih _)

lemma writeItem_runs {item : Item} (hv : item.Valid) (h : Writing w b)
    (hsize : (item.encode w).length ≤ 8 * limit) :
    Runs (writeItem native b item) (Writing (item.encode w)) := by
  cases item with
  | int t value =>
    change Runs (b.writeInt native t value) _
    rw [ByteBuffer.writeInt, endianRefMakeLittle_store]
    refine append_runs h ?_ hsize
    intro hnil
    have hlen := length_leBytes t.sizeof value.toNat
    have hpos := t.sizeof_pos
    rw [hnil] at hlen
    simp at hlen
    omega
  | str value => exact writeString_runs h hsize
  | bits n value =>
    have hn : n ≤ 32 := hv.1
    have hbits := writeBits_runs value.toUInt64 n (by omega) h (by simpa [Item.encode] using hsize)
    rwa [UInt32.toNat_toUInt64] at hbits

lemma foldlM_runs {items : List Item} (hv : ∀ i ∈ items, i.Valid) (h : Writing w b)
    (hsize : (items.foldl Item.encode w).length ≤ 8 * limit) :
    Runs (items.foldlM (writeItem native) b) (Writing (items.foldl Item.encode w)) := by
  induction items generalizing w b with
  | nil => exact h
  | cons item items ih =>
    rw [List.foldlM_cons]
    have hlen := (prefix_foldl items (item.encode w)).length_le
    refine (writeItem_runs (hv item (by simp)) h (hlen.trans hsize)).bind fun b' hb' => ?_
    exact ih (fun i hi => hv i (by simp [hi])) hb' hsize

/-- Everything is written when the whole stream stays below the limit. -/
theorem writeItems_runs {items : List Item} (hv : ∀ i ∈ items, i.Valid)
    (hsize : (align (encodeItems items)).length ≤ 8 * limit) :
    Runs (writeItems native items) fun b => b.rpos = 0 ∧ b.wpos = b.storage.length ∧
      b.bitpos = kInitialBitPos ∧ bytesBits b.storage = align (encodeItems items) := by
  have hlen : (encodeItems items).length ≤ (align (encodeItems items)).length :=
    (List.prefix_append _ _).length_le
  refine (foldlM_runs hv writing_empty (hlen.trans hsize)).bind fun b hb => ?_
  refine (flushBits_runs hb hsize).weaken fun b' hb' => ?_
  obtain ⟨⟨hrpos, hwpos, pending, hw, -, hpos, -⟩, h8⟩ := hb'
  have hnil : pending = [] := List.length_eq_zero_iff.mp (by omega)
  rw [hnil, List.append_nil] at hw
  exact ⟨hrpos, hwpos, h8, hw.symm⟩

end Items

end TyphoonZero.ByteBuffer
