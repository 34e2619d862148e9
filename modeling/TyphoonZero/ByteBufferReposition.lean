import TyphoonZero.ByteBufferWrite

/-! The bit cursor is put back into bytes that are written already. -/
namespace TyphoonZero.ByteBuffer
open BitStream Loop

namespace ByteBuffer
variable (b : ByteBuffer)

def getLastWriteBitPos : ℕ := b.wpos * kInitialBitPos + kInitialBitPos - b.bitpos

/-- `SetLastWriteBitPos`; the current byte stays as it is. -/
def setLastWriteBitPos (newPos : ℕ) : ByteBuffer :=
  { b with
    wpos := newPos / kInitialBitPos
    bitpos := kInitialBitPos - newPos % kInitialBitPos }

/-- Bits are written from a position on, and flushed. -/
def rewriteFrom (newPos : ℕ) (writes : List (UInt64 × ℕ)) : Except Fault ByteBuffer := do
  let b ← writes.foldlM (fun b (w : UInt64 × ℕ) => writeBits w.1 w.2 b) (b.setLastWriteBitPos newPos)
  b.flushBits

end ByteBuffer

section Results
variable {b b' : ByteBuffer} {src : List UInt8}

lemma append_ok_aligned (h8 : b.bitpos = kInitialBitPos) (hok : b.append src = .ok b') : b' = b.copyIn src := by
  obtain ⟨-, -, hok⟩ := bind_ok hok
  rw [ByteBuffer.flushBits, if_pos h8] at hok
  exact (Except.ok.inj hok).symm

/-- `FlushBits` stores the current byte, or has nothing to do. -/
lemma flushBits_ok (hok : b.flushBits = .ok b') :
    b.bitpos = kInitialBitPos ∧ b' = b ∨ b.bitpos ≠ kInitialBitPos ∧
      b' = { ByteBuffer.copyIn { b with bitpos := kInitialBitPos } [b.curBitVal] with curBitVal := 0 } := by
  unfold ByteBuffer.flushBits at hok
  split_ifs at hok with h8
  · exact .inl ⟨h8, (Except.ok.inj hok).symm⟩
  · obtain ⟨c, hc, hok⟩ := bind_ok hok
    obtain ⟨-, -, hc⟩ := bind_ok hc
    rw [← Except.ok.inj hc] at hok
    exact .inr ⟨h8, (Except.ok.inj hok).symm⟩

/-- The current byte with a bit at `k`. -/
def withBit (cur : UInt8) (bit : Bool) (k : ℕ) : UInt8 := if bit then cur ||| 1 <<< UInt8.ofNat k else cur

/-- `WriteBit` stores a full byte, or only moves the cursor. -/
lemma writeBit_ok {bit : Bool} (hok : b.writeBit bit = .ok b') :
    b.bitpos - 1 = 0 ∧ b' = { ByteBuffer.copyIn
        { b with bitpos := kInitialBitPos, curBitVal := withBit b.curBitVal bit 0 }
        [withBit b.curBitVal bit 0] with curBitVal := 0 } ∨
      b.bitpos - 1 ≠ 0 ∧
        b' = { b with bitpos := b.bitpos - 1, curBitVal := withBit b.curBitVal bit (b.bitpos - 1) } := by
  rw [writeBit_eq b bit rfl] at hok
  dsimp only at hok
  by_cases h0 : b.bitpos - 1 = 0
  · rw [if_pos h0, h0] at hok
    obtain ⟨c, hc, hok⟩ := bind_ok hok
    rw [append_ok_aligned rfl hc] at hok
    exact .inl ⟨h0, (Except.ok.inj hok).symm⟩
  · rw [if_neg h0] at hok
    exact .inr ⟨h0, (Except.ok.inj hok).symm⟩

/-- A bit below the upper `r` ones leaves these alone. -/
lemma getMsbD_withBit (cur : UInt8) (bit : Bool) {k r i : ℕ} (hk : k + r < 8) (hi : i < r) :
    (withBit cur bit k).toBitVec.getMsbD i = cur.toBitVec.getMsbD i := by
  have hone : ∀ k < 8, ∀ i < 8, i + k < 7 → ((1 : UInt8) <<< UInt8.ofNat k).toBitVec.getMsbD i = false := by
    decide
  cases bit with
  | false => rfl
  | true =>
    rw [withBit, if_pos rfl, UInt8.toBitVec_or, BitVec.getMsbD_or, hone k (by omega) i (by omega) (by omega),
      Bool.or_false]

lemma copyIn_take {k : ℕ} (hw : k ≤ b.wpos) (hlen : k ≤ b.storage.length) :
    (b.copyIn src).storage.take k = b.storage.take k := by
  have hpadded : k ≤ (b.storage ++ List.replicate (b.wpos + src.length - b.storage.length) 0).length := by
    rw [List.length_append]
    omega
  simp only [ByteBuffer.copyIn]
  rw [List.append_assoc, List.take_append_of_le_length (by rw [List.length_take]; omega), List.take_take,
    Nat.min_eq_left hw, List.take_append_of_le_length hlen]

lemma copyIn_get (c : UInt8) : (b.copyIn [c]).storage[b.wpos]? = some c := by
  have hlen : ((b.storage ++ List.replicate (b.wpos + [c].length - b.storage.length) 0).take b.wpos).length =
      b.wpos := by
    rw [List.length_take, List.length_append, List.length_replicate, List.length_singleton]
    omega
  simp only [ByteBuffer.copyIn]
  rw [List.append_assoc, List.getElem?_append_right (by omega), hlen, Nat.sub_self]
  rfl

end Results

/-- The writer started at bit `r` of byte `q` of `storage`, with `cur` as its current byte.
The bytes before are kept; the upper bits of `cur` are still in the writer, or in byte `q`. -/
inductive Rewrites (storage : List UInt8) (q r : ℕ) (cur : UInt8) (b : ByteBuffer) : Prop
  | inside (kept : b.storage = storage) (wpos : b.wpos = q) (bitpos : b.bitpos + r ≤ kInitialBitPos)
      (pos : 0 < b.bitpos) (upper : ∀ i < r, b.curBitVal.toBitVec.getMsbD i = cur.toBitVec.getMsbD i)
  | behind (kept : b.storage.take q = storage.take q) (wpos : q < b.wpos) (pos : 0 < b.bitpos)
      (upper : ∃ c, b.storage[q]? = some c ∧ ∀ i < r, c.toBitVec.getMsbD i = cur.toBitVec.getMsbD i)

section Rewrites
variable {storage : List UInt8} {q r : ℕ} {cur : UInt8} {b b' : ByteBuffer}

/-- The current byte `c` is stored. -/
lemma Rewrites.store {c : UInt8} (hq : q ≤ storage.length) (h : Rewrites storage q r cur b)
    (hc : b.wpos = q → ∀ i < r, c.toBitVec.getMsbD i = cur.toBitVec.getMsbD i)
    (hcopy : b'.storage = (b.copyIn [c]).storage) (hwpos : b'.wpos = b.wpos + 1) (hpos : 0 < b'.bitpos) :
    Rewrites storage q r cur b' := by
  cases h with
  | inside hkept hw hbit _ hupper =>
    have htake := @copyIn_take b [c] q hw.ge (hkept ▸ hq)
    have hget := @copyIn_get b c
    rw [hw] at hget
    exact .behind (by rw [hcopy, htake, hkept]) (by omega) hpos ⟨c, by rw [hcopy, hget], hc hw⟩
  | behind hkept hw _ hupper =>
    obtain ⟨d, hd, hbits⟩ := hupper
    have hlt := (List.getElem?_eq_some_iff.mp hd).1
    have htake := @copyIn_take b [c] (q + 1) hw hlt
    refine .behind ?_ (by omega) hpos ⟨d, ?_, hbits⟩
    · have hshort := congrArg (List.take q) htake
      rw [List.take_take, List.take_take, Nat.min_eq_left (Nat.le_succ q)] at hshort
      rw [hcopy, hshort, hkept]
    · have hsame := congrArg (fun l => l[q]?) htake
      simp only [List.getElem?_take_of_lt (Nat.lt_succ_self q)] at hsame
      rw [hcopy, hsame, hd]

lemma Rewrites.writeBit (hq : q ≤ storage.length) (h : Rewrites storage q r cur b) {bit : Bool}
    (hok : b.writeBit bit = .ok b') : Rewrites storage q r cur b' := by
  have hbelow : b.wpos = q → ∀ k, k = b.bitpos - 1 → ∀ i < r,
      (withBit b.curBitVal bit k).toBitVec.getMsbD i = cur.toBitVec.getMsbD i := by
    intro hwq k hk i hi
    cases h with
    | inside _ hw hbit hpos hupper =>
      have hk8 : kInitialBitPos = 8 := rfl
      rw [getMsbD_withBit _ _ (by omega) hi, hupper i hi]
    | behind _ hw _ _ => omega
  obtain ⟨h0, rfl⟩ | ⟨h0, rfl⟩ := writeBit_ok hok
  · refine h.store hq (fun hwq => hbelow hwq 0 h0.symm) rfl rfl (Nat.succ_pos 7)
  · cases h with
    | inside hkept hw hbit hpos hupper =>
      exact .inside hkept hw (by dsimp only; omega) (Nat.pos_of_ne_zero h0) (hbelow hw _ rfl)
    | behind hkept hw hpos hupper => exact .behind hkept hw (Nat.pos_of_ne_zero h0) hupper

lemma Rewrites.writeBits (hq : q ≤ storage.length) (value : UInt64) {n : ℕ} (h : Rewrites storage q r cur b)
    (hok : ByteBuffer.writeBits value n b = .ok b') : Rewrites storage q r cur b' := by
  induction n generalizing b with
  | zero =>
    obtain rfl := Except.ok.inj hok
    exact h
  | succ n ih =>
    obtain ⟨c, hc, hok⟩ := bind_ok hok
    exact ih (h.writeBit hq hc) hok

lemma Rewrites.foldlM (hq : q ≤ storage.length) {writes : List (UInt64 × ℕ)} (h : Rewrites storage q r cur b)
    (hok : writes.foldlM (fun b (w : UInt64 × ℕ) => ByteBuffer.writeBits w.1 w.2 b) b = .ok b') :
    Rewrites storage q r cur b' := by
  induction writes generalizing b with
  | nil =>
    obtain rfl := Except.ok.inj hok
    exact h
  | cons w writes ih =>
    rw [List.foldlM_cons] at hok
    obtain ⟨c, hc, hok⟩ := bind_ok hok
    exact ih (h.writeBits hq w.1 hc) hok

/-- After the flush the bytes before `q` are kept, and the upper bits of `cur` are stored. -/
lemma Rewrites.flushBits (hq : q ≤ storage.length) (h : Rewrites storage q r cur b) (hok : b.flushBits = .ok b') :
    b'.storage.take q = storage.take q ∧
      ∀ i < r, ∃ c, b'.storage[q]? = some c ∧ c.toBitVec.getMsbD i = cur.toBitVec.getMsbD i := by
  obtain ⟨h8, rfl⟩ | ⟨h8, rfl⟩ := flushBits_ok hok
  · cases h with
    | inside hkept hw hbit hpos hupper =>
      exact ⟨by rw [hkept], fun i hi => by omega⟩
    | behind hkept hw hpos hupper =>
      obtain ⟨c, hc, hbits⟩ := hupper
      exact ⟨hkept, fun i hi => ⟨c, hc, hbits i hi⟩⟩
  · have hupper : b.wpos = q → ∀ i < r, b.curBitVal.toBitVec.getMsbD i = cur.toBitVec.getMsbD i := by
      intro hwq
      cases h with
      | inside _ _ _ _ hupper => exact hupper
      | behind _ hw _ _ => omega
    have hstored := @Rewrites.store storage q r cur b { ByteBuffer.copyIn { b with bitpos := kInitialBitPos }
      [b.curBitVal] with curBitVal := 0 } b.curBitVal hq h hupper rfl rfl (Nat.succ_pos 7)
    cases hstored with
    | inside _ hw _ _ _ =>
      have hle : q ≤ b.wpos := by
        cases h with
        | inside _ hw' _ _ _ => exact hw'.ge
        | behind _ hw' _ _ => exact hw'.le
      have hnext : b.wpos + 1 = q := hw
      omega
    | behind hkept _ _ hupper =>
      obtain ⟨c, hc, hbits⟩ := hupper
      exact ⟨hkept, fun i hi => ⟨c, hc, hbits i hi⟩⟩

end Rewrites

/-- The bits before the new position are kept just when the stale current byte agrees with
the stored one in the bits of that byte before the position. -/
theorem rewriteFrom_keeps_iff {b b' : ByteBuffer} {newPos : ℕ} {writes : List (UInt64 × ℕ)}
    (hpos : newPos ≤ 8 * b.storage.length) (hok : b.rewriteFrom newPos writes = .ok b') :
    (∀ i < newPos, (bytesBits b'.storage)[i]? = (bytesBits b.storage)[i]?) ↔
      ∀ i < newPos % 8, (bytesBits b.storage)[8 * (newPos / 8) + i]? = some (b.curBitVal.toBitVec.getMsbD i) := by
  have hq : newPos / 8 ≤ b.storage.length := by omega
  have hstart : Rewrites b.storage (newPos / 8) (newPos % 8) b.curBitVal (b.setLastWriteBitPos newPos) := by
    refine .inside rfl rfl ?_ ?_ fun i _ => rfl
    · change 8 - newPos % 8 + newPos % 8 ≤ 8
      omega
    · change 0 < 8 - newPos % 8
      omega
  obtain ⟨c, hc, hflush⟩ := bind_ok hok
  obtain ⟨hkept, hupper⟩ := (hstart.foldlM hq hc).flushBits hq hflush
  have hbefore : ∀ i < 8 * (newPos / 8), (bytesBits b'.storage)[i]? = (bytesBits b.storage)[i]? := by
    intro i hi
    have hbits := congrArg (fun l => (bytesBits l)[i]?) hkept
    simpa only [bytesBits_take, List.getElem?_take_of_lt hi] using hbits
  have hinside : ∀ i < newPos % 8,
      (bytesBits b'.storage)[8 * (newPos / 8) + i]? = some (b.curBitVal.toBitVec.getMsbD i) := by
    intro i hi
    obtain ⟨d, hd, hbit⟩ := hupper i hi
    rw [getElem_bytesBits _ _ (by omega), hd, Option.map_some, hbit]
  constructor
  · intro hall i hi
    rw [← hall _ (by omega), hinside i hi]
  · intro hstale i hi
    rcases Nat.lt_or_ge i (8 * (newPos / 8)) with hlt | hge
    · exact hbefore i hlt
    · obtain ⟨k, rfl⟩ := Nat.exists_eq_add_of_le hge
      rw [hinside k (by omega), hstale k (by omega)]

/-- One byte with its first bit set. -/
def firstBit : ByteBuffer := { wpos := 1, storage := [0x80] }

/-- A rewrite from the next byte on. -/
theorem rewriteFrom_keeps_next_byte : ∃ b', firstBit.rewriteFrom 8 [(0xff, 8)] = .ok b' ∧
    b'.storage = [0x80, 0xff] ∧ ∀ i < 8, (bytesBits b'.storage)[i]? = (bytesBits firstBit.storage)[i]? := by
  have hkeeps := @rewriteFrom_keeps_iff firstBit { wpos := 2, storage := [0x80, 0xff] } 8 [(0xff, 8)] (by decide) rfl
  exact ⟨_, rfl, rfl, hkeeps.mpr fun i hi => absurd hi (Nat.not_lt_zero i)⟩

/-- A zero bit written behind the first bit clears it. -/
theorem rewriteFrom_clears_first_bit : ∃ b b', ByteBuffer.writeBits 1 1 {} = .ok b ∧
    b.flushBits = .ok firstBit ∧ firstBit.rewriteFrom 1 [(0, 1)] = .ok b' ∧ (0 : ℕ) < 1 ∧
    (bytesBits b'.storage)[0]? ≠ (bytesBits firstBit.storage)[0]? :=
  ⟨_, _, rfl, rfl, rfl, by decide, by decide⟩

end TyphoonZero.ByteBuffer
