import TyphoonZero.MessageBuffer

/-! Message buffers as streams: what is written to each, and not yet read, over any run of
several buffers that are copied and moved. -/
namespace TyphoonZero.MessageBuffer
open Rounding Storage Transition

section Grown

lemma grown_exact {n : ℕ} (h : n < 2 ^ 51) : MessageBuffer.grown n = 3 * n / 2 := by
  rw [MessageBuffer.grown, roundEven_exact (h.trans (by norm_num)), roundEven_exact (by omega)]

/-- Sizes 0 and 1 do not grow. -/
lemma lt_grown_iff (n : ℕ) : n < MessageBuffer.grown n ↔ 2 ≤ n := by
  rcases Nat.lt_or_ge n (2 ^ 51) with h | h
  · rw [grown_exact h]
    omega
  · have hround := @le_roundEven_add 53 n (by norm_num)
    have hround' := @le_roundEven_add 53 (3 * roundEven 53 n) (by norm_num)
    rw [MessageBuffer.grown]
    omega

lemma le_grown (n : ℕ) : n ≤ MessageBuffer.grown n := by
  by_cases h : 2 ≤ n
  · exact ((lt_grown_iff n).mpr h).le
  · rw [grown_exact (by omega)]
    omega

end Grown

section Buffer
variable {b c : MessageBuffer}

lemma getRemainingSpace_eq (h : b.Wf) (hlt : b.storage.length < 2 ^ 64) :
    b.getRemainingSpace = b.storage.length - b.wpos := by
  obtain ⟨hr, hw⟩ := h
  unfold MessageBuffer.getRemainingSpace
  omega

lemma getActiveSize_eq (h : b.Wf) (hlt : b.storage.length < 2 ^ 64) :
    b.getActiveSize = b.wpos - b.rpos := by
  obtain ⟨hr, hw⟩ := h
  unfold MessageBuffer.getActiveSize
  omega

/-- A write reaches no byte outside the remaining space. -/
lemma write_length {data : List UInt8} (hw : b.write data = some c) : c.storage.length = b.storage.length := by
  unfold MessageBuffer.write at hw
  split_ifs at hw
  · cases hw
    rfl
  · unfold MessageBuffer.store at hw
    split_ifs at hw with hin
    · cases hw
      exact length_writeAt hin
    · cases hw

lemma write_some (h : b.Wf) (hlt : b.storage.length < 2 ^ 64) {data : List UInt8}
    (hle : data.length ≤ b.getRemainingSpace) : ∃ c, b.write data = some c := by
  rw [getRemainingSpace_eq h hlt] at hle
  have hw := h.2
  unfold MessageBuffer.write
  split_ifs
  · exact ⟨b, rfl⟩
  · rw [MessageBuffer.store, if_pos (by omega)]
    exact ⟨_, rfl⟩

lemma normalize_length (h : b.Wf) (hn : b.normalize = some c) : c.storage.length = b.storage.length := by
  unfold MessageBuffer.normalize at hn
  split_ifs at hn
  · cases hn
    rfl
  · cases hn
    rfl
  · cases hn
    have hle := length_active_le h
    exact length_writeAt (by omega)

lemma normalize_some (h : b.Wf) : ∃ c, b.normalize = some c := by
  unfold MessageBuffer.normalize
  split_ifs
  · exact ⟨_, rfl⟩
  · exact ⟨_, rfl⟩
  · exact ⟨_, rfl⟩

lemma readCompleted_active (h : b.Wf) (hlt : b.storage.length < 2 ^ 64) {bytes : ℕ}
    (hle : bytes ≤ b.getActiveSize) :
    (b.readCompleted bytes).Wf ∧ (b.readCompleted bytes).active = b.active.drop bytes := by
  rw [getActiveSize_eq h hlt] at hle
  obtain ⟨hr, hw⟩ := h
  have hpos : (b.rpos + bytes) % 2 ^ 64 = b.rpos + bytes := Nat.mod_eq_of_lt (by omega)
  refine ⟨⟨?_, hw⟩, ?_⟩
  · dsimp only [MessageBuffer.readCompleted]
    omega
  · dsimp only [MessageBuffer.readCompleted, MessageBuffer.active]
    rw [hpos, slice_add]

lemma writeCompleted_active (h : b.Wf) (hlt : b.storage.length < 2 ^ 64) {bytes : ℕ}
    (hle : bytes ≤ b.getRemainingSpace) :
    (b.writeCompleted bytes).Wf ∧
      (b.writeCompleted bytes).active = b.active ++ slice b.storage b.wpos (b.wpos + bytes) := by
  rw [getRemainingSpace_eq h hlt] at hle
  obtain ⟨hr, hw⟩ := h
  have hpos : (b.wpos + bytes) % 2 ^ 64 = b.wpos + bytes := Nat.mod_eq_of_lt (by omega)
  refine ⟨⟨?_, ?_⟩, ?_⟩
  · dsimp only [MessageBuffer.writeCompleted]
    omega
  · dsimp only [MessageBuffer.writeCompleted]
    omega
  · dsimp only [MessageBuffer.writeCompleted, MessageBuffer.active]
    rw [hpos, slice_append hr (Nat.le_add_right _ _) (by omega)]

/-- Bytes stored behind the write position are not active yet. -/
lemma store_active (h : b.Wf) {pos : ℕ} {bytes : List UInt8} (hpos : b.wpos ≤ pos) (hs : b.store pos bytes = some c) :
    c.Wf ∧ c.active = b.active ∧ c.storage.length = b.storage.length := by
  obtain ⟨hr, hw⟩ := h
  unfold MessageBuffer.store at hs
  split_ifs at hs with hin
  cases hs
  have hlen := length_writeAt hin
  exact ⟨⟨hr, hlen.symm ▸ hw⟩, slice_writeAt_left hpos (by omega), hlen⟩

lemma ensureFreeSpace_active (h : b.Wf) (hsize : b.storage.length ≤ MessageBuffer.kMaxSize)
    (hc : b.ensureFreeSpace = some c) :
    c.Wf ∧ c.active = b.active ∧ c.storage.length ≤ MessageBuffer.kMaxSize := by
  have hgrown := le_grown b.storage.length
  unfold MessageBuffer.ensureFreeSpace at hc
  split_ifs at hc with hfull hmax
  · cases hc
    obtain ⟨hr, hw⟩ := h
    refine ⟨⟨hr, ?_⟩, slice_resize 0 (hw.trans hgrown) hw, ?_⟩
    · rw [MessageBuffer.resize, length_resize]
      exact hw.trans hgrown
    · rw [MessageBuffer.resize, length_resize]
      exact hmax
  · cases hc
    exact ⟨h, rfl, hsize⟩

/-- Room is made just when there is some already or the storage can grow. -/
lemma ensureFreeSpace_remaining (h : b.Wf) (hsize : b.storage.length ≤ MessageBuffer.kMaxSize)
    (hc : b.ensureFreeSpace = some c) :
    0 < c.getRemainingSpace ↔ ¬ (b.getRemainingSpace = 0 ∧ b.getBufferSize ≤ 1) := by
  obtain ⟨hcwf, -, hcsize⟩ := ensureFreeSpace_active h hsize hc
  have hspace := getRemainingSpace_eq h (hsize.trans_lt (by norm_num))
  have hspace' := getRemainingSpace_eq hcwf (hcsize.trans_lt (by norm_num))
  have hgrown := lt_grown_iff b.storage.length
  obtain ⟨hr, hw⟩ := h
  unfold MessageBuffer.ensureFreeSpace at hc
  split_ifs at hc with hfull hmax
  · cases hc
    have hlen : (b.resize (MessageBuffer.grown b.storage.length)).storage.length =
        MessageBuffer.grown b.storage.length := length_resize ..
    have hwpos : (b.resize (MessageBuffer.grown b.storage.length)).wpos = b.wpos := rfl
    rw [hspace', hlen, hwpos, MessageBuffer.getBufferSize]
    omega
  · cases hc
    omega

end Buffer

/-- The buffers, and for each what is written and not yet read. -/
structure Streams (K : Type) where
  buffer : K → MessageBuffer
  unread : K → List UInt8

inductive StreamOp (K : Type)
  | construct (k : K) (initialSize : ℕ)
  | write (k : K) (data : List UInt8)
  | fill (k : K) (offset : ℕ) (bytes : List UInt8)
  | readCompleted (k : K) (bytes : ℕ)
  | writeCompleted (k : K) (bytes : ℕ)
  | normalize (k : K)
  | ensureFreeSpace (k : K)
  | reset (k : K)
  | copy (dst src : K)
  | move (dst src : K)

section Streams
variable {K : Type} [DecidableEq K]

namespace Streams
variable (s : Streams K)

def set (k : K) (unread : List UInt8) (b : MessageBuffer) : Streams K where
  buffer := Function.update s.buffer k b
  unread := Function.update s.unread k unread

/-- What a caller keeps to. `fill` stands for bytes that go to `GetWritePointer` and behind it. -/
def Allowed : StreamOp K → Prop
  | .write k data => data.length ≤ (s.buffer k).getRemainingSpace
  | .fill k offset bytes => offset + bytes.length ≤ (s.buffer k).getRemainingSpace
  | .readCompleted k bytes => bytes ≤ (s.buffer k).getActiveSize
  | .writeCompleted k bytes => bytes ≤ (s.buffer k).getRemainingSpace
  | _ => True

def exec : StreamOp K → Option (Streams K)
  | .construct k initialSize =>
    if initialSize ≤ MessageBuffer.kMaxSize then some (s.set k [] (.ofSize initialSize)) else none
  | .write k data => ((s.buffer k).write data).map (s.set k (s.unread k ++ data))
  | .fill k offset bytes => ((s.buffer k).store ((s.buffer k).wpos + offset) bytes).map (s.set k (s.unread k))
  | .readCompleted k bytes => some (s.set k ((s.unread k).drop bytes) ((s.buffer k).readCompleted bytes))
  | .writeCompleted k bytes =>
    let b := s.buffer k
    some (s.set k (s.unread k ++ slice b.storage b.wpos (b.wpos + bytes)) (b.writeCompleted bytes))
  | .normalize k => (s.buffer k).normalize.map (s.set k (s.unread k))
  | .ensureFreeSpace k => (s.buffer k).ensureFreeSpace.map (s.set k (s.unread k))
  | .reset k => some (s.set k [] (s.buffer k).reset)
  | .copy dst src => some (s.set dst (s.unread src) (s.buffer src))
  | .move dst src =>
    if dst = src then some s
    else
      let (b, other) := (s.buffer src).moveFrom
      some ((s.set dst (s.unread src) b).set src [] other)

end Streams

/-- All runs of any number of buffers, each constructed with a size of its own. -/
def streams (K : Type) [DecidableEq K] : System (Streams K) (StreamOp K) where
  init s := ∀ k, s.unread k = [] ∧ ∃ n ≤ MessageBuffer.kMaxSize, s.buffer k = .ofSize n
  step s op t := s.Allowed op ∧ s.exec op = some t

/-- The bytes of a buffer are its stream. -/
structure Holds (b : MessageBuffer) (unread : List UInt8) : Prop where
  wf : b.Wf
  active : b.active = unread
  size : b.storage.length ≤ MessageBuffer.kMaxSize

lemma Holds.lt {b : MessageBuffer} {unread : List UInt8} (h : Holds b unread) : b.storage.length < 2 ^ 64 :=
  h.size.trans_lt (by norm_num)

lemma holds_ofSize {n : ℕ} (h : n ≤ MessageBuffer.kMaxSize) : Holds (.ofSize n) [] :=
  ⟨⟨le_rfl, Nat.zero_le _⟩, slice_self _ 0, by rwa [MessageBuffer.ofSize, List.length_replicate]⟩

lemma set_holds {s : Streams K} {k : K} {unread : List UInt8} {b : MessageBuffer}
    (h : ∀ k, Holds (s.buffer k) (s.unread k)) (hb : Holds b unread) (i : K) :
    Holds ((s.set k unread b).buffer i) ((s.set k unread b).unread i) := by
  by_cases hi : i = k
  · subst hi
    simpa [Streams.set] using hb
  · simpa [Streams.set, Function.update_of_ne hi] using h i

lemma exec_holds {s t : Streams K} {op : StreamOp K} (h : ∀ k, Holds (s.buffer k) (s.unread k)) (hop : s.Allowed op)
    (hexec : s.exec op = some t) : ∀ k, Holds (t.buffer k) (t.unread k) := by
  cases op with
  | construct k n =>
    simp only [Streams.exec] at hexec
    split_ifs at hexec with hn
    cases hexec
    exact set_holds h (holds_ofSize hn)
  | write k data =>
    obtain ⟨b, hb, rfl⟩ := Option.map_eq_some_iff.mp hexec
    obtain ⟨hwf, hactive⟩ := write_active (h k).wf (h k).lt hb
    exact set_holds h ⟨hwf, by rw [hactive, (h k).active], (write_length hb).trans_le (h k).size⟩
  | fill k offset bytes =>
    obtain ⟨b, hb, rfl⟩ := Option.map_eq_some_iff.mp hexec
    obtain ⟨hwf, hactive, hlen⟩ := store_active (h k).wf (Nat.le_add_right _ _) hb
    exact set_holds h ⟨hwf, hactive.trans (h k).active, hlen.trans_le (h k).size⟩
  | readCompleted k bytes =>
    cases hexec
    obtain ⟨hwf, hactive⟩ := readCompleted_active (h k).wf (h k).lt hop
    exact set_holds h ⟨hwf, by rw [hactive, (h k).active], (h k).size⟩
  | writeCompleted k bytes =>
    cases hexec
    obtain ⟨hwf, hactive⟩ := writeCompleted_active (h k).wf (h k).lt hop
    exact set_holds h ⟨hwf, by rw [hactive, (h k).active], (h k).size⟩
  | normalize k =>
    obtain ⟨b, hb, rfl⟩ := Option.map_eq_some_iff.mp hexec
    obtain ⟨hwf, hactive⟩ := normalize_active (h k).wf hb
    exact set_holds h ⟨hwf, hactive.trans (h k).active, (normalize_length (h k).wf hb).trans_le (h k).size⟩
  | ensureFreeSpace k =>
    obtain ⟨b, hb, rfl⟩ := Option.map_eq_some_iff.mp hexec
    obtain ⟨hwf, hactive, hsize⟩ := ensureFreeSpace_active (h k).wf (h k).size hb
    exact set_holds h ⟨hwf, hactive.trans (h k).active, hsize⟩
  | reset k =>
    cases hexec
    exact set_holds h ⟨⟨le_rfl, Nat.zero_le _⟩, slice_self _ 0, (h k).size⟩
  | copy dst src =>
    cases hexec
    exact set_holds h (h src)
  | move dst src =>
    simp only [Streams.exec] at hexec
    split_ifs at hexec with heq
    · cases hexec
      exact h
    · cases hexec
      exact set_holds (set_holds h (h src)) ⟨⟨le_rfl, le_rfl⟩, rfl, Nat.zero_le _⟩

/-- What one state of a run owes to a buffer. -/
structure Kept (s : Streams K) (k : K) : Prop where
  wf : (s.buffer k).rpos ≤ (s.buffer k).wpos ∧ (s.buffer k).wpos ≤ (s.buffer k).getBufferSize
  active : (s.buffer k).active = s.unread k
  write : ∀ data, data.length ≤ (s.buffer k).getRemainingSpace → ∃ b, (s.buffer k).write data = some b
  normalize : ∃ b, (s.buffer k).normalize = some b ∧ b.active = (s.buffer k).active
  ensureFreeSpace : ∀ b, (s.buffer k).ensureFreeSpace = some b →
    b.active = (s.buffer k).active ∧ 0 < b.getRemainingSpace

lemma streams_hold {s : Streams K} (h : Reachable (streams K) s) : ∀ k, Holds (s.buffer k) (s.unread k) := by
  refine Reachable.invariant (S := streams K) (I := fun s => ∀ k, Holds (s.buffer k) (s.unread k)) (fun s hs k => ?_)
    (fun s op t ih hstep => exec_holds ih hstep.1 hstep.2) h
  obtain ⟨hunread, n, hn, hb⟩ := hs k
  rw [hunread, hb]
  exact holds_ofSize hn

/-- Every run keeps the streams, and room is made unless a full buffer has no byte or one. -/
theorem kept_iff {s : Streams K} (h : Reachable (streams K) s) (k : K) :
    Kept s k ↔ ¬ ((s.buffer k).getRemainingSpace = 0 ∧ (s.buffer k).getBufferSize ≤ 1) := by
  have hk := streams_hold h k
  constructor
  · rintro hkept ⟨hfull, hsmall⟩
    have hmax : MessageBuffer.grown (s.buffer k).storage.length ≤ MessageBuffer.kMaxSize := by
      have hgrown := lt_grown_iff (s.buffer k).storage.length
      have hsmall' : (s.buffer k).storage.length ≤ 1 := hsmall
      have hone : 1 ≤ MessageBuffer.kMaxSize := by decide
      omega
    have hsome : (s.buffer k).ensureFreeSpace =
        some ((s.buffer k).resize (MessageBuffer.grown (s.buffer k).storage.length)) := by
      rw [MessageBuffer.ensureFreeSpace, if_pos hfull, if_pos hmax]
    have hroom := (hkept.ensureFreeSpace _ hsome).2
    exact (ensureFreeSpace_remaining hk.wf hk.size hsome).mp hroom ⟨hfull, hsmall⟩
  · intro hroom
    refine ⟨hk.wf, hk.active, fun data => write_some hk.wf hk.lt, ?_, fun b hb => ⟨?_, ?_⟩⟩
    · obtain ⟨b, hb⟩ := normalize_some hk.wf
      exact ⟨b, hb, (normalize_active hk.wf hb).2⟩
    · exact (ensureFreeSpace_active hk.wf hk.size hb).2.1
    · exact (ensureFreeSpace_remaining hk.wf hk.size hb).mpr hroom

/-- A full buffer of two bytes. -/
theorem kept_two_bytes : ∃ s, Reachable (streams Unit) s ∧ s.unread () = [7, 8] ∧ Kept s () := by
  have h0 : Reachable (streams Unit) ⟨fun _ => .ofSize 2, fun _ => []⟩ :=
    .init fun _ => ⟨rfl, 2, by decide, rfl⟩
  have h1 := @Reachable.step _ _ _ (StreamOp.write () [7, 8]) _ _ h0 ⟨show 2 ≤ _ by decide, rfl⟩
  exact ⟨_, h1, rfl, (kept_iff h1 ()).mpr fun hfull => absurd hfull.2 (by decide)⟩

/-- A buffer that was moved from gets no room. -/
theorem moved_from_gets_no_room : ∃ s, Reachable (streams Bool) s ∧
    ∃ b, (s.buffer false).ensureFreeSpace = some b ∧ b.getRemainingSpace = 0 := by
  have h0 : Reachable (streams Bool) ⟨fun _ => .ofSize 2, fun _ => []⟩ :=
    .init fun _ => ⟨rfl, 2, by decide, rfl⟩
  have h1 := @Reachable.step _ _ _ (StreamOp.move true false) _ _ h0 ⟨trivial, rfl⟩
  exact ⟨_, h1, {}, by decide, by decide⟩

end Streams

end TyphoonZero.MessageBuffer
