import TyphoonZero.Storage
import TyphoonZero.Transition

/-! The linear buffer: `prepare`, `commit` and `consume` on a vector with two cursors,
beside the bytes that were committed and not yet consumed. -/
namespace TyphoonZero.LinearBuffer
open Storage Transition

abbrev kBufferDefaultSize : ℕ := 512

/-- `max_size` of a byte vector. -/
abbrev kMaxSize : ℕ := 2 ^ 63 - 1

/-- Subtraction of `size_t`. -/
def sub64 (a b : ℕ) : ℕ := (a + (2 ^ 64 - b)) % 2 ^ 64

lemma sub64_eq {a b : ℕ} (h : b ≤ a) (ha : a < 2 ^ 64) : sub64 a b = a - b := by
  unfold sub64
  omega

/-- How a vector grows: the new capacity from the old one, the size and the request. -/
structure Growth where
  next : ℕ → ℕ → ℕ → ℕ
  le_next : ∀ c s k, k ≤ kMaxSize → k ≤ next c s k
  next_le : ∀ c s k, k ≤ kMaxSize → next c s k ≤ kMaxSize

/-- Twice the size, or what is asked for. -/
def doubling : Growth where
  next _ s k := max k (min (2 * s) kMaxSize)
  le_next _ s k _ := le_max_left k (min (2 * s) kMaxSize)
  next_le _ s _ h := max_le h (min_le_right (2 * s) kMaxSize)

structure Container where
  storage : List UInt8 := []
  capacity : ℕ := 0
  deriving DecidableEq

/-- `none` is the `length_error` of a vector that would grow beyond `kMaxSize`. -/
def Container.resize (G : Growth) (c : Container) (k : ℕ) : Option Container :=
  if k ≤ c.capacity then some { c with storage := Storage.resize 0 c.storage k }
  else if k ≤ kMaxSize then
    some ⟨Storage.resize 0 c.storage k, G.next c.capacity c.storage.length k⟩
  else none

structure LinearBuffer extends Container where
  rpos : ℕ := 0
  wpos : ℕ := 0
  max : ℕ := 2 ^ 64 - 1
  deriving DecidableEq

/-- The returned `mutable_buffer`. -/
structure Region where
  start : ℕ
  length : ℕ
  deriving DecidableEq

inductive Fault
  | overflow
  | length

namespace LinearBuffer
variable (G : Growth) (b : LinearBuffer)

def size : ℕ := sub64 b.wpos b.rpos

def data : List UInt8 := slice b.storage b.rpos b.wpos

/-- The end of the first two branches of `prepare`. -/
def extend (n : ℕ) : Except Fault Region × LinearBuffer :=
  match b.toContainer.resize G ((b.wpos + n) % 2 ^ 64) with
  | none => (.error .length, b)
  | some c => (.ok ⟨b.wpos, n⟩, { b with toContainer := c })

def compact : LinearBuffer :=
  { b with storage := writeAt b.storage 0 b.data, rpos := 0, wpos := b.size }

def grow (n : ℕ) : Except Fault Region × LinearBuffer :=
  let sum := (b.wpos + n) % 2 ^ 64
  let newSize := Max.max (min b.max (Max.max (2 * b.capacity % 2 ^ 64) sum)) kBufferDefaultSize
  match b.toContainer.resize G newSize with
  | none => (.error .length, b)
  | some c =>
    match c.resize G sum with
    | none => (.error .length, { b with toContainer := c })
    -- the region starts at the read position
    | some d => (.ok ⟨b.rpos, n⟩, { b with toContainer := d })

def prepare (n : ℕ) : Except Fault Region × LinearBuffer :=
  if n ≤ sub64 b.capacity b.wpos then b.extend G n
  else if n ≤ sub64 b.capacity b.size then b.compact.extend G n
  else if n > sub64 b.max b.size then (.error .overflow, b)
  else b.grow G n

def commit (n : ℕ) : LinearBuffer := { b with wpos := (b.wpos + min n (sub64 b.storage.length b.wpos)) % 2 ^ 64 }

def consume (n : ℕ) : LinearBuffer :=
  if n > sub64 b.wpos b.rpos then { b with storage := [], rpos := 0, wpos := 0 }
  else { b with rpos := (b.rpos + n) % 2 ^ 64 }

end LinearBuffer

/-- A buffer, the region that was prepared last and may still be written, and
the bytes that were committed and not yet consumed. -/
structure Stream where
  buffer : LinearBuffer
  region : Option Region := none
  unread : List UInt8 := []
  deriving DecidableEq

inductive Op
  | prepare (n : ℕ)
  | write (offset : ℕ) (bytes : List UInt8)
  | commit (n : ℕ)
  | consume (n : ℕ)

/-- `prepare` stays within `max_size`; writes and `commit` stay within the region,
which the next operation on the buffer gives up. -/
def exec (G : Growth) (s : Stream) : Op → Option Stream
  | .prepare n =>
    if s.buffer.size + n ≤ s.buffer.max then
      let (region, buffer) := s.buffer.prepare G n
      some { s with buffer := buffer, region := region.toOption }
    else none
  | .write offset bytes =>
    match s.region with
    | none => none
    | some r =>
      if offset + bytes.length ≤ r.length then
        some { s with buffer.storage := writeAt s.buffer.storage (r.start + offset) bytes }
      else none
  | .commit n =>
    match s.region with
    | none => none
    | some r =>
      if n ≤ r.length then
        some ⟨s.buffer.commit n, none,
          s.unread ++ slice s.buffer.storage r.start (r.start + n)⟩
      else none
  | .consume n => some ⟨s.buffer.consume n, none, s.unread.drop n⟩

def streamRuns (G : Growth) : System Stream Op where
  init s := ∃ max < 2 ^ 64, s = { buffer := { max := max } }
  step s op t := exec G s op = some t

/-- The data are the unread bytes; the region lies in the storage and apart from them. -/
structure Stream.IsFifo (s : Stream) : Prop where
  data : s.buffer.data = s.unread
  cursors : s.buffer.rpos ≤ s.buffer.wpos ∧ s.buffer.wpos ≤ s.buffer.storage.length
  inside : ∀ r, s.region = some r → r.start + r.length ≤ s.buffer.storage.length
  apart : ∀ r, s.region = some r → ∀ i, r.start ≤ i → i < r.start + r.length →
    i < s.buffer.rpos ∨ s.buffer.wpos ≤ i

/-- `prepare` does not grow the vector, or there are no unread bytes and the end
of the region does not wrap. -/
def NoUnreadGrowth (s : Stream) : Op → Prop
  | .prepare n => n ≤ s.buffer.capacity - s.buffer.size ∨
      s.buffer.size = 0 ∧ s.buffer.wpos + n < 2 ^ 64
  | _ => True

instance (s : Stream) : (op : Op) → Decidable (NoUnreadGrowth s op)
  | .prepare _ => inferInstanceAs (Decidable (_ ∨ _))
  | .write _ _ => .isTrue trivial
  | .commit _ => .isTrue trivial
  | .consume _ => .isTrue trivial

section Wellformed
variable {G : Growth} {b : LinearBuffer}

structure LinearBuffer.Wf (b : LinearBuffer) : Prop where
  rpos_le : b.rpos ≤ b.wpos
  wpos_le : b.wpos ≤ b.storage.length
  length_le : b.storage.length ≤ b.capacity
  capacity_le : b.capacity ≤ kMaxSize
  max_lt : b.max < 2 ^ 64

/-- No position reaches the end of `size_t`. -/
lemma LinearBuffer.Wf.lt (h : b.Wf) : b.wpos < 2 ^ 64 ∧ b.storage.length < 2 ^ 64 ∧ b.capacity < 2 ^ 64 := by
  obtain ⟨-, hw, hl, hc, -⟩ := h
  have hk : b.capacity < 2 ^ 64 := hc.trans_lt (by norm_num)
  omega

lemma LinearBuffer.Wf.size_eq (h : b.Wf) : b.size = b.wpos - b.rpos := sub64_eq h.rpos_le h.lt.1

lemma resize_spec {c d : Container} {k : ℕ} (hc : c.capacity ≤ kMaxSize) (h : c.resize G k = some d) :
    d.storage = Storage.resize 0 c.storage k ∧ k ≤ d.capacity ∧ d.capacity ≤ kMaxSize := by
  unfold Container.resize at h
  split_ifs at h with hk hm
  · cases h
    exact ⟨rfl, hk, hc⟩
  · cases h
    exact ⟨rfl, G.le_next _ _ _ hm, G.next_le _ _ _ hm⟩

/-- A buffer on a resized vector that still reaches its write position. -/
lemma resize_keeps (h : b.Wf) {k : ℕ} {c : Container} (hk : b.wpos ≤ k)
    (hc : b.toContainer.resize G k = some c) :
    ({ b with toContainer := c } : LinearBuffer).Wf ∧
      ({ b with toContainer := c } : LinearBuffer).data = b.data ∧ c.storage.length = k := by
  obtain ⟨hs, hle, hmax⟩ := resize_spec h.capacity_le hc
  have hlen : c.storage.length = k := by rw [hs, length_resize]
  refine ⟨⟨h.rpos_le, ?_, ?_, hmax, h.max_lt⟩, ?_, hlen⟩
  · dsimp only
    omega
  · dsimp only
    omega
  · dsimp only [LinearBuffer.data]
    rw [hs]
    exact slice_resize 0 hk h.wpos_le

/-- What `prepare` promises: the data stay, and a returned region is the `n` bytes
behind them. -/
def Prepared (b : LinearBuffer) (n : ℕ) (p : Except Fault Region × LinearBuffer) : Prop :=
  p.2.Wf ∧ p.2.data = b.data ∧
    ∀ r, p.1 = .ok r → r.start = p.2.wpos ∧ r.length = n ∧ p.2.wpos + n ≤ p.2.storage.length

lemma extend_prepared (h : b.Wf) {n : ℕ} (hn : b.wpos + n ≤ b.capacity) : Prepared b n (b.extend G n) := by
  unfold LinearBuffer.extend
  rw [Nat.mod_eq_of_lt (hn.trans_lt h.lt.2.2)]
  cases hc : b.toContainer.resize G (b.wpos + n) with
  | none =>
    refine ⟨h, rfl, ?_⟩
    intro r hr
    cases hr
  | some c =>
    obtain ⟨hwf, hdata, hlen⟩ := resize_keeps h (Nat.le_add_right _ n) hc
    refine ⟨hwf, hdata, ?_⟩
    intro r hr
    cases hr
    exact ⟨rfl, rfl, hlen.ge⟩

lemma length_data (h : b.Wf) : b.data.length = b.size :=
  (length_slice h.wpos_le).trans h.size_eq.symm

lemma compact_wf (h : b.Wf) : b.compact.Wf ∧ b.compact.data = b.data := by
  have hr := h.rpos_le
  have hw := h.wpos_le
  have hsize := h.size_eq
  have hlen : (writeAt b.storage 0 b.data).length = b.storage.length := by
    apply length_writeAt
    rw [length_data h]
    omega
  refine ⟨⟨Nat.zero_le _, ?_, ?_, h.capacity_le, h.max_lt⟩, ?_⟩
  · dsimp only [LinearBuffer.compact]
    omega
  · dsimp only [LinearBuffer.compact]
    rw [hlen]
    exact h.length_le
  · change slice (writeAt b.storage 0 b.data) 0 b.size = b.data
    rw [hsize]
    exact slice_moveToFront hw

/-- Growth without unread bytes: the read position is the write position. -/
lemma grow_prepared (h : b.Wf) {n : ℕ} (hsize : b.size = 0) (hw : b.wpos + n < 2 ^ 64)
    (hcap : b.capacity - b.size < n) (hmax : b.size + n ≤ b.max) : Prepared b n (b.grow G n) := by
  have hr := h.rpos_le
  have hwl := h.wpos_le
  have hlc := h.length_le
  have hcl := h.capacity_le
  have heq : b.rpos = b.wpos := by
    rw [h.size_eq] at hsize
    omega
  unfold LinearBuffer.grow
  dsimp only
  rw [Nat.mod_eq_of_lt hw]
  cases hc : b.toContainer.resize G (Max.max (min b.max
      (Max.max (2 * b.capacity % 2 ^ 64) (b.wpos + n))) kBufferDefaultSize) with
  | none =>
    refine ⟨h, rfl, ?_⟩
    intro r hr
    cases hr
  | some c =>
    obtain ⟨hwf, hdata, _⟩ := resize_keeps h (by omega) hc
    dsimp only
    cases hd : c.resize G (b.wpos + n) with
    | none =>
      refine ⟨hwf, hdata, ?_⟩
      intro r hr
      cases hr
    | some d =>
      have hkeep := @resize_keeps G _ hwf (b.wpos + n) d (Nat.le_add_right _ n) hd
      refine ⟨hkeep.1, hkeep.2.1.trans hdata, ?_⟩
      intro r hr
      cases hr
      exact ⟨heq, rfl, hkeep.2.2.ge⟩

lemma prepare_prepared (h : b.Wf) {n : ℕ} (hmax : b.size + n ≤ b.max)
    (hn : n ≤ b.capacity - b.size ∨ b.size = 0 ∧ b.wpos + n < 2 ^ 64) :
    Prepared b n (b.prepare G n) := by
  have hr := h.rpos_le
  have hw := h.wpos_le
  have hlc := h.length_le
  have hsize := h.size_eq
  have hlt := h.lt
  have hml := h.max_lt
  unfold LinearBuffer.prepare
  rw [sub64_eq (hw.trans hlc) hlt.2.2, sub64_eq (show b.size ≤ b.capacity by omega) hlt.2.2,
    sub64_eq (show b.size ≤ b.max by omega) hml]
  split_ifs with hend hcompact hover
  · exact extend_prepared h (by omega)
  · have hc := compact_wf h
    have he := @extend_prepared G _ hc.1 n (show b.size + n ≤ b.capacity by omega)
    exact ⟨he.1, he.2.1.trans hc.2, he.2.2⟩
  · omega
  · rcases hn with hle | hz
    · exact absurd hle hcompact
    · exact grow_prepared h hz.1 hz.2 (by omega) hmax

lemma commit_keeps (h : b.Wf) {n : ℕ} (hn : b.wpos + n ≤ b.storage.length) :
    (b.commit n).Wf ∧ (b.commit n).data = b.data ++ slice b.storage b.wpos (b.wpos + n) := by
  have hr := h.rpos_le
  have hlt := h.lt
  have hmin : (b.wpos + min n (sub64 b.storage.length b.wpos)) % 2 ^ 64 = b.wpos + n := by
    rw [sub64_eq (by omega) hlt.2.1]
    omega
  refine ⟨⟨?_, ?_, h.length_le, h.capacity_le, h.max_lt⟩, ?_⟩
  · dsimp only [LinearBuffer.commit]
    omega
  · dsimp only [LinearBuffer.commit]
    omega
  · dsimp only [LinearBuffer.commit, LinearBuffer.data]
    rw [hmin, slice_append hr (Nat.le_add_right _ n) hn]

lemma consume_keeps (h : b.Wf) (n : ℕ) :
    (b.consume n).Wf ∧ (b.consume n).data = b.data.drop n := by
  have hr := h.rpos_le
  have hw := h.wpos_le
  have hlen := length_data h
  have hsize := h.size_eq
  have hlt := h.lt
  unfold LinearBuffer.consume
  rw [sub64_eq hr hlt.1]
  split_ifs with hn
  · refine ⟨⟨le_rfl, le_rfl, Nat.zero_le _, h.capacity_le, h.max_lt⟩, ?_⟩
    rw [List.drop_eq_nil_of_le (by omega)]
    rfl
  · rw [Nat.mod_eq_of_lt (by omega)]
    refine ⟨⟨?_, hw, h.length_le, h.capacity_le, h.max_lt⟩, slice_add _ _ _ _⟩
    dsimp only
    omega

/-- A write behind the data. -/
lemma write_keeps (h : b.Wf) {pos : ℕ} {bytes : List UInt8} (hpos : b.wpos ≤ pos)
    (hin : pos + bytes.length ≤ b.storage.length) :
    ({ b with storage := writeAt b.storage pos bytes } : LinearBuffer).Wf ∧
      ({ b with storage := writeAt b.storage pos bytes } : LinearBuffer).data = b.data := by
  have hw := h.wpos_le
  have hlen := length_writeAt hin
  refine ⟨⟨h.rpos_le, ?_, ?_, h.capacity_le, h.max_lt⟩, ?_⟩
  · dsimp only
    omega
  · dsimp only
    rw [hlen]
    exact h.length_le
  · exact slice_writeAt_left hpos (by omega)

end Wellformed

section Runs
variable {G : Growth}

/-- The region that may be written starts where the data end. -/
structure Stream.Inv (s : Stream) : Prop where
  wf : s.buffer.Wf
  data : s.buffer.data = s.unread
  region : ∀ r, s.region = some r →
    r.start = s.buffer.wpos ∧ s.buffer.wpos + r.length ≤ s.buffer.storage.length

lemma inv_step {s t : Stream} {op : Op} (h : s.Inv) (hc : NoUnreadGrowth s op)
    (hs : exec G s op = some t) : t.Inv := by
  cases op with
  | prepare n =>
    simp only [exec] at hs
    split_ifs at hs with hmax
    obtain ⟨hwf, hdata, hregion⟩ := @prepare_prepared G _ h.wf n hmax hc
    cases hs
    refine ⟨hwf, hdata.trans h.data, ?_⟩
    intro r hr
    dsimp only at hr
    cases hp : (s.buffer.prepare G n).1 with
    | error e =>
      rw [hp] at hr
      cases hr
    | ok r' =>
      rw [hp] at hr
      cases hr
      obtain ⟨hstart, hlen, hin⟩ := hregion r hp
      refine ⟨hstart, ?_⟩
      rw [hlen]
      exact hin
  | write offset bytes =>
    simp only [exec] at hs
    split at hs
    · cases hs
    next r hr =>
      split_ifs at hs with hb
      cases hs
      obtain ⟨hstart, hin⟩ := h.region r hr
      have hpos : r.start + offset + bytes.length ≤ s.buffer.storage.length := by omega
      have hkeep := write_keeps h.wf (show s.buffer.wpos ≤ r.start + offset by omega) hpos
      refine ⟨hkeep.1, hkeep.2.trans h.data, ?_⟩
      intro r' hr'
      dsimp only
      rw [length_writeAt hpos]
      exact h.region r' hr'
  | commit n =>
    simp only [exec] at hs
    split at hs
    · cases hs
    next r hr =>
      split_ifs at hs with hn
      cases hs
      obtain ⟨hstart, hin⟩ := h.region r hr
      have hkeep := commit_keeps h.wf (show s.buffer.wpos + n ≤ _ by omega)
      refine ⟨hkeep.1, ?_, ?_⟩
      · dsimp only
        rw [hkeep.2, h.data, hstart]
      · intro r' hr'
        cases hr'
  | consume n =>
    cases hs
    have hkeep := consume_keeps h.wf n
    refine ⟨hkeep.1, ?_, ?_⟩
    · dsimp only
      rw [hkeep.2, h.data]
    · intro r hr
      cases hr

lemma inv_init {s : Stream} (hs : (streamRuns G).init s) : s.Inv := by
  obtain ⟨max, hmax, rfl⟩ := hs
  refine ⟨⟨le_rfl, le_rfl, le_rfl, Nat.zero_le _, hmax⟩, rfl, ?_⟩
  intro r hr
  cases hr

lemma Stream.Inv.isFifo {s : Stream} (h : s.Inv) : s.IsFifo := by
  refine ⟨h.data, ⟨h.wf.rpos_le, h.wf.wpos_le⟩, ?_, ?_⟩
  · intro r hr
    obtain ⟨hstart, hin⟩ := h.region r hr
    omega
  · intro r hr i hi _
    obtain ⟨hstart, _⟩ := h.region r hr
    omega

/-- In every run that never grows the vector with unread bytes in it, the buffer
is a FIFO byte stream. -/
theorem linearBuffer_fifo {s : Stream}
    (h : Reachable ((streamRuns G).restrict NoUnreadGrowth) s) : s.IsFifo := by
  have hinv : s.Inv := by
    apply h.invariant
    · intro _ ha
      exact @inv_init G _ ha
    · intro _ _ _ hi hs
      exact inv_step hi hs.1 hs.2
  exact hinv.isFifo

def next? (G : Growth) (s : Stream) (op : Op) : Option Stream :=
  if NoUnreadGrowth s op then exec G s op else none

lemma next?_step (s : Stream) (op : Op) (t : Stream) (hs : next? G s op = some t) :
    ((streamRuns G).restrict NoUnreadGrowth).step s op t := by
  unfold next? at hs
  split_ifs at hs with hc
  exact ⟨hc, hs⟩

end Runs

/-- All but one of 512 bytes consumed, then two more behind it by compaction. -/
theorem linearBuffer_fifo_compaction : ∃ s, Reachable ((streamRuns doubling).restrict NoUnreadGrowth) s ∧
    s = { buffer := { capacity := 512, storage := [9, 5, 6], wpos := 3, max := 600 }, unread := [9, 5, 6] } ∧
      s.IsFifo := by
  have hr := @Reachable.of_foldlM _ _ ((streamRuns doubling).restrict NoUnreadGrowth) _ next?_step
      [.prepare 512, .write 511 [9], .commit 512, .consume 511, .prepare 2, .write 0 [5, 6], .commit 2]
      { buffer := { max := 600 } }
      { buffer := { capacity := 512, storage := [9, 5, 6], wpos := 3, max := 600 }, unread := [9, 5, 6] }
      (.init ⟨600, by decide, rfl⟩) (by decide +kernel)
  exact ⟨_, hr, rfl, linearBuffer_fifo hr⟩

/-- The region of a growth with an unread byte starts at that byte. -/
theorem growth_overwrites_unread :
    ∃ s, Reachable (streamRuns doubling) s ∧ s.unread = [7] ∧ s.buffer.data = [9] ∧ ¬ s.IsFifo := by
  have hrun : ([Op.prepare 1, .write 0 [7], .commit 1, .prepare 512, .write 0 [9]].foldlM
      (exec doubling) { buffer := {} }).map (fun s => (s.unread, s.buffer.data)) = some ([7], [9]) := by
    decide +kernel
  rw [Option.map_eq_some_iff] at hrun
  obtain ⟨s, hs, hpair⟩ := hrun
  obtain ⟨hunread, hdata⟩ := Prod.mk.inj hpair
  have hinit : (streamRuns doubling).init { buffer := {} } := ⟨2 ^ 64 - 1, by decide, rfl⟩
  refine ⟨s, @Reachable.of_foldlM _ _ _ _ (fun _ _ _ h => h) _ _ _ (.init hinit) hs, hunread, hdata, ?_⟩
  intro h
  have heq := h.data
  rw [hunread, hdata] at heq
  cases heq

end TyphoonZero.LinearBuffer
