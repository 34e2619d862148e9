import TyphoonZero.LinearBuffer

/-! The maximum of the linear buffer, over runs of `prepare`, `commit` and `consume` with any
arguments. -/
namespace TyphoonZero.LinearBuffer
open Storage Transition

inductive BufferOp
  | prepare (n : ℕ)
  | commit (n : ℕ)
  | consume (n : ℕ)

/-- A `prepare` that throws leaves the buffer as it is by then. -/
def execBuffer (G : Growth) (b : LinearBuffer) : BufferOp → LinearBuffer
  | .prepare n => (b.prepare G n).2
  | .commit n => b.commit n
  | .consume n => b.consume n

def bufferRuns (G : Growth) : System LinearBuffer BufferOp where
  init b := ∃ max < 2 ^ 64, b = { max := max }
  step b op c := c = execBuffer G b op

/-- `prepare` does not find more room in the capacity than the maximum leaves; and when it
has to grow within the maximum, a vector can be as long. -/
def Within (b : LinearBuffer) : BufferOp → Prop
  | .prepare n => (n ≤ b.capacity - b.size → b.size + n ≤ b.max) ∧
      (b.capacity - b.size < n → b.size + n ≤ b.max →
        b.wpos + n ≤ kMaxSize ∧ (b.max ≤ kMaxSize ∨ 2 * b.capacity ≤ kMaxSize))
  | _ => True

/-- Even when all storage behind the read position is committed, the maximum is kept. -/
structure Bounded (b : LinearBuffer) : Prop where
  wf : b.Wf
  le_max : b.storage.length - b.rpos ≤ b.max

section Steps
variable {G : Growth} {b : LinearBuffer} {n : ℕ}

lemma Bounded.size_le (h : Bounded b) : b.size ≤ b.max := by
  have hw := h.wf.wpos_le
  have hle := h.le_max
  rw [h.wf.size_eq]
  omega

lemma resize_some {c : Container} {k : ℕ} (hk : k ≤ kMaxSize) : ∃ d, c.resize G k = some d := by
  unfold Container.resize
  split_ifs
  · exact ⟨_, rfl⟩
  · exact ⟨_, rfl⟩

/-- The buffer on a vector of another length. -/
lemma resized_bounded (h : b.Wf) {k : ℕ} {c : Container} (hk : b.wpos ≤ k) (hmax : k - b.rpos ≤ b.max)
    (hc : b.toContainer.resize G k = some c) : Bounded { b with toContainer := c } := by
  obtain ⟨hwf, -, hlen⟩ := resize_keeps h hk hc
  exact ⟨hwf, by rwa [hlen]⟩

/-- What `prepare` does when the maximum allows it. -/
def Succeeds (p : Except Fault Region × LinearBuffer) : Prop := (∃ r, p.1 = .ok r) ∧ Bounded p.2

lemma extend_succeeds (h : b.Wf) (hn : b.wpos + n ≤ b.capacity) (hmax : b.size + n ≤ b.max) :
    Succeeds (b.extend G n) := by
  have hr := h.rpos_le
  have hsize := h.size_eq
  obtain ⟨c, hc⟩ := @resize_some G b.toContainer (b.wpos + n) (hn.trans h.capacity_le)
  unfold LinearBuffer.extend
  rw [Nat.mod_eq_of_lt (hn.trans_lt h.lt.2.2), hc]
  exact ⟨⟨_, rfl⟩, resized_bounded h (Nat.le_add_right _ n) (by omega) hc⟩

lemma grow_succeeds (h : b.Wf) (hmax : b.size + n ≤ b.max) (hcap : b.capacity - b.size < n)
    (hpos : b.wpos + n ≤ kMaxSize) (hfits : b.max ≤ kMaxSize ∨ 2 * b.capacity ≤ kMaxSize) :
    Succeeds (b.grow G n) := by
  have hr := h.rpos_le
  have hw := h.wpos_le
  have hl := h.length_le
  have hsize := h.size_eq
  have hdefault : kBufferDefaultSize ≤ kMaxSize := by decide
  have hlt : b.wpos + n < 2 ^ 64 := hpos.trans_lt (by norm_num)
  have hcaplt : 2 * b.capacity % 2 ^ 64 ≤ 2 * b.capacity := Nat.mod_le _ _
  obtain ⟨c, hc⟩ := @resize_some G b.toContainer (Max.max (min b.max
    (Max.max (2 * b.capacity % 2 ^ 64) (b.wpos + n))) kBufferDefaultSize) (by omega)
  have hwpos : b.wpos ≤ Max.max (min b.max (Max.max (2 * b.capacity % 2 ^ 64) (b.wpos + n))) kBufferDefaultSize := by
    omega
  obtain ⟨hwf, -, -⟩ := resize_keeps h hwpos hc
  obtain ⟨d, hd⟩ := @resize_some G c (b.wpos + n) hpos
  unfold LinearBuffer.grow
  dsimp only
  rw [Nat.mod_eq_of_lt hlt, hc]
  dsimp only
  rw [hd]
  exact ⟨⟨_, rfl⟩, @resized_bounded G _ hwf (b.wpos + n) d (Nat.le_add_right _ n) (by dsimp only; omega) hd⟩

lemma prepare_succeeds (h : Bounded b) (hc : Within b (.prepare n)) (hmax : b.size + n ≤ b.max) :
    Succeeds (b.prepare G n) := by
  have hr := h.wf.rpos_le
  have hw := h.wf.wpos_le
  have hl := h.wf.length_le
  have hsize := h.wf.size_eq
  unfold LinearBuffer.prepare
  rw [sub64_eq (hw.trans hl) h.wf.lt.2.2, sub64_eq (show b.size ≤ b.capacity by omega) h.wf.lt.2.2,
    sub64_eq h.size_le h.wf.max_lt]
  split_ifs with hend hcompact hover
  · exact extend_succeeds h.wf (by omega) hmax
  · have hcompacted := (compact_wf h.wf).1
    have hsize' : b.compact.size = b.size := by
      rw [hcompacted.size_eq]
      exact Nat.sub_zero _
    exact @extend_succeeds G _ n hcompacted (show b.size + n ≤ b.capacity by omega) (by rw [hsize']; exact hmax)
  · omega
  · obtain ⟨hpos, hfits⟩ := hc.2 (by omega) hmax
    exact grow_succeeds h.wf hmax (by omega) hpos hfits

lemma prepare_overflows (h : Bounded b) (hc : Within b (.prepare n)) (hmax : b.max < b.size + n) :
    b.prepare G n = (.error .overflow, b) := by
  have hr := h.wf.rpos_le
  have hw := h.wf.wpos_le
  have hl := h.wf.length_le
  have hsize := h.wf.size_eq
  have hcap : b.capacity - b.size < n := by
    by_contra hle
    have hin := hc.1 (Nat.le_of_not_lt hle)
    omega
  unfold LinearBuffer.prepare
  rw [sub64_eq (hw.trans hl) h.wf.lt.2.2, sub64_eq (show b.size ≤ b.capacity by omega) h.wf.lt.2.2,
    sub64_eq h.size_le h.wf.max_lt, if_neg (by omega), if_neg (by omega), if_pos (by omega)]

lemma commit_bounded (h : Bounded b) (n : ℕ) : Bounded (b.commit n) := by
  have hw := h.wf.wpos_le
  have hmin : b.commit n = b.commit (min n (b.storage.length - b.wpos)) := by
    rw [LinearBuffer.commit, LinearBuffer.commit, sub64_eq hw h.wf.lt.2.1, min_assoc, min_self]
  rw [hmin]
  exact ⟨(commit_keeps h.wf (by omega)).1, h.le_max⟩

lemma consume_bounded (h : Bounded b) (n : ℕ) : Bounded (b.consume n) := by
  have hle := h.le_max
  refine ⟨(consume_keeps h.wf n).1, ?_⟩
  have hlt := h.wf.lt
  have hr := h.wf.rpos_le
  unfold LinearBuffer.consume
  rw [sub64_eq hr hlt.1]
  split_ifs
  · exact Nat.zero_le _
  · dsimp only
    rw [Nat.mod_eq_of_lt (by omega)]
    omega

lemma execBuffer_bounded (h : Bounded b) {op : BufferOp} (hc : Within b op) : Bounded (execBuffer G b op) := by
  cases op with
  | prepare n =>
    rcases Nat.lt_or_ge b.max (b.size + n) with hover | hmax
    · rw [execBuffer, prepare_overflows h hc hover]
      exact h
    · exact (prepare_succeeds h hc hmax).2
  | commit n => exact commit_bounded h n
  | consume n => exact consume_bounded h n

lemma bounded_new {max : ℕ} (hmax : max < 2 ^ 64) : Bounded { max := max } :=
  ⟨⟨le_rfl, le_rfl, le_rfl, Nat.zero_le _, hmax⟩, Nat.zero_le _⟩

end Steps

/-- In every run whose calls of `prepare` stay `Within`, the size keeps to the maximum, and
`prepare` throws just when it would not, and changes nothing then. -/
theorem linearBuffer_respects_max {G : Growth} {b : LinearBuffer} (h : Reachable ((bufferRuns G).restrict Within) b) :
    b.size ≤ b.max ∧ ∀ n, Within b (.prepare n) →
      ((∃ e, (b.prepare G n).1 = .error e) ↔ b.max < b.size + n) ∧
      ∀ e, (b.prepare G n).1 = .error e → (b.prepare G n).2 = b := by
  have hb : Bounded b := by
    apply h.invariant
    · rintro _ ⟨max, hmax, rfl⟩
      exact bounded_new hmax
    · rintro _ _ _ hi ⟨hc, rfl⟩
      exact execBuffer_bounded hi hc
  refine ⟨hb.size_le, fun n hc => ?_⟩
  rcases Nat.lt_or_ge b.max (b.size + n) with hover | hmax
  · rw [prepare_overflows hb hc hover]
    exact ⟨iff_of_true ⟨_, rfl⟩ hover, fun _ _ => rfl⟩
  · obtain ⟨r, hr⟩ := (@prepare_succeeds G _ _ hb hc hmax).1
    rw [hr]
    refine ⟨iff_of_false ?_ (Nat.not_lt.mpr hmax), ?_⟩
    · rintro ⟨e, he⟩
      cases he
    · intro e he
      cases he

/-- A buffer for 1000 bytes with 100 of them committed. -/
theorem linearBuffer_hundred : ∃ b : LinearBuffer, b.size = 100 ∧ b.max = 1000 ∧ b.size ≤ b.max ∧
    ∀ n, Within b (.prepare n) → ((∃ e, (b.prepare doubling n).1 = .error e) ↔ b.max < b.size + n) ∧
      ∀ e, (b.prepare doubling n).1 = .error e → (b.prepare doubling n).2 = b := by
  have h0 : Reachable ((bufferRuns doubling).restrict Within) { max := 1000 } := .init ⟨1000, by decide, rfl⟩
  have hc : Within { max := 1000 } (.prepare 100) := ⟨fun hle => absurd hle (by decide), fun _ _ => by decide⟩
  have h1 := h0.step ⟨hc, rfl⟩
  have h2 := @Reachable.step _ _ _ (BufferOp.commit 100) _ _ h1 ⟨trivial, rfl⟩
  exact ⟨_, by decide +kernel, rfl, linearBuffer_respects_max h2⟩

/-- The first growth leaves more room than a maximum of 100 bytes. -/
theorem prepare_beyond_max : ∃ b c : LinearBuffer, Reachable (bufferRuns doubling) b ∧ b.max = 100 ∧ b.size = 0 ∧
    b.prepare doubling 200 = (.ok ⟨0, 200⟩, c) ∧ Reachable (bufferRuns doubling) (c.commit 200) ∧
    (c.commit 200).size = 200 := by
  have h0 : Reachable (bufferRuns doubling) { max := 100 } := .init ⟨100, by decide, rfl⟩
  have h1 := @Reachable.step _ _ _ (BufferOp.prepare 50) _ _ h0 rfl
  have h2 := @Reachable.step _ _ _ (BufferOp.prepare 200) _ _ h1 rfl
  have h3 := @Reachable.step _ _ _ (BufferOp.commit 200) _ _ h2 rfl
  exact ⟨_, _, h1, by decide +kernel, by decide +kernel, rfl, h3, by decide +kernel⟩

end TyphoonZero.LinearBuffer
