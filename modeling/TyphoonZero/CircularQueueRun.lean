import TyphoonZero.CircularQueue

/-! Runs of circular queues: each stands for its bounded queue throughout, and its
queries answer for that queue unless it is empty. -/
namespace TyphoonZero.CircularQueue
open Transition

section Queries
variable {T : Type} {q : CircularQueue T} {g : Bounded T}

/-- The queries answer for the bounded queue, and it can be used where that can. -/
structure Agrees (q : CircularQueue T) (g : Bounded T) : Prop where
  size : q.getSize = g.items.length
  empty : q.isEmpty = true ↔ g.items = []
  full : 1 ≤ g.bound → q.isFull = .ok (decide (g.items.length = g.bound))
  item : ∀ i, q.at? i = if i < g.items.length then .ok g.items[i]? else .error .assertion
  front : g.items ≠ [] → q.getFront = .ok g.items.head?
  rear : g.items ≠ [] → q.getRear = .ok g.items.getLast?
  overrun : q.overrunCounter.toNat = g.dropped
  enQueue : 1 ≤ g.bound → ∀ item, ∃ q', q.enQueue item = .ok q'
  deQueue : g.items ≠ [] → ∃ q', q.deQueue = .ok q'

lemma capacity_of_ne_nil (h : Represents q g) (hne : g.items ≠ []) :
    q.capacity = g.bound + 1 ∧ 1 ≤ g.bound := by
  rcases h.capacity with hz | hz
  · exact absurd hz.2 hne
  · exact hz

/-- The cursors around the end of the storage, without the remainder. -/
lemma tail_cases (h : Represents q g) (hc : 0 < q.capacity) :
    q.head + g.items.length < q.capacity ∧ q.tail = q.head + g.items.length ∨
      q.capacity ≤ q.head + g.items.length ∧ q.tail + q.capacity = q.head + g.items.length := by
  have hhead := h.head
  have hlen := h.length
  have htail := h.tail
  have hcap : q.capacity = g.bound + 1 := by
    rcases h.capacity with hz | hz <;> omega
  rcases Nat.lt_or_ge (q.head + g.items.length) q.capacity with hlt | hge
  · rw [Nat.mod_eq_of_lt hlt] at htail
    exact .inl ⟨hlt, htail⟩
  · rw [Nat.mod_eq_sub_mod hge, Nat.mod_eq_of_lt (by omega)] at htail
    right
    omega

lemma getSize_eq (h : Represents q g) (hne : g.items ≠ []) : q.getSize = g.items.length := by
  have hcap := capacity_of_ne_nil h hne
  have hpos := List.length_pos_iff.mpr hne
  have hhead := h.head
  have hlen := h.length
  unfold CircularQueue.getSize
  rcases tail_cases h (by omega) with hc | hc
  · rw [if_pos (by omega)]
    omega
  · rw [if_neg (by omega)]
    omega

lemma isFull_eq (h : Represents q g) (hc : 0 < q.capacity) :
    q.isFull = .ok (decide (g.items.length = g.bound)) := by
  have hhead := h.head
  have hlen := h.length
  have hcap : q.capacity = g.bound + 1 := by
    rcases h.capacity with hz | hz <;> omega
  unfold CircularQueue.isFull
  rw [if_pos hc]
  congr 2
  rw [h.tail, Nat.mod_add_mod, Nat.add_assoc, eq_iff_iff]
  constructor
  · intro hmeet
    by_contra hfull
    have hne := @mod_ne_of_lt q.capacity q.head 0 (g.items.length + 1) (by omega) (by omega)
    rw [Nat.add_zero, Nat.mod_eq_of_lt (by omega)] at hne
    exact hne hmeet.symm
  · intro hfull
    rw [hfull, ← hcap, Nat.add_mod_right, Nat.mod_eq_of_lt (by omega)]

lemma at?_eq (h : Represents q g) (hne : g.items ≠ []) (i : ℕ) :
    q.at? i = if i < g.items.length then .ok g.items[i]? else .error .assertion := by
  unfold CircularQueue.at?
  rw [getSize_eq h hne]
  split_ifs with hi
  · rw [h.slot i hi]
  · rfl

lemma getFront_eq (h : Represents q g) (hne : g.items ≠ []) : q.getFront = .ok g.items.head? := by
  have hcap := capacity_of_ne_nil h hne
  have hhead := h.head
  have hslot := h.slot 0 (List.length_pos_iff.mpr hne)
  rw [Nat.add_zero, Nat.mod_eq_of_lt (by omega)] at hslot
  unfold CircularQueue.getFront
  rw [if_pos (by omega), hslot, List.head?_eq_getElem?]

lemma getRear_eq (h : Represents q g) (hne : g.items ≠ []) :
    q.getRear = .ok g.items.getLast? := by
  have hcap := capacity_of_ne_nil h hne
  have hpos := List.length_pos_iff.mpr hne
  have hslot := h.slot (g.items.length - 1) (by omega)
  have hlast : (q.tail + (q.capacity - 1)) % q.capacity
      = (q.head + (g.items.length - 1)) % q.capacity := by
    rw [h.tail, Nat.mod_add_mod]
    have hsum : q.head + g.items.length + (q.capacity - 1)
        = q.head + (g.items.length - 1) + q.capacity := by omega
    rw [hsum, Nat.add_mod_right]
  unfold CircularQueue.getRear
  rw [if_pos (by omega), hlast, hslot, List.getLast?_eq_getElem?]

lemma overrun_iff (h : Represents q g) :
    q.overrunCounter.toNat = g.dropped ↔ g.dropped < 2 ^ 64 := by
  rw [h.counter, UInt64.toNat_ofNat']
  constructor
  · intro hmod
    have hlt := Nat.mod_lt g.dropped (show 0 < 2 ^ 64 by omega)
    omega
  · intro hlt
    exact Nat.mod_eq_of_lt hlt

lemma agrees_of_ne_nil (h : Represents q g) (hne : g.items ≠ []) (hd : g.dropped < 2 ^ 64) :
    Agrees q g := by
  have hcap := capacity_of_ne_nil h hne
  have hpos : 0 < q.capacity := by omega
  refine ⟨getSize_eq h hne, isEmpty_iff h, fun _ => isFull_eq h hpos, at?_eq h hne, fun _ => getFront_eq h hne,
    fun _ => getRear_eq h hne, (overrun_iff h).mpr hd, ?_, ?_⟩
  · intro _ item
    obtain ⟨q', hq, _⟩ := enQueue_represents h hpos item
    exact ⟨q', hq⟩
  · intro _
    obtain ⟨q', hq, _⟩ := deQueue_represents h hne
    exact ⟨q', hq⟩

/-- A queue that was moved away answers for the empty queue. -/
lemma agrees_of_bound_zero (h : Represents q g) (hb : g.bound = 0) (hd : g.dropped < 2 ^ 64) :
    Agrees q g := by
  have hlen := h.length
  have hhead := h.head
  have hcap : q.capacity = 0 := by
    rcases h.capacity with hz | hz <;> omega
  have hnil : g.items = [] := List.length_eq_zero_iff.mp (by omega)
  have hsize : q.getSize = 0 := by
    have htail := h.tail
    rw [hnil, hcap, List.length_nil, Nat.mod_zero] at htail
    unfold CircularQueue.getSize
    rw [if_neg (by omega)]
    omega
  refine ⟨by rw [hsize, hnil]; rfl, isEmpty_iff h, ?_, ?_, ?_, ?_, (overrun_iff h).mpr hd, ?_, ?_⟩
  · intro hpos
    omega
  · intro i
    unfold CircularQueue.at?
    rw [hsize, hnil, List.length_nil, if_neg (by omega), if_neg (by omega)]
  · intro hne
    exact absurd hnil hne
  · intro hne
    exact absurd hnil hne
  · intro hpos
    omega
  · intro hne
    exact absurd hnil hne

/-- An empty queue that could hold elements gives the size of its storage. -/
lemma not_agrees_of_nil (h : Represents q g) (hnil : g.items = []) (hb : 1 ≤ g.bound) :
    ¬ Agrees q g := by
  intro ha
  have hsize := ha.size
  have hfull := ha.full hb
  have hmeet : q.tail = q.head := by
    have hempty := (isEmpty_iff h).mpr hnil
    rwa [CircularQueue.isEmpty, decide_eq_true_eq] at hempty
  rw [CircularQueue.getSize, if_neg (by omega), hnil, List.length_nil] at hsize
  have hzero : ¬ 0 < q.capacity := by omega
  rw [CircularQueue.isFull, if_neg hzero] at hfull
  cases hfull

lemma agrees_iff (h : Represents q g) :
    Agrees q g ↔ (g.items ≠ [] ∨ g.bound = 0) ∧ g.dropped < 2 ^ 64 := by
  constructor
  · intro ha
    refine ⟨?_, (overrun_iff h).mp ha.overrun⟩
    by_contra hc
    rw [not_or, not_not] at hc
    exact not_agrees_of_nil h hc.1 (by omega) ha
  · intro hc
    rcases hc.1 with hne | hb
    · exact agrees_of_ne_nil h hne hc.2
    · exact agrees_of_bound_zero h hb hc.2

end Queries

section Runs
variable {K T : Type} [DecidableEq K] [Inhabited T]

def RepresentsAll (s : (K → CircularQueue T) × (K → Bounded T)) : Prop := ∀ k, Represents (s.1 k) (s.2 k)

omit [Inhabited T] in
lemma represents_update {qs : K → CircularQueue T} {gs : K → Bounded T}
    (h : RepresentsAll (qs, gs)) {q : CircularQueue T} {g : Bounded T} (hq : Represents q g) (k : K) :
    RepresentsAll (Function.update qs k q, Function.update gs k g) := by
  intro i
  by_cases hi : i = k
  · subst hi
    simpa using hq
  · simpa [hi] using h i

/-- Every operation keeps the queues and the bounded queues together. -/
lemma represents_step {s t : (K → CircularQueue T) × (K → Bounded T)} {op : Op K T}
    (h : RepresentsAll s) (hs : (queueRuns K T).step s op t) : RepresentsAll t := by
  obtain ⟨qs, gs⟩ := s
  obtain ⟨qs', gs'⟩ := t
  obtain ⟨ha, hq, hg⟩ := hs
  dsimp only at ha hq hg
  subst hg
  cases op with
  | new k capacity =>
    simp only [exec] at hq
    cases hn : (CircularQueue.new capacity : Except Fault (CircularQueue T)) with
    | error e =>
      rw [hn] at hq
      cases hq
    | ok q =>
      rw [hn] at hq
      cases hq
      exact represents_update h (represents_new ha.1 ha.2 hn) k
  | enQueue k item =>
    simp only [exec] at hq
    by_cases hc : 0 < (qs k).capacity
    · obtain ⟨q, hn, hr⟩ := enQueue_represents (h k) hc item
      dsimp only at hn hr
      rw [hn] at hq
      cases hq
      exact represents_update h hr k
    · rw [CircularQueue.enQueue, if_neg hc] at hq
      cases hq
  | deQueue k =>
    simp only [exec] at hq
    obtain ⟨q, hn, hr⟩ := deQueue_represents (h k) ha
    dsimp only at hn hr
    rw [hn] at hq
    cases hq
    exact represents_update h hr k
  | copy k other =>
    cases hq
    exact represents_update h (h other) k
  | move k other =>
    cases hq
    simp only [moveQueue, execBounded]
    split_ifs with hk
    · exact h
    · exact represents_update (represents_update h (h other) k) represents_empty other

theorem represents_of_reachable {s : (K → CircularQueue T) × (K → Bounded T)}
    (h : Reachable (queueRuns K T) s) : RepresentsAll s := by
  apply h.invariant
  · intro a ha
    cases ha
    exact fun _ => represents_empty
  · intro _ _ _ hr hs
    exact represents_step hr hs

/-- In every run the queue behaves as its bounded queue exactly while that is not
empty (or is the one left by a move) and fewer than `2 ^ 64` elements were dropped. -/
theorem circularQueue_agrees_iff {s : (K → CircularQueue T) × (K → Bounded T)}
    (h : Reachable (queueRuns K T) s) (k : K) :
    Agrees (s.1 k) (s.2 k) ↔
      ((s.2 k).items ≠ [] ∨ (s.2 k).bound = 0) ∧ (s.2 k).dropped < 2 ^ 64 :=
  agrees_iff (represents_of_reachable h k)

/-- One allowed operation on both sides, computed. -/
def next? (s : (K → CircularQueue T) × (K → Bounded T)) (op : Op K T) :
    Option ((K → CircularQueue T) × (K → Bounded T)) :=
  let allowed : Bool := match op with
    | .new _ capacity => 1 ≤ capacity ∧ capacity < 2 ^ 64
    | .enQueue k _ => 1 ≤ (s.2 k).bound
    | .deQueue k => !(s.2 k).items.isEmpty
    | _ => true
  match allowed, exec s.1 op with
  | true, .ok qs => some (qs, execBounded s.2 op)
  | _, _ => none

lemma next?_step (s : (K → CircularQueue T) × (K → Bounded T)) (op : Op K T)
    (t : (K → CircularQueue T) × (K → Bounded T)) (h : next? s op = some t) :
    (queueRuns K T).step s op t := by
  simp only [next?] at h
  split at h
  case h_1 qs ha hq =>
    cases h
    refine ⟨?_, hq, rfl⟩
    cases op with
    | new k capacity => simpa [Op.Allowed] using ha
    | enQueue k item => simpa [Op.Allowed] using ha
    | deQueue k => simpa [Op.Allowed] using ha
    | copy k other => trivial
    | move k other => trivial
  case h_2 => cases h

end Runs

/-- A queue of capacity 2 after three elements: the oldest one was dropped. -/
theorem circularQueue_agrees_iff_overrun :
    Reachable (queueRuns Unit ℕ) (fun _ => ⟨3, 1, 0, 1, [1, 2, 3]⟩, fun _ => ⟨2, [2, 3], 1⟩) ∧
      Agrees ⟨3, 1, 0, 1, [1, 2, 3]⟩ (⟨2, [2, 3], 1⟩ : Bounded ℕ) := by
  have hr : Reachable (queueRuns Unit ℕ) (fun _ => ⟨3, 1, 0, 1, [1, 2, 3]⟩, fun _ => ⟨2, [2, 3], 1⟩) :=
    @Reachable.of_foldlM _ _ _ _ next?_step
      [.new () 2, .enQueue () 1, .enQueue () 2, .enQueue () 3] _ _ (.init rfl) rfl
  exact ⟨hr, (circularQueue_agrees_iff hr ()).mpr ⟨.inl (List.cons_ne_nil _ _), by decide⟩⟩

/-- A new queue of capacity 1 has size 2, and its elements 0 and 1 are not rejected. -/
theorem new_queue_not_empty :
    Reachable (queueRuns Unit ℕ) (fun _ => ⟨2, 0, 0, 0, [0, 0]⟩, fun _ => ⟨1, [], 0⟩) ∧
      (⟨2, 0, 0, 0, [0, 0]⟩ : CircularQueue ℕ).getSize = 2 ∧
      (⟨2, 0, 0, 0, [0, 0]⟩ : CircularQueue ℕ).at? 0 = .ok (some 0) ∧
      ¬ Agrees ⟨2, 0, 0, 0, [0, 0]⟩ (⟨1, [], 0⟩ : Bounded ℕ) := by
  refine ⟨?_, rfl, rfl, ?_⟩
  · exact @Reachable.of_foldlM _ _ _ _ next?_step [.new () 1] _ _ (.init rfl) rfl
  · intro ha
    cases ha.size

end TyphoonZero.CircularQueue
