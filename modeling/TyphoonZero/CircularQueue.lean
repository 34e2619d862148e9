import TyphoonZero.Transition

/-! The circular queue and the bounded queue that it implements: a list that
drops its oldest element when it is full. -/
namespace TyphoonZero.CircularQueue
open Transition

structure CircularQueue (T : Type) where
  capacity : ℕ := 0
  head : ℕ := 0
  tail : ℕ := 0
  overrunCounter : UInt64 := 0
  storage : List T := []

inductive Fault
  | assertion
  | length
  deriving DecidableEq, Repr

/-- A vector has no more elements than this, so that no index sum below wraps. -/
abbrev kMaxSize : ℕ := 2 ^ 63 - 1

namespace CircularQueue
variable {T : Type} (q : CircularQueue T)

/-- The constructor; the slots are value-initialised. -/
def new [Inhabited T] (capacity : ℕ) : Except Fault (CircularQueue T) :=
  let capacity := (capacity + 1) % 2 ^ 64
  if capacity ≤ kMaxSize then
    .ok { capacity := capacity, storage := List.replicate capacity default }
  else .error .length

def enQueue (item : T) : Except Fault (CircularQueue T) :=
  if q.capacity > 0 then
    let storage := q.storage.set q.tail item
    let tail := (q.tail + 1) % q.capacity
    if q.head = tail then
      .ok { q with
        storage := storage, tail := tail, head := (q.head + 1) % q.capacity,
        overrunCounter := q.overrunCounter + 1 }
    else .ok { q with storage := storage, tail := tail }
  else .error .assertion

def isEmpty : Bool := q.tail = q.head

def deQueue : Except Fault (CircularQueue T) :=
  if q.isEmpty then .error .assertion else .ok { q with head := (q.head + 1) % q.capacity }

def getSize : ℕ := if q.tail > q.head then q.tail - q.head else q.capacity - (q.head - q.tail)

/-- `At` and `operator[]`; a slot outside the storage is never read. -/
def at? (index : ℕ) : Except Fault (Option T) :=
  if index < q.getSize then .ok q.storage[(q.head + index) % q.capacity]? else .error .assertion

def isFull : Except Fault Bool :=
  if q.capacity > 0 then .ok (decide ((q.tail + 1) % q.capacity = q.head)) else .error .assertion

def getFront : Except Fault (Option T) :=
  if q.capacity > 0 then .ok q.storage[q.head]? else .error .assertion

def getRear : Except Fault (Option T) :=
  if q.capacity > 0 then .ok q.storage[(q.tail + (q.capacity - 1)) % q.capacity]? else .error .assertion

end CircularQueue

/-- A bounded queue: its elements, oldest first, and how many were dropped. -/
structure Bounded (T : Type) where
  bound : ℕ := 0
  items : List T := []
  dropped : ℕ := 0

def Bounded.enQueue {T : Type} (g : Bounded T) (item : T) : Bounded T :=
  if g.items.length = g.bound then
    { g with items := g.items.tail ++ [item], dropped := g.dropped + 1 }
  else { g with items := g.items ++ [item] }

def Bounded.deQueue {T : Type} (g : Bounded T) : Bounded T := { g with items := g.items.tail }

/-- Operations on queues with names `K`. -/
inductive Op (K T : Type)
  | new (k : K) (capacity : ℕ)
  | enQueue (k : K) (item : T)
  | deQueue (k : K)
  | copy (k from_ : K)
  | move (k from_ : K)

section Runs
variable {K T : Type} [DecidableEq K] [Inhabited T]

/-- `CopyMoveable` from `other`, whose storage is moved away. -/
def moveQueue (qs : K → CircularQueue T) (k other : K) : K → CircularQueue T :=
  if k = other then qs else Function.update (Function.update qs k (qs other)) other {}

def exec (qs : K → CircularQueue T) : Op K T → Except Fault (K → CircularQueue T)
  | .new k capacity => (CircularQueue.new capacity).map fun q => Function.update qs k q
  | .enQueue k item => ((qs k).enQueue item).map fun q => Function.update qs k q
  | .deQueue k => ((qs k).deQueue).map fun q => Function.update qs k q
  | .copy k other => .ok (Function.update qs k (qs other))
  | .move k other => .ok (moveQueue qs k other)

/-- The same operations on bounded queues. -/
def execBounded (gs : K → Bounded T) : Op K T → K → Bounded T
  | .new k capacity => Function.update gs k { bound := capacity }
  | .enQueue k item => Function.update gs k ((gs k).enQueue item)
  | .deQueue k => Function.update gs k (gs k).deQueue
  | .copy k other => Function.update gs k (gs other)
  | .move k other => if k = other then gs else Function.update (Function.update gs k (gs other)) other {}

def Op.Allowed (gs : K → Bounded T) : Op K T → Prop
  | .new _ capacity => 1 ≤ capacity ∧ capacity < 2 ^ 64
  | .enQueue k _ => 1 ≤ (gs k).bound
  | .deQueue k => (gs k).items ≠ []
  | _ => True

/-- Runs of queues beside the bounded queues that they stand for. -/
def queueRuns (K T : Type) [DecidableEq K] [Inhabited T] :
    System ((K → CircularQueue T) × (K → Bounded T)) (Op K T) where
  init s := s = (fun _ => {}, fun _ => {})
  step s op t := op.Allowed s.2 ∧ exec s.1 op = .ok t.1 ∧ t.2 = execBounded s.2 op

end Runs

section Represents
variable {T : Type} {q : CircularQueue T} {g : Bounded T}

/-- The elements lie from `head` on, around the end of the storage. A queue that
was moved away has no storage, nor has one whose `capacity + 1` wrapped. -/
structure Represents (q : CircularQueue T) (g : Bounded T) : Prop where
  capacity : q.capacity = 0 ∧ g.items = [] ∨ q.capacity = g.bound + 1 ∧ 1 ≤ g.bound
  storage : q.storage.length = q.capacity
  head : q.head ≤ q.capacity - 1
  length : g.items.length ≤ g.bound
  tail : q.tail = (q.head + g.items.length) % q.capacity
  slot : ∀ i, i < g.items.length → q.storage[(q.head + i) % q.capacity]? = g.items[i]?
  counter : q.overrunCounter = UInt64.ofNat g.dropped

lemma represents_empty : Represents ({} : CircularQueue T) {} :=
  ⟨.inl ⟨rfl, rfl⟩, rfl, le_rfl, le_rfl, rfl, by simp, rfl⟩

lemma represents_new [Inhabited T] {capacity : ℕ} (h : 1 ≤ capacity) (hw : capacity < 2 ^ 64)
    (hq : CircularQueue.new capacity = .ok q) : Represents q { bound := capacity } := by
  unfold CircularQueue.new at hq
  dsimp only at hq
  split at hq
  · cases hq
    refine ⟨?_, by simp, by simp, by simp, by simp, by simp, rfl⟩
    dsimp only
    rcases Nat.lt_or_ge (capacity + 1) (2 ^ 64) with hlt | hge
    · rw [Nat.mod_eq_of_lt hlt]
      exact .inr ⟨rfl, h⟩
    · left
      exact ⟨by omega, rfl⟩
  · cases hq

/-- Two places around the storage differ when their distance is short. -/
lemma mod_ne_of_lt {c a i j : ℕ} (hi : i < j) (hj : j < i + c) : (a + i) % c ≠ (a + j) % c := by
  intro h
  have hdvd : c ∣ (a + j) - (a + i) := (Nat.modEq_iff_dvd' (by omega)).mp h
  have hle := Nat.le_of_dvd (by omega) hdvd
  omega

lemma enQueue_represents (h : Represents q g) (hc : 0 < q.capacity) (item : T) :
    ∃ q', q.enQueue item = .ok q' ∧ Represents q' (g.enQueue item) := by
  have hcap : q.capacity = g.bound + 1 ∧ 1 ≤ g.bound := by
    rcases h.capacity with hz | hz
    · omega
    · exact hz
  obtain ⟨hcap, hb⟩ := hcap
  have hhead := h.head
  have hlen := h.length
  have hstorage := h.storage
  have htail : q.tail < q.capacity := by
    rw [h.tail]
    exact Nat.mod_lt _ (by omega)
  have hnext : (q.tail + 1) % q.capacity = (q.head + (g.items.length + 1)) % q.capacity := by
    rw [h.tail, Nat.mod_add_mod, Nat.add_assoc]
  have hput : ∀ i, i < g.items.length →
      (q.storage.set q.tail item)[(q.head + i) % q.capacity]? = g.items[i]? := by
    intro i hi
    have hne : q.tail ≠ (q.head + i) % q.capacity := by
      rw [h.tail]
      exact (mod_ne_of_lt hi (by omega)).symm
    rw [List.getElem?_set_ne hne, h.slot i hi]
  have hlast : (q.storage.set q.tail item)[(q.head + g.items.length) % q.capacity]? = some item := by
    rw [← h.tail, List.getElem?_set_self (by omega)]
  have hall : ∀ i, i < (g.items ++ [item]).length →
      (q.storage.set q.tail item)[(q.head + i) % q.capacity]? = (g.items ++ [item])[i]? := by
    intro i hi
    rw [List.length_append, List.length_singleton] at hi
    rcases Nat.lt_or_ge i g.items.length with hlt | hge
    · rw [hput i hlt, List.getElem?_append_left hlt]
    · obtain rfl : i = g.items.length := by omega
      rw [hlast]
      simp
  unfold CircularQueue.enQueue Bounded.enQueue
  rw [if_pos (by omega)]
  dsimp only
  by_cases hfull : g.items.length = g.bound
  · have hmeet : q.head = (q.tail + 1) % q.capacity := by
      rw [hnext, hfull, ← hcap, Nat.add_mod_right, Nat.mod_eq_of_lt (by omega)]
    rw [if_pos hmeet, if_pos hfull]
    refine ⟨_, rfl, .inr ⟨hcap, hb⟩, by simpa using hstorage, ?_, ?_, ?_, ?_, ?_⟩
    · have hlt := Nat.mod_lt (q.head + 1) (show 0 < q.capacity by omega)
      dsimp only
      omega
    · simp only [List.length_append, List.length_tail, List.length_singleton]
      omega
    · dsimp only
      rw [hnext, Nat.mod_add_mod]
      congr 1
      simp only [List.length_append, List.length_tail, List.length_singleton]
      omega
    · intro i hi
      simp only [List.length_append, List.length_tail, List.length_singleton] at hi
      dsimp only
      rw [Nat.mod_add_mod, Nat.add_assoc, hall (1 + i) (by simp; omega)]
      cases hitems : g.items with
      | nil =>
        rw [hitems] at hfull
        simp at hfull
        omega
      | cons x xs => simp [Nat.add_comm 1 i]
    · dsimp only
      rw [h.counter, UInt64.ofNat_add]
      rfl
  · have hapart : q.head ≠ (q.tail + 1) % q.capacity := by
      have hne := @mod_ne_of_lt q.capacity q.head 0 (g.items.length + 1) (by omega) (by omega)
      rw [Nat.add_zero, Nat.mod_eq_of_lt (by omega)] at hne
      rw [hnext]
      exact hne
    rw [if_neg hapart, if_neg hfull]
    refine ⟨_, rfl, .inr ⟨hcap, hb⟩, by simpa using hstorage, hhead, ?_, ?_, hall, h.counter⟩
    · simp only [List.length_append, List.length_singleton]
      omega
    · simp only [List.length_append, List.length_singleton]
      exact hnext

lemma isEmpty_iff (h : Represents q g) : q.isEmpty = true ↔ g.items = [] := by
  have hhead := h.head
  have hlen := h.length
  have hcap := h.capacity
  rw [CircularQueue.isEmpty, decide_eq_true_eq, h.tail]
  constructor
  · intro he
    by_contra hne
    have hpos := List.length_pos_iff.mpr hne
    rw [or_iff_right (fun hz => hne hz.2)] at hcap
    have hmod := @mod_ne_of_lt q.capacity q.head 0 g.items.length hpos (by omega)
    rw [Nat.add_zero, Nat.mod_eq_of_lt (show q.head < q.capacity by omega)] at hmod
    exact hmod he.symm
  · intro hnil
    rw [hnil, List.length_nil, Nat.add_zero]
    rcases hcap with hz | hz
    · rw [hz.1, Nat.mod_zero]
    · exact Nat.mod_eq_of_lt (by omega)

lemma deQueue_represents (h : Represents q g) (hne : g.items ≠ []) :
    ∃ q', q.deQueue = .ok q' ∧ Represents q' g.deQueue := by
  have hhead := h.head
  have hlen := h.length
  have hcap := h.capacity
  have hpos := List.length_pos_iff.mpr hne
  have hempty : ¬ q.isEmpty = true := fun he => hne ((isEmpty_iff h).mp he)
  rw [or_iff_right (fun hz => hne hz.2)] at hcap
  unfold CircularQueue.deQueue
  rw [if_neg hempty]
  refine ⟨_, rfl, .inr hcap, h.storage, ?_, ?_, ?_, ?_, h.counter⟩
  · have hlt := Nat.mod_lt (q.head + 1) (show 0 < q.capacity by omega)
    dsimp only
    omega
  · simp only [Bounded.deQueue, List.length_tail]
    omega
  · simp only [Bounded.deQueue, List.length_tail]
    rw [h.tail, Nat.mod_add_mod]
    congr 1
    omega
  · intro i hi
    simp only [Bounded.deQueue, List.length_tail] at hi ⊢
    rw [Nat.mod_add_mod, Nat.add_assoc, h.slot (1 + i) (by omega)]
    cases hitems : g.items with
    | nil => exact absurd hitems hne
    | cons x xs => simp [Nat.add_comm 1 i]

end Represents

end TyphoonZero.CircularQueue
