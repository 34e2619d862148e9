import TyphoonZero.Transition

/-! The multi-producer multi-consumer queue: its operations under the lock, and runs
of any number of threads that call them. -/
namespace TyphoonZero.MPMCQueue
open Transition

structure MPMCQueue (T : Type) where
  queue : List T := []
  shutdown : Bool := false

namespace MPMCQueue
variable {T : Type} (q : MPMCQueue T)

def enqueue (value : T) : MPMCQueue T := { q with queue := q.queue ++ [value] }

/-- The end of `Dequeue` and `DequeueWait`: the value that is returned, if any. -/
def dequeue : Option T × MPMCQueue T :=
  match q.queue, q.shutdown with
  | value :: rest, false => (some value, { q with queue := rest })
  | _, _ => (none, q)

/-- The condition on which `DequeueWait` waits. -/
def waits : Bool := q.queue.isEmpty && !q.shutdown

/-- The values that are deleted, and the queue afterwards. -/
def cancel : List T × MPMCQueue T := (q.queue, { queue := [], shutdown := true })

end MPMCQueue

/-- What a thread does when it holds the lock; `wake` is a thread that returns from
its wait, after a notification or without one. -/
inductive Op (K T : Type)
  | enqueue (k : K) (value : T)
  | dequeue (k : K)
  | dequeueWait (k : K)
  | wake (k : K)
  | cancel (k : K)

/-- The queue, the threads that wait, and the record of the run: the values that were
enqueued, returned (to which thread) and deleted, and those returned before `Cancel`. -/
structure Runs (K T : Type) where
  q : MPMCQueue T := {}
  waiting : K → Bool := fun _ => false
  enqueued : List T := []
  returned : List (K × T) := []
  disposed : List T := []
  beforeCancel : Option (List (K × T)) := none

section Steps
variable {K T : Type} [DecidableEq K]

def Runs.pop (s : Runs K T) (k : K) : Runs K T :=
  { s with
    q := s.q.dequeue.2
    waiting := Function.update s.waiting k false
    returned := s.returned ++ (s.q.dequeue.1.map fun value => (k, value)).toList }

def Runs.popOrWait (s : Runs K T) (k : K) : Runs K T :=
  if s.q.waits then { s with waiting := Function.update s.waiting k true } else s.pop k

def exec (s : Runs K T) : Op K T → Option (Runs K T)
  | .enqueue k value =>
    if s.waiting k then none
    else some { s with q := s.q.enqueue value, enqueued := s.enqueued ++ [value] }
  | .dequeue k => if s.waiting k then none else some (s.pop k)
  | .dequeueWait k => if s.waiting k then none else some (s.popOrWait k)
  | .wake k => if s.waiting k then some (s.popOrWait k) else none
  | .cancel k =>
    -- there is one `Cancel`
    if s.waiting k || s.q.shutdown then none
    else some { s with
      q := s.q.cancel.2, disposed := s.disposed ++ s.q.cancel.1, beforeCancel := some s.returned }

def mpmcRuns (K T : Type) [DecidableEq K] : System (Runs K T) (Op K T) where
  init s := s = {}
  step s op t := exec s op = some t

end Steps

section Delivery
variable {K T : Type}

/-- The values leave in the order in which they came, each to one thread or to
`Cancel`; after `Cancel` nothing is returned and nothing is left. -/
structure Runs.Delivers (s : Runs K T) : Prop where
  order : s.enqueued = s.returned.map Prod.snd ++ s.disposed ++ s.q.queue
  silent : ∀ values, s.beforeCancel = some values → s.returned = values
  empty : s.beforeCancel.isSome → s.q.queue = []

/-- No value is enqueued after `Cancel`. -/
def NoLateEnqueue (s : Runs K T) : Op K T → Prop
  | .enqueue _ _ => s.q.shutdown = false
  | _ => True

/-- What holds in every run, late values or not. -/
structure Runs.Inv (s : Runs K T) : Prop where
  order : s.enqueued = s.returned.map Prod.snd ++ s.disposed ++ s.q.queue
  silent : ∀ values, s.beforeCancel = some values → s.returned = values
  shutdown : s.beforeCancel.isSome = s.q.shutdown
  disposed : s.q.shutdown = false → s.disposed = []

variable [DecidableEq K] {s t : Runs K T}

lemma dequeue_cases (q : MPMCQueue T) :
    (∃ value, q.dequeue.1 = some value ∧ q.queue = value :: q.dequeue.2.queue ∧
      q.shutdown = false ∧ q.dequeue.2.shutdown = false) ∨ q.dequeue = (none, q) := by
  obtain ⟨queue, shutdown⟩ := q
  cases queue with
  | nil => exact .inr rfl
  | cons value rest =>
    cases shutdown with
    | false => exact .inl ⟨value, rfl, rfl, rfl, rfl⟩
    | true => exact .inr rfl

lemma pop_inv (h : s.Inv) (k : K) : (s.pop k).Inv := by
  obtain ⟨value, hv, hq, hs, hs'⟩ | hnone := dequeue_cases s.q
  · have hd := h.disposed hs
    refine ⟨?_, ?_, ?_, fun _ => hd⟩
    · simp only [Runs.pop, hv]
      rw [h.order, hd, hq]
      simp
    · intro values hvalues
      have hcancel := h.shutdown
      rw [hs, show s.beforeCancel = some values from hvalues] at hcancel
      cases hcancel
    · simp only [Runs.pop, hs']
      rw [h.shutdown, hs]
  · have hpop : s.pop k = { s with waiting := Function.update s.waiting k false } := by
      simp [Runs.pop, hnone]
    rw [hpop]
    exact ⟨h.order, h.silent, h.shutdown, h.disposed⟩

lemma popOrWait_inv (h : s.Inv) (k : K) : (s.popOrWait k).Inv := by
  unfold Runs.popOrWait
  split_ifs
  · exact ⟨h.order, h.silent, h.shutdown, h.disposed⟩
  · exact pop_inv h k

lemma exec_inv {op : Op K T} (h : s.Inv) (hs : exec s op = some t) : t.Inv := by
  cases op with
  | enqueue k value =>
    simp only [exec] at hs
    split_ifs at hs
    cases hs
    refine ⟨?_, h.silent, h.shutdown, h.disposed⟩
    simp [MPMCQueue.enqueue, h.order]
  | dequeue k =>
    simp only [exec] at hs
    split_ifs at hs
    cases hs
    exact pop_inv h k
  | dequeueWait k =>
    simp only [exec] at hs
    split_ifs at hs
    cases hs
    exact popOrWait_inv h k
  | wake k =>
    simp only [exec] at hs
    split_ifs at hs
    cases hs
    exact popOrWait_inv h k
  | cancel k =>
    simp only [exec] at hs
    split_ifs at hs with hc
    cases hs
    refine ⟨?_, ?_, rfl, ?_⟩
    · simp [MPMCQueue.cancel, h.order]
    · intro values hvalues
      cases hvalues
      rfl
    · intro hfalse
      cases hfalse

theorem mpmc_inv (h : Reachable (mpmcRuns K T) s) : s.Inv := by
  apply h.invariant
  · intro a ha
    cases ha
    refine ⟨rfl, ?_, rfl, fun _ => rfl⟩
    intro values hvalues
    cases hvalues
  · intro _ _ _ hi hs
    exact exec_inv hi hs

omit [DecidableEq K] in
lemma Runs.Inv.delivers (h : s.Inv) (he : s.q.shutdown = true → s.q.queue = []) : s.Delivers := by
  refine ⟨h.order, h.silent, ?_⟩
  rw [h.shutdown]
  exact he

lemma pop_empty (k : K) (he : s.q.shutdown = true → s.q.queue = []) :
    (s.pop k).q.shutdown = true → (s.pop k).q.queue = [] := by
  intro hs
  simp only [Runs.pop] at hs ⊢
  obtain ⟨_, _, _, _, hs'⟩ | hnone := dequeue_cases s.q
  · rw [hs'] at hs
    cases hs
  · rw [hnone] at hs ⊢
    exact he hs

lemma popOrWait_empty (k : K) (he : s.q.shutdown = true → s.q.queue = []) :
    (s.popOrWait k).q.shutdown = true → (s.popOrWait k).q.queue = [] := by
  unfold Runs.popOrWait
  split_ifs
  · exact he
  · exact pop_empty k he

lemma exec_empty {op : Op K T} (hc : NoLateEnqueue s op) (he : s.q.shutdown = true → s.q.queue = [])
    (hs : exec s op = some t) : t.q.shutdown = true → t.q.queue = [] := by
  cases op with
  | enqueue k value =>
    simp only [exec] at hs
    split_ifs at hs
    cases hs
    intro hshut
    have hopen : s.q.shutdown = false := hc
    exact absurd hshut (by simp [MPMCQueue.enqueue, hopen])
  | dequeue k =>
    simp only [exec] at hs
    split_ifs at hs
    cases hs
    exact pop_empty k he
  | dequeueWait k =>
    simp only [exec] at hs
    split_ifs at hs
    cases hs
    exact popOrWait_empty k he
  | wake k =>
    simp only [exec] at hs
    split_ifs at hs
    cases hs
    exact popOrWait_empty k he
  | cancel k =>
    simp only [exec] at hs
    split_ifs at hs
    cases hs
    exact fun _ => rfl

/-- In every run without an `Enqueue` after `Cancel` no value is lost, duplicated,
reordered or left behind. -/
theorem mpmc_delivers (h : Reachable ((mpmcRuns K T).restrict NoLateEnqueue) s) : s.Delivers := by
  have hempty : s.q.shutdown = true → s.q.queue = [] := by
    apply h.invariant
    · intro a ha
      cases ha
      exact fun _ => rfl
    · intro _ _ _ he hs
      exact exec_empty hs.1 he hs.2
  exact (mpmc_inv h.of_restrict).delivers hempty

end Delivery

/-- Thread 1 waits, gets the first value, and the second one is deleted. -/
theorem mpmc_delivers_cancel : ∃ s : Runs (Fin 2) ℕ, Reachable ((mpmcRuns (Fin 2) ℕ).restrict NoLateEnqueue) s ∧
    s.enqueued = [7, 8] ∧ s.returned = [(1, 7)] ∧ s.disposed = [8] ∧ s.Delivers := by
  have h0 : Reachable ((mpmcRuns (Fin 2) ℕ).restrict NoLateEnqueue) {} := .init rfl
  have h1 := @Reachable.step _ _ _ (Op.dequeueWait 1) _ _ h0 ⟨trivial, rfl⟩
  have h2 := @Reachable.step _ _ _ (Op.enqueue 0 7) _ _ h1 ⟨rfl, rfl⟩
  have h3 := @Reachable.step _ _ _ (Op.wake 1) _ _ h2 ⟨trivial, rfl⟩
  have h4 := @Reachable.step _ _ _ (Op.enqueue 0 8) _ _ h3 ⟨rfl, rfl⟩
  have h5 := @Reachable.step _ _ _ (Op.cancel 0) _ _ h4 ⟨trivial, rfl⟩
  exact ⟨_, h5, rfl, rfl, rfl, mpmc_delivers h5⟩

/-- A value that is enqueued after `Cancel` stays in the queue. -/
theorem late_enqueue_stays :
    ∃ s : Runs Unit ℕ, Reachable (mpmcRuns Unit ℕ) s ∧ s.beforeCancel = some [] ∧
      s.enqueued = [7] ∧ s.q.queue = [7] ∧ ¬ s.Delivers := by
  have h0 : Reachable (mpmcRuns Unit ℕ) {} := .init rfl
  have h1 := @Reachable.step _ _ _ (Op.cancel ()) _ _ h0 rfl
  have h2 := @Reachable.step _ _ _ (Op.enqueue () 7) _ _ h1 rfl
  refine ⟨_, h2, rfl, rfl, rfl, ?_⟩
  intro h
  cases h.empty rfl

end TyphoonZero.MPMCQueue
