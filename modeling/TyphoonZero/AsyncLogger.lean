import TyphoonZero.MPMCQueue

/-! The asynchronous logger: messages are put as tasks into the queue of a thread pool, whose
workers hand them to the appenders one after the other, until `Shutdown` destroys the pool. -/
namespace TyphoonZero.AsyncLogger
open Transition MPMCQueue

inductive LogLevel
  | off
  | trace
  | debug
  | info
  | warn
  | error
  | fatal
  deriving DecidableEq

def LogLevel.toNat : LogLevel → ℕ
  | .off => 0
  | .trace => 1
  | .debug => 2
  | .info => 3
  | .warn => 4
  | .error => 5
  | .fatal => 6

structure LogMsg (P : Type) where
  level : LogLevel
  payload : P

structure Appender where
  level : LogLevel

def Appender.shouldLog (appender : Appender) (level : LogLevel) : Bool :=
  appender.level ≠ .off ∧ appender.level.toNat ≤ level.toNat

/-- A message on its way; `seq` is its place among the messages logged. -/
inductive Task (P : Type)
  | log (seq : ℕ) (msg : LogMsg P)
  | flush

/-- `next` is the appender that the loop of a running task comes to. -/
inductive Worker (P : Type)
  | idle
  | waiting
  | running (task : Task P) (next : ℕ)
  | exited

def Worker.isExited {P : Type} : Worker P → Bool
  | .exited => true
  | _ => false

/-- How far the thread that logs has come: `Shutdown` flushes, cancels the queue of the pool and
joins the workers. -/
inductive Phase
  | logging
  | flushed
  | cancelled
  | returned
  deriving DecidableEq

/-- What an appender received is kept with the places of the messages. -/
structure State (n : ℕ) (P : Type) where
  q : MPMCQueue (Task P) := {}
  worker : Fin n → Worker P := fun _ => .idle
  phase : Phase := .logging
  logged : List (LogMsg P) := []
  received : ℕ → List (ℕ × LogMsg P) := fun _ => []

inductive Op (n : ℕ) (P : Type)
  | appenderDoLog (msg : LogMsg P)
  | appenderDoFlush
  | flushAll
  | cancel
  | join
  | dequeueWait (w : Fin n)
  | wake (w : Fin n)
  | backend (w : Fin n)

section Steps
variable {n : ℕ} {P : Type} (appenders : List Appender)

/-- The appender at `i` is there and logs the message. -/
def takes (i : ℕ) (msg : LogMsg P) : Bool := appenders[i]?.any (·.shouldLog msg.level)

/-- The loop of a synchronous logger over its appenders. -/
def syncAppenderDoLog (received : ℕ → List (LogMsg P)) (msg : LogMsg P) : ℕ → List (LogMsg P) :=
  (List.range appenders.length).foldl (fun received i =>
    if takes appenders i msg then Function.update received i (received i ++ [msg]) else received)
    received

namespace State
variable (s : State n P)

def setWorker (w : Fin n) (x : Worker P) : State n P :=
  { s with worker := Function.update s.worker w x }

/-- `DequeueWait` under the lock: the worker waits, has a task, or has none and ends. -/
def take (w : Fin n) : State n P :=
  if s.q.waits then s.setWorker w .waiting
  else match s.q.dequeue.1 with
    | some task => { s with q := s.q.dequeue.2 }.setWorker w (.running task 0)
    | none => { s with q := s.q.dequeue.2 }.setWorker w .exited

/-- The body of the loop of `BlackendDoLog` for the appender at `i`. -/
def deliver (seq : ℕ) (msg : LogMsg P) (i : ℕ) : State n P :=
  if takes appenders i msg then
    { s with received := Function.update s.received i (s.received i ++ [(seq, msg)]) }
  else s

end State

/-- Flushing hands no message to an appender. The flusher may do it until `Shutdown` has stopped it. -/
def exec (s : State n P) : Op n P → Option (State n P)
  | .appenderDoLog msg =>
    if s.phase = .logging then
      some { s with q := s.q.enqueue (.log s.logged.length msg), logged := s.logged ++ [msg] }
    else none
  | .appenderDoFlush =>
    if s.phase = .logging ∨ s.phase = .flushed then some { s with q := s.q.enqueue .flush } else none
  | .flushAll =>
    if s.phase = .logging then some { s with q := s.q.enqueue .flush, phase := .flushed } else none
  | .cancel =>
    if s.phase = .flushed then some { s with q := s.q.cancel.2, phase := .cancelled } else none
  | .join =>
    if s.phase = .cancelled ∧ ∀ w, (s.worker w).isExited then some { s with phase := .returned }
    else none
  | .dequeueWait w =>
    match s.worker w with
    | .idle => some (s.take w)
    | _ => none
  | .wake w =>
    match s.worker w with
    | .waiting => some (s.take w)
    | _ => none
  | .backend w =>
    match s.worker w with
    | .running (.log seq msg) next =>
      if next < appenders.length then
        some ((s.deliver appenders seq msg next).setWorker w (.running (.log seq msg) (next + 1)))
      else some (s.setWorker w .idle)
    | .running .flush _ => some (s.setWorker w .idle)
    | _ => none

def asyncRuns (n : ℕ) (P : Type) : System (State n P) (Op n P) where
  init s := s = {}
  step s op t := exec appenders s op = some t

/-- No message that an appender would log is cancelled, and no worker hands a message to an
appender to which another worker has an earlier one still to hand. -/
def InOrder (s : State n P) : Op n P → Prop
  | .cancel => ∀ seq msg, .log seq msg ∈ s.q.queue → ∀ i, takes appenders i msg = false
  | .backend w => ∀ seq msg i, s.worker w = .running (.log seq msg) i → takes appenders i msg →
      ∀ w' seq' msg' next, s.worker w' = .running (.log seq' msg') next → next ≤ i →
        takes appenders i msg' → seq ≤ seq'
  | _ => True

end Steps

/-- The order of messages by their places. -/
def Task.Before {P : Type} : Task P → Task P → Prop
  | .log seq _, .log seq' _ => seq < seq'
  | _, _ => True

section Invariant
variable {n : ℕ} {P : Type}

/-- Where the messages are: in the queue, with a worker that has still to hand them to an
appender, or received, and in this order of their places backwards. -/
structure Inv (appenders : List Appender) (s : State n P) : Prop where
  queue : ∀ seq msg, .log seq msg ∈ s.q.queue → s.logged[seq]? = some msg
  queueSorted : s.q.queue.Pairwise Task.Before
  worker : ∀ w seq msg next, s.worker w = .running (.log seq msg) next →
    s.logged[seq]? = some msg ∧ ∀ task ∈ s.q.queue, Task.Before (.log seq msg) task
  distinct : ∀ w w' seq msg msg' next next', s.worker w = .running (.log seq msg) next →
    s.worker w' = .running (.log seq msg') next' → w = w'
  received : ∀ i seq msg, (seq, msg) ∈ s.received i → s.logged[seq]? = some msg ∧
    takes appenders i msg ∧ ∀ task ∈ s.q.queue, Task.Before (.log seq msg) task
  receivedSorted : ∀ i, (s.received i).Pairwise fun x y => x.1 < y.1
  receivedBefore : ∀ i w seq msg next, s.worker w = .running (.log seq msg) next → next ≤ i →
    takes appenders i msg → ∀ x ∈ s.received i, x.1 < seq
  complete : ∀ i seq msg, s.logged[seq]? = some msg → takes appenders i msg →
    (seq, msg) ∈ s.received i ∨
      (∃ w next, s.worker w = .running (.log seq msg) next ∧ next ≤ i) ∨
      .log seq msg ∈ s.q.queue

/-- The queue is empty once it is cancelled, and the workers are done once they are joined. -/
structure Closed (s : State n P) : Prop where
  cancelled : s.phase = .cancelled ∨ s.phase = .returned → s.q.queue = []
  returned : s.phase = .returned → ∀ w, s.worker w = .exited

variable {appenders : List Appender} {s t : State n P}

lemma takes_lt {i : ℕ} {msg : LogMsg P} (h : takes appenders i msg) : i < appenders.length := by
  unfold takes at h
  by_contra hle
  have hnone : appenders[i]? = none := List.getElem?_eq_none (by omega)
  simp [hnone] at h

lemma setWorker_self (w : Fin n) (x : Worker P) : (s.setWorker w x).worker w = x := by
  simp [State.setWorker]

lemma setWorker_ne {w w' : Fin n} (h : w' ≠ w) (x : Worker P) :
    (s.setWorker w x).worker w' = s.worker w' := by
  simp [State.setWorker, h]

namespace Inv

/-- The phase is not looked at. -/
lemma setPhase (h : Inv appenders s) (phase : Phase) : Inv appenders { s with phase := phase } :=
  ⟨h.queue, h.queueSorted, h.worker, h.distinct, h.received, h.receivedSorted, h.receivedBefore,
    h.complete⟩

/-- Tasks leave the queue that hold no message for an appender. -/
lemma dropTasks (h : Inv appenders s) {q : MPMCQueue (Task P)}
    (hsub : q.queue.Sublist s.q.queue)
    (hkeep : ∀ seq msg i, .log seq msg ∈ s.q.queue → takes appenders i msg →
      .log seq msg ∈ q.queue) : Inv appenders { s with q := q } where
  queue seq msg hmem := h.queue seq msg (hsub.mem hmem)
  queueSorted := h.queueSorted.sublist hsub
  worker w seq msg next hw :=
    ⟨(h.worker w seq msg next hw).1, fun task ht => (h.worker w seq msg next hw).2 task (hsub.mem ht)⟩
  distinct := h.distinct
  received i seq msg hr :=
    ⟨(h.received i seq msg hr).1, (h.received i seq msg hr).2.1,
      fun task ht => (h.received i seq msg hr).2.2 task (hsub.mem ht)⟩
  receivedSorted := h.receivedSorted
  receivedBefore := h.receivedBefore
  complete i seq msg hlog ht := by
    obtain hr | hw | hq := h.complete i seq msg hlog ht
    · exact .inl hr
    · exact .inr (.inl hw)
    · exact .inr (.inr (hkeep seq msg i hq ht))

lemma enqueueFlush (h : Inv appenders s) : Inv appenders { s with q := s.q.enqueue .flush } := by
  have hlog : ∀ {seq msg}, .log seq msg ∈ (s.q.enqueue .flush).queue →
      .log seq msg ∈ s.q.queue := by
    intro seq msg hmem
    simpa [MPMCQueue.enqueue] using hmem
  have hbefore : ∀ {seq : ℕ} {msg : LogMsg P}, (∀ task ∈ s.q.queue, Task.Before (.log seq msg) task) →
      ∀ task ∈ (s.q.enqueue .flush).queue, Task.Before (.log seq msg) task := by
    intro seq msg hall task hmem
    cases task with
    | log seq' msg' => exact hall _ (hlog hmem)
    | flush => trivial
  constructor
  · exact fun seq msg hmem => h.queue seq msg (hlog hmem)
  · apply List.pairwise_append.mpr
    refine ⟨h.queueSorted, List.pairwise_singleton _ _, ?_⟩
    intro x _ y hy
    obtain rfl := List.mem_singleton.mp hy
    cases x <;> trivial
  · intro w seq msg next hw
    obtain ⟨hlogged, hall⟩ := h.worker w seq msg next hw
    exact ⟨hlogged, hbefore hall⟩
  · exact h.distinct
  · intro i seq msg hr
    obtain ⟨hlogged, ht, hall⟩ := h.received i seq msg hr
    exact ⟨hlogged, ht, hbefore hall⟩
  · exact h.receivedSorted
  · exact h.receivedBefore
  · intro i seq msg hlogged ht
    obtain hr | hw | hq := h.complete i seq msg hlogged ht
    · exact .inl hr
    · exact .inr (.inl hw)
    · exact .inr (.inr (by simp [MPMCQueue.enqueue, hq]))

/-- A new message has the last place. -/
lemma enqueueLog (h : Inv appenders s) (msg : LogMsg P) :
    Inv appenders { s with
      q := s.q.enqueue (.log s.logged.length msg), logged := s.logged ++ [msg] } := by
  have hgrow : ∀ {seq : ℕ} {m : LogMsg P}, s.logged[seq]? = some m →
      seq < s.logged.length ∧ (s.logged ++ [msg])[seq]? = some m := by
    intro seq m hlogged
    obtain ⟨hlt, -⟩ := List.getElem?_eq_some_iff.mp hlogged
    exact ⟨hlt, by rw [List.getElem?_append_left hlt, hlogged]⟩
  have hbefore : ∀ {seq : ℕ} {m : LogMsg P}, seq < s.logged.length →
      (∀ task ∈ s.q.queue, Task.Before (.log seq m) task) →
      ∀ task ∈ s.q.queue ++ [.log s.logged.length msg], Task.Before (.log seq m) task := by
    intro seq m hlt hall task hmem
    rcases List.mem_append.mp hmem with hmem | hmem
    · exact hall task hmem
    · obtain rfl := List.mem_singleton.mp hmem
      exact hlt
  constructor
  · intro seq m hmem
    rcases List.mem_append.mp hmem with hmem | hmem
    · exact (hgrow (h.queue seq m hmem)).2
    · obtain ⟨rfl, rfl⟩ := Task.log.inj (List.mem_singleton.mp hmem)
      simp
  · apply List.pairwise_append.mpr
    refine ⟨h.queueSorted, List.pairwise_singleton _ _, ?_⟩
    intro x hx y hy
    obtain rfl := List.mem_singleton.mp hy
    cases x with
    | log seq m => exact (hgrow (h.queue seq m hx)).1
    | flush => trivial
  · intro w seq m next hw
    obtain ⟨hlogged, hall⟩ := h.worker w seq m next hw
    exact ⟨(hgrow hlogged).2, hbefore (hgrow hlogged).1 hall⟩
  · exact h.distinct
  · intro i seq m hr
    obtain ⟨hlogged, ht, hall⟩ := h.received i seq m hr
    exact ⟨(hgrow hlogged).2, ht, hbefore (hgrow hlogged).1 hall⟩
  · exact h.receivedSorted
  · exact h.receivedBefore
  · intro i seq m hlogged ht
    by_cases hlt : seq < s.logged.length
    · have hold : s.logged[seq]? = some m := by
        have hget : (s.logged ++ [msg])[seq]? = some m := hlogged
        rwa [List.getElem?_append_left hlt] at hget
      obtain hr | hw | hq := h.complete i seq m hold ht
      · exact .inl hr
      · exact .inr (.inl hw)
      · exact .inr (.inr (List.mem_append_left _ hq))
    · have hget : (s.logged ++ [msg])[seq]? = some m := hlogged
      rw [List.getElem?_append_right (by omega)] at hget
      obtain ⟨hzero, heq⟩ := List.getElem?_eq_some_iff.mp hget
      have hseq : seq = s.logged.length := by
        simp at hzero
        omega
      subst hseq
      have hm : msg = m := by simpa using heq
      subst hm
      exact .inr (.inr (List.mem_append_right _ List.mem_cons_self))

/-- A worker that has no message for any appender left turns to something else. -/
lemma leave (h : Inv appenders s) {w : Fin n} {x : Worker P}
    (hold : ∀ seq msg next, s.worker w = .running (.log seq msg) next → appenders.length ≤ next)
    (hx : ∀ seq msg next, x ≠ .running (.log seq msg) next) : Inv appenders (s.setWorker w x) := by
  have hother : ∀ {w' seq msg next}, (s.setWorker w x).worker w' = .running (.log seq msg) next →
      s.worker w' = .running (.log seq msg) next := by
    intro w' seq msg next hw'
    by_cases hww : w' = w
    · subst hww
      rw [setWorker_self] at hw'
      exact absurd hw' (hx seq msg next)
    · rwa [setWorker_ne hww] at hw'
  constructor
  · exact h.queue
  · exact h.queueSorted
  · exact fun w' seq msg next hw' => h.worker w' seq msg next (hother hw')
  · exact fun w' w'' seq msg msg' next next' hw' hw'' =>
      h.distinct w' w'' seq msg msg' next next' (hother hw') (hother hw'')
  · exact h.received
  · exact h.receivedSorted
  · exact fun i w' seq msg next hw' => h.receivedBefore i w' seq msg next (hother hw')
  · intro i seq msg hlogged ht
    obtain hr | ⟨w', next, hw', hle⟩ | hq := h.complete i seq msg hlogged ht
    · exact .inl hr
    · have hww : w' ≠ w := by
        rintro rfl
        have hdone := hold seq msg next hw'
        have hlt := takes_lt ht
        omega
      exact .inr (.inl ⟨w', next, by rw [setWorker_ne hww, hw'], hle⟩)
    · exact .inr (.inr hq)

/-- The first message of the queue is after all that left it before. -/
lemma takeLog (h : Inv appenders s) {w : Fin n} {seq : ℕ} {msg : LogMsg P}
    {q : MPMCQueue (Task P)} (hq : s.q.queue = .log seq msg :: q.queue)
    (hw : ∀ seq msg next, s.worker w ≠ .running (.log seq msg) next) :
    Inv appenders (State.setWorker { s with q := q } w (.running (.log seq msg) 0)) := by
  have hsorted := h.queueSorted
  rw [hq] at hsorted
  obtain ⟨hfirst, hrest⟩ := List.pairwise_cons.mp hsorted
  have hhead : Task.log seq msg ∈ s.q.queue := by simp [hq]
  have htail : ∀ task ∈ q.queue, task ∈ s.q.queue := fun task ht => by simp [hq, ht]
  constructor
  · exact fun seq' msg' hmem => h.queue seq' msg' (htail _ hmem)
  · exact hrest
  · intro w' seq' msg' next hw'
    by_cases hww : w' = w
    · subst hww
      rw [setWorker_self] at hw'
      cases hw'
      exact ⟨h.queue seq msg hhead, hfirst⟩
    · rw [setWorker_ne hww] at hw'
      obtain ⟨hlogged, hall⟩ := h.worker w' seq' msg' next hw'
      exact ⟨hlogged, fun task ht => hall task (htail task ht)⟩
  · intro w' w'' seq' msg' msg'' next next' hw' hw''
    have hlate : ∀ {v m k}, v ≠ w → s.worker v = .running (.log seq' m) k → seq' ≠ seq := by
      intro v m k _ hv
      have hlt : seq' < seq := (h.worker v seq' m k hv).2 _ hhead
      omega
    by_cases hww : w' = w
    · by_cases hww' : w'' = w
      · rw [hww, hww']
      · subst hww
        rw [setWorker_self] at hw'
        rw [setWorker_ne hww'] at hw''
        cases hw'
        exact absurd rfl (hlate hww' hw'')
    · rw [setWorker_ne hww] at hw'
      by_cases hww' : w'' = w
      · subst hww'
        rw [setWorker_self] at hw''
        cases hw''
        exact absurd rfl (hlate hww hw')
      · rw [setWorker_ne hww'] at hw''
        exact h.distinct w' w'' seq' msg' msg'' next next' hw' hw''
  · intro i seq' msg' hr
    obtain ⟨hlogged, ht, hall⟩ := h.received i seq' msg' hr
    exact ⟨hlogged, ht, fun task htask => hall task (htail task htask)⟩
  · exact h.receivedSorted
  · intro i w' seq' msg' next hw' hle ht x hx
    by_cases hww : w' = w
    · subst hww
      rw [setWorker_self] at hw'
      cases hw'
      exact (h.received i x.1 x.2 hx).2.2 _ hhead
    · rw [setWorker_ne hww] at hw'
      exact h.receivedBefore i w' seq' msg' next hw' hle ht x hx
  · intro i seq' msg' hlogged ht
    obtain hr | ⟨w', next, hw', hle⟩ | hmem := h.complete i seq' msg' hlogged ht
    · exact .inl hr
    · have hww : w' ≠ w := by
        rintro rfl
        exact hw seq' msg' next hw'
      exact .inr (.inl ⟨w', next, by rw [setWorker_ne hww]; exact hw', hle⟩)
    · rw [hq] at hmem
      rcases List.mem_cons.mp hmem with heq | hmem
      · obtain ⟨rfl, rfl⟩ := Task.log.inj heq
        exact .inr (.inl ⟨w, 0, setWorker_self w _, Nat.zero_le i⟩)
      · exact .inr (.inr hmem)

lemma mem_deliver {seq : ℕ} {msg : LogMsg P} {next i : ℕ} {x : ℕ × LogMsg P} :
    x ∈ (s.deliver appenders seq msg next).received i ↔
      x ∈ s.received i ∨ (i = next ∧ takes appenders next msg ∧ x = (seq, msg)) := by
  unfold State.deliver
  split
  next ht =>
    by_cases hi : i = next
    · subst hi
      simp [ht]
    · simp [hi]
  next ht => simp [ht]

lemma deliver_frame (seq : ℕ) (msg : LogMsg P) (next : ℕ) :
    (s.deliver appenders seq msg next).q = s.q ∧
      (s.deliver appenders seq msg next).logged = s.logged ∧
      (s.deliver appenders seq msg next).worker = s.worker := by
  unfold State.deliver
  split <;> exact ⟨rfl, rfl, rfl⟩

/-- A message is received after all earlier ones for the appender, if none of them is still with
another worker. -/
lemma deliver (h : Inv appenders s) {w : Fin n} {seq : ℕ} {msg : LogMsg P} {next : ℕ}
    (hw : s.worker w = .running (.log seq msg) next)
    (horder : takes appenders next msg → ∀ w' seq' msg' k,
      s.worker w' = .running (.log seq' msg') k → k ≤ next → takes appenders next msg' →
        seq ≤ seq') :
    Inv appenders ((s.deliver appenders seq msg next).setWorker w
      (.running (.log seq msg) (next + 1))) := by
  obtain ⟨hqueue, hlog, hworker⟩ := @deliver_frame _ _ appenders s seq msg next
  -- what a worker holds afterwards it held before, at most one appender earlier
  have hback : ∀ {w' seq' msg' k},
      ((s.deliver appenders seq msg next).setWorker w
        (.running (.log seq msg) (next + 1))).worker w' = .running (.log seq' msg') k →
      ∃ k', s.worker w' = .running (.log seq' msg') k' ∧ k' ≤ k ∧ (w' = w → k' = next ∧ k = next + 1) := by
    intro w' seq' msg' k hw'
    by_cases hww : w' = w
    · subst hww
      rw [setWorker_self] at hw'
      cases hw'
      exact ⟨next, hw, by omega, fun _ => ⟨rfl, rfl⟩⟩
    · rw [setWorker_ne hww, hworker] at hw'
      exact ⟨k, hw', le_refl k, fun heq => absurd heq hww⟩
  have hqueue' : ((s.deliver appenders seq msg next).setWorker w
      (.running (.log seq msg) (next + 1))).q = s.q := hqueue
  have hlog' : ((s.deliver appenders seq msg next).setWorker w
      (.running (.log seq msg) (next + 1))).logged = s.logged := hlog
  constructor
  · rw [hqueue', hlog']
    exact h.queue
  · rw [hqueue']
    exact h.queueSorted
  · intro w' seq' msg' k hw'
    obtain ⟨k', hold, -, -⟩ := hback hw'
    rw [hqueue', hlog']
    exact h.worker w' seq' msg' k' hold
  · intro w' w'' seq' msg' msg'' k k' hw' hw''
    obtain ⟨l, hold, -, -⟩ := hback hw'
    obtain ⟨l', hold', -, -⟩ := hback hw''
    exact h.distinct w' w'' seq' msg' msg'' l l' hold hold'
  · intro i seq' msg' hr
    rw [hqueue', hlog']
    obtain hr | ⟨rfl, ht, heq⟩ := mem_deliver.mp hr
    · exact h.received i seq' msg' hr
    · obtain ⟨rfl, rfl⟩ := Prod.mk.inj heq
      obtain ⟨hlogged, hall⟩ := h.worker w _ _ _ hw
      exact ⟨hlogged, ht, hall⟩
  · intro i
    have hsorted := h.receivedSorted i
    change ((s.deliver appenders seq msg next).received i).Pairwise _
    unfold State.deliver
    split
    next ht =>
      by_cases hi : i = next
      · subst hi
        simp only [Function.update_self]
        apply List.pairwise_append.mpr
        refine ⟨hsorted, List.pairwise_singleton _ _, ?_⟩
        intro x hx y hy
        obtain rfl := List.mem_singleton.mp hy
        exact h.receivedBefore i w seq msg i hw (le_refl i) ht x hx
      · simp only [Function.update_of_ne hi]
        exact hsorted
    next => exact hsorted
  · intro i w' seq' msg' k hw' hle ht x hx
    obtain ⟨k', hold, hk, hself⟩ := hback hw'
    obtain hx | ⟨rfl, ht', rfl⟩ := mem_deliver.mp hx
    · exact h.receivedBefore i w' seq' msg' k' hold (by omega) ht x hx
    · have hne : w' ≠ w := by
        intro heq
        obtain ⟨-, rfl⟩ := hself heq
        omega
      have hle' := horder ht' w' seq' msg' k' hold (by omega) ht
      have hne' : seq ≠ seq' := by
        rintro rfl
        exact hne (h.distinct w' w seq msg' msg k' i hold hw)
      change seq < seq'
      omega
  · intro i seq' msg' hlogged ht
    rw [hlog'] at hlogged
    obtain hr | ⟨w', k, hold, hle⟩ | hq := h.complete i seq' msg' hlogged ht
    · exact .inl (mem_deliver.mpr (.inl hr))
    · by_cases hww : w' = w
      · subst hww
        rw [hw] at hold
        cases hold
        by_cases hi : i = next
        · subst hi
          exact .inl (mem_deliver.mpr (.inr ⟨rfl, ht, rfl⟩))
        · exact .inr (.inl ⟨w', next + 1, setWorker_self w' _, by omega⟩)
      · exact .inr (.inl ⟨w', k, by rw [setWorker_ne hww, hworker, hold], hle⟩)
    · exact .inr (.inr (by rw [hqueue']; exact hq))

end Inv

/-- What `DequeueWait` finds. -/
lemma dequeue_head (q : MPMCQueue (Task P)) :
    (∃ task, q.dequeue.1 = some task ∧ q.queue = task :: q.dequeue.2.queue) ∨
      q.dequeue = (none, q) := by
  obtain ⟨task, htask, hq, -, -⟩ | hnone := dequeue_cases q
  · exact .inl ⟨task, htask, hq⟩
  · exact .inr hnone

lemma take_inv (h : Inv appenders s) {w : Fin n}
    (hw : ∀ seq msg next, s.worker w ≠ .running (.log seq msg) next) :
    Inv appenders (s.take w) := by
  have hfree : ∀ seq msg next, s.worker w = .running (.log seq msg) next →
      appenders.length ≤ next := fun seq msg next hrun => absurd hrun (hw seq msg next)
  unfold State.take
  split
  · apply h.leave hfree
    intro _ _ _ heq
    cases heq
  · obtain ⟨task, htask, hq⟩ | hnone := dequeue_head s.q
    · rw [htask]
      cases task with
      | log seq msg => exact h.takeLog hq hw
      | flush =>
        have hdrop : Inv appenders { s with q := s.q.dequeue.2 } := by
          apply h.dropTasks
          · rw [hq]
            exact List.sublist_cons_self _ _
          · intro seq msg i hmem _
            simpa [hq] using hmem
        apply hdrop.leave hfree
        intro _ _ _ heq
        cases heq
    · rw [hnone]
      apply h.leave hfree
      intro _ _ _ heq
      cases heq

lemma exec_inv {op : Op n P} (h : Inv appenders s) (hc : InOrder appenders s op)
    (hs : exec appenders s op = some t) : Inv appenders t := by
  cases op with
  | appenderDoLog msg =>
    simp only [exec] at hs
    split at hs
    · cases hs
      exact h.enqueueLog msg
    · cases hs
  | appenderDoFlush =>
    simp only [exec] at hs
    split at hs
    · cases hs
      exact h.enqueueFlush
    · cases hs
  | flushAll =>
    simp only [exec] at hs
    split at hs
    · cases hs
      exact h.enqueueFlush.setPhase .flushed
    · cases hs
  | cancel =>
    simp only [exec] at hs
    split at hs
    · cases hs
      have hdrop : Inv appenders { s with q := s.q.cancel.2 } := by
        apply h.dropTasks
        · exact List.nil_sublist _
        · intro seq msg i hmem ht
          rw [hc seq msg hmem i] at ht
          cases ht
      exact hdrop.setPhase .cancelled
    · cases hs
  | join =>
    simp only [exec] at hs
    split at hs
    · cases hs
      exact h.setPhase .returned
    · cases hs
  | dequeueWait w =>
    simp only [exec] at hs
    split at hs
    next hw =>
      cases hs
      apply take_inv h
      intro _ _ _ heq
      rw [hw] at heq
      cases heq
    next => cases hs
  | wake w =>
    simp only [exec] at hs
    split at hs
    next hw =>
      cases hs
      apply take_inv h
      intro _ _ _ heq
      rw [hw] at heq
      cases heq
    next => cases hs
  | backend w =>
    simp only [exec] at hs
    split at hs
    next seq msg next hw =>
      split at hs
      · cases hs
        exact h.deliver hw (hc seq msg next hw)
      next hlen =>
        cases hs
        apply h.leave
        · intro _ _ _ heq
          rw [hw] at heq
          cases heq
          omega
        · intro _ _ _ heq
          cases heq
    next hw =>
      cases hs
      apply h.leave
      · intro _ _ _ heq
        rw [hw] at heq
        cases heq
      · intro _ _ _ heq
        cases heq
    next => cases hs

lemma init_inv : Inv appenders ({} : State n P) := by
  constructor <;> simp

lemma take_phase (w : Fin n) : (s.take w).phase = s.phase := by
  unfold State.take
  split
  · rfl
  · split <;> rfl

end Invariant
end TyphoonZero.AsyncLogger
