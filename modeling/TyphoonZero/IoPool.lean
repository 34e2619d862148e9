import TyphoonZero.Transition
import Mathlib.Algebra.BigOperators.Group.Finset.Basic

/-! Starts and stops of the io pool by any number of threads at once, lock by lock. -/
namespace TyphoonZero.IoPool
open Transition

/-- `work` counts the handlers that are posted and the operations that are outstanding; `running`
says that a call of `run` has not returned. -/
structure Context where
  guard : Bool := false
  work : ℕ := 0
  stopped : Bool := false
  running : Bool := false
  handling : Bool := false

/-- The threads of the pool are numbered as the contexts they run. -/
inductive Thread
  | outside (k : ℕ)
  | io (i : ℕ)
  deriving DecidableEq

/-- Where a thread is in `Start` or `Stop`: in the loop that spawns, before the locks of
`WaitIoThreads`, in its two loops, before the last lock and in the loop that joins. -/
inductive Call
  | idle
  | spawning (i : ℕ)
  | resetFirst
  | waiting (i : ℕ)
  | resetRest
  | locking
  | joining (i : ℕ)
  deriving DecidableEq

/-- A call that waits for its first lock. -/
inductive Ask
  | start
  | stop
  deriving DecidableEq

/-- `workers` and `threads` are the lengths of the two vectors. -/
structure Pool where
  ios : ℕ
  contexts : ℕ → Context := fun _ => {}
  stopped : Bool := true
  workers : ℕ := 0
  threads : ℕ := 0
  mutex : Option Thread := none
  calls : Thread → Call := fun _ => .idle
  asks : List (Thread × Ask) := []

namespace Pool
variable (p : Pool) (t : Thread)

def isRunningInIoPoolThreads : Thread → Bool
  | .outside _ => false
  | .io i => i < p.threads

/-- A thread of the pool calls from a handler. -/
def canCall : Thread → Bool
  | .outside _ => true
  | .io i => (p.contexts i).handling

def Asks : Prop := t ∈ p.asks.map Prod.fst

instance : Decidable (p.Asks t) := inferInstanceAs (Decidable (_ ∈ _))

/-- The thread is in no call, and does not wait for one. -/
def Free : Prop := p.calls t = .idle ∧ ¬p.Asks t ∧ p.canCall t = true

instance : Decidable (p.Free t) := inferInstanceAs (Decidable (_ ∧ _ ∧ _))

def ask (a : Ask) : Pool := { p with asks := p.asks ++ [(t, a)] }

/-- The thread is in no call and gets the lock. -/
def Enters : Prop := p.mutex = none ∧ p.calls t = .idle ∧ p.canCall t = true

def goTo (c : Call) : Pool := { p with calls := Function.update p.calls t c }

def modify (i : ℕ) (f : Context → Context) : Pool :=
  { p with contexts := Function.update p.contexts i (f (p.contexts i)) }

/-- The guards of the workers from `first` on are reset. -/
def resetFrom (first : ℕ) : Pool :=
  { p with contexts := fun i =>
      if first ≤ i ∧ i < p.workers then { p.contexts i with guard := false } else p.contexts i }

def start : Pool :=
  if p.stopped = false ∨ p.workers ≠ 0 ∨ p.threads ≠ 0 then p
  else { p.goTo t (.spawning 0) with mutex := some t }

/-- A thread that cannot be created ends the start with an exception. -/
def spawn (created : Bool) (i : ℕ) : Pool :=
  let q := p.modify i fun c => { c with stopped := false, guard := true }
  if created then
    { (q.modify i fun c => { c with running := true }).goTo t (.spawning (i + 1)) with
      workers := p.workers + 1
      threads := p.threads + 1 }
  else { q.goTo t .idle with workers := p.workers + 1, mutex := none }

def started : Pool := { p.goTo t .idle with stopped := false, mutex := none }

def stop : Pool :=
  if p.stopped = true then p
  else if p.workers = 0 ∧ p.threads = 0 then p
  else if p.isRunningInIoPoolThreads t then p
  else { p.goTo t .resetFirst with stopped := true }

/-- The next context to wait for. -/
def waitFor (i : ℕ) : Call := if i < p.ios then .waiting i else .locking

def resetFirst : Pool :=
  if p.isRunningInIoPoolThreads t then p.goTo t .locking
  else
    (if p.workers ≠ 0 then p.modify 0 fun c => { c with guard := false } else p).goTo t (p.waitFor 0)

def waited (i : ℕ) : Pool := p.goTo t (if i = 0 then .resetRest else p.waitFor (i + 1))

def resetRest : Pool := (p.resetFrom 1).goTo t (p.waitFor 1)

def lock : Pool := { (p.resetFrom 0).goTo t (.joining 0) with mutex := some t }

def clear : Pool := { p.goTo t .idle with workers := 0, threads := 0, mutex := none }

def enter (a : Ask) : Pool :=
  let q := { p with asks := p.asks.erase (t, a) }
  match a with
  | .start => q.start t
  | .stop => q.stop t

end Pool

inductive Op
  | start (t : Thread)
  | stop (t : Thread)
  | enter (t : Thread) (a : Ask)
  | post (i : ℕ)
  | spawn (t : Thread) (created : Bool)
  | started (t : Thread)
  | resetFirst (t : Thread)
  | wait (t : Thread)
  | resetRest (t : Thread)
  | lock (t : Thread)
  | join (t : Thread)
  | clear (t : Thread)
  | take (i : ℕ)
  | finish (i : ℕ)
  | drain (i : ℕ)
  | leave (i : ℕ)

/-- Steps that make no new call and bring no new work. -/
def Op.Internal : Op → Prop
  | .start _ | .stop _ | .post _ => False
  | _ => True

/-- Steps inside a call or a context. -/
def Op.Advances : Op → Prop
  | .start _ | .stop _ | .enter _ _ | .post _ => False
  | _ => True

/-- A context without work stops, and its `run` returns then. A thread that waits for a lock stays in its handler. -/
def step (p : Pool) : Op → Option Pool
  | .start t => if p.Free t then some (p.ask t .start) else none
  | .stop t => if p.Free t then some (p.ask t .stop) else none
  | .enter t a => if p.mutex = none ∧ (t, a) ∈ p.asks then some (p.enter t a) else none
  | .post i =>
    if i < p.ios then some (p.modify i fun c => { c with work := c.work + 1 }) else none
  | .spawn t created =>
    match p.calls t with
    | .spawning i => if i < p.ios then some (p.spawn t created i) else none
    | _ => none
  | .started t => if p.calls t = .spawning p.ios then some (p.started t) else none
  | .resetFirst t =>
    if p.mutex = none ∧ p.calls t = .resetFirst then some (p.resetFirst t) else none
  | .wait t =>
    match p.calls t with
    | .waiting i => if (p.contexts i).stopped then some (p.waited t i) else none
    | _ => none
  | .resetRest t => if p.mutex = none ∧ p.calls t = .resetRest then some (p.resetRest t) else none
  | .lock t => if p.mutex = none ∧ p.calls t = .locking then some (p.lock t) else none
  | .join t =>
    match p.calls t with
    | .joining i =>
      if i < p.threads ∧ (p.contexts i).running = false then some (p.goTo t (.joining (i + 1)))
      else none
    | _ => none
  | .clear t => if p.calls t = .joining p.threads then some (p.clear t) else none
  | .take i =>
    let c := p.contexts i
    if c.running ∧ c.handling = false ∧ c.stopped = false ∧ 0 < c.work then
      some (p.modify i fun c => { c with work := c.work - 1, handling := true })
    else none
  | .finish i =>
    if (p.contexts i).handling ∧ p.calls (.io i) = .idle ∧ ¬p.Asks (.io i) then
      some (p.modify i fun c => { c with handling := false })
    else none
  | .drain i =>
    let c := p.contexts i
    if c.running ∧ c.handling = false ∧ c.stopped = false ∧ c.work = 0 ∧ c.guard = false then
      some (p.modify i fun c => { c with stopped := true })
    else none
  | .leave i =>
    let c := p.contexts i
    if c.running ∧ c.handling = false ∧ c.stopped then
      some (p.modify i fun c => { c with running := false })
    else none

def poolRuns (ios : ℕ) : System Pool Op where
  init p := p = { ios := ios }
  step p op q := step p op = some q

namespace Pool
variable {p q : Pool} {t u : Thread}

/-- A stop has set the flag, and the thread that stops is not one of the pool. -/
structure Closing (p : Pool) (t : Thread) : Prop where
  stopped : p.stopped = true
  workers : p.workers = p.ios
  threads : p.threads = p.ios
  pos : 0 < p.ios
  outside : ∀ i, t ≠ .io i

/-- What holds while the thread is at this place of its call. -/
def CallOk (p : Pool) (t : Thread) : Call → Prop
  | .idle => p.mutex = none ∧ (p.stopped = false → p.workers = p.ios ∧ p.threads = p.ios) ∧
      p.threads ≤ p.ios
  | .spawning i => p.mutex = some t ∧ p.stopped = true ∧ p.workers = i ∧ p.threads = i ∧ i ≤ p.ios ∧
      ∀ i, t ≠ .io i
  | .resetFirst => p.mutex = none ∧ p.Closing t
  | .waiting i => p.mutex = none ∧ p.Closing t ∧ i < p.ios ∧ (∀ j < i, (p.contexts j).stopped = true) ∧
      ∀ j < p.ios, j = 0 ∨ 0 < i → (p.contexts j).guard = false
  | .resetRest => p.mutex = none ∧ p.Closing t ∧ (p.contexts 0).stopped = true ∧
      (p.contexts 0).guard = false
  | .locking => p.mutex = none ∧ p.Closing t ∧ ∀ j < p.ios, (p.contexts j).stopped = true
  | .joining i => p.mutex = some t ∧ p.Closing t ∧ (∀ j < p.ios, (p.contexts j).stopped = true) ∧
      i ≤ p.ios ∧ ∀ j < i, (p.contexts j).running = false

/-- A `run` belongs to a thread of the pool, handlers run inside it, and it goes on until the context
stops. -/
structure ContextOk (p : Pool) (i : ℕ) : Prop where
  running : (p.contexts i).running = true → i < p.threads
  handling : (p.contexts i).handling = true →
    (p.contexts i).running = true ∧ (p.contexts i).stopped = false
  runs : i < p.threads → (p.contexts i).stopped = false → (p.contexts i).running = true

/-- All threads but one are in no call. -/
structure Inv (p : Pool) : Prop where
  call : ∃ t, (∀ u, u ≠ t → p.calls u = .idle) ∧ p.CallOk t (p.calls t)
  contexts : ∀ i, p.ContextOk i

/-- Threads that wait for the lock are in no call; one of the pool waits in a handler. -/
def AsksOk (p : Pool) : Prop := ∀ e ∈ p.asks, p.calls e.1 = .idle ∧ p.canCall e.1 = true

section Steps
variable {c : Call} {op : Op}

lemma Inv.active (h : p.Inv) (hu : p.calls u ≠ .idle) :
    (∀ v, v ≠ u → p.calls v = .idle) ∧ p.CallOk u (p.calls u) := by
  obtain ⟨t, hothers, hok⟩ := h.call
  obtain rfl : u = t := by
    by_contra hne
    exact hu (hothers u hne)
  exact ⟨hothers, hok⟩

/-- In a call the flag is set, and the lock is held or there are threads. -/
lemma CallOk.busy (h : p.CallOk t c) (hc : c ≠ .idle) :
    p.stopped = true ∧ (p.mutex = none → p.threads ≠ 0) := by
  have hclosing : p.Closing t → p.stopped = true ∧ (p.mutex = none → p.threads ≠ 0) :=
    fun h => ⟨h.stopped, fun _ => h.threads ▸ h.pos.ne'⟩
  cases c with
  | idle => exact absurd rfl hc
  | spawning i => exact ⟨h.2.1, fun hm => by simp [h.1] at hm⟩
  | resetFirst => exact hclosing h.2
  | waiting i => exact hclosing h.2.1
  | resetRest => exact hclosing h.2.1
  | locking => exact hclosing h.2.1
  | joining i => exact hclosing h.2.1

lemma Inv.allIdle (h : p.Inv) (hm : p.mutex = none) (hfree : p.stopped = false ∨ p.threads = 0) :
    ∀ u, p.calls u = .idle := by
  intro u
  by_contra hu
  have hbusy := (h.active hu).2.busy hu
  rcases hfree with hf | hf
  · simp [hbusy.1] at hf
  · exact hbusy.2 hm hf

lemma inv_of_call (hothers : ∀ u, u ≠ t → p.calls u = .idle)
    (hcalls : q.calls = Function.update p.calls t c) (hok : q.CallOk t c)
    (hcontexts : ∀ i, q.ContextOk i) : q.Inv where
  call := by
    refine ⟨t, fun u hu => ?_, ?_⟩
    · rw [hcalls, Function.update_of_ne hu]
      exact hothers u hu
    · rw [hcalls, Function.update_self]
      exact hok
  contexts := hcontexts

/-- Who waits is no part of the invariant. -/
lemma Inv.asks (h : p.Inv) (asks : List (Thread × Ask)) : Inv { p with asks := asks } where
  call := by
    obtain ⟨t, hothers, hok⟩ := h.call
    have hclosing : p.Closing t → Closing { p with asks } t := fun h =>
      ⟨h.stopped, h.workers, h.threads, h.pos, h.outside⟩
    refine ⟨t, hothers, ?_⟩
    change CallOk { p with asks } t (p.calls t)
    cases hcall : p.calls t with
    | idle | spawning =>
      rw [hcall] at hok
      exact hok
    | resetFirst =>
      rw [hcall] at hok
      exact ⟨hok.1, hclosing hok.2⟩
    | waiting | resetRest | locking | joining =>
      rw [hcall] at hok
      exact ⟨hok.1, hclosing hok.2.1, hok.2.2⟩
  contexts i := ⟨(h.contexts i).running, (h.contexts i).handling, (h.contexts i).runs⟩

lemma ContextOk.congr {i : ℕ} (h : p.ContextOk i) (hthreads : q.threads = p.threads)
    (hrunning : (q.contexts i).running = (p.contexts i).running)
    (hhandling : (q.contexts i).handling = (p.contexts i).handling)
    (hstopped : (q.contexts i).stopped = (p.contexts i).stopped) : q.ContextOk i where
  running := by
    rw [hthreads, hrunning]
    exact h.running
  handling := by
    rw [hrunning, hhandling, hstopped]
    exact h.handling
  runs := by
    rw [hthreads, hrunning, hstopped]
    exact h.runs

lemma Closing.contexts (h : p.Closing t) (contexts : ℕ → Context) :
    Closing { p with contexts := contexts } t :=
  ⟨h.stopped, h.workers, h.threads, h.pos, h.outside⟩

/-- The contexts may stop, lose their guards and end their runs beside a call. -/
lemma CallOk.contexts (h : p.CallOk t c) {contexts : ℕ → Context}
    (hstopped : ∀ j, (p.contexts j).stopped = true → (contexts j).stopped = true)
    (hguard : ∀ j, (p.contexts j).guard = false → (contexts j).guard = false)
    (hrunning : ∀ j, (p.contexts j).running = false → (contexts j).running = false) :
    CallOk { p with contexts := contexts } t c := by
  cases c with
  | idle => exact h
  | spawning i => exact h
  | resetFirst => exact ⟨h.1, h.2.contexts contexts⟩
  | waiting i =>
    obtain ⟨hm, hclosing, hi, hpast, hreset⟩ := h
    exact ⟨hm, hclosing.contexts contexts, hi, fun j hj => hstopped j (hpast j hj),
      fun j hj hk => hguard j (hreset j hj hk)⟩
  | resetRest =>
    obtain ⟨hm, hclosing, hpast, hreset⟩ := h
    exact ⟨hm, hclosing.contexts contexts, hstopped 0 hpast, hguard 0 hreset⟩
  | locking =>
    obtain ⟨hm, hclosing, hpast⟩ := h
    exact ⟨hm, hclosing.contexts contexts, fun j hj => hstopped j (hpast j hj)⟩
  | joining i =>
    obtain ⟨hm, hclosing, hpast, hi, hjoined⟩ := h
    exact ⟨hm, hclosing.contexts contexts, fun j hj => hstopped j (hpast j hj), hi,
      fun j hj => hrunning j (hjoined j hj)⟩

/-- A step of one context. -/
lemma Inv.modify (h : p.Inv) {i : ℕ} {f : Context → Context}
    (hstopped : (p.contexts i).stopped = true → (f (p.contexts i)).stopped = true)
    (hguard : (f (p.contexts i)).guard = (p.contexts i).guard)
    (hrunning : (f (p.contexts i)).running = true → (p.contexts i).running = true)
    (hhandling : (f (p.contexts i)).handling = true →
      (f (p.contexts i)).running = true ∧ (f (p.contexts i)).stopped = false)
    (hruns : (f (p.contexts i)).stopped = false → (p.contexts i).stopped = false →
      (p.contexts i).running = true → (f (p.contexts i)).running = true) : (p.modify i f).Inv where
  call := by
    obtain ⟨t, hothers, hok⟩ := h.call
    refine ⟨t, hothers, hok.contexts ?_ ?_ ?_⟩
    · intro j hj
      by_cases hji : j = i
      · subst hji
        simpa using hstopped hj
      · simpa [hji] using hj
    · intro j hj
      by_cases hji : j = i
      · subst hji
        simpa [hguard] using hj
      · simpa [hji] using hj
    · intro j hj
      by_cases hji : j = i
      · subst hji
        simp only [Function.update_self]
        by_contra hrun
        simp [hrunning (by simpa using hrun)] at hj
      · simpa [hji] using hj
  contexts := by
    intro j
    by_cases hji : j = i
    · subst hji
      have hctx : (p.modify j f).contexts j = f (p.contexts j) := by simp [Pool.modify]
      refine ⟨fun hr => ?_, fun hh => ?_, fun hj hs => ?_⟩
      · rw [hctx] at hr
        exact (h.contexts j).running (hrunning hr)
      · rw [hctx] at hh ⊢
        exact hhandling hh
      · rw [hctx] at hs ⊢
        have hs' : (p.contexts j).stopped = false := by
          by_contra hstop
          simp [hstopped (by simpa using hstop)] at hs
        exact hruns hs hs' ((h.contexts j).runs hj hs')
    · have hctx : (p.modify i f).contexts j = p.contexts j := by simp [Pool.modify, hji]
      exact (h.contexts j).congr rfl (by rw [hctx]) (by rw [hctx]) (by rw [hctx])

/-- A thread of the pool that makes a call belongs to a context with a thread. -/
lemma Inv.thread_pos (h : p.Inv) {i : ℕ} (hcall : p.canCall (.io i) = true) : i < p.threads :=
  (h.contexts i).running ((h.contexts i).handling hcall).1

lemma Inv.start (h : p.Inv) (henters : p.Enters t) : (p.start t).Inv := by
  obtain ⟨hm, -, hcall⟩ := henters
  unfold Pool.start
  split
  · exact h
  · rename_i hfree
    simp only [not_or, Bool.not_eq_false, not_not] at hfree
    obtain ⟨hstopped, hworkers, hthreads⟩ := hfree
    refine inv_of_call (fun u _ => h.allIdle hm (Or.inr hthreads) u) rfl ?_
      fun i => (h.contexts i).congr rfl rfl rfl rfl
    refine ⟨rfl, hstopped, hworkers, hthreads, Nat.zero_le _, fun i ht => ?_⟩
    subst ht
    have hpos := h.thread_pos hcall
    omega

lemma Inv.stop (h : p.Inv) (henters : p.Enters t) : (p.stop t).Inv := by
  obtain ⟨hm, -, hcall⟩ := henters
  unfold Pool.stop
  split
  · exact h
  · rename_i hup
    have hup' : p.stopped = false := by simpa using hup
    split
    · exact h
    · rename_i hsome
      split
      · exact h
      · rename_i houtside
        have hidle := h.allIdle hm (Or.inl hup')
        obtain ⟨v, -, hok⟩ := h.call
        rw [hidle v] at hok
        obtain ⟨hworkers, hthreads⟩ := hok.2.1 hup'
        have hpos : 0 < p.ios := by
          rw [hworkers, hthreads, and_self] at hsome
          exact Nat.pos_of_ne_zero hsome
        refine inv_of_call (fun u _ => hidle u) rfl ⟨hm, rfl, hworkers, hthreads, hpos, fun i ht => ?_⟩
          fun i => (h.contexts i).congr rfl rfl rfl rfl
        subst ht
        have hlt := h.thread_pos hcall
        simp [isRunningInIoPoolThreads, hlt] at houtside

lemma Inv.spawn {i : ℕ} (h : p.Inv) (hcall : p.calls t = .spawning i) (hi : i < p.ios)
    (created : Bool) : (p.spawn t created i).Inv := by
  obtain ⟨hothers, hok⟩ := h.active (u := t) (by simp [hcall])
  rw [hcall] at hok
  obtain ⟨hm, hstopped, hworkers, hthreads, -, houtside⟩ := hok
  -- No run is left of the context, so that its restart is in order.
  have hrun : (p.contexts i).running = false := by
    by_contra hrun
    have hlt := (h.contexts i).running (by simpa using hrun)
    omega
  have hidle : (p.contexts i).handling = false := by
    by_contra hhandling
    have hr := ((h.contexts i).handling (by simpa using hhandling)).1
    simp [hrun] at hr
  cases created with
  | true =>
    refine inv_of_call hothers rfl ⟨hm, hstopped, congrArg (· + 1) hworkers, congrArg (· + 1) hthreads, hi,
      houtside⟩ fun j => ?_
    by_cases hji : j = i
    · subst hji
      refine ⟨fun _ => ?_, fun hh => ?_, fun _ _ => ?_⟩
      · simp [Pool.spawn, hthreads]
      · simp [Pool.spawn, Pool.modify, goTo, hidle] at hh
      · simp [Pool.spawn, Pool.modify, goTo]
    · have hctx : (p.spawn t true i).contexts j = p.contexts j := by
        simp [Pool.spawn, Pool.modify, goTo, hji]
      have hold := h.contexts j
      have hlen : (p.spawn t true i).threads = p.threads + 1 := rfl
      refine ⟨fun hr => ?_, fun hh => ?_, fun hj hs => ?_⟩
      · rw [hctx] at hr
        have := hold.running hr
        omega
      · rw [hctx] at hh ⊢
        exact hold.handling hh
      · rw [hctx] at hs ⊢
        exact hold.runs (by omega) hs
  | false =>
    refine inv_of_call hothers rfl ⟨rfl, fun hs => ?_, hthreads.trans_le hi.le⟩ fun j => ?_
    · exact absurd (hstopped.symm.trans hs) (by decide)
    · by_cases hji : j = i
      · subst hji
        refine ⟨fun hr => ?_, fun hh => ?_, fun hj => ?_⟩
        · simp [Pool.spawn, Pool.modify, goTo, hrun] at hr
        · simp [Pool.spawn, Pool.modify, goTo, hidle] at hh
        · have hlen : (p.spawn t false j).threads = p.threads := rfl
          omega
      · have hctx : (p.spawn t false i).contexts j = p.contexts j := by
          simp [Pool.spawn, Pool.modify, goTo, hji]
        exact (h.contexts j).congr rfl (by rw [hctx]) (by rw [hctx]) (by rw [hctx])

lemma Inv.started (h : p.Inv) (hcall : p.calls t = .spawning p.ios) : (p.started t).Inv := by
  obtain ⟨hothers, hok⟩ := h.active (u := t) (by simp [hcall])
  rw [hcall] at hok
  obtain ⟨-, -, hworkers, hthreads, -⟩ := hok
  exact inv_of_call hothers rfl ⟨rfl, fun _ => ⟨hworkers, hthreads⟩, hthreads.le⟩
    fun i => (h.contexts i).congr rfl rfl rfl rfl

/-- The guards that are reset do not matter to the contexts. -/
lemma ContextOk.resetFrom {i : ℕ} (h : p.ContextOk i) (first : ℕ) : (p.resetFrom first).ContextOk i := by
  refine h.congr rfl ?_ ?_ ?_ <;> simp only [Pool.resetFrom] <;> split <;> rfl

lemma resetFrom_stopped (first j : ℕ) :
    ((p.resetFrom first).contexts j).stopped = (p.contexts j).stopped := by
  simp only [Pool.resetFrom]
  split <;> rfl

lemma resetFrom_guard {first j : ℕ} (hj : j < p.workers)
    (hfirst : first ≤ j ∨ (p.contexts j).guard = false) :
    ((p.resetFrom first).contexts j).guard = false := by
  by_cases hle : first ≤ j
  · simp [Pool.resetFrom, hle, hj]
  · simpa [Pool.resetFrom, hle] using hfirst.resolve_left hle

/-- After the contexts before `i` have stopped. -/
lemma callOk_waitFor {i : ℕ} (hm : p.mutex = none) (hclosing : p.Closing t) (hpos : i ≤ p.ios)
    (hpast : ∀ j < i, (p.contexts j).stopped = true)
    (hreset : ∀ j < p.ios, j = 0 ∨ 0 < i → (p.contexts j).guard = false) :
    p.CallOk t (p.waitFor i) := by
  unfold waitFor
  split
  · rename_i hi
    exact ⟨hm, hclosing, hi, hpast, hreset⟩
  · exact ⟨hm, hclosing, fun j hj => hpast j (by omega)⟩

lemma Inv.resetFirst (h : p.Inv) (hm : p.mutex = none) (hcall : p.calls t = .resetFirst) :
    (p.resetFirst t).Inv := by
  obtain ⟨hothers, hok⟩ := h.active (u := t) (by simp [hcall])
  rw [hcall] at hok
  have hclosing := hok.2
  have hnot : p.isRunningInIoPoolThreads t = false := by
    cases t with
    | outside k => rfl
    | io i => exact absurd rfl (hclosing.outside i)
  have hworkers : p.workers ≠ 0 := hclosing.workers ▸ hclosing.pos.ne'
  have hstep : p.resetFirst t =
      (p.modify 0 fun c => { c with guard := false }).goTo t (p.waitFor 0) := by
    simp [Pool.resetFirst, hnot, hworkers]
  rw [hstep]
  have hctx : ∀ i, (p.modify 0 fun c => { c with guard := false }).ContextOk i := by
    intro i
    by_cases hi : i = 0
    · subst hi
      exact (h.contexts 0).congr rfl (by simp [Pool.modify]) (by simp [Pool.modify]) (by simp [Pool.modify])
    · have hctx : (p.modify 0 fun c => { c with guard := false }).contexts i = p.contexts i := by
        simp [Pool.modify, hi]
      exact (h.contexts i).congr rfl (by rw [hctx]) (by rw [hctx]) (by rw [hctx])
  refine inv_of_call hothers rfl ?_ fun i => (hctx i).congr rfl rfl rfl rfl
  refine callOk_waitFor (p := (p.modify 0 fun c => { c with guard := false }).goTo t (p.waitFor 0)) hm
    ⟨hclosing.stopped, hclosing.workers, hclosing.threads, hclosing.pos, hclosing.outside⟩
    (Nat.zero_le _) (fun j hj => absurd hj (Nat.not_lt_zero j)) fun j _ hj => ?_
  obtain rfl : j = 0 := by omega
  simp [Pool.modify, goTo]

lemma Inv.waited {i : ℕ} (h : p.Inv) (hcall : p.calls t = .waiting i)
    (hstopped : (p.contexts i).stopped = true) : (p.waited t i).Inv := by
  obtain ⟨hothers, hok⟩ := h.active (u := t) (by simp [hcall])
  rw [hcall] at hok
  obtain ⟨hm, hclosing, hi, hpast, hreset⟩ := hok
  have hclosing' : ∀ c, Closing (p.goTo t c) t := fun _ =>
    ⟨hclosing.stopped, hclosing.workers, hclosing.threads, hclosing.pos, hclosing.outside⟩
  refine inv_of_call hothers rfl ?_ fun j => (h.contexts j).congr rfl rfl rfl rfl
  by_cases hzero : i = 0
  · subst hzero
    exact ⟨hm, hclosing' _, hstopped, hreset 0 hclosing.pos (Or.inl rfl)⟩
  · have hnext : ∀ j < i + 1, (p.contexts j).stopped = true := by
      intro j hj
      rcases Nat.lt_succ_iff_lt_or_eq.mp hj with hlt | rfl
      · exact hpast j hlt
      · exact hstopped
    have hok : (p.waited t i).CallOk t (p.waitFor (i + 1)) := callOk_waitFor hm (hclosing' _) hi hnext
      fun j hj _ => hreset j hj (Or.inr (Nat.pos_of_ne_zero hzero))
    simpa [hzero] using hok

lemma Inv.resetRest (h : p.Inv) (hm : p.mutex = none) (hcall : p.calls t = .resetRest) :
    (p.resetRest t).Inv := by
  obtain ⟨hothers, hok⟩ := h.active (u := t) (by simp [hcall])
  rw [hcall] at hok
  obtain ⟨-, hclosing, hstopped, hreset⟩ := hok
  refine inv_of_call hothers rfl ?_ fun j => ((h.contexts j).resetFrom 1).congr rfl rfl rfl rfl
  refine callOk_waitFor (p := p.resetRest t) hm
    ⟨hclosing.stopped, hclosing.workers, hclosing.threads, hclosing.pos, hclosing.outside⟩
    hclosing.pos (fun j hj => ?_) fun j hj _ => ?_
  · obtain rfl : j = 0 := by omega
    exact (resetFrom_stopped 1 0).trans hstopped
  · refine resetFrom_guard (hclosing.workers ▸ hj) ?_
    by_cases hzero : j = 0
    · subst hzero
      exact Or.inr hreset
    · exact Or.inl (Nat.pos_of_ne_zero hzero)

lemma Inv.lock (h : p.Inv) (hcall : p.calls t = .locking) : (p.lock t).Inv := by
  obtain ⟨hothers, hok⟩ := h.active (u := t) (by simp [hcall])
  rw [hcall] at hok
  obtain ⟨-, hclosing, hpast⟩ := hok
  refine inv_of_call hothers rfl ?_ fun j => ((h.contexts j).resetFrom 0).congr rfl rfl rfl rfl
  exact ⟨rfl, ⟨hclosing.stopped, hclosing.workers, hclosing.threads, hclosing.pos, hclosing.outside⟩,
    fun j hj => (resetFrom_stopped 0 j).trans (hpast j hj), Nat.zero_le _,
    fun j hj => absurd hj (Nat.not_lt_zero j)⟩

lemma Inv.join {i : ℕ} (h : p.Inv) (hcall : p.calls t = .joining i) (hi : i < p.threads)
    (hrun : (p.contexts i).running = false) : (p.goTo t (.joining (i + 1))).Inv := by
  obtain ⟨hothers, hok⟩ := h.active (u := t) (by simp [hcall])
  rw [hcall] at hok
  obtain ⟨hm, hclosing, hpast, -, hjoined⟩ := hok
  refine inv_of_call hothers rfl ?_ fun j => (h.contexts j).congr rfl rfl rfl rfl
  refine ⟨hm, ⟨hclosing.stopped, hclosing.workers, hclosing.threads, hclosing.pos, hclosing.outside⟩,
    hpast, hclosing.threads ▸ hi, fun j hj => ?_⟩
  rcases Nat.lt_succ_iff_lt_or_eq.mp hj with hlt | rfl
  · exact hjoined j hlt
  · exact hrun

lemma Inv.clear (h : p.Inv) (hcall : p.calls t = .joining p.threads) : (p.clear t).Inv := by
  obtain ⟨hothers, hok⟩ := h.active (u := t) (by simp [hcall])
  rw [hcall] at hok
  obtain ⟨-, hclosing, hpast, -, hjoined⟩ := hok
  -- All threads have been joined, and there are no others.
  have hnone : ∀ j, (p.contexts j).running = false := by
    intro j
    by_contra hrun
    have hlt := (h.contexts j).running (by simpa using hrun)
    exact hrun (hjoined j hlt)
  refine inv_of_call hothers rfl ⟨rfl, fun hs => ?_, Nat.zero_le _⟩
    fun j => ⟨fun hr => ?_, fun hh => ?_, fun hj => ?_⟩
  · exact absurd (hclosing.stopped.symm.trans hs) (by decide)
  · exact absurd ((hnone j).symm.trans hr) (by decide)
  · exact (h.contexts j).handling hh
  · exact absurd hj (Nat.not_lt_zero j)

end Steps

end Pool

end TyphoonZero.IoPool
