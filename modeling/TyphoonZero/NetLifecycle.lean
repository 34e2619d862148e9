import TyphoonZero.NetStartFailed

/-! A server through any starts and stops, with its sessions, the strand that finishes a stop and
the user's threads, which may call in between; and its two lifecycle predicates. -/
namespace TyphoonZero.NetLifecycle
open Transition NetStart
open NetConnect (NetState)

/-- The last call of the user, and what a start returned. -/
inductive Call
  | start (returned : Bool)
  | stop

/-- `sessions` are those that hold the counter. `closing` says that the strand is in `HandleStop`,
before the acceptor is closed, `aborted` that an accept was aborted and its handler is queued, and
`waiting` that a `Stop` waits for the io pool. -/
structure Lifecycle where
  server : Server
  sessions : ℕ := 0
  closing : Bool := false
  aborted : Bool := false
  waiting : Bool := false
  last : Option Call := none

/-- `inside` says that the thread of a stop belongs to the io pool, `ec` that an accept failed. -/
inductive Op
  | start (spawns : ℕ → Bool) (throws : ServerStep → Bool)
  | stop (inside : Bool)
  | joined
  | task
  | close
  | accept (ec : Bool)
  | acceptAborted
  | sessionEnd

namespace Lifecycle
variable (s : Lifecycle)

def isStarted : Bool := s.server.isStarted

def isStopped : Bool := s.server.state = .stopped && s.server.acceptorOpen

/-- `DoStart` closes the acceptor of the last start before it opens its own. -/
def start (spawns : ℕ → Bool) (throws : ServerStep → Bool) : Lifecycle :=
  let r := s.server.doStart spawns throws
  let t := { s with server := r.1, last := some (.start r.2) }
  if s.server.state = .stopped ∧ r.1.counter = true ∧ r.1.accepting = true then
    { t with server := { r.1 with accepting := false }, aborted := true }
  else t

/-- `IoPoolStop` sets its flag and waits, unless there is nothing to wait for or the thread is one
of its own. -/
def stop (inside : Bool) : Lifecycle :=
  let t := { s with server := s.server.doStop, last := some .stop }
  let p := t.server.pool
  if inside = true ∨ p.stopped = true ∨ (p.workers = 0 ∧ p.threads = 0) then t
  else { t with server := { t.server with pool := { p with stopped := true } }, waiting := true }

/-- The counter is dropped with the last copy, and its deleter posts the final stop. -/
def dropCounter : Lifecycle :=
  if s.server.counter = false ∧ s.sessions = 0 then { s with server := s.server.post .final } else s

/-- The final stop goes on to `HandleStop`. -/
def run : ServerTask → Lifecycle
  | .stop =>
    let t := { s with server := { s.server with counterTimer := true, counter := false } }
    if s.server.counter then t.dropCounter else t
  | .final =>
    if s.server.state = .stopping then { s with server := { s.server with state := .stopped }, closing := true }
    else { s with server := { s.server with crashed := true } }
  | .postAccept => { s with server := s.server.run .postAccept }

/-- The strand is free, and has a thread. -/
def StrandRuns : Prop := s.closing = false ∧ 0 < s.server.pool.threads

instance : Decidable s.StrandRuns := inferInstanceAs (Decidable (_ ∧ _))

/-- Nothing keeps the threads of the io pool from ending. -/
def Outstanding : Prop :=
  s.server.posted ≠ [] ∨ s.closing = true ∨ s.aborted = true ∨ s.server.counterTimer = true ∨
    s.server.accepting = true ∨ s.sessions ≠ 0

instance : Decidable s.Outstanding := inferInstanceAs (Decidable (_ ∨ _ ∨ _ ∨ _ ∨ _ ∨ _))

def exec : Op → Option Lifecycle
  | .start spawns throws => some (s.start spawns throws)
  | .stop inside => some (s.stop inside)
  | .joined =>
    if s.waiting = true ∧ ¬s.Outstanding then
      some { s with
        server := { s.server with pool := { s.server.pool with workers := 0, threads := 0 } }, waiting := false }
    else none
  | .task =>
    match s.server.posted with
    | [] => none
    | task :: rest =>
      if s.StrandRuns then some ({ s with server := { s.server with posted := rest } }.run task) else none
  | .close =>
    if s.closing = true then
      some { s with
        server := { s.server with counterTimer := false, acceptorOpen := false, accepting := false }
        closing := false, aborted := s.aborted || s.server.accepting }
    else none
  | .accept ec =>
    if s.server.accepting = true ∧ s.StrandRuns then
      some (if s.isStarted then { s with sessions := if ec then s.sessions else s.sessions + 1 }
        else { s with server := { s.server with accepting := false } })
    else none
  | .acceptAborted =>
    if s.aborted = true ∧ s.StrandRuns then some { s with server := s.server.doStop, aborted := false } else none
  | .sessionEnd => if s.sessions = 0 then none else some { s with sessions := s.sessions - 1 }.dropCounter

/-- The work of all calls is done. -/
structure Drained : Prop where
  posted : s.server.posted = []
  closing : s.closing = false
  aborted : s.aborted = false
  sessions : s.server.counter = false → s.sessions = 0
  waiting : s.waiting = false

/-- Just one of the two predicates holds, the one that says what the last call did. -/
structure Partitioned : Prop where
  one : Xor (s.isStarted = true) (s.isStopped = true)
  stopped : s.last = some .stop → s.isStopped = true
  started : s.last = some (.start true) → s.isStarted = true

/-- A start that finds the server stopped, with nothing of the last stop left to be done, whose io
pool can run and of which no step throws. -/
def Starts (op : Op) : Prop :=
  s.server.state = .stopped ∧ s.closing = false ∧ s.aborted = false ∧
    ∃ spawns throws, op = .start spawns throws ∧ s.server.pool.CanRun spawns ∧ ∀ step, throws step = false

end Lifecycle

/-- A server with an io pool of `ios` contexts. -/
def lifecycleRuns (ios : ℕ) : System Lifecycle Op where
  init s := s = { server := { pool := { ios := ios } } }
  step s op t := s.exec op = some t

/-- A start of the run has gone through, and nobody has stopped the server since. -/
def LeftRunning (ios : ℕ) (ops : List Op) : Prop :=
  ∃ pre op post s, ops = pre ++ op :: post ∧ Traces (lifecycleRuns ios) pre s ∧ s.Starts op ∧
    ∀ inside, .stop inside ∉ post

namespace Lifecycle
variable {s t : Lifecycle} {spawns : ℕ → Bool} {throws : ServerStep → Bool} {op : Op}

/-- Started, with its acceptor open and nothing on the way that closes it. -/
structure Up (s : Lifecycle) : Prop where
  state : s.server.state = .started
  acceptorOpen : s.server.acceptorOpen = true
  closing : s.closing = false
  aborted : s.aborted = false

/-- The stops and final stops that are posted or will be, when the last session ends. -/
def pending (s : Lifecycle) : ℕ :=
  s.server.posted.count .stop + s.server.posted.count .final +
    if s.server.counter = false ∧ s.sessions ≠ 0 then 1 else 0

structure Inv (s : Lifecycle) : Prop where
  pending : s.pending ≤ if s.server.state = .stopping then 1 else 0
  counter : s.server.state = .started → s.server.counter = true
  idle : s.server.state = .stopped → s.closing = false →
    s.server.acceptorOpen = false ∧ s.server.accepting = false
  last : s.Up → s.last ≠ some .stop

section Start

lemma start_of_ne (h : s.server.state ≠ .stopped) :
    s.start spawns throws = { s with last := some (.start false) } := by
  have hstart : s.server.doStart spawns throws = (s.server, false) := if_pos h
  simp only [start, hstart, h, false_and, if_false]

/-- Only the accept of the last start is dealt with besides the start itself. -/
lemma start_server : (s.start spawns throws).server =
    { (s.server.doStart spawns throws).1 with accepting := (s.start spawns throws).server.accepting } := by
  unfold start
  dsimp only
  split_ifs <;> rfl

lemma start_sessions : (s.start spawns throws).sessions = s.sessions := by
  unfold start
  dsimp only
  split_ifs <;> rfl

lemma start_closing : (s.start spawns throws).closing = s.closing := by
  unfold start
  dsimp only
  split_ifs <;> rfl

lemma start_last : (s.start spawns throws).last = some (.start (s.server.doStart spawns throws).2) := by
  unfold start
  dsimp only
  split_ifs <;> rfl

lemma start_aborted (h : s.aborted = true) : (s.start spawns throws).aborted = true := by
  unfold start
  dsimp only
  split_ifs
  · rfl
  · exact h

/-- What a start of a stopped server makes of it. -/
lemma start_cases (h : s.server.state = .stopped) :
    ((s.start spawns throws).server.state = .starting ∧ (s.start spawns throws).server.counter = s.server.counter ∧
      (s.start spawns throws).server.posted = s.server.posted ∧ ¬s.Starts (.start spawns throws)) ∨
    ((s.start spawns throws).server.state = .stopping ∧
      ((s.start spawns throws).server.counter = s.server.counter ∨ (s.start spawns throws).server.counter = true) ∧
      (s.start spawns throws).server.posted = s.server.posted ++ [.stop] ∧ ¬s.Starts (.start spawns throws)) ∨
    (s.server.pool.CanRun spawns ∧ (∀ step, throws step = false) ∧ (s.start spawns throws).server.state = .started ∧
      (s.start spawns throws).server.counter = true ∧ (s.start spawns throws).server.acceptorOpen = true ∧
      (s.start spawns throws).server.posted = s.server.posted ++ [.postAccept]) := by
  rw [start_server]
  by_cases hcan : s.server.pool.CanRun spawns
  · obtain ⟨q, b, hpool, hrun, -, -⟩ := Pool.start_of_canRun hcan
    by_cases hfail : ∃ step, throws step = true
    · obtain ⟨isOpen, hstart⟩ := Server.doStart_failed h hpool hrun hfail
      right
      left
      rw [hstart]
      refine ⟨rfl, Or.inr rfl, rfl, ?_⟩
      rintro ⟨-, -, -, spawns', throws', hop, -, hnone⟩
      obtain ⟨rfl, rfl⟩ := Op.start.inj hop
      obtain ⟨step, hstep⟩ := hfail
      rw [hnone step] at hstep
      cases hstep
    · have hnone : ∀ step, throws step = false := fun step => by
        by_contra hstep
        exact hfail ⟨step, by simpa using hstep⟩
      rw [Server.doStart_succeeds h hpool hrun hnone]
      exact Or.inr (Or.inr ⟨hcan, hnone, rfl, rfl, rfl, rfl⟩)
  · have hnot : ¬s.Starts (.start spawns throws) := by
      rintro ⟨-, -, -, spawns', throws', hop, hcan', -⟩
      obtain ⟨rfl, rfl⟩ := Op.start.inj hop
      exact hcan hcan'
    obtain ⟨q, hstart | hstart⟩ := @Server.doStart_without_pool spawns throws s.server h hcan
    · rw [hstart]
      exact Or.inl ⟨rfl, rfl, rfl, hnot⟩
    · rw [hstart]
      exact Or.inr (Or.inl ⟨rfl, Or.inl rfl, rfl, hnot⟩)

end Start

section Invariant

/-- Four fields say whether a server is up. -/
lemma Up.same (hup : s.Up) (hstate : t.server.state = s.server.state)
    (hopen : t.server.acceptorOpen = s.server.acceptorOpen) (hclosing : t.closing = s.closing)
    (haborted : t.aborted = s.aborted) : t.Up :=
  ⟨hstate.trans hup.state, hopen.trans hup.acceptorOpen, hclosing.trans hup.closing, haborted.trans hup.aborted⟩

lemma up_same (hstate : t.server.state = s.server.state) (hopen : t.server.acceptorOpen = s.server.acceptorOpen)
    (hclosing : t.closing = s.closing) (haborted : t.aborted = s.aborted) : t.Up ↔ s.Up :=
  ⟨fun hup => hup.same hstate.symm hopen.symm hclosing.symm haborted.symm,
    fun hup => hup.same hstate hopen hclosing haborted⟩

lemma Up.ne_stopping (h : s.Up) : s.server.state ≠ .stopping := by
  rw [h.state]
  simp

/-- Outside of `Stopping` no stop is posted, and the sessions share the counter of the server. -/
lemma Inv.quiet (hs : s.Inv) (hstate : s.server.state ≠ .stopping) :
    s.server.posted.count .stop = 0 ∧ s.server.posted.count .final = 0 ∧
      (s.server.counter = false → s.sessions = 0) := by
  have hpending := hs.pending
  rw [if_neg hstate] at hpending
  unfold Lifecycle.pending at hpending
  refine ⟨by omega, by omega, fun hcounter => ?_⟩
  by_contra hsessions
  rw [if_pos ⟨hcounter, hsessions⟩] at hpending
  omega

/-- A stop is posted to a server that has none. -/
lemma Inv.stopping (hs : s.Inv) (hne : s.server.state ≠ .stopping) (hstate : t.server.state = .stopping)
    (hposted : t.server.posted = s.server.posted ++ [.stop])
    (hcounter : t.server.counter = s.server.counter ∨ t.server.counter = true) (hsessions : t.sessions = s.sessions) :
    t.Inv := by
  obtain ⟨hstop, hfinal, hheld⟩ := hs.quiet hne
  have hnone : ¬(t.server.counter = false ∧ t.sessions ≠ 0) := by
    rintro ⟨hfalse, hsome⟩
    rw [hsessions] at hsome
    rcases hcounter with hsame | htrue
    · exact hsome (hheld (hsame.symm.trans hfalse))
    · rw [htrue] at hfalse
      cases hfalse
  refine ⟨?_, ?_, ?_, fun hup => absurd hstate hup.ne_stopping⟩
  · rw [if_pos hstate]
    unfold Lifecycle.pending
    rw [if_neg hnone, hposted, List.count_append, List.count_append, hstop, hfinal]
    decide
  · simp [hstate]
  · simp [hstate]

/-- `DoStop` leaves the two states in which something can be stopped. -/
lemma doStop_cases (u : Server) :
    ((u.state = .starting ∨ u.state = .started) ∧
      u.doStop = { u with state := .stopping, posted := u.posted ++ [.stop] }) ∨
    (u.state ≠ .starting ∧ u.state ≠ .started ∧ u.doStop = u) := by
  by_cases h : u.state = .starting ∨ u.state = .started
  · exact Or.inl ⟨h, if_pos h⟩
  · exact Or.inr ⟨fun hs => h (Or.inl hs), fun hs => h (Or.inr hs), if_neg h⟩

/-- A call of `DoStop` keeps the invariant, whatever it does besides. -/
lemma Inv.doStop (hs : s.Inv) {aborted waiting : Bool} {p : Pool} {last : Option Call} :
    ({ s with
      server := { s.server.doStop with pool := p }, aborted := aborted, waiting := waiting, last := last } :
      Lifecycle).Inv := by
  rcases doStop_cases s.server with ⟨hstate, hstop⟩ | ⟨hstarting, hstarted, hstop⟩
  · refine hs.stopping (fun h => ?_) (by rw [hstop]) (by rw [hstop]) (Or.inl (by rw [hstop])) rfl
    rw [h] at hstate
    simp at hstate
  · rw [hstop]
    exact ⟨hs.pending, hs.counter, hs.idle, fun hup => absurd hup.state hstarted⟩

lemma Inv.stop (hs : s.Inv) (inside : Bool) : (s.stop inside).Inv := by
  unfold Lifecycle.stop
  dsimp only
  split_ifs
  · exact hs.doStop
  · exact hs.doStop

lemma Inv.start (hs : s.Inv) : (s.start spawns throws).Inv := by
  by_cases hstate : s.server.state = .stopped
  · have hne : s.server.state ≠ .stopping := by simp [hstate]
    obtain ⟨hstop, hfinal, hheld⟩ := hs.quiet hne
    rcases @start_cases s spawns throws hstate with
      ⟨hnext, hcounter, hposted, -⟩ | ⟨hnext, hcounter, hposted, -⟩ | ⟨-, -, hnext, hcounter, -, hposted⟩
    · refine ⟨?_, by simp [hnext], by simp [hnext], fun hup => absurd hup.state (by simp [hnext])⟩
      have hpending := hs.pending
      rw [if_neg hne] at hpending
      rw [if_neg (by simp [hnext])]
      unfold Lifecycle.pending at hpending ⊢
      rw [hposted, hcounter, start_sessions]
      exact hpending
    · exact hs.stopping hne hnext hposted hcounter start_sessions
    · refine ⟨?_, fun _ => hcounter, by simp [hnext], fun _ => by simp [start_last]⟩
      unfold Lifecycle.pending
      rw [hposted, hcounter, List.count_append, List.count_append, hstop, hfinal]
      simp
  · rw [start_of_ne hstate]
    exact ⟨hs.pending, hs.counter, hs.idle, fun _ => by simp⟩

/-- The last copy of the counter is dropped, or the sessions that are left will drop it. -/
lemma Inv.dropCounter (hstate : s.server.state = .stopping) (hstop : s.server.posted.count .stop = 0)
    (hfinal : s.server.posted.count .final = 0) : s.dropCounter.Inv := by
  unfold Lifecycle.dropCounter
  split_ifs with hlast
  · refine ⟨?_, by simp [Server.post, hstate], by simp [Server.post, hstate], fun hup => absurd hstate hup.ne_stopping⟩
    rw [if_pos (by exact hstate)]
    simp [Lifecycle.pending, Server.post, hstop, hfinal, hlast.2]
  · refine ⟨?_, by simp [hstate], by simp [hstate], fun hup => absurd hstate hup.ne_stopping⟩
    rw [if_pos hstate]
    unfold Lifecycle.pending
    rw [hstop, hfinal]
    split_ifs <;> decide

/-- A stop or a final stop is posted only in `Stopping`, and then only one. -/
lemma Inv.of_posted (hs : s.Inv) {task : ServerTask} {rest : List ServerTask}
    (hposted : s.server.posted = task :: rest) (htask : task ≠ .postAccept) :
    s.server.state = .stopping ∧ rest.count .stop = 0 ∧ rest.count .final = 0 ∧
      ¬(s.server.counter = false ∧ s.sessions ≠ 0) := by
  have hpending := hs.pending
  unfold Lifecycle.pending at hpending
  rw [hposted] at hpending
  have hone : (task :: rest).count .stop + (task :: rest).count .final = rest.count .stop + rest.count .final + 1 := by
    cases task with
    | stop =>
      rw [List.count_cons_self, List.count_cons_of_ne (by decide)]
      omega
    | final =>
      rw [List.count_cons_self, List.count_cons_of_ne (by decide)]
      omega
    | postAccept => exact absurd rfl htask
  rw [hone] at hpending
  have hstate : s.server.state = .stopping := by
    by_contra hne
    rw [if_neg hne] at hpending
    omega
  rw [if_pos hstate] at hpending
  refine ⟨hstate, by omega, by omega, fun hheld => ?_⟩
  rw [if_pos hheld] at hpending
  omega

/-- The task at the front runs. -/
lemma Inv.task (hs : s.Inv) {task : ServerTask} {rest : List ServerTask} (hposted : s.server.posted = task :: rest) :
    ({ s with server := { s.server with posted := rest } }.run task).Inv := by
  cases task with
  | stop =>
    obtain ⟨hstate, hstop, hfinal, hheld⟩ := hs.of_posted hposted (by decide)
    by_cases hcounter : s.server.counter = true
    · have hrun : { s with server := { s.server with posted := rest } }.run .stop = ({ s with
          server := { s.server with posted := rest, counterTimer := true, counter := false } } :
          Lifecycle).dropCounter := if_pos hcounter
      rw [hrun]
      exact Inv.dropCounter hstate hstop hfinal
    · have hrun : { s with server := { s.server with posted := rest } }.run .stop = { s with
          server := { s.server with posted := rest, counterTimer := true, counter := false } } := if_neg hcounter
      rw [hrun]
      refine ⟨?_, by simp [hstate], by simp [hstate], fun hup => absurd hstate hup.ne_stopping⟩
      rw [if_pos (by exact hstate)]
      have hsessions : s.sessions = 0 := by
        by_contra hne
        exact hheld ⟨by simpa using hcounter, hne⟩
      simp [Lifecycle.pending, hstop, hfinal, hsessions]
  | final =>
    obtain ⟨hstate, hstop, hfinal, hheld⟩ := hs.of_posted hposted (by decide)
    have hrun : { s with server := { s.server with posted := rest } }.run .final = { s with
        server := { s.server with posted := rest, state := .stopped }, closing := true } := if_pos hstate
    rw [hrun]
    refine ⟨?_, by simp, by simp, fun hup => absurd hup.state (by simp)⟩
    unfold Lifecycle.pending
    rw [if_neg hheld]
    simp [hstop, hfinal]
  | postAccept =>
    have hpending : ({ s with server := { s.server with posted := rest } } : Lifecycle).pending = s.pending := by
      unfold Lifecycle.pending
      rw [hposted, List.count_cons_of_ne (by decide), List.count_cons_of_ne (by decide)]
    by_cases hstarted : s.isStarted = true
    · have hrun : { s with server := { s.server with posted := rest } }.run .postAccept = { s with
          server := { s.server with posted := rest, accepting := true } } :=
        congrArg (fun u => { s with server := u }) (if_pos hstarted)
      rw [hrun]
      refine ⟨hpending.trans_le hs.pending, hs.counter, fun hstate => ?_, fun hup =>
        hs.last (hup.same rfl rfl rfl rfl)⟩
      have hne : s.server.state = .stopped := hstate
      simp [isStarted, Server.isStarted, hne] at hstarted
    · have hrun : { s with server := { s.server with posted := rest } }.run .postAccept = { s with
          server := { s.server with posted := rest } } :=
        congrArg (fun u => { s with server := u }) (if_neg hstarted)
      rw [hrun]
      exact ⟨hpending.trans_le hs.pending, hs.counter, hs.idle, fun hup =>
        hs.last (hup.same rfl rfl rfl rfl)⟩

lemma dropCounter_up : s.dropCounter.Up ↔ s.Up := by
  unfold Lifecycle.dropCounter
  split_ifs
  · exact up_same rfl rfl rfl rfl
  · exact Iff.rfl

lemma Inv.sessionEnd (hs : s.Inv) (hsome : s.sessions ≠ 0) :
    ({ s with sessions := s.sessions - 1 } : Lifecycle).dropCounter.Inv := by
  by_cases hcounter : s.server.counter = true
  · have hkeep : ({ s with sessions := s.sessions - 1 } : Lifecycle).dropCounter = { s with
        sessions := s.sessions - 1 } := if_neg (by simp [hcounter])
    rw [hkeep]
    refine ⟨?_, hs.counter, hs.idle, fun hup => hs.last (hup.same rfl rfl rfl rfl)⟩
    have hpending := hs.pending
    unfold Lifecycle.pending at hpending ⊢
    simpa [hcounter] using hpending
  · have hfalse : s.server.counter = false := by simpa using hcounter
    have hpending := hs.pending
    unfold Lifecycle.pending at hpending
    rw [if_pos ⟨hfalse, hsome⟩] at hpending
    have hstate : s.server.state = .stopping := by
      by_contra hne
      rw [if_neg hne] at hpending
      omega
    rw [if_pos hstate] at hpending
    exact Inv.dropCounter hstate (by dsimp only; omega) (by dsimp only; omega)

lemma Inv.exec (hs : s.Inv) (h : s.exec op = some t) : t.Inv := by
  cases op with
  | start spawns throws =>
    obtain rfl := Option.some.inj h
    exact hs.start
  | stop inside =>
    obtain rfl := Option.some.inj h
    exact hs.stop inside
  | joined =>
    simp only [Lifecycle.exec] at h
    split_ifs at h
    obtain rfl := Option.some.inj h
    exact ⟨hs.pending, hs.counter, hs.idle, fun hup => hs.last (hup.same rfl rfl rfl rfl)⟩
  | task =>
    simp only [Lifecycle.exec] at h
    split at h
    · cases h
    next task rest hposted =>
      split_ifs at h
      obtain rfl := Option.some.inj h
      exact hs.task hposted
  | close =>
    simp only [Lifecycle.exec] at h
    split_ifs at h
    obtain rfl := Option.some.inj h
    exact ⟨hs.pending, hs.counter, fun _ _ => ⟨rfl, rfl⟩, fun hup => absurd hup.acceptorOpen (by simp)⟩
  | accept ec =>
    simp only [Lifecycle.exec] at h
    rw [Option.ite_none_right_eq_some] at h
    obtain ⟨-, h⟩ := h
    obtain rfl := Option.some.inj h
    by_cases hstarted : s.isStarted = true
    · rw [if_pos hstarted]
      have hstate : s.server.state = .started := by
        simp only [isStarted, Server.isStarted, Bool.and_eq_true, decide_eq_true_eq] at hstarted
        exact hstarted.1
      refine ⟨?_, hs.counter, hs.idle, fun hup => hs.last (hup.same rfl rfl rfl rfl)⟩
      have hpending := hs.pending
      unfold Lifecycle.pending at hpending ⊢
      simpa [hs.counter hstate] using hpending
    · rw [if_neg hstarted]
      exact ⟨hs.pending, hs.counter, fun hstate hclosing => ⟨(hs.idle hstate hclosing).1, rfl⟩,
        fun hup => hs.last (hup.same rfl rfl rfl rfl)⟩
  | acceptAborted =>
    simp only [Lifecycle.exec] at h
    split_ifs at h
    obtain rfl := Option.some.inj h
    exact hs.doStop
  | sessionEnd =>
    simp only [Lifecycle.exec] at h
    split_ifs at h with hsome
    obtain rfl := Option.some.inj h
    exact hs.sessionEnd hsome

lemma inv_init (ios : ℕ) : ({ server := { pool := { ios := ios } } } : Lifecycle).Inv := by
  refine ⟨by simp [pending], by simp, fun _ _ => ⟨rfl, rfl⟩, fun hup => absurd hup.state (by simp)⟩

end Invariant

section Up

lemma stop_down (inside : Bool) : ¬(s.stop inside).Up := by
  intro hup
  have hstate : (s.stop inside).server.state = s.server.doStop.state := by
    unfold Lifecycle.stop
    dsimp only
    split_ifs
    all_goals rfl
  have hstarted := hstate.symm.trans hup.state
  rcases doStop_cases s.server with ⟨-, hstop⟩ | ⟨-, hne, hstop⟩
  · rw [hstop] at hstarted
    cases hstarted
  · rw [hstop] at hstarted
    exact hne hstarted

lemma start_up (hs : s.Inv) :
    (s.start spawns throws).Up ↔ s.Up ∨ s.Starts (.start spawns throws) := by
  by_cases hstate : s.server.state = .stopped
  · have hdown : ¬s.Up := fun hup => by simp [hup.state] at hstate
    rcases @start_cases s spawns throws hstate with
      ⟨hnext, -, -, hnot⟩ | ⟨hnext, -, -, hnot⟩ | ⟨hcan, hnone, hnext, -, hopen, -⟩
    · exact iff_of_false (fun hup => by simp [hup.state] at hnext) (not_or.mpr ⟨hdown, hnot⟩)
    · exact iff_of_false (fun hup => by simp [hup.state] at hnext) (not_or.mpr ⟨hdown, hnot⟩)
    · constructor
      · intro hup
        refine Or.inr ⟨hstate, start_closing.symm.trans hup.closing, ?_, spawns, throws, rfl, hcan, hnone⟩
        by_contra haborted
        have htrue := @start_aborted s spawns throws (by simpa using haborted)
        rw [hup.aborted] at htrue
        cases htrue
      · rintro (hup | ⟨-, hclosing, haborted, -⟩)
        · exact absurd hup hdown
        · refine ⟨hnext, hopen, start_closing.trans hclosing, ?_⟩
          obtain ⟨q, b, hpool, hrun, -, -⟩ := Pool.start_of_canRun hcan
          have hnothing : (s.server.doStart spawns throws).1.accepting = false := by
            rw [Server.doStart_succeeds hstate hpool hrun hnone]
            exact (hs.idle hstate hclosing).2
          unfold start
          dsimp only
          rw [if_neg (by simp [hnothing])]
          exact haborted
  · have hnot : ¬s.Starts (.start spawns throws) := fun hstarts => hstate hstarts.1
    rw [start_of_ne hstate, or_iff_left hnot]
    exact up_same rfl rfl rfl rfl

/-- A server comes up only by a start, and goes down only by a stop. -/
lemma Inv.up_iff (hs : s.Inv) (h : s.exec op = some t) :
    t.Up ↔ (s.Up ∧ ∀ inside, op ≠ .stop inside) ∨ s.Starts op := by
  have hsame : (∀ inside, op ≠ .stop inside) → (∀ spawns throws, op ≠ .start spawns throws) → (t.Up ↔ s.Up) →
      (t.Up ↔ (s.Up ∧ ∀ inside, op ≠ .stop inside) ∨ s.Starts op) := by
    intro hstop hstart hup
    have hnot : ¬s.Starts op := by
      rintro ⟨-, -, -, spawns, throws, hop, -⟩
      exact hstart spawns throws hop
    rw [or_iff_left hnot, and_iff_left hstop, hup]
  cases op with
  | start spawns throws =>
    obtain rfl := Option.some.inj h
    rw [start_up hs, and_iff_left (by simp)]
  | stop inside =>
    obtain rfl := Option.some.inj h
    refine iff_of_false (stop_down inside) ?_
    rintro (⟨-, hne⟩ | ⟨-, -, -, spawns, throws, hop, -⟩)
    · exact hne inside rfl
    · cases hop
  | joined =>
    simp only [Lifecycle.exec] at h
    split_ifs at h
    obtain rfl := Option.some.inj h
    exact hsame (by simp) (by simp) (up_same rfl rfl rfl rfl)
  | task =>
    refine hsame (by simp) (by simp) ?_
    simp only [Lifecycle.exec] at h
    split at h
    · cases h
    next task rest hposted =>
      split_ifs at h
      obtain rfl := Option.some.inj h
      cases task with
      | stop =>
        obtain ⟨hstate, -⟩ := hs.of_posted hposted (by decide)
        refine iff_of_false (fun hup => ?_) fun hup => hup.ne_stopping hstate
        unfold Lifecycle.run at hup
        dsimp only at hup
        split_ifs at hup
        · exact (dropCounter_up.mp hup).ne_stopping hstate
        · exact hup.ne_stopping hstate
      | final =>
        obtain ⟨hstate, -⟩ := hs.of_posted hposted (by decide)
        refine iff_of_false (fun hup => ?_) fun hup => hup.ne_stopping hstate
        have hclosing := hup.state
        unfold Lifecycle.run at hclosing
        simp [hstate] at hclosing
      | postAccept =>
        unfold Lifecycle.run Server.run
        dsimp only
        split_ifs
        all_goals exact up_same rfl rfl rfl rfl
  | close =>
    simp only [Lifecycle.exec] at h
    split_ifs at h with hclosing
    obtain rfl := Option.some.inj h
    refine hsame (by simp) (by simp) (iff_of_false (fun hup => ?_) fun hup => ?_)
    · cases hup.acceptorOpen
    · rw [hup.closing] at hclosing
      cases hclosing
  | accept ec =>
    simp only [Lifecycle.exec] at h
    split_ifs at h
    all_goals
      obtain rfl := Option.some.inj h
      exact hsame (by simp) (by simp) (up_same rfl rfl rfl rfl)
  | acceptAborted =>
    simp only [Lifecycle.exec] at h
    split_ifs at h with hguard
    obtain rfl := Option.some.inj h
    refine hsame (by simp) (by simp) (iff_of_false (fun hup => ?_) fun hup => ?_)
    · have hstarted := hup.state
      rcases doStop_cases s.server with ⟨-, hstop⟩ | ⟨-, hne, hstop⟩
      · simp [hstop] at hstarted
      · simp [hstop, hne] at hstarted
    · have haborted := hguard.1
      rw [hup.aborted] at haborted
      cases haborted
  | sessionEnd =>
    simp only [Lifecycle.exec] at h
    split_ifs at h
    obtain rfl := Option.some.inj h
    refine hsame (by simp) (by simp) (dropCounter_up.trans ?_)
    exact up_same rfl rfl rfl rfl

end Up

end Lifecycle

section Runs
variable {ios : ℕ} {ops : List Op} {s : Lifecycle} {op : Op}

lemma runs_unique {t : Lifecycle} (hs : Traces (lifecycleRuns ios) ops s) (ht : Traces (lifecycleRuns ios) ops t) :
    s = t := by
  refine Traces.unique (S := lifecycleRuns ios) ?_ ?_ hs ht
  · exact fun s t hs ht => hs.trans ht.symm
  · exact fun s op t u ht hu => Option.some.inj (ht.symm.trans hu)

lemma leftRunning_snoc (h : Traces (lifecycleRuns ios) ops s) :
    LeftRunning ios (ops ++ [op]) ↔ (LeftRunning ios ops ∧ ∀ inside, op ≠ .stop inside) ∨ s.Starts op := by
  constructor
  · rintro ⟨pre, first, post, u, heq, hu, hstarts, hpost⟩
    rcases List.eq_nil_or_concat post with rfl | ⟨post, last, rfl⟩
    · obtain ⟨rfl, hop⟩ := List.append_inj' heq rfl
      obtain rfl := List.singleton_inj.mp hop
      obtain rfl := runs_unique h hu
      exact Or.inr hstarts
    · rw [List.concat_eq_append, ← List.cons_append, ← List.append_assoc] at heq
      obtain ⟨rfl, hop⟩ := List.append_inj' heq rfl
      obtain rfl := List.singleton_inj.mp hop
      rw [List.concat_eq_append] at hpost
      refine Or.inl ⟨⟨pre, first, post, u, rfl, hu, hstarts, fun inside hmem => ?_⟩, fun inside hop => ?_⟩
      · exact hpost inside (List.mem_append_left _ hmem)
      · exact hpost inside (hop ▸ List.mem_append_right _ List.mem_cons_self)
  · rintro (⟨⟨pre, first, post, u, rfl, hu, hstarts, hpost⟩, hop⟩ | hstarts)
    · refine ⟨pre, first, post ++ [op], u, by rw [List.append_assoc, List.cons_append], hu, hstarts,
        fun inside hmem => ?_⟩
      rcases List.mem_append.mp hmem with hmem | hmem
      · exact hpost inside hmem
      · exact hop inside (List.mem_singleton.mp hmem).symm
    · exact ⟨ops, op, [], s, rfl, h, hstarts, fun _ => List.not_mem_nil⟩

/-- The state of a server says whether the run has left it running. -/
lemma runs_up (h : Traces (lifecycleRuns ios) ops s) : s.Inv ∧ (s.Up ↔ LeftRunning ios ops) := by
  have key : Traces (lifecycleRuns ios) ops s ∧ s.Inv ∧ (s.Up ↔ LeftRunning ios ops) := by
    refine h.induction (I := fun ops s => Traces (lifecycleRuns ios) ops s ∧ s.Inv ∧ (s.Up ↔ LeftRunning ios ops)) ?_ ?_
    · rintro s rfl
      refine ⟨.nil rfl, Lifecycle.inv_init ios, iff_of_false (fun hup => by cases hup.state) ?_⟩
      rintro ⟨pre, first, post, u, heq, -⟩
      simp at heq
    · rintro ops s op t ⟨htrace, hinv, hup⟩ hstep
      refine ⟨htrace.snoc hstep, hinv.exec hstep, ?_⟩
      rw [hinv.up_iff hstep, leftRunning_snoc htrace, hup]
  exact key.2

/-- Once everything is done, one of the two predicates holds, and the right one, if and only if a
start of the run has gone through and nobody has stopped the server since. -/
theorem lifecycle_partitioned_iff (h : Traces (lifecycleRuns ios) ops s) (hdrained : s.Drained) :
    s.Partitioned ↔ LeftRunning ios ops := by
  obtain ⟨hinv, hup⟩ := runs_up h
  rw [← hup]
  have hnot : ¬s.isStopped = true := by
    intro hstopped
    simp only [Lifecycle.isStopped, Bool.and_eq_true, decide_eq_true_eq] at hstopped
    have hclosed := (hinv.idle hstopped.1 hdrained.closing).1
    rw [hstopped.2] at hclosed
    cases hclosed
  have hstarted : s.isStarted = true ↔ s.Up := by
    simp only [Lifecycle.isStarted, Server.isStarted, Bool.and_eq_true, decide_eq_true_eq]
    exact ⟨fun hs => ⟨hs.1, hs.2, hdrained.closing, hdrained.aborted⟩, fun hs => ⟨hs.state, hs.acceptorOpen⟩⟩
  constructor
  · intro hpart
    rcases hpart.one with ⟨hs, -⟩ | ⟨hs, -⟩
    · exact hstarted.mp hs
    · exact absurd hs hnot
  · intro hs
    exact ⟨Or.inl ⟨hstarted.mpr hs, hnot⟩, fun hlast => absurd hlast (hinv.last hs), fun _ => hstarted.mpr hs⟩

end Runs

/-- A start of which no step fails. -/
def goodStart : Op := .start (fun _ => true) fun _ => false

theorem lifecycle_partitioned_started : ∃ s, Traces (lifecycleRuns 1) [goodStart, .task] s ∧ s.Partitioned := by
  have h0 : Traces (lifecycleRuns 1) [] { server := { pool := { ios := 1 } } } := .nil rfl
  have h1 := h0.snoc (l := goodStart) rfl
  have h2 := h1.snoc (l := Op.task) rfl
  refine ⟨_, h2, (lifecycle_partitioned_iff h2 ⟨rfl, rfl, rfl, fun _ => rfl, rfl⟩).mpr
    ⟨[], goodStart, [.task], _, rfl, h0, ?_, by simp⟩⟩
  exact ⟨rfl, rfl, rfl, _, _, rfl, Or.inr ⟨rfl, rfl, fun _ _ => rfl⟩, fun _ => rfl⟩

/-- A stop that is done leaves the server stopped, but its acceptor is closed: neither predicate
holds. -/
theorem stopped_is_not_stopped : ∃ s,
    Traces (lifecycleRuns 1)
      [goodStart, .task, .stop false, .task, .task, .close, .acceptAborted, .joined] s ∧
      s.Drained ∧ s.last = some .stop ∧ s.server.state = .stopped ∧ s.isStarted = false ∧ s.isStopped = false ∧
      ¬s.Partitioned := by
  have h0 : Traces (lifecycleRuns 1) [] { server := { pool := { ios := 1 } } } := .nil rfl
  have h1 := h0.snoc (l := goodStart) rfl
  have h2 := h1.snoc (l := Op.task) rfl
  have h3 := h2.snoc (l := Op.stop false) rfl
  have h4 := h3.snoc (l := Op.task) rfl
  have h5 := h4.snoc (l := Op.task) rfl
  have h6 := h5.snoc (l := Op.close) rfl
  have h7 := h6.snoc (l := Op.acceptAborted) rfl
  have h8 := h7.snoc (l := Op.joined) rfl
  refine ⟨_, h8, ⟨rfl, rfl, rfl, fun _ => rfl, rfl⟩, rfl, rfl, rfl, rfl, fun hpart => ?_⟩
  have hstopped := hpart.stopped rfl
  cases hstopped

end TyphoonZero.NetLifecycle
