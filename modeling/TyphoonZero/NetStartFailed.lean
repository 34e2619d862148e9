import TyphoonZero.NetStart

/-! A failed start leaves its endpoint restartable if and only if the io pool runs, and an
asynchronous start fails before it returns. -/
namespace TyphoonZero.NetStart

namespace Pool
variable {spawns : ℕ → Bool} {p : Pool}

lemma spawn_eq_true (n : ℕ) (h : ∀ i < p.threads + n, spawns i = true) :
    spawn spawns n p = ({ p with workers := p.workers + n, threads := p.threads + n }, true) := by
  induction n generalizing p with
  | zero => rfl
  | succ n ih =>
    have hnow : spawns p.threads = true := h _ (by omega)
    have hrest := @ih { p with workers := p.workers + 1, threads := p.threads + 1 } fun i hi => h i (by
      simp only at hi
      omega)
    simp only [spawn, hnow, if_true, hrest, Nat.add_assoc, Nat.add_comm 1 n]

/-- An exception stops the pool from being marked as started, and leaves fewer threads. -/
lemma spawn_eq_false (n : ℕ) {i : ℕ} (hi : p.threads ≤ i ∧ i < p.threads + n) (h : spawns i = false) :
    ∃ q, spawn spawns n p = (q, false) ∧ q.stopped = p.stopped ∧ q.threads < p.threads + n := by
  induction n generalizing p with
  | zero => omega
  | succ n ih =>
    by_cases hnow : spawns p.threads = true
    · have hne : i ≠ p.threads := by
        rintro rfl
        rw [h] at hnow
        cases hnow
      obtain ⟨q, hq, hstopped, hthreads⟩ :=
        @ih { p with workers := p.workers + 1, threads := p.threads + 1 } ⟨by simp only; omega, by simp only; omega⟩
      refine ⟨q, ?_, hstopped, by simp only at hthreads; omega⟩
      simp only [spawn, hnow, if_true, hq]
    · refine ⟨{ p with workers := p.workers + 1 }, ?_, rfl, by simp only; omega⟩
      simp only [spawn, hnow, if_false, Bool.false_eq_true]

/-- A pool that can run runs after its start. -/
lemma start_of_canRun (h : p.CanRun spawns) :
    ∃ q b, p.start spawns = (q, some b) ∧ q.stopped = false ∧ (p.Ok → q.Ok) ∧ q.ios = p.ios := by
  rcases h with hrun | ⟨hworkers, hthreads, hspawns⟩
  · exact ⟨p, false, if_pos hrun, hrun, id, rfl⟩
  · by_cases hrun : p.stopped = false
    · exact ⟨p, false, if_pos hrun, hrun, id, rfl⟩
    · have hspawn := spawn_eq_true (p := p) p.ios fun i hi => hspawns i (by omega)
      refine ⟨{ p with workers := p.workers + p.ios, threads := p.threads + p.ios, stopped := false }, true, ?_, rfl,
        fun hok => ⟨hok.ios, fun _ => ⟨by simp only; omega, by simp only; omega⟩⟩, rfl⟩
      rw [start, if_neg hrun, if_neg (by omega), hspawn]

/-- Otherwise it is still marked as stopped: a start is refused during a stop, or a thread cannot be
created. -/
lemma start_of_not_canRun (h : ¬p.CanRun spawns) :
    (p.start spawns).1.stopped = true ∧ ((p.start spawns).2 = some false ∨
      ((p.start spawns).2 = none ∧ (p.start spawns).1.threads < p.ios)) := by
  rw [CanRun, not_or] at h
  obtain ⟨hrun, hspawns⟩ := h
  have hstopped : p.stopped = true := by simpa using hrun
  by_cases hbusy : p.workers ≠ 0 ∨ p.threads ≠ 0
  · rw [start, if_neg hrun, if_pos hbusy]
    exact ⟨hstopped, Or.inl rfl⟩
  · have hnone : ∃ i < p.ios, spawns i = false := by
      by_contra hall
      refine hspawns ⟨by omega, by omega, fun i hi => ?_⟩
      by_contra hi'
      exact hall ⟨i, hi, by simpa using hi'⟩
    obtain ⟨i, hi, hfalse⟩ := hnone
    obtain ⟨q, hq, hqstopped, hqthreads⟩ := spawn_eq_false (p := p) p.ios (by omega) hfalse
    rw [start, if_neg hrun, if_neg hbusy, hq]
    exact ⟨hqstopped.trans hstopped, Or.inr ⟨rfl, by simp only; omega⟩⟩

/-- A pool that runs is left as it is by the next start. -/
lemma start_of_running (h : p.stopped = false) : p.start spawns = (p, some false) := if_pos h

lemma Ok.threads_pos (hok : p.Ok) (h : p.stopped = false) : 0 < p.threads := by
  have hios := hok.ios
  have hthreads := (hok.running h).2
  omega

end Pool

namespace Server
variable {spawns : ℕ → Bool} {throws : ServerStep → Bool} {s t : Server}

lemma runTask_cons {task : ServerTask} {rest : List ServerTask} (hposted : s.posted = task :: rest)
    (hthreads : 0 < s.pool.threads) : s.runTask = { s with posted := rest }.run task := by
  rw [runTask, hposted]
  exact if_pos hthreads

lemma Drains.next (h : s.runTask.Drains t) : s.Drains t := by
  obtain ⟨n, hn, ht⟩ := h
  exact ⟨n + 1, hn, ht⟩

lemma Drains.refl (h : s.posted = []) : s.Drains s := ⟨0, rfl, h⟩

/-- The stop that a failed start posts drops the counter, whose deleter posts the final stop. -/
lemma stopping_drains (hstate : s.state = .stopping) (hcounter : s.counter = true)
    (hposted : s.posted = [.stop]) (hthreads : 0 < s.pool.threads) :
    s.Drains { s with
      state := .stopped, counter := false, counterTimer := false, accepting := false
      acceptorOpen := false, posted := [] } := by
  have hstop : s.runTask = { s with counter := false, counterTimer := true, posted := [.final] } := by
    rw [runTask_cons hposted hthreads, run, if_pos hcounter]
    rfl
  have hfinal : ({ s with counter := false, counterTimer := true, posted := [.final] } : Server).runTask =
      { s with
        state := .stopped, counter := false, counterTimer := false, accepting := false
        acceptorOpen := false, posted := [] } := by
    rw [runTask_cons (s := { s with counter := false, counterTimer := true, posted := [.final] }) rfl hthreads]
    exact if_pos hstate
  apply Drains.next
  rw [hstop]
  apply Drains.next
  rw [hfinal]
  exact Drains.refl rfl

lemma Idle.stopReturns (hs : s.Idle) : s.StopReturns := by
  right
  refine ⟨s, ?_, hs.counterTimer, hs.accepting⟩
  have hstop : s.doStop = s := if_neg (by simp [hs.state])
  rw [hstop]
  exact Drains.refl hs.posted

/-- `DoStop` after a failed step posts the stop task. -/
lemma handleStart_failed (hstate : s.state = .starting) {ec : Bool} (hfail : ec = true ∨ throws .fireStart = true) :
    s.handleStart throws ec = { s with state := .stopping }.post .stop := by
  cases ec with
  | true => simp [handleStart, doStop, hstate, post]
  | false =>
    have hfire : throws .fireStart = true := by simpa using hfail
    simp [handleStart, doStop, hstate, post, hfire]

/-- `listenOn` touches only the acceptor. -/
lemma listenOn_fst : (s.listenOn throws).1 = { s with acceptorOpen := (s.listenOn throws).1.acceptorOpen } := by
  unfold listenOn
  split_ifs
  all_goals rfl

/-- Only `FireStart` can still throw when `listenOn` has succeeded. -/
lemma eq_fireStart_of_listenOn (h : (s.listenOn throws).2 = true) {step : ServerStep}
    (hstep : throws step = true) : step = .fireStart := by
  unfold listenOn at h
  split_ifs at h
  cases step <;> simp_all

/-- A start that fails with the io pool running posts the stop of the server. -/
lemma doStart_failed (hstate : s.state = .stopped) {q : Pool} {b : Bool} (hpool : s.pool.start spawns = (q, some b))
    (hrun : q.stopped = false) (hfail : ∃ step, throws step = true) :
    ∃ isOpen, s.doStart spawns throws =
      ({ s with
        state := .stopping, pool := q, counter := true, acceptorOpen := isOpen, posted := s.posted ++ [.stop] },
        false) := by
  obtain ⟨u, ok, hlisten, hu⟩ : ∃ u ok,
      ({ s with state := .starting, pool := q, counter := true } : Server).listenOn throws = (u, ok) ∧
        u = { s with state := .starting, pool := q, counter := true, acceptorOpen := u.acceptorOpen } :=
    ⟨_, _, rfl, listenOn_fst⟩
  have hstarting : u.state = .starting := by rw [hu]
  have hstopped : ({ u with state := .stopping } : Server).post .stop =
      { s with
        state := .stopping, pool := q, counter := true, acceptorOpen := u.acceptorOpen
        posted := s.posted ++ [.stop] } := by
    rw [hu]
    rfl
  refine ⟨u.acceptorOpen, ?_⟩
  simp only [doStart, hstate, hpool, hrun, ne_eq, not_true_eq_false, if_false, Bool.false_eq_true]
  cases ok with
  | true =>
    obtain ⟨step, hstep⟩ := hfail
    have hfire : throws .fireStart = true := by
      rw [← eq_fireStart_of_listenOn (congrArg Prod.snd hlisten) hstep]
      exact hstep
    have hhandle := @handleStart_failed throws u hstarting false (Or.inr hfire)
    simp only [hlisten, hhandle, hstopped]
    rfl
  | false =>
    have hhandle := @handleStart_failed throws u hstarting true (Or.inl rfl)
    simp only [hlisten, hhandle, hstopped]

lemma doStart_succeeds (hstate : s.state = .stopped) {q : Pool} {b : Bool}
    (hpool : s.pool.start spawns = (q, some b)) (hrun : q.stopped = false) (hnone : ∀ step, throws step = false) :
    s.doStart spawns throws =
      ({ s with
        state := .started, pool := q, counter := true, acceptorOpen := true, posted := s.posted ++ [.postAccept] },
        true) := by
  simp [doStart, hstate, hpool, hrun, listenOn, handleStart, isStarted, post, hnone]

/-- Without the io pool the server stays in `Starting`, or it goes to `Stopping` before there is a
counter. -/
lemma doStart_without_pool (hstate : s.state = .stopped) (h : ¬s.pool.CanRun spawns) :
    ∃ q, s.doStart spawns throws = ({ s with state := .starting, pool := q }, false) ∨
      s.doStart spawns throws = ({ s with state := .stopping, pool := q, posted := s.posted ++ [.stop] }, false) := by
  obtain ⟨hstopped, hresult⟩ := Pool.start_of_not_canRun h
  generalize hpool : s.pool.start spawns = r at hstopped hresult
  obtain ⟨q, result⟩ := r
  refine ⟨q, ?_⟩
  rcases hresult with rfl | ⟨rfl, -⟩
  · have hq : q.stopped = true := hstopped
    left
    simp only [doStart, hstate, hpool, hq, ne_eq, not_true_eq_false, if_false, if_true]
  · have hhandle := @handleStart_failed throws { s with state := .starting, pool := q } rfl true (Or.inl rfl)
    right
    simp only [doStart, hstate, hpool, hhandle, ne_eq, not_true_eq_false, if_false]
    rfl

lemma Idle.accepts (hs : s.Idle) (hrun : s.pool.stopped = false) : s.Accepts := by
  rw [Accepts, doStart_succeeds hs.state (Pool.start_of_running hrun) hrun fun _ => rfl]

/-- What a server keeps that a stop can no longer bring to `Stopped`. -/
structure Stuck (s : Server) : Prop where
  state : s.state ≠ .stopped
  counter : s.counter = false
  posted : ∀ task ∈ s.posted, task = .stop

lemma Stuck.runTask (hs : s.Stuck) : s.runTask.Stuck := by
  unfold Server.runTask
  split
  · exact hs
  next task rest hposted =>
    split_ifs
    · have hmem : ∀ x ∈ task :: rest, x = .stop := hposted ▸ hs.posted
      obtain rfl := hmem task List.mem_cons_self
      have hrun : ({ s with posted := rest } : Server).run .stop =
          { s with counterTimer := true, counter := false, posted := rest } := by
        simp only [run, hs.counter, Bool.false_eq_true, if_false]
      rw [hrun]
      exact ⟨hs.state, rfl, fun x hx => hmem x (List.mem_cons_of_mem _ hx)⟩
    · exact hs

lemma Stuck.not_stopped (hs : s.Stuck) (h : s.Drains t) : t.state ≠ .stopped := by
  obtain ⟨n, rfl, -⟩ := h
  induction n generalizing s with
  | zero => exact hs.state
  | succ n ih => exact ih hs.runTask

lemma doStart_stuck (hs : s.Idle) (h : ¬s.pool.CanRun spawns) : (s.doStart spawns throws).1.Stuck := by
  obtain ⟨q, hstart | hstart⟩ := @doStart_without_pool spawns throws s hs.state h
  · rw [hstart]
    exact ⟨by simp, hs.counter, by simp [hs.posted]⟩
  · rw [hstart]
    exact ⟨by simp, hs.counter, by simp [hs.posted]⟩

/-- A server can be started again after a failed start if and only if the io pool runs. -/
lemma restartable_iff (hs : s.Idle) (hfail : ¬s.pool.CanRun spawns ∨ ∃ step, throws step = true) :
    Restartable (s.doStart spawns throws) ↔ s.pool.CanRun spawns := by
  constructor
  · intro h
    by_contra hcan
    obtain ⟨t, hdrains, hstopped, -⟩ := h.drains
    exact (doStart_stuck hs hcan).not_stopped hdrains hstopped
  · intro hcan
    obtain ⟨q, b, hpool, hrun, hkeeps, -⟩ := Pool.start_of_canRun hcan
    have hok := hkeeps hs.pool
    obtain ⟨isOpen, hstart⟩ := doStart_failed hs.state hpool hrun (hfail.resolve_left (not_not_intro hcan))
    rw [hstart, hs.posted]
    have hidle : ({ s with
        state := .stopped, pool := q, counter := false, acceptorOpen := false, counterTimer := false
        accepting := false, posted := [] } : Server).Idle :=
      ⟨rfl, hok, rfl, rfl, rfl, rfl⟩
    exact ⟨rfl, _, stopping_drains rfl rfl rfl (hok.threads_pos hrun), rfl, rfl, hidle.accepts hrun,
      hidle.stopReturns⟩

end Server

namespace ClientTask

/-- A task weighs more than what it can post and arm. -/
def weight : ClientTask → ℕ
  | connectTimerHandler | startRecv => 1
  | wake | reconnectHandler | stopReconnect | stop => 2
  | connectTimer | disconnect _ => 3
  | connected _ => 4
  | resolved => 5
  | resolve => 6

end ClientTask

namespace Client
variable {isAsync : Bool} {spawns : ℕ → Bool} {throws : ClientStep → Bool} {c t : Client}

section Drains

/-- What is posted and armed, by its weight. -/
def load (c : Client) : ℕ :=
  (c.posted.map ClientTask.weight).sum + c.reconnectTimer.toNat + 2 * c.connectTimer.toNat

lemma load_post (task : ClientTask) : (c.post task).load = c.load + task.weight := by
  simp only [load, post, List.map_append, List.sum_append, List.map_singleton, List.sum_singleton]
  omega

lemma load_cancelReconnectTimer : c.cancelReconnectTimer.load ≤ c.load + 1 := by
  unfold cancelReconnectTimer
  split_ifs with htimer
  · rw [load_post]
    simp only [load, htimer, ClientTask.weight, Bool.toNat_true, Bool.toNat_false]
    omega
  · exact Nat.le_succ _

lemma load_stopConnectTimeoutTimer : c.stopConnectTimeoutTimer.load ≤ c.load := by
  unfold stopConnectTimeoutTimer
  split_ifs with htimer
  · rw [load_post]
    simp only [load, htimer, ClientTask.weight, Bool.toNat_true, Bool.toNat_false]
    omega
  · exact le_rfl

lemma load_doDisconnect : (c.doDisconnect .wake).load ≤ c.load + 3 := by
  unfold doDisconnect
  split_ifs
  · exact (load_post _).le
  · exact Nat.le_add_right _ _

lemma load_doneConnect (ec : Bool) : (c.doneConnect throws ec).load ≤ c.load + 3 := by
  have hstop := @load_stopConnectTimeoutTimer c
  unfold doneConnect
  dsimp only
  split_ifs
  · exact load_doDisconnect.trans (Nat.add_le_add_right hstop 3)
  · rw [load_post]
    exact (Nat.add_le_add_right hstop 1).trans (by omega)
  · exact load_doDisconnect.trans (Nat.add_le_add_right hstop 3)

/-- Every task leaves less to do than its own weight. -/
lemma load_run (task : ClientTask) : (c.run throws task).load < c.load + task.weight := by
  cases task with
  | connectTimer =>
    have hle := Bool.toNat_le c.connectTimer
    simp only [run, load, ClientTask.weight, Bool.toNat_true]
    omega
  | connectTimerHandler => exact Nat.lt_succ_self _
  | resolve =>
    rw [run, load_post]
    exact Nat.lt_succ_self _
  | resolved =>
    have hdone := @load_doneConnect throws c true
    simp only [run, ClientTask.weight]
    split_ifs
    · omega
    · rw [load_post]
      simp only [load, ClientTask.weight, Bool.toNat_false]
      omega
    · rw [load_post]
      exact Nat.lt_succ_self _
  | connected ec =>
    have hdone := @load_doneConnect throws c ec
    simp only [run, ClientTask.weight]
    omega
  | startRecv =>
    simp only [run, ClientTask.weight]
    split_ifs
    all_goals exact Nat.lt_succ_self _
  | disconnect defer =>
    simp only [run]
    split_ifs
    · rw [load_post]
      cases defer with
      | wake | stop => exact Nat.lt_succ_self _
    · exact Nat.lt_add_of_pos_right (Nat.succ_pos 2)
  | wake =>
    have hcancel := @load_cancelReconnectTimer c
    simp only [run, ClientTask.weight]
    split_ifs
    · omega
    · omega
  | reconnectHandler =>
    have hle := Bool.toNat_le c.reconnectTimer
    simp only [run, ClientTask.weight]
    split_ifs
    · exact Nat.lt_add_of_pos_right (by decide)
    · simp only [load, Bool.toNat_true]
      omega
  | stopReconnect =>
    have hcancel := @load_cancelReconnectTimer { c with reconnectCanceled := true }
    exact hcancel.trans_lt (Nat.lt_succ_self _)
  | stop =>
    have hcancel := @load_cancelReconnectTimer { c with reconnectCanceled := true }
    exact (load_stopConnectTimeoutTimer.trans hcancel).trans_lt (Nat.lt_succ_self _)

lemma runTask_cons {task : ClientTask} {rest : List ClientTask} (hposted : c.posted = task :: rest)
    (hthreads : 0 < c.pool.threads) : c.runTask throws = { c with posted := rest }.run throws task := by
  rw [runTask, hposted]
  exact if_pos hthreads

lemma load_runTask {task : ClientTask} {rest : List ClientTask} (hposted : c.posted = task :: rest)
    (hthreads : 0 < c.pool.threads) : (c.runTask throws).load < c.load := by
  rw [runTask_cons hposted hthreads]
  refine (load_run task).trans_le ?_
  simp only [load, hposted, List.map_cons, List.sum_cons]
  omega

/-- The pool is left alone. -/
lemma cancelReconnectTimer_pool : c.cancelReconnectTimer.pool = c.pool := by
  unfold cancelReconnectTimer
  split_ifs
  all_goals rfl

lemma stopConnectTimeoutTimer_pool : c.stopConnectTimeoutTimer.pool = c.pool := by
  unfold stopConnectTimeoutTimer
  split_ifs
  all_goals rfl

lemma doDisconnect_pool (defer : Defer) : (c.doDisconnect defer).pool = c.pool := by
  unfold doDisconnect
  split_ifs
  · rfl
  · cases defer with
    | wake | stop => rfl

lemma doneConnect_pool (ec : Bool) : (c.doneConnect throws ec).pool = c.pool := by
  unfold doneConnect
  dsimp only
  split_ifs
  · exact (doDisconnect_pool _).trans stopConnectTimeoutTimer_pool
  · exact stopConnectTimeoutTimer_pool
  · exact (doDisconnect_pool _).trans stopConnectTimeoutTimer_pool

lemma run_pool (task : ClientTask) : (c.run throws task).pool = c.pool := by
  cases task with
  | connectTimer | connectTimerHandler | resolve => rfl
  | resolved =>
    simp only [run]
    split_ifs
    · exact doneConnect_pool true
    · rfl
    · rfl
  | connected ec => exact doneConnect_pool ec
  | startRecv | disconnect defer | reconnectHandler =>
    simp only [run]
    split_ifs
    all_goals rfl
  | wake =>
    simp only [run]
    split_ifs
    · exact cancelReconnectTimer_pool
    · rfl
  | stopReconnect => exact cancelReconnectTimer_pool
  | stop => exact stopConnectTimeoutTimer_pool.trans cancelReconnectTimer_pool

lemma runTask_pool : (c.runTask throws).pool = c.pool := by
  unfold runTask
  split
  · rfl
  · split_ifs
    · exact run_pool _
    · rfl

/-- On a strand that runs, everything posted is done in the end. -/
lemma exists_drains (hthreads : 0 < c.pool.threads) : ∃ t, c.Drains throws t := by
  induction hload : c.load using Nat.strong_induction_on generalizing c with
  | _ n ih =>
    cases hposted : c.posted with
    | nil => exact ⟨c, 0, rfl, hposted⟩
    | cons task rest =>
      have hlt := @load_runTask throws c task rest hposted hthreads
      obtain ⟨t, m, hm, ht⟩ := ih _ (hload ▸ hlt) (by rw [runTask_pool]; exact hthreads) rfl
      exact ⟨t, m + 1, hm, ht⟩

/-- What every task keeps holds when everything is done. -/
lemma Drains.invariant (h : c.Drains throws t) {P : Client → Prop} (hstep : ∀ d, P d → P (d.runTask throws))
    (hc : P c) : P t := by
  obtain ⟨n, rfl, -⟩ := h
  induction n generalizing c with
  | zero => exact hc
  | succ n ih => exact ih (hstep c hc)

lemma Drains.posted (h : c.Drains throws t) : t.posted = [] := by
  obtain ⟨-, -, hposted⟩ := h
  exact hposted

lemma runTask_cases {P : Client → Prop} (hc : P c)
    (hrun : ∀ task rest, c.posted = task :: rest → P ({ c with posted := rest }.run throws task)) :
    P (c.runTask throws) := by
  unfold runTask
  split
  · exact hc
  next task rest hposted =>
    split_ifs
    · exact hrun task rest hposted
    · exact hc

end Drains

section Core

lemma core_post (task : ClientTask) : (c.post task).core = c.core ++ [task].filter ClientTask.isCore :=
  List.filter_append _ _

lemma core_cons {task : ClientTask} {rest : List ClientTask} (hposted : c.posted = task :: rest) :
    c.core = if task.isCore then task :: ({ c with posted := rest } : Client).core
      else ({ c with posted := rest } : Client).core := by
  rw [core, hposted, List.filter_cons]
  rfl

/-- What stopping and waking the timers leaves as it is. -/
structure Aside (c t : Client) : Prop where
  state : t.state = c.state
  socketOpen : t.socketOpen = c.socketOpen
  receiving : t.receiving = c.receiving
  connectTimer : c.connectTimer = false → t.connectTimer = false
  core : t.core = c.core

lemma Aside.refl (c : Client) : Aside c c := ⟨rfl, rfl, rfl, id, rfl⟩

lemma Aside.trans {d : Client} (h : Aside c d) (h' : Aside d t) : Aside c t :=
  ⟨h'.state.trans h.state, h'.socketOpen.trans h.socketOpen, h'.receiving.trans h.receiving,
    fun hc => h'.connectTimer (h.connectTimer hc), h'.core.trans h.core⟩

lemma cancelReconnectTimer_aside : Aside c c.cancelReconnectTimer := by
  unfold cancelReconnectTimer
  split_ifs
  · exact ⟨rfl, rfl, rfl, id, (core_post _).trans (List.append_nil _)⟩
  · exact .refl c

lemma stopConnectTimeoutTimer_aside : Aside c c.stopConnectTimeoutTimer := by
  unfold stopConnectTimeoutTimer
  split_ifs
  · exact ⟨rfl, rfl, rfl, fun _ => rfl, (core_post _).trans (List.append_nil _)⟩
  · exact .refl c

lemma run_aside {task : ClientTask} (h : task.isCore = false) : Aside c (c.run throws task) := by
  cases task with
  | connectTimerHandler => exact ⟨rfl, rfl, rfl, id, rfl⟩
  | wake =>
    simp only [run]
    split_ifs
    · exact cancelReconnectTimer_aside
    · exact .refl c
  | reconnectHandler =>
    simp only [run]
    split_ifs
    all_goals exact ⟨rfl, rfl, rfl, id, rfl⟩
  | stopReconnect =>
    have hcancel := @cancelReconnectTimer_aside { c with reconnectCanceled := true }
    exact ⟨hcancel.state, hcancel.socketOpen, hcancel.receiving, hcancel.connectTimer, hcancel.core⟩
  | stop =>
    have hcancel := (@cancelReconnectTimer_aside { c with reconnectCanceled := true }).trans
      stopConnectTimeoutTimer_aside
    exact ⟨hcancel.state, hcancel.socketOpen, hcancel.receiving, hcancel.connectTimer, hcancel.core⟩
  | connectTimer | resolve | resolved | connected | startRecv | disconnect => cases h

end Core

section Stages

/-- The connection fails in a posted step. -/
def FailsLate (throws : ClientStep → Bool) : Prop :=
  throws .resolve = true ∨ throws .timeout = true ∨ throws .connect = true ∨ throws .fireConnect = true

/-- The disconnect is posted, and the connect timer cancelled. -/
structure Disconnecting (c : Client) : Prop where
  state : c.state = .stopping
  core : c.core = [.disconnect .wake]
  connectTimer : c.connectTimer = false

/-- Where a start that fails is: before one of its tasks, before the disconnect, or done. -/
inductive Stage (throws : ClientStep → Bool) (c : Client) : Prop
  | waiting (hstate : c.state = .starting) (hfail : FailsLate throws) (hcore : c.core = [.connectTimer, .resolve])
  | resolve (hstate : c.state = .starting) (hfail : FailsLate throws) (hcore : c.core = [.resolve])
  | resolved (hstate : c.state = .starting) (hfail : FailsLate throws) (hcore : c.core = [.resolved])
  | connected (hstate : c.state = .starting) (ec : Bool) (hfail : ec = true ∨ throws .fireConnect = true)
      (hcore : c.core = [.connected ec])
  | stopping (hc : c.Disconnecting)
  | stopped (hstate : c.state = .stopped) (hcore : c.core = []) (htimer : c.connectTimer = false)
      (hsocket : c.socketOpen = false) (hreceiving : c.receiving = false)

lemma Stage.aside (hc : c.Stage throws) (h : Aside c t) : t.Stage throws := by
  cases hc with
  | waiting hstate hfail hcore => exact .waiting (h.state.trans hstate) hfail (h.core.trans hcore)
  | resolve hstate hfail hcore => exact .resolve (h.state.trans hstate) hfail (h.core.trans hcore)
  | resolved hstate hfail hcore => exact .resolved (h.state.trans hstate) hfail (h.core.trans hcore)
  | connected hstate ec hfail hcore => exact .connected (h.state.trans hstate) ec hfail (h.core.trans hcore)
  | stopping hc => exact .stopping ⟨h.state.trans hc.state, h.core.trans hc.core, h.connectTimer hc.connectTimer⟩
  | stopped hstate hcore htimer hsocket hreceiving =>
    exact .stopped (h.state.trans hstate) (h.core.trans hcore) (h.connectTimer htimer)
      (h.socketOpen.trans hsocket) (h.receiving.trans hreceiving)

lemma stopConnectTimeoutTimer_timer : c.stopConnectTimeoutTimer.connectTimer = false := by
  unfold stopConnectTimeoutTimer
  split_ifs with h
  · rfl
  · exact Bool.eq_false_iff.mpr h

lemma doDisconnect_disconnecting (hstate : c.state = .started ∨ c.state = .starting) (hcore : c.core = [])
    (htimer : c.connectTimer = false) : (c.doDisconnect .wake).Disconnecting := by
  rw [doDisconnect, if_pos hstate]
  refine ⟨rfl, ?_, htimer⟩
  rw [core_post]
  exact congrArg (· ++ [ClientTask.disconnect .wake]) hcore

/-- A failed connection posts the disconnect, whatever `FireConnect` does. -/
lemma doneConnect_disconnecting (hstate : c.state = .starting) (hcore : c.core = []) {ec : Bool}
    (hfail : ec = true ∨ throws .fireConnect = true) : (c.doneConnect throws ec).Disconnecting := by
  have haside := @stopConnectTimeoutTimer_aside c
  unfold doneConnect
  dsimp only
  split_ifs with h hfire
  · exact doDisconnect_disconnecting (Or.inl rfl) (haside.core.trans hcore) stopConnectTimeoutTimer_timer
  · have hec : ec = false := (Bool.or_eq_false_iff.mp h.1).1
    exact absurd (hfail.resolve_left (by simp [hec])) hfire
  · exact doDisconnect_disconnecting (Or.inr (haside.state.trans hstate)) (haside.core.trans hcore)
      stopConnectTimeoutTimer_timer

/-- A task at the front of what is left of the connection. -/
lemma core_front {task front : ClientTask} {rest core : List ClientTask} (hposted : c.posted = task :: rest)
    (hcore : c.core = front :: core) (htask : task.isCore = true) :
    task = front ∧ ({ c with posted := rest } : Client).core = core := by
  rw [core_cons hposted, if_pos htask] at hcore
  exact List.cons.inj hcore

lemma aside_popped {task : ClientTask} {rest : List ClientTask} (hposted : c.posted = task :: rest)
    (htask : task.isCore = false) : Aside c ({ c with posted := rest } : Client) := by
  refine ⟨rfl, rfl, rfl, id, ?_⟩
  rw [core_cons hposted, htask]
  rfl

lemma Stage.runTask (hc : c.Stage throws) : (c.runTask throws).Stage throws := by
  refine runTask_cases hc fun task rest hposted => ?_
  cases htask : task.isCore with
  | false => exact hc.aside ((aside_popped hposted htask).trans (run_aside htask))
  | true =>
    cases hc with
    | waiting hstate hfail hcore =>
      obtain ⟨rfl, hrest⟩ := core_front hposted hcore htask
      exact .resolve hstate hfail hrest
    | resolve hstate hfail hcore =>
      obtain ⟨rfl, hrest⟩ := core_front hposted hcore htask
      refine .resolved hstate hfail ?_
      rw [run, core_post, hrest]
      rfl
    | resolved hstate hfail hcore =>
      obtain ⟨rfl, hrest⟩ := core_front hposted hcore htask
      simp only [run]
      split_ifs with hr ht
      · exact .stopping (doneConnect_disconnecting (c := { c with posted := rest }) hstate hrest (Or.inl rfl))
      · refine .connected hstate true (Or.inl rfl) ?_
        rw [core_post]
        exact congrArg (· ++ [ClientTask.connected true]) hrest
      · refine .connected hstate (throws .connect) (by simpa [FailsLate, hr, ht] using hfail) ?_
        rw [core_post, hrest]
        rfl
    | connected hstate ec hfail hcore =>
      obtain ⟨rfl, hrest⟩ := core_front hposted hcore htask
      exact .stopping (doneConnect_disconnecting (c := { c with posted := rest }) hstate hrest hfail)
    | stopping hc =>
      obtain ⟨rfl, hrest⟩ := core_front hposted hc.core htask
      rw [run, if_pos hc.state]
      refine .stopped rfl ?_ hc.connectTimer rfl rfl
      rw [core_post]
      exact (List.append_nil _).trans hrest
    | stopped hstate hcore _ _ _ =>
      rw [core_cons hposted, if_pos htask] at hcore
      cases hcore

lemma Stage.iterate (hc : c.Stage throws) (n : ℕ) : ((Client.runTask throws)^[n] c).Stage throws := by
  induction n with
  | zero => exact hc
  | succ n ih =>
    rw [Function.iterate_succ_apply']
    exact ih.runTask

lemma Stage.not_started (hc : c.Stage throws) : c.isStarted = false := by
  cases hc with
  | waiting hstate | resolve hstate | resolved hstate | connected hstate | stopped hstate => simp [isStarted, hstate]
  | stopping hc => simp [isStarted, hc.state]

/-- At the end only a client that has stopped has nothing posted. -/
lemma Stage.stopped_of_posted (hc : c.Stage throws) (hposted : c.posted = []) :
    c.state = .stopped ∧ c.core = [] ∧ c.connectTimer = false ∧ c.socketOpen = false ∧ c.receiving = false := by
  have hnil : c.core = [] := by
    rw [core, hposted]
    rfl
  cases hc with
  | stopped hstate _ htimer hsocket hreceiving => exact ⟨hstate, hnil, htimer, hsocket, hreceiving⟩
  | waiting _ _ hcore | resolve _ _ hcore | resolved _ _ hcore | connected _ _ _ hcore =>
    rw [hnil] at hcore
    cases hcore
  | stopping hc =>
    have hcore := hc.core
    rw [hnil] at hcore
    cases hcore

/-- Without a task of a connection the state stays as it is. -/
lemma Drains.aside (h : c.Drains throws t) (hcore : c.core = []) : Aside c t := by
  refine h.invariant (P := fun d => Aside c d) (fun d hd => runTask_cases hd fun task rest hposted => ?_) (.refl c)
  have htask : task.isCore = false := by
    by_contra htrue
    have hdcore := hd.core.trans hcore
    rw [core_cons hposted, if_pos (by simpa using htrue)] at hdcore
    cases hdcore
  exact hd.trans ((aside_popped hposted htask).trans (run_aside htask))

end Stages

section Timers

/-- What a step of the connection does to the timers and to what is posted already. -/
structure Extends (c t : Client) : Prop where
  posted : c.posted ⊆ t.posted
  promised : t.promised = c.promised
  canceled : t.reconnectCanceled = c.reconnectCanceled
  reconnectTimer : t.reconnectTimer = c.reconnectTimer
  connectTimer : c.connectTimer = true → t.connectTimer = true ∨ .connectTimerHandler ∈ t.posted

lemma Extends.trans {d : Client} (h : Extends c d) (h' : Extends d t) : Extends c t := by
  refine ⟨List.Subset.trans h.posted h'.posted, h'.promised.trans h.promised, h'.canceled.trans h.canceled,
    h'.reconnectTimer.trans h.reconnectTimer, fun hc => ?_⟩
  rcases h.connectTimer hc with htimer | hmem
  · exact h'.connectTimer htimer
  · exact Or.inr (h'.posted hmem)

lemma post_extends (task : ClientTask) : Extends c (c.post task) :=
  ⟨List.subset_append_left _ _, rfl, rfl, rfl, Or.inl⟩

lemma stopConnectTimeoutTimer_extends : Extends c c.stopConnectTimeoutTimer := by
  unfold stopConnectTimeoutTimer
  split_ifs
  · exact ⟨List.subset_append_left _ _, rfl, rfl, rfl,
      fun _ => Or.inr (List.mem_append_right _ List.mem_cons_self)⟩
  · exact ⟨List.Subset.refl _, rfl, rfl, rfl, Or.inl⟩

lemma doDisconnect_extends : Extends c (c.doDisconnect .wake) := by
  unfold doDisconnect
  split_ifs
  · exact ⟨List.subset_append_left _ _, rfl, rfl, rfl, Or.inl⟩
  · exact ⟨List.Subset.refl _, rfl, rfl, rfl, Or.inl⟩

lemma doneConnect_extends (ec : Bool) : Extends c (c.doneConnect throws ec) := by
  have hstop := @stopConnectTimeoutTimer_extends c
  have hstarted : ∀ d : Client, Extends d { d with state := .started } := fun d =>
    ⟨List.Subset.refl _, rfl, rfl, rfl, Or.inl⟩
  unfold doneConnect
  dsimp only
  split_ifs
  · exact hstop.trans ((hstarted _).trans doDisconnect_extends)
  · exact hstop.trans ((hstarted _).trans (post_extends _))
  · exact hstop.trans doDisconnect_extends

/-- A task of the connection leaves the timers as they are, unless it arms the connect timer or
finds that it has expired. -/
lemma run_extends {task : ClientTask} (hcore : task.isCore = true) (htask : task ≠ .connectTimer) :
    Extends c (c.run throws task) ∨ (c.run throws task).promised = true ∧
      Extends { c with connectTimer := false, timeoutFlag := true, socketOpen := false, promised := true }
        (c.run throws task) := by
  cases task with
  | connectTimer => exact absurd rfl htask
  | resolve => exact Or.inl (post_extends _)
  | resolved =>
    simp only [run]
    split_ifs
    · exact Or.inl (doneConnect_extends true)
    · exact Or.inr ⟨rfl, post_extends _⟩
    · exact Or.inl (post_extends _)
  | connected ec => exact Or.inl (doneConnect_extends ec)
  | startRecv =>
    refine Or.inl ?_
    simp only [run]
    split_ifs
    all_goals exact ⟨List.Subset.refl _, rfl, rfl, rfl, Or.inl⟩
  | disconnect defer =>
    refine Or.inl ?_
    simp only [run]
    split_ifs
    · exact ⟨List.subset_append_left _ _, rfl, rfl, rfl, Or.inl⟩
    · exact ⟨List.Subset.refl _, rfl, rfl, rfl, Or.inl⟩
  | connectTimerHandler | wake | reconnectHandler | stopReconnect | stop => cases hcore

/-- The future of a synchronous start is set, or its timer will see to it. -/
def Promising (c : Client) : Prop :=
  c.promised = true ∨ .connectTimer ∈ c.posted ∨ c.connectTimer = true ∨ .connectTimerHandler ∈ c.posted

lemma Promising.extends (hc : c.Promising) (h : Extends c t) : t.Promising := by
  rcases hc with hpromised | hmem | htimer | hmem
  · exact Or.inl (h.promised.trans hpromised)
  · exact Or.inr (Or.inl (h.posted hmem))
  · exact Or.inr (Or.inr (h.connectTimer htimer))
  · exact Or.inr (Or.inr (Or.inr (h.posted hmem)))

lemma Promising.cancelReconnectTimer (hc : c.Promising) : c.cancelReconnectTimer.Promising := by
  unfold Client.cancelReconnectTimer
  split_ifs
  · exact Promising.extends (c := { c with reconnectTimer := false }) hc (post_extends _)
  · exact hc

lemma Promising.runTask (hc : c.Promising) : (c.runTask throws).Promising := by
  refine runTask_cases hc fun task rest hposted => ?_
  have hrest : task ≠ .connectTimer → task ≠ .connectTimerHandler → ({ c with posted := rest } : Client).Promising := by
    intro hne hne'
    rcases hc with hpromised | hmem | htimer | hmem
    · exact Or.inl hpromised
    · exact Or.inr (Or.inl (List.mem_of_ne_of_mem hne.symm (hposted ▸ hmem)))
    · exact Or.inr (Or.inr (Or.inl htimer))
    · exact Or.inr (Or.inr (Or.inr (List.mem_of_ne_of_mem hne'.symm (hposted ▸ hmem))))
  have hrun := @run_extends throws ({ c with posted := rest } : Client) task
  cases task with
  | connectTimer => exact Or.inr (Or.inr (Or.inl rfl))
  | connectTimerHandler => exact Or.inl rfl
  | resolve | resolved | connected _ | startRecv | disconnect _ =>
    have hrest := hrest (by simp) (by simp)
    rcases hrun rfl (by simp) with hextends | ⟨hpromised, -⟩
    · exact hrest.extends hextends
    · exact Or.inl hpromised
  | reconnectHandler =>
    have hrest := hrest (by simp) (by simp)
    simp only [run]
    split_ifs
    all_goals exact hrest
  | wake =>
    have hrest := hrest (by simp) (by simp)
    simp only [run]
    split_ifs
    · exact hrest.cancelReconnectTimer
    · exact hrest
  | stopReconnect =>
    have hrest := hrest (by simp) (by simp)
    exact Promising.cancelReconnectTimer (c := { c with posted := rest, reconnectCanceled := true }) hrest
  | stop =>
    have hrest := hrest (by simp) (by simp)
    exact (Promising.cancelReconnectTimer (c := { c with posted := rest, reconnectCanceled := true }) hrest).extends
      stopConnectTimeoutTimer_extends

/-- The reconnect timer is stopped for good, or will be. -/
def Silenced (c : Client) : Prop :=
  .stop ∈ c.posted ∨ .stopReconnect ∈ c.posted ∨ (c.reconnectCanceled = true ∧ c.reconnectTimer = false)

lemma Silenced.extends (hc : c.Silenced) (h : Extends c t) : t.Silenced := by
  rcases hc with hmem | hmem | ⟨hcanceled, htimer⟩
  · exact Or.inl (h.posted hmem)
  · exact Or.inr (Or.inl (h.posted hmem))
  · exact Or.inr (Or.inr ⟨h.canceled.trans hcanceled, h.reconnectTimer.trans htimer⟩)

lemma stopReconnectTimer_silenced : c.stopReconnectTimer.Silenced := by
  unfold stopReconnectTimer cancelReconnectTimer
  split_ifs with htimer
  · exact Or.inr (Or.inr ⟨rfl, rfl⟩)
  · exact Or.inr (Or.inr ⟨rfl, Bool.eq_false_iff.mpr htimer⟩)

lemma Silenced.cancelReconnectTimer (hc : c.Silenced) : c.cancelReconnectTimer.Silenced := by
  unfold Client.cancelReconnectTimer
  split_ifs with htimer
  · rcases hc with hmem | hmem | ⟨hcanceled, -⟩
    · exact Or.inl (List.mem_append_left _ hmem)
    · exact Or.inr (Or.inl (List.mem_append_left _ hmem))
    · exact Or.inr (Or.inr ⟨hcanceled, rfl⟩)
  · exact hc

lemma Silenced.runTask (hc : c.Silenced) : (c.runTask throws).Silenced := by
  refine runTask_cases hc fun task rest hposted => ?_
  have hrest : task ≠ .stop → task ≠ .stopReconnect → ({ c with posted := rest } : Client).Silenced := by
    intro hne hne'
    rcases hc with hmem | hmem | hdone
    · exact Or.inl (List.mem_of_ne_of_mem hne.symm (hposted ▸ hmem))
    · exact Or.inr (Or.inl (List.mem_of_ne_of_mem hne'.symm (hposted ▸ hmem)))
    · exact Or.inr (Or.inr hdone)
  have hrun := @run_extends throws ({ c with posted := rest } : Client) task
  cases task with
  | connectTimer | connectTimerHandler => exact hrest (by simp) (by simp)
  | resolve | resolved | connected _ | startRecv | disconnect _ =>
    have hrest := hrest (by simp) (by simp)
    rcases hrun rfl (by simp) with hextends | ⟨-, hextends⟩
    · exact hrest.extends hextends
    · exact Silenced.extends (c := { c with
        posted := rest, connectTimer := false, timeoutFlag := true, socketOpen := false, promised := true })
        hrest hextends
  | wake =>
    have hrest := hrest (by simp) (by simp)
    simp only [run]
    split_ifs
    · exact hrest.cancelReconnectTimer
    · exact hrest
  | reconnectHandler =>
    have hrest := hrest (by simp) (by simp)
    simp only [run]
    split_ifs with hcanceled
    · exact hrest
    · rcases hrest with hmem | hmem | ⟨hdone, -⟩
      · exact Or.inl hmem
      · exact Or.inr (Or.inl hmem)
      · exact absurd hdone hcanceled
  | stopReconnect => exact stopReconnectTimer_silenced
  | stop => exact stopReconnectTimer_silenced.extends stopConnectTimeoutTimer_extends

end Timers

section Restart

lemma Idle.accepts (hc : c.Idle) (hrun : c.pool.stopped = false) : c.Accepts := by
  intro isAsync
  cases isAsync <;> cases hrunning : c.reconnectRunning <;>
    simp [doConnect, hc.state, Pool.start_of_running hrun, hrun, makeReconnectTimer, clientStartConnect, hrunning]

/-- `Stop` of a stopped client cancels the reconnect timer, and nothing else is outstanding. -/
lemma Idle.stopReturns (hc : c.Idle) (hthreads : 0 < c.pool.threads) : c.StopReturns throws := by
  right
  have hstop : c.stop = (c.post .stopReconnect).post .stop :=
    if_neg (by simp [post, hc.state])
  have hcore : c.stop.core = [] := by
    rw [hstop, core_post, core_post, hc.core]
    rfl
  obtain ⟨t, ht⟩ := @exists_drains throws c.stop (by rw [hstop]; exact hthreads)
  have hsilenced : t.Silenced := by
    refine ht.invariant (fun d hd => hd.runTask) (Or.inl ?_)
    rw [hstop]
    exact List.mem_append_right _ List.mem_cons_self
  have haside := ht.aside hcore
  have htimer : t.connectTimer = false := haside.connectTimer (by rw [hstop]; exact hc.connectTimer)
  have hreceiving : t.receiving = false := haside.receiving.trans (by rw [hstop]; exact hc.receiving)
  rcases hsilenced with hmem | hmem | ⟨-, hreconnect⟩
  · rw [ht.posted] at hmem
    cases hmem
  · rw [ht.posted] at hmem
    cases hmem
  · exact ⟨t, ht, hreconnect, htimer, hreceiving⟩

/-- When its tasks have run, a failed start has left the client so that it can be started and stopped. -/
lemma Stage.restores (hc : c.Stage throws) (hok : c.pool.Ok) (hios : c.pool.ios = 1)
    (hrun : c.pool.stopped = false) :
    ∃ t, c.Drains throws t ∧ t.state = .stopped ∧ t.socketOpen = false ∧ t.Accepts ∧ t.StopReturns throws := by
  obtain ⟨t, ht⟩ := @exists_drains throws c (hok.threads_pos hrun)
  have hpool : t.pool = c.pool :=
    ht.invariant (P := fun d => d.pool = c.pool) (fun d hd => runTask_pool.trans hd) rfl
  rw [← hpool] at hok hios hrun
  have hstage := ht.invariant (P := Stage throws) (fun d hd => hd.runTask) hc
  obtain ⟨hstate, hcore, htimer, hsocket, hreceiving⟩ := hstage.stopped_of_posted ht.posted
  have hidle : t.Idle := ⟨hstate, hok, hios, htimer, hreceiving, hcore⟩
  exact ⟨t, ht, hstate, hsocket, hidle.accepts hrun, hidle.stopReturns (hok.threads_pos hrun)⟩

/-- A synchronous start whose connection fails waits for its future and returns false. -/
lemma wait_restartable {r : Client × Option Bool} (hresult : r.2 = none) (hc : r.1.Stage throws)
    (hpromising : r.1.Promising) (hok : r.1.pool.Ok) (hios : r.1.pool.ios = 1)
    (hrun : r.1.pool.stopped = false) : Restartable throws r := by
  refine ⟨⟨?_, ?_, ?_⟩, hc.restores hok hios hrun⟩
  · simp [hresult]
  · intro _
    obtain ⟨t, ht⟩ := @exists_drains throws r.1 (hok.threads_pos hrun)
    have hstage := ht.invariant (P := Stage throws) (fun d hd => hd.runTask) hc
    have hdone := ht.invariant (P := Promising) (fun d hd => hd.runTask) hpromising
    obtain ⟨-, -, htimer, -, -⟩ := hstage.stopped_of_posted ht.posted
    obtain ⟨n, rfl, hposted⟩ := ht
    rcases hdone with hpromised | hmem | htimer' | hmem
    · exact ⟨n, hpromised⟩
    · rw [hposted] at hmem
      cases hmem
    · rw [htimer] at htimer'
      cases htimer'
    · rw [hposted] at hmem
      cases hmem
  · exact fun _ n _ => (hc.iterate n).not_started

/-- A start that fails before it returns has posted the disconnect. -/
lemma doneConnect_restartable (hstate : c.state = .starting) (hcore : c.core = []) (hok : c.pool.Ok)
    (hios : c.pool.ios = 1) (hrun : c.pool.stopped = false) :
    Restartable throws (c.doneConnect throws true, some false) := by
  have hstage : (c.doneConnect throws true).Stage throws :=
    .stopping (doneConnect_disconnecting hstate hcore (Or.inl rfl))
  rw [← @doneConnect_pool throws c true] at hok hios hrun
  refine ⟨⟨?_, ?_, ?_⟩, hstage.restores hok hios hrun⟩
  · exact fun b hb => (Option.some.inj hb).symm
  · exact fun hnone => absurd hnone (by simp)
  · exact fun hnone => absurd hnone (by simp)

/-- The steps of `ClientStartConnect` that throw before it returns, or those that are posted. -/
lemma clientStartConnect_restartable (hstate : c.state = .starting) (hcore : c.core = [])
    (hok : c.pool.Ok) (hios : c.pool.ios = 1) (hrun : c.pool.stopped = false)
    (hio : throws .ioPool = false) (hreconnect : throws .reconnectTimer = false)
    (hfail : ∃ step, throws step = true)
    (hearly : isAsync = true → ∃ step, step.isEarly = true ∧ throws step = true) :
    Restartable throws (c.clientStartConnect isAsync throws) := by
  by_cases hopen : throws .openSocket = true
  · have hstart : c.clientStartConnect isAsync throws =
        (({ c with socketOpen := false } : Client).doneConnect throws true, some false) := by
      simp [clientStartConnect, hio, hrun, hopen]
    rw [hstart]
    exact doneConnect_restartable hstate hcore hok hios hrun
  · by_cases hsync : (throws .setOption || throws .fireInit || throws .bind) = true
    · have hstart : c.clientStartConnect isAsync throws =
          (({ c with socketOpen := true } : Client).doneConnect throws true, some false) := by
        simp only [clientStartConnect, hio, hrun, hopen, hsync, if_true, if_false, Bool.false_eq_true]
      rw [hstart]
      exact doneConnect_restartable hstate hcore hok hios hrun
    · have hlate : ∀ step, throws step = true → step.isEarly = false := by
        intro step hstep
        cases step <;> simp_all [ClientStep.isEarly]
      cases isAsync with
      | true =>
        obtain ⟨step, hstep, hthrows⟩ := hearly rfl
        rw [hlate step hthrows] at hstep
        cases hstep
      | false =>
        obtain ⟨step, hstep⟩ := hfail
        have hlast : FailsLate throws := by
          have hstepLate := hlate step hstep
          cases step <;> simp_all [ClientStep.isEarly, FailsLate]
        have hstart : c.clientStartConnect false throws = ((({ c with
            socketOpen := true, promised := false } : Client).post .connectTimer).post .resolve, none) := by
          simp only [clientStartConnect, hio, hrun, hopen, hsync, if_false, Bool.false_eq_true]
        rw [hstart]
        refine wait_restartable rfl (.waiting hstate hlast ?_) (Or.inr (Or.inl ?_)) hok hios hrun
        · rw [core_post, core_post]
          exact congrArg (· ++ [ClientTask.connectTimer] ++ [ClientTask.resolve]) hcore
        · exact List.mem_append_left _ (List.mem_append_right _ List.mem_cons_self)

lemma doConnect_eq (hc : c.Idle) {q : Pool} {b : Bool} (hpool : c.pool.start spawns = (q, some b))
    (hrun : q.stopped = false) :
    c.doConnect isAsync spawns throws =
      if throws .reconnectTimer then
        (({ c with state := .starting, pool := q, reconnectRunning := true } : Client).doneConnect throws true,
          some false)
      else
        ({ c with state := .starting, pool := q } : Client).makeReconnectTimer.clientStartConnect isAsync throws := by
  simp only [doConnect, hc.state, hpool, hrun, ne_eq, not_true_eq_false, if_false, Bool.false_eq_true]

lemma makeReconnectTimer_eq : c.makeReconnectTimer =
    { c with reconnectRunning := true, reconnectTimer := c.reconnectTimer || !c.reconnectRunning } := by
  unfold makeReconnectTimer
  split_ifs with h
  · rw [h, Bool.not_true, Bool.or_false, ← h]
  · rw [Bool.eq_false_iff.mpr h, Bool.not_false, Bool.or_true]

/-- A client in `Starting` without a task of the connection stays there. -/
lemma not_restartable_of_starting {r : Client × Option Bool} (hstate : r.1.state = .starting)
    (hcore : r.1.core = []) : ¬Restartable throws r := by
  intro h
  obtain ⟨t, hdrains, hstopped, -⟩ := h.drains
  rw [(hdrains.aside hcore).state, hstate] at hstopped
  cases hstopped

/-- Without a thread the posted disconnect is never run. -/
lemma not_restartable_of_disconnecting {r : Client × Option Bool} (hc : r.1.Disconnecting)
    (hthreads : r.1.pool.threads = 0) : ¬Restartable throws r := by
  intro h
  obtain ⟨t, ⟨n, hn, -⟩, hstopped, -⟩ := h.drains
  have hfixed : r.1.runTask throws = r.1 := by
    unfold runTask
    split
    · rfl
    · exact if_neg (by omega)
  rw [Function.iterate_fixed hfixed] at hn
  rw [← hn, hc.state] at hstopped
  cases hstopped

/-- Without the io pool the client stays in `Starting` with nothing posted, or its disconnect is
posted to a strand that no thread runs. -/
lemma not_restartable_of_not_canRun (hc : c.Idle) (h : ¬c.pool.CanRun spawns) :
    ¬Restartable throws (c.doConnect isAsync spawns throws) := by
  obtain ⟨hstopped, hresult⟩ := Pool.start_of_not_canRun h
  generalize hpool : c.pool.start spawns = r at hstopped hresult
  obtain ⟨q, result⟩ := r
  rcases hresult with rfl | ⟨rfl, hthreads⟩
  · have hq : q.stopped = true := hstopped
    simp only [doConnect, hc.state, hpool, hq, ne_eq, not_true_eq_false, if_false, if_true]
    exact not_restartable_of_starting rfl hc.core
  · have hzero : q.threads = 0 := by
      have hios := hc.ios
      simp only at hthreads
      omega
    simp only [doConnect, hc.state, hpool, ne_eq, not_true_eq_false, if_false]
    refine not_restartable_of_disconnecting ?_ ?_
    · exact @doneConnect_disconnecting throws { c with state := .starting, pool := q } rfl hc.core true (Or.inl rfl)
    · dsimp only
      rw [doneConnect_pool]
      exact hzero

/-- A pool that is stopped before the second check leaves the client in `Starting` as well. -/
lemma not_restartable_of_stopped_meanwhile (hc : c.Idle) {q : Pool} {b : Bool}
    (hpool : c.pool.start spawns = (q, some b)) (hrun : q.stopped = false) (hio : throws .ioPool = true)
    (hreconnect : ¬throws .reconnectTimer = true) : ¬Restartable throws (c.doConnect isAsync spawns throws) := by
  rw [doConnect_eq hc hpool hrun, if_neg hreconnect, makeReconnectTimer_eq]
  simp only [clientStartConnect, hio, if_true]
  exact not_restartable_of_starting rfl hc.core

/-- `AsyncStart` returns true when the steps before its return succeed. -/
lemma doConnect_async_returns (hc : c.Idle) {q : Pool} {b : Bool} (hpool : c.pool.start spawns = (q, some b))
    (hrun : q.stopped = false) (hio : throws .ioPool = false)
    (hnone : ∀ step, step.isEarly = true → throws step = false) : (c.doConnect true spawns throws).2 = some true := by
  have hreconnect := hnone .reconnectTimer rfl
  have hopen := hnone .openSocket rfl
  have hoption := hnone .setOption rfl
  have hinit := hnone .fireInit rfl
  have hbind := hnone .bind rfl
  simp [doConnect_eq hc hpool hrun, makeReconnectTimer_eq, clientStartConnect, hrun, hio, hreconnect, hopen, hoption,
    hinit, hbind]

/-- A client can be started again after a failed start if and only if the io pool runs, and an
asynchronous start fails before it returns. -/
lemma restartable_iff (hc : c.Idle) (hfail : ¬c.pool.CanRun spawns ∨ ∃ step, throws step = true) :
    Restartable throws (c.doConnect isAsync spawns throws) ↔ c.Recovers isAsync spawns throws := by
  constructor
  · intro h
    have hcan : c.pool.CanRun spawns := by
      by_contra hcan
      exact not_restartable_of_not_canRun hc hcan h
    obtain ⟨q, b, hpool, hrun, -, -⟩ := Pool.start_of_canRun hcan
    have hstays : throws .ioPool = true → throws .reconnectTimer = true := by
      intro hio
      by_contra hreconnect
      exact not_restartable_of_stopped_meanwhile hc hpool hrun hio hreconnect h
    refine ⟨hcan, hstays, ?_⟩
    rintro rfl
    by_contra hnone
    have hlate : ∀ step, step.isEarly = true → throws step = false := by
      intro step hstep
      by_contra hthrows
      exact hnone ⟨step, hstep, by simpa using hthrows⟩
    have hio : throws .ioPool = false := by
      by_contra hio
      have hreconnect := hstays (by simpa using hio)
      rw [hlate .reconnectTimer rfl] at hreconnect
      cases hreconnect
    have hvalue := h.returns.value true (doConnect_async_returns hc hpool hrun hio hlate)
    cases hvalue
  · intro h
    obtain ⟨q, b, hpool, hrun, hkeeps, hios⟩ := Pool.start_of_canRun h.ioPool
    have hok := hkeeps hc.pool
    have hstep := hfail.resolve_left (not_not_intro h.ioPool)
    rw [doConnect_eq hc hpool hrun]
    by_cases hreconnect : throws .reconnectTimer = true
    · rw [if_pos hreconnect]
      exact doneConnect_restartable rfl hc.core hok (hios.trans hc.ios) hrun
    · rw [if_neg hreconnect, makeReconnectTimer_eq]
      have hio : throws .ioPool = false := by
        by_contra hio
        exact hreconnect (h.stays (by simpa using hio))
      exact clientStartConnect_restartable rfl hc.core hok (hios.trans hc.ios) hrun hio (by simpa using hreconnect)
        hstep h.early

end Restart

end Client

/-- Whichever step fails, an endpoint can be started again if and only if its io pool runs, and an
asynchronous start fails before it returns. -/
theorem failed_start_restartable_iff (spawns : ℕ → Bool) (start : Start) (hidle : start.Idle)
    (hfail : start.Fails spawns) : start.Restartable spawns ↔ start.Recovers spawns := by
  cases start with
  | server s throws => exact Server.restartable_iff hidle hfail
  | client c isAsync throws => exact Client.restartable_iff hidle hfail

/-- Nobody answers a new client. -/
theorem failed_start_new_client :
    (Start.client { pool := { ios := 1 } } false (· = .connect)).Restartable fun _ => true := by
  have hcan : ({ ios := 1 } : Pool).CanRun fun _ => true := Or.inr ⟨rfl, rfl, fun _ _ => rfl⟩
  have hidle : ({ pool := { ios := 1 } } : Client).Idle :=
    ⟨rfl, ⟨by decide, fun h => absurd h (by decide)⟩, rfl, rfl, rfl, rfl⟩
  exact (failed_start_restartable_iff (fun _ => true) (.client { pool := { ios := 1 } } false (· = .connect)) hidle
    (Or.inr ⟨.connect, by decide⟩)).mpr ⟨hcan, fun h => absurd h (by decide), fun h => absurd h (by decide)⟩

/-- A start while another thread stops the io pool leaves the server in `Starting` for good. -/
theorem start_during_stop :
    let s : Server := { pool := { ios := 1, workers := 1, threads := 1 } }
    let r := s.doStart (fun _ => true) (fun _ => false)
    s.Idle ∧ ¬Server.Restartable r ∧ r.2 = false ∧ r.1.posted = [] ∧ r.1.state = .starting ∧
      ∀ spawns throws, r.1.doStart spawns throws = (r.1, false) := by
  have hidle : ({ pool := { ios := 1, workers := 1, threads := 1 } } : Server).Idle :=
    ⟨rfl, ⟨by decide, fun h => absurd h (by decide)⟩, rfl, rfl, rfl, rfl⟩
  have hcannot : ¬({ ios := 1, workers := 1, threads := 1 } : Pool).CanRun fun _ => true := by
    simp [Pool.CanRun]
  refine ⟨hidle, fun h => hcannot ((Server.restartable_iff hidle (Or.inl hcannot)).mp h), by decide, by decide,
    by decide, fun spawns throws => ?_⟩
  rfl

end TyphoonZero.NetStart
