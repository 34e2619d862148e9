import TyphoonZero.NetConnect
import TyphoonZero.UserTimer

/-! The reconnect timer of a client: the wait that is armed, the flag that is the mark of a
cancellation, and the starts and stops of the client that arm and cancel it. -/
namespace TyphoonZero.Reconnect
open Transition NetConnect UserTimer

/-- `NanoSeconds::max()`. -/
abbrev nanoSecondsMax : ℕ := 2 ^ 63 - 1

/-- `stopped` says that `StopReconnectTimer` was executed since the wait was armed. -/
structure Wait where
  delay : ℕ
  status : Status := .armed
  stopped : Bool := false

/-- `state` is the state of the client, `connects` the tasks of `ClientStartConnect` that the
callback put into the event queue, `posted` the stops that are on the way to the strand and `stops`
those that were executed. -/
structure ReconnectTimer where
  state : NetState := .stopped
  canceled : Bool := false
  delay : ℕ := 1000000000
  enable : Bool := true
  isRunning : Bool := false
  waits : List Wait := []
  connects : ℕ := 0
  posted : ℕ := 0
  stops : ℕ := 0

/-- `start` says whether the io pool runs. `state` is whatever else the client does; `autoReconnect`
may leave the delay as it is. -/
inductive Op
  | start (ioPool : Bool)
  | stop
  | stopTask
  | makeReconnectTimer
  | stopReconnectTimer
  | wakeReconnectTimer
  | autoReconnect (enable : Bool) (delay : Option ℕ)
  | state (next : NetState)
  | expire (i : ℕ)
  | complete (i : ℕ)

/-- `cancel` of the timer; a completion that is queued already stays as it is. -/
def cancelWaits (waits : List Wait) : List Wait :=
  waits.map fun w => if w.status = .armed then { w with status := .aborted } else w

namespace ReconnectTimer
variable (s : ReconnectTimer)

/-- `expires_after` cancels what is pending on the timer. -/
def postReconnectTimer (delay : ℕ) : ReconnectTimer :=
  { s with waits := cancelWaits s.waits ++ [{ delay := delay }] }

def makeReconnectTimer : ReconnectTimer :=
  if s.isRunning then s else { s with isRunning := true }.postReconnectTimer nanoSecondsMax

/-- The callback of `LoadReconnectTimer`. -/
def callback : ReconnectTimer :=
  if s.state = .stopped then { s with state := .starting, connects := s.connects + 1 } else s

/-- The first `test_and_set` leaves the flag set when it was, else it is cleared again. -/
def handleReconnectTimer (ec : Status) : ReconnectTimer :=
  if s.canceled then { s with isRunning := false }
  else if ec = .aborted then s.postReconnectTimer s.delay
  else (if s.enable then s.callback else s).postReconnectTimer nanoSecondsMax

def stopReconnectTimer : ReconnectTimer :=
  { s with
    canceled := true
    waits := (cancelWaits s.waits).map fun w => { w with stopped := true }
    stops := s.stops + 1 }

def wakeReconnectTimer : ReconnectTimer :=
  if s.enable then { s with waits := cancelWaits s.waits } else s

/-- `Stop` posts a stop of the timer, and a second one comes from the base `Stop`. -/
def exec : Op → Option ReconnectTimer
  | .start ioPool =>
    if s.state = .stopped then
      let t := { s with state := .starting }
      some (if ioPool then t.makeReconnectTimer else t)
    else some s
  | .stop => some { s with posted := s.posted + 2 }
  | .stopTask => if 0 < s.posted then some { s with posted := s.posted - 1 }.stopReconnectTimer else none
  | .makeReconnectTimer => some s.makeReconnectTimer
  | .stopReconnectTimer => some s.stopReconnectTimer
  | .wakeReconnectTimer => some s.wakeReconnectTimer
  | .autoReconnect enable delay => some { s with enable := enable, delay := delay.getD s.delay }
  | .state next => some { s with state := next }
  | .expire i =>
    match s.waits[i]? with
    | none => none
    | some w => if w.status = .armed then some { s with waits := s.waits.set i { w with status := .expired } } else none
  | .complete i =>
    match s.waits[i]? with
    | none => none
    | some w =>
      if w.status = .armed then none
      else some ({ s with waits := s.waits.eraseIdx i }.handleReconnectTimer w.status)

/-- A wait that nothing has stopped is not marked as cancelled, and its completion arms the next
one. An expiry connects again when it may. -/
structure Survives (op : Op) (t : ReconnectTimer) : Prop where
  clear : ∀ w ∈ t.waits, w.stopped = false → t.canceled = false
  handled : ∀ i w, op = .complete i → s.waits[i]? = some w → w.stopped = false →
    t.waits.getLast? = some { delay := if w.status = .aborted then s.delay else nanoSecondsMax } ∧
      (w.status ≠ .aborted → s.enable = true → s.state = .stopped → t.connects = s.connects + 1)

/-- The operation arms the timer although it is not running: a start, or `MakeReconnectTimer`. -/
def Arms (op : Op) : Prop :=
  s.isRunning = false ∧ (op = .makeReconnectTimer ∨ (op = .start true ∧ s.state = .stopped))

/-- The timer is armed only as long as it was never stopped. -/
def NeverStopped (op : Op) : Prop := s.Arms op → s.stops = 0

end ReconnectTimer

/-- The client and its timer, in any order. -/
def reconnectRuns : System ReconnectTimer Op where
  init s := s = {}
  step s op t := s.exec op = some t

namespace ReconnectTimer
variable {s t : ReconnectTimer} {op : Op}

/-- The flag says that the timer was stopped, and every wait that can be armed was. -/
structure Good (s : ReconnectTimer) : Prop where
  canceled : s.canceled = true ↔ 0 < s.stops
  clear : ∀ w ∈ s.waits, w.stopped = false → s.canceled = false

lemma mem_cancelWaits {w : Wait} {waits : List Wait} (h : w ∈ cancelWaits waits) :
    ∃ v ∈ waits, v.stopped = w.stopped := by
  obtain ⟨v, hv, rfl⟩ := List.mem_map.mp h
  refine ⟨v, hv, ?_⟩
  split_ifs <;> rfl

lemma Good.cancelWaits (hs : s.Good) {w : Wait} (hw : w ∈ cancelWaits s.waits) (hstopped : w.stopped = false) :
    s.canceled = false := by
  obtain ⟨v, hv, heq⟩ := mem_cancelWaits hw
  exact hs.clear v hv (heq.trans hstopped)

/-- Arming is good as long as the flag is clear. -/
lemma Good.post (hs : s.Good) (hclear : s.canceled = false) (delay : ℕ) : (s.postReconnectTimer delay).Good :=
  ⟨hs.canceled, fun _ _ _ => hclear⟩

lemma Good.not_canceled (hs : s.Good) : s.canceled = false ↔ s.stops = 0 := by
  rw [← Bool.not_eq_true, hs.canceled, Nat.not_lt, Nat.le_zero]

lemma Good.make (hs : s.Good) (h : s.isRunning = false → s.stops = 0) : s.makeReconnectTimer.Good := by
  unfold makeReconnectTimer
  split_ifs with hrunning
  · exact hs
  · have hclear := hs.not_canceled.mpr (h (Bool.eq_false_iff.mpr hrunning))
    exact Good.post (s := { s with isRunning := true }) ⟨hs.canceled, hs.clear⟩ hclear nanoSecondsMax

lemma Good.callback (hs : s.Good) : s.callback.Good := by
  unfold ReconnectTimer.callback
  split_ifs
  · exact ⟨hs.canceled, hs.clear⟩
  · exact hs

lemma callback_canceled : s.callback.canceled = s.canceled := by
  unfold callback
  split_ifs <;> rfl

lemma Good.handle (hs : s.Good) (ec : Status) : (s.handleReconnectTimer ec).Good := by
  unfold handleReconnectTimer
  split_ifs with hcanceled haborted
  · exact ⟨hs.canceled, hs.clear⟩
  · exact hs.post (Bool.eq_false_iff.mpr hcanceled) s.delay
  · exact hs.callback.post (callback_canceled.trans (Bool.eq_false_iff.mpr hcanceled)) nanoSecondsMax
  · exact hs.post (Bool.eq_false_iff.mpr hcanceled) nanoSecondsMax

lemma stop_good : s.stopReconnectTimer.Good := by
  refine ⟨iff_of_true rfl (Nat.succ_pos _), fun w hw hstopped => ?_⟩
  obtain ⟨v, -, rfl⟩ := List.mem_map.mp hw
  cases hstopped

lemma Good.exec (hs : s.Good) (hop : s.NeverStopped op) (h : s.exec op = some t) : t.Good := by
  cases op with
  | start ioPool =>
    simp only [ReconnectTimer.exec] at h
    split_ifs at h with hstate hpool
    · obtain rfl := Option.some.inj h
      refine Good.make (s := { s with state := .starting }) ⟨hs.canceled, hs.clear⟩ fun hrunning => ?_
      exact hop ⟨hrunning, Or.inr ⟨by rw [hpool], hstate⟩⟩
    · obtain rfl := Option.some.inj h
      exact ⟨hs.canceled, hs.clear⟩
    · obtain rfl := Option.some.inj h
      exact hs
  | stop | autoReconnect _ _ | state _ =>
    obtain rfl := Option.some.inj h
    exact ⟨hs.canceled, hs.clear⟩
  | stopTask =>
    simp only [ReconnectTimer.exec] at h
    split_ifs at h
    obtain rfl := Option.some.inj h
    exact stop_good
  | makeReconnectTimer =>
    obtain rfl := Option.some.inj h
    exact hs.make fun hrunning => hop ⟨hrunning, Or.inl rfl⟩
  | stopReconnectTimer =>
    obtain rfl := Option.some.inj h
    exact stop_good
  | wakeReconnectTimer =>
    obtain rfl := Option.some.inj h
    unfold ReconnectTimer.wakeReconnectTimer
    split_ifs
    · exact ⟨hs.canceled, fun w hw => hs.cancelWaits hw⟩
    · exact hs
  | expire i =>
    simp only [ReconnectTimer.exec] at h
    split at h
    · cases h
    next w hw =>
      split_ifs at h
      obtain rfl := Option.some.inj h
      refine ⟨hs.canceled, fun v hv hstopped => ?_⟩
      rcases List.mem_or_eq_of_mem_set hv with hv | rfl
      · exact hs.clear v hv hstopped
      · exact hs.clear w (List.mem_of_getElem? hw) hstopped
  | complete i =>
    simp only [ReconnectTimer.exec] at h
    split at h
    · cases h
    next w hw =>
      split_ifs at h
      obtain rfl := Option.some.inj h
      exact Good.handle (s := { s with waits := s.waits.eraseIdx i })
        ⟨hs.canceled, fun v hv => hs.clear v (List.mem_of_mem_eraseIdx hv)⟩ w.status

/-- A completion that finds the flag clear arms the next wait, and connects when it may. -/
lemma handle_ordinary (hclear : s.canceled = false) (ec : Status) :
    (s.handleReconnectTimer ec).waits.getLast? =
        some { delay := if ec = .aborted then s.delay else nanoSecondsMax } ∧
      (ec ≠ .aborted → s.enable = true → s.state = .stopped →
        (s.handleReconnectTimer ec).connects = s.connects + 1) := by
  unfold handleReconnectTimer
  rw [hclear]
  by_cases haborted : ec = .aborted
  · simp [haborted, postReconnectTimer]
  · simp only [haborted, if_false, Bool.false_eq_true]
    refine ⟨List.getLast?_concat, fun _ henable hstate => ?_⟩
    rw [henable]
    simp [postReconnectTimer, callback, hstate]

lemma Good.survives (hs : s.Good) (hop : s.NeverStopped op) (h : s.exec op = some t) : s.Survives op t := by
  refine ⟨(hs.exec hop h).clear, ?_⟩
  rintro i w rfl hw hstopped
  simp only [ReconnectTimer.exec, hw] at h
  split_ifs at h
  obtain rfl := Option.some.inj h
  exact handle_ordinary (s := { s with waits := s.waits.eraseIdx i })
    (hs.clear w (List.mem_of_getElem? hw) hstopped) w.status

lemma make_waits (h : s.isRunning = false) :
    s.makeReconnectTimer.waits = TyphoonZero.Reconnect.cancelWaits s.waits ++ [{ delay := nanoSecondsMax }] ∧
      s.makeReconnectTimer.canceled = s.canceled := by
  unfold makeReconnectTimer
  rw [h]
  exact ⟨rfl, rfl⟩

/-- What is armed by a start that follows a stop is marked as cancelled. -/
lemma Survives.neverStopped (hsurvives : s.Survives op t) (hs : s.Good) (h : s.exec op = some t) :
    s.NeverStopped op := by
  rintro ⟨hrunning, hop⟩
  have key : ∀ u : ReconnectTimer, u.isRunning = false → u.canceled = s.canceled → t = u.makeReconnectTimer →
      s.stops = 0 := by
    rintro u hu hcanceled rfl
    obtain ⟨hwaits, hsame⟩ := make_waits hu
    have hclear := hsurvives.clear { delay := nanoSecondsMax }
      (by rw [hwaits]; exact List.mem_append_right _ List.mem_cons_self) rfl
    exact hs.not_canceled.mp (hcanceled.symm.trans (hsame.symm.trans hclear))
  rcases hop with rfl | ⟨rfl, hstate⟩
  · exact key s hrunning rfl (Option.some.inj h).symm
  · simp only [ReconnectTimer.exec, hstate, if_true] at h
    exact key { s with state := .starting } hrunning rfl (Option.some.inj h).symm

end ReconnectTimer

section Runs
variable {ops : List Op} {s : ReconnectTimer}

/-- The reconnection survives a run if and only if the timer is armed only as long as it was never
stopped. -/
theorem reconnect_survives_iff (h : Traces reconnectRuns ops s) :
    Along reconnectRuns ReconnectTimer.Survives ops ↔
      Traces (reconnectRuns.restrict ReconnectTimer.NeverStopped) ops s := by
  refine Traces.along_iff (I := ReconnectTimer.Good) ?_ ?_ ?_ ?_ ?_ h
  · exact fun s t hs ht => hs.trans ht.symm
  · exact fun s op t u ht hu => Option.some.inj (ht.symm.trans hu)
  · rintro s rfl
    exact ⟨by simp, by simp⟩
  · exact fun s op t hs hstep => ⟨fun hsurvives => hsurvives.neverStopped hs hstep, fun hop => hs.survives hop hstep⟩
  · exact fun s op t hs hop hstep => hs.exec hop hstep

end Runs

/-- A client that loses its connection and is woken connects again. -/
theorem reconnect_survives_wake : Along reconnectRuns ReconnectTimer.Survives
    [.start true, .state .stopped, .wakeReconnectTimer, .complete 0, .expire 0, .complete 0] := by
  have h0 : Traces (reconnectRuns.restrict ReconnectTimer.NeverStopped) [] {} := .nil rfl
  have h1 := h0.snoc (l := Op.start true) ⟨fun _ => rfl, rfl⟩
  have h2 := h1.snoc (l := Op.state .stopped) ⟨fun _ => rfl, rfl⟩
  have h3 := h2.snoc (l := Op.wakeReconnectTimer) ⟨fun _ => rfl, rfl⟩
  have h4 := h3.snoc (l := Op.complete 0) ⟨fun _ => rfl, rfl⟩
  have h5 := h4.snoc (l := Op.expire 0) ⟨fun _ => rfl, rfl⟩
  have h6 := h5.snoc (l := Op.complete 0) ⟨fun _ => rfl, rfl⟩
  exact (reconnect_survives_iff h6.of_restrict).mpr h6

/-- Start, `Stop`, and a second start. -/
def restarted : List Op :=
  [.start true, .stop, .stopTask, .stopTask, .complete 0, .state .stopped, .start true]

/-- The wait of the second start is armed but marked as cancelled: its expiry connects nothing and
arms nothing. -/
theorem reconnect_lost_after_restart :
    (∃ s, Traces reconnectRuns restarted s ∧ s.waits = [{ delay := nanoSecondsMax }] ∧ s.canceled = true) ∧
    (∃ s, Traces reconnectRuns (restarted ++ [.state .stopped, .expire 0, .complete 0]) s ∧ s.enable = true ∧
      s.waits = [] ∧ s.connects = 0) ∧
    ¬Along reconnectRuns ReconnectTimer.Survives restarted := by
  have h0 : Traces reconnectRuns [] {} := .nil rfl
  have h1 := h0.snoc (l := Op.start true) rfl
  have h2 := h1.snoc (l := Op.stop) rfl
  have h3 := h2.snoc (l := Op.stopTask) rfl
  have h4 := h3.snoc (l := Op.stopTask) rfl
  have h5 := h4.snoc (l := Op.complete 0) rfl
  have h6 := h5.snoc (l := Op.state .stopped) rfl
  have h7 := h6.snoc (l := Op.start true) rfl
  have h8 := h7.snoc (l := Op.state .stopped) rfl
  have h9 := h8.snoc (l := Op.expire 0) rfl
  have h10 := h9.snoc (l := Op.complete 0) rfl
  refine ⟨⟨_, h7, rfl, rfl⟩, ⟨_, h10, rfl, rfl, rfl⟩, fun halong => ?_⟩
  have hsurvives := halong _ (.start true) _ _ (List.prefix_rfl) h6 rfl
  have hclear := hsurvives.clear { delay := nanoSecondsMax } List.mem_cons_self rfl
  cases hclear

end TyphoonZero.Reconnect
