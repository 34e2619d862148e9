import TyphoonZero.Transition

/-! Connecting and disconnecting of a session or client: the threads that complete a start, that
call `DoDisconnect` and that run the posted disconnect share one atomic state. -/
namespace TyphoonZero.NetConnect
open Transition

inductive NetState
  | stopped
  | stopping
  | starting
  | started
  deriving DecidableEq

/-- What the user is told; `fireConnect` says for which start. -/
inductive Event
  | start
  | fireConnect (start : ℕ)
  | fireDisconnect
  deriving DecidableEq

/-- Where the completion of a start is: before `HandleConnect`, at the first compare-and-swap of
`DoneConnect`, at those that follow, before `FireConnect`, at the last check, in the handler of the
exception. -/
inductive ConnectPc
  | waiting
  | done (ec : Bool)
  | check (ec : Bool)
  | checkStarted (ec : Bool)
  | fire (ec : Bool)
  | last (ec : Bool)
  | stop

structure Completion where
  start : ℕ
  pc : ConnectPc

/-- Which state a call of `DoDisconnect` will try to leave next. -/
inductive DisconnectPc
  | started
  | starting

/-- `posted` are the disconnect tasks with their old states, `firing` counts those that have
reached `Stopped` and are about to call `FireDisconnect`. -/
structure Link where
  state : NetState := .stopped
  starts : ℕ := 0
  completions : List Completion := []
  calls : List DisconnectPc := []
  posted : List NetState := []
  firing : ℕ := 0
  log : List Event := []

/-- `connect` lets a completion go one step on; `input` is an error of the connection or of the
initialization, or that the connection timed out. -/
inductive Op
  | start
  | stop
  | leaveStarted (i : ℕ)
  | leaveStarting (i : ℕ)
  | disconnectTask (i : ℕ)
  | fireDisconnect
  | connect (i : ℕ) (input : Bool)

namespace Link
variable (isSession : Bool) (s : Link)

/-- One step of the completion of a start, and where it is then. A session checks its state again
before `HandleConnect`. There is no step at a failed assertion. -/
def connectStep (start : ℕ) (input : Bool) : ConnectPc → Option (Link × Option ConnectPc)
  | .waiting =>
    if isSession then
      if input = false ∧ s.state = .starting then some (s, some (.done false))
      else some (s, some .stop)
    else some (s, some (.done input))
  | .done ec =>
    if ec = false ∧ input = false ∧ s.state = .starting then
      some ({ s with state := .started }, some (.check false))
    else some (s, some (.check true))
  | .check ec =>
    if isSession then
      if ec = false ∧ s.state = .started then some (s, some (.fire ec))
      else some (s, some (.last ec))
    else if s.state = .starting then
      if ec then some (s, some (.fire ec)) else none
    else some (s, some (.checkStarted ec))
  | .checkStarted ec =>
    if s.state = .started then
      if ec then none else some (s, some (.fire ec))
    else some (s, some (.last ec))
  | .fire ec => some ({ s with log := s.log ++ [.fireConnect start] }, some (.last ec))
  | .last ec =>
    if ec = false ∧ s.state = .started then some (s, none) else some (s, some .stop)
  | .stop => some ({ s with calls := s.calls ++ [.started] }, none)

/-- The task that `PostDisconnect` posted. -/
def runDisconnect (old : NetState) : Option Link :=
  if s.state = .stopping then
    if old = .started then some { s with state := .stopped, firing := s.firing + 1 }
    else if isSession then none else some { s with state := .stopped }
  else if isSession then some s else none

/-- `Started` or else `Starting` becomes `Stopping`; whoever does it posts the disconnect. -/
def exec : Op → Option Link
  | .start =>
    if s.state = .stopped then
      some { s with
        state := .starting
        starts := s.starts + 1
        completions := s.completions ++ [⟨s.starts + 1, .waiting⟩]
        log := s.log ++ [.start] }
    else none
  | .stop => some { s with calls := s.calls ++ [.started] }
  | .leaveStarted i =>
    match s.calls[i]? with
    | some .started =>
      if s.state = .started then
        some { s with
          state := .stopping, calls := s.calls.eraseIdx i, posted := s.posted ++ [.started] }
      else some { s with calls := s.calls.set i .starting }
    | _ => none
  | .leaveStarting i =>
    match s.calls[i]? with
    | some .starting =>
      if s.state = .starting then
        some { s with
          state := .stopping, calls := s.calls.eraseIdx i, posted := s.posted ++ [.starting] }
      else some { s with calls := s.calls.eraseIdx i }
    | _ => none
  | .disconnectTask i =>
    match s.posted[i]? with
    | some old => { s with posted := s.posted.eraseIdx i }.runDisconnect isSession old
    | none => none
  | .fireDisconnect =>
    if 0 < s.firing then
      some { s with firing := s.firing - 1, log := s.log ++ [.fireDisconnect] }
    else none
  | .connect i input =>
    match s.completions[i]? with
    | none => none
    | some c =>
      match s.connectStep isSession c.start input c.pc with
      | none => none
      | some (t, some pc) => some { t with completions := t.completions.set i ⟨c.start, pc⟩ }
      | some (t, none) => some { t with completions := t.completions.eraseIdx i }

end Link

def linkRuns (isSession : Bool) : System Link Op where
  init s := s = {}
  step s op t := s.exec isSession op = some t

/-- The events since the last start. -/
def currentRun (log : List Event) : List Event :=
  log.foldl (fun run e => if e = .start then [] else run ++ [e]) []

/-- Between two starts there is at most one `FireDisconnect`, and it comes after the `FireConnect`
of that start. -/
def Paired (log : List Event) : Prop :=
  ∀ pre post, log = pre ++ .fireDisconnect :: post →
    .fireDisconnect ∉ currentRun pre ∧ .fireConnect (pre.count .start) ∈ currentRun pre

/-- No call of `DoDisconnect` leaves `Started` before `FireConnect` was called for the start, and
no start comes between `Stopped` and the `FireDisconnect` that is due. -/
def AfterConnect (s : Link) : Op → Prop
  | .leaveStarted _ => s.state = .started → .fireConnect s.starts ∈ currentRun s.log
  | .start => s.firing = 0
  | _ => True

/-- A disconnect is posted exactly while the state is `Stopping`; what is to be reported was
connected, and has not been reported in this run. -/
structure Link.Inv (s : Link) : Prop where
  paired : Paired s.log
  counted : s.log.count .start = s.starts
  running : s.state ≠ .stopped → .fireDisconnect ∉ currentRun s.log ∧ s.firing = 0
  posted : s.posted.length = if s.state = .stopping then 1 else 0
  old : .started ∈ s.posted → .fireConnect s.starts ∈ currentRun s.log
  single : s.firing ≤ 1
  firing : 0 < s.firing → .fireDisconnect ∉ currentRun s.log ∧
    .fireConnect s.starts ∈ currentRun s.log

lemma currentRun_start (log : List Event) : currentRun (log ++ [.start]) = [] := by
  simp [currentRun]

lemma currentRun_snoc (log : List Event) {e : Event} (h : e ≠ .start) :
    currentRun (log ++ [e]) = currentRun log ++ [e] := by
  simp [currentRun, h]

lemma Paired.snoc {log : List Event} (h : Paired log) {e : Event}
    (he : e = .fireDisconnect → .fireDisconnect ∉ currentRun log ∧
      .fireConnect (log.count .start) ∈ currentRun log) : Paired (log ++ [e]) := by
  intro pre post hsplit
  induction post using List.reverseRecOn with
  | nil =>
    obtain ⟨rfl, hlast⟩ := List.append_inj' hsplit rfl
    obtain rfl := (List.cons.inj hlast).1
    exact he rfl
  | append_singleton post x _ =>
    have hassoc : log ++ [e] = (pre ++ .fireDisconnect :: post) ++ [x] := by
      simpa using hsplit
    obtain ⟨hlog, -⟩ := List.append_inj' hassoc rfl
    exact h pre post hlog

namespace Link
variable {isSession : Bool} {s t : Link}

/-- The completion of a start only moves on to `Started`, reports the connection and calls
`DoDisconnect`. -/
lemma connectStep_cases {start : ℕ} {input : Bool} {pc : ConnectPc} {next : Option ConnectPc}
    (h : s.connectStep isSession start input pc = some (t, next)) :
    t = s ∨ (s.state = .starting ∧ t = { s with state := .started }) ∨
      t = { s with log := s.log ++ [.fireConnect start] } ∨
      t = { s with calls := s.calls ++ [.started] } := by
  cases pc with
  | fire ec =>
    obtain ⟨rfl, -⟩ := Prod.mk.inj (Option.some.inj h)
    exact .inr (.inr (.inl rfl))
  | stop =>
    obtain ⟨rfl, -⟩ := Prod.mk.inj (Option.some.inj h)
    exact .inr (.inr (.inr rfl))
  | done ec =>
    simp only [connectStep] at h
    split at h
    next hc =>
      obtain ⟨rfl, -⟩ := Prod.mk.inj (Option.some.inj h)
      exact .inr (.inl ⟨hc.2.2, rfl⟩)
    next =>
      obtain ⟨rfl, -⟩ := Prod.mk.inj (Option.some.inj h)
      exact .inl rfl
  | waiting | check ec | checkStarted ec | last ec =>
    left
    simp only [connectStep] at h
    repeat' split at h
    all_goals first
      | (cases h; done)
      | (cases h; rfl)

/-- Completions and calls are not looked at. -/
lemma Inv.congr (h : s.Inv) (hstate : t.state = s.state) (hstarts : t.starts = s.starts)
    (hposted : t.posted = s.posted) (hfiring : t.firing = s.firing) (hlog : t.log = s.log) :
    t.Inv := by
  constructor
  · rw [hlog]
    exact h.paired
  · rw [hlog, hstarts]
    exact h.counted
  · rw [hstate, hlog, hfiring]
    exact h.running
  · rw [hposted, hstate]
    exact h.posted
  · rw [hposted, hstarts, hlog]
    exact h.old
  · rw [hfiring]
    exact h.single
  · rw [hfiring, hlog, hstarts]
    exact h.firing

lemma Inv.fireConnect (h : s.Inv) (start : ℕ) :
    Inv { s with log := s.log ++ [.fireConnect start] } := by
  have hrun := currentRun_snoc s.log (e := .fireConnect start) (by simp)
  constructor
  · apply h.paired.snoc
    intro heq
    cases heq
  · simpa using h.counted
  · intro hs
    obtain ⟨hno, hzero⟩ := h.running hs
    exact ⟨by simp [hrun, hno], hzero⟩
  · exact h.posted
  · intro hmem
    simp [hrun, h.old hmem]
  · exact h.single
  · intro hf
    obtain ⟨hno, hyes⟩ := h.firing hf
    exact ⟨by simp [hrun, hno], by simp [hrun, hyes]⟩

lemma Inv.setStarted (h : s.Inv) (hs : s.state = .starting) :
    Inv { s with state := .started } := by
  have hlive := h.running (by simp [hs])
  have hposted := h.posted
  rw [hs] at hposted
  exact ⟨h.paired, h.counted, fun _ => hlive, hposted, h.old, h.single, h.firing⟩

/-- A call of `DoDisconnect` that leaves `Started` or `Starting`. -/
lemma Inv.stopping (h : s.Inv) {old : NetState} (hs : s.state = .started ∨ s.state = .starting)
    (hold : old = .started → .fireConnect s.starts ∈ currentRun s.log)
    (calls : List DisconnectPc) :
    Inv { s with state := .stopping, calls := calls, posted := s.posted ++ [old] } := by
  have hlive := h.running (by rcases hs with hs | hs <;> simp [hs])
  have hempty : s.posted = [] := by
    have hlen := h.posted
    rcases hs with hs | hs <;> rw [hs] at hlen <;> exact List.eq_nil_of_length_eq_zero hlen
  constructor
  · exact h.paired
  · exact h.counted
  · exact fun _ => hlive
  · simp [hempty]
  · intro hmem
    have heq : NetState.started = old := by simpa [hempty] using hmem
    exact hold heq.symm
  · exact h.single
  · exact h.firing

/-- The task finds `Stopping`, and is the only one posted. -/
lemma Inv.runDisconnect (h : s.Inv) {i : ℕ} {old : NetState} (hi : s.posted[i]? = some old)
    (hrun : { s with posted := s.posted.eraseIdx i }.runDisconnect isSession old = some t) :
    t.Inv := by
  obtain ⟨hlt, hget⟩ := List.getElem?_eq_some_iff.mp hi
  have hstate : s.state = .stopping := by
    by_contra hne
    have hlen := h.posted
    rw [if_neg hne] at hlen
    omega
  have hlen : s.posted.length = 1 := by
    have hlen := h.posted
    rwa [if_pos hstate] at hlen
  have hempty : s.posted.eraseIdx i = [] := by
    apply List.eq_nil_of_length_eq_zero
    rw [List.length_eraseIdx_of_lt hlt, hlen]
  obtain ⟨hno, hzero⟩ := h.running (by simp [hstate])
  simp only [Link.runDisconnect, hstate, if_true] at hrun
  split at hrun
  next hold =>
    obtain rfl := Option.some.inj hrun
    have hconnected : .fireConnect s.starts ∈ currentRun s.log := by
      apply h.old
      rw [← hold, ← hget]
      exact List.getElem_mem hlt
    exact ⟨h.paired, h.counted, fun hs => absurd rfl hs, by simp [hempty], by simp [hempty],
      by simp [hzero], fun _ => ⟨hno, hconnected⟩⟩
  next =>
    split at hrun
    · cases hrun
    · obtain rfl := Option.some.inj hrun
      exact ⟨h.paired, h.counted, fun hs => absurd rfl hs, by simp [hempty], by simp [hempty],
        h.single, h.firing⟩

lemma Inv.start (h : s.Inv) (hs : s.state = .stopped) (hfiring : s.firing = 0)
    (completions : List Completion) :
    Inv { s with
      state := .starting, starts := s.starts + 1, completions := completions,
      log := s.log ++ [.start] } := by
  have hempty : s.posted = [] := by
    have hlen := h.posted
    rw [hs] at hlen
    exact List.eq_nil_of_length_eq_zero hlen
  constructor
  · apply h.paired.snoc
    intro heq
    cases heq
  · simp [h.counted]
  · intro _
    exact ⟨by simp [currentRun_start], hfiring⟩
  · simp [hempty]
  · intro hmem
    simp [hempty] at hmem
  · exact h.single
  · intro hf
    simp only at hf
    omega

lemma Inv.fireDisconnect (h : s.Inv) (hf : 0 < s.firing) :
    Inv { s with firing := s.firing - 1, log := s.log ++ [.fireDisconnect] } := by
  obtain ⟨hno, hyes⟩ := h.firing hf
  have hsingle := h.single
  have hzero : s.firing - 1 = 0 := by omega
  have hstate : s.state = .stopped := by
    by_contra hne
    have := (h.running hne).2
    omega
  have hrun := currentRun_snoc s.log (e := .fireDisconnect) (by simp)
  constructor
  · apply h.paired.snoc
    intro _
    rw [h.counted]
    exact ⟨hno, hyes⟩
  · simpa using h.counted
  · exact fun hs => absurd hstate hs
  · exact h.posted
  · intro hmem
    simp [hrun, h.old hmem]
  · simp [hzero]
  · intro hpos
    simp only [hzero] at hpos
    omega

lemma Inv.exec {op : Op} (h : s.Inv) (hc : AfterConnect s op)
    (hs : s.exec isSession op = some t) : t.Inv := by
  cases op with
  | start =>
    simp only [Link.exec] at hs
    split at hs
    next hstate =>
      obtain rfl := Option.some.inj hs
      exact h.start hstate hc _
    next => cases hs
  | stop =>
    obtain rfl := Option.some.inj hs
    exact h.congr rfl rfl rfl rfl rfl
  | leaveStarted i =>
    simp only [Link.exec] at hs
    split at hs
    · split at hs
      next hstate =>
        obtain rfl := Option.some.inj hs
        exact h.stopping (.inl hstate) (fun _ => hc hstate) _
      next =>
        obtain rfl := Option.some.inj hs
        exact h.congr rfl rfl rfl rfl rfl
    · cases hs
  | leaveStarting i =>
    simp only [Link.exec] at hs
    split at hs
    · split at hs
      next hstate =>
        obtain rfl := Option.some.inj hs
        apply h.stopping (.inr hstate)
        intro heq
        cases heq
      next =>
        obtain rfl := Option.some.inj hs
        exact h.congr rfl rfl rfl rfl rfl
    · cases hs
  | disconnectTask i =>
    simp only [Link.exec] at hs
    split at hs
    next old hi => exact h.runDisconnect hi hs
    next => cases hs
  | fireDisconnect =>
    simp only [Link.exec] at hs
    split at hs
    next hf =>
      obtain rfl := Option.some.inj hs
      exact h.fireDisconnect hf
    next => cases hs
  | connect i input =>
    have hstep : ∀ {u : Link} {start : ℕ} {pc : ConnectPc} {next : Option ConnectPc},
        s.connectStep isSession start input pc = some (u, next) → u.Inv := by
      intro u start pc next hu
      obtain rfl | ⟨hstate, rfl⟩ | rfl | rfl := connectStep_cases hu
      · exact h
      · exact h.setStarted hstate
      · exact h.fireConnect start
      · exact h.congr rfl rfl rfl rfl rfl
    simp only [Link.exec] at hs
    split at hs
    · cases hs
    · split at hs
      · cases hs
      next hu =>
        obtain rfl := Option.some.inj hs
        exact (hstep hu).congr rfl rfl rfl rfl rfl
      next hu =>
        obtain rfl := Option.some.inj hs
        exact (hstep hu).congr rfl rfl rfl rfl rfl

end Link

/-- In every run in which `Started` is left only after `FireConnect`, and no start overtakes a
`FireDisconnect` that is due, the callbacks are paired. -/
theorem callbacks_paired (isSession : Bool) {s : Link}
    (h : Reachable ((linkRuns isSession).restrict AfterConnect) s) : Paired s.log := by
  have hinv : s.Inv := by
    apply h.invariant
    · intro a ha
      cases ha
      constructor <;> simp [Paired]
    · intro a op b hi hs
      exact hi.exec hs.1 hs.2
  exact hinv.paired

/-- A session starts, is connected and is stopped. -/
theorem callbacks_paired_session :
    ∃ s : Link, Reachable ((linkRuns true).restrict AfterConnect) s ∧
      s.log = [.start, .fireConnect 1, .fireDisconnect] ∧ Paired s.log := by
  have h0 : Reachable ((linkRuns true).restrict AfterConnect) ({} : Link) := .init rfl
  have h1 := @Reachable.step _ _ _ Op.start _ _ h0 ⟨rfl, rfl⟩
  have h2 := @Reachable.step _ _ _ (Op.connect 0 false) _ _ h1 ⟨trivial, rfl⟩
  have h3 := @Reachable.step _ _ _ (Op.connect 0 false) _ _ h2 ⟨trivial, rfl⟩
  have h4 := @Reachable.step _ _ _ (Op.connect 0 false) _ _ h3 ⟨trivial, rfl⟩
  have h5 := @Reachable.step _ _ _ (Op.connect 0 false) _ _ h4 ⟨trivial, rfl⟩
  have h6 := @Reachable.step _ _ _ Op.stop _ _ h5 ⟨trivial, rfl⟩
  have h7 := @Reachable.step _ _ _ (Op.leaveStarted 0) _ _ h6
    ⟨fun _ => List.mem_cons_self, rfl⟩
  have h8 := @Reachable.step _ _ _ (Op.disconnectTask 0) _ _ h7 ⟨trivial, rfl⟩
  have h9 := @Reachable.step _ _ _ Op.fireDisconnect _ _ h8 ⟨trivial, rfl⟩
  exact ⟨_, h9, rfl, callbacks_paired true h9⟩

/-- `Stop` comes between the two compare-and-swaps of `DoneConnect`: the disconnect is reported,
and the connection never was. -/
theorem stop_before_fireConnect :
    ∃ s : Link, Reachable (linkRuns true) s ∧ s.log = [.start, .fireDisconnect] ∧
      ¬ Paired s.log := by
  have h0 : Reachable (linkRuns true) ({} : Link) := .init rfl
  have h1 := @Reachable.step _ _ _ Op.start _ _ h0 rfl
  have h2 := @Reachable.step _ _ _ (Op.connect 0 false) _ _ h1 rfl
  have h3 := @Reachable.step _ _ _ (Op.connect 0 false) _ _ h2 rfl
  have h4 := @Reachable.step _ _ _ Op.stop _ _ h3 rfl
  have h5 := @Reachable.step _ _ _ (Op.leaveStarted 0) _ _ h4 rfl
  have h6 := @Reachable.step _ _ _ (Op.connect 0 false) _ _ h5 rfl
  have h7 := @Reachable.step _ _ _ (Op.disconnectTask 0) _ _ h6 rfl
  have h8 := @Reachable.step _ _ _ Op.fireDisconnect _ _ h7 rfl
  refine ⟨_, h8, rfl, ?_⟩
  intro h
  have hmem := (h [.start] [] rfl).2
  cases hmem

end TyphoonZero.NetConnect
