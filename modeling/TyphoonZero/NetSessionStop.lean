import TyphoonZero.NetRequests

/-! Stopping a session at any point of its start: from `DoDisconnect` over `Erase` and
`FireDisconnect` to `HandleDisconnect`. -/
namespace TyphoonZero.NetConnect
open Transition

/-- A session that is started once. `handles` counts the posted calls of `HandleDisconnect`,
`handled` those that ran. -/
structure SessionStop where
  requests : Requests := {}
  started : Bool := false
  handles : ℕ := 0
  handled : ℕ := 0

inductive StopOp
  | link (op : Op)
  | handleDisconnect

namespace SessionStop

/-- The posted task, `Erase` and its callback are one step; `HandleDisconnect` is posted after
`FireDisconnect`. -/
def step (s : SessionStop) : StopOp → SessionStop → Prop
  | .link .start, s' => s.started = false ∧ ∃ t, s.requests.link.exec true .start = some t ∧
      s' = { s with requests := s.requests.after .start t, started := true }
  | .link .fireDisconnect, s' => ∃ t, s.requests.link.exec true .fireDisconnect = some t ∧
      s' = { s with requests := s.requests.after .fireDisconnect t, handles := s.handles + 1 }
  | .link op, s' => ∃ t, s.requests.link.exec true op = some t ∧
      s' = { s with requests := s.requests.after op t }
  | .handleDisconnect, s' => 0 < s.handles ∧
      s' = { s with handles := s.handles - 1, handled := s.handled + 1 }

/-- Nothing of a disconnect is left to run. -/
structure Finished (s : SessionStop) : Prop where
  calls : s.requests.link.calls = []
  posted : s.requests.link.posted = []
  firing : s.requests.link.firing = 0
  handles : s.handles = 0

/-- A posted disconnect passes the assertion on the state, and a session that was asked to stop is
stopped and handled once in the end. -/
structure CleanStop (s : SessionStop) : Prop where
  assertion : ∀ (i : ℕ) (old : NetState), s.requests.link.posted[i]? = some old → s.requests.link.state = .stopping →
    old = NetState.started
  done : s.Finished → s.requests.begun = true → s.requests.link.state = .stopped ∧ s.handled = 1

/-- No call makes its second compare-and-swap while the session is starting, and `DoneConnect` does
not leave behind only calls between the two. -/
def NotStarting (s : SessionStop) : StopOp → Prop
  | .link (.leaveStarting i) => s.requests.link.calls[i]? = some .starting →
      s.requests.link.state ≠ .starting
  | .link op => s.requests.CallAhead op
  | .handleDisconnect => True

end SessionStop

def sessionStopRuns : System SessionStop StopOp where
  init s := s = {}
  step := SessionStop.step

section Runs
variable {s s' : SessionStop}

/-- What was posted is on its way to `HandleDisconnect`. -/
structure SessionStop.Inv (s : SessionStop) : Prop where
  requests : s.requests.Inv
  old : ∀ o ∈ s.requests.link.posted, o = NetState.started
  way : s.requests.link.posted.length + s.requests.link.firing + s.handles + s.handled =
    s.requests.posts
  fresh : s.started = false → s.requests.link.state = .stopped ∧ s.requests.posts = 0

lemma SessionStop.Inv.clean (h : s.Inv) : s.CleanStop := by
  constructor
  · intro i old hi _
    exact h.old old (List.mem_of_getElem? hi)
  · intro hfinished hbegun
    have hone := h.requests.onePost.one hfinished.calls hbegun
    have hway := h.way
    rw [hfinished.posted, hfinished.firing, hfinished.handles, hone] at hway
    refine ⟨?_, by simpa using hway⟩
    have hlive : ¬ s.requests.link.Live := by
      intro hl
      have hzero := h.requests.live hl
      omega
    have hposted := h.requests.posted
    unfold Link.Posted at hposted
    rw [hfinished.posted] at hposted
    cases hstate : s.requests.link.state with
    | stopped => rfl
    | stopping => simp [hstate] at hposted
    | starting => exact absurd (.inl hstate) hlive
    | started => exact absurd (.inr hstate) hlive

lemma SessionStop.NotStarting.callAhead {op : Op} (h : s.NotStarting (.link op)) :
    s.requests.CallAhead op := by
  cases op with
  | leaveStarting i => trivial
  | _ => exact h

lemma Requests.after_posts {r : Requests} {op : Op} {t : Link} (hop : op ≠ .start) :
    (r.after op t).link = t ∧
      (r.after op t).posts = r.posts + (t.posted.length - r.link.posted.length) := by
  rw [Requests.after_of_ne hop]
  exact ⟨rfl, rfl⟩

/-- A step of the link that is not `FireDisconnect` keeps what is on its way. -/
lemma SessionStop.Inv.link (h : s.Inv) {op : Op} {t : Link} (hne : op ≠ .start)
    (hfire : op ≠ .fireDisconnect) (hop : s.NotStarting (.link op))
    (hs : s.requests.link.exec true op = some t) :
    SessionStop.Inv { s with requests := s.requests.after op t } := by
  have hrequests := h.requests.step hop.callAhead hs
  obtain ⟨hlink, hposts⟩ := @Requests.after_posts s.requests op t hne
  have hway := h.way
  have hkeep : t.posted = s.requests.link.posted → t.firing = s.requests.link.firing →
      (s.started = false → t.state = .stopped) →
      SessionStop.Inv { s with requests := s.requests.after op t } := by
    intro hposted hfiring hfresh
    rw [hposted, Nat.sub_self, Nat.add_zero] at hposts
    refine ⟨hrequests, ?_, ?_, fun hf => ⟨?_, ?_⟩⟩
    · rw [hlink, hposted]
      exact h.old
    · rw [hlink, hposts, hposted, hfiring]
      exact hway
    · rw [hlink]
      exact hfresh hf
    · rw [hposts]
      exact (h.fresh hf).2
  cases Link.exec_effect hs with
  | start hstate heff => exact absurd rfl hne
  | request _ _ heff =>
    exact hkeep heff.posted heff.firing fun hf => heff.state.trans (h.fresh hf).1
  | leaveStarted i hi hstate heff =>
    have hposted : t.posted = s.requests.link.posted ++ [.started] := heff.posted
    have hfiring : t.firing = s.requests.link.firing := heff.firing
    refine ⟨hrequests, ?_, ?_, fun hf => ?_⟩
    · rw [hlink, hposted]
      intro o ho
      obtain ho | ho := List.mem_append.mp ho
      · exact h.old o ho
      · exact List.mem_singleton.mp ho
    · dsimp only
      rw [hlink, hposts, hposted, hfiring, List.length_append, List.length_singleton]
      omega
    · have hfresh := (h.fresh hf).1
      rw [hstate] at hfresh
      cases hfresh
  | retry i _ _ heff => exact hkeep heff.posted heff.firing fun hf => heff.state.trans (h.fresh hf).1
  | leaveStarting i hi hstate heff => exact absurd hstate (hop hi)
  | giveUp i _ _ heff => exact hkeep heff.posted heff.firing fun hf => heff.state.trans (h.fresh hf).1
  | task i old hi htask =>
    obtain ⟨hstate, hposted, rfl⟩ := h.requests.posted.state hi
    obtain rfl := h.old old (List.mem_of_getElem? hi)
    rw [hposted] at htask hposts hway
    have ht : t = { s.requests.link with
        state := .stopped, posted := [], firing := s.requests.link.firing + 1 } := by
      unfold Link.runDisconnect at htask
      simp only [hstate, if_true] at htask
      exact (Option.some.inj htask).symm
    refine ⟨hrequests, ?_, ?_, fun hf => ?_⟩
    · rw [hlink, ht]
      intro o ho
      cases ho
    · dsimp only
      rw [hlink, hposts, ht]
      simp only [List.length_nil, List.length_singleton] at hway ⊢
      omega
    · have hfresh := (h.fresh hf).1
      rw [hstate] at hfresh
      cases hfresh
  | fire _ heff => exact absurd rfl hfire
  | connected i input c _ _ _ hstate heff =>
    refine hkeep heff.posted heff.firing fun hf => ?_
    have hfresh := (h.fresh hf).1
    rw [hstate] at hfresh
    cases hfresh
  | moved i input heff => exact hkeep heff.posted heff.firing fun hf => heff.state.trans (h.fresh hf).1

lemma SessionStop.Inv.start (h : s.Inv) (hf : s.started = false) {t : Link}
    (hs : s.requests.link.exec true .start = some t) :
    SessionStop.Inv { s with requests := s.requests.after .start t, started := true } := by
  have hrequests := @Requests.Inv.step true _ .start t h.requests trivial hs
  obtain ⟨-, hzero⟩ := h.fresh hf
  have hway := h.way
  cases Link.exec_effect hs with
  | start hstate heff =>
    have hposted : t.posted = s.requests.link.posted := heff.posted
    have hfiring : t.firing = s.requests.link.firing := heff.firing
    refine ⟨hrequests, ?_, ?_, fun ht => ?_⟩
    · show ∀ o ∈ t.posted, o = NetState.started
      rw [hposted]
      exact h.old
    · show t.posted.length + t.firing + s.handles + s.handled = 0
      rw [hposted, hfiring, hway, hzero]
    · cases ht
  | request _ hne _ => exact absurd rfl hne

lemma SessionStop.Inv.fireDisconnect (h : s.Inv) {t : Link}
    (hs : s.requests.link.exec true .fireDisconnect = some t) :
    SessionStop.Inv { s with
      requests := s.requests.after .fireDisconnect t, handles := s.handles + 1 } := by
  have hrequests := @Requests.Inv.step true _ .fireDisconnect t h.requests trivial hs
  obtain ⟨hlink, hposts⟩ := @Requests.after_posts s.requests .fireDisconnect t (by simp)
  have hway := h.way
  have hstep : 0 < s.requests.link.firing ∧ Link.Same { s.requests.link with
      firing := s.requests.link.firing - 1 } t := by
    simp only [Link.exec] at hs
    split_ifs at hs with hf
    obtain rfl := Option.some.inj hs
    exact ⟨hf, rfl, rfl, rfl, rfl⟩
  obtain ⟨hpos, heff⟩ := hstep
  have hposted : t.posted = s.requests.link.posted := heff.posted
  have hfiring : t.firing = s.requests.link.firing - 1 := heff.firing
  have hstate : t.state = s.requests.link.state := heff.state
  rw [hposted, Nat.sub_self, Nat.add_zero] at hposts
  refine ⟨hrequests, ?_, ?_, fun hf => ?_⟩
  · rw [hlink, hposted]
    exact h.old
  · dsimp only
    rw [hlink, hposts, hposted, hfiring]
    omega
  · rw [hlink, hposts, hstate]
    exact h.fresh hf

lemma SessionStop.Inv.step (h : s.Inv) {op : StopOp} (hop : s.NotStarting op) (hs : s.step op s') :
    s'.Inv := by
  cases op with
  | handleDisconnect =>
    obtain ⟨hpos, rfl⟩ := hs
    have hway := h.way
    refine ⟨h.requests, h.old, ?_, h.fresh⟩
    dsimp only
    omega
  | link op =>
    cases op with
    | start =>
      obtain ⟨hf, t, ht, rfl⟩ := hs
      exact h.start hf ht
    | fireDisconnect =>
      obtain ⟨t, ht, rfl⟩ := hs
      exact h.fireDisconnect ht
    | stop | leaveStarted i | leaveStarting i | disconnectTask i | connect i input =>
      obtain ⟨t, ht, rfl⟩ := hs
      exact h.link (by simp) (by simp) hop ht

lemma reachable_sessionStop
    (h : Reachable (sessionStopRuns.restrict SessionStop.NotStarting) s) : s.Inv := by
  apply h.invariant
  · intro s hs
    cases hs
    refine ⟨⟨rfl, fun _ => rfl, Nat.zero_le 1, fun hb => ?_, fun hb => ?_⟩, fun o ho => ?_, rfl,
      fun _ => ⟨rfl, rfl⟩⟩
    · cases hb
    · cases hb
    · cases ho
  · intro s op s' hs hstep
    exact hs.step hstep.1 hstep.2

/-- In every run in which no call leaves the session while it is starting, no assertion on the
state fails; a session that was asked to stop is stopped and handled when nothing is left to run,
and until then something can run. -/
theorem session_stops_cleanly
    (h : Reachable (sessionStopRuns.restrict SessionStop.NotStarting) s) :
    s.CleanStop ∧ (¬ s.Finished → ∃ op s', op ≠ .link .stop ∧ s.step op s') := by
  have hinv := reachable_sessionStop h
  refine ⟨hinv.clean, fun hn => ?_⟩
  by_contra hstuck
  simp only [not_exists, not_and] at hstuck
  apply hn
  constructor
  · apply List.eq_nil_iff_forall_not_mem.mpr
    intro c hc
    obtain ⟨i, hi⟩ := List.mem_iff_getElem?.mp hc
    cases c with
    | started =>
      by_cases hstate : s.requests.link.state = .started
      · exact hstuck (.link (.leaveStarted i)) _ (by simp)
          ⟨_, by simp only [Link.exec, hi]; exact if_pos hstate, rfl⟩
      · exact hstuck (.link (.leaveStarted i)) _ (by simp)
          ⟨_, by simp only [Link.exec, hi]; exact if_neg hstate, rfl⟩
    | starting =>
      by_cases hstate : s.requests.link.state = .starting
      · exact hstuck (.link (.leaveStarting i)) _ (by simp)
          ⟨_, by simp only [Link.exec, hi]; exact if_pos hstate, rfl⟩
      · exact hstuck (.link (.leaveStarting i)) _ (by simp)
          ⟨_, by simp only [Link.exec, hi]; exact if_neg hstate, rfl⟩
  · apply List.eq_nil_iff_forall_not_mem.mpr
    intro o ho
    obtain ⟨i, hi⟩ := List.mem_iff_getElem?.mp ho
    obtain ⟨hstate, -, -⟩ := hinv.requests.posted.state hi
    obtain rfl := hinv.old o ho
    have hexec : s.requests.link.exec true (.disconnectTask i) = some { s.requests.link with
        state := .stopped, posted := s.requests.link.posted.eraseIdx i
        firing := s.requests.link.firing + 1 } := by
      simp [Link.exec, hi, Link.runDisconnect, hstate]
    exact hstuck (.link (.disconnectTask i)) _ (by simp) ⟨_, hexec, rfl⟩
  · by_contra hf
    have hexec : s.requests.link.exec true .fireDisconnect = some { s.requests.link with
        firing := s.requests.link.firing - 1, log := s.requests.link.log ++ [.fireDisconnect] } :=
      if_pos (Nat.pos_of_ne_zero hf)
    exact hstuck (.link .fireDisconnect) _ (by simp) ⟨_, hexec, rfl⟩
  · by_contra hh
    exact hstuck .handleDisconnect _ (by simp) ⟨Nat.pos_of_ne_zero hh, rfl⟩

end Runs

section Examples

/-- A session is connected, stopped and handled. -/
theorem session_stops_cleanly_connected :
    ∃ s : SessionStop, Reachable (sessionStopRuns.restrict SessionStop.NotStarting) s ∧
      s.requests.link.state = .stopped ∧ s.handled = 1 ∧ s.CleanStop := by
  have h0 : Reachable (sessionStopRuns.restrict SessionStop.NotStarting) ({} : SessionStop) := .init rfl
  have h1 := @Reachable.step _ _ _ (StopOp.link .start) _ _ h0 ⟨trivial, rfl, _, rfl, rfl⟩
  have h2 := @Reachable.step _ _ _ (StopOp.link (.connect 0 false)) _ _ h1
    ⟨(by rintro c hc hpc; cases hc; cases hpc), _, rfl, rfl⟩
  have h3 := @Reachable.step _ _ _ (StopOp.link (.connect 0 false)) _ _ h2
    ⟨(by rintro c - - - - hb; cases hb), _, rfl, rfl⟩
  have h4 := @Reachable.step _ _ _ (StopOp.link .stop) _ _ h3 ⟨trivial, _, rfl, rfl⟩
  have h5 := @Reachable.step _ _ _ (StopOp.link (.leaveStarted 0)) _ _ h4 ⟨trivial, _, rfl, rfl⟩
  have h6 := @Reachable.step _ _ _ (StopOp.link (.disconnectTask 0)) _ _ h5 ⟨trivial, _, rfl, rfl⟩
  have h7 := @Reachable.step _ _ _ (StopOp.link .fireDisconnect) _ _ h6 ⟨trivial, _, rfl, rfl⟩
  have h8 := @Reachable.step _ _ _ StopOp.handleDisconnect _ _ h7 ⟨trivial, Nat.one_pos, rfl⟩
  exact ⟨_, h8, rfl, rfl, (session_stops_cleanly h8).1⟩

/-- `Stop` is called from `FireAccept`, while the session is starting. -/
theorem stop_in_fireAccept :
    ∃ s : SessionStop, Reachable sessionStopRuns s ∧
      s.requests.link.exec true (.disconnectTask 0) = none ∧ ¬ s.CleanStop := by
  have h0 : Reachable sessionStopRuns ({} : SessionStop) := .init rfl
  have h1 := @Reachable.step _ _ _ (StopOp.link .start) _ _ h0 ⟨rfl, _, rfl, rfl⟩
  have h2 := @Reachable.step _ _ _ (StopOp.link .stop) _ _ h1 ⟨_, rfl, rfl⟩
  have h3 := @Reachable.step _ _ _ (StopOp.link (.leaveStarted 0)) _ _ h2 ⟨_, rfl, rfl⟩
  have h4 := @Reachable.step _ _ _ (StopOp.link (.leaveStarting 0)) _ _ h3 ⟨_, rfl, rfl⟩
  refine ⟨_, h4, rfl, fun h => ?_⟩
  have hold := h.assertion 0 .starting rfl rfl
  cases hold

end Examples
end TyphoonZero.NetConnect
