import TyphoonZero.NetServer

/-! The server stops once and last: each step keeps the invariant, and the invariant at the end of
a run. -/
namespace TyphoonZero.NetServer
open Transition NetConnect

namespace Session
variable {x : Session} {busy busy' : Option AcceptPc} {starts : ℕ}

lemma doDisconnect_holds (x : Session) :
    x.doDisconnect.holds = x.holds ∧ x.doDisconnect.start = x.start ∧ ¬ x.doDisconnect.Live := by
  unfold doDisconnect Live
  cases hx : x.state <;> simp [hx]

/-- A session that is not starting is disconnected in order. -/
lemma Ok.doDisconnect (h : x.Ok busy starts) (hx : x.state ≠ .starting) :
    x.doDisconnect.Ok busy' starts := by
  obtain ⟨hstart, hle, hok⟩ := h
  unfold Session.doDisconnect
  cases hs : x.state with
  | starting => exact absurd hs hx
  | started =>
    simp only [hs] at hok
    exact ⟨hstart, hle, hok.2.1, .inl rfl⟩
  | stopping | stopped =>
    rw [hs] at hok
    refine ⟨hstart, hle, ?_⟩
    simp only [hs]
    exact hok

/-- A session that has dropped the counter is through. -/
lemma Ok.of_dropped (h : x.Ok busy starts) (hx : x.holds = false) {starts' : ℕ}
    (hle : starts ≤ starts') : x.Ok busy' starts' ∧ x.stage = none ∧ ¬ x.Live := by
  obtain ⟨-, hstart, hok⟩ := h
  cases hs : x.state with
  | starting | started | stopping =>
    simp only [hs, hx] at hok
    simp at hok
  | stopped =>
    simp only [hs, hx] at hok
    have hstage : x.stage = none := by simpa using hok
    refine ⟨⟨fun hh => by simp [hx] at hh, by omega, ?_⟩, hstage, ?_⟩
    · rw [hs]
      exact .inr ⟨hstage, hx⟩
    · simp [Live, hs]

/-- At every point of its start a session may fail. -/
lemma Ok.fail {pc : AcceptPc} (h : x.Ok (some pc) starts) :
    x.Ok (some .fail) starts := by
  obtain ⟨hstart, hle, hok⟩ := h
  refine ⟨hstart, hle, ?_⟩
  cases hs : x.state <;> simp only [hs] at hok ⊢
  case starting => exact ⟨hok.1, hok.2.1, .inr (.inr trivial)⟩
  case started => exact ⟨hok.1, hok.2.1, .inr (by simp)⟩
  case stopping | stopped => exact hok

end Session

namespace Server
variable {s t : Server}

lemma unheld_iff {start : ℕ} : s.unheld start = true ↔
    ¬ (s.counter = true ∧ s.starts = start) ∧
      ∀ x ∈ s.sessions, ¬ (x.holds = true ∧ x.start = start) := by
  simp only [unheld, Bool.and_eq_true, Bool.not_eq_true', Bool.eq_false_iff, ne_eq,
    decide_eq_true_eq, List.all_eq_true]

/-- The server's own copy keeps the counter of its start. -/
lemma dropped_of_counter {start : ℕ} (hcounter : s.counter = true) (hstart : s.starts = start) :
    s.dropped start = s := by
  have hheld : s.unheld start = false := by
    apply Bool.eq_false_iff.mpr
    intro hun
    exact (unheld_iff.mp hun).1 ⟨hcounter, hstart⟩
  unfold dropped
  rw [hheld]
  rfl

lemma busyAt_none (i : ℕ) : busyAt none i = none := rfl

lemma busyAt_self (i : ℕ) (pc : AcceptPc) : busyAt (some (i, pc)) i = some pc := by
  simp [busyAt]

lemma busyAt_ne {i j : ℕ} (h : j ≠ i) (pc : AcceptPc) : busyAt (some (i, pc)) j = none := by
  simp [busyAt, h.symm]

/-- Outside the start of a session no session is starting. -/
lemma Inv.not_starting (h : s.Inv) (ha : s.accepting = none) :
    ∀ x ∈ s.sessions, x.state ≠ .starting := by
  intro x hx hs
  obtain ⟨i, hi⟩ := List.mem_iff_getElem?.mp hx
  obtain ⟨-, -, hok⟩ := h.sessions i x hi
  rw [ha, busyAt_none] at hok
  simp [hs] at hok

/-- The server does not look at a session that keeps its counter and does not come to life. -/
lemma Phase.setSession {i : ℕ} {x y : Session} {accepting : Option (ℕ × AcceptPc)}
    (h : s.Phase) (hi : s.sessions[i]? = some x) (hholds : y.holds = x.holds)
    (hlive : y.Live → x.Live) (ha : s.accepting = none → accepting = none) :
    Phase { s with sessions := s.sessions.set i y, accepting := accepting } := by
  obtain ⟨hlt, hget⟩ := List.getElem?_eq_some_iff.mp hi
  have hx : x ∈ s.sessions := by
    rw [← hget]
    exact List.getElem_mem hlt
  have hmem : ∀ z ∈ s.sessions.set i y, z ∈ s.sessions ∨ z = y := fun z hz =>
    List.mem_or_eq_of_mem_set hz
  have hnone : (∀ z ∈ s.sessions, z.holds = false) →
      ∀ z ∈ s.sessions.set i y, z.holds = false := by
    intro hall z hz
    obtain hz | rfl := hmem z hz
    · exact hall z hz
    · rw [hholds, hall x hx]
  have hsome : (∃ z ∈ s.sessions, z.holds = true) →
      ∃ z ∈ s.sessions.set i y, z.holds = true := by
    intro ⟨z, hz, hzh⟩
    obtain ⟨j, hj⟩ := List.mem_iff_getElem?.mp hz
    by_cases hij : j = i
    · subst hij
      rw [hi] at hj
      obtain rfl := Option.some.inj hj
      exact ⟨y, List.mem_set hlt y, by rw [hholds, hzh]⟩
    · refine ⟨z, ?_, hzh⟩
      apply List.mem_iff_getElem?.mpr
      exact ⟨j, by rw [List.getElem?_set_ne (Ne.symm hij), hj]⟩
  have hdead : (∀ z ∈ s.sessions, ¬ z.Live) → ∀ z ∈ s.sessions.set i y, ¬ z.Live := by
    intro hall z hz
    obtain hz | rfl := hmem z hz
    · exact hall z hz
    · exact fun hl => hall x hx (hlive hl)
  unfold Phase at h ⊢
  cases hs : s.state with
  | stopped | starting =>
    simp only [hs] at h ⊢
    obtain ⟨h1, h2, h3, h4, h5, h6⟩ := h
    exact ⟨h1, h2, h3, ha h4, hnone h5, h6⟩
  | started =>
    simp only [hs] at h ⊢
    exact h
  | stopping =>
    simp only [hs] at h ⊢
    obtain ⟨h1, h2, hrest⟩ := h
    refine ⟨h1, h2, ?_⟩
    obtain hfirst | ⟨h3, h4, h5, h6, h7⟩ := hrest
    · exact .inl hfirst
    · refine .inr ⟨h3, h4, ha h5, hdead h6, ?_⟩
      obtain ⟨hf, hex⟩ | ⟨hf, hall⟩ := h7
      · exact .inl ⟨hf, hsome hex⟩
      · exact .inr ⟨hf, hnone hall⟩

/-- One session moves on, and the acceptor strand perhaps with it. -/
lemma Inv.setSession {i : ℕ} {x y : Session} {accepting : Option (ℕ × AcceptPc)} (h : s.Inv)
    (hi : s.sessions[i]? = some x) (hholds : y.holds = x.holds) (hlive : y.Live → x.Live)
    (hok : y.Ok (busyAt accepting i) s.starts)
    (ha : accepting = s.accepting ∨ ((∃ pc, s.accepting = some (i, pc)) ∧
      (accepting = none ∨ ∃ pc, accepting = some (i, pc)))) :
    Inv { s with sessions := s.sessions.set i y, accepting := accepting } := by
  have hnone : s.accepting = none → accepting = none := by
    intro hn
    obtain rfl | ⟨⟨pc, hpc⟩, -⟩ := ha
    · exact hn
    · rw [hn] at hpc
      cases hpc
  constructor
  · exact h.crashed
  · exact h.phase.setSession hi hholds hlive hnone
  · intro j z hz
    by_cases hij : j = i
    · subst hij
      obtain ⟨hlt, -⟩ := List.getElem?_eq_some_iff.mp hi
      rw [List.getElem?_set_self hlt] at hz
      obtain rfl := Option.some.inj hz
      exact hok
    · rw [List.getElem?_set_ne (Ne.symm hij)] at hz
      have hold := h.sessions j z hz
      have hsame : busyAt accepting j = busyAt s.accepting j := by
        obtain rfl | ⟨⟨pc, hpc⟩, rfl | ⟨pc', rfl⟩⟩ := ha
        · rfl
        · rw [hpc, busyAt_ne hij, busyAt_none]
        · rw [hpc, busyAt_ne hij, busyAt_ne hij]
      rw [hsame]
      exact hold
  · exact h.handled

lemma Inv.start (h : s.Inv) (hs : s.state = .stopped) :
    Inv { s with state := .starting, starts := s.starts + 1, counter := true } := by
  have hphase := h.phase
  simp only [Phase, hs] at hphase
  obtain ⟨-, htasks, hfinals, haccepting, hholds, hstops, hle⟩ := hphase
  constructor
  · exact h.crashed
  · refine ⟨rfl, htasks, hfinals, haccepting, hholds, hstops, fun k hk => ?_⟩
    have := hle k hk
    change k < s.starts + 1
    omega
  · intro i x hx
    have hnot := hholds x (List.mem_of_getElem? hx)
    exact ((h.sessions i x hx).of_dropped hnot (Nat.le_succ _)).1
  · exact h.handled

lemma Inv.handleStart (h : s.Inv) (hs : s.state = .starting) :
    Inv { s with state := .started } := by
  have hphase := h.phase
  simp only [Phase, hs] at hphase
  obtain ⟨hcounter, htasks, hfinals, -, -, hstops, hlt⟩ := hphase
  exact ⟨h.crashed, ⟨hcounter, htasks, hfinals, hstops, hlt⟩, h.sessions, h.handled⟩

lemma Inv.doStop (h : s.Inv) (hs : s.state = .starting ∨ s.state = .started) :
    Inv { s with
      state := .stopping, stopTasks := s.stopTasks + 1, stops := s.stops ++ [s.starts] } := by
  have hphase : s.counter = true ∧ s.stopTasks = 0 ∧ s.finals = [] ∧ s.stops = s.handled ∧
      ∀ k ∈ s.handled, k < s.starts := by
    have hp := h.phase
    unfold Phase at hp
    rcases hs with hs | hs <;> simp only [hs] at hp
    · exact ⟨hp.1, hp.2.1, hp.2.2.1, hp.2.2.2.2.2⟩
    · exact hp
  obtain ⟨hcounter, htasks, hfinals, hstops, hlt⟩ := hphase
  constructor
  · exact h.crashed
  · refine ⟨?_, hlt, .inl ⟨hcounter, ?_, hfinals⟩⟩
    · change s.stops ++ [s.starts] = s.handled ++ [s.starts]
      rw [hstops]
    · change s.stopTasks + 1 = 1
      rw [htasks]
  · exact h.sessions
  · exact h.handled

/-- All sessions are told to stop, and the server drops its copy. -/
lemma Inv.stopTask (h : s.Inv) (ha : s.accepting = none) (ht : 0 < s.stopTasks)
    (hs : s.run .stopTask = some t) : t.Inv := by
  have hphase : s.state = .stopping ∧ s.stops = s.handled ++ [s.starts] ∧
      (∀ k ∈ s.handled, k < s.starts) ∧ s.counter = true ∧ s.stopTasks = 1 ∧ s.finals = [] := by
    have hp := h.phase
    unfold Phase at hp
    cases hstate : s.state <;> simp only [hstate] at hp
    case stopping =>
      obtain ⟨h1, h2, ⟨h3, h4, h5⟩ | ⟨-, h4, -⟩⟩ := hp
      · exact ⟨rfl, h1, h2, h3, h4, h5⟩
      · omega
    all_goals
      have hzero := hp.2.1
      omega
  obtain ⟨hstate, hstops, hlt, hcounter, hone, hfinals⟩ := hphase
  have hsession : ∀ (i : ℕ) (x : Session), s.sessions[i]? = some x → ∃ y : Session,
      y = (if x.inSessionMgr then x.doDisconnect else x) ∧ y.Ok none s.starts ∧ ¬ y.Live ∧ y.holds = x.holds := by
    intro i x hx
    have hok := h.sessions i x hx
    rw [ha, busyAt_none] at hok
    have hnot := h.not_starting ha x (List.mem_of_getElem? hx)
    refine ⟨_, rfl, ?_⟩
    split
    next => exact ⟨hok.doDisconnect hnot, x.doDisconnect_holds.2.2, x.doDisconnect_holds.1⟩
    next hin =>
      refine ⟨hok, ?_, rfl⟩
      rintro (hl | hl)
      · exact hnot hl
      · obtain ⟨-, -, hstarted⟩ := hok
        simp [hl, hin] at hstarted
  simp only [run, ha, ht, and_self, if_true, hcounter] at hs
  obtain rfl := Option.some.inj hs
  have hmem : ∀ y ∈ s.sessions.map (fun x : Session => if x.inSessionMgr then x.doDisconnect else x),
      ∃ x ∈ s.sessions, ¬ y.Live ∧ y.holds = x.holds ∧ y.Ok none s.starts := by
    intro y hy
    obtain ⟨x, hx, hxy⟩ := List.mem_map.mp hy
    obtain ⟨i, hi⟩ := List.mem_iff_getElem?.mp hx
    obtain ⟨z, hz, hok, hlive, hholds⟩ := hsession i x hi
    rw [← hxy, ← hz]
    exact ⟨x, hx, hlive, hholds, hok⟩
  have hget : ∀ (i : ℕ) (y : Session), (s.sessions.map fun x : Session => if x.inSessionMgr then x.doDisconnect
      else x)[i]? = some y → y.Ok (busyAt none i) s.starts := by
    intro i y hy
    obtain ⟨-, -, -, -, hok⟩ := hmem y (List.mem_of_getElem? hy)
    exact hok
  unfold dropped
  split
  next hun =>
    have hnone := (unheld_iff.mp hun).2
    refine ⟨h.crashed, ?_, hget, h.handled⟩
    unfold Phase
    simp only [hstate]
    refine ⟨hstops, hlt, .inr ⟨trivial, by omega, trivial, fun y hy => ?_, .inr ⟨by simp [hfinals], ?_⟩⟩⟩
    · obtain ⟨-, -, hlive, -⟩ := hmem y hy
      exact hlive
    · intro y hy
      obtain ⟨x, hx, -, -, hok⟩ := hmem y hy
      by_contra hholds
      have htrue : y.holds = true := by simpa using hholds
      exact hnone y hy ⟨htrue, hok.1 htrue⟩
  next hun =>
    refine ⟨h.crashed, ?_, hget, h.handled⟩
    unfold Phase
    simp only [hstate]
    refine ⟨hstops, hlt, .inr ⟨trivial, by omega, trivial, fun y hy => ?_, .inl ⟨hfinals, ?_⟩⟩⟩
    · obtain ⟨-, -, hlive, -⟩ := hmem y hy
      exact hlive
    · by_contra hno
      apply hun
      apply unheld_iff.mpr
      constructor
      · simp
      · intro y hy hh
        exact hno ⟨y, hy, hh.1⟩

/-- The final stop finds the server stopping. -/
lemma Inv.final (h : s.Inv) (hs : s.run .final = some t) : t.Inv := by
  have hp := h.phase
  unfold Phase at hp
  cases hstate : s.state <;> simp only [hstate] at hp
  case stopping =>
    obtain ⟨hstops, hlt, hfirst | ⟨hcounter, htasks, ha, -, hlast⟩⟩ := hp
    · simp [run, hfirst.2.2] at hs
    · obtain ⟨hnone, -⟩ | ⟨hfinals, hholds⟩ := hlast
      · simp [run, hnone] at hs
      · simp only [run, hfinals, ha, hstate, if_true] at hs
        obtain rfl := Option.some.inj hs
        have hpairwise : (s.handled ++ [s.starts]).Pairwise (· < ·) := by
          apply List.pairwise_append.mpr
          exact ⟨h.handled, List.pairwise_singleton _ _, by simpa using hlt⟩
        have hle : ∀ k ∈ s.handled ++ [s.starts], k ≤ s.starts := by
          intro k hk
          obtain hk | hk := List.mem_append.mp hk
          · exact (hlt k hk).le
          · exact (List.mem_singleton.mp hk).le
        exact ⟨h.crashed, ⟨hcounter, htasks, rfl, rfl, hholds, hstops, hle⟩, by
          simpa [ha] using h.sessions, hpairwise⟩
  case stopped | starting | started => simp [run, hp.2.2.1] at hs

lemma Inv.accept (h : s.Inv) (ha : s.accepting = none) (hs : s.state = .started) :
    Inv { s with
      sessions := s.sessions ++ [{ start := s.starts, holds := s.counter }]
      accepting := some (s.sessions.length, .recheck) } := by
  have hphase := h.phase
  simp only [Phase, hs] at hphase
  obtain ⟨hcounter, htasks, hfinals, hstops, hlt⟩ := hphase
  constructor
  · exact h.crashed
  · unfold Phase
    simp only [hs]
    exact ⟨hcounter, htasks, hfinals, hstops, hlt⟩
  · intro i x hx
    obtain hi | hi := lt_or_ge i s.sessions.length
    · rw [List.getElem?_append_left hi] at hx
      have hok := h.sessions i x hx
      rw [ha, busyAt_none] at hok
      rw [busyAt_ne (Nat.ne_of_lt hi)]
      exact hok
    · rw [List.getElem?_append_right hi] at hx
      obtain ⟨hzero, rfl⟩ : i - s.sessions.length = 0 ∧
          ({ start := s.starts, holds := s.counter } : Session) = x := by
        simpa [List.getElem?_singleton] using hx
      obtain rfl : i = s.sessions.length := by omega
      rw [busyAt_self]
      exact ⟨fun _ => rfl, le_rfl, rfl, hcounter, .inl rfl⟩
  · exact h.handled

/-- The acceptor strand moves on without touching the session. -/
lemma Inv.setAccepting {i : ℕ} {x : Session} {pc pc' : AcceptPc} (h : s.Inv)
    (hi : s.sessions[i]? = some x) (ha : s.accepting = some (i, pc))
    (hok : x.Ok (some pc') s.starts) : Inv { s with accepting := some (i, pc') } := by
  have hset := h.setSession  hi rfl id (by rwa [busyAt_self])
    (.inr ⟨⟨pc, ha⟩, .inr ⟨pc', rfl⟩⟩)
  obtain ⟨hlt, hget⟩ := List.getElem?_eq_some_iff.mp hi
  have hsame : s.sessions.set i x = s.sessions := by
    rw [← hget, List.set_getElem_self]
  rwa [hsame] at hset

lemma Inv.acceptStep {i : ℕ} {x : Session} {pc : AcceptPc} (input : Bool) (h : s.Inv)
    (hi : s.sessions[i]? = some x) (ha : s.accepting = some (i, pc))
    (hsettled : pc = .fail → x.state ≠ .starting) : (s.acceptStep input i x pc).Inv := by
  have hok := h.sessions i x hi
  rw [ha, busyAt_self] at hok
  have hfail : Inv { s with accepting := some (i, .fail) } := h.setAccepting hi ha (Session.Ok.fail hok)
  cases pc with
  | recheck =>
    simp only [Server.acceptStep]
    split
    next hx =>
      obtain ⟨hstart, hle, hstarting⟩ := hok
      apply h.setAccepting hi ha
      refine ⟨hstart, hle, ?_⟩
      simp only [hx.2] at hstarting ⊢
      exact ⟨hstarting.1, hstarting.2.1, .inr (.inl trivial)⟩
    next => exact hfail
  | connect =>
    simp only [Server.acceptStep]
    split
    next hx =>
      obtain ⟨hstart, hle, hstarting⟩ := hok
      simp only [hx.2] at hstarting
      have hholds : ({ x with state := .started } : Session).holds = x.holds := rfl
      apply h.setSession hi hholds (fun _ => .inl hx.2)
      · rw [busyAt_self]
        exact ⟨hstart, hle, hstarting.1, hstarting.2.1, .inr (by simp)⟩
      · exact .inr ⟨⟨_, ha⟩, .inr ⟨_, rfl⟩⟩
    next => exact hfail
  | check =>
    simp only [Server.acceptStep]
    split
    next hx =>
      obtain ⟨hstart, hle, hstarted⟩ := hok
      apply h.setAccepting hi ha
      refine ⟨hstart, hle, ?_⟩
      simp only [hx] at hstarted ⊢
      exact ⟨hstarted.1, hstarted.2.1, .inr (by simp)⟩
    next => exact hfail
  | join =>
    have hholds : ({ x with inSessionMgr := true } : Session).holds = x.holds := rfl
    apply h.setSession hi hholds id
    · obtain ⟨hstart, hle, hjoin⟩ := hok
      refine ⟨hstart, hle, ?_⟩
      cases hs : x.state <;> simp only [hs] at hjoin ⊢
      case starting => simp at hjoin
      case started => exact ⟨hjoin.1, hjoin.2.1, .inl trivial⟩
      case stopping | stopped => exact hjoin
    · exact .inr ⟨⟨_, ha⟩, .inl rfl⟩
  | fail =>
    have hlive : x.doDisconnect.Live → x.Live := fun hl => absurd hl x.doDisconnect_holds.2.2
    apply h.setSession hi x.doDisconnect_holds.1 hlive
    · exact hok.doDisconnect (hsettled rfl)
    · exact .inr ⟨⟨_, ha⟩, .inl rfl⟩

lemma Inv.disconnect {i : ℕ} {x : Session} (h : s.Inv) (hi : s.sessions[i]? = some x)
    (hx : x.state ≠ .starting) : (s.setSession i x.doDisconnect).Inv := by
  have hok : x.doDisconnect.Ok (busyAt s.accepting i) s.starts :=
    (h.sessions i x hi).doDisconnect hx
  have hlive : x.doDisconnect.Live → x.Live := fun hl => absurd hl x.doDisconnect_holds.2.2
  exact h.setSession hi x.doDisconnect_holds.1 hlive hok (.inl rfl)

lemma Inv.disconnectTask {i : ℕ} {x : Session} {old : NetState} (h : s.Inv)
    (hi : s.sessions[i]? = some x) (hx : x.stage = some (.task old)) :
    (s.setSession i { x with stage := some (.erase old) }).Inv := by
  obtain ⟨hstart, hle, hok⟩ := h.sessions i x hi
  have hholds : ({ x with stage := some (.erase old) } : Session).holds = x.holds := rfl
  apply h.setSession hi hholds id
  · refine ⟨hstart, hle, ?_⟩
    cases hs : x.state <;> simp only [hs, hx] at hok ⊢
    case starting | started | stopped => simp at hok
    case stopping =>
      have hold : old = .started := by simpa using hok.2
      exact ⟨hok.1, .inr (by rw [hold])⟩
  · exact .inl rfl

/-- The session manager finds a started session that is stopping. -/
lemma Inv.stage_erase {i : ℕ} {x : Session} {old : NetState} (h : s.Inv)
    (hi : s.sessions[i]? = some x) (hx : x.stage = some (.erase old)) :
    x.state = .stopping ∧ old = .started ∧ x.holds = true := by
  obtain ⟨-, -, hok⟩ := h.sessions i x hi
  cases hs : x.state <;> simp only [hs, hx] at hok
  case starting | started | stopped => simp at hok
  case stopping => exact ⟨rfl, by simpa using hok.2, hok.1⟩

lemma Inv.erase {i : ℕ} {x : Session} {old : NetState} (h : s.Inv)
    (hi : s.sessions[i]? = some x) (hx : x.stage = some (.erase old)) :
    (s.setSession i { x with
      inSessionMgr := false, state := .stopped, stage := some .handle }).Inv := by
  obtain ⟨hstart, hle, -⟩ := h.sessions i x hi
  obtain ⟨-, -, hheld⟩ := h.stage_erase hi hx
  have hholds : ({ x with
      inSessionMgr := false, state := .stopped, stage := some .handle } : Session).holds =
      x.holds := rfl
  have hlive : ({ x with
      inSessionMgr := false, state := .stopped, stage := some .handle } : Session).Live →
      x.Live := by
    intro hl
    simp [Session.Live] at hl
  exact h.setSession hi hholds hlive ⟨hstart, hle, .inl ⟨rfl, hheld⟩⟩ (.inl rfl)

/-- The base `Stop` of a session drops its copy of the counter; the last one posts the final
stop. -/
lemma Inv.handleDisconnect {i : ℕ} {x : Session} (h : s.Inv) (hi : s.sessions[i]? = some x)
    (hx : x.stage = some .handle) :
    ((s.setSession i { x with stage := none, holds := false }).dropped x.start).Inv ∧
      x.holds = true := by
  obtain ⟨hlt, hget⟩ := List.getElem?_eq_some_iff.mp hi
  have hmem : x ∈ s.sessions := List.mem_of_getElem? hi
  obtain ⟨hstart, hle, hok⟩ := h.sessions i x hi
  obtain ⟨hstate, hheld⟩ : x.state = .stopped ∧ x.holds = true := by
    cases hs : x.state <;> simp only [hs, hx] at hok
    case starting | started | stopping => simp at hok
    case stopped => exact ⟨rfl, by simpa using hok⟩
  refine ⟨?_, hheld⟩
  have hcurrent := hstart hheld
  set y : Session := { x with stage := none, holds := false } with hy
  have hyok : ∀ busy, y.Ok busy s.starts := by
    intro busy
    refine ⟨fun hh => by simp [hy] at hh, hle, ?_⟩
    simp only [hy, hstate]
    exact .inr ⟨trivial, trivial⟩
  have hsessions : ∀ (j : ℕ) (z : Session), (s.sessions.set i y)[j]? = some z →
      z.Ok (busyAt s.accepting j) s.starts := by
    intro j z hz
    by_cases hij : j = i
    · subst hij
      rw [List.getElem?_set_self hlt] at hz
      obtain rfl := Option.some.inj hz
      exact hyok _
    · rw [List.getElem?_set_ne (Ne.symm hij)] at hz
      exact h.sessions j z hz
  have hp := h.phase
  unfold Phase at hp
  cases hs : s.state <;> simp only [hs] at hp
  case stopped =>
    have := hp.2.2.2.2.1 x hmem
    simp [hheld] at this
  case starting =>
    have := hp.2.2.2.2.1 x hmem
    simp [hheld] at this
  case started =>
    have hkeep : (s.setSession i y).dropped x.start = s.setSession i y :=
      dropped_of_counter hp.1 hcurrent.symm
    rw [hkeep]
    refine ⟨h.crashed, ?_, hsessions, h.handled⟩
    unfold Phase
    simp only [Server.setSession, hs]
    exact hp
  case stopping =>
    obtain ⟨hstops, hbefore, hfirst | ⟨hcounter, htasks, ha, hdead, hlast⟩⟩ := hp
    · have hkeep : (s.setSession i y).dropped x.start = s.setSession i y :=
        dropped_of_counter hfirst.1 hcurrent.symm
      rw [hkeep]
      refine ⟨h.crashed, ?_, hsessions, h.handled⟩
      unfold Phase
      simp only [Server.setSession, hs]
      exact ⟨hstops, hbefore, .inl hfirst⟩
    · have hfinals : s.finals = [] := by
        obtain ⟨hnone, -⟩ | ⟨-, hall⟩ := hlast
        · exact hnone
        · have := hall x hmem
          simp [hheld] at this
      have hylive : ¬ y.Live := by simp [Session.Live, hy, hstate]
      have hdead' : ∀ z ∈ s.sessions.set i y, ¬ z.Live := by
        intro z hz
        obtain hz | rfl := List.mem_or_eq_of_mem_set hz
        · exact hdead z hz
        · exact hylive
      unfold dropped
      split
      next hun =>
        refine ⟨h.crashed, ?_, hsessions, h.handled⟩
        unfold Phase
        simp only [Server.setSession, hs]
        refine ⟨hstops, hbefore, .inr ⟨hcounter, htasks, ha, hdead', .inr ⟨?_, ?_⟩⟩⟩
        · rw [hfinals, hcurrent, List.nil_append]
        · intro z hz
          by_contra hz'
          have htrue : z.holds = true := by simpa using hz'
          obtain ⟨j, hj⟩ := List.mem_iff_getElem?.mp hz
          have hzstart := (hsessions j z hj).1 htrue
          exact (unheld_iff.mp hun).2 z hz ⟨htrue, hzstart.trans hcurrent.symm⟩
      next hun =>
        refine ⟨h.crashed, ?_, hsessions, h.handled⟩
        unfold Phase
        simp only [Server.setSession, hs]
        refine ⟨hstops, hbefore, .inr ⟨hcounter, htasks, ha, hdead', .inl ⟨hfinals, ?_⟩⟩⟩
        by_contra hno
        apply hun
        apply unheld_iff.mpr
        constructor
        · simp [Server.setSession, hcounter]
        · intro z hz hh
          exact hno ⟨z, hz, hh.1⟩

/-- What the operations of a session do. -/
lemma run_acceptStep {input : Bool} (hs : s.run (.acceptStep input) = some t) : ∃ i pc x,
    s.accepting = some (i, pc) ∧ s.sessions[i]? = some x ∧ t = s.acceptStep input i x pc := by
  simp only [run] at hs
  split at hs
  next => cases hs
  next i pc ha =>
    split at hs
    next => cases hs
    next x hi => exact ⟨i, pc, x, ha, hi, (Option.some.inj hs).symm⟩

lemma run_disconnect {i : ℕ} (hs : s.run (.disconnect i) = some t) : ∃ x,
    s.sessions[i]? = some x ∧ t = s.setSession i x.doDisconnect := by
  simp only [run] at hs
  split at hs
  next => cases hs
  next x hi => exact ⟨x, hi, (Option.some.inj hs).symm⟩

lemma run_disconnectTask {i : ℕ} (hs : s.run (.disconnectTask i) = some t) : ∃ x old,
    s.sessions[i]? = some x ∧ x.stage = some (.task old) ∧
      t = s.setSession i { x with stage := some (.erase old) } := by
  simp only [run] at hs
  split at hs
  next => cases hs
  next x hi =>
    split at hs
    next old hstage => exact ⟨x, old, hi, hstage, (Option.some.inj hs).symm⟩
    next => cases hs

/-- Besides its session `Erase` can only fail its assertion. -/
lemma run_erase {i : ℕ} (hs : s.run (.erase i) = some t) : ∃ x old,
    s.sessions[i]? = some x ∧ x.stage = some (.erase old) ∧
      ((x.state = .stopping ∧ old = .started ∧
          t = s.setSession i { x with inSessionMgr := false, state := .stopped, stage := some .handle }) ∨
        (x.state = .stopping ∧ old ≠ .started ∧ t = { s with crashed := some .sessionNetState }) ∨
        (x.state ≠ .stopping ∧ t = s.setSession i { x with inSessionMgr := false, stage := none })) := by
  simp only [run] at hs
  split at hs
  next => cases hs
  next x hi =>
    split at hs
    next old hstage =>
      refine ⟨x, old, hi, hstage, ?_⟩
      split at hs
      next => cases hs
      next =>
        split at hs
        next hstate =>
          split at hs
          next hold => exact .inl ⟨hstate, hold, (Option.some.inj hs).symm⟩
          next hold => exact .inr (.inl ⟨hstate, hold, (Option.some.inj hs).symm⟩)
        next hstate => exact .inr (.inr ⟨hstate, (Option.some.inj hs).symm⟩)
    next => cases hs

lemma run_handleDisconnect {i : ℕ} (hs : s.run (.handleDisconnect i) = some t) : ∃ x,
    s.sessions[i]? = some x ∧ x.stage = some .handle ∧
      t = if x.holds then (s.setSession i { x with stage := none, holds := false }).dropped x.start
        else s.setSession i { x with stage := none, holds := false } := by
  simp only [run] at hs
  split at hs
  next => cases hs
  next x hi =>
    split at hs
    next hstage => exact ⟨x, hi, hstage, (Option.some.inj hs).symm⟩
    next => cases hs

lemma settled_acceptStep {i : ℕ} {pc : AcceptPc} {input : Bool} (ha : s.accepting = some (i, pc))
    (hpc : pc ≠ .fail) : s.Settled (.acceptStep input) := by
  intro j x hfail
  rw [ha] at hfail
  cases hfail
  exact absurd rfl hpc

lemma Inv.exec {op : Op} (h : s.Inv) (hsettled : s.Settled op) (hs : s.exec op = some t) :
    t.Inv := by
  simp only [Server.exec, h.crashed, if_true] at hs
  cases op with
  | start =>
    simp only [run] at hs
    split at hs
    next hstate =>
      obtain rfl := Option.some.inj hs
      exact h.start hstate
    next => cases hs
  | handleStart =>
    simp only [run] at hs
    split at hs
    next hstate =>
      obtain rfl := Option.some.inj hs
      exact h.handleStart hstate
    next => cases hs
  | doStop =>
    simp only [run] at hs
    split at hs
    next hstate =>
      obtain rfl := Option.some.inj hs
      exact h.doStop hstate
    next => cases hs
  | stopTask =>
    by_cases hready : s.accepting = none ∧ 0 < s.stopTasks
    · exact h.stopTask hready.1 hready.2 hs
    · simp only [run, hready, if_false] at hs
      cases hs
  | final => exact h.final hs
  | accept =>
    simp only [run] at hs
    split at hs
    next hready =>
      obtain rfl := Option.some.inj hs
      exact h.accept hready.1 hready.2
    next => cases hs
  | acceptStep input =>
    obtain ⟨i, pc, x, ha, hi, rfl⟩ := run_acceptStep hs
    apply h.acceptStep input hi ha
    rintro rfl
    exact hsettled i x ha hi
  | disconnect i =>
    obtain ⟨x, hi, rfl⟩ := run_disconnect hs
    exact h.disconnect hi (hsettled x hi)
  | disconnectTask i =>
    obtain ⟨x, old, hi, hstage, rfl⟩ := run_disconnectTask hs
    exact h.disconnectTask hi hstage
  | erase i =>
    obtain ⟨x, old, hi, hstage, hcases⟩ := run_erase hs
    obtain ⟨hstate, hold, -⟩ := h.stage_erase hi hstage
    obtain ⟨-, -, rfl⟩ | ⟨-, hne, -⟩ | ⟨hne, -⟩ := hcases
    · exact h.erase hi hstage
    · exact absurd hold hne
    · exact absurd hstate hne
  | handleDisconnect i =>
    obtain ⟨x, hi, hstage, rfl⟩ := run_handleDisconnect hs
    obtain ⟨hinv, hheld⟩ := h.handleDisconnect hi hstage
    rwa [if_pos hheld]

/-- A stop that was handled is of an earlier start, or its sessions have dropped the counter. -/
lemma Inv.released (h : s.Inv) {start : ℕ} (hstart : start ∈ s.handled) :
    start ∈ s.stops ∧ ((∀ x ∈ s.sessions, x.holds = false) ∨ start < s.starts) := by
  have hp := h.phase
  unfold Phase at hp
  cases hs : s.state <;> simp only [hs] at hp
  case stopped | starting =>
    obtain ⟨-, -, -, -, hholds, hstops, -⟩ := hp
    rw [hstops]
    exact ⟨hstart, .inl hholds⟩
  case started =>
    obtain ⟨-, -, -, hstops, hlt⟩ := hp
    rw [hstops]
    exact ⟨hstart, .inr (hlt start hstart)⟩
  case stopping =>
    obtain ⟨hstops, hlt, -⟩ := hp
    rw [hstops]
    exact ⟨List.mem_append_left _ hstart, .inr (hlt start hstart)⟩

/-- While a stop is under way something is left to run. -/
lemma Inv.handled_of_finished (h : s.Inv) (hf : s.Finished) : s.stops = s.handled := by
  obtain hcrashed | ⟨-, htasks, hfinals, hstages⟩ := hf
  · exact absurd h.crashed hcrashed
  have hp := h.phase
  unfold Phase at hp
  cases hs : s.state <;> simp only [hs] at hp
  case stopped | starting => exact hp.2.2.2.2.2.1
  case started => exact hp.2.2.2.1
  case stopping =>
    obtain ⟨-, -, ⟨-, hone, -⟩ | ⟨-, -, -, hdead, ⟨-, x, hx, hheld⟩ | ⟨hone, -⟩⟩⟩ := hp
    · omega
    · obtain ⟨i, hi⟩ := List.mem_iff_getElem?.mp hx
      obtain ⟨-, -, hok⟩ := h.sessions i x hi
      have hstage := hstages x hx
      cases hstate : x.state <;> simp only [hstate, hstage, hheld] at hok
      case starting => exact absurd (.inl hstate) (hdead x hx)
      case started => exact absurd (.inr hstate) (hdead x hx)
      case stopping | stopped => simp at hok
    · rw [hfinals] at hone
      cases hone

lemma Inv.stopsOnce (h : s.Inv) : s.StopsOnce where
  noCrash := by
    rw [h.crashed]
    simp
  once := h.handled.imp Nat.ne_of_lt
  stopped := fun _ hstart => (h.released hstart).1
  last := by
    intro start hstart x hx hof
    obtain hholds | hlt := (h.released hstart).2
    · exact hholds x hx
    · by_contra hheld
      obtain ⟨i, hi⟩ := List.mem_iff_getElem?.mp hx
      have hcurrent := (h.sessions i x hi).1 (by simpa using hheld)
      omega
  done := by
    intro hf start hstart
    rwa [← h.handled_of_finished hf]

/-- The session that the acceptor strand starts is there. -/
def Attended (s : Server) : Prop := ∀ i pc, s.accepting = some (i, pc) → i < s.sessions.length

lemma Attended.of (h : s.Attended) (ha : ∀ i pc, t.accepting = some (i, pc) → ∃ pc', s.accepting = some (i, pc'))
    (hlen : t.sessions.length = s.sessions.length) : t.Attended := by
  intro i pc hpc
  obtain ⟨pc', hpc'⟩ := ha i pc hpc
  rw [hlen]
  exact h i pc' hpc'

lemma length_setSession (s : Server) (i : ℕ) (x : Session) :
    (s.setSession i x).sessions.length = s.sessions.length := List.length_set

lemma Attended.acceptStep {i : ℕ} {x : Session} {pc : AcceptPc} (input : Bool) (h : s.Attended)
    (ha : s.accepting = some (i, pc)) : (s.acceptStep input i x pc).Attended := by
  have hmove : ∀ pc', Attended { s with accepting := some (i, pc') } := fun pc' =>
    h.of (fun j qc hj => by cases hj; exact ⟨pc, ha⟩) rfl
  cases pc with
  | recheck =>
    simp only [Server.acceptStep]
    split <;> exact hmove _
  | connect =>
    simp only [Server.acceptStep]
    split
    · exact h.of (fun j qc hj => by cases hj; exact ⟨.connect, ha⟩) (length_setSession s i _)
    · exact hmove _
  | check =>
    simp only [Server.acceptStep]
    split <;> exact hmove _
  | join | fail => exact fun j qc hj => nomatch hj

lemma Attended.exec {op : Op} (h : s.Attended) (hs : s.exec op = some t) : t.Attended := by
  have hsame : ∀ i x, (s.setSession i x).Attended := fun i x =>
    h.of (fun j pc hj => ⟨pc, hj⟩) (length_setSession s i x)
  have hdropped : ∀ {r : Server} {start : ℕ}, r.Attended → (r.dropped start).Attended := by
    intro r start hr
    unfold dropped
    split <;> exact hr
  unfold Server.exec at hs
  split at hs
  next =>
    cases op with
    | start | handleStart | doStop =>
      simp only [run] at hs
      split at hs
      next =>
        obtain rfl := Option.some.inj hs
        exact h
      next => cases hs
    | stopTask =>
      simp only [run] at hs
      split at hs
      next hready =>
        obtain rfl := Option.some.inj hs
        have hmap : Attended { s with
            stopTasks := s.stopTasks - 1
            sessions := s.sessions.map fun x => if x.inSessionMgr then x.doDisconnect else x
            counter := false } := h.of (fun i pc hi => ⟨pc, hi⟩) (List.length_map _)
        split
        · exact hdropped hmap
        · exact hmap
      next => cases hs
    | final =>
      simp only [run] at hs
      split at hs
      next => cases hs
      next =>
        split at hs
        next =>
          split at hs <;> obtain rfl := Option.some.inj hs <;> exact h
        next => cases hs
    | accept =>
      simp only [run] at hs
      split at hs
      next =>
        obtain rfl := Option.some.inj hs
        intro i pc hi
        cases hi
        simp
      next => cases hs
    | acceptStep input =>
      obtain ⟨i, pc, x, ha, -, rfl⟩ := run_acceptStep hs
      exact h.acceptStep input ha
    | disconnect i =>
      obtain ⟨x, -, rfl⟩ := run_disconnect hs
      exact hsame i _
    | disconnectTask i =>
      obtain ⟨x, old, -, -, rfl⟩ := run_disconnectTask hs
      exact hsame i _
    | erase i =>
      obtain ⟨x, old, -, -, hcases⟩ := run_erase hs
      obtain ⟨-, -, rfl⟩ | ⟨-, -, rfl⟩ | ⟨-, rfl⟩ := hcases
      · exact hsame i _
      · exact h
      · exact hsame i _
    | handleDisconnect i =>
      obtain ⟨x, -, -, rfl⟩ := run_handleDisconnect hs
      split
      · exact hdropped (hsame i _)
      · exact hsame i _
  next => cases hs

/-- Of what is left, something can run. -/
lemma Inv.progress (h : s.Inv) (hatt : s.Attended) (hn : ¬ s.Finished) : ∃ op t, op.Internal ∧ s.exec op = some t := by
  have hruns : ∀ op, op.Internal → (s.run op).isSome → ∃ op t, op.Internal ∧ s.exec op = some t := by
    intro op hop hsome
    obtain ⟨t, ht⟩ := Option.isSome_iff_exists.mp hsome
    exact ⟨op, t, hop, (if_pos h.crashed).trans ht⟩
  cases ha : s.accepting with
  | some busy =>
    obtain ⟨i, pc⟩ := busy
    have hi := List.getElem?_eq_getElem (hatt i pc ha)
    exact hruns (.acceptStep false) trivial (by simp only [run, ha, hi, Option.isSome_some])
  | none =>
    by_cases htasks : 0 < s.stopTasks
    · exact hruns .stopTask trivial (by simp [run, ha, htasks])
    cases hf : s.finals with
    | cons start rest =>
      refine hruns .final trivial ?_
      simp only [run, hf, ha, if_true]
      split <;> rfl
    | nil =>
      obtain ⟨x, hx, hstage⟩ : ∃ x ∈ s.sessions, x.stage ≠ none := by
        by_contra hno
        refine hn (.inr ⟨ha, Nat.eq_zero_of_not_pos htasks, hf, fun x hx => ?_⟩)
        by_contra hstage
        exact hno ⟨x, hx, hstage⟩
      obtain ⟨i, hi⟩ := List.mem_iff_getElem?.mp hx
      cases hs : x.stage with
      | none => exact absurd hs hstage
      | some stage =>
        cases stage with
        | task old => exact hruns (.disconnectTask i) trivial (by simp only [run, hi, hs, Option.isSome_some])
        | erase old =>
          obtain ⟨hstate, rfl, -⟩ := h.stage_erase hi hs
          exact hruns (.erase i) trivial (by simp [run, hi, hs, ha, hstate])
        | handle =>
          exact hruns (.handleDisconnect i) trivial (by simp only [run, hi, hs, if_true, Option.isSome_some])

end Server

/-- In every run in which no session is told to disconnect while it starts, the server stops once
and last, and until nothing is left to run something can run. -/
theorem server_stops_once {s : Server} (h : Reachable (serverRuns.restrict Server.Settled) s) :
    s.StopsOnce ∧ (¬ s.Finished → ∃ op t, op.Internal ∧ s.exec op = some t) := by
  have hinv : s.Inv ∧ s.Attended := by
    apply h.invariant
    · intro a ha
      cases ha
      refine ⟨⟨rfl, ⟨rfl, rfl, rfl, rfl, by simp, rfl, by simp⟩, ?_, List.Pairwise.nil⟩, nofun⟩
      intro i x hi
      simp at hi
    · intro a op b hi hs
      exact ⟨hi.1.exec hs.1 hs.2, hi.2.exec hs.2⟩
  exact ⟨hinv.1.stopsOnce, hinv.1.progress hinv.2⟩

/-- A server with one session stops: the session is disconnected, and its copy of the counter is
the last. -/
theorem server_stops_once_session :
    ∃ s : Server, Reachable (serverRuns.restrict Server.Settled) s ∧ s.stops = [1] ∧
      s.handled = [1] ∧ s.StopsOnce := by
  have h0 : Reachable (serverRuns.restrict Server.Settled) ({} : Server) := .init rfl
  have h1 := @Reachable.step _ _ _ Op.start _ _ h0 ⟨trivial, rfl⟩
  have h2 := @Reachable.step _ _ _ Op.handleStart _ _ h1 ⟨trivial, rfl⟩
  have h3 := @Reachable.step _ _ _ Op.accept _ _ h2 ⟨trivial, rfl⟩
  have h4 := @Reachable.step _ _ _ (Op.acceptStep false) _ _ h3
    ⟨Server.settled_acceptStep rfl (by decide), rfl⟩
  have h5 := @Reachable.step _ _ _ (Op.acceptStep false) _ _ h4
    ⟨Server.settled_acceptStep rfl (by decide), rfl⟩
  have h6 := @Reachable.step _ _ _ (Op.acceptStep false) _ _ h5
    ⟨Server.settled_acceptStep rfl (by decide), rfl⟩
  have h7 := @Reachable.step _ _ _ (Op.acceptStep false) _ _ h6
    ⟨Server.settled_acceptStep rfl (by decide), rfl⟩
  have h8 := @Reachable.step _ _ _ Op.doStop _ _ h7 ⟨trivial, rfl⟩
  have h9 := @Reachable.step _ _ _ Op.stopTask _ _ h8 ⟨trivial, rfl⟩
  have h10 := @Reachable.step _ _ _ (Op.disconnectTask 0) _ _ h9 ⟨trivial, rfl⟩
  have h11 := @Reachable.step _ _ _ (Op.erase 0) _ _ h10 ⟨trivial, rfl⟩
  have h12 := @Reachable.step _ _ _ (Op.handleDisconnect 0) _ _ h11 ⟨trivial, rfl⟩
  have h13 := @Reachable.step _ _ _ Op.final _ _ h12 ⟨trivial, rfl⟩
  exact ⟨_, h13, rfl, rfl, (server_stops_once h13).1⟩

/-- A session is disconnected while it starts: its assertion ends the process, and the server that
is stopped never handles its stop. -/
theorem disconnect_while_starting :
    ∃ s : Server, Reachable serverRuns s ∧ s.stops = [1] ∧ s.handled = [] ∧
      s.crashed = some .sessionNetState ∧ ¬ s.StopsOnce := by
  have h0 : Reachable serverRuns ({} : Server) := .init rfl
  have h1 := @Reachable.step _ _ _ Op.start _ _ h0 rfl
  have h2 := @Reachable.step _ _ _ Op.handleStart _ _ h1 rfl
  have h3 := @Reachable.step _ _ _ Op.accept _ _ h2 rfl
  have h4 := @Reachable.step _ _ _ (Op.disconnect 0) _ _ h3 rfl
  have h5 := @Reachable.step _ _ _ (Op.acceptStep false) _ _ h4 rfl
  have h6 := @Reachable.step _ _ _ (Op.acceptStep false) _ _ h5 rfl
  have h7 := @Reachable.step _ _ _ Op.doStop _ _ h6 rfl
  have h8 := @Reachable.step _ _ _ (Op.disconnectTask 0) _ _ h7 rfl
  have h9 := @Reachable.step _ _ _ (Op.erase 0) _ _ h8 rfl
  refine ⟨_, h9, rfl, rfl, rfl, ?_⟩
  intro h
  have hdone := h.done (.inl nofun) 1 List.mem_cons_self
  cases hdone

end TyphoonZero.NetServer
