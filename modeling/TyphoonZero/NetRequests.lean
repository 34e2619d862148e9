import TyphoonZero.NetConnect

/-! The disconnect requests of one start: the calls of `DoDisconnect` that were begun while it was
starting or started, and the disconnects that they posted. -/
namespace TyphoonZero.NetConnect
open Transition

/-- A connection that was started and is not asked to stop. -/
def Link.Live (s : Link) : Prop := s.state = .starting ∨ s.state = .started

instance (s : Link) : Decidable s.Live := inferInstanceAs (Decidable (_ ∨ _))

/-- The requests since the last start: whether one was begun, and how many disconnects were posted. -/
structure Requests where
  link : Link := {}
  begun : Bool := false
  posts : ℕ := 0

namespace Requests

def after (r : Requests) (op : Op) (t : Link) : Requests :=
  match op with
  | .start => { link := t }
  | _ =>
    { link := t
      begun := r.begun || decide (r.link.calls.length < t.calls.length ∧ r.link.Live)
      posts := r.posts + (t.posted.length - r.link.posted.length) }

/-- At most one disconnect is posted, and one when all the calls have returned. -/
structure OnePost (r : Requests) : Prop where
  atMost : r.posts ≤ 1
  one : r.link.calls = [] → r.begun = true → r.posts = 1

/-- When `DoneConnect` changes `Starting` to `Started`, some call that was begun has still its first
compare-and-swap to make. -/
def CallAhead (r : Requests) : Op → Prop
  | .connect i input => ∀ c, r.link.completions[i]? = some c → c.pc = .done false → input = false →
      r.link.state = .starting → r.begun = true → .started ∈ r.link.calls
  | _ => True

end Requests

def requestRuns (isSession : Bool) : System Requests Op where
  init r := r = {}
  step r op r' := ∃ t, r.link.exec isSession op = some t ∧ r' = r.after op t

namespace Link
variable {isSession : Bool} {s t : Link} {op : Op}

/-- Only the completions and the log may differ. -/
structure Same (s t : Link) : Prop where
  state : t.state = s.state
  calls : t.calls = s.calls
  posted : t.posted = s.posted
  firing : t.firing = s.firing

/-- What a step does to the state, the calls and the posted disconnects. -/
inductive Effect (isSession : Bool) (s t : Link) : Op → Prop
  | start (hs : s.state = .stopped) (h : Same { s with state := .starting } t) :
    Effect isSession s t .start
  | request (op : Op) (hop : op ≠ .start) (h : Same { s with calls := s.calls ++ [.started] } t) :
    Effect isSession s t op
  | leaveStarted (i : ℕ) (hi : s.calls[i]? = some .started) (hs : s.state = .started)
      (h : Same { s with
        state := .stopping, calls := s.calls.eraseIdx i, posted := s.posted ++ [.started] } t) :
    Effect isSession s t (.leaveStarted i)
  | retry (i : ℕ) (hi : s.calls[i]? = some .started) (hs : s.state ≠ .started)
      (h : Same { s with calls := s.calls.set i .starting } t) :
    Effect isSession s t (.leaveStarted i)
  | leaveStarting (i : ℕ) (hi : s.calls[i]? = some .starting) (hs : s.state = .starting)
      (h : Same { s with
        state := .stopping, calls := s.calls.eraseIdx i, posted := s.posted ++ [.starting] } t) :
    Effect isSession s t (.leaveStarting i)
  | giveUp (i : ℕ) (hi : s.calls[i]? = some .starting) (hs : s.state ≠ .starting)
      (h : Same { s with calls := s.calls.eraseIdx i } t) :
    Effect isSession s t (.leaveStarting i)
  | task (i : ℕ) (old : NetState) (hi : s.posted[i]? = some old)
      (h : { s with posted := s.posted.eraseIdx i }.runDisconnect isSession old = some t) :
    Effect isSession s t (.disconnectTask i)
  | fire (hs : 0 < s.firing) (h : Same { s with firing := s.firing - 1 } t) :
    Effect isSession s t .fireDisconnect
  | connected (i : ℕ) (input : Bool) (c : Completion) (hi : s.completions[i]? = some c)
      (hpc : c.pc = .done false) (hinput : input = false) (hs : s.state = .starting)
      (h : Same { s with state := .started } t) : Effect isSession s t (.connect i input)
  | moved (i : ℕ) (input : Bool) (h : Same s t) : Effect isSession s t (.connect i input)

/-- What one step of a completion does. -/
lemma connectStep_effect {start : ℕ} {input : Bool} {pc : ConnectPc} {next : Option ConnectPc}
    (h : s.connectStep isSession start input pc = some (t, next)) :
    Same s t ∨ (pc = .done false ∧ input = false ∧ s.state = .starting ∧
      Same { s with state := .started } t) ∨ Same { s with calls := s.calls ++ [.started] } t := by
  obtain rfl | ⟨hstate, rfl⟩ | rfl | rfl := connectStep_cases h
  · exact .inl ⟨rfl, rfl, rfl, rfl⟩
  · cases pc with
    | done ec =>
      simp only [connectStep] at h
      split_ifs at h with hc
      · obtain ⟨rfl, rfl, -⟩ := hc
        exact .inr (.inl ⟨rfl, rfl, hstate, rfl, rfl, rfl, rfl⟩)
      · have hsame := congrArg state (Prod.mk.inj (Option.some.inj h)).1
        rw [hstate] at hsame
        cases hsame
    | waiting | check ec | checkStarted ec | last ec | fire ec | stop =>
      simp only [connectStep] at h
      repeat' split at h
      all_goals first
        | cases h
        | (have hsame : s.state = .started := congrArg state (Prod.mk.inj (Option.some.inj h)).1
           rw [hstate] at hsame
           cases hsame)
  · exact .inl ⟨rfl, rfl, rfl, rfl⟩
  · exact .inr (.inr ⟨rfl, rfl, rfl, rfl⟩)

lemma exec_effect (h : s.exec isSession op = some t) : Effect isSession s t op := by
  cases op with
  | start =>
    simp only [exec] at h
    split_ifs at h with hs
    obtain rfl := Option.some.inj h
    exact .start hs ⟨rfl, rfl, rfl, rfl⟩
  | stop =>
    obtain rfl := Option.some.inj h
    exact .request .stop (by simp) ⟨rfl, rfl, rfl, rfl⟩
  | leaveStarted i =>
    simp only [exec] at h
    split at h
    next hi =>
      split_ifs at h with hs
      · obtain rfl := Option.some.inj h
        exact .leaveStarted i hi hs ⟨rfl, rfl, rfl, rfl⟩
      · obtain rfl := Option.some.inj h
        exact .retry i hi hs ⟨rfl, rfl, rfl, rfl⟩
    next => cases h
  | leaveStarting i =>
    simp only [exec] at h
    split at h
    next hi =>
      split_ifs at h with hs
      · obtain rfl := Option.some.inj h
        exact .leaveStarting i hi hs ⟨rfl, rfl, rfl, rfl⟩
      · obtain rfl := Option.some.inj h
        exact .giveUp i hi hs ⟨rfl, rfl, rfl, rfl⟩
    next => cases h
  | disconnectTask i =>
    simp only [exec] at h
    split at h
    next old hi => exact .task i old hi h
    next => cases h
  | fireDisconnect =>
    simp only [exec] at h
    split_ifs at h with hf
    obtain rfl := Option.some.inj h
    exact .fire hf ⟨rfl, rfl, rfl, rfl⟩
  | connect i input =>
    simp only [exec] at h
    split at h
    · cases h
    next c hi =>
      have heffect : ∀ {u : Link} {next : Option ConnectPc} (completions : List Completion),
          s.connectStep isSession c.start input c.pc = some (u, next) →
          t = { u with completions := completions } → Effect isSession s t (.connect i input) := by
        intro u next completions hu ht
        subst ht
        obtain hsame | ⟨hpc, hinput, hs, hsame⟩ | hsame := connectStep_effect hu
        · exact .moved i input ⟨hsame.state, hsame.calls, hsame.posted, hsame.firing⟩
        · exact .connected i input c hi hpc hinput hs
            ⟨hsame.state, hsame.calls, hsame.posted, hsame.firing⟩
        · exact .request _ (by simp) ⟨hsame.state, hsame.calls, hsame.posted, hsame.firing⟩
      split at h
      · cases h
      next hu => exact heffect _ hu (Option.some.inj h).symm
      next hu => exact heffect _ hu (Option.some.inj h).symm

/-- A disconnect is posted exactly while the state is `Stopping`. -/
def Posted (s : Link) : Prop := s.posted.length = if s.state = .stopping then 1 else 0

lemma Posted.nil (h : s.Posted) (hs : s.state ≠ .stopping) : s.posted = [] := by
  unfold Posted at h
  rw [if_neg hs] at h
  exact List.eq_nil_of_length_eq_zero h

lemma Posted.state (h : s.Posted) {i : ℕ} {old : NetState} (hi : s.posted[i]? = some old) :
    s.state = .stopping ∧ s.posted = [old] ∧ i = 0 := by
  have hstate : s.state = .stopping := by
    by_contra hne
    rw [h.nil hne] at hi
    simp at hi
  unfold Posted at h
  rw [if_pos hstate] at h
  obtain ⟨x, hx⟩ := List.length_eq_one_iff.mp h
  rw [hx] at hi
  cases i with
  | zero =>
    obtain rfl := Option.some.inj hi
    exact ⟨hstate, hx, rfl⟩
  | succ i => simp at hi

/-- What the posted disconnect does to a client, or to a session that had been started. -/
lemma runDisconnect_eq {old : NetState} (hstate : s.state = .stopping)
    (h : { s with posted := [] }.runDisconnect isSession old = some t) :
    t.state = .stopped ∧ t.calls = s.calls ∧ t.posted = [] := by
  unfold runDisconnect at h
  rw [if_pos hstate] at h
  split_ifs at h
  · obtain rfl := Option.some.inj h
    exact ⟨rfl, rfl, rfl⟩
  · obtain rfl := Option.some.inj h
    exact ⟨rfl, rfl, rfl⟩

/-- What the posted disconnect finds and leaves. -/
lemma Posted.task (h : s.Posted) {i : ℕ} {old : NetState} (hi : s.posted[i]? = some old)
    (ht : { s with posted := s.posted.eraseIdx i }.runDisconnect isSession old = some t) :
    s.state = .stopping ∧ s.posted = [old] ∧ t.state = .stopped ∧ t.calls = s.calls ∧ t.posted = [] := by
  obtain ⟨hstate, hposted, rfl⟩ := h.state hi
  rw [hposted] at ht
  exact ⟨hstate, hposted, runDisconnect_eq hstate ht⟩

lemma Posted.disconnectTask (h : s.Posted) {i : ℕ} (hs : s.exec isSession (.disconnectTask i) = some t) :
    s.state = .stopping ∧ t.state = .stopped := by
  simp only [Link.exec] at hs
  split at hs
  next old hi =>
    obtain ⟨hstate, -, hstopped, -, -⟩ := h.task hi hs
    exact ⟨hstate, hstopped⟩
  next => cases hs

lemma Posted.exec (h : s.Posted) (hs : s.exec isSession op = some t) : t.Posted := by
  have hkeep : t.state = s.state → t.posted = s.posted → t.Posted := by
    intro hstate hposted
    unfold Posted
    rw [hposted, hstate]
    exact h
  have hlive : s.state ≠ .stopping → t.state ≠ .stopping → t.posted = s.posted → t.Posted := by
    intro hne hne' hposted
    unfold Posted
    rw [hposted, if_neg hne', h.nil hne]
    rfl
  have hleave : ∀ old, s.state ≠ .stopping → t.state = .stopping → t.posted = s.posted ++ [old] →
      t.Posted := by
    intro old hne hstate hposted
    unfold Posted
    rw [hposted, hstate, h.nil hne]
    rfl
  cases exec_effect hs with
  | start hstate hsame => exact hlive (by simp [hstate]) (by simp [hsame.state]) hsame.posted
  | request _ _ hsame => exact hkeep hsame.state hsame.posted
  | leaveStarted i _ hstate hsame =>
    exact hleave .started (by simp [hstate]) hsame.state hsame.posted
  | leaveStarting i _ hstate hsame =>
    exact hleave .starting (by simp [hstate]) hsame.state hsame.posted
  | retry i _ _ hsame => exact hkeep hsame.state hsame.posted
  | giveUp i _ _ hsame => exact hkeep hsame.state hsame.posted
  | task i old hi htask =>
    obtain ⟨-, -, hstopped, -, hnil⟩ := h.task hi htask
    unfold Posted
    rw [hstopped, hnil]
    rfl
  | fire _ hsame => exact hkeep hsame.state hsame.posted
  | connected i input c _ _ _ hstate hsame =>
    exact hlive (by simp [hstate]) (by simp [hsame.state]) hsame.posted
  | moved i input hsame => exact hkeep hsame.state hsame.posted

/-- A posted disconnect finds `Stopping`: the assertion of the client holds. -/
lemma Posted.client (h : s.Posted) {i : ℕ} {old : NetState} (hi : s.posted[i]? = some old) :
    ∃ t, s.exec false (.disconnectTask i) = some t := by
  obtain ⟨hstate, -, -⟩ := h.state hi
  simp only [Link.exec, hi]
  unfold runDisconnect
  rw [if_pos hstate]
  by_cases hold : old = .started
  · exact ⟨_, if_pos hold⟩
  · exact ⟨_, (if_neg hold).trans (if_neg Bool.false_ne_true)⟩

end Link

section Runs
variable {isSession : Bool} {r r' : Requests} {op : Op} {t : Link}

/-- While the connection is live nothing was posted, and a call that was begun is still to post. -/
structure Requests.Inv (r : Requests) : Prop where
  posted : r.link.Posted
  live : r.link.Live → r.posts = 0
  atMost : r.posts ≤ 1
  gone : r.begun = true → ¬ r.link.Live → r.posts = 1
  waiting : r.begun = true → r.link.Live →
    .started ∈ r.link.calls ∨ (r.link.state = .starting ∧ r.link.calls ≠ [])

lemma Requests.Inv.onePost (h : r.Inv) : r.OnePost := by
  refine ⟨h.atMost, fun hcalls hbegun => ?_⟩
  by_cases hlive : r.link.Live
  · obtain hmem | ⟨-, hne⟩ := h.waiting hbegun hlive
    · rw [hcalls] at hmem
      cases hmem
    · exact absurd hcalls hne
  · exact h.gone hbegun hlive

/-- Nothing that counts has changed, apart from the calls. -/
lemma Requests.Inv.keep (h : r.Inv) (ht : t.Posted) (hstate : t.state = r.link.state)
    (hwaiting : r.begun = true → t.Live →
      .started ∈ t.calls ∨ (t.state = .starting ∧ t.calls ≠ [])) :
    Requests.Inv ⟨t, r.begun, r.posts⟩ := by
  have hlive : t.Live ↔ r.link.Live := by
    unfold Link.Live
    rw [hstate]
  exact ⟨ht, fun hl => h.live (hlive.mp hl), h.atMost, fun hb hn => h.gone hb fun hl => hn (hlive.mpr hl),
    hwaiting⟩

/-- Not even the calls have changed. -/
lemma Requests.Inv.same (h : r.Inv) (ht : t.Posted) (hstate : t.state = r.link.state)
    (hcalls : t.calls = r.link.calls) : Requests.Inv ⟨t, r.begun, r.posts⟩ := by
  refine h.keep ht hstate fun hb hl => ?_
  rw [Link.Live, hstate] at hl
  rw [hstate, hcalls]
  exact h.waiting hb hl

/-- A call leaves the live states and posts. -/
lemma Requests.Inv.leave (h : r.Inv) (ht : t.Posted) (hlive : r.link.Live) (hstate : t.state = .stopping) :
    Requests.Inv ⟨t, r.begun, r.posts + 1⟩ := by
  have hzero := h.live hlive
  have hdead : ¬ t.Live := by
    unfold Link.Live
    simp [hstate]
  refine ⟨ht, fun hl => absurd hl hdead, ?_, fun _ _ => ?_, fun _ hl => absurd hl hdead⟩
  · show r.posts + 1 ≤ 1
    omega
  · show r.posts + 1 = 1
    omega

lemma Requests.after_of_ne (hop : op ≠ .start) : r.after op t =
    { link := t
      begun := r.begun || decide (r.link.calls.length < t.calls.length ∧ r.link.Live)
      posts := r.posts + (t.posted.length - r.link.posted.length) } := by
  cases op with
  | start => exact absurd rfl hop
  | _ => rfl

lemma Requests.Inv.step (h : r.Inv) (hop : r.CallAhead op) (hs : r.link.exec isSession op = some t) :
    (r.after op t).Inv := by
  have ht := h.posted.exec hs
  have hsame : op ≠ .start → t.calls.length ≤ r.link.calls.length →
      r.after op t = ⟨t, r.begun, r.posts + (t.posted.length - r.link.posted.length)⟩ := by
    intro hne hcalls
    rw [Requests.after_of_ne hne]
    have hlt : ¬ (r.link.calls.length < t.calls.length ∧ r.link.Live) := fun hl => by omega
    simp [hlt]
  have hkeep : op ≠ .start → t.calls.length ≤ r.link.calls.length → t.posted = r.link.posted →
      r.after op t = ⟨t, r.begun, r.posts⟩ := by
    intro hne hcalls hposted
    rw [hsame hne hcalls, hposted, Nat.sub_self, Nat.add_zero]
  have hleave : ∀ old, op ≠ .start → t.calls.length ≤ r.link.calls.length →
      t.posted = r.link.posted ++ [old] → r.after op t = ⟨t, r.begun, r.posts + 1⟩ := by
    intro old hne hcalls hposted
    rw [hsame hne hcalls, hposted, List.length_append]
    simp
  cases Link.exec_effect hs with
  | start hstate heff =>
    refine ⟨ht, fun _ => rfl, Nat.zero_le 1, fun hb => ?_, fun hb => ?_⟩
    · cases hb
    · cases hb
  | request _ hne heff =>
    have hcalls : t.calls = r.link.calls ++ [.started] := heff.calls
    have hlive : t.Live ↔ r.link.Live := by
      unfold Link.Live
      rw [heff.state]
    rw [Requests.after_of_ne hne, heff.posted, Nat.sub_self, Nat.add_zero]
    refine ⟨ht, fun hl => h.live (hlive.mp hl), h.atMost, fun hb hn => ?_, fun _ _ => .inl ?_⟩
    · have hdead : ¬ r.link.Live := fun hl => hn (hlive.mpr hl)
      have hbegun : r.begun = true := by simpa [hdead] using hb
      exact h.gone hbegun hdead
    · show DisconnectPc.started ∈ t.calls
      rw [hcalls]
      exact List.mem_append_right _ List.mem_cons_self
  | leaveStarted i hi hstate heff =>
    have hcalls : t.calls = r.link.calls.eraseIdx i := heff.calls
    rw [hleave .started (by simp) (hcalls ▸ List.length_eraseIdx_le ..) heff.posted]
    exact h.leave ht (.inr hstate) heff.state
  | leaveStarting i hi hstate heff =>
    have hcalls : t.calls = r.link.calls.eraseIdx i := heff.calls
    rw [hleave .starting (by simp) (hcalls ▸ List.length_eraseIdx_le ..) heff.posted]
    exact h.leave ht (.inl hstate) heff.state
  | retry i hi hstate heff =>
    have hcalls : t.calls = r.link.calls.set i .starting := heff.calls
    rw [hkeep (by simp) (by rw [hcalls, List.length_set]) heff.posted]
    refine h.keep ht heff.state fun _ hl => .inr ⟨?_, ?_⟩
    · rw [Link.Live, heff.state] at hl
      rw [heff.state]
      exact hl.resolve_right hstate
    · rw [hcalls]
      intro hnil
      have hempty : r.link.calls = [] := by simpa using hnil
      rw [hempty] at hi
      simp at hi
  | giveUp i hi hstate heff =>
    have hcalls : t.calls = r.link.calls.eraseIdx i := heff.calls
    rw [hkeep (by simp) (hcalls ▸ List.length_eraseIdx_le ..) heff.posted]
    refine h.keep ht heff.state fun hb hl => .inl ?_
    rw [Link.Live, heff.state] at hl
    have hmem := (h.waiting hb hl).resolve_right fun hw => hstate hw.1
    obtain ⟨j, hj⟩ := List.mem_iff_getElem?.mp hmem
    rw [hcalls, List.mem_eraseIdx_iff_getElem?]
    refine ⟨j, ?_, hj⟩
    rintro rfl
    rw [hi] at hj
    cases hj
  | task i old hi htask =>
    obtain ⟨hstate, -, hstopped, hcalls, hnil⟩ := h.posted.task hi htask
    have hdead : ¬ t.Live := by
      unfold Link.Live
      simp [hstopped]
    have hgone : ¬ r.link.Live := by
      unfold Link.Live
      simp [hstate]
    rw [hsame (by simp) (congrArg List.length hcalls).le, hnil]
    exact ⟨ht, fun hl => absurd hl hdead, by simpa using h.atMost, fun hb _ => by simpa using h.gone hb hgone,
      fun _ hl => absurd hl hdead⟩
  | fire _ heff =>
    have hcalls : t.calls = r.link.calls := heff.calls
    rw [hkeep (by simp) (congrArg List.length hcalls).le heff.posted]
    exact h.same ht heff.state hcalls
  | connected i input c hi hpc hinput hstate heff =>
    have hcalls : t.calls = r.link.calls := heff.calls
    rw [hkeep (by simp) (congrArg List.length hcalls).le heff.posted]
    refine ⟨ht, fun _ => h.live (.inl hstate), h.atMost, fun _ hn => absurd (.inr heff.state) hn,
      fun hb _ => .inl ?_⟩
    show DisconnectPc.started ∈ t.calls
    rw [hcalls]
    exact hop c hi hpc hinput hstate hb
  | moved i input heff =>
    have hcalls : t.calls = r.link.calls := heff.calls
    rw [hkeep (by simp) (congrArg List.length hcalls).le heff.posted]
    exact h.same ht heff.state hcalls

/-- In every run in which `DoneConnect` never leaves behind only calls between their two
compare-and-swaps, one disconnect is posted for a start; the assertion of the client holds. -/
theorem requests_posted (isSession : Bool)
    (h : Reachable ((requestRuns isSession).restrict Requests.CallAhead) r) :
    r.OnePost ∧ ∀ i old, r.link.posted[i]? = some old →
      ∃ t, r.link.exec false (.disconnectTask i) = some t := by
  have hinv : r.Inv := by
    apply h.invariant
    · intro r hr
      cases hr
      constructor
      · rfl
      · exact fun _ => rfl
      · exact Nat.zero_le 1
      · intro hb
        cases hb
      · intro hb
        cases hb
    · intro r op r' hr hstep
      obtain ⟨hop, t, ht, rfl⟩ := hstep
      exact hr.step hop ht
  exact ⟨hinv.onePost, fun i old hi => hinv.posted.client hi⟩

/-- Calls that all are between their two compare-and-swaps return without a disconnect once the
connection is started. -/
theorem calls_lost (hstate : r.link.state = .started) (hcalls : ∀ c ∈ r.link.calls, c = .starting)
    (h : Reachable (requestRuns isSession) r) :
    ∃ r', Reachable (requestRuns isSession) r' ∧ r'.link.calls = [] ∧ r'.link.state = .started ∧
      r'.posts = r.posts ∧ r'.begun = r.begun := by
  induction hn : r.link.calls.length generalizing r with
  | zero => exact ⟨r, h, List.eq_nil_of_length_eq_zero hn, hstate, rfl, rfl⟩
  | succ n ih =>
    obtain ⟨c, calls, hc⟩ := List.exists_cons_of_length_eq_add_one hn
    have hfirst : r.link.calls[0]? = some .starting := by
      rw [hc, ← hcalls c (by rw [hc]; exact List.mem_cons_self)]
      rfl
    let t : Link := { r.link with calls := calls }
    have hexec : r.link.exec isSession (.leaveStarting 0) = some t := by
      simp only [Link.exec, hfirst]
      rw [if_neg (by simp [hstate]), hc]
      rfl
    have hstep : (requestRuns isSession).step r (.leaveStarting 0) ⟨t, r.begun, r.posts⟩ := by
      refine ⟨t, hexec, ?_⟩
      rw [Requests.after_of_ne (by simp)]
      simp [t, hc]
    have hrest : ∀ c ∈ t.calls, c = .starting := fun c' hc' =>
      hcalls c' (by rw [hc]; exact List.mem_cons_of_mem c hc')
    have hlength : t.calls.length = n := by
      rw [hc] at hn
      exact Nat.succ.inj hn
    obtain ⟨r', hr', hnil, hstarted, hposts, hbegun⟩ := @ih ⟨t, r.begun, r.posts⟩ hstate hrest
      (h.step hstep) hlength
    exact ⟨r', hr', hnil, hstarted, hposts, hbegun⟩

end Runs

section Examples

/-- A client that is still connecting is stopped twice at once. -/
theorem requests_posted_two_stops :
    ∃ r : Requests, Reachable ((requestRuns false).restrict Requests.CallAhead) r ∧
      r.link.calls = [] ∧ r.begun = true ∧ r.OnePost := by
  have h0 : Reachable ((requestRuns false).restrict Requests.CallAhead) ({} : Requests) := .init rfl
  have h1 := @Reachable.step _ _ _ Op.start _ _ h0 ⟨trivial, _, rfl, rfl⟩
  have h2 := @Reachable.step _ _ _ Op.stop _ _ h1 ⟨trivial, _, rfl, rfl⟩
  have h3 := @Reachable.step _ _ _ Op.stop _ _ h2 ⟨trivial, _, rfl, rfl⟩
  have h4 := @Reachable.step _ _ _ (Op.leaveStarted 0) _ _ h3 ⟨trivial, _, rfl, rfl⟩
  have h5 := @Reachable.step _ _ _ (Op.leaveStarting 0) _ _ h4 ⟨trivial, _, rfl, rfl⟩
  have h6 := @Reachable.step _ _ _ (Op.leaveStarted 0) _ _ h5 ⟨trivial, _, rfl, rfl⟩
  have h7 := @Reachable.step _ _ _ (Op.leaveStarting 0) _ _ h6 ⟨trivial, _, rfl, rfl⟩
  exact ⟨_, h7, rfl, rfl, (requests_posted false h7).1⟩

/-- `DoneConnect` changes the state between the two compare-and-swaps of the only call: the client
and the session stay started. -/
theorem request_lost :
    (∃ r : Requests, Reachable (requestRuns false) r ∧ r.link.state = .started ∧ ¬ r.OnePost) ∧
      ∃ r : Requests, Reachable (requestRuns true) r ∧ r.link.state = .started ∧ ¬ r.OnePost := by
  have hlost : ∀ isSession, Reachable (requestRuns isSession)
      { link := { state := .started, starts := 1, completions := [⟨1, .check false⟩], log := [.start] }
        begun := true } := by
    intro isSession
    have h0 : Reachable (requestRuns isSession) ({} : Requests) := .init rfl
    have h1 := @Reachable.step _ _ _ Op.start _ _ h0 ⟨_, rfl, rfl⟩
    have h2 : Reachable (requestRuns isSession)
        { link := { state := .starting, starts := 1, completions := [⟨1, .done false⟩], log := [.start] } } := by
      cases isSession with
      | true => exact @Reachable.step _ _ _ (Op.connect 0 false) _ _ h1 ⟨_, rfl, rfl⟩
      | false => exact @Reachable.step _ _ _ (Op.connect 0 false) _ _ h1 ⟨_, rfl, rfl⟩
    have h3 := @Reachable.step _ _ _ Op.stop _ _ h2 ⟨_, rfl, rfl⟩
    have h4 := @Reachable.step _ _ _ (Op.leaveStarted 0) _ _ h3 ⟨_, rfl, rfl⟩
    have h5 := @Reachable.step _ _ _ (Op.connect 0 false) _ _ h4 ⟨_, rfl, rfl⟩
    exact @Reachable.step _ _ _ (Op.leaveStarting 0) _ _ h5 ⟨_, rfl, rfl⟩
  refine ⟨⟨_, hlost false, rfl, fun h => ?_⟩, _, hlost true, rfl, fun h => ?_⟩
  · cases h.one rfl rfl
  · cases h.one rfl rfl

end Examples
end TyphoonZero.NetConnect
