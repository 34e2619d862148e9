import TyphoonZero.NetConnect
import TyphoonZero.UserTimer

/-! The silence timer of a session: its completion handler compares the time since the last packet
with the timeout, and reads the clock once more to arm the next wait. -/
namespace TyphoonZero.Silence
open Transition NetConnect UserTimer

/-- A session that was started. `clock` is the last reading, `posted` the task of `StartRecv`;
`handling` says that the handler is before `PostSilenceTimer`, `told` that it called `DoDisconnect`.
-/
structure Session where
  state : NetState := .started
  clock : ℤ
  lastAlive : ℤ
  canceled : Bool := false
  posted : Bool := true
  waits : List Status := []
  handling : Bool := false
  told : Bool := false

/-- `complete` is the handler up to the comparison and `repost` the rest of it, each with the clock
that it reads. `disconnect` is any other `DoDisconnect`, from any thread. -/
inductive Op
  | alive (now : ℤ)
  | startRecv
  | expire (i : ℕ)
  | complete (i : ℕ) (now : ℤ)
  | repost (now : ℤ)
  | disconnect
  | stop

namespace Session
variable (timeout : ℤ) (s : Session)

def updateAliveTime (now : ℤ) : Session := { s with clock := now, lastAlive := now }

def silenceDuration (now : ℤ) : ℤ := now - s.lastAlive

/-- `cancel` of the timer; a completion that is queued already stays as it is. -/
def cancelWaits : Session := { s with waits := s.waits.map fun w => if w = .armed then .aborted else w }

/-- Nothing is armed for a duration that is over. -/
def postSilenceTimer (duration : ℤ) : Session :=
  if 0 < duration then
    let t := s.cancelWaits
    { t with waits := t.waits ++ [.armed] }
  else s

def doDisconnect : Session :=
  if s.state = .started ∨ s.state = .starting then { s with state := .stopping } else s

/-- The flag is set by the `test_and_set` only if it was set already. -/
def handleSilenceTimer (ec : Status) (now : ℤ) : Session :=
  if ec = .aborted ∨ s.canceled = true then s
  else
    let t := { s with clock := now }
    if s.silenceDuration now < timeout then { t with handling := true }
    else { t with told := true }.doDisconnect

def handleRest (now : ℤ) : Session :=
  ({ s with clock := now, handling := false } : Session).postSilenceTimer (timeout - s.silenceDuration now)

def stopSilenceTimer : Session := { s with canceled := true }.cancelWaits

/-- The clock never goes back. The strand does nothing else before the handler is through; the base
`Stop` comes after a disconnect. -/
def exec : Op → Option Session
  | .alive now => if s.clock ≤ now then some (s.updateAliveTime now) else none
  | .startRecv =>
    if s.posted = true ∧ s.handling = false then some ({ s with posted := false }.postSilenceTimer timeout) else none
  | .expire i => if s.waits[i]? = some .armed then some { s with waits := s.waits.set i .expired } else none
  | .complete i now =>
    match s.waits[i]? with
    | none => none
    | some w =>
      if w ≠ .armed ∧ s.handling = false ∧ s.clock ≤ now then
        some ({ s with waits := s.waits.eraseIdx i }.handleSilenceTimer timeout w now)
      else none
  | .repost now => if s.handling = true ∧ s.clock ≤ now then some (s.handleRest timeout now) else none
  | .disconnect => some s.doDisconnect
  | .stop => if s.state ≠ .started ∧ s.handling = false then some s.stopSilenceTimer else none

/-- The operation brings the handler to its end. -/
def Handled (op : Op) (t : Session) : Prop :=
  ((∃ i now, op = .complete i now) ∨ ∃ now, op = .repost now) ∧ t.handling = false

/-- After the handler of a started session that was not stopped a wait is armed or the session was
told to disconnect, and it is told so only when it has been silent for as long as the timeout. -/
structure Watches (op : Op) (t : Session) : Prop where
  awake : Handled op t → s.state = .started → s.canceled = false → .armed ∈ t.waits ∨ t.told = true
  silent : t.told = true → s.told = true ∨ ∃ i now, op = .complete i now ∧ timeout ≤ s.silenceDuration now

/-- The second reading of the handler does not reach the timeout either. -/
def InTime (op : Op) : Prop := ∀ now, op = .repost now → s.state = .started → s.silenceDuration now < timeout

end Session

/-- A session that was started at the time `start`, with any updates of its alive time. -/
def silenceRuns (timeout start : ℤ) : System Session Op where
  init s := s = { clock := start, lastAlive := start }
  step s op t := s.exec timeout op = some t

namespace Session
variable {timeout : ℤ} {s t : Session} {op : Op}

/-- Where the supervision of a started session is: before its first wait, at a wait that was not
cancelled, or in the handler. -/
inductive Phase (s : Session) : Prop
  | posted (hposted : s.posted = true) (hwaits : s.waits = []) (hhandling : s.handling = false)
  | waiting (hposted : s.posted = false) (w : Status) (hw : w ≠ .aborted) (hwaits : s.waits = [w])
      (hhandling : s.handling = false)
  | handling (hposted : s.posted = false) (hwaits : s.waits = []) (hhandling : s.handling = true)

/-- A started session was not stopped, nor told to disconnect. -/
structure Good (s : Session) : Prop where
  canceled : s.state = .started → s.canceled = false
  told : s.state = .started → s.told = false
  phase : s.state = .started → s.Phase

lemma doDisconnect_state : s.doDisconnect.state ≠ .started := by
  unfold doDisconnect
  split_ifs with h
  · simp
  · exact fun hstate => h (Or.inl hstate)

lemma doDisconnect_told : s.doDisconnect.told = s.told := by
  unfold doDisconnect
  split_ifs <;> rfl

lemma Good.of_ne (h : s.state ≠ .started) : s.Good :=
  ⟨fun hstate => absurd hstate h, fun hstate => absurd hstate h, fun hstate => absurd hstate h⟩

lemma postSilenceTimer_pos {duration : ℤ} (h : 0 < duration) (hwaits : s.waits = []) :
    s.postSilenceTimer duration = { s with waits := [.armed] } := by
  unfold postSilenceTimer
  rw [if_pos h]
  simp [cancelWaits, hwaits]

lemma postSilenceTimer_state (duration : ℤ) : (s.postSilenceTimer duration).state = s.state := by
  unfold postSilenceTimer
  split_ifs <;> rfl

lemma postSilenceTimer_told (duration : ℤ) : (s.postSilenceTimer duration).told = s.told := by
  unfold postSilenceTimer
  split_ifs <;> rfl

/-- The first wait, or the next one. -/
lemma Good.post (hcanceled : s.state = .started → s.canceled = false) (htold : s.state = .started → s.told = false)
    (hposted : s.state = .started → s.posted = false) (hwaits : s.state = .started → s.waits = [])
    (hhandling : s.handling = false) {duration : ℤ} (hpos : s.state = .started → 0 < duration) :
    (s.postSilenceTimer duration).Good := by
  by_cases hstate : s.state = .started
  · rw [postSilenceTimer_pos (hpos hstate) (hwaits hstate)]
    exact ⟨hcanceled, htold, fun _ => .waiting (hposted hstate) .armed (by simp) rfl hhandling⟩
  · exact .of_ne (by rwa [postSilenceTimer_state])

lemma handle_told (ec : Status) (now : ℤ) (h : (s.handleSilenceTimer timeout ec now).told = true) :
    s.told = true ∨ timeout ≤ s.silenceDuration now := by
  unfold handleSilenceTimer at h
  split_ifs at h with hec hduration
  · exact Or.inl h
  · exact Or.inl h
  · exact Or.inr (not_lt.mp hduration)

/-- The completion of a wait that was not cancelled goes on to the next wait or disconnects. -/
lemma Good.handle (hs : s.Good) {i : ℕ} {w : Status} (hw : s.waits[i]? = some w) (hhandling : s.handling = false)
    (now : ℤ) : ({ s with waits := s.waits.eraseIdx i }.handleSilenceTimer timeout w now).Good ∧
      (s.state = .started →
        ({ s with waits := s.waits.eraseIdx i }.handleSilenceTimer timeout w now).handling = false →
        ({ s with waits := s.waits.eraseIdx i }.handleSilenceTimer timeout w now).told = true) := by
  by_cases hstate : s.state = .started
  · have hcanceled := hs.canceled hstate
    obtain ⟨hposted, hw', hrest⟩ : s.posted = false ∧ w ≠ .aborted ∧ s.waits.eraseIdx i = [] := by
      cases hs.phase hstate with
      | posted _ hwaits _ => simp [hwaits] at hw
      | waiting hposted v hv hwaits _ =>
        rw [hwaits] at hw ⊢
        cases i with
        | zero =>
          obtain rfl := Option.some.inj hw
          exact ⟨hposted, hv, rfl⟩
        | succ i => simp at hw
      | handling _ _ h => simp [hhandling] at h
    unfold handleSilenceTimer
    rw [if_neg (by simp [hw', hcanceled])]
    dsimp only
    split_ifs with hduration
    · exact ⟨⟨fun _ => hcanceled, fun _ => hs.told hstate, fun _ => .handling hposted hrest rfl⟩,
        fun _ h => by cases h⟩
    · exact ⟨.of_ne doDisconnect_state, fun _ _ => doDisconnect_told⟩
  · refine ⟨.of_ne ?_, fun h => absurd h hstate⟩
    unfold handleSilenceTimer
    split_ifs
    · exact hstate
    · exact hstate
    · exact doDisconnect_state

lemma Good.exec (htimeout : 0 < timeout) (hs : s.Good) (hop : s.InTime timeout op) (h : s.exec timeout op = some t) :
    t.Good := by
  cases op with
  | alive now =>
    simp only [Session.exec] at h
    split_ifs at h
    obtain rfl := Option.some.inj h
    refine ⟨hs.canceled, hs.told, fun hstate => ?_⟩
    cases hs.phase hstate with
    | posted hposted hwaits hhandling => exact .posted hposted hwaits hhandling
    | waiting hposted w hw hwaits hhandling => exact .waiting hposted w hw hwaits hhandling
    | handling hposted hwaits hhandling => exact .handling hposted hwaits hhandling
  | startRecv =>
    simp only [Session.exec] at h
    split_ifs at h with hguard
    obtain rfl := Option.some.inj h
    refine Good.post (s := { s with posted := false }) hs.canceled hs.told (fun _ => rfl) (fun hstate => ?_) hguard.2
      fun _ => htimeout
    cases hs.phase hstate with
    | posted _ hwaits _ => exact hwaits
    | waiting hposted _ _ _ _ => simp [hguard.1] at hposted
    | handling hposted _ _ => simp [hguard.1] at hposted
  | expire i =>
    simp only [Session.exec] at h
    split_ifs at h with hw
    obtain rfl := Option.some.inj h
    refine ⟨hs.canceled, hs.told, fun hstate => ?_⟩
    cases hs.phase hstate with
    | posted _ hwaits _ => simp [hwaits] at hw
    | waiting hposted w _ hwaits hhandling =>
      rw [hwaits] at hw
      cases i with
      | zero => exact .waiting hposted .expired (by simp) (by simp [hwaits]) hhandling
      | succ i => simp at hw
    | handling _ hwaits _ => simp [hwaits] at hw
  | complete i now =>
    simp only [Session.exec] at h
    split at h
    · cases h
    next w hw =>
      split_ifs at h with hguard
      obtain rfl := Option.some.inj h
      exact (hs.handle hw hguard.2.1 now).1
  | repost now =>
    simp only [Session.exec] at h
    split_ifs at h with hguard
    obtain rfl := Option.some.inj h
    have hphase : s.state = .started → s.posted = false ∧ s.waits = [] := by
      intro hstate
      cases hs.phase hstate with
      | posted _ _ hhandling => simp [hguard.1] at hhandling
      | waiting _ _ _ _ hhandling => simp [hguard.1] at hhandling
      | handling hposted hwaits _ => exact ⟨hposted, hwaits⟩
    refine Good.post (s := { s with clock := now, handling := false }) hs.canceled hs.told
      (fun hstate => (hphase hstate).1) (fun hstate => (hphase hstate).2) rfl fun hstate => ?_
    exact sub_pos.mpr (hop now rfl hstate)
  | disconnect =>
    obtain rfl := Option.some.inj h
    exact .of_ne doDisconnect_state
  | stop =>
    simp only [Session.exec] at h
    split_ifs at h with hguard
    obtain rfl := Option.some.inj h
    exact .of_ne hguard.1

lemma exec_silent (h : s.exec timeout op = some t) (htold : t.told = true) :
    s.told = true ∨ ∃ i now, op = .complete i now ∧ timeout ≤ s.silenceDuration now := by
  cases op with
  | alive _ | expire _ | stop =>
    simp only [Session.exec] at h
    split_ifs at h
    obtain rfl := Option.some.inj h
    exact Or.inl htold
  | startRecv =>
    simp only [Session.exec] at h
    split_ifs at h
    obtain rfl := Option.some.inj h
    exact Or.inl ((postSilenceTimer_told (s := { s with posted := false }) _).symm.trans htold)
  | repost now =>
    simp only [Session.exec] at h
    split_ifs at h
    obtain rfl := Option.some.inj h
    exact Or.inl ((postSilenceTimer_told (s := { s with clock := now, handling := false }) _).symm.trans htold)
  | complete i now =>
    simp only [Session.exec] at h
    split at h
    · cases h
    · split_ifs at h
      obtain rfl := Option.some.inj h
      rcases handle_told _ now htold with h | hduration
      · exact Or.inl h
      · exact Or.inr ⟨i, now, rfl, hduration⟩
  | disconnect =>
    obtain rfl := Option.some.inj h
    exact Or.inl (doDisconnect_told.symm.trans htold)

/-- The rest of the handler on a started session finds no other wait. -/
lemma Good.repost (hs : s.Good) {now : ℤ} (h : s.exec timeout (.repost now) = some t) (hstate : s.state = .started) :
    s.waits = [] ∧ t = s.handleRest timeout now := by
  simp only [Session.exec] at h
  split_ifs at h with hguard
  refine ⟨?_, (Option.some.inj h).symm⟩
  cases hs.phase hstate with
  | posted _ hwaits _ => exact hwaits
  | waiting _ _ _ _ hhandling => simp [hguard.1] at hhandling
  | handling _ hwaits _ => exact hwaits

lemma Good.watches (hs : s.Good) (hop : s.InTime timeout op) (h : s.exec timeout op = some t) :
    s.Watches timeout op t := by
  refine ⟨?_, exec_silent h⟩
  rintro ⟨⟨i, now, rfl⟩ | ⟨now, rfl⟩, hhandling⟩ hstate -
  · simp only [Session.exec] at h
    split at h
    · cases h
    next w hw =>
      split_ifs at h with hguard
      obtain rfl := Option.some.inj h
      exact Or.inr ((hs.handle hw hguard.2.1 now).2 hstate hhandling)
  · obtain ⟨hwaits, rfl⟩ := hs.repost h hstate
    left
    rw [handleRest, postSilenceTimer_pos (s := { s with clock := now, handling := false })
      (sub_pos.mpr (hop now rfl hstate)) hwaits]
    exact List.mem_cons_self

/-- When the second reading reaches the timeout nothing is armed and nobody is told. -/
lemma Watches.inTime (hwatches : s.Watches timeout op t) (hs : s.Good) (h : s.exec timeout op = some t) :
    s.InTime timeout op := by
  rintro now rfl hstate
  by_contra hlate
  obtain ⟨hwaits, rfl⟩ := hs.repost h hstate
  have hrest : s.handleRest timeout now = { s with clock := now, handling := false } :=
    if_neg (by rw [sub_pos]; exact hlate)
  rcases hwatches.awake ⟨Or.inr ⟨now, rfl⟩, by rw [hrest]⟩ hstate (hs.canceled hstate) with harmed | htold
  · simp [hrest, hwaits] at harmed
  · rw [hrest, hs.told hstate] at htold
    cases htold

end Session

section Runs
variable {timeout start : ℤ} {ops : List Op} {s : Session}

/-- The supervision of a session never falls asleep in a run if and only if the second reading of
the handler never reaches the timeout either. -/
theorem silence_watched_iff (htimeout : 0 < timeout) (h : Traces (silenceRuns timeout start) ops s) :
    Along (silenceRuns timeout start) (Session.Watches timeout) ops ↔
      Traces ((silenceRuns timeout start).restrict (Session.InTime timeout)) ops s := by
  refine Traces.along_iff (I := Session.Good) ?_ ?_ ?_ ?_ ?_ h
  · exact fun s t hs ht => hs.trans ht.symm
  · exact fun s op t u ht hu => Option.some.inj (ht.symm.trans hu)
  · rintro s rfl
    exact ⟨fun _ => rfl, fun _ => rfl, fun _ => .posted rfl rfl rfl⟩
  · exact fun s op t hs hstep => ⟨fun hwatches => hwatches.inTime hs hstep, fun hop => hs.watches hop hstep⟩
  · exact fun s op t hs hop hstep => hs.exec htimeout hop hstep

end Runs

/-- A packet comes before the first wait is over, none before the second. -/
theorem silence_watched_packet : Along (silenceRuns 10 0) (Session.Watches 10)
    [.startRecv, .alive 4, .expire 0, .complete 0 10, .repost 11, .expire 0, .complete 0 15] := by
  have h0 : Traces ((silenceRuns 10 0).restrict (Session.InTime 10)) [] { clock := 0, lastAlive := 0 } := .nil rfl
  have h1 := h0.snoc (l := Op.startRecv) ⟨by simp [Session.InTime], rfl⟩
  have h2 := h1.snoc (l := Op.alive 4) ⟨by simp [Session.InTime], rfl⟩
  have h3 := h2.snoc (l := Op.expire 0) ⟨by simp [Session.InTime], rfl⟩
  have h4 := h3.snoc (l := Op.complete 0 10) ⟨by simp [Session.InTime], rfl⟩
  have h5 := h4.snoc (l := Op.repost 11) ⟨by
    intro now hnow _
    obtain rfl := Op.repost.inj hnow
    decide, rfl⟩
  have h6 := h5.snoc (l := Op.expire 0) ⟨by simp [Session.InTime], rfl⟩
  have h7 := h6.snoc (l := Op.complete 0 15) ⟨by simp [Session.InTime], rfl⟩
  exact (silence_watched_iff (by decide) h7.of_restrict).mpr h7

/-- The clock moves between the two readings: the session has been silent for the whole timeout,
but nothing is armed and nobody is told. -/
theorem silence_asleep : ∃ s,
    Traces (silenceRuns 10 0) [.startRecv, .expire 0, .complete 0 9, .repost 10] s ∧ s.state = .started ∧
      s.canceled = false ∧ s.waits = [] ∧ s.handling = false ∧ s.told = false ∧
      ¬Along (silenceRuns 10 0) (Session.Watches 10) [.startRecv, .expire 0, .complete 0 9, .repost 10] := by
  have h0 : Traces (silenceRuns 10 0) [] { clock := 0, lastAlive := 0 } := .nil rfl
  have h1 := h0.snoc (l := Op.startRecv) rfl
  have h2 := h1.snoc (l := Op.expire 0) rfl
  have h3 := h2.snoc (l := Op.complete 0 9) rfl
  have h4 := h3.snoc (l := Op.repost 10) rfl
  refine ⟨_, h4, rfl, rfl, rfl, rfl, rfl, fun halong => ?_⟩
  have hwatches := halong _ (.repost 10) _ _ List.prefix_rfl h3 rfl
  rcases hwatches.awake ⟨Or.inr ⟨10, rfl⟩, rfl⟩ rfl rfl with harmed | htold
  · cases harmed
  · cases htold

end TyphoonZero.Silence
