import TyphoonZero.UserTimer

/-! When a stopped timer stays silent: the handler calls the task of every completion,
the cancelled ones too, so a stop silences a timer only if no wait is outstanding on it. -/
namespace TyphoonZero.UserTimer
open Transition

section Silent
variable {K T : Type}

/-- No task is called after a stop of its registration. -/
def Silent (log : List (Event K T)) : Prop :=
  log.Pairwise fun a b => ∀ r called, a = .stop r called → b ≠ .invoke r

lemma silent_append {log new : List (Event K T)} (h : Silent log)
    (hn : ∀ e ∈ new, ∀ r, e ≠ .invoke r) : Silent (log ++ new) := by
  refine List.pairwise_append.mpr ⟨h, ?_, ?_⟩
  · apply List.pairwise_of_forall_mem_list
    intro a _ b hb r called _
    exact hn b hb r
  · intro a _ b hb r called _
    exact hn b hb r

lemma silent_invoke {log : List (Event K T)} {r : ℕ} (h : Silent log)
    (hr : ∀ called, Event.stop r called ∉ log) : Silent (log ++ [.invoke r]) := by
  refine List.pairwise_append.mpr ⟨h, List.pairwise_singleton _ _, ?_⟩
  intro a ha b hb r' called heq hinv
  rw [List.mem_singleton.mp hb] at hinv
  cases hinv
  exact hr called (heq ▸ ha)

end Silent

section Idle
variable {K T : Type} [DecidableEq K] (s : UserTimer K T)

/-- No wait is outstanding on the timers `p`. -/
def Idle (p : ℕ → Bool) : Prop := ∀ w ∈ s.waits, p w.obj = false

def StopsIdleTimer (key : K) : Prop := ∀ o, s.timers key = some o → Idle s (· = o)

/-- Every stop, also one of the handler, finds no wait outstanding on what it stops. -/
def StopsIdle : Op K T → Prop
  | .stopTimer key => StopsIdleTimer s key
  | .stopAllTimers => Idle s s.isRegistered
  | .finish => ∀ w x, s.running = some w → s.objs w.obj = some x → UserTimer.lastCycle w x = true →
      StopsIdleTimer s x.key
  | _ => True

/-- Registered and waiting timers have not exited; stopped registrations have. -/
structure Silenced (s : UserTimer K T) : Prop where
  known : ∀ o x, s.objs o = some x → o < s.next ∧ x.reg < s.regs
  unique : ∀ o o' x x', s.objs o = some x → s.objs o' = some x' → x.reg = x'.reg → o = o'
  live : ∀ key o, s.timers key = some o → ∃ x, s.objs o = some x ∧ x.exited = false ∧ x.key = key
  waits : ∀ w ∈ s.waits, ∃ x, s.objs w.obj = some x ∧ x.exited = false
  stopped : ∀ r called, Event.stop r called ∈ s.log →
    r < s.regs ∧ ∀ o x, s.objs o = some x → x.reg = r → x.exited = true
  silent : Silent s.log

end Idle

section Steps
variable {K T : Type} [DecidableEq K] {s t : UserTimer K T}

omit [DecidableEq K] in
lemma silenced_init : Silenced ({} : UserTimer K T) := by
  refine ⟨?_, ?_, ?_, ?_, ?_, List.Pairwise.nil⟩
  · intro o x h
    cases h
  · intro o o' x x' h
    cases h
  · intro key o h
    cases h
  · intro w h
    cases h
  · intro r called h
    cases h

omit [DecidableEq K] in
/-- The waits may change as long as they stay on timers that have not exited. -/
lemma Silenced.of_waits (h : Silenced s) {waits : List Wait}
    (hw : ∀ w ∈ waits, ∃ x, s.objs w.obj = some x ∧ x.exited = false) :
    Silenced { s with waits := waits } :=
  ⟨h.known, h.unique, h.live, hw, h.stopped, h.silent⟩

omit [DecidableEq K] in
lemma cancel_live (h : ∀ w ∈ s.waits, ∃ x, s.objs w.obj = some x ∧ x.exited = false) (p : ℕ → Bool) :
    ∀ w ∈ cancel p s.waits, ∃ x, s.objs w.obj = some x ∧ x.exited = false := by
  intro w hw
  obtain ⟨w', hw', hobj, _⟩ := mem_cancel hw
  rw [← hobj]
  exact h w' hw'

omit [DecidableEq K] in
lemma postUserTimers_silenced (h : Silenced s) (o : ℕ) : Silenced (s.postUserTimers o) := by
  unfold UserTimer.postUserTimers
  cases ho : s.objs o with
  | none => exact h
  | some x =>
    dsimp only
    split_ifs with hexit
    · exact h
    · apply h.of_waits
      intro w hw
      rw [List.mem_append, List.mem_singleton] at hw
      rcases hw with hw | rfl
      · exact cancel_live h.waits _ w hw
      · exact ⟨x, ho, by simpa using hexit⟩

omit [DecidableEq K] in
/-- A registered object takes a new registration. -/
lemma retask_silenced (h : Silenced s) {key : K} {o : ℕ} (ho : s.timers key = some o) (task : T)
    (e : Event K T) (he : ∀ r called, e ≠ .stop r called ∧ e ≠ .invoke r) :
    Silenced { s with
      objs := Function.update s.objs o ((s.objs o).map fun x => { x with task := task, reg := s.regs })
      regs := s.regs + 1
      log := s.log ++ [e] } := by
  obtain ⟨x, hx, hexit, hkey⟩ := h.live key o ho
  have hobjs : ∀ i y, Function.update s.objs o
        ((s.objs o).map fun x => { x with task := task, reg := s.regs }) i = some y →
      i = o ∧ y = { x with task := task, reg := s.regs } ∨ i ≠ o ∧ s.objs i = some y := by
    intro i y hy
    rw [hx] at hy
    exact update_some_cases hy
  have hkeep : ∀ i y, s.objs i = some y → ∃ z, Function.update s.objs o
        ((s.objs o).map fun x => { x with task := task, reg := s.regs }) i = some z ∧
      z.exited = y.exited ∧ z.key = y.key := by
    intro i y hy
    by_cases hi : i = o
    · subst hi
      rw [hx] at hy
      cases hy
      rw [Function.update_self, hx]
      exact ⟨_, rfl, rfl, rfl⟩
    · rw [Function.update_of_ne hi]
      exact ⟨y, hy, rfl, rfl⟩
  refine ⟨?_, ?_, ?_, ?_, ?_, ?_⟩
  · intro i y hy
    obtain ⟨rfl, rfl⟩ | ⟨_, hy'⟩ := hobjs i y hy
    · exact ⟨(h.known i x hx).1, Nat.lt_succ_self _⟩
    · have hknown := h.known i y hy'
      exact ⟨hknown.1, by dsimp only; omega⟩
  · intro i j y z hy hz hreg
    obtain ⟨rfl, rfl⟩ | ⟨hi, hy'⟩ := hobjs i y hy
    · obtain ⟨rfl, rfl⟩ | ⟨_, hz'⟩ := hobjs j z hz
      · rfl
      · have hknown := (h.known j z hz').2
        dsimp only at hreg
        omega
    · obtain ⟨rfl, rfl⟩ | ⟨_, hz'⟩ := hobjs j z hz
      · have hknown := (h.known i y hy').2
        dsimp only at hreg
        omega
      · exact h.unique i j y z hy' hz' hreg
  · intro key' i hi
    obtain ⟨y, hy, hexit', hkey'⟩ := h.live key' i hi
    obtain ⟨z, hz, hze, hzk⟩ := hkeep i y hy
    exact ⟨z, hz, hze.trans hexit', hzk.trans hkey'⟩
  · intro w hw
    obtain ⟨y, hy, hexit'⟩ := h.waits w hw
    obtain ⟨z, hz, hze, _⟩ := hkeep w.obj y hy
    exact ⟨z, hz, hze.trans hexit'⟩
  · intro r called hr
    rw [List.mem_append, List.mem_singleton] at hr
    rcases hr with hr | hr
    · obtain ⟨hlt, hall⟩ := h.stopped r called hr
      refine ⟨by dsimp only; omega, ?_⟩
      intro i y hy hreg
      obtain ⟨rfl, rfl⟩ | ⟨_, hy'⟩ := hobjs i y hy
      · dsimp only at hreg
        omega
      · exact hall i y hy' hreg
    · exact absurd hr.symm (he r called).1
  · apply silent_append h.silent
    intro e' he' r
    rw [List.mem_singleton.mp he']
    exact (he r true).2

/-- A new object under a free key. -/
lemma newObj_silenced (h : Silenced s) {key : K} (x : UserTimerObj K T) (hkey : x.key = key)
    (hexit : x.exited = false) (hreg : x.reg = s.regs)
    (e : Event K T) (he : ∀ r called, e ≠ .stop r called ∧ e ≠ .invoke r) :
    Silenced { s with
      timers := Function.update s.timers key (some s.next)
      objs := Function.update s.objs s.next (some x)
      next := s.next + 1
      regs := s.regs + 1
      log := s.log ++ [e] } := by
  have hold : ∀ i y, s.objs i = some y → Function.update s.objs s.next (some x) i = some y := by
    intro i y hy
    have hlt := (h.known i y hy).1
    rw [Function.update_of_ne (by omega)]
    exact hy
  have hobjs : ∀ i y, Function.update s.objs s.next (some x) i = some y →
      i = s.next ∧ y = x ∨ s.objs i = some y := by
    intro i y hy
    exact (update_some_cases hy).imp_right And.right
  refine ⟨?_, ?_, ?_, ?_, ?_, ?_⟩
  · intro i y hy
    obtain ⟨rfl, rfl⟩ | hy' := hobjs i y hy
    · exact ⟨Nat.lt_succ_self _, by dsimp only; omega⟩
    · have hknown := h.known i y hy'
      dsimp only
      omega
  · intro i j y z hy hz hr
    obtain ⟨rfl, rfl⟩ | hy' := hobjs i y hy
    · obtain ⟨rfl, rfl⟩ | hz' := hobjs j z hz
      · rfl
      · have hknown := (h.known j z hz').2
        omega
    · obtain ⟨rfl, rfl⟩ | hz' := hobjs j z hz
      · have hknown := (h.known i y hy').2
        omega
      · exact h.unique i j y z hy' hz' hr
  · intro key' i hi
    dsimp only at hi
    by_cases hk : key' = key
    · subst hk
      rw [Function.update_self] at hi
      cases hi
      exact ⟨x, Function.update_self _ _ _, hexit, hkey⟩
    · rw [Function.update_of_ne hk] at hi
      obtain ⟨y, hy, hy'⟩ := h.live key' i hi
      exact ⟨y, hold i y hy, hy'⟩
  · intro w hw
    obtain ⟨y, hy, hy'⟩ := h.waits w hw
    exact ⟨y, hold w.obj y hy, hy'⟩
  · intro r called hr
    rw [List.mem_append, List.mem_singleton] at hr
    rcases hr with hr | hr
    · obtain ⟨hlt, hall⟩ := h.stopped r called hr
      refine ⟨by dsimp only; omega, ?_⟩
      intro i y hy hr'
      obtain ⟨rfl, rfl⟩ | hy' := hobjs i y hy
      · omega
      · exact hall i y hy' hr'
    · exact absurd hr.symm (he r called).1
  · apply silent_append h.silent
    intro e' he' r
    rw [List.mem_singleton.mp he']
    exact (he r true).2

lemma startCycleTimer_silenced (h : Silenced s) (key : K) (task : T) (cycle : ℤ) :
    Silenced (s.startCycleTimer key task cycle) := by
  have he : ∀ r called, Event.start s.regs key task cycle ≠ .stop r called ∧
      Event.start s.regs key task cycle ≠ .invoke r := by
    intro r called
    exact ⟨nofun, nofun⟩
  unfold UserTimer.startCycleTimer UserTimer.register
  cases ho : s.timers key with
  | none =>
    apply postUserTimers_silenced
    exact newObj_silenced h { key := key, task := task, cycle := cycle, reg := s.regs } rfl rfl rfl _ he
  | some o =>
    apply postUserTimers_silenced
    exact retask_silenced h ho task _ he

omit [DecidableEq K] in
/-- A stop of idle timers that are taken out of the map. -/
lemma stopObjs_silenced (h : Silenced s) {p : ℕ → Bool} (hidle : Idle s p) (called : Bool)
    {timers : K → Option ℕ}
    (ht : ∀ key o, timers key = some o → s.timers key = some o ∧ p o = false) :
    Silenced { s.stopObjs p called with timers := timers } := by
  have hobjs : ∀ i y, (s.stopObjs p called).objs i = some y →
      ∃ x, s.objs i = some x ∧ y.reg = x.reg ∧ (x.exited = true → y.exited = true) ∧
        (p i = true → y.exited = true) := by
    intro i y hy
    obtain ⟨x, hx, rfl⟩ := stopObjs_some called hy
    refine ⟨x, hx, ?_, ?_, ?_⟩
    · split_ifs <;> rfl
    · intro hexit
      split_ifs
      · rfl
      · exact hexit
    · intro hp
      rw [if_pos hp]
  have hwaits : (s.stopObjs p called).waits = s.waits := cancel_of_idle hidle
  refine ⟨?_, ?_, ?_, ?_, ?_, ?_⟩
  · intro i y hy
    obtain ⟨x, hx, hreg, _⟩ := hobjs i y hy
    rw [hreg]
    exact h.known i x hx
  · intro i j y z hy hz hreg
    obtain ⟨x, hx, hyx, _⟩ := hobjs i y hy
    obtain ⟨x', hx', hzx, _⟩ := hobjs j z hz
    exact h.unique i j x x' hx hx' (by rw [← hyx, ← hzx, hreg])
  · intro key o ho
    obtain ⟨hold, hp⟩ := ht key o ho
    obtain ⟨x, hx, hx'⟩ := h.live key o hold
    exact ⟨x, stopObjs_keep called hx hp, hx'⟩
  · intro w hw
    dsimp only at hw
    rw [hwaits] at hw
    obtain ⟨x, hx, hx'⟩ := h.waits w hw
    exact ⟨x, stopObjs_keep called hx (hidle w hw), hx'⟩
  · intro r c hr
    rcases List.mem_append.mp hr with hr | hr
    · obtain ⟨hlt, hall⟩ := h.stopped r c hr
      refine ⟨hlt, ?_⟩
      intro i y hy hreg
      obtain ⟨x, hx, hyx, hexit, _⟩ := hobjs i y hy
      exact hexit (hall i x hx (hyx.symm.trans hreg))
    · obtain ⟨o, x, hp, hx, heq⟩ := mem_stops hr
      cases heq
      refine ⟨(h.known o x hx).2, ?_⟩
      intro i y hy hreg
      obtain ⟨x', hx', hyx, _, hpexit⟩ := hobjs i y hy
      obtain rfl : i = o := h.unique i o x' x hx' hx (hyx.symm.trans hreg)
      exact hpexit hp
  · apply silent_append h.silent
    intro e he r heq
    obtain ⟨o, x, _, _, rfl⟩ := mem_stops he
    cases heq

lemma stopTimer_silenced (h : Silenced s) {key : K} (hidle : StopsIdleTimer s key) (called : Bool) :
    Silenced (s.stopTimer key called) := by
  unfold UserTimer.stopTimer
  cases ho : s.timers key with
  | none => exact h
  | some o =>
    apply stopObjs_silenced h (hidle o ho)
    intro key' i hi
    by_cases hk : key' = key
    · subst hk
      simp at hi
    · rw [Function.update_of_ne hk] at hi
      refine ⟨hi, ?_⟩
      rw [decide_eq_false_iff_not]
      intro hio
      subst hio
      obtain ⟨x, hx, _, hkey⟩ := h.live key i ho
      obtain ⟨x', hx', _, hkey'⟩ := h.live key' i hi
      rw [hx] at hx'
      cases hx'
      exact hk (hkey'.symm.trans hkey)

omit [DecidableEq K] in
lemma stopAllTimers_silenced (h : Silenced s) (hidle : Idle s s.isRegistered) (called : Bool) :
    Silenced (s.stopAllTimers called) := by
  apply stopObjs_silenced h hidle
  intro key o ho
  cases ho

omit [DecidableEq K] in
/-- The task of a timer that has not exited belongs to no stopped registration. -/
lemma callTask_silenced (h : Silenced s) {w : Wait}
    (hw : ∃ x, s.objs w.obj = some x ∧ x.exited = false) : Silenced (s.callTask w) := by
  obtain ⟨x, hx, hexit⟩ := hw
  unfold UserTimer.callTask
  rw [hx]
  refine ⟨h.known, h.unique, h.live, h.waits, ?_, ?_⟩
  · intro r called hr
    rw [List.mem_append, List.mem_singleton] at hr
    rcases hr with hr | hr
    · exact h.stopped r called hr
    · cases hr
  · apply silent_invoke h.silent
    intro called hr
    have hall := (h.stopped x.reg called hr).2 w.obj x hx rfl
    rw [hexit] at hall
    cases hall

omit [DecidableEq K] in
/-- The cycle of an object does not matter. -/
lemma recycle_silenced (h : Silenced s) {o : ℕ} {x : UserTimerObj K T} (hx : s.objs o = some x) (cycle : ℤ) :
    Silenced { s with objs := Function.update s.objs o (some { x with cycle := cycle }) } := by
  have hobjs : ∀ i y, Function.update s.objs o (some { x with cycle := cycle }) i = some y →
      ∃ z, s.objs i = some z ∧ y.reg = z.reg ∧ y.exited = z.exited := by
    intro i y hy
    obtain ⟨rfl, rfl⟩ | ⟨_, hy'⟩ := update_some_cases hy
    · exact ⟨x, hx, rfl, rfl⟩
    · exact ⟨y, hy', rfl, rfl⟩
  have hkeep : ∀ i z, s.objs i = some z → ∃ y,
      Function.update s.objs o (some { x with cycle := cycle }) i = some y ∧ y.exited = z.exited ∧
        y.key = z.key := by
    intro i z hz
    by_cases hi : i = o
    · subst hi
      rw [hx] at hz
      cases hz
      rw [Function.update_self]
      exact ⟨_, rfl, rfl, rfl⟩
    · rw [Function.update_of_ne hi]
      exact ⟨z, hz, rfl, rfl⟩
  refine ⟨?_, ?_, ?_, ?_, ?_, h.silent⟩
  · intro i y hy
    obtain ⟨z, hz, hreg, _⟩ := hobjs i y hy
    rw [hreg]
    exact h.known i z hz
  · intro i j y y' hy hy' hreg
    obtain ⟨z, hz, hyz, _⟩ := hobjs i y hy
    obtain ⟨z', hz', hyz', _⟩ := hobjs j y' hy'
    exact h.unique i j z z' hz hz' (by rw [← hyz, ← hyz', hreg])
  · intro key i hi
    obtain ⟨z, hz, hexit, hkey⟩ := h.live key i hi
    obtain ⟨y, hy, hye, hyk⟩ := hkeep i z hz
    exact ⟨y, hy, hye.trans hexit, hyk.trans hkey⟩
  · intro w hw
    obtain ⟨z, hz, hexit⟩ := h.waits w hw
    obtain ⟨y, hy, hye, _⟩ := hkeep w.obj z hz
    exact ⟨y, hy, hye.trans hexit⟩
  · intro r called hr
    obtain ⟨hlt, hall⟩ := h.stopped r called hr
    refine ⟨hlt, ?_⟩
    intro i y hy hreg
    obtain ⟨z, hz, hyz, hye⟩ := hobjs i y hy
    rw [hye]
    exact hall i z hz (hyz.symm.trans hreg)

lemma handleRest_silenced (h : Silenced s) {w : Wait}
    (hidle : ∀ x, s.objs w.obj = some x → UserTimer.lastCycle w x = true → StopsIdleTimer s x.key) :
    Silenced (s.handleRest w) := by
  unfold UserTimer.handleRest
  cases hx : s.objs w.obj with
  | none => exact h
  | some x =>
    dsimp only
    split_ifs with hlast
    · exact stopTimer_silenced h (hidle x hx hlast) false
    · exact postUserTimers_silenced (recycle_silenced h hx _) _
    · exact postUserTimers_silenced (recycle_silenced h hx _) _

lemma exec_silenced {op : Op K T} (h : Silenced s) (hc : StopsIdle s op) (hs : exec s op = some t) :
    Silenced t := by
  cases op with
  | start key task cycle =>
    simp only [exec] at hs
    split_ifs at hs
    cases hs
    exact startCycleTimer_silenced h key task cycle
  | stopTimer key =>
    cases hs
    exact stopTimer_silenced h hc true
  | stopAllTimers =>
    cases hs
    exact stopAllTimers_silenced h hc true
  | expire i =>
    simp only [exec] at hs
    split at hs
    case h_1 o ho =>
      cases hs
      apply h.of_waits
      intro w hw
      rcases List.mem_or_eq_of_mem_set hw with hw | rfl
      · exact h.waits w hw
      · exact h.waits ⟨o, .armed⟩ (List.mem_of_getElem? ho)
    case h_2 => cases hs
  | complete i =>
    simp only [exec] at hs
    split at hs
    · cases hs
    next w hw =>
      split_ifs at hs
      cases hs
      have herase : Silenced { s with waits := s.waits.eraseIdx i } := by
        apply h.of_waits
        intro w' hw'
        exact h.waits w' (List.mem_of_mem_eraseIdx hw')
      exact callTask_silenced herase (h.waits w (List.mem_of_getElem? hw))
  | finish =>
    simp only [exec] at hs
    split at hs
    · cases hs
    next w hw =>
      cases hs
      have hrun : Silenced { s with running := none } :=
        ⟨h.known, h.unique, h.live, h.waits, h.stopped, h.silent⟩
      apply handleRest_silenced hrun
      intro x hx hlast
      exact hc w x hw hx hlast

/-- In every run whose stops all find no wait outstanding on the timers they stop, no
task is called after the stop of its timer. -/
theorem userTimer_silent (h : Reachable ((timerRuns K T).restrict StopsIdle) s) : Silent s.log := by
  have hinv : Silenced s := by
    apply h.invariant
    · intro a ha
      cases ha
      exact silenced_init
    · intro _ _ _ hi hs
      exact exec_silenced hi hs.1 hs.2
  exact hinv.silent

end Steps

/-- A task that stops its own timer while it is called. -/
theorem userTimer_silent_own_stop :
    ∃ s : UserTimer Unit Unit, Reachable ((timerRuns Unit Unit).restrict StopsIdle) s ∧
      s.log = [.start 0 () () (-1), .invoke 0, .stop 0 true] ∧ Silent s.log := by
  have h0 : Reachable ((timerRuns Unit Unit).restrict StopsIdle) {} := .init rfl
  have h1 := @Reachable.step _ _ _ (Op.start () () (-1)) _ _ h0 ⟨trivial, rfl⟩
  have h2 := @Reachable.step _ _ _ (Op.expire 0) _ _ h1 ⟨trivial, rfl⟩
  have h3 := @Reachable.step _ _ _ (Op.complete 0) _ _ h2 ⟨trivial, rfl⟩
  have h4 := @Reachable.step _ _ _ (Op.stopTimer ()) _ _ h3 ⟨fun _ _ w hw => absurd hw List.not_mem_nil, rfl⟩
  exact ⟨_, h4, rfl, userTimer_silent h4⟩

/-- The task is called for the wait that the stop cancelled. -/
theorem stopped_timer_invoked :
    ∃ s : UserTimer Unit Unit, Reachable (timerRuns Unit Unit) s ∧
      s.log = [.start 0 () () (-1), .stop 0 true, .invoke 0] ∧ ¬ Silent s.log := by
  have h0 : Reachable (timerRuns Unit Unit) {} := .init rfl
  have h1 := @Reachable.step _ _ _ (Op.start () () (-1)) _ _ h0 rfl
  have h2 := @Reachable.step _ _ _ (Op.stopTimer ()) _ _ h1 rfl
  have h3 := @Reachable.step _ _ _ (Op.complete 0) _ _ h2 rfl
  refine ⟨_, h3, rfl, ?_⟩
  intro hsilent
  have hpair := (List.pairwise_cons.mp (List.pairwise_cons.mp hsilent).2).1
  exact hpair (.invoke 0) (List.mem_singleton.mpr rfl) 0 true rfl rfl

end TyphoonZero.UserTimer
