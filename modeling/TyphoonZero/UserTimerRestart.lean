import TyphoonZero.UserTimer

/-! When a start installs exactly its timer: a registered timer keeps its old cycle and
wait, and the late completion of a stopped one stops whatever is under its key. -/
namespace TyphoonZero.UserTimer
open Transition

section Restarts
variable {K T : Type} (s : UserTimer K T)

def isInvoke (r : ℕ) : Event K T → Bool
  | .invoke r' => r' = r
  | _ => false

def invocations (r : ℕ) : ℕ := s.log.countP (isInvoke r)

/-- The task of the registration is being called. -/
def Calling (r : ℕ) : Prop := ∃ w x, s.running = some w ∧ s.objs w.obj = some x ∧ x.reg = r

/-- The key has the task of the start, what is left of its cycle, and a wait that was
not cancelled (or the task is being called). -/
def Installed (r : ℕ) (key : K) (task : T) (cycle : ℤ) : Prop :=
  ∃ o x, s.timers key = some o ∧ s.objs o = some x ∧ x.reg = r ∧ x.key = key ∧ x.task = task ∧
    x.exited = false ∧
    (cycle = kUserTimerCycleForever → x.cycle = kUserTimerCycleForever) ∧
    (cycle ≠ kUserTimerCycleForever → Calling s r → x.cycle + invocations s r = cycle + 1) ∧
    (cycle ≠ kUserTimerCycleForever → ¬ Calling s r → x.cycle + invocations s r = cycle) ∧
    (Calling s r ∨ ∃ w ∈ s.waits, w.obj = o ∧ w.status ≠ .aborted)

/-- A start that nobody stopped is installed until its cycles are used up; then it is
not registered. -/
structure Restarts (r : ℕ) (key : K) (task : T) (cycle : ℤ) : Prop where
  atMost : cycle ≠ kUserTimerCycleForever → (invocations s r : ℤ) ≤ cycle
  installed : cycle = kUserTimerCycleForever ∨ (invocations s r : ℤ) < cycle ∨ Calling s r →
    Installed s r key task cycle
  gone : cycle ≠ kUserTimerCycleForever → invocations s r = cycle → ¬ Calling s r →
    ∀ key' o x, s.timers key' = some o → s.objs o = some x → x.reg ≠ r

/-- All starts that are not stopped do what they should. -/
def AllRestart : Prop :=
  ∀ r key task cycle, .start r key task cycle ∈ s.log → cycle = kUserTimerCycleForever ∨ 1 ≤ cycle →
    .stop r true ∉ s.log → Restarts s r key task cycle

/-- A start finds its key free, and no completion outstanding that will stop the key. -/
def StartsClean : Op K T → Prop
  | .start key _ _ => s.timers key = none ∧
      ∀ w ∈ s.waits, ∀ x, s.objs w.obj = some x → x.key = key → UserTimer.lastCycle w x = false
  | _ => True

def outstanding : List Wait := s.running.toList ++ s.waits

/-- What is left of the cycle of an object. -/
def Remaining (r : ℕ) (cycle left : ℤ) : Prop :=
  cycle = kUserTimerCycleForever ∧ left = kUserTimerCycleForever ∨
    1 ≤ cycle ∧ 1 ≤ left ∧
      left + invocations s r = cycle + (s.running.toList.countP fun w => w.obj = r : ℕ)

/-- What the log tells about the object of a start. -/
structure Counted (r : ℕ) (key : K) (task : T) (cycle : ℤ) (x : UserTimerObj K T) : Prop where
  key : x.key = key
  task : x.task = task
  live : x.exited = false → .stop r true ∉ s.log ∧ Remaining s r cycle x.cycle
  exited : x.exited = true → .stop r true ∈ s.log ∨
    1 ≤ cycle ∧ invocations s r = cycle ∧ ∀ w ∈ outstanding s, w.obj ≠ r

def Event.reg : Event K T → ℕ
  | .start r _ _ _ => r
  | .invoke r => r
  | .stop r _ => r

/-- In runs with clean starts every start makes an object of its own, with one wait
outstanding, and no late completion can stop the key of another. -/
structure Clean : Prop where
  known : ∀ o x, s.objs o = some x → o < s.next ∧ x.reg = o
  regs : s.regs = s.next
  fresh : ∀ e ∈ s.log, e.reg < s.next
  mapped : ∀ key o, s.timers key = some o → ∃ x, s.objs o = some x ∧ x.exited = false ∧ x.key = key
  once : ∀ o, (outstanding s).countP (fun w => w.obj = o) ≤ 1
  registered : ∀ o x, s.objs o = some x → x.exited = false →
    s.timers x.key = some o ∧ ∃ w ∈ outstanding s, w.obj = o
  late : ∀ w ∈ outstanding s, ∃ x, s.objs w.obj = some x ∧ (w.status = .aborted → x.exited = true) ∧
    (x.exited = true → s.timers x.key = none ∨ UserTimer.lastCycle w x = false)
  counted : ∀ r key task cycle, .start r key task cycle ∈ s.log →
    cycle = kUserTimerCycleForever ∨ 1 ≤ cycle → ∃ x, s.objs r = some x ∧ Counted s r key task cycle x

end Restarts

section Result
variable {K T : Type} {s : UserTimer K T}

lemma calling_iff (h : Clean s) (r : ℕ) : Calling s r ↔ ∃ w, s.running = some w ∧ w.obj = r := by
  constructor
  · intro hc
    obtain ⟨w, x, hw, hx, hr⟩ := hc
    exact ⟨w, hw, (h.known w.obj x hx).2.symm.trans hr⟩
  · intro hc
    obtain ⟨w, hw, hr⟩ := hc
    have hmem : w ∈ outstanding s := by simp [outstanding, hw]
    obtain ⟨x, hx, _⟩ := h.late w hmem
    exact ⟨w, x, hw, hx, (h.known w.obj x hx).2.trans hr⟩

lemma countP_running (h : Clean s) (r : ℕ) :
    (Calling s r → (s.running.toList.countP fun w => w.obj = r) = 1) ∧
      (¬ Calling s r → (s.running.toList.countP fun w => w.obj = r) = 0) := by
  rw [calling_iff h]
  cases hw : s.running with
  | none => simp
  | some w => simp

lemma Clean.allRestart (h : Clean s) : AllRestart s := by
  intro r key task cycle hstart hcycle hstop
  have hk : kUserTimerCycleForever = -1 := rfl
  obtain ⟨x, hx, hc⟩ := h.counted r key task cycle hstart hcycle
  obtain ⟨hcall, hnot⟩ := countP_running h r
  have hreg := (h.known r x hx).2
  cases hexit : x.exited with
  | false =>
    obtain ⟨_, hrem⟩ := hc.live hexit
    obtain ⟨hmap, w, hw, hwo⟩ := h.registered r x hx hexit
    have hwait : Calling s r ∨ ∃ w ∈ s.waits, w.obj = r ∧ w.status ≠ .aborted := by
      rcases List.mem_append.mp hw with hw' | hw'
      · left
        rw [calling_iff h]
        exact ⟨w, Option.mem_toList.mp hw', hwo⟩
      · right
        refine ⟨w, hw', hwo, ?_⟩
        intro habort
        obtain ⟨x', hx', hex, _⟩ := h.late w hw
        rw [hwo, hx] at hx'
        cases hx'
        rw [hex habort] at hexit
        cases hexit
    have hinst : Installed s r key task cycle := by
      refine ⟨r, x, hc.key ▸ hmap, hx, hreg, hc.key, hc.task, hexit, ?_, ?_, ?_, hwait⟩
      · intro hf
        rcases hrem with hrem | hrem
        · exact hrem.2
        · omega
      · intro hf hcalling
        have hone := hcall hcalling
        rcases hrem with hrem | hrem
        · exact absurd hrem.1 hf
        · rw [hrem.2.2, hone]
          rfl
      · intro hf hcalling
        have hzero := hnot hcalling
        rcases hrem with hrem | hrem
        · exact absurd hrem.1 hf
        · rw [hrem.2.2, hzero]
          simp
    refine ⟨?_, fun _ => hinst, ?_⟩
    · intro hf
      rcases hrem with hrem | hrem
      · exact absurd hrem.1 hf
      · by_cases hcalling : Calling s r
        · have hone := hcall hcalling
          omega
        · have hzero := hnot hcalling
          omega
    · intro hf hn hcalling
      have hzero := hnot hcalling
      rcases hrem with hrem | hrem
      · exact absurd hrem.1 hf
      · omega
  | true =>
    rcases hc.exited hexit with hstopped | ⟨hpos, hn, hwaits⟩
    · exact absurd hstopped hstop
    have hgone : ∀ key' o x', s.timers key' = some o → s.objs o = some x' → x'.reg ≠ r := by
      intro key' o x' ho hx' hr
      obtain ⟨y, hy, hey, _⟩ := h.mapped key' o ho
      have hor : o = r := (h.known o x' hx').2.symm.trans hr
      subst hor
      rw [hx] at hy
      cases hy
      rw [hexit] at hey
      cases hey
    have hcalling : ¬ Calling s r := by
      rw [calling_iff h]
      intro hc'
      obtain ⟨w, hw, hwr⟩ := hc'
      exact hwaits w (List.mem_append_left _ (Option.mem_toList.mpr hw)) hwr
    refine ⟨fun _ => hn.le, ?_, fun _ _ _ => hgone⟩
    intro hlive
    rcases hlive with hf | hlt | hc'
    · omega
    · omega
    · exact absurd hc' hcalling

end Result

section Steps
variable {K T : Type} {s : UserTimer K T}

lemma clean_init : Clean ({} : UserTimer K T) := by
  refine ⟨?_, rfl, ?_, ?_, fun _ => Nat.zero_le _, ?_, ?_, ?_⟩
  · intro o x h
    cases h
  · intro e h
    cases h
  · intro key o h
    cases h
  · intro o x h
    cases h
  · intro w h
    cases h
  · intro r key task cycle h
    cases h

lemma countP_cancel (p : ℕ → Bool) (waits : List Wait) (o : ℕ) :
    ((cancel p waits).countP fun w => w.obj = o) = waits.countP fun w => w.obj = o := by
  unfold cancel
  rw [List.countP_map]
  congr 1
  funext w
  dsimp only [Function.comp]
  split_ifs <;> rfl

lemma mem_cancel_of_mem {p : ℕ → Bool} {waits : List Wait} {w : Wait} (h : w ∈ waits) :
    ∃ w' ∈ cancel p waits, w'.obj = w.obj := by
  refine ⟨_, List.mem_map_of_mem h, ?_⟩
  split_ifs <;> rfl

lemma Clean.waits_lt (h : Clean s) : ∀ w ∈ s.waits, w.obj < s.next := by
  intro w hw
  obtain ⟨x, hx, _⟩ := h.late w (List.mem_append_right _ hw)
  exact (h.known w.obj x hx).1

/-- The next timer was never called. -/
lemma Clean.invocations_next (h : Clean s) : invocations s s.next = 0 := by
  unfold invocations
  rw [List.countP_eq_zero]
  intro e he hinvoke
  have hlt := h.fresh e he
  cases e with
  | start => cases hinvoke
  | invoke r =>
    have heq : r = s.next := of_decide_eq_true hinvoke
    rw [Event.reg] at hlt
    omega
  | stop => cases hinvoke

/-- Two outstanding waits on one timer are the same one, at the same place. -/
lemma Clean.no_other (h : Clean s) {w : Wait} (hr : s.running = some w) :
    ∀ w' ∈ s.waits, w'.obj ≠ w.obj := by
  intro w' hw' heq
  have honce := h.once w.obj
  rw [outstanding, hr, List.countP_append] at honce
  have hpos : 0 < s.waits.countP fun v => v.obj = w.obj := by
    rw [List.countP_pos_iff]
    exact ⟨w', hw', by simpa using heq⟩
  simp only [Option.toList_some, List.countP_singleton, decide_true, if_true] at honce
  omega

/-- A step that leaves a timer alone: its calls, its stop and what is outstanding on it. -/
lemma Counted.congr {s' : UserTimer K T} {r : ℕ} {key : K} {task : T} {cycle : ℤ}
    {x : UserTimerObj K T} (hc : Counted s r key task cycle x)
    (hstop : .stop r true ∈ s'.log ↔ .stop r true ∈ s.log)
    (hinvoke : invocations s' r = invocations s r)
    (hrun : x.exited = false → (s'.running.toList.countP fun w => w.obj = r) =
      s.running.toList.countP fun w => w.obj = r)
    (hout : ∀ w ∈ outstanding s', w.obj = r → ∃ w' ∈ outstanding s, w'.obj = r) :
    Counted s' r key task cycle x := by
  refine ⟨hc.key, hc.task, ?_, ?_⟩
  · intro hlive
    obtain ⟨hno, hrem⟩ := hc.live hlive
    refine ⟨fun hmem => hno (hstop.mp hmem), ?_⟩
    unfold Remaining at hrem ⊢
    rw [hinvoke, hrun hlive]
    exact hrem
  · intro hexit
    rcases hc.exited hexit with hs | ⟨hpos, hn, hidle⟩
    · exact .inl (hstop.mpr hs)
    · refine .inr ⟨hpos, by rw [hinvoke]; exact hn, ?_⟩
      intro w hw hwr
      obtain ⟨w', hw', hr⟩ := hout w hw hwr
      exact hidle w' hw' hr

/-- After the call for a timer that has exited nothing of it is outstanding. -/
lemma dropRunning_clean (h : Clean s) {w : Wait} {x : UserTimerObj K T} (hr : s.running = some w)
    (hx : s.objs w.obj = some x) (hexit : x.exited = true) : Clean { s with running := none } := by
  have hsub : ∀ v, v ∈ outstanding { s with running := none } → v ∈ outstanding s := by
    intro v hv
    exact List.mem_append_right _ hv
  refine ⟨h.known, h.regs, h.fresh, h.mapped, ?_, ?_, fun v hv => h.late v (hsub v hv), ?_⟩
  · intro o
    have honce := h.once o
    rw [outstanding, List.countP_append] at honce
    exact le_trans (Nat.le_add_left _ _) honce
  · intro o y hy hlive
    obtain ⟨hmap, v, hv, hvo⟩ := h.registered o y hy hlive
    refine ⟨hmap, v, ?_, hvo⟩
    rw [outstanding, hr] at hv
    rcases List.mem_append.mp hv with hv | hv
    · rw [Option.toList_some, List.mem_singleton] at hv
      rw [← hvo, hv, hx] at hy
      cases hy
      rw [hexit] at hlive
      cases hlive
    · exact hv
  · intro r key task cycle hstart hcycle
    obtain ⟨y, hy, hc⟩ := h.counted r key task cycle hstart hcycle
    refine ⟨y, hy, hc.congr Iff.rfl rfl ?_ fun v hv hvr => ⟨v, hsub v hv, hvr⟩⟩
    intro hlive
    have hne : w.obj ≠ r := by
      intro heq
      rw [heq, hy] at hx
      cases hx
      rw [hexit] at hlive
      cases hlive
    simp [hr, hne]

lemma countP_stops (r : ℕ) (p : ℕ → Bool) (called : Bool) : (s.stops p called).countP (isInvoke r) = 0 := by
  rw [List.countP_eq_zero]
  intro e he
  obtain ⟨o, x, _, _, rfl⟩ := mem_stops he
  exact Bool.false_ne_true

/-- A stop of registered timers `p`, which leave the map. The stop of the handler comes
after the call and is for a timer whose cycles are used up. -/
structure Stopping (s : UserTimer K T) (p : ℕ → Bool) (called : Bool) (timers : K → Option ℕ)
    (running : Option Wait) : Prop where
  registered : ∀ o x, p o = true → s.objs o = some x → s.timers x.key = some o
  map : ∀ key o, timers key = some o ↔ s.timers key = some o ∧ p o = false
  call : running = s.running ∨ running = none ∧ ∀ w, s.running = some w → p w.obj = true
  used : called = false → ∀ r key task cycle, p r = true → .start r key task cycle ∈ s.log →
    cycle = kUserTimerCycleForever ∨ 1 ≤ cycle → 1 ≤ cycle ∧ invocations s r = cycle ∧
      ∀ w ∈ running.toList ++ s.waits, w.obj ≠ r

section Stopping
variable {p : ℕ → Bool} {called : Bool} {timers : K → Option ℕ} {running : Option Wait} {r : ℕ}
  {key : K} {task : T} {cycle : ℤ} {x : UserTimerObj K T}

lemma Stopping.mem_running (hs : Stopping s p called timers running) {w : Wait}
    (hw : w ∈ running.toList) : w ∈ s.running.toList := by
  rcases hs.call with hrun | hrun
  · rwa [hrun] at hw
  · rw [hrun.1] at hw
    cases hw

lemma Stopping.countP_running (hs : Stopping s p called timers running) {o : ℕ} (hpo : p o = false) :
    (running.toList.countP fun w => w.obj = o) = s.running.toList.countP fun w => w.obj = o := by
  rcases hs.call with hrun | hrun
  · rw [hrun]
  · rw [hrun.1]
    cases hr : s.running with
    | none => rfl
    | some w =>
      have hne : w.obj ≠ o := by
        intro heq
        have hpw := hrun.2 w hr
        rw [heq, hpo] at hpw
        cases hpw
      simp [hne]

lemma Stopping.timers_none (hs : Stopping s p called timers running) (hkey : s.timers key = none) :
    timers key = none := by
  cases ho : timers key with
  | none => rfl
  | some o =>
    have hold := ((hs.map key o).mp ho).1
    rw [hkey] at hold
    cases hold

/-- What is outstanding after the stop was so before, and is as it was if it is not stopped. -/
lemma Stopping.mem_outstanding (hs : Stopping s p called timers running) {w : Wait}
    (hw : w ∈ running.toList ++ cancel p s.waits) :
    ∃ w' ∈ outstanding s, w'.obj = w.obj ∧ (w = w' ∨ p w.obj = true) := by
  rcases List.mem_append.mp hw with hw | hw
  · exact ⟨w, List.mem_append_left _ (hs.mem_running hw), rfl, .inl rfl⟩
  · obtain ⟨w', hw', hobj, heq⟩ := mem_cancel hw
    exact ⟨w', List.mem_append_right _ hw', hobj, heq.imp_right fun hpw => hpw.1⟩

lemma invocations_stopObjs (r : ℕ) :
    invocations { s.stopObjs p called with timers := timers, running := running } r =
      invocations s r := by
  simp only [invocations, UserTimer.stopObjs, List.countP_append, countP_stops, Nat.add_zero]

lemma mem_log_stopObjs {e : Event K T} (he : e ∈ (s.stopObjs p called).log) :
    e ∈ s.log ∨ ∃ o x, p o = true ∧ s.objs o = some x ∧ e = .stop x.reg called := by
  rcases List.mem_append.mp he with he | he
  · exact .inl he
  · exact .inr (mem_stops he)

/-- What stays registered has its wait still. -/
lemma Stopping.stays (hs : Stopping s p called timers running) (h : Clean s) (hx : s.objs r = some x)
    (hpr : p r = false) (hlive : x.exited = false) :
    timers x.key = some r ∧ ∃ w ∈ running.toList ++ cancel p s.waits, w.obj = r := by
  obtain ⟨hmap, w, hw, hwo⟩ := h.registered r x hx hlive
  refine ⟨(hs.map _ _).mpr ⟨hmap, hpr⟩, ?_⟩
  rcases List.mem_append.mp hw with hw | hw
  · refine ⟨w, List.mem_append_left _ ?_, hwo⟩
    rcases hs.call with hrun | hrun
    · rw [hrun]
      exact hw
    · have hpw := hrun.2 w (Option.mem_toList.mp hw)
      rw [hwo, hpr] at hpw
      cases hpw
  · obtain ⟨w', hw', hobj⟩ := @mem_cancel_of_mem p _ _ hw
    exact ⟨w', List.mem_append_right _ hw', hobj.trans hwo⟩

/-- A late completion stops nothing. -/
lemma Stopping.late (hs : Stopping s p called timers running) (h : Clean s) {w : Wait}
    (hw : w ∈ running.toList ++ cancel p s.waits) :
    ∃ x, (s.stopObjs p called).objs w.obj = some x ∧ (w.status = .aborted → x.exited = true) ∧
      (x.exited = true → timers x.key = none ∨ UserTimer.lastCycle w x = false) := by
  obtain ⟨w', hw', hobj, hcase⟩ := hs.mem_outstanding hw
  obtain ⟨x, hx, habort, hlate⟩ := h.late w' hw'
  rw [hobj] at hx
  cases hpw : p w.obj with
  | true =>
    refine ⟨{ x with exited := true }, by simp [UserTimer.stopObjs, hx, hpw], fun _ => rfl, fun _ => .inl ?_⟩
    cases ho : timers x.key with
    | none => rfl
    | some o =>
      obtain ⟨hold, hpo⟩ := (hs.map _ _).mp ho
      rw [hs.registered w.obj x hpw hx] at hold
      cases hold
      rw [hpw] at hpo
      cases hpo
  | false =>
    have hww : w = w' := by
      rcases hcase with hcase | hcase
      · exact hcase
      · rw [hpw] at hcase
        cases hcase
    subst hww
    exact ⟨x, stopObjs_keep called hx hpw, habort, fun hexit => (hlate hexit).imp_left hs.timers_none⟩

/-- A stopped timer was called as often as it should, or its stop is in the log. -/
lemma Stopping.counted_stopped (hs : Stopping s p called timers running) (h : Clean s)
    (hstart : .start r key task cycle ∈ s.log) (hcycle : cycle = kUserTimerCycleForever ∨ 1 ≤ cycle)
    (hx : s.objs r = some x) (hc : Counted s r key task cycle x) (hpr : p r = true) :
    Counted { s.stopObjs p called with timers := timers, running := running } r key task cycle
      { x with exited := true } := by
  refine ⟨hc.key, hc.task, by simp, ?_⟩
  intro _
  cases called with
  | true =>
    left
    apply List.mem_append_right
    rw [UserTimer.stops, List.mem_filterMap]
    refine ⟨r, List.mem_range.mpr (h.known r x hx).1, ?_⟩
    rw [if_pos hpr, hx, Option.map_some, (h.known r x hx).2]
  | false =>
    right
    obtain ⟨hpos, hn, hwaits⟩ := hs.used rfl r key task cycle hpr hstart hcycle
    refine ⟨hpos, by rw [invocations_stopObjs]; exact hn, ?_⟩
    intro w hw
    rcases List.mem_append.mp hw with hw | hw
    · exact hwaits w (List.mem_append_left _ hw)
    · obtain ⟨w', hw', hobj, _⟩ := mem_cancel hw
      rw [← hobj]
      exact hwaits w' (List.mem_append_right _ hw')

/-- Nothing changes for the others. -/
lemma Stopping.counted_kept (hs : Stopping s p called timers running) (h : Clean s)
    (hc : Counted s r key task cycle x) (hpr : p r = false) :
    Counted { s.stopObjs p called with timers := timers, running := running } r key task cycle x := by
  apply hc.congr
  · constructor
    · intro hmem
      obtain hmem | ⟨o, y, hpo, hy, heq⟩ := mem_log_stopObjs hmem
      · exact hmem
      · cases heq
        rw [(h.known o y hy).2, hpo] at hpr
        cases hpr
    · exact fun hmem => List.mem_append_left _ hmem
  · exact invocations_stopObjs r
  · exact fun _ => hs.countP_running hpr
  · intro w hw hwr
    obtain ⟨w', hw', hobj, _⟩ := hs.mem_outstanding hw
    exact ⟨w', hw', hobj.trans hwr⟩

lemma stopObjs_clean (h : Clean s) (hs : Stopping s p called timers running) :
    Clean { s.stopObjs p called with timers := timers, running := running } := by
  refine ⟨?_, h.regs, ?_, ?_, ?_, ?_, fun w hw => hs.late h hw, ?_⟩
  · intro o y hy
    obtain ⟨x, hx, rfl⟩ := stopObjs_some called hy
    have hknown := h.known o x hx
    split_ifs <;> exact hknown
  · intro e he
    obtain he | ⟨o, x, _, hx, rfl⟩ := mem_log_stopObjs he
    · exact h.fresh e he
    · have hknown := h.known o x hx
      rw [Event.reg, hknown.2]
      exact hknown.1
  · intro key o ho
    obtain ⟨hold, hpo⟩ := (hs.map key o).mp ho
    obtain ⟨x, hx, hx'⟩ := h.mapped key o hold
    exact ⟨x, stopObjs_keep called hx hpo, hx'⟩
  · intro o
    have honce := h.once o
    rw [outstanding, List.countP_append] at honce
    simp only [outstanding, UserTimer.stopObjs, List.countP_append, countP_cancel]
    rcases hs.call with hrun | hrun
    · rw [hrun]
      exact honce
    · rw [hrun.1]
      simp only [Option.toList_none, List.countP_nil]
      omega
  · intro o y hy hlive
    obtain ⟨x, hx, rfl⟩ := stopObjs_some called hy
    cases hpo : p o with
    | true =>
      rw [if_pos hpo] at hlive
      cases hlive
    | false =>
      rw [if_neg (by simp [hpo])] at hlive ⊢
      exact hs.stays h hx hpo hlive
  · intro r key task cycle hstart hcycle
    have hold : .start r key task cycle ∈ s.log := by
      obtain hold | ⟨_, _, _, _, heq⟩ := mem_log_stopObjs hstart
      · exact hold
      · cases heq
    obtain ⟨x, hx, hc⟩ := h.counted r key task cycle hold hcycle
    cases hpr : p r with
    | true =>
      have hexited : (s.stopObjs p called).objs r = some { x with exited := true } := by
        simp [UserTimer.stopObjs, hx, hpr]
      exact ⟨_, hexited, hs.counted_stopped h hold hcycle hx hc hpr⟩
    | false => exact ⟨x, stopObjs_keep called hx hpr, hs.counted_kept h hc hpr⟩

end Stopping

variable [DecidableEq K]

omit [DecidableEq K] in
lemma Clean.timer_reg (h : Clean s) {key key' : K} {o : ℕ} (ho : s.timers key = some o)
    (ho' : s.timers key' = some o) : key = key' := by
  obtain ⟨x, hx, _, hk⟩ := h.mapped key o ho
  obtain ⟨x', hx', _, hk'⟩ := h.mapped key' o ho'
  rw [hx] at hx'
  cases hx'
  exact hk.symm.trans hk'

/-- What is left in the map when one key is erased. -/
lemma update_none_iff (h : Clean s) {key : K} {o : ℕ} (ho : s.timers key = some o) (key' : K) (i : ℕ) :
    Function.update s.timers key none key' = some i ↔ s.timers key' = some i ∧ decide (i = o) = false := by
  by_cases hk : key' = key
  · subst hk
    rw [Function.update_self, ho]
    constructor
    · intro hi
      cases hi
    · intro hi
      have heq := Option.some.inj hi.1
      simp [heq] at hi
  · rw [Function.update_of_ne hk]
    constructor
    · intro hi
      refine ⟨hi, ?_⟩
      rw [decide_eq_false_iff_not]
      intro hio
      subst hio
      exact hk (h.timer_reg hi ho)
    · intro hi
      exact hi.1

lemma stopTimer_clean (h : Clean s) (key : K) : Clean (s.stopTimer key true) := by
  unfold UserTimer.stopTimer
  cases ho : s.timers key with
  | none => exact h
  | some o =>
    apply @stopObjs_clean K T s _ _ _ s.running h
    constructor
    · intro i x hi hx
      obtain rfl := of_decide_eq_true hi
      obtain ⟨x', hx', _, hk⟩ := h.mapped key i ho
      rw [hx] at hx'
      cases hx'
      rw [hk]
      exact ho
    · exact update_none_iff h ho
    · exact .inl rfl
    · intro hfalse
      cases hfalse

omit [DecidableEq K] in
lemma stopAllTimers_clean (h : Clean s) : Clean (s.stopAllTimers true) := by
  have hreg : ∀ i x, s.objs i = some x → (s.isRegistered i = true ↔ s.timers x.key = some i) := by
    intro i x hx
    rw [UserTimer.isRegistered, hx, decide_eq_true_eq]
  apply @stopObjs_clean K T s _ _ _ s.running h
  constructor
  · intro i x hi hx
    exact (hreg i x hx).mp hi
  · intro key i
    constructor
    · intro hi
      cases hi
    · intro hi
      obtain ⟨x, hx, _, hk⟩ := h.mapped key i hi.1
      have hmap : s.timers x.key = some i := by
        rw [hk]
        exact hi.1
      rw [(hreg i x hx).mpr hmap] at hi
      cases hi.2
  · exact .inl rfl
  · intro hfalse
    cases hfalse

/-- A clean start makes a new object with an armed wait. -/
lemma startCycleTimer_eq (h : Clean s) {key : K} (hkey : s.timers key = none) (task : T) (cycle : ℤ) :
    s.startCycleTimer key task cycle = { s with
      timers := Function.update s.timers key (some s.next)
      objs := Function.update s.objs s.next (some { key := key, task := task, cycle := cycle, reg := s.next })
      next := s.next + 1
      waits := s.waits ++ [⟨s.next, .armed⟩]
      regs := s.regs + 1
      log := s.log ++ [Event.start s.next key task cycle] } := by
  have hidle : cancel (· = s.next) s.waits = s.waits := by
    apply cancel_of_idle
    intro w hw
    have hlt := h.waits_lt w hw
    rw [decide_eq_false_iff_not]
    omega
  have hregister : s.register key task cycle = (s.next, { s with
      timers := Function.update s.timers key (some s.next)
      objs := Function.update s.objs s.next (some { key := key, task := task, cycle := cycle, reg := s.regs })
      next := s.next + 1 }) := by
    rw [UserTimer.register, hkey]
  rw [UserTimer.startCycleTimer, hregister]
  dsimp only
  rw [UserTimer.postUserTimers]
  dsimp only
  rw [Function.update_self]
  dsimp only
  rw [if_neg Bool.false_ne_true, hidle, h.regs]

lemma start_clean (h : Clean s) (hrun : s.running = none) {key : K} {task : T} {cycle : ℤ}
    (hc : StartsClean s (.start key task cycle)) : Clean (s.startCycleTimer key task cycle) := by
  obtain ⟨hkey, hlate⟩ := hc
  rw [startCycleTimer_eq h hkey]
  have hobjs : ∀ i y, Function.update s.objs s.next
        (some { key := key, task := task, cycle := cycle, reg := s.next }) i = some y →
      i = s.next ∧ y = { key := key, task := task, cycle := cycle, reg := s.next } ∨
        i ≠ s.next ∧ s.objs i = some y := by
    intro i y hy
    exact update_some_cases hy
  have hkeep : ∀ i y, s.objs i = some y → Function.update s.objs s.next
      (some { key := key, task := task, cycle := cycle, reg := s.next }) i = some y := by
    intro i y hy
    have hlt := (h.known i y hy).1
    rw [Function.update_of_ne (by omega)]
    exact hy
  have hout : outstanding s = s.waits := by rw [outstanding, hrun, Option.toList_none, List.nil_append]
  refine ⟨?_, by simp only [h.regs], ?_, ?_, ?_, ?_, ?_, ?_⟩
  · intro i y hy
    obtain ⟨rfl, rfl⟩ | ⟨_, hy'⟩ := hobjs i y hy
    · exact ⟨Nat.lt_succ_self _, rfl⟩
    · have hknown := h.known i y hy'
      exact ⟨Nat.lt_succ_of_lt hknown.1, hknown.2⟩
  · intro e he
    rw [List.mem_append, List.mem_singleton] at he
    rcases he with he | rfl
    · exact Nat.lt_succ_of_lt (h.fresh e he)
    · exact Nat.lt_succ_self _
  · intro key' i hi
    dsimp only at hi
    by_cases hk : key' = key
    · subst hk
      rw [Function.update_self] at hi
      cases hi
      exact ⟨_, Function.update_self _ _ _, rfl, rfl⟩
    · rw [Function.update_of_ne hk] at hi
      obtain ⟨y, hy, hy'⟩ := h.mapped key' i hi
      exact ⟨y, hkeep i y hy, hy'⟩
  · intro i
    have honce := h.once i
    rw [hout] at honce
    simp only [outstanding, hrun, Option.toList_none, List.nil_append, List.countP_append]
    by_cases hi : i = s.next
    · subst hi
      have hzero : (s.waits.countP fun w => w.obj = s.next) = 0 := by
        rw [List.countP_eq_zero]
        intro w hw heq
        have hlt := h.waits_lt w hw
        have hobj := of_decide_eq_true heq
        omega
      rw [hzero]
      simp
    · have hone : ([⟨s.next, .armed⟩] : List Wait).countP (fun w => w.obj = i) = 0 := by
        simp [Ne.symm hi]
      rw [hone]
      exact honce
  · intro i y hy hlive
    obtain ⟨rfl, rfl⟩ | ⟨hi, hy'⟩ := hobjs i y hy
    · refine ⟨Function.update_self _ _ _, ⟨s.next, .armed⟩, ?_, rfl⟩
      simp [outstanding]
    · obtain ⟨hmap, w, hw, hwo⟩ := h.registered i y hy' hlive
      have hne : y.key ≠ key := by
        intro heq
        rw [heq, hkey] at hmap
        cases hmap
      refine ⟨(Function.update_of_ne hne _ _).trans hmap, w, ?_, hwo⟩
      rw [hout] at hw
      simp [outstanding, hw]
  · intro w hw
    have hcase : w ∈ s.waits ∨ w = ⟨s.next, .armed⟩ := by simpa [outstanding, hrun] using hw
    rcases hcase with hw' | rfl
    · obtain ⟨x, hx, habort, hx'⟩ := h.late w (List.mem_append_right _ hw')
      refine ⟨x, hkeep w.obj x hx, habort, ?_⟩
      intro hexit
      by_cases hk : x.key = key
      · exact .inr (hlate w hw' x hx hk)
      · rcases hx' hexit with hnone | hlast
        · exact .inl ((Function.update_of_ne hk _ _).trans hnone)
        · exact .inr hlast
    · exact ⟨_, Function.update_self _ _ _, nofun, nofun⟩
  · intro r key' task' cycle' hstart hcycle
    rw [List.mem_append, List.mem_singleton] at hstart
    rcases hstart with hold | hnew'
    · obtain ⟨x, hx, hc⟩ := h.counted r key' task' cycle' hold hcycle
      have hr := (h.known r x hx).1
      refine ⟨x, hkeep r x hx, ?_⟩
      apply hc.congr
      · simp
      · simp [invocations, isInvoke]
      · exact fun _ => rfl
      · intro w hw hwr
        have hcase : w ∈ s.waits ∨ w = ⟨s.next, .armed⟩ := by simpa [outstanding, hrun] using hw
        rcases hcase with hw' | rfl
        · exact ⟨w, List.mem_append_right _ hw', hwr⟩
        · dsimp only at hwr
          omega
    · cases hnew'
      refine ⟨_, Function.update_self _ _ _, rfl, rfl, ?_, nofun⟩
      intro _
      refine ⟨?_, ?_⟩
      · intro hstop
        rw [List.mem_append, List.mem_singleton] at hstop
        rcases hstop with hstop | hstop
        · exact absurd (h.fresh _ hstop) (lt_irrefl _)
        · cases hstop
      · have hzero := h.invocations_next
        rcases hcycle with hf | hpos
        · exact .inl ⟨hf, hf⟩
        · refine .inr ⟨hpos, hpos, ?_⟩
          simp only [invocations, List.countP_append] at hzero ⊢
          simp [isInvoke, hzero, hrun]

lemma countP_obj (waits : List Wait) (o : ℕ) :
    (waits.countP fun w => w.obj = o) = (waits.map Wait.obj).countP (· = o) := by
  rw [List.countP_map]
  rfl

omit [DecidableEq K] in
/-- A wait expires: what is outstanding on each timer stays the same. -/
lemma expire_clean (h : Clean s) {i o : ℕ} (hi : s.waits[i]? = some ⟨o, .armed⟩) :
    Clean { s with waits := s.waits.set i ⟨o, .expired⟩ } := by
  have hobj : (s.waits.set i ⟨o, .expired⟩).map Wait.obj = s.waits.map Wait.obj := by
    obtain ⟨hlt, heq⟩ := List.getElem?_eq_some_iff.mp hi
    have hlt' : i < (s.waits.map Wait.obj).length := by simpa using hlt
    have hsame : Wait.obj ⟨o, .expired⟩ = (s.waits.map Wait.obj)[i] := by
      rw [List.getElem_map, heq]
    rw [List.map_set, hsame, List.set_getElem_self]
  have hmem : ∀ w ∈ s.waits.set i ⟨o, .expired⟩, ∃ w' ∈ s.waits, w'.obj = w.obj ∧
      (w.status = .aborted → w'.status = .aborted) ∧
      ∀ x : UserTimerObj K T, UserTimer.lastCycle w' x = false → UserTimer.lastCycle w x = false := by
    intro w hw
    rcases List.mem_or_eq_of_mem_set hw with hw | rfl
    · exact ⟨w, hw, rfl, id, fun _ hx => hx⟩
    · exact ⟨⟨o, .armed⟩, List.mem_of_getElem? hi, rfl, nofun, fun _ hx => hx⟩
  have hlift : ∀ w ∈ s.waits, ∃ w' ∈ s.waits.set i ⟨o, .expired⟩, w'.obj = w.obj := by
    intro w hw
    have hin : w.obj ∈ (s.waits.set i ⟨o, .expired⟩).map Wait.obj := by
      rw [hobj]
      exact List.mem_map_of_mem hw
    exact List.mem_map.mp hin
  refine ⟨h.known, h.regs, h.fresh, h.mapped, ?_, ?_, ?_, ?_⟩
  · intro o'
    have honce := h.once o'
    simp only [outstanding, List.countP_append] at honce ⊢
    rw [countP_obj (s.waits.set _ _), hobj, ← countP_obj]
    exact honce
  · intro o' x hx hlive
    obtain ⟨hmap, w, hw, hwo⟩ := h.registered o' x hx hlive
    refine ⟨hmap, ?_⟩
    rcases List.mem_append.mp hw with hw | hw
    · exact ⟨w, List.mem_append_left _ hw, hwo⟩
    · obtain ⟨w', hw', heq⟩ := hlift w hw
      exact ⟨w', List.mem_append_right _ hw', heq.trans hwo⟩
  · intro w hw
    rcases List.mem_append.mp hw with hw | hw
    · exact h.late w (List.mem_append_left _ hw)
    · obtain ⟨w', hw', heq, habort, hlast⟩ := hmem w hw
      obtain ⟨x, hx, hab, hl⟩ := h.late w' (List.mem_append_right _ hw')
      rw [heq] at hx
      exact ⟨x, hx, fun ha => hab (habort ha), fun he => (hl he).imp_right (hlast x)⟩
  · intro r key task cycle hstart hcycle
    obtain ⟨x, hx, hc⟩ := h.counted r key task cycle hstart hcycle
    refine ⟨x, hx, ?_⟩
    apply hc.congr
    · rfl
    · rfl
    · exact fun _ => rfl
    · intro w hw hwr
      rcases List.mem_append.mp hw with hw | hw
      · exact ⟨w, List.mem_append_left _ hw, hwr⟩
      · obtain ⟨w', hw', heq, _⟩ := hmem w hw
        exact ⟨w', List.mem_append_right _ hw', heq.trans hwr⟩

omit [DecidableEq K] in
/-- A completion begins: its wait stays the one outstanding, and its task is counted. -/
lemma complete_clean (h : Clean s) (hrun : s.running = none) {i : ℕ} {w : Wait}
    (hi : s.waits[i]? = some w) : Clean (({ s with waits := s.waits.eraseIdx i } : UserTimer K T).callTask w) := by
  obtain ⟨hlt, heq⟩ := List.getElem?_eq_some_iff.mp hi
  have hperm : (w :: s.waits.eraseIdx i).Perm s.waits := by
    rw [← heq]
    exact List.getElem_cons_eraseIdx_perm hlt
  have hout : outstanding s = s.waits := by rw [outstanding, hrun, Option.toList_none, List.nil_append]
  have hw : w ∈ outstanding s := by
    rw [hout]
    exact List.mem_of_getElem? hi
  obtain ⟨x, hx, _⟩ := h.late w hw
  have hreg := (h.known w.obj x hx).2
  have hcall : ({ s with waits := s.waits.eraseIdx i } : UserTimer K T).callTask w = { s with
      waits := s.waits.eraseIdx i, running := some w, log := s.log ++ [.invoke w.obj] } := by
    simp [UserTimer.callTask, hx, hreg]
  rw [hcall]
  have hmem : ∀ v, v ∈ w :: s.waits.eraseIdx i ↔ v ∈ outstanding s := by
    intro v
    rw [hout, hperm.mem_iff]
  refine ⟨h.known, h.regs, ?_, h.mapped, ?_, ?_, fun v hv => h.late v ((hmem v).mp hv), ?_⟩
  · intro e he
    rw [List.mem_append, List.mem_singleton] at he
    rcases he with he | rfl
    · exact h.fresh e he
    · exact (h.known w.obj x hx).1
  · intro o
    have honce := h.once o
    rw [hout, ← hperm.countP_eq] at honce
    exact honce
  · intro o y hy hlive
    obtain ⟨hmap, v, hv, hvo⟩ := h.registered o y hy hlive
    exact ⟨hmap, v, (hmem v).mpr hv, hvo⟩
  · intro r key task cycle hstart hcycle
    have hold : .start r key task cycle ∈ s.log := by simpa using hstart
    obtain ⟨y, hy, hc⟩ := h.counted r key task cycle hold hcycle
    refine ⟨y, hy, hc.key, hc.task, ?_, ?_⟩
    · intro hlive
      obtain ⟨hstop, hrem⟩ := hc.live hlive
      refine ⟨by simpa using hstop, ?_⟩
      rcases hrem with hrem | ⟨hpos, hleft, hsum⟩
      · exact .inl hrem
      · refine .inr ⟨hpos, hleft, ?_⟩
        rw [hrun] at hsum
        by_cases hwr : w.obj = r
        · simp only [invocations, List.countP_append] at hsum ⊢
          simp [isInvoke, hwr] at hsum ⊢
          omega
        · simp only [invocations, List.countP_append] at hsum ⊢
          simp [isInvoke, hwr] at hsum ⊢
          omega
    · intro hexit
      rcases hc.exited hexit with hstop | ⟨hpos, hn, hwaits⟩
      · exact .inl (List.mem_append_left _ hstop)
      · refine .inr ⟨hpos, ?_, fun v hv => hwaits v ((hmem v).mp hv)⟩
        have hwr : w.obj ≠ r := hwaits w hw
        simp only [invocations, List.countP_append] at hn ⊢
        simp [isInvoke, hwr]
        exact hn

omit [DecidableEq K] in
/-- The cycle of a timer that has exited and has nothing outstanding does not matter. -/
lemma recycle_clean (h : Clean s) {o : ℕ} {x : UserTimerObj K T} (hx : s.objs o = some x)
    (hexit : x.exited = true) (hidle : ∀ w ∈ outstanding s, w.obj ≠ o) (cycle : ℤ) :
    Clean { s with objs := Function.update s.objs o (some { x with cycle := cycle }) } := by
  have hobjs : ∀ i y, Function.update s.objs o (some { x with cycle := cycle }) i = some y →
      i = o ∧ y = { x with cycle := cycle } ∨ i ≠ o ∧ s.objs i = some y := by
    intro i y hy
    exact update_some_cases hy
  have hne : ∀ i y, s.objs i = some y → y.exited = false → i ≠ o := by
    intro i y hy hlive hi
    rw [hi, hx] at hy
    cases hy
    rw [hexit] at hlive
    cases hlive
  refine ⟨?_, h.regs, h.fresh, ?_, h.once, ?_, ?_, ?_⟩
  · intro i y hy
    obtain ⟨rfl, rfl⟩ | ⟨_, hy'⟩ := hobjs i y hy
    · exact h.known i x hx
    · exact h.known i y hy'
  · intro key i hi
    obtain ⟨y, hy, hlive, hk⟩ := h.mapped key i hi
    exact ⟨y, (Function.update_of_ne (hne i y hy hlive) _ _).trans hy, hlive, hk⟩
  · intro i y hy hlive
    obtain ⟨rfl, rfl⟩ | ⟨_, hy'⟩ := hobjs i y hy
    · rw [hexit] at hlive
      cases hlive
    · exact h.registered i y hy' hlive
  · intro w hw
    obtain ⟨y, hy, hy'⟩ := h.late w hw
    exact ⟨y, (Function.update_of_ne (hidle w hw) _ _).trans hy, hy'⟩
  · intro r key task c hstart hc
    obtain ⟨y, hy, hcount⟩ := h.counted r key task c hstart hc
    by_cases hr : r = o
    · subst hr
      rw [hx] at hy
      cases hy
      refine ⟨_, Function.update_self _ _ _, hcount.key, hcount.task, ?_, hcount.exited⟩
      intro hlive
      rw [hexit] at hlive
      cases hlive
    · exact ⟨y, (Function.update_of_ne hr _ _).trans hy, hcount.key, hcount.task, hcount.live, hcount.exited⟩

omit [DecidableEq K] in
/-- A timer that goes on: one cycle less, and a new wait in place of the finished call. -/
lemma rearm_clean (h : Clean s) {w : Wait} (hw : s.running = some w) {x : UserTimerObj K T}
    (hx : s.objs w.obj = some x) (hlive : x.exited = false) (hlast : UserTimer.lastCycle w x = false) :
    Clean { s with
      running := none
      objs := Function.update s.objs w.obj
        (some { x with cycle := if x.cycle ≠ kUserTimerCycleForever then x.cycle - 1 else x.cycle })
      waits := s.waits ++ [⟨w.obj, .armed⟩] } := by
  have hk : kUserTimerCycleForever = -1 := rfl
  have hother := h.no_other hw
  have hobjs : ∀ i y, Function.update s.objs w.obj
        (some { x with cycle := if x.cycle ≠ kUserTimerCycleForever then x.cycle - 1 else x.cycle }) i = some y →
      i = w.obj ∧ y = { x with cycle := if x.cycle ≠ kUserTimerCycleForever then x.cycle - 1 else x.cycle } ∨
        i ≠ w.obj ∧ s.objs i = some y := by
    intro i y hy
    exact update_some_cases hy
  have hout : outstanding s = w :: s.waits := by rw [outstanding, hw]; rfl
  obtain ⟨hmap, _⟩ := h.registered w.obj x hx hlive
  refine ⟨?_, h.regs, h.fresh, ?_, ?_, ?_, ?_, ?_⟩
  · intro i y hy
    obtain ⟨rfl, rfl⟩ | ⟨_, hy'⟩ := hobjs i y hy
    · exact h.known w.obj x hx
    · exact h.known i y hy'
  · intro key i hi
    obtain ⟨y, hy, hly, hky⟩ := h.mapped key i hi
    by_cases hio : i = w.obj
    · subst hio
      rw [hx] at hy
      cases hy
      exact ⟨_, Function.update_self _ _ _, hly, hky⟩
    · exact ⟨y, (Function.update_of_ne hio _ _).trans hy, hly, hky⟩
  · intro o
    have honce := h.once o
    rw [hout, List.countP_cons] at honce
    simp only [outstanding, Option.toList_none, List.nil_append, List.countP_append, List.countP_singleton]
    exact honce
  · intro i y hy hly
    obtain ⟨rfl, rfl⟩ | ⟨hi, hy'⟩ := hobjs i y hy
    · refine ⟨hmap, ⟨w.obj, .armed⟩, ?_, rfl⟩
      simp [outstanding]
    · obtain ⟨hmy, v, hv, hvo⟩ := h.registered i y hy' hly
      refine ⟨hmy, v, ?_, hvo⟩
      rw [hout, List.mem_cons] at hv
      rcases hv with rfl | hv
      · exact absurd hvo.symm hi
      · simp [outstanding, hv]
  · intro v hv
    have hcase : v ∈ s.waits ∨ v = ⟨w.obj, .armed⟩ := by simpa [outstanding] using hv
    rcases hcase with hv | rfl
    · obtain ⟨y, hy, hy'⟩ := h.late v (List.mem_append_right _ hv)
      exact ⟨y, (Function.update_of_ne (hother v hv) _ _).trans hy, hy'⟩
    · refine ⟨_, Function.update_self _ _ _, nofun, ?_⟩
      intro hexit
      rw [show x.exited = true from hexit] at hlive
      cases hlive
  · intro r key task c hstart hc
    obtain ⟨y, hy, hcount⟩ := h.counted r key task c hstart hc
    by_cases hr : r = w.obj
    · subst hr
      rw [hx] at hy
      cases hy
      refine ⟨_, Function.update_self _ _ _, hcount.key, hcount.task, ?_, ?_⟩
      · intro _
        obtain ⟨hstop, hrem⟩ := hcount.live hlive
        refine ⟨hstop, ?_⟩
        rcases hrem with ⟨hf, hxf⟩ | ⟨hpos, hleft, hsum⟩
        · exact .inl ⟨hf, by rw [if_neg (by simp [hxf])]; exact hxf⟩
        · have hne : x.cycle ≠ kUserTimerCycleForever := by omega
          have hgt : ¬ x.cycle ≤ 1 := by
            intro hle
            simp [UserTimer.lastCycle, hne, hle] at hlast
          rw [if_pos hne]
          have hleft' : 1 ≤ x.cycle - 1 := by omega
          refine .inr ⟨hpos, hleft', ?_⟩
          rw [hw] at hsum
          simp only [Option.toList_some, List.countP_singleton, decide_true, if_true] at hsum
          simp only [Option.toList_none, List.countP_nil]
          have hsame : invocations s w.obj = s.log.countP (isInvoke w.obj) := rfl
          rw [hsame] at hsum
          simp only [invocations]
          omega
      · intro hexit
        rw [show x.exited = true from hexit] at hlive
        cases hlive
    · have hwr : w.obj ≠ r := Ne.symm hr
      refine ⟨y, (Function.update_of_ne hr _ _).trans hy, ?_⟩
      apply hcount.congr
      · rfl
      · rfl
      · intro _
        simp [hw, hwr]
      · intro v hv hvr
        have hcase : v ∈ s.waits ∨ v = ⟨w.obj, .armed⟩ := by simpa [outstanding] using hv
        rcases hcase with hv | rfl
        · exact ⟨v, List.mem_append_right _ hv, hvr⟩
        · exact absurd hvr hwr

/-- The rest of the handler: the timer is stopped when its cycles are used up, and
nothing happens to a key whose timer has exited. -/
lemma finish_clean (h : Clean s) {w : Wait} (hw : s.running = some w) :
    Clean (({ s with running := none } : UserTimer K T).handleRest w) := by
  have hk : kUserTimerCycleForever = -1 := rfl
  obtain ⟨x, hx, habort, hlate⟩ := h.late w (List.mem_append_left _ (Option.mem_toList.mpr hw))
  have hother := h.no_other hw
  unfold UserTimer.handleRest
  dsimp only
  rw [hx]
  dsimp only
  rcases Bool.eq_false_or_eq_true x.exited with hexit | hexit
  · have hdrop := dropRunning_clean h hw hx hexit
    cases hlast : UserTimer.lastCycle w x with
    | true =>
      rw [if_pos rfl]
      have hnone : s.timers x.key = none := by
        rcases hlate hexit with hnone | hfalse
        · exact hnone
        · rw [hlast] at hfalse
          cases hfalse
      rw [UserTimer.stopTimer, hnone]
      exact hdrop
    | false =>
      rw [if_neg Bool.false_ne_true, UserTimer.postUserTimers]
      dsimp only
      rw [Function.update_self]
      dsimp only
      rw [if_pos hexit]
      exact recycle_clean hdrop hx hexit (fun v hv => hother v (by simpa [outstanding] using hv)) _
  · obtain ⟨hmap, _⟩ := h.registered w.obj x hx hexit
    cases hlast : UserTimer.lastCycle w x with
    | true =>
      rw [if_pos rfl, UserTimer.stopTimer]
      dsimp only
      rw [hmap]
      apply @stopObjs_clean K T s _ _ _ none h
      constructor
      · intro i y hi hy
        obtain rfl := of_decide_eq_true hi
        rw [hx] at hy
        cases hy
        exact hmap
      · exact update_none_iff h hmap
      · refine .inr ⟨rfl, ?_⟩
        intro v hv
        rw [hw] at hv
        cases hv
        exact decide_eq_true rfl
      · intro _ r key task cycle hr hstart hcycle
        obtain rfl := of_decide_eq_true hr
        obtain ⟨y, hy, hcount⟩ := h.counted w.obj key task cycle hstart hcycle
        rw [hx] at hy
        cases hy
        have hnot : w.status ≠ .aborted := by
          intro ha
          rw [habort ha] at hexit
          cases hexit
        have hle : x.cycle ≠ kUserTimerCycleForever ∧ x.cycle ≤ 1 := by
          simpa [UserTimer.lastCycle, hnot] using hlast
        rcases (hcount.live hexit).2 with hf | ⟨hpos, hleft, hsum⟩
        · exact absurd hf.2 hle.1
        · rw [hw] at hsum
          simp only [Option.toList_some, List.countP_singleton, decide_true, if_true] at hsum
          exact ⟨hpos, by omega, fun v hv => hother v (by simpa using hv)⟩
    | false =>
      have hidle : cancel (· = w.obj) s.waits = s.waits := by
        apply cancel_of_idle
        intro v hv
        rw [decide_eq_false_iff_not]
        exact hother v hv
      rw [if_neg Bool.false_ne_true, UserTimer.postUserTimers]
      dsimp only
      rw [Function.update_self]
      dsimp only
      rw [if_neg (by rw [hexit]; exact Bool.false_ne_true), hidle]
      exact rearm_clean h hw hx hexit hlast

lemma exec_clean {t : UserTimer K T} {op : Op K T} (h : Clean s) (hc : StartsClean s op)
    (hs : exec s op = some t) : Clean t := by
  cases op with
  | start key task cycle =>
    simp only [exec] at hs
    split_ifs at hs with hrun
    cases hs
    exact start_clean h hrun hc
  | stopTimer key =>
    cases hs
    exact stopTimer_clean h key
  | stopAllTimers =>
    cases hs
    exact stopAllTimers_clean h
  | expire i =>
    simp only [exec] at hs
    split at hs
    case h_1 o ho =>
      cases hs
      exact expire_clean h ho
    case h_2 => cases hs
  | complete i =>
    simp only [exec] at hs
    split at hs
    · cases hs
    next w hw =>
      split_ifs at hs with hrun
      cases hs
      exact complete_clean h hrun.1 hw
  | finish =>
    simp only [exec] at hs
    split at hs
    · cases hs
    next w hw =>
      cases hs
      exact finish_clean h hw

/-- In every run whose starts all find their key free and no completion outstanding
that will stop it, each start installs exactly its timer. -/
theorem userTimer_restarts (h : Reachable ((timerRuns K T).restrict StartsClean) s) : AllRestart s := by
  have hclean : Clean s := by
    apply h.invariant
    · intro a ha
      cases ha
      exact clean_init
    · intro _ _ _ hi hs
      exact exec_clean hi hs.1 hs.2
  exact hclean.allRestart

end Steps

/-- A key that was stopped, whose cancelled wait has completed, is started for one cycle. -/
theorem userTimer_restarts_one_cycle :
    ∃ s : UserTimer Unit Bool, s.log = [.start 0 () false (-1), .stop 0 true, .invoke 0,
      .start 1 () true 1, .invoke 1, .stop 1 false] ∧ s.timers () = none ∧ AllRestart s := by
  have h0 : Reachable ((timerRuns Unit Bool).restrict StartsClean) {} := .init rfl
  have h1 := @Reachable.step _ _ _ (Op.start () false (-1)) _ _ h0
    ⟨⟨rfl, fun w hw => absurd hw List.not_mem_nil⟩, rfl⟩
  have h2 := @Reachable.step _ _ _ (Op.stopTimer ()) _ _ h1 ⟨trivial, rfl⟩
  have h3 := @Reachable.step _ _ _ (Op.complete 0) _ _ h2 ⟨trivial, rfl⟩
  have h4 := @Reachable.step _ _ _ Op.finish _ _ h3 ⟨trivial, rfl⟩
  have h5 := @Reachable.step _ _ _ (Op.start () true 1) _ _ h4
    ⟨⟨rfl, fun w hw => absurd hw List.not_mem_nil⟩, rfl⟩
  have h6 := @Reachable.step _ _ _ (Op.expire 0) _ _ h5 ⟨trivial, rfl⟩
  have h7 := @Reachable.step _ _ _ (Op.complete 0) _ _ h6 ⟨trivial, rfl⟩
  have h8 := @Reachable.step _ _ _ Op.finish _ _ h7 ⟨trivial, rfl⟩
  exact ⟨_, rfl, rfl, userTimer_restarts h8⟩

/-- The cancelled wait of the stopped timer completes after the restart: its handler
takes the new timer out of the map. -/
theorem late_abort_unregisters :
    ∃ s : UserTimer Unit Bool, Reachable (timerRuns Unit Bool) s ∧
      s.log = [.start 0 () false (-1), .stop 0 true, .start 1 () true (-1), .invoke 0, .stop 1 false] ∧
      s.timers () = none ∧ ¬ AllRestart s := by
  have h0 : Reachable (timerRuns Unit Bool) {} := .init rfl
  have h1 := @Reachable.step _ _ _ (Op.start () false (-1)) _ _ h0 rfl
  have h2 := @Reachable.step _ _ _ (Op.stopTimer ()) _ _ h1 rfl
  have h3 := @Reachable.step _ _ _ (Op.start () true (-1)) _ _ h2 rfl
  have h4 := @Reachable.step _ _ _ (Op.complete 0) _ _ h3 rfl
  have h5 := @Reachable.step _ _ _ Op.finish _ _ h4 rfl
  refine ⟨_, h5, rfl, rfl, ?_⟩
  intro hall
  have hstart := hall 1 () true (-1) (.tail _ (.tail _ (.head _))) (.inl rfl) (by
    intro hstop
    cases hstop with
    | tail _ h => cases h with
      | tail _ h => cases h with
        | tail _ h => cases h with
          | tail _ h => cases h with
            | tail _ h => cases h)
  obtain ⟨o, x, hmap, _⟩ := hstart.installed (.inl rfl)
  cases hmap

end TyphoonZero.UserTimer
