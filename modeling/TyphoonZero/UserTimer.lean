import TyphoonZero.Transition

/-! User timers on one strand: timer objects in a map under their keys, the waits that
are outstanding on them, and the handler that calls the task of a completed wait. -/
namespace TyphoonZero.UserTimer
open Transition

abbrev kUserTimerCycleForever : ℤ := -1

/-- `reg` numbers the start that gave the object its task. -/
structure UserTimerObj (K T : Type) where
  key : K
  task : T
  cycle : ℤ
  exited : Bool := false
  reg : ℕ

/-- A wait is pending, or its completion is queued: on time, or because it was cancelled
(`operation_aborted`). -/
inductive Status
  | armed
  | expired
  | aborted
  deriving DecidableEq

structure Wait where
  obj : ℕ
  status : Status
  deriving DecidableEq

/-- A stop is one that somebody called for, or the one of the handler. -/
inductive Event (K T : Type)
  | start (reg : ℕ) (key : K) (task : T) (cycle : ℤ)
  | invoke (reg : ℕ)
  | stop (reg : ℕ) (called : Bool)

/-- `running` is the completion whose task is being called. Objects are never freed here:
`next` is the next one, `regs` the number of starts. -/
structure UserTimer (K T : Type) where
  timers : K → Option ℕ := fun _ => none
  objs : ℕ → Option (UserTimerObj K T) := fun _ => none
  next : ℕ := 0
  waits : List Wait := []
  running : Option Wait := none
  regs : ℕ := 0
  log : List (Event K T) := []

/-- `cancel` of the timers `p`; completions that are queued already stay as they are. -/
def cancel (p : ℕ → Bool) (waits : List Wait) : List Wait :=
  waits.map fun w => if p w.obj ∧ w.status = .armed then { w with status := .aborted } else w

namespace UserTimer
variable {K T : Type} [DecidableEq K] (s : UserTimer K T)

/-- `expires_after` cancels what is pending on the timer. -/
def postUserTimers (o : ℕ) : UserTimer K T :=
  match s.objs o with
  | none => s
  | some x => if x.exited then s else { s with waits := cancel (· = o) s.waits ++ [⟨o, .armed⟩] }

/-- The object that `StartCycleTimer` finds or makes; a registered one keeps its cycle. -/
def register (key : K) (task : T) (cycle : ℤ) : ℕ × UserTimer K T :=
  match s.timers key with
  | some o =>
    (o, { s with objs := Function.update s.objs o ((s.objs o).map fun x => { x with task := task, reg := s.regs }) })
  | none =>
    (s.next, { s with
      timers := Function.update s.timers key (some s.next)
      objs := Function.update s.objs s.next (some { key := key, task := task, cycle := cycle, reg := s.regs })
      next := s.next + 1 })

/-- The posted part of `StartCycleTimer`. -/
def startCycleTimer (key : K) (task : T) (cycle : ℤ) : UserTimer K T :=
  let (o, t) := s.register key task cycle
  ({ t with regs := s.regs + 1, log := s.log ++ [Event.start s.regs key task cycle] } : UserTimer K T).postUserTimers o

def startTimer (key : K) (task : T) : UserTimer K T := s.startCycleTimer key task kUserTimerCycleForever

def stops (p : ℕ → Bool) (called : Bool) : List (Event K T) :=
  (List.range s.next).filterMap fun o =>
    if p o then (s.objs o).map fun x => Event.stop x.reg called else none

/-- The objects `p` exit and their waits are cancelled. -/
def stopObjs (p : ℕ → Bool) (called : Bool) : UserTimer K T :=
  { s with
    objs := fun o => (s.objs o).map fun x => if p o then { x with exited := true } else x
    waits := cancel p s.waits
    log := s.log ++ s.stops p called }

def stopTimer (key : K) (called : Bool) : UserTimer K T :=
  match s.timers key with
  | none => s
  | some o => { s.stopObjs (· = o) called with timers := Function.update s.timers key none }

/-- The object is in the map, under its own key. -/
def isRegistered (o : ℕ) : Bool :=
  match s.objs o with
  | none => false
  | some x => s.timers x.key = some o

def stopAllTimers (called : Bool) : UserTimer K T :=
  { s.stopObjs s.isRegistered called with timers := fun _ => none }

/-- `HandleUserTimers` up to the call of the task. -/
def callTask (w : Wait) : UserTimer K T :=
  match s.objs w.obj with
  | none => s
  | some x => { s with running := some w, log := s.log ++ [.invoke x.reg] }

/-- The condition on which the handler stops the timer instead of posting it again. -/
def lastCycle (w : Wait) (x : UserTimerObj K T) : Bool :=
  w.status = .aborted || (x.cycle ≠ kUserTimerCycleForever && x.cycle ≤ 1)

/-- The rest of `HandleUserTimers`, after the task returned. -/
def handleRest (w : Wait) : UserTimer K T :=
  match s.objs w.obj with
  | none => s
  | some x =>
    if lastCycle w x then s.stopTimer x.key false
    else
      let cycle := if x.cycle ≠ kUserTimerCycleForever then x.cycle - 1 else x.cycle
      { s with objs := Function.update s.objs w.obj (some { x with cycle := cycle }) }.postUserTimers w.obj

end UserTimer

/-- What runs on the strand, and the expiry of a wait. A start of any kind is `start`: a
delay only changes when the first wait expires. -/
inductive Op (K T : Type)
  | start (key : K) (task : T) (cycle : ℤ)
  | stopTimer (key : K)
  | stopAllTimers
  | expire (i : ℕ)
  | complete (i : ℕ)
  | finish

section Runs
variable {K T : Type} [DecidableEq K]

/-- While a task is called the strand does nothing but what the task does itself: a
start is posted, a stop runs at once. -/
def exec (s : UserTimer K T) : Op K T → Option (UserTimer K T)
  | .start key task cycle => if s.running = none then some (s.startCycleTimer key task cycle) else none
  | .stopTimer key => some (s.stopTimer key true)
  | .stopAllTimers => some (s.stopAllTimers true)
  | .expire i =>
    match s.waits[i]? with
    | some ⟨o, .armed⟩ => some { s with waits := s.waits.set i ⟨o, .expired⟩ }
    | _ => none
  | .complete i =>
    match s.waits[i]? with
    | none => none
    | some w =>
      if s.running = none ∧ w.status ≠ .armed then
        some ({ s with waits := s.waits.eraseIdx i }.callTask w)
      else none
  | .finish =>
    match s.running with
    | none => none
    | some w => some ({ s with running := none }.handleRest w)

def timerRuns (K T : Type) [DecidableEq K] : System (UserTimer K T) (Op K T) where
  init s := s = {}
  step s op t := exec s op = some t

end Runs

section Cancel
variable {p : ℕ → Bool} {waits : List Wait} {w : Wait}

lemma mem_cancel (h : w ∈ cancel p waits) :
    ∃ w' ∈ waits, w'.obj = w.obj ∧ (w = w' ∨ p w.obj ∧ w'.status = .armed ∧ w.status = .aborted) := by
  obtain ⟨w', hw', rfl⟩ := List.mem_map.mp h
  refine ⟨w', hw', ?_⟩
  split_ifs with hp
  · exact ⟨rfl, .inr ⟨hp.1, hp.2, rfl⟩⟩
  · exact ⟨rfl, .inl rfl⟩

/-- Nothing to cancel. -/
lemma cancel_of_idle (h : ∀ w ∈ waits, p w.obj = false) : cancel p waits = waits := by
  unfold cancel
  conv_rhs => rw [← List.map_id waits]
  apply List.map_congr_left
  intro w hw
  rw [if_neg (by simp [h w hw])]
  rfl

end Cancel

lemma mem_stops {K T : Type} {s : UserTimer K T} {p : ℕ → Bool} {called : Bool} {e : Event K T}
    (h : e ∈ s.stops p called) : ∃ o x, p o = true ∧ s.objs o = some x ∧ e = .stop x.reg called := by
  obtain ⟨o, _, ho⟩ := List.mem_filterMap.mp h
  split_ifs at ho with hp
  obtain ⟨x, hx, rfl⟩ := Option.map_eq_some_iff.mp ho
  exact ⟨o, x, hp, hx, rfl⟩

/-- What a table holds after one of its entries was written. -/
lemma update_some_cases {α : Type} {objs : ℕ → Option α} {o i : ℕ} {x y : α}
    (h : Function.update objs o (some x) i = some y) : i = o ∧ y = x ∨ i ≠ o ∧ objs i = some y := by
  by_cases hi : i = o
  · rw [hi, Function.update_self] at h
    exact .inl ⟨hi, (Option.some.inj h).symm⟩
  · rw [Function.update_of_ne hi] at h
    exact .inr ⟨hi, h⟩

section StopObjs
variable {K T : Type} {s : UserTimer K T} {p : ℕ → Bool} {i : ℕ} (called : Bool)

lemma stopObjs_some {y : UserTimerObj K T}
    (h : (s.stopObjs p called).objs i = some y) :
    ∃ x, s.objs i = some x ∧ y = if p i then { x with exited := true } else x := by
  obtain ⟨x, hx, hxy⟩ := Option.map_eq_some_iff.mp h
  exact ⟨x, hx, hxy.symm⟩

lemma stopObjs_keep {x : UserTimerObj K T} (hx : s.objs i = some x) (hp : p i = false) :
    (s.stopObjs p called).objs i = some x := by
  simp [UserTimer.stopObjs, hx, hp]

end StopObjs

end TyphoonZero.UserTimer
