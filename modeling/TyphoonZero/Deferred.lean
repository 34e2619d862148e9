import TyphoonZero.Transition

/-! Deferred tasks: a callable with its arguments is kept in a lambda and invoked later, while
the caller goes on with the objects that it passed. -/
namespace TyphoonZero.Utils
open Transition

/-- Where an object lives. -/
abbrev Loc := ℕ

/-- A callable gets objects by reference; the result is what it leaves in them. -/
abbrev Func (V : Type) := List V → List V

/-- The lambda owns its callable; the tuple holds references. -/
structure Lambda (V : Type) where
  func : Func V
  tup : List Loc

def forwardAsLambda {V : Type} (func : Func V) (args : List Loc) : Lambda V := ⟨func, args⟩

/-- `atCall` and `calls` are no part of the code: the values of the arguments when a task was scheduled,
and which task was invoked with what, where `none` is a reference to an object that is gone. -/
structure Deferred (V : Type) where
  objects : Loc → Option V := fun _ => none
  tasks : List (Lambda V) := []
  atCall : List (List V) := []
  calls : List (ℕ × Option (List V)) := []

namespace Deferred

inductive Op (V : Type)
  | create (l : Loc) (v : V)
  | assign (l : Loc) (v : V)
  | destroy (l : Loc)
  | startTimer (func : Func V) (args : List Loc)
  | startCycleTimer (func : Func V) (args : List Loc)
  | submit (func : Func V) (args : List Loc)
  | invoke (i : ℕ)

variable {V : Type} (s : Deferred V)

/-- The objects are alive when they are passed. -/
def schedule (task : Lambda V) (args : List Loc) : Option (Deferred V) :=
  (args.mapM s.objects).map fun vs => { s with tasks := s.tasks ++ [task], atCall := s.atCall ++ [vs] }

/-- The timer keeps the task for every round. -/
def startTimer (func : Func V) (args : List Loc) : Option (Deferred V) := s.schedule (forwardAsLambda func args) args

def startCycleTimer (func : Func V) (args : List Loc) : Option (Deferred V) :=
  s.schedule (forwardAsLambda func args) args

def submit (func : Func V) (args : List Loc) : Option (Deferred V) := s.schedule (forwardAsLambda func args) args

def writeBack (objects : Loc → Option V) (tup : List Loc) (vs : List V) : Loc → Option V :=
  (tup.zip vs).foldl (fun objects entry => Function.update objects entry.1 (some entry.2)) objects

def invoke (i : ℕ) : Option (Deferred V) :=
  s.tasks[i]?.map fun task =>
    let received := task.tup.mapM s.objects
    { s with
      objects := received.elim s.objects fun vs => writeBack s.objects task.tup (task.func vs)
      calls := s.calls ++ [(i, received)] }

/-- The caller's steps, those of the timers and of the workers, in any order. -/
def step : Op V → Option (Deferred V)
  | .create l v =>
    match s.objects l with
    | none => some { s with objects := Function.update s.objects l (some v) }
    | some _ => none
  | .assign l v =>
    match s.objects l with
    | none => none
    | some _ => some { s with objects := Function.update s.objects l (some v) }
  | .destroy l => some { s with objects := Function.update s.objects l none }
  | .startTimer func args => s.startTimer func args
  | .startCycleTimer func args => s.startCycleTimer func args
  | .submit func args => s.submit func args
  | .invoke i => s.invoke i

def taskRuns (V : Type) : System (Deferred V) (Op V) where
  init s := s = {}
  step s op t := s.step op = some t

/-- Every invocation received what its arguments were when the task was scheduled. -/
def ReceivesArguments : Prop := ∀ call ∈ s.calls, call.2 = s.atCall[call.1]?

def Referred (l : Loc) : Prop := ∃ task ∈ s.tasks, l ∈ task.tup

/-- No argument of a task is destroyed or changed, neither by the caller nor by the task itself. A task may be
invoked again, so that this goes on after its invocation. -/
def Keeps : Op V → Prop
  | .assign l v => s.Referred l → s.objects l = some v
  | .destroy l => ¬s.Referred l
  | .invoke i => ∀ task ∈ s.tasks[i]?, ∀ vs ∈ task.tup.mapM s.objects, task.func vs = vs
  | _ => True

/-- The references of the tasks lead to the values that were passed. -/
def Intact : Prop := s.tasks.map (fun task => task.tup.mapM s.objects) = s.atCall.map some

variable {s} {t : Deferred V}

lemma alive_of_mapM {objects : Loc → Option V} {tup : List Loc} {vs : List V} (h : tup.mapM objects = some vs)
    {l : Loc} (hl : l ∈ tup) : objects l ≠ none := by
  induction tup generalizing vs with
  | nil => cases hl
  | cons d tup ih =>
    rw [List.mapM_cons, Option.bind_eq_bind, Option.bind_eq_some_iff] at h
    obtain ⟨v, hv, hrest⟩ := h
    obtain ⟨ws, hws, -⟩ := Option.bind_eq_some_iff.mp hrest
    rcases List.mem_cons.mp hl with rfl | hl
    · rw [hv]
      exact Option.some_ne_none v
    · exact ih hws hl

lemma mapM_congr {objects objects' : Loc → Option V} {tup : List Loc} (h : ∀ l ∈ tup, objects' l = objects l) :
    tup.mapM objects' = tup.mapM objects := by
  induction tup with
  | nil => rfl
  | cons l tup ih =>
    rw [List.mapM_cons, List.mapM_cons, h l List.mem_cons_self, ih fun d hd => h d (List.mem_cons_of_mem l hd)]

/-- Values that are written back where they were read change nothing. -/
lemma writeBack_read {objects : Loc → Option V} {tup : List Loc} {vs : List V} (h : tup.mapM objects = some vs) :
    writeBack objects tup vs = objects := by
  unfold writeBack
  induction tup generalizing vs with
  | nil => rfl
  | cons l tup ih =>
    rw [List.mapM_cons, Option.bind_eq_bind, Option.bind_eq_some_iff] at h
    obtain ⟨v, hv, hrest⟩ := h
    obtain ⟨ws, hws, hvs⟩ := Option.bind_eq_some_iff.mp hrest
    obtain rfl := Option.some.inj hvs
    rw [List.zip_cons_cons, List.foldl_cons, ← hv, Function.update_eq_self]
    exact ih hws

lemma Intact.frame (h : s.Intact) (ht : t.tasks = s.tasks) (hcall : t.atCall = s.atCall)
    (hframe : ∀ l, s.Referred l → t.objects l = s.objects l) : t.Intact := by
  unfold Intact
  rw [ht, hcall, ← h]
  exact List.map_congr_left fun task htask => mapM_congr fun l hl => hframe l ⟨task, htask, hl⟩

lemma Intact.received (h : s.Intact) {i : ℕ} {task : Lambda V} (htask : s.tasks[i]? = some task) :
    ∃ vs, task.tup.mapM s.objects = some vs ∧ s.atCall[i]? = some vs := by
  have hget := congrArg (·[i]?) h
  simp only [List.getElem?_map, htask, Option.map_some] at hget
  obtain ⟨vs, hvs, hread⟩ := Option.map_eq_some_iff.mp hget.symm
  exact ⟨vs, hread.symm, hvs⟩

lemma Intact.alive (h : s.Intact) {l : Loc} (hl : s.Referred l) : s.objects l ≠ none := by
  obtain ⟨task, htask, hl⟩ := hl
  obtain ⟨i, hi, rfl⟩ := List.getElem_of_mem htask
  obtain ⟨vs, hvs, -⟩ := h.received (List.getElem?_eq_getElem hi)
  exact alive_of_mapM hvs hl

lemma Intact.schedule (h : s.Intact) {func : Func V} {args : List Loc}
    (ht : s.schedule (forwardAsLambda func args) args = some t) : t.Intact ∧ t.calls = s.calls ∧
      ∃ vs, t.atCall = s.atCall ++ [vs] := by
  obtain ⟨vs, hvs, rfl⟩ := Option.map_eq_some_iff.mp ht
  refine ⟨?_, rfl, vs, rfl⟩
  unfold Intact at h ⊢
  rw [List.map_append, List.map_append, h]
  exact congrArg (fun read => s.atCall.map some ++ [read]) hvs

/-- An invocation receives what the references lead to at that time. -/
lemma invoke_eq {i : ℕ} (ht : s.invoke i = some t) :
    ∃ task, s.tasks[i]? = some task ∧ t.tasks = s.tasks ∧ t.atCall = s.atCall ∧
      t.calls = s.calls ++ [(i, task.tup.mapM s.objects)] ∧
      t.objects = (task.tup.mapM s.objects).elim s.objects fun vs => writeBack s.objects task.tup (task.func vs) := by
  obtain ⟨task, htask, rfl⟩ := Option.map_eq_some_iff.mp ht
  exact ⟨task, htask, rfl, rfl, rfl, rfl⟩

lemma receives_invoke_iff {i : ℕ} (ht : s.invoke i = some t) :
    t.ReceivesArguments ↔
      s.ReceivesArguments ∧ ∀ task ∈ s.tasks[i]?, task.tup.mapM s.objects = s.atCall[i]? := by
  obtain ⟨task, htask, -, hcall, hcalls, -⟩ := invoke_eq ht
  unfold ReceivesArguments
  rw [hcalls, hcall, List.forall_mem_append, List.forall_mem_singleton, htask]
  simp only [Option.mem_some_iff, forall_eq']

/-- What the invariant of a run is. -/
structure Sound (s : Deferred V) : Prop where
  intact : s.Intact
  receives : s.ReceivesArguments
  invoked : ∀ call ∈ s.calls, call.1 < s.atCall.length

lemma Sound.schedule (h : Sound s) {func : Func V} {args : List Loc}
    (ht : s.schedule (forwardAsLambda func args) args = some t) : Sound t := by
  obtain ⟨hintact, hcalls, vs, hcall⟩ := h.intact.schedule ht
  refine ⟨hintact, fun call hmem => ?_, fun call hmem => ?_⟩ <;> rw [hcalls] at hmem
  · rw [hcall, List.getElem?_append_left (h.invoked call hmem)]
    exact h.receives call hmem
  · rw [hcall, List.length_append]
    exact Nat.lt_add_right _ (h.invoked call hmem)

lemma Sound.frame (h : Sound s) {objects : Loc → Option V}
    (hframe : ∀ l, s.Referred l → objects l = s.objects l) : Sound { s with objects := objects } :=
  ⟨h.intact.frame rfl rfl hframe, h.receives, h.invoked⟩

lemma Sound.update (h : Sound s) {l : Loc} {v : Option V} (hl : s.Referred l → s.objects l = v) :
    Sound { s with objects := Function.update s.objects l v } := by
  refine h.frame fun d hd => ?_
  by_cases hdl : d = l
  · rw [hdl] at hd ⊢
    rw [Function.update_self, hl hd]
  · exact Function.update_of_ne hdl v s.objects

lemma Sound.invoke (h : Sound s) {i : ℕ} (hkeeps : s.Keeps (.invoke i)) (ht : s.invoke i = some t) : Sound t := by
  obtain ⟨task, htask, htasks, hcall, hcalls, hobjects⟩ := invoke_eq ht
  obtain ⟨vs, hread, hpassed⟩ := h.intact.received htask
  have hsame : t.objects = s.objects := by
    have hleft : task.func vs = vs := hkeeps task htask vs hread
    rw [hobjects, hread, Option.elim_some, hleft]
    exact writeBack_read hread
  refine ⟨h.intact.frame htasks hcall fun l _ => congrFun hsame l, ?_, ?_⟩
  · refine (receives_invoke_iff ht).mpr ⟨h.receives, fun task' htask' => ?_⟩
    obtain rfl := Option.some.inj (htask.symm.trans htask')
    exact hread.trans hpassed.symm
  · rw [hcalls, hcall, List.forall_mem_append, List.forall_mem_singleton]
    exact ⟨h.invoked, (List.getElem?_eq_some_iff.mp hpassed).1⟩

lemma Sound.step (h : Sound s) {op : Op V} (hkeeps : s.Keeps op) (ht : s.step op = some t) : Sound t := by
  cases op with
  | create l v =>
    cases hl : s.objects l with
    | none =>
      simp only [Deferred.step, hl, Option.some.injEq] at ht
      rw [← ht]
      exact h.update fun hreferred => absurd hl (h.intact.alive hreferred)
    | some w =>
      simp only [Deferred.step, hl] at ht
      cases ht
  | assign l v =>
    cases hl : s.objects l with
    | none =>
      simp only [Deferred.step, hl] at ht
      cases ht
    | some w =>
      simp only [Deferred.step, hl, Option.some.injEq] at ht
      rw [← ht]
      exact h.update hkeeps
  | destroy l =>
    rw [← Option.some.inj ht]
    exact h.update fun hreferred => absurd hreferred hkeeps
  | startTimer func args => exact h.schedule ht
  | startCycleTimer func args => exact h.schedule ht
  | submit func args => exact h.schedule ht
  | invoke i => exact h.invoke hkeeps ht

/-- While nobody touches the arguments of a task, every invocation of it receives them as they were passed. -/
theorem deferred_receive_arguments (h : Reachable ((taskRuns V).restrict Keeps) s) : s.ReceivesArguments := by
  refine (h.invariant (I := Sound) ?_ ?_).receives
  · rintro s rfl
    exact ⟨rfl, List.forall_mem_nil _, List.forall_mem_nil _⟩
  · exact fun s op t hs hstep => hs.step hstep.1 hstep.2

/-- An object is passed to a task and is still there when the task runs. -/
theorem deferred_receive_kept : ∃ s : Deferred ℕ, Reachable ((taskRuns ℕ).restrict Keeps) s ∧
    s.calls = [(0, some [7])] ∧ s.ReceivesArguments := by
  have h0 : Reachable ((taskRuns ℕ).restrict Keeps) {} := .init rfl
  have h1 := @Reachable.step _ _ _ (Op.create 0 7) _ _ h0 ⟨trivial, rfl⟩
  have h2 := @Reachable.step _ _ _ (Op.submit id [0]) _ _ h1 ⟨trivial, rfl⟩
  have hkeeps : ∀ s : Deferred ℕ, s.tasks = [⟨id, [0]⟩] → s.Keeps (.invoke 0) := by
    intro s htasks task htask vs _
    rw [htasks] at htask
    obtain rfl := Option.some.inj htask
    rfl
  have h3 := @Reachable.step _ _ _ (Op.invoke 0) _ _ h2 ⟨hkeeps _ rfl, rfl⟩
  exact ⟨_, h3, rfl, deferred_receive_arguments h3⟩

/-- The caller assigns to the object before the task runs: the task gets the new value. -/
theorem deferred_sees_assignment : ∃ s : Deferred ℕ, Reachable (taskRuns ℕ) s ∧
    s.atCall = [[7]] ∧ s.calls = [(0, some [8])] ∧ ¬s.ReceivesArguments := by
  have h0 : Reachable (taskRuns ℕ) {} := .init rfl
  have h1 := @Reachable.step _ _ _ (Op.create 0 7) _ _ h0 rfl
  have h2 := @Reachable.step _ _ _ (Op.submit id [0]) _ _ h1 rfl
  have h3 := @Reachable.step _ _ _ (Op.assign 0 8) _ _ h2 rfl
  have h4 := @Reachable.step _ _ _ (Op.invoke 0) _ _ h3 rfl
  refine ⟨_, h4, rfl, rfl, fun hreceives => ?_⟩
  have hcall := hreceives (0, some [8]) List.mem_cons_self
  exact absurd hcall (by decide)

end Deferred
end TyphoonZero.Utils
