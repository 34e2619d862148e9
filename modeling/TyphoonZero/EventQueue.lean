import TyphoonZero.Transition

/-! The event queue of a connection: the running event stays at the front until its
guard dies, and the next one is started then. -/
namespace TyphoonZero.EventQueue
open Transition

/-- A task that was posted to the strand. -/
inductive Task (E : Type)
  | enqueue (e : E)
  | next

/-- `guards g` tells whether the guard object `g` exists and is valid; `started` records the
events called, `failed` a failed assertion. `called` and `entered` are kept by the run beside
the queue, which does not write them. -/
structure EventQueue (E G : Type) where
  events : List E := []
  posted : List (Task E) := []
  guards : G → Option Bool := fun _ => none
  started : List E := []
  failed : Bool := false
  called : List E := []
  entered : List E := []

namespace EventQueue
variable {E G : Type} [DecidableEq G] (s : EventQueue E G)

/-- The event at the front is called with a new guard `g`. -/
def callFront (g : G) : EventQueue E G :=
  match s.events with
  | [] => s
  | e :: _ => { s with started := s.started ++ [e], guards := Function.update s.guards g (some true) }

/-- `EventEnqueue` on the strand, and its task. -/
def eventEnqueue (e : E) (g : G) : EventQueue E G :=
  let t := { s with events := s.events ++ [e] }
  if s.events.isEmpty then t.callFront g else t

/-- `NextEvent` on the strand, and its task. -/
def nextEvent (g : G) : EventQueue E G :=
  match s.events with
  | [] => { s with failed := true }
  | _ :: rest => ({ s with events := rest }).callFront g

/-- The move constructor of the guard. -/
def moveGuard (g g' : G) (valid : Bool) : EventQueue E G :=
  { s with guards := Function.update (Function.update s.guards g (some (!valid))) g' (some valid) }

def destroyGuard (g : G) : EventQueue E G := { s with guards := Function.update s.guards g none }

def post (task : Task E) : EventQueue E G := { s with posted := s.posted ++ [task] }

def runTask (task : Task E) (g : G) : EventQueue E G :=
  match task with
  | .enqueue e => s.eventEnqueue e g
  | .next => s.nextEvent g

end EventQueue

/-- What threads do, on the strand and off it; `fresh` is the place of a guard that
the operation may create. The strand may run posted tasks in any order. -/
inductive Op (E G : Type)
  | enqueueOnStrand (e : E) (fresh : G)
  | enqueueOffStrand (e : E)
  | runPosted (i : ℕ) (fresh : G)
  | move (g fresh : G)
  | releaseOnStrand (g fresh : G)
  | releaseOffStrand (g : G)

section Runs
variable {E G : Type} [DecidableEq G]

/-- A handler moves the guard that it holds; a guard that was moved away dies. -/
def perform (s : EventQueue E G) : Op E G → Option (EventQueue E G)
  | .enqueueOnStrand e fresh => if s.guards fresh = none then some (s.eventEnqueue e fresh) else none
  | .enqueueOffStrand e => some (s.post (.enqueue e))
  | .runPosted i fresh =>
    match s.posted[i]? with
    | none => none
    | some task =>
      if s.guards fresh = none then
        some ({ s with posted := s.posted.eraseIdx i }.runTask task fresh)
      else none
  | .move g fresh =>
    if s.guards g = some true ∧ s.guards fresh = none then some (s.moveGuard g fresh true) else none
  | .releaseOnStrand g fresh =>
    match s.guards g with
    | none => none
    | some false => some (s.destroyGuard g)
    | some true =>
      if s.guards fresh = none then some ((s.destroyGuard g).nextEvent fresh) else none
  | .releaseOffStrand g =>
    match s.guards g with
    | none => none
    | some false => some (s.destroyGuard g)
    | some true => some ((s.destroyGuard g).post .next)

def Task.event : Task E → Option E
  | .enqueue e => some e
  | .next => none

/-- The events of the calls of `EventEnqueue`. -/
def Op.called : Op E G → List E
  | .enqueueOnStrand e _ => [e]
  | .enqueueOffStrand e => [e]
  | _ => []

/-- The events that come to the queue: on the strand with the call, off it when the posted task
runs. -/
def Op.entering (s : EventQueue E G) : Op E G → List E
  | .enqueueOnStrand e _ => [e]
  | .runPosted i _ => (s.posted[i]?.bind Task.event).toList
  | _ => []

/-- The operation, with the record of its calls. -/
def exec (s : EventQueue E G) (op : Op E G) : Option (EventQueue E G) :=
  (perform s op).map fun t => { t with called := s.called ++ op.called, entered := s.entered ++ op.entering s }

def eventRuns (E G : Type) [DecidableEq G] : System (EventQueue E G) (Op E G) where
  init s := s = {}
  step s op t := exec s op = some t

end Runs

section Properties
variable {E G : Type} (s t : EventQueue E G)

def Valid (g : G) : Prop := s.guards g = some true

def Task.isNext : Task E → Bool
  | .next => true
  | .enqueue _ => false

/-- The releases that are on their way to the strand. -/
def pendingNexts : ℕ := s.posted.countP Task.isNext

/-- The event at the front is in flight while its guard lives or its release is on
its way; then there is exactly one such guard or release. -/
inductive InFlight : Prop
  | guard (g : G) (h : Valid s g) (only : ∀ g', Valid s g' → g' = g) (hp : pendingNexts s = 0)
  | pending (none : ∀ g, ¬ Valid s g) (hp : pendingNexts s = 1)

def Quiet : Prop := (∀ g, ¬ Valid s g) ∧ pendingNexts s = 0

/-- Events start in the order in which they entered, one at a time, and the queue
is empty only when none is in flight. -/
structure Serial : Prop where
  order : s.entered = s.started ++ s.events.tail
  running : s.events ≠ [] → InFlight s
  idle : s.events = [] → Quiet s
  ok : s.failed = false

/-- One release: the event at the front leaves and exactly the next one starts. -/
structure Advances : Prop where
  front : s.events ≠ []
  events : t.events = s.events.tail
  started : t.started = s.started ++ s.events.tail.head?.toList

/-- The operations that run `NextEvent` on the strand. -/
def Releases : Op E G → Prop
  | .releaseOnStrand g _ => Valid s g
  | .runPosted i _ => s.posted[i]? = some .next
  | _ => False

end Properties

section Invariant
variable {E G : Type}

lemma serial_init : Serial ({} : EventQueue E G) := by
  refine ⟨rfl, ?_, ?_, rfl⟩
  · intro h
    exact absurd rfl h
  · intro _
    refine ⟨?_, rfl⟩
    intro g h
    cases h

lemma InFlight.congr {s t : EventQueue E G} (h : InFlight s) (hg : ∀ g, Valid t g ↔ Valid s g)
    (hp : pendingNexts t = pendingNexts s) : InFlight t := by
  cases h with
  | guard g h only hn =>
    refine .guard g ((hg g).mpr h) ?_ (hp.trans hn)
    intro g' hg'
    exact only g' ((hg g').mp hg')
  | pending none hn =>
    refine .pending ?_ (hp.trans hn)
    intro g h
    exact none g ((hg g).mp h)

lemma Quiet.congr {s t : EventQueue E G} (h : Quiet s) (hg : ∀ g, Valid t g ↔ Valid s g)
    (hp : pendingNexts t = pendingNexts s) : Quiet t := by
  refine ⟨?_, hp.trans h.2⟩
  intro g ht
  exact h.1 g ((hg g).mp ht)

/-- What else is equal does not matter. -/
lemma Serial.congr {s t : EventQueue E G} (h : Serial s) (he : t.events = s.events)
    (hn : t.entered = s.entered) (hs : t.started = s.started) (hf : t.failed = s.failed)
    (hg : ∀ g, Valid t g ↔ Valid s g) (hp : pendingNexts t = pendingNexts s) : Serial t := by
  refine ⟨?_, ?_, ?_, hf.trans h.ok⟩
  · rw [hn, hs, he]
    exact h.order
  · rw [he]
    intro hne
    exact (h.running hne).congr hg hp
  · rw [he]
    intro hnil
    exact (h.idle hnil).congr hg hp

variable [DecidableEq G] {s t : EventQueue E G}

lemma valid_update_none {g g' : G} (h : t.guards = Function.update s.guards g none) :
    Valid t g' ↔ g' ≠ g ∧ Valid s g' := by
  unfold Valid
  by_cases hne : g' = g
  · subst hne
    simp [h]
  · rw [h, Function.update_of_ne hne, and_iff_right hne]

/-- A new guard is the only one. -/
lemma inFlight_update {g : G} (hq : Quiet s) (hg : t.guards = Function.update s.guards g (some true))
    (hp : t.posted = s.posted) : InFlight t := by
  refine .guard g ?_ ?_ ?_
  · rw [Valid, hg, Function.update_self]
  · intro g' hg'
    by_contra hne
    apply hq.1 g'
    rwa [Valid, hg, Function.update_of_ne hne] at hg'
  · rw [pendingNexts, hp]
    exact hq.2

/-- What the run keeps, the queue does not touch. -/
lemma callFront_frame (g : G) :
    (s.callFront g).entered = s.entered ∧ (s.callFront g).posted = s.posted := by
  unfold EventQueue.callFront
  cases s.events with
  | nil => exact ⟨rfl, rfl⟩
  | cons e rest => exact ⟨rfl, rfl⟩

lemma nextEvent_frame (g : G) :
    (s.nextEvent g).entered = s.entered ∧ (s.nextEvent g).posted = s.posted := by
  unfold EventQueue.nextEvent
  cases s.events with
  | nil => exact ⟨rfl, rfl⟩
  | cons e rest => exact callFront_frame g

lemma eventEnqueue_frame (e : E) (g : G) :
    (s.eventEnqueue e g).entered = s.entered ∧ (s.eventEnqueue e g).posted = s.posted := by
  unfold EventQueue.eventEnqueue
  dsimp only
  split_ifs
  · exact callFront_frame g
  · exact ⟨rfl, rfl⟩

lemma eventEnqueue_serial (h : Serial s) (e : E) (g : G) (called : List E) :
    Serial { s.eventEnqueue e g with called := called, entered := s.entered ++ [e] } := by
  have horder := h.order
  unfold EventQueue.eventEnqueue
  cases he : s.events with
  | nil =>
    rw [he] at horder
    refine ⟨?_, ?_, ?_, h.ok⟩
    · simpa [EventQueue.callFront] using horder
    · intro _
      exact inFlight_update (h.idle he) rfl rfl
    · intro hnil
      simp [EventQueue.callFront] at hnil
  | cons x xs =>
    have hf := h.running (by rw [he]; exact List.cons_ne_nil x xs)
    rw [he] at horder
    refine ⟨?_, ?_, ?_, h.ok⟩
    · simp [horder]
    · intro _
      exact hf.congr (fun _ => Iff.rfl) rfl
    · intro hnil
      simp at hnil

/-- `NextEvent` when no guard is left and no other release is on its way. -/
lemma nextEvent_serial (horder : s.entered = s.started ++ s.events.tail) (hne : s.events ≠ [])
    (hok : s.failed = false) (hq : Quiet s) (g : G) :
    Serial (s.nextEvent g) ∧ Advances s (s.nextEvent g) := by
  unfold EventQueue.nextEvent
  cases he : s.events with
  | nil => exact absurd he hne
  | cons e rest =>
    rw [he] at horder
    cases rest with
    | nil =>
      refine ⟨⟨horder, ?_, fun _ => hq, hok⟩, ⟨hne, ?_, ?_⟩⟩
      · intro hnil
        exact absurd rfl hnil
      · rw [he]
        rfl
      · rw [he]
        exact (List.append_nil _).symm
    | cons e' rest' =>
      refine ⟨⟨?_, ?_, ?_, hok⟩, ⟨hne, ?_, ?_⟩⟩
      · simp [EventQueue.callFront, horder]
      · intro _
        exact inFlight_update hq rfl rfl
      · intro hnil
        simp [EventQueue.callFront] at hnil
      · rw [he]
        rfl
      · rw [he]
        rfl

omit [DecidableEq G] in
/-- A valid guard is the only one and the queue is not empty. -/
lemma Serial.of_valid (h : Serial s) {g : G} (hg : Valid s g) :
    s.events ≠ [] ∧ pendingNexts s = 0 ∧ ∀ g', Valid s g' → g' = g := by
  have hne : s.events ≠ [] := by
    intro hnil
    exact (h.idle hnil).1 g hg
  cases h.running hne with
  | guard g0 _ only hp =>
    refine ⟨hne, hp, ?_⟩
    intro g' hg'
    rw [only g hg]
    exact only g' hg'
  | pending none _ => exact absurd hg (none g)

/-- The death of the valid guard leaves no other. -/
lemma destroyGuard_quiet (h : Serial s) {g : G} (hg : Valid s g) : Quiet (s.destroyGuard g) := by
  obtain ⟨_, hp, only⟩ := h.of_valid hg
  refine ⟨?_, hp⟩
  intro g' hg'
  rw [valid_update_none rfl] at hg'
  exact hg'.1 (only g' hg'.2)

lemma release_serial (h : Serial s) {g : G} (hg : Valid s g) (fresh : G) :
    Serial ((s.destroyGuard g).nextEvent fresh) ∧ Advances s ((s.destroyGuard g).nextEvent fresh) := by
  have hne := (h.of_valid hg).1
  obtain ⟨hs, ha⟩ :=
    @nextEvent_serial E G _ (s.destroyGuard g) h.order hne h.ok (destroyGuard_quiet h hg) fresh
  exact ⟨hs, ⟨ha.front, ha.events, ha.started⟩⟩

lemma release_posted_serial (h : Serial s) {g : G} (hg : Valid s g) :
    Serial ((s.destroyGuard g).post .next) := by
  have hne := (h.of_valid hg).1
  have hq := destroyGuard_quiet h hg
  refine ⟨h.order, ?_, ?_, h.ok⟩
  · intro _
    refine .pending hq.1 ?_
    have hp := hq.2
    rw [pendingNexts] at hp
    rw [pendingNexts, EventQueue.post, List.countP_append, hp]
    rfl
  · intro hnil
    exact absurd hnil hne

lemma destroyGuard_serial (h : Serial s) {g : G} (hg : ¬ Valid s g) : Serial (s.destroyGuard g) := by
  refine Serial.congr (t := s.destroyGuard g) h rfl rfl rfl rfl ?_ rfl
  intro g'
  rw [valid_update_none rfl, and_iff_right_iff_imp]
  intro hg' heq
  subst heq
  exact hg hg'

lemma moveGuard_serial (h : Serial s) {g : G} (hg : Valid s g) (fresh : G) :
    Serial (s.moveGuard g fresh true) := by
  obtain ⟨hne, hp, only⟩ := h.of_valid hg
  refine ⟨h.order, ?_, ?_, h.ok⟩
  · intro _
    refine .guard fresh ?_ ?_ hp
    · rw [Valid, EventQueue.moveGuard]
      exact Function.update_self _ _ _
    · intro g' hg'
      by_contra hne'
      rw [Valid, EventQueue.moveGuard] at hg'
      dsimp only at hg'
      rw [Function.update_of_ne hne'] at hg'
      by_cases hgg : g' = g
      · subst hgg
        simp at hg'
      · rw [Function.update_of_ne hgg] at hg'
        exact hgg (only g' hg')
  · intro hnil
    exact absurd hnil hne

omit [DecidableEq G] in
/-- Nothing has come to the queue. -/
lemma Serial.record (h : Serial t) (hn : t.entered = s.entered) (called : List E) :
    Serial { t with called := called, entered := s.entered ++ [] } := by
  refine Serial.congr (t := { t with called := called, entered := s.entered ++ [] }) h rfl ?_ rfl rfl
    (fun _ => Iff.rfl) rfl
  rw [List.append_nil, hn]

lemma countP_eraseIdx {α : Type} (p : α → Bool) {xs : List α} {i : ℕ} {x : α} (h : xs[i]? = some x) :
    xs.countP p = (xs.eraseIdx i).countP p + if p x then 1 else 0 := by
  obtain ⟨hlt, rfl⟩ := List.getElem?_eq_some_iff.mp h
  have hperm := List.getElem_cons_eraseIdx_perm hlt
  rw [← hperm.countP_eq p, List.countP_cons]

lemma runPosted_serial (h : Serial s) {i : ℕ} {task : Task E} (hi : s.posted[i]? = some task) (g : G)
    (called : List E) :
    Serial { ({ s with posted := s.posted.eraseIdx i } : EventQueue E G).runTask task g with
      called := called, entered := s.entered ++ task.event.toList } ∧
      (task = .next →
        Advances s (({ s with posted := s.posted.eraseIdx i } : EventQueue E G).runTask task g)) := by
  have hcount := countP_eraseIdx Task.isNext hi
  cases task with
  | enqueue e =>
    refine ⟨?_, ?_⟩
    · have hrest : Serial ({ s with posted := s.posted.eraseIdx i } : EventQueue E G) := by
        refine Serial.congr (t := { s with posted := s.posted.eraseIdx i }) h rfl rfl rfl rfl
          (fun _ => Iff.rfl) ?_
        simpa [pendingNexts, Task.isNext] using hcount.symm
      exact eventEnqueue_serial hrest e g called
    · intro hn
      cases hn
  | next =>
    rw [Task.isNext, if_pos rfl] at hcount
    have hne : s.events ≠ [] := by
      intro hnil
      have hp := (h.idle hnil).2
      rw [pendingNexts] at hp
      omega
    have hq : Quiet ({ s with posted := s.posted.eraseIdx i } : EventQueue E G) := by
      cases h.running hne with
      | guard _ _ _ hp =>
        rw [pendingNexts] at hp
        omega
      | pending none hp =>
        refine ⟨none, ?_⟩
        rw [pendingNexts] at hp ⊢
        dsimp only
        omega
    obtain ⟨hs, ha⟩ :=
      @nextEvent_serial E G _ { s with posted := s.posted.eraseIdx i } h.order hne h.ok hq g
    exact ⟨hs.record (nextEvent_frame g).1 called, fun _ => ⟨ha.front, ha.events, ha.started⟩⟩

lemma perform_serial {op : Op E G} (h : Serial s) (hs : perform s op = some t) (called : List E) :
    Serial { t with called := called, entered := s.entered ++ op.entering s } ∧
      (Releases s op → Advances s t) := by
  cases op with
  | enqueueOnStrand e fresh =>
    simp only [perform] at hs
    split_ifs at hs
    cases hs
    exact ⟨eventEnqueue_serial h e fresh called, False.elim⟩
  | enqueueOffStrand e =>
    cases hs
    have hpost : Serial (s.post (.enqueue e)) := by
      refine h.congr rfl rfl rfl rfl (fun _ => Iff.rfl) ?_
      rw [pendingNexts, EventQueue.post, List.countP_append]
      rfl
    exact ⟨hpost.record rfl called, False.elim⟩
  | runPosted i fresh =>
    simp only [perform] at hs
    split at hs
    · cases hs
    next task hi =>
      split_ifs at hs
      cases hs
      obtain ⟨hser, hadv⟩ := runPosted_serial h hi fresh called
      refine ⟨?_, fun hr => hadv ?_⟩
      · rwa [Op.entering, hi]
      · rw [Releases, hi] at hr
        exact Option.some.inj hr
  | move g fresh =>
    simp only [perform] at hs
    split_ifs at hs with hg
    cases hs
    exact ⟨(moveGuard_serial h hg.1 fresh).record rfl called, False.elim⟩
  | releaseOnStrand g fresh =>
    simp only [perform] at hs
    split at hs
    · cases hs
    next hg =>
      cases hs
      have hnot : ¬ Valid s g := by
        rw [Valid, hg]
        simp
      exact ⟨(destroyGuard_serial h hnot).record rfl called, fun hr => absurd hr hnot⟩
    next hg =>
      split_ifs at hs
      cases hs
      obtain ⟨hser, hadv⟩ := release_serial h hg fresh
      exact ⟨hser.record (nextEvent_frame fresh).1 called, fun _ => hadv⟩
  | releaseOffStrand g =>
    simp only [perform] at hs
    split at hs
    · cases hs
    next hg =>
      cases hs
      have hnot : ¬ Valid s g := by
        rw [Valid, hg]
        simp
      exact ⟨(destroyGuard_serial h hnot).record rfl called, False.elim⟩
    next hg =>
      cases hs
      exact ⟨(release_posted_serial h hg).record rfl called, False.elim⟩

lemma exec_serial {op : Op E G} (h : Serial s) (hs : exec s op = some t) :
    Serial t ∧ (Releases s op → Advances s t) := by
  obtain ⟨u, hu, rfl⟩ := Option.map_eq_some_iff.mp hs
  obtain ⟨hserial, hadvances⟩ := perform_serial h hu (s.called ++ op.called)
  refine ⟨hserial, fun hr => ?_⟩
  obtain ⟨hfront, hevents, hstarted⟩ := hadvances hr
  exact ⟨hfront, hevents, hstarted⟩

theorem serial_of_reachable (h : Reachable (eventRuns E G) s) : Serial s := by
  apply h.invariant
  · intro a ha
    cases ha
    exact serial_init
  · intro _ _ _ hi hs
    exact (exec_serial hi hs).1

/-- What an operation takes from the posted calls comes to the queue. -/
lemma perform_posted {op : Op E G} (hs : perform s op = some t) :
    List.Perm (op.entering s ++ t.posted.filterMap Task.event) (s.posted.filterMap Task.event ++ op.called) := by
  cases op with
  | enqueueOnStrand e fresh =>
    simp only [perform] at hs
    split_ifs at hs
    cases hs
    rw [(eventEnqueue_frame e fresh).2]
    exact List.perm_append_comm
  | enqueueOffStrand e =>
    cases hs
    simp [EventQueue.post, Op.entering, Op.called, Task.event]
  | runPosted i fresh =>
    simp only [perform] at hs
    split at hs
    · cases hs
    next task hi =>
      split_ifs at hs
      cases hs
      obtain ⟨hlt, hget⟩ := List.getElem?_eq_some_iff.mp hi
      have hperm : List.Perm (s.posted[i] :: s.posted.eraseIdx i) s.posted := List.getElem_cons_eraseIdx_perm hlt
      rw [hget] at hperm
      have hfilter := hperm.filterMap Task.event
      have hcalled : (Op.runPosted i fresh : Op E G).called = [] := rfl
      rw [Op.entering, hi, hcalled, List.append_nil]
      cases task with
      | enqueue e =>
        rw [EventQueue.runTask, (eventEnqueue_frame e fresh).2]
        exact hfilter
      | next =>
        rw [EventQueue.runTask, (nextEvent_frame fresh).2]
        exact hfilter
  | move g fresh =>
    simp only [perform] at hs
    split_ifs at hs
    cases hs
    simp [EventQueue.moveGuard, Op.entering, Op.called]
  | releaseOnStrand g fresh =>
    simp only [perform] at hs
    split at hs
    · cases hs
    · cases hs
      simp [EventQueue.destroyGuard, Op.entering, Op.called]
    · split_ifs at hs
      cases hs
      rw [(nextEvent_frame fresh).2]
      simp [EventQueue.destroyGuard, Op.entering, Op.called]
  | releaseOffStrand g =>
    simp only [perform] at hs
    split at hs
    · cases hs
    · cases hs
      simp [EventQueue.destroyGuard, Op.entering, Op.called]
    · cases hs
      simp [EventQueue.destroyGuard, EventQueue.post, Op.entering, Op.called, Task.event, List.filterMap_cons]

/-- Every event that was given to `EventEnqueue` has come to the queue or is posted, once. -/
lemma called_of_reachable (h : Reachable (eventRuns E G) s) :
    List.Perm s.called (s.entered ++ s.posted.filterMap Task.event) := by
  apply h.invariant
  · intro a ha
    cases ha
    exact List.Perm.refl _
  · intro s op t hi hs
    obtain ⟨u, hu, rfl⟩ := Option.map_eq_some_iff.mp hs
    dsimp only
    rw [List.append_assoc]
    refine (hi.append_right op.called).trans ?_
    rw [List.append_assoc]
    exact (perform_posted hu).symm.append_left s.entered

omit [DecidableEq G] in
lemma started_of_quiet (h : Serial s) (hq : Quiet s) : s.started = s.entered := by
  have hnil : s.events = [] := by
    by_contra hne
    cases h.running hne with
    | guard g hg => exact hq.1 g hg
    | pending _ hp =>
      rw [hq.2] at hp
      cases hp
  rw [h.order, hnil, List.tail_nil, List.append_nil]

/-- Whatever the interleaving, every event that was given to `EventEnqueue` is posted or has come to
the queue, once; the events that came are started one at a time, in that order; each release starts
exactly the next one; and no assertion fails. -/
theorem eventQueue_serial (h : Reachable (eventRuns E G) s) :
    List.Perm s.called (s.entered ++ s.posted.filterMap Task.event) ∧ Serial s ∧
      (Quiet s → s.started = s.entered) ∧
      ∀ op t, (eventRuns E G).step s op t → Releases s op → Advances s t := by
  have hs := serial_of_reachable h
  exact ⟨called_of_reachable h, hs, started_of_quiet hs, fun op t hstep => (exec_serial hs hstep).2⟩

end Invariant

/-- Event 1 runs while 2 enters from inside it and 3 from another thread; its guard
is moved and dies off the strand, and 2 starts when the release arrives. -/
theorem eventQueue_serial_handover :
    ∃ s : EventQueue ℕ ℕ, Reachable (eventRuns ℕ ℕ) s ∧ s.called = [1, 2, 3] ∧ s.started = [1, 2] ∧
      s.posted = [] ∧ List.Perm s.called s.entered ∧ Serial s := by
  have h0 : Reachable (eventRuns ℕ ℕ) {} := .init rfl
  have h1 := @Reachable.step _ _ _ (Op.enqueueOnStrand 1 0) _ _ h0 rfl
  have h2 := @Reachable.step _ _ _ (Op.enqueueOnStrand 2 1) _ _ h1 rfl
  have h3 := @Reachable.step _ _ _ (Op.enqueueOffStrand 3) _ _ h2 rfl
  have h4 := @Reachable.step _ _ _ (Op.move 0 2) _ _ h3 rfl
  have h5 := @Reachable.step _ _ _ (Op.releaseOffStrand 2) _ _ h4 rfl
  have h6 := @Reachable.step _ _ _ (Op.runPosted 0 3) _ _ h5 rfl
  have h7 := @Reachable.step _ _ _ (Op.runPosted 0 3) _ _ h6 rfl
  obtain ⟨hcalled, hserial, -⟩ := eventQueue_serial h7
  exact ⟨_, h7, rfl, rfl, rfl, hcalled, hserial⟩

end TyphoonZero.EventQueue
