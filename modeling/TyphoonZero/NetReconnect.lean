import TyphoonZero.NetRequests

/-! Successive connections of one client: the messages in its event queue and the reads and writes
on its socket, through disconnects and reconnects. -/
namespace TyphoonZero.NetConnect
open Transition

/-- A message that `Send` accepted, and the connection in which it did. -/
structure Message (M : Type*) where
  conn : ℕ
  body : M

/-- `task` is any other event: it wakes the reconnect timer, connects or stops. -/
inductive ClientEvent (M : Type*)
  | send (m : Message M)
  | disconnect
  | task

/-- The handler of a failed read or write of the connection `conn`, in `DoDisconnect`. -/
structure Handler where
  conn : ℕ
  pc : DisconnectPc
  write : Bool

/-- What was handed to the socket, in which connection and which state. -/
structure Handed (M : Type*) where
  message : Message M
  conn : ℕ
  state : NetState

/-- `accepted` are the messages on the way to the queue; `writing`, `reads` are the outstanding
operations by their connections, `recvTasks` counts the posted tasks of `StartRecv`. `moved` says
which connection a failed read or write disconnected: its own, then the one that was. -/
structure Client (M : Type*) where
  link : Link := {}
  accepted : List (Message M) := []
  events : List (ClientEvent M) := []
  writing : Option ℕ := none
  recvTasks : ℕ := 0
  reads : List ℕ := []
  handlers : List Handler := []
  handed : List (Handed M) := []
  moved : List (ℕ × ℕ) := []

inductive ClientOp (M : Type*)
  | link (op : Op)
  | send (body : M)
  | enqueueSend (i : ℕ)
  | enqueueDisconnect
  | enqueueTask
  | runDisconnect
  | runTask
  | startRecv
  | recvDone (i : ℕ) (ec : Bool)
  | writeDone (ec : Bool)
  | handler (i : ℕ)

def DisconnectPc.op : DisconnectPc → Op
  | .started => .leaveStarted 0
  | .starting => .leaveStarting 0

namespace Client
variable {M : Type*} (s : Client M)

/-- The event at the front is called; `DoSend` hands its message to the socket, the others post
a task. -/
def callFront : Client M :=
  match s.events with
  | .send m :: _ => { s with
      writing := some s.link.starts
      handed := s.handed ++ [⟨m, s.link.starts, s.link.state⟩] }
  | _ => s

def eventEnqueue (e : ClientEvent M) : Client M :=
  let t := { s with events := s.events ++ [e] }
  if s.events.isEmpty then t.callFront else t

def nextEvent : Client M := ({ s with events := s.events.tail }).callFront

def postRecv : Client M :=
  if s.link.state = .started then { s with reads := s.reads ++ [s.link.starts] } else s

/-- `DoneConnect` goes on to `StartRecv` when it gets through the last check. -/
def startsRecv : Op → ℕ
  | .connect i _ =>
    match s.link.completions[i]? with
    | some ⟨_, .last false⟩ => if s.link.state = .started then 1 else 0
    | _ => 0
  | _ => 0

/-- A handler makes a step of its call of `DoDisconnect`, which leaves the link `t`. The guard of a
send dies with the handler of its write. -/
def handlerStep (i : ℕ) (h : Handler) (t : Link) : Client M :=
  let u := { s with
    link := { t with calls := s.link.calls }
    moved := if t.state = s.link.state then s.moved else s.moved ++ [(h.conn, s.link.starts)] }
  match t.calls with
  | pc :: _ => { u with handlers := s.handlers.set i { h with pc := pc } }
  | [] =>
    let v := { u with handlers := s.handlers.eraseIdx i }
    if h.write then v.nextEvent else v

/-- The messages go to the queue from any thread, in any order. The task of the disconnect runs when
it is at the front; then the next event is called. -/
def step : ClientOp M → Client M → Prop
  | .link op, s' => (∀ i, op ≠ .disconnectTask i) ∧ ∃ t, s.link.exec false op = some t ∧
      s' = { s with link := t, recvTasks := s.recvTasks + s.startsRecv op }
  | .send body, s' => s.link.state = .started ∧
      s' = { s with accepted := s.accepted ++ [⟨s.link.starts, body⟩] }
  | .enqueueSend i, s' => ∃ m, s.accepted[i]? = some m ∧
      s' = { s with accepted := s.accepted.eraseIdx i }.eventEnqueue (.send m)
  | .enqueueDisconnect, s' => s.link.posted ≠ [] ∧ .disconnect ∉ s.events ∧
      s' = s.eventEnqueue .disconnect
  | .enqueueTask, s' => s' = s.eventEnqueue .task
  | .runDisconnect, s' => s.events.head? = some .disconnect ∧
      ∃ t, s.link.exec false (.disconnectTask 0) = some t ∧ s' = { s with link := t }.nextEvent
  | .runTask, s' => s.events.head? = some .task ∧ s' = s.nextEvent
  | .startRecv, s' => 0 < s.recvTasks ∧ s' = { s with recvTasks := s.recvTasks - 1 }.postRecv
  | .recvDone i ec, s' => ∃ c, s.reads[i]? = some c ∧
      s' = if ec then { s with
          reads := s.reads.eraseIdx i, handlers := s.handlers ++ [⟨c, .started, false⟩] }
        else { s with reads := s.reads.eraseIdx i }.postRecv
  | .writeDone ec, s' => ∃ c, s.writing = some c ∧
      s' = if ec then { s with
          writing := none, handlers := s.handlers ++ [⟨c, .started, true⟩] }
        else { s with writing := none }.nextEvent
  | .handler i, s' => ∃ h, s.handlers[i]? = some h ∧
      ∃ t, { s.link with calls := [h.pc] }.exec false h.pc.op = some t ∧ s' = s.handlerStep i h t

/-- A message is handed to the socket only during the connection that accepted it, and a failed
read or write disconnects no other connection than its own. -/
structure Isolated (s : Client M) : Prop where
  sends : ∀ h ∈ s.handed, h.conn = h.message.conn ∧ (h.state = .started ∨ h.state = .stopping)
  errors : ∀ m ∈ s.moved, m.2 = m.1

/-- A message enters the queue while its connection lasts and before the disconnect of it, and a
connection is started only when no read of an earlier one is outstanding or being handled. -/
def InOwnConnection : ClientOp M → Prop
  | .enqueueSend i => ∀ m, s.accepted[i]? = some m →
      m.conn = s.link.starts ∧ s.link.state ≠ .stopped ∧ .disconnect ∉ s.events
  | .link .start => s.reads = [] ∧ ∀ h ∈ s.handlers, h.write = true
  | _ => True

end Client

def clientRuns (M : Type*) : System (Client M) (ClientOp M) where
  init s := s = {}
  step := Client.step

namespace Link
variable {isSession : Bool} {s t : Link} {op : Op}

/-- Without a start the connection stays the same. -/
lemma exec_starts (h : s.exec isSession op = some t) (hop : op ≠ .start) : t.starts = s.starts := by
  cases op with
  | start => exact absurd rfl hop
  | stop =>
    obtain rfl := Option.some.inj h
    rfl
  | leaveStarted i | leaveStarting i =>
    simp only [exec] at h
    split at h
    · split_ifs at h
      all_goals
        obtain rfl := Option.some.inj h
        rfl
    · cases h
  | disconnectTask i =>
    simp only [exec] at h
    split at h
    · unfold runDisconnect at h
      split_ifs at h
      all_goals
        obtain rfl := Option.some.inj h
        rfl
    · cases h
  | fireDisconnect =>
    simp only [exec] at h
    split_ifs at h
    obtain rfl := Option.some.inj h
    rfl
  | connect i input =>
    have hconnect : ∀ {c : ℕ} {pc : ConnectPc} {u : Link} {next : Option ConnectPc},
        s.connectStep isSession c input pc = some (u, next) → u.starts = s.starts := by
      intro c pc u next hu
      obtain rfl | ⟨-, rfl⟩ | rfl | rfl := connectStep_cases hu
      all_goals rfl
    simp only [exec] at h
    split at h
    · cases h
    · split at h
      · cases h
      next hu =>
        have hstarts := hconnect hu
        obtain rfl := Option.some.inj h
        exact hstarts
      next hu =>
        have hstarts := hconnect hu
        obtain rfl := Option.some.inj h
        exact hstarts

/-- How the state goes on within a connection. -/
inductive Forward : NetState → NetState → Prop
  | same (a : NetState) : Forward a a
  | started : Forward .starting .started
  | leaveStarted : Forward .started .stopping
  | leaveStarting : Forward .starting .stopping

lemma Forward.ne_starting {a b : NetState} (h : Forward a b) (ha : a ≠ .starting) :
    b ≠ .starting := by
  cases h with
  | same => exact ha
  | started | leaveStarted | leaveStarting => simp

lemma Forward.connected {a b : NetState} (h : Forward a b) (ha : a = .started ∨ a = .stopping) :
    b = .started ∨ b = .stopping := by
  cases h with
  | same => exact ha
  | started | leaveStarted | leaveStarting => simp

lemma Forward.stopping {b : NetState} (h : Forward .stopping b) : b = .stopping := by
  cases h with
  | same => rfl

lemma exec_forward (h : s.exec isSession op = some t) (hstart : op ≠ .start)
    (htask : ∀ i, op ≠ .disconnectTask i) : Forward s.state t.state := by
  cases exec_effect h with
  | start _ _ => exact absurd rfl hstart
  | request _ _ heff =>
    rw [heff.state]
    exact .same _
  | leaveStarted i _ hs heff =>
    rw [heff.state, hs]
    exact .leaveStarted
  | retry i _ _ heff =>
    rw [heff.state]
    exact .same _
  | leaveStarting i _ hs heff =>
    rw [heff.state, hs]
    exact .leaveStarting
  | giveUp i _ _ heff =>
    rw [heff.state]
    exact .same _
  | task i _ _ _ => exact absurd rfl (htask i)
  | fire _ heff =>
    rw [heff.state]
    exact .same _
  | connected i _ _ _ _ _ hs heff =>
    rw [heff.state, hs]
    exact .started
  | moved i _ heff =>
    rw [heff.state]
    exact .same _

end Link

/-- What is left of a count when one element is taken out. -/
lemma countP_eraseIdx {α : Type*} {p : α → Bool} {l : List α} {i : ℕ} {a : α} (h : l[i]? = some a) :
    l.countP p = (l.eraseIdx i).countP p + if p a then 1 else 0 := by
  induction l generalizing i with
  | nil => simp at h
  | cons x l ih =>
    cases i with
    | zero =>
      obtain rfl := Option.some.inj h
      exact List.countP_cons
    | succ i =>
      have hl : l[i]? = some a := by simpa using h
      rw [List.eraseIdx_cons_succ, List.countP_cons, List.countP_cons, ih hl]
      omega

lemma countP_set_same {α : Type*} {p : α → Bool} {l : List α} {i : ℕ} {a b : α} (h : l[i]? = some a)
    (hab : p b = p a) : (l.set i b).countP p = l.countP p := by
  induction l generalizing i with
  | nil => simp at h
  | cons x l ih =>
    cases i with
    | zero =>
      obtain rfl := Option.some.inj h
      rw [List.set_cons_zero, List.countP_cons, List.countP_cons, hab]
    | succ i =>
      have hl : l[i]? = some a := by simpa using h
      rw [List.set_cons_succ, List.countP_cons, List.countP_cons, ih hl]

lemma forall_mem_snoc {α : Type*} {p : α → Prop} {l : List α} {a : α} (h : ∀ x ∈ l, p x) (ha : p a) :
    ∀ x ∈ l ++ [a], p x := by
  intro x hx
  obtain hx | hx := List.mem_append.mp hx
  · exact h x hx
  · obtain rfl := List.mem_singleton.mp hx
    exact ha

section Runs
variable {M : Type*} {s s' : Client M} {t : Link} {e : ClientEvent M}

/-- The writes that have not been dealt with, and how many the front of the queue accounts for. -/
def Client.pendingWrites (s : Client M) : ℕ :=
  (if s.writing.isSome then 1 else 0) + s.handlers.countP Handler.write

def frontSends : List (ClientEvent M) → ℕ
  | .send _ :: _ => 1
  | _ => 0

lemma frontSends_le (events : List (ClientEvent M)) : frontSends events ≤ 1 := by
  unfold frontSends
  split
  · exact le_rfl
  · exact Nat.zero_le 1

/-- Everything that is under way belongs to the connection, and only tasks are behind its
disconnect. -/
structure Client.Own (s : Client M) : Prop where
  posted : s.link.Posted
  accepted : ∀ m ∈ s.accepted, m.conn ≤ s.link.starts ∧
    (m.conn = s.link.starts → s.link.state ≠ .starting)
  sends : ∀ m, .send m ∈ s.events → m.conn = s.link.starts ∧
    (s.link.state = .started ∨ s.link.state = .stopping)
  disconnect : .disconnect ∈ s.events → s.link.state = .stopping
  order : s.events.Pairwise fun a b => a = .disconnect → b = .task
  writing : ∀ c, s.writing = some c → c = s.link.starts
  reads : ∀ c ∈ s.reads, c = s.link.starts
  handlers : ∀ h ∈ s.handlers, h.conn = s.link.starts
  handed : ∀ h ∈ s.handed, h.conn = h.message.conn ∧ (h.state = .started ∨ h.state = .stopping)
  moved : ∀ m ∈ s.moved, m.2 = m.1

/-- The send at the front is the one that is outstanding. -/
structure Client.Inv (s : Client M) : Prop where
  own : s.Own
  writes : s.pendingWrites = frontSends s.events

/-- The state goes on within the connection. -/
lemma Client.Own.relink (h : s.Own) (n : ℕ) (hposted : t.Posted) (hstarts : t.starts = s.link.starts)
    (hforward : Link.Forward s.link.state t.state) :
    Client.Own { s with link := t, recvTasks := n } := by
  have haccepted : ∀ m ∈ s.accepted, m.conn ≤ t.starts ∧ (m.conn = t.starts → t.state ≠ .starting) := by
    intro m hm
    obtain ⟨hle, hne⟩ := h.accepted m hm
    rw [hstarts]
    exact ⟨hle, fun heq => hforward.ne_starting (hne heq)⟩
  have hsends : ∀ m, .send m ∈ s.events → m.conn = t.starts ∧
      (t.state = .started ∨ t.state = .stopping) := by
    intro m hm
    obtain ⟨heq, hstate⟩ := h.sends m hm
    rw [hstarts]
    exact ⟨heq, hforward.connected hstate⟩
  have hdisconnect : .disconnect ∈ s.events → t.state = .stopping := by
    intro hd
    rw [h.disconnect hd] at hforward
    exact hforward.stopping
  exact { h with
    posted := hposted
    accepted := haccepted
    sends := hsends
    disconnect := hdisconnect
    writing := hstarts ▸ h.writing
    reads := hstarts ▸ h.reads
    handlers := hstarts ▸ h.handlers }

lemma Client.Own.callFront (h : s.Own) : s.callFront.Own := by
  unfold Client.callFront
  split
  next m rest hevents =>
    obtain ⟨hconn, hstate⟩ := h.sends m (by simp [hevents])
    exact { h with
      writing := fun c hc => (Option.some.inj hc).symm
      handed := forall_mem_snoc h.handed ⟨hconn.symm, hstate⟩ }
  next => exact h

lemma Client.callFront_writes (h : s.pendingWrites = 0) :
    s.callFront.pendingWrites = frontSends s.callFront.events := by
  unfold Client.callFront
  split
  next m rest hevents =>
    have hhandlers : s.handlers.countP Handler.write = 0 := Nat.eq_zero_of_add_eq_zero_left h
    simp only [Client.pendingWrites, hhandlers, hevents, frontSends, Option.isSome_some, if_true]
  next hne =>
    rw [h]
    unfold frontSends
    split
    next m rest hevents => exact absurd hevents (hne m rest)
    next => rfl

lemma Client.Inv.callFront (h : s.Own) (hwrites : s.pendingWrites = 0) : s.callFront.Inv :=
  ⟨h.callFront, Client.callFront_writes hwrites⟩

/-- An event goes to the back of the queue, a message only when no disconnect is there. -/
lemma Client.Inv.eventEnqueue (h : s.Inv)
    (hsend : ∀ m, e = .send m → m.conn = s.link.starts ∧
      (s.link.state = .started ∨ s.link.state = .stopping))
    (hdisconnect : e = .disconnect → s.link.state = .stopping)
    (hback : e ≠ .task → .disconnect ∉ s.events) : (s.eventEnqueue e).Inv := by
  have hown : Client.Own { s with events := s.events ++ [e] } := by
    have hsends : ∀ m, .send m ∈ s.events ++ [e] → m.conn = s.link.starts ∧
        (s.link.state = .started ∨ s.link.state = .stopping) := by
      intro m hm
      obtain hm | hm := List.mem_append.mp hm
      · exact h.own.sends m hm
      · exact hsend m (List.mem_singleton.mp hm).symm
    have hstopping : .disconnect ∈ s.events ++ [e] → s.link.state = .stopping := by
      intro hd
      obtain hd | hd := List.mem_append.mp hd
      · exact h.own.disconnect hd
      · exact hdisconnect (List.mem_singleton.mp hd).symm
    have horder : (s.events ++ [e]).Pairwise fun a b => a = .disconnect → b = .task := by
      apply List.pairwise_append.mpr ⟨h.own.order, List.pairwise_singleton _ _, _⟩
      intro a ha b hb had
      obtain rfl := List.mem_singleton.mp hb
      subst had
      by_contra hne
      exact hback hne ha
    exact { h.own with sends := hsends, disconnect := hstopping, order := horder }
  have hwrites := h.writes
  unfold Client.eventEnqueue
  cases hevents : s.events with
  | nil =>
    rw [hevents] at hown hwrites
    exact Client.Inv.callFront hown hwrites
  | cons x rest =>
    rw [hevents] at hown hwrites
    refine ⟨hown, ?_⟩
    cases x with
    | send m | disconnect | task => exact hwrites

/-- The event at the front leaves when its write has been dealt with. -/
lemma Client.Inv.nextEvent (h : s.Own) (hwrites : s.pendingWrites = 0) : s.nextEvent.Inv := by
  have hsub : ∀ e ∈ s.events.tail, e ∈ s.events := fun e he => List.mem_of_mem_tail he
  have hown : Client.Own { s with events := s.events.tail } :=
    { h with
      sends := fun m hm => h.sends m (hsub _ hm)
      disconnect := fun hd => h.disconnect (hsub _ hd)
      order := h.order.tail }
  exact Client.Inv.callFront hown hwrites

/-- A step of the link that is no start. -/
lemma Client.Inv.link (h : s.Inv) {op : Op} (n : ℕ) (hstart : op ≠ .start)
    (htask : ∀ i, op ≠ .disconnectTask i) (ht : s.link.exec false op = some t) :
    Client.Inv { s with link := t, recvTasks := n } :=
  ⟨h.own.relink n (h.own.posted.exec ht) (Link.exec_starts ht hstart)
    (Link.exec_forward ht hstart htask), h.writes⟩

/-- Nothing of the earlier connection is left when a connection starts. -/
lemma Client.Inv.start (h : s.Inv) (n : ℕ) (hreads : s.reads = [])
    (hhandlers : ∀ h ∈ s.handlers, h.write = true) (ht : s.link.exec false .start = some t) :
    Client.Inv { s with link := t, recvTasks := n } := by
  have hstopped : s.link.state = .stopped := by
    simp only [Link.exec] at ht
    split_ifs at ht with hs
    exact hs
  have hstarts : t.starts = s.link.starts + 1 := by
    simp only [Link.exec, if_pos hstopped] at ht
    obtain rfl := Option.some.inj ht
    rfl
  have hsends : ∀ m, .send m ∉ s.events := by
    intro m hm
    obtain ⟨-, hstate⟩ := h.own.sends m hm
    simp [hstopped] at hstate
  have hdisconnect : .disconnect ∉ s.events := by
    intro hd
    have hstate := h.own.disconnect hd
    simp [hstopped] at hstate
  have hnone : s.pendingWrites = 0 := by
    rw [h.writes]
    unfold frontSends
    split
    next m rest hevents => exact absurd (by simp [hevents]) (hsends m)
    next => rfl
  have hwriting : s.writing = none := by
    have hzero := Nat.eq_zero_of_add_eq_zero_right hnone
    by_contra hne
    rw [if_pos (Option.isSome_iff_ne_none.mpr hne)] at hzero
    cases hzero
  have hempty : s.handlers = [] := by
    have hzero : s.handlers.countP Handler.write = 0 := Nat.eq_zero_of_add_eq_zero_left hnone
    rw [List.countP_eq_zero] at hzero
    exact List.eq_nil_iff_forall_not_mem.mpr fun x hx => hzero x hx (hhandlers x hx)
  have haccepted : ∀ m ∈ s.accepted, m.conn ≤ t.starts ∧ (m.conn = t.starts → t.state ≠ .starting) := by
    intro m hm
    obtain ⟨hle, -⟩ := h.own.accepted m hm
    rw [hstarts]
    exact ⟨Nat.le_succ_of_le hle, fun heq => by omega⟩
  have hown : Client.Own { s with link := t, recvTasks := n } :=
    { h.own with
      posted := h.own.posted.exec ht
      accepted := haccepted
      sends := fun m hm => absurd hm (hsends m)
      disconnect := fun hd => absurd hd hdisconnect
      writing := by simp [hwriting]
      reads := by simp [hreads]
      handlers := by simp [hempty] }
  exact ⟨hown, h.writes⟩

lemma Client.Inv.send (h : s.Inv) (hs : s.link.state = .started) (body : M) :
    Client.Inv { s with accepted := s.accepted ++ [⟨s.link.starts, body⟩] } := by
  have hnew : s.link.starts ≤ s.link.starts ∧
      (s.link.starts = s.link.starts → s.link.state ≠ .starting) := ⟨le_rfl, fun _ => by simp [hs]⟩
  exact ⟨{ h.own with accepted := forall_mem_snoc h.own.accepted hnew }, h.writes⟩

lemma Client.Inv.enqueueSend (h : s.Inv) {i : ℕ} {m : Message M} (hm : s.accepted[i]? = some m)
    (hown : s.InOwnConnection (.enqueueSend i)) :
    ({ s with accepted := s.accepted.eraseIdx i }.eventEnqueue (.send m)).Inv := by
  obtain ⟨hconn, hstopped, hdisconnect⟩ := hown m hm
  obtain ⟨-, hstarting⟩ := h.own.accepted m (List.mem_of_getElem? hm)
  have hrest : Client.Inv { s with accepted := s.accepted.eraseIdx i } :=
    ⟨{ h.own with accepted := fun m hm => h.own.accepted m (List.mem_of_mem_eraseIdx hm) }, h.writes⟩
  apply hrest.eventEnqueue
  · intro m' hm'
    obtain rfl := ClientEvent.send.inj hm'
    refine ⟨hconn, ?_⟩
    cases hstate : s.link.state with
    | started => exact .inl rfl
    | stopping => exact .inr rfl
    | starting => exact absurd hstate (hstarting hconn)
    | stopped => exact absurd hstate hstopped
  · intro he
    cases he
  · exact fun _ => hdisconnect

/-- The disconnect runs at the front of the queue; only tasks are left then. -/
lemma Client.Inv.runDisconnect (h : s.Inv) (hfront : s.events.head? = some .disconnect)
    (ht : s.link.exec false (.disconnectTask 0) = some t) :
    (Client.nextEvent { s with link := t }).Inv := by
  obtain ⟨rest, hevents⟩ : ∃ rest, s.events = .disconnect :: rest := List.head?_eq_some_iff.mp hfront
  obtain ⟨-, hstopped⟩ := h.own.posted.disconnectTask ht
  have hstarts := Link.exec_starts ht (by simp)
  have horder := h.own.order
  have hwrites := h.writes
  rw [hevents] at horder hwrites
  have htasks : ∀ e ∈ rest, e = .task := fun e he => (List.pairwise_cons.mp horder).1 e he rfl
  have hown : Client.Own { s with link := t, events := s.events.tail } := by
    have haccepted : ∀ m ∈ s.accepted, m.conn ≤ t.starts ∧
        (m.conn = t.starts → t.state ≠ .starting) := by
      intro m hm
      obtain ⟨hle, -⟩ := h.own.accepted m hm
      rw [hstarts]
      exact ⟨hle, fun _ => by simp [hstopped]⟩
    rw [hevents]
    exact { h.own with
      posted := h.own.posted.exec ht
      accepted := haccepted
      sends := fun m hm => by cases htasks _ hm
      disconnect := fun hd => by cases htasks _ hd
      order := (List.pairwise_cons.mp horder).2
      writing := hstarts ▸ h.own.writing
      reads := hstarts ▸ h.own.reads
      handlers := hstarts ▸ h.own.handlers }
  exact Client.Inv.callFront hown hwrites

lemma Client.Inv.postRecv (h : s.Inv) : s.postRecv.Inv := by
  unfold Client.postRecv
  split_ifs
  · exact ⟨{ h.own with reads := forall_mem_snoc h.own.reads rfl }, h.writes⟩
  · exact h

lemma Client.Inv.startRecv (h : s.Inv) (n : ℕ) : Client.Inv { s with recvTasks := n } :=
  ⟨{ h.own with }, h.writes⟩

lemma Client.Inv.eraseRead (h : s.Inv) (i : ℕ) : Client.Inv { s with reads := s.reads.eraseIdx i } :=
  ⟨{ h.own with reads := fun c hc => h.own.reads c (List.mem_of_mem_eraseIdx hc) }, h.writes⟩

lemma Client.Inv.recvFailed (h : s.Inv) {i c : ℕ} (hc : s.reads[i]? = some c) :
    Client.Inv { s with
      reads := s.reads.eraseIdx i, handlers := s.handlers ++ [⟨c, .started, false⟩] } := by
  have hrest := h.eraseRead i
  have hconn := h.own.reads c (List.mem_of_getElem? hc)
  constructor
  · exact { hrest.own with handlers := forall_mem_snoc h.own.handlers hconn }
  · rw [← hrest.writes]
    simp [Client.pendingWrites]

/-- A write ends: its message is dealt with, or its handler disconnects. -/
lemma Client.Inv.writeDone (h : s.Inv) {c : ℕ} (hc : s.writing = some c) :
    (Client.nextEvent { s with writing := none }).Inv ∧
      Client.Inv { s with writing := none, handlers := s.handlers ++ [⟨c, .started, true⟩] } := by
  have hconn := h.own.writing c hc
  have hwrites := h.writes
  have hle := frontSends_le s.events
  simp only [Client.pendingWrites, hc, Option.isSome_some, if_true] at hwrites
  constructor
  · apply Client.Inv.nextEvent
    · exact { h.own with writing := by simp }
    · show 0 + s.handlers.countP Handler.write = 0
      omega
  · constructor
    · exact { h.own with writing := by simp, handlers := forall_mem_snoc h.own.handlers hconn }
    · rw [← hwrites]
      simp [Client.pendingWrites]
      omega

/-- The handler of a failed read or write disconnects its own connection. -/
lemma Client.Inv.handler (h : s.Inv) {i : ℕ} {x : Handler} (hx : s.handlers[i]? = some x)
    (ht : { s.link with calls := [x.pc] }.exec false x.pc.op = some t) : (s.handlerStep i x t).Inv := by
  have hmem := List.mem_of_getElem? hx
  have hstart : x.pc.op ≠ .start := by cases x.pc <;> simp [DisconnectPc.op]
  have htask : ∀ i, x.pc.op ≠ .disconnectTask i := by cases x.pc <;> simp [DisconnectPc.op]
  have hposted : Link.Posted { s.link with calls := [x.pc] } := h.own.posted
  have hafter := hposted.exec ht
  have hforward := Link.exec_forward ht hstart htask
  have hlast := Link.exec_starts ht hstart
  have hstarts : t.starts = s.link.starts := hlast
  have hlink : Client.Own { s with link := { t with calls := s.link.calls }, recvTasks := s.recvTasks } :=
    h.own.relink s.recvTasks hafter hstarts hforward
  have hown : ∀ handlers : List Handler, (∀ y ∈ handlers, y.conn = s.link.starts) →
      Client.Own { s with
        link := { t with calls := s.link.calls }, handlers := handlers
        moved := if t.state = s.link.state then s.moved
          else s.moved ++ [(x.conn, s.link.starts)] } := by
    intro handlers hhandlers
    have hmoved : ∀ m ∈ if t.state = s.link.state then s.moved else s.moved ++ [(x.conn, s.link.starts)],
        m.2 = m.1 := by
      split_ifs
      · exact h.own.moved
      · exact forall_mem_snoc h.own.moved (h.own.handlers x hmem).symm
    exact { hlink with handlers := hstarts ▸ hhandlers, moved := hmoved }
  have hwrites := h.writes
  unfold Client.handlerStep
  cases hcalls : t.calls with
  | cons pc rest =>
    refine ⟨hown _ fun y hy => ?_, ?_⟩
    · obtain hy | rfl := List.mem_or_eq_of_mem_set hy
      · exact h.own.handlers y hy
      · exact h.own.handlers x hmem
    · have hcount : (s.handlers.set i { x with pc := pc }).countP Handler.write =
          s.handlers.countP Handler.write := countP_set_same hx rfl
      rw [← hwrites]
      unfold Client.pendingWrites
      dsimp only
      rw [hcount]
  | nil =>
    have hrest := hown (s.handlers.eraseIdx i) fun y hy =>
      h.own.handlers y (List.mem_of_mem_eraseIdx hy)
    have hcount : s.handlers.countP Handler.write =
        (s.handlers.eraseIdx i).countP Handler.write + if x.write then 1 else 0 :=
      countP_eraseIdx hx
    have hle := frontSends_le s.events
    unfold Client.pendingWrites at hwrites
    dsimp only
    by_cases hwrite : x.write = true
    · rw [if_pos hwrite] at hcount ⊢
      apply Client.Inv.nextEvent hrest
      unfold Client.pendingWrites
      dsimp only
      omega
    · rw [if_neg hwrite] at hcount ⊢
      refine ⟨hrest, ?_⟩
      unfold Client.pendingWrites
      dsimp only
      omega

lemma Client.Inv.step (h : s.Inv) {op : ClientOp M} (hop : s.InOwnConnection op) (hs : s.step op s') :
    s'.Inv := by
  cases op with
  | link op =>
    obtain ⟨htask, t, ht, rfl⟩ := hs
    by_cases hstart : op = .start
    · subst hstart
      exact h.start _ hop.1 hop.2 ht
    · exact h.link _ hstart htask ht
  | send body =>
    obtain ⟨hstate, rfl⟩ := hs
    exact h.send hstate body
  | enqueueSend i =>
    obtain ⟨m, hm, rfl⟩ := hs
    exact h.enqueueSend hm hop
  | enqueueDisconnect =>
    obtain ⟨hposted, hnew, rfl⟩ := hs
    apply h.eventEnqueue
    · intro m hm
      cases hm
    · intro _
      by_contra hne
      exact hposted (h.own.posted.nil hne)
    · exact fun _ => hnew
  | enqueueTask =>
    obtain rfl := hs
    apply h.eventEnqueue
    · intro m hm
      cases hm
    · intro he
      cases he
    · exact fun hne => absurd rfl hne
  | runDisconnect =>
    obtain ⟨hfront, t, ht, rfl⟩ := hs
    exact h.runDisconnect hfront ht
  | runTask =>
    obtain ⟨hfront, rfl⟩ := hs
    obtain ⟨rest, hevents⟩ : ∃ rest, s.events = .task :: rest := List.head?_eq_some_iff.mp hfront
    apply Client.Inv.nextEvent h.own
    rw [h.writes, hevents]
    rfl
  | startRecv =>
    obtain ⟨-, rfl⟩ := hs
    exact (h.startRecv _).postRecv
  | recvDone i ec =>
    obtain ⟨c, hc, rfl⟩ := hs
    cases ec with
    | true => exact h.recvFailed hc
    | false => exact (h.eraseRead i).postRecv
  | writeDone ec =>
    obtain ⟨c, hc, rfl⟩ := hs
    cases ec with
    | true => exact (h.writeDone hc).2
    | false => exact (h.writeDone hc).1
  | handler i =>
    obtain ⟨x, hx, t, ht, rfl⟩ := hs
    exact h.handler hx ht

/-- In every run in which the messages enter the queue during their connections, before the
disconnects of these, and no connection starts while a read of an earlier one is under way, the
connections are isolated. -/
theorem connections_isolated (h : Reachable ((clientRuns M).restrict Client.InOwnConnection) s) :
    s.Isolated := by
  have hinv : s.Inv := by
    apply h.invariant
    · intro s hs
      cases hs
      refine ⟨⟨rfl, ?_, ?_, ?_, .nil, ?_, ?_, ?_, ?_, ?_⟩, rfl⟩
      all_goals simp
    · intro s op s' hs hstep
      exact hs.step hstep.1 hstep.2
  exact ⟨hinv.own.handed, hinv.own.moved⟩

/-- A read of an earlier connection that fails while a later one is starting disconnects it. -/
theorem stale_read_disconnects (h : Reachable (clientRuns M) s) {i c : ℕ} (hc : s.reads[i]? = some c)
    (hstale : c ≠ s.link.starts) (hstate : s.link.state = .starting) :
    ∃ s', Reachable (clientRuns M) s' ∧ s'.link.state = .stopping ∧ ¬ s'.Isolated := by
  have hlast : ∀ x : Handler, (s.handlers ++ [x])[s.handlers.length]? = some x := by simp
  let first : Client M := { s with
    reads := s.reads.eraseIdx i, handlers := s.handlers ++ [⟨c, .started, false⟩] }
  let second : Client M := { first with handlers := s.handlers ++ [⟨c, .starting, false⟩] }
  have hfailed : (clientRuns M).step s (.recvDone i true) first := ⟨c, hc, rfl⟩
  have hstarted : (clientRuns M).step first (.handler s.handlers.length) second := by
    refine ⟨_, hlast _, { s.link with calls := [.starting] }, ?_, ?_⟩
    · simp [DisconnectPc.op, Link.exec, first, hstate]
    · simp [Client.handlerStep, first, second]
  let t : Link := { s.link with
    state := .stopping, calls := [], posted := s.link.posted ++ [.starting] }
  have hstarting : (clientRuns M).step second (.handler s.handlers.length)
      (second.handlerStep s.handlers.length ⟨c, .starting, false⟩ t) := by
    refine ⟨_, hlast _, t, ?_, rfl⟩
    simp [DisconnectPc.op, Link.exec, first, second, t, hstate]
  refine ⟨_, ((h.step hfailed).step hstarted).step hstarting, rfl, fun hisolated => ?_⟩
  have herror := hisolated.errors (c, s.link.starts)
    (by simp [Client.handlerStep, first, second, t, hstate])
  exact hstale herror.symm

end Runs

section Examples
variable {accepted : List (Message Unit)} {handed : List (Handed Unit)}

/-- A first connection with a read under way. -/
lemma connected_once : Reachable ((clientRuns Unit).restrict Client.InOwnConnection)
    { link := { state := .started, starts := 1, log := [.start, .fireConnect 1] }, reads := [1] } := by
  have h0 : Reachable ((clientRuns Unit).restrict Client.InOwnConnection) ({} : Client Unit) := .init rfl
  have h1 := @Reachable.step _ _ _ (ClientOp.link .start) _ _ h0
    ⟨⟨rfl, by simp⟩, by simp, _, rfl, rfl⟩
  have h2 := @Reachable.step _ _ _ (ClientOp.link (.connect 0 false)) _ _ h1 ⟨trivial, by simp, _, rfl, rfl⟩
  have h3 := @Reachable.step _ _ _ (ClientOp.link (.connect 0 false)) _ _ h2 ⟨trivial, by simp, _, rfl, rfl⟩
  have h4 := @Reachable.step _ _ _ (ClientOp.link (.connect 0 false)) _ _ h3 ⟨trivial, by simp, _, rfl, rfl⟩
  have h5 := @Reachable.step _ _ _ (ClientOp.link (.connect 0 false)) _ _ h4 ⟨trivial, by simp, _, rfl, rfl⟩
  have h6 := @Reachable.step _ _ _ (ClientOp.link (.connect 0 false)) _ _ h5 ⟨trivial, by simp, _, rfl, rfl⟩
  have h7 := @Reachable.step _ _ _ (ClientOp.link (.connect 0 false)) _ _ h6 ⟨trivial, by simp, _, rfl, rfl⟩
  exact @Reachable.step _ _ _ ClientOp.startRecv _ _ h7 ⟨trivial, Nat.one_pos, rfl⟩

/-- It is stopped; the read is still to be reported. -/
lemma disconnected_once (h : Reachable ((clientRuns Unit).restrict Client.InOwnConnection)
    { link := { state := .started, starts := 1, log := [.start, .fireConnect 1] }
      accepted := accepted, reads := [1], handed := handed }) :
    Reachable ((clientRuns Unit).restrict Client.InOwnConnection)
      { link := { state := .stopped, starts := 1, log := [.start, .fireConnect 1, .fireDisconnect] }
        accepted := accepted, reads := [1], handed := handed } := by
  have h1 := @Reachable.step _ _ _ (ClientOp.link .stop) _ _ h ⟨trivial, by simp, _, rfl, rfl⟩
  have h2 := @Reachable.step _ _ _ (ClientOp.link (.leaveStarted 0)) _ _ h1 ⟨trivial, by simp, _, rfl, rfl⟩
  have h3 := @Reachable.step _ _ _ ClientOp.enqueueDisconnect _ _ h2 ⟨trivial, by simp, by simp, rfl⟩
  have h4 := @Reachable.step _ _ _ ClientOp.runDisconnect _ _ h3 ⟨trivial, rfl, _, rfl, rfl⟩
  exact @Reachable.step _ _ _ (ClientOp.link .fireDisconnect) _ _ h4 ⟨trivial, by simp, _, rfl, rfl⟩

/-- The read fails while the client is stopped, and a second connection starts. -/
lemma connected_twice (h : Reachable ((clientRuns Unit).restrict Client.InOwnConnection)
    { link := { state := .stopped, starts := 1, log := [.start, .fireConnect 1, .fireDisconnect] }
      accepted := accepted, reads := [1], handed := handed }) :
    Reachable ((clientRuns Unit).restrict Client.InOwnConnection)
      { link :=
          { state := .started, starts := 2, completions := [⟨2, .check false⟩]
            log := [.start, .fireConnect 1, .fireDisconnect, .start] }
        accepted := accepted, handed := handed } := by
  have h1 := @Reachable.step _ _ _ (ClientOp.recvDone 0 true) _ _ h ⟨trivial, 1, rfl, rfl⟩
  have h2 := @Reachable.step _ _ _ (ClientOp.handler 0) _ _ h1 ⟨trivial, _, rfl, _, rfl, rfl⟩
  have h3 : Reachable ((clientRuns Unit).restrict Client.InOwnConnection)
      { link := { state := .stopped, starts := 1, log := [.start, .fireConnect 1, .fireDisconnect] }
        accepted := accepted, handed := handed } :=
    @Reachable.step _ _ _ (ClientOp.handler 0) _ _ h2 ⟨trivial, _, rfl, _, rfl, rfl⟩
  have h4 := @Reachable.step _ _ _ (ClientOp.link .start) _ _ h3
    ⟨⟨rfl, by simp⟩, by simp, _, rfl, rfl⟩
  have h5 := @Reachable.step _ _ _ (ClientOp.link (.connect 0 false)) _ _ h4 ⟨trivial, by simp, _, rfl, rfl⟩
  exact @Reachable.step _ _ _ (ClientOp.link (.connect 0 false)) _ _ h5 ⟨trivial, by simp, _, rfl, rfl⟩

/-- A client connects, sends, is disconnected and connects again. -/
theorem connections_isolated_reconnect :
    ∃ s : Client Unit, Reachable ((clientRuns Unit).restrict Client.InOwnConnection) s ∧
      s.link.starts = 2 ∧ s.handed.length = 1 ∧ s.Isolated := by
  have h1 := @Reachable.step _ _ _ (ClientOp.send ()) _ _ connected_once ⟨trivial, rfl, rfl⟩
  have h2 := @Reachable.step _ _ _ (ClientOp.enqueueSend 0) _ _ h1
    ⟨(by rintro m hm; cases hm; exact ⟨rfl, by simp, by simp⟩), _, rfl, rfl⟩
  have h3 := @Reachable.step _ _ _ (ClientOp.writeDone false) _ _ h2 ⟨trivial, 1, rfl, rfl⟩
  have h4 := connected_twice (disconnected_once h3)
  exact ⟨_, h4, rfl, rfl, connections_isolated h4⟩

/-- A message that was accepted in the first connection enters the queue in the second; a read of
the first connection fails while the second is starting. -/
theorem connections_mixed :
    (∃ s : Client Unit, Reachable (clientRuns Unit) s ∧
      ∃ h ∈ s.handed, h.message.conn = 1 ∧ h.conn = 2) ∧
    (∃ s : Client Unit, Reachable (clientRuns Unit) s ∧ (1, 2) ∈ s.moved) ∧
    ¬ ∀ s : Client Unit, Reachable (clientRuns Unit) s → s.Isolated := by
  have hsent : ∃ s : Client Unit, Reachable (clientRuns Unit) s ∧
      ∃ h ∈ s.handed, h.message.conn = 1 ∧ h.conn = 2 := by
    have h1 := @Reachable.step _ _ _ (ClientOp.send ()) _ _ connected_once ⟨trivial, rfl, rfl⟩
    have h2 := (connected_twice (disconnected_once h1)).of_restrict
    have h3 := @Reachable.step _ _ _ (ClientOp.enqueueSend 0) _ _ h2 ⟨_, rfl, rfl⟩
    exact ⟨_, h3, _, List.mem_cons_self, rfl, rfl⟩
  have hmoved : ∃ s : Client Unit, Reachable (clientRuns Unit) s ∧ (1, 2) ∈ s.moved := by
    have h1 := (disconnected_once connected_once).of_restrict
    have h2 := @Reachable.step _ _ _ (ClientOp.link .start) _ _ h1 ⟨by simp, _, rfl, rfl⟩
    have h3 := @Reachable.step _ _ _ (ClientOp.recvDone 0 true) _ _ h2 ⟨1, rfl, rfl⟩
    have h4 := @Reachable.step _ _ _ (ClientOp.handler 0) _ _ h3 ⟨_, rfl, _, rfl, rfl⟩
    have h5 := @Reachable.step _ _ _ (ClientOp.handler 0) _ _ h4 ⟨_, rfl, _, rfl, rfl⟩
    exact ⟨_, h5, List.mem_cons_self⟩
  refine ⟨hsent, hmoved, fun hall => ?_⟩
  obtain ⟨s, hs, hmem⟩ := hmoved
  have herror := (hall s hs).errors (1, 2) hmem
  cases herror

end Examples

end TyphoonZero.NetConnect
