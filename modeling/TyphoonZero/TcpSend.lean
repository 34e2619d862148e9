import TyphoonZero.EventQueue
import TyphoonZero.MessageBuffer
import TyphoonZero.TcpFramingExact

/-! Sending: a message buffer is moved into an event, and the event hands its bytes
to the socket when it starts. -/
namespace TyphoonZero.TcpSend
open Transition EventQueue MessageBuffer TcpFraming

/-- The events of a connection: sends, and tasks that write nothing. -/
inductive Event
  | send (buffer : MessageBuffer)
  | task

/-- `TcpSend`: the bytes given to `async_write`, from the base pointer on as many as
the buffer is large. -/
def tcpSend (buffer : MessageBuffer) : List UInt8 := buffer.storage.take buffer.getBufferSize

/-- What the event gives to the socket, and what it should. -/
def Event.written : Event → List UInt8
  | .send buffer => tcpSend buffer
  | .task => []

def Event.active : Event → List UInt8
  | .send buffer => buffer.active
  | .task => []

/-- The bytes handed to the socket so far, a write at a time. -/
def wire {G : Type} (s : EventQueue Event G) : List UInt8 := s.started.flatMap Event.written

section Sendable
variable {Header : Type} (P : Protocol Header)

/-- A buffer that came about by its own operations and whose active bytes are a frame. -/
structure Sendable (buffer : MessageBuffer) : Prop where
  reachable : Reachable bufferRuns buffer
  wf : buffer.Wf
  frame : ∃ f : Frame P, buffer.active = f.encode

/-- The buffer of the event was moved from such a buffer of the caller. -/
def Event.Sendable : Event → Prop
  | .send buffer => ∃ given, buffer = given.moveFrom.1 ∧ TcpSend.Sendable P given
  | .task => True

/-- `Send` on a started connection, by any caller, and the tasks that go the same way. -/
def SendsFrames {G : Type} (_ : EventQueue Event G) : EventQueue.Op Event G → Prop
  | .enqueueOnStrand e _ => e.Sendable P
  | .enqueueOffStrand e => e.Sendable P
  | _ => True

def sendRuns (G : Type) [DecidableEq G] : System (EventQueue Event G) (EventQueue.Op Event G) :=
  (eventRuns Event G).restrict (SendsFrames P)

/-- The socket got the active bytes of the started sends, which are the first of
those that entered the queue, in its order; and of all of them when none is running. -/
structure SendsActive {G : Type} (s : EventQueue Event G) : Prop where
  bytes : wire s = s.started.flatMap Event.active
  order : s.entered = s.started ++ s.events.tail
  all : Quiet s → wire s = s.entered.flatMap Event.active

/-- The positions of the buffer are the ends of its storage. -/
def Event.Exact : Event → Prop
  | .send buffer => buffer.wpos - buffer.rpos = buffer.storage.length
  | .task => True

variable {P}

lemma Event.Sendable.wf {buffer : MessageBuffer} (h : (Event.send buffer).Sendable P) : buffer.Wf := by
  obtain ⟨given, rfl, hs⟩ := h
  exact hs.wf

lemma tcpSend_eq (buffer : MessageBuffer) : tcpSend buffer = buffer.storage := List.take_length

lemma active_length_le {e : Event} (h : e.Sendable P) : e.active.length ≤ e.written.length := by
  cases e with
  | send buffer =>
    simp only [Event.active, Event.written, tcpSend_eq]
    exact length_active_le h.wf
  | task => exact le_rfl

lemma written_eq_active_iff {e : Event} (h : e.Sendable P) : e.written = e.active ↔ e.Exact := by
  cases e with
  | send buffer =>
    simp only [Event.active, Event.written, tcpSend_eq]
    exact storage_eq_active_iff h.wf
  | task => exact iff_of_true rfl trivial

end Sendable

/-- Concatenations of parts that are no shorter agree part by part. -/
lemma flatMap_eq_iff {α β : Type*} {f g : α → List β} {xs : List α}
    (h : ∀ x ∈ xs, (g x).length ≤ (f x).length) :
    xs.flatMap f = xs.flatMap g ↔ ∀ x ∈ xs, f x = g x := by
  have hlen : ∀ ys : List α, (∀ x ∈ ys, (g x).length ≤ (f x).length) →
      (ys.flatMap g).length ≤ (ys.flatMap f).length := by
    intro ys hys
    rw [List.length_flatMap, List.length_flatMap]
    exact List.sum_le_sum hys
  induction xs with
  | nil => simp
  | cons x xs ih =>
    have hx := h x List.mem_cons_self
    have hxs : ∀ y ∈ xs, (g y).length ≤ (f y).length := fun y hy => h y (List.mem_cons_of_mem x hy)
    have hih : xs.flatMap f = xs.flatMap g ↔ ∀ y ∈ xs, f y = g y := ih hxs
    rw [List.forall_mem_cons, ← hih, List.flatMap_cons, List.flatMap_cons]
    constructor
    · intro heq
      have htotal := congrArg List.length heq
      rw [List.length_append, List.length_append] at htotal
      have hrest := hlen xs hxs
      exact List.append_inj heq (by omega)
    · intro heq
      rw [heq.1, heq.2]

section Runs
variable {Header G : Type} [DecidableEq G] {P : Protocol Header} {s t : EventQueue Event G}

/-- The events of the run and of the posted tasks are of sendable buffers. -/
structure AllSendable (P : Protocol Header) (s : EventQueue Event G) : Prop where
  entered : ∀ e ∈ s.entered, e.Sendable P
  posted : ∀ e, Task.enqueue e ∈ s.posted → e.Sendable P

omit [DecidableEq G] in
lemma AllSendable.entering (h : AllSendable P s) {op : EventQueue.Op Event G} (hc : SendsFrames P s op) :
    ∀ e ∈ op.entering s, e.Sendable P := by
  intro e he
  cases op with
  | enqueueOnStrand e' fresh =>
    obtain rfl := List.mem_singleton.mp he
    exact hc
  | runPosted i fresh =>
    obtain ⟨task, hi, htask⟩ := Option.bind_eq_some_iff.mp (Option.mem_toList.mp he)
    cases task with
    | enqueue e' =>
      obtain rfl := Option.some.inj htask
      exact h.posted _ (List.mem_of_getElem? hi)
    | next => cases htask
  | enqueueOffStrand | move | releaseOnStrand | releaseOffStrand => exact absurd he List.not_mem_nil

/-- Only a call from off the strand brings an event to the posted ones. -/
lemma perform_posted_sendable {op : EventQueue.Op Event G} (h : AllSendable P s) (hc : SendsFrames P s op)
    (hs : perform s op = some t) : ∀ e, Task.enqueue e ∈ t.posted → e.Sendable P := by
  intro e he
  have hmem : e ∈ t.posted.filterMap Task.event := List.mem_filterMap.mpr ⟨_, he, rfl⟩
  have hall : e ∈ s.posted.filterMap Task.event ++ op.called :=
    (perform_posted hs).subset (List.mem_append_right _ hmem)
  rcases List.mem_append.mp hall with hposted | hcalled
  · obtain ⟨task, htask, hevent⟩ := List.mem_filterMap.mp hposted
    cases task with
    | enqueue e' =>
      obtain rfl := Option.some.inj hevent
      exact h.posted _ htask
    | next => cases hevent
  · cases op with
    | enqueueOnStrand e' fresh | enqueueOffStrand e' =>
      obtain rfl := List.mem_singleton.mp hcalled
      exact hc
    | runPosted | move | releaseOnStrand | releaseOffStrand => exact absurd hcalled List.not_mem_nil

lemma exec_sendable {op : EventQueue.Op Event G} (h : AllSendable P s) (hc : SendsFrames P s op)
    (hs : EventQueue.exec s op = some t) : AllSendable P t := by
  obtain ⟨u, hu, rfl⟩ := Option.map_eq_some_iff.mp hs
  refine ⟨fun e he => ?_, @perform_posted_sendable _ _ _ _ s u op h hc hu⟩
  rcases List.mem_append.mp he with hentered | hentering
  · exact h.entered e hentered
  · exact h.entering hc e hentering

lemma sendable_of_reachable (h : Reachable (sendRuns P G) s) : AllSendable P s := by
  apply h.invariant
  · intro a ha
    cases ha
    refine ⟨?_, ?_⟩
    · intro e he
      cases he
    · intro e he
      cases he
  · intro _ _ _ hi hs
    exact exec_sendable hi hs.1 hs.2

/-- In every run the socket gets exactly the active bytes, in the order of the queue,
just when every buffer that was sent so far is full to its end and unread. -/
theorem tcpSend_sends_active_iff (h : Reachable (sendRuns P G) s) :
    SendsActive s ↔ ∀ e ∈ s.started, e.Exact := by
  have hserial := serial_of_reachable h.of_restrict
  have hall := sendable_of_reachable h
  have hsendable : ∀ e ∈ s.started, e.Sendable P := by
    intro e he
    apply hall.entered
    rw [hserial.order]
    exact List.mem_append_left _ he
  have hbytes : wire s = s.started.flatMap Event.active ↔ ∀ e ∈ s.started, e.Exact := by
    rw [wire, flatMap_eq_iff fun e he => active_length_le (hsendable e he)]
    constructor
    · intro heq e he
      exact (written_eq_active_iff (hsendable e he)).mp (heq e he)
    · intro hexact e he
      exact (written_eq_active_iff (hsendable e he)).mpr (hexact e he)
  constructor
  · intro hs
    exact hbytes.mp hs.bytes
  · intro hexact
    have hwire := hbytes.mpr hexact
    refine ⟨hwire, hserial.order, ?_⟩
    intro hq
    rw [hwire, started_of_quiet hserial hq]

end Runs

/-- The frame with header `0x20, 1` and body `7`. -/
def sevenFrame : Frame sizeOnly := ⟨1, [0x20, 1], [7], by simp, by simp, rfl, rfl⟩

lemma reachable_write (b : MessageBuffer) (data : List UInt8) (c : MessageBuffer)
    (h : Reachable bufferRuns b) (hw : b.write data = some c) : Reachable bufferRuns c :=
  @Reachable.step _ _ bufferRuns (.write data) _ _ h hw

/-- A buffer of exactly the size of its frame is sent as it is. -/
theorem tcpSend_sends_active_iff_exact_size :
    ∃ s : EventQueue Event ℕ, Reachable (sendRuns sizeOnly ℕ) s ∧
      s.started = [.send ⟨5, 0, [2, 0, 0x20, 1, 7]⟩] ∧ SendsActive s := by
  have hb : Sendable sizeOnly ⟨5, 0, [2, 0, 0x20, 1, 7]⟩ :=
    ⟨reachable_write (.ofSize 5) [2, 0, 0x20, 1, 7] _ (.init (.inr ⟨5, rfl⟩)) rfl, by decide, sevenFrame, rfl⟩
  have h0 : Reachable (sendRuns sizeOnly ℕ) {} := .init rfl
  have hc : SendsFrames sizeOnly ({} : EventQueue Event ℕ)
      (.enqueueOffStrand (.send ⟨5, 0, [2, 0, 0x20, 1, 7]⟩)) := ⟨_, rfl, hb⟩
  have h1 := h0.step ⟨hc, rfl⟩
  have h2 := @Reachable.step _ _ _ (EventQueue.Op.runPosted 0 0) _ _ h1 ⟨trivial, rfl⟩
  refine ⟨_, h2, rfl, (tcpSend_sends_active_iff h2).mpr ?_⟩
  intro e he
  obtain rfl := List.mem_singleton.mp he
  rfl

/-- One spare byte behind the frame is sent with it. -/
theorem tcpSend_sends_spare_byte :
    ∃ s : EventQueue Event ℕ, Reachable (sendRuns sizeOnly ℕ) s ∧
      s.started.flatMap Event.active = [2, 0, 0x20, 1, 7] ∧ wire s = [2, 0, 0x20, 1, 7, 0] ∧
      ¬ SendsActive s := by
  have hb : Sendable sizeOnly ⟨5, 0, [2, 0, 0x20, 1, 7, 0]⟩ :=
    ⟨reachable_write (.ofSize 6) [2, 0, 0x20, 1, 7] _ (.init (.inr ⟨6, rfl⟩)) rfl, by decide, sevenFrame, rfl⟩
  have h0 : Reachable (sendRuns sizeOnly ℕ) {} := .init rfl
  have hc : SendsFrames sizeOnly ({} : EventQueue Event ℕ)
      (.enqueueOnStrand (.send ⟨5, 0, [2, 0, 0x20, 1, 7, 0]⟩) 0) := ⟨_, rfl, hb⟩
  have h1 := h0.step ⟨hc, rfl⟩
  refine ⟨_, h1, rfl, rfl, ?_⟩
  intro hs
  cases hs.bytes

end TyphoonZero.TcpSend
