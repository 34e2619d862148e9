import TyphoonZero.RpcSession

/-! The packets of a session on their way: from `Send` over the event queue of the connection to the
stream, and out of the stream at the other end. -/
namespace TyphoonZero.Rpc
open Transition MessageBuffer EventQueue TcpFraming

/-- What a service asks of its session. -/
inductive Call
  | request (serviceHash methodId : UInt32) (request : Message)
  | status (serviceHash methodId token : UInt32) (status : Int32)
  | response (serviceHash methodId token : UInt32) (response : Message)

namespace Call

def run (s : Session) : Call → Session
  | .request serviceHash methodId message => s.sendRequest serviceHash methodId message
  | .status serviceHash methodId token code => s.sendStatus serviceHash methodId token code
  | .response serviceHash methodId token message => s.sendResponse serviceHash methodId token message

def serviceHash : Call → UInt32
  | .request serviceHash _ _ => serviceHash
  | .status serviceHash _ _ _ => serviceHash
  | .response serviceHash _ _ _ => serviceHash

/-- The packet of a call, when the session is at some token. -/
def packet (requestToken : UInt32) : Call → Packet
  | .request serviceHash methodId message =>
    ⟨{ serviceHash, methodId, token := requestToken, size := UInt32.ofNat message.byteSizeLong }, some message⟩
  | .status serviceHash methodId token code => ⟨{ serviceHash, methodId, token, status := code }, none⟩
  | .response serviceHash methodId token message =>
    ⟨{ serviceHash, methodId, token, size := UInt32.ofNat message.byteSizeLong }, some message⟩

/-- It is the one that the session itself hands to `Send`. -/
lemma run_sent (c : Call) (s : Session) : (c.run s).sent = s.sent ++ [c.packet s.requestToken] := by
  cases c with
  | request | status | response => rfl

lemma packet_wf {c : Call} (h : c.serviceHash ≠ 0) (requestToken : UInt32) : (c.packet requestToken).Wf := by
  cases c with
  | request | status | response => exact ⟨rfl, fun heq => h (congrArg Header.serviceHash heq)⟩

end Call

/-- `given` are the packets that came to `Send` while the session was started, as the run records them. -/
structure Connection (G : Type) where
  session : Session := {}
  queue : EventQueue Packet G := {}
  started : Bool := false
  given : List Packet := []

/-- The session starts and stops; a call on the strand, where `fresh` is the place of a guard that it
may create, or off it; and what the strand does by itself. -/
inductive Op (G : Type)
  | setStarted (started : Bool)
  | call (c : Call) (fresh : Option G)
  | runPosted (i : ℕ) (fresh : G)
  | move (g fresh : G)
  | releaseOnStrand (g fresh : G)
  | releaseOffStrand (g : G)

section Runs
variable {G : Type} [DecidableEq G]

def enqueue (p : Packet) : Option G → EventQueue.Op Packet G
  | some fresh => .enqueueOnStrand p fresh
  | none => .enqueueOffStrand p

/-- `Send` moves the packet into an event; on a session that is not started it drops it. -/
def Connection.send (s : Connection G) (p : Packet) (fresh : Option G) : Option (Connection G) :=
  if s.started then (EventQueue.exec s.queue (enqueue p fresh)).map fun queue => { s with queue }
  else some s

def perform (s : Connection G) : Op G → Option (Connection G)
  | .setStarted started => some { s with started }
  | .call c fresh => ({ s with session := c.run s.session }).send (c.packet s.session.requestToken) fresh
  | .runPosted i fresh => (EventQueue.exec s.queue (.runPosted i fresh)).map fun queue => { s with queue }
  | .move g fresh => (EventQueue.exec s.queue (.move g fresh)).map fun queue => { s with queue }
  | .releaseOnStrand g fresh => (EventQueue.exec s.queue (.releaseOnStrand g fresh)).map fun queue => { s with queue }
  | .releaseOffStrand g => (EventQueue.exec s.queue (.releaseOffStrand g)).map fun queue => { s with queue }

def Op.given (s : Connection G) : Op G → List Packet
  | .call c _ => if s.started then [c.packet s.session.requestToken] else []
  | _ => []

/-- The operation, with the record of what it gives to `Send`. -/
def exec (s : Connection G) (op : Op G) : Option (Connection G) :=
  (perform s op).map fun t => { t with given := s.given ++ op.given s }

/-- No service has the hash 0. -/
def Op.Named : Op G → Prop
  | .call c _ => c.serviceHash ≠ 0
  | _ => True

def connectionRuns (G : Type) [DecidableEq G] : System (Connection G) (Op G) where
  init s := s = {}
  step s op t := op.Named ∧ exec s op = some t

/-- The bytes handed to the socket so far. -/
def Connection.wire (native : ByteOrder.Endian) (s : Connection G) : List UInt8 :=
  s.queue.started.flatMap fun p => ((p.buffer native).map TcpSend.tcpSend).getD []

end Runs

section Delivery
variable {G : Type} [DecidableEq G] {s t : Connection G}

/-- Just what came to `Send` on a started session was given to the queue. -/
structure ConnectionInv (s : Connection G) : Prop where
  reachable : Reachable (eventRuns Packet G) s.queue
  called : s.queue.called = s.given
  wf : ∀ p ∈ s.given, p.Wf

lemma exec_called {E : Type} {q q' : EventQueue E G} {op : EventQueue.Op E G} (h : EventQueue.exec q op = some q') :
    q'.called = q.called ++ op.called := by
  obtain ⟨u, -, rfl⟩ := Option.map_eq_some_iff.mp h
  rfl

lemma send_inv {p : Packet} {fresh : Option G} (h : ConnectionInv s) (hp : p.Wf) (hs : s.send p fresh = some t) :
    ConnectionInv { t with given := s.given ++ if s.started then [p] else [] } := by
  unfold Connection.send at hs
  split_ifs at hs with hstarted
  · obtain ⟨queue, hq, rfl⟩ := Option.map_eq_some_iff.mp hs
    refine ⟨h.reachable.step hq, ?_, fun p' hp' => ?_⟩
    · have hcalled : (enqueue p fresh).called = [p] := by cases fresh <;> rfl
      dsimp only
      rw [if_pos hstarted, exec_called hq, hcalled, h.called]
    · rw [if_pos hstarted, List.mem_append, List.mem_singleton] at hp'
      rcases hp' with hp' | rfl
      · exact h.wf p' hp'
      · exact hp
  · obtain rfl := Option.some.inj hs
    rw [if_neg hstarted, List.append_nil]
    exact h

/-- The queue goes on by itself. -/
lemma queue_inv {op : EventQueue.Op Packet G} {queue : EventQueue Packet G} (h : ConnectionInv s)
    (hs : EventQueue.exec s.queue op = some queue) (hnone : op.called = []) :
    ConnectionInv { s with queue, given := s.given ++ [] } := by
  refine ⟨h.reachable.step hs, ?_, ?_⟩
  · dsimp only
    rw [exec_called hs, hnone, h.called]
  · rw [List.append_nil]
    exact h.wf

lemma exec_inv {op : Op G} (h : ConnectionInv s) (hn : op.Named) (hs : exec s op = some t) : ConnectionInv t := by
  obtain ⟨u, hu, rfl⟩ := Option.map_eq_some_iff.mp hs
  cases op with
  | setStarted started =>
    obtain rfl := Option.some.inj hu
    have hnone : s.given ++ (Op.setStarted started : Op G).given s = s.given := List.append_nil _
    refine ⟨h.reachable, ?_, ?_⟩
    · exact h.called.trans hnone.symm
    · dsimp only
      rw [hnone]
      exact h.wf
  | call c fresh =>
    have hsession : ConnectionInv ({ s with session := c.run s.session } : Connection G) :=
      ⟨h.reachable, h.called, h.wf⟩
    have hsent := send_inv hsession (Call.packet_wf hn _) hu
    exact hsent
  | runPosted i fresh =>
    obtain ⟨queue, hq, rfl⟩ := Option.map_eq_some_iff.mp hu
    exact @queue_inv _ _ s _ _ h hq rfl
  | move g fresh =>
    obtain ⟨queue, hq, rfl⟩ := Option.map_eq_some_iff.mp hu
    exact @queue_inv _ _ s _ _ h hq rfl
  | releaseOnStrand g fresh =>
    obtain ⟨queue, hq, rfl⟩ := Option.map_eq_some_iff.mp hu
    exact @queue_inv _ _ s _ _ h hq rfl
  | releaseOffStrand g =>
    obtain ⟨queue, hq, rfl⟩ := Option.map_eq_some_iff.mp hu
    exact @queue_inv _ _ s _ _ h hq rfl

lemma inv_of_reachable (h : Reachable (connectionRuns G) s) : ConnectionInv s := by
  apply h.invariant
  · intro a ha
    cases ha
    exact ⟨.init rfl, rfl, fun p hp => absurd hp List.not_mem_nil⟩
  · intro _ _ _ hi hs
    exact exec_inv hi hs.1 hs.2

lemma ConnectionInv.accepted (h : ConnectionInv s) :
    List.Perm s.given (s.queue.entered ++ s.queue.posted.filterMap Task.event) := by
  rw [← h.called]
  exact called_of_reachable h.reachable

omit [DecidableEq G] in
/-- The socket gets just the bytes of the packets. -/
lemma wire_eq (native : ByteOrder.Endian) (s : Connection G) :
    s.wire native = s.queue.started.flatMap Packet.encode := by
  refine List.flatMap_congr fun p _ => ?_
  rw [buffer_eq, Option.map_some, Option.getD_some, TcpSend.tcpSend_eq]
  simp [filled]

/-- What the other end takes out of the stream is what was handed to the socket, up to the part that
has not arrived. -/
lemma receive_wire (h : ConnectionInv s) (native native' : ByteOrder.Endian) {chunks : List (List UInt8)}
    {unread : List UInt8} (hcut : chunks.flatten ++ unread = s.wire native) {fuel : ℕ}
    (hfuel : chunks.flatten.length + 1 < fuel) :
    ∃ t, receive (headerProtocol native') fuel chunks = some t ∧ t.started = true ∧
      t.packets <+: s.queue.started.map Packet.received ∧
      (unread = [] → t.packets = s.queue.started.map Packet.received ∧ t.buffer = []) := by
  have hserial := serial_of_reachable h.reachable
  have hwf : ∀ p ∈ s.queue.started, p.Wf := by
    intro p hp
    apply h.wf
    rw [h.accepted.mem_iff, hserial.order]
    exact List.mem_append_left _ (List.mem_append_left _ hp)
  rw [wire_eq] at hcut
  exact @receive_packets native' _ hwf _ _ hcut _ hfuel

/-- When nothing is posted or in flight and the stream has arrived, the other end has every packet once. -/
lemma receive_all (h : ConnectionInv s) (hposted : s.queue.posted = []) (hq : Quiet s.queue)
    (native native' : ByteOrder.Endian) {chunks : List (List UInt8)} (hall : chunks.flatten = s.wire native) {fuel : ℕ}
    (hfuel : chunks.flatten.length + 1 < fuel) :
    ∃ t, receive (headerProtocol native') fuel chunks = some t ∧
      List.Perm t.packets (s.given.map Packet.received) := by
  have hcut : chunks.flatten ++ [] = s.wire native := by rw [List.append_nil, hall]
  obtain ⟨t, ht, -, -, hpackets⟩ := receive_wire h native native' hcut hfuel
  have haccepted := h.accepted
  rw [hposted, List.filterMap_nil, List.append_nil,
    ← started_of_quiet (serial_of_reachable h.reachable) hq] at haccepted
  refine ⟨t, ht, ?_⟩
  rw [(hpackets rfl).1]
  exact haccepted.symm.map _

/-- For calls one after the other, on the strand or off it, whenever the session starts and stops, and whatever
part of its stream has arrived, in whatever pieces and on a machine of whatever byte order: the other end has
taken out the first of the packets that entered the queue, and all of them when nothing is in flight. Every packet
that came to `Send` while the session was started has entered the queue or is posted, once. -/
theorem packets_delivered (h : Reachable (connectionRuns G) s) (native native' : ByteOrder.Endian)
    {chunks : List (List UInt8)} {unread : List UInt8} (hcut : chunks.flatten ++ unread = s.wire native) {fuel : ℕ}
    (hfuel : chunks.flatten.length + 1 < fuel) :
    List.Perm s.given (s.queue.entered ++ s.queue.posted.filterMap Task.event) ∧
      ∃ t, receive (headerProtocol native') fuel chunks = some t ∧ t.started = true ∧
        t.packets <+: s.queue.entered.map Packet.received ∧
        (unread = [] → Quiet s.queue → t.packets = s.queue.entered.map Packet.received ∧ t.buffer = []) := by
  have hinv := inv_of_reachable h
  have hserial := serial_of_reachable hinv.reachable
  obtain ⟨t, ht, hstarted, hinitial, hall⟩ := receive_wire hinv native native' hcut hfuel
  refine ⟨hinv.accepted, t, ht, hstarted, hinitial.trans ?_, ?_⟩
  · rw [hserial.order, List.map_append]
    exact List.prefix_append _ _
  · intro hunread hq
    rw [← started_of_quiet hserial hq]
    exact hall hunread

end Delivery

/-- A status goes from one machine to one of the other byte order and arrives in two pieces. -/
theorem packets_delivered_status :
    ∃ s : Connection ℕ, Reachable (connectionRuns ℕ) s ∧ s.given.length = 1 ∧
      ∃ t, receive (headerProtocol .big) 100 [(s.wire .little).take 3, (s.wire .little).drop 3] = some t ∧
        t.packets = [({ serviceHash := 0xEF00192C, methodId := 3, token := 7, status := 2 }, [])] := by
  have h0 : Reachable (connectionRuns ℕ) {} := .init rfl
  have hstart := @Reachable.step _ _ _ (Op.setStarted true) _ _ h0 ⟨trivial, rfl⟩
  have hnamed : (Op.call (.status 0xEF00192C 3 7 2) (some (0 : ℕ))).Named := show (0xEF00192C : UInt32) ≠ 0 by decide
  have h1 := hstart.step ⟨hnamed, rfl⟩
  have h2 := @Reachable.step _ _ _ (Op.releaseOnStrand 0 1) _ _ h1 ⟨trivial, rfl⟩
  have hquiet : ∀ g : ℕ, Function.update (Function.update (fun _ => none) 0 (some true)) 0 none g ≠ some true := by
    intro g
    rw [Function.update_idem]
    simp [Function.update]
  obtain ⟨-, t, ht, -, -, hall⟩ := @packets_delivered ℕ _ _ h2 .little .big
    [_, _] [] (by simp only [List.flatten_cons, List.flatten_nil, List.append_nil]; exact List.take_append_drop 3 _)
    100 (by decide)
  exact ⟨_, h2, rfl, t, ht, (hall rfl ⟨hquiet, rfl⟩).1⟩

end TyphoonZero.Rpc
