import TyphoonZero.RpcSession

/-! Services: a manager finds the service of a packet by its hash, and the service the method by its
number. A method with a response gets a continuation, which its handler may keep for later. -/
namespace TyphoonZero.Rpc
open Transition WireFormat MessageType

abbrev kErrorCodeOk : Int32 := 0
abbrev kErrorCodeMalformedRequest : Int32 := 1
abbrev kErrorCodeInvalidMethod : Int32 := 2
abbrev kErrorCodeNotImplemented : Int32 := 3

/-- The number of a method with its marks for the side that is called. -/
def methodNumber (method : UInt32) (client server : Bool) : UInt32 :=
  method ||| (if client then 0x40000000 else 0) ||| if server then 0x80000000 else 0

/-- `dispatchers_`; a method gets the session, the token, its number and the data of the call. -/
structure ServiceMgr (S σ : Type) where
  dispatchers : UInt32 → Option (S → UInt32 → UInt32 → List UInt8 → σ → σ) := fun _ => none

namespace ServiceMgr
variable {S σ : Type} (mgr : ServiceMgr S σ)

def addService (hash : UInt32) (method : S → UInt32 → UInt32 → List UInt8 → σ → σ) : ServiceMgr S σ :=
  { mgr with dispatchers := Function.update mgr.dispatchers hash (some method) }

def dispatch (session : S) (serviceHash token methodId : UInt32) (buffer : List UInt8) (s : σ) : σ :=
  match mgr.dispatchers serviceHash with
  | some method => method session token methodId buffer s
  | none => s

end ServiceMgr

/-- A response that a handler filled in. -/
abbrev Response (utf8 : List UInt8 → Bool) :=
  {r : SearchResponse // (searchResponseCodec utf8).Fits r ∧ r.byteSizeLong ≤ kIntMax}

variable {utf8 : List UInt8 → Bool}

def Response.message (r : Response utf8) : Message where
  byteSizeLong := r.1.byteSizeLong
  serialize := r.1.serialize
  length_serialize := (@searchResponse_sound 0 utf8).length r.1 r.2.1
  small := r.2.2

/-- What the handlers of a service do with a request; `none` when the handler keeps the continuation. They
do nothing else to the session, and a continuation is called once at most. -/
structure Handlers (utf8 : List UInt8 → Bool) where
  handleProcessClientRequest1 : SearchRequest → Int32
  handleProcessClientRequest2 : SearchRequest → Option (Int32 × Response utf8)

/-- The handlers that the generated classes have. -/
def Handlers.base (utf8 : List UInt8 → Bool) : Handlers utf8 where
  handleProcessClientRequest1 _ := kErrorCodeNotImplemented
  handleProcessClientRequest2 _ :=
    some (kErrorCodeNotImplemented, ⟨{}, ⟨fun _ h => absurd h List.not_mem_nil, Nat.zero_le _⟩⟩)

/-- What a response repeats of its request, and a continuation captures. -/
structure CallKey where
  serviceHash : UInt32
  methodId : UInt32
  token : UInt32
  deriving DecidableEq

/-- A session whose requests go to the services; `pending` are the continuations that handlers kept. -/
structure Peer where
  session : Session := {}
  pending : List CallKey := []

namespace Peer
variable (s : Peer)

def sendStatus (key : CallKey) (status : Int32) : Peer :=
  { s with session := s.session.sendStatus key.serviceHash key.methodId key.token status }

def sendResponse (key : CallKey) (response : Response utf8) : Peer :=
  { s with session := s.session.sendResponse key.serviceHash key.methodId key.token response.message }

/-- The continuation of a method with a response. -/
def continuation (key : CallKey) (r : Int32 × Response utf8) : Peer :=
  if r.1 = kErrorCodeOk then s.sendResponse key r.2 else s.sendStatus key r.1

/-- `CallServerMethod` of the service with the hash `serviceHash`. -/
def callServerMethod (serviceHash : UInt32) (h : Handlers utf8) (token methodId : UInt32) (buffer : List UInt8)
    (s : Peer) : Peer :=
  let key : CallKey := ⟨serviceHash, methodId, token⟩
  match (methodId &&& 0x3FFFFFFF).toNat with
  | 1 =>
    match parseFromArray (SearchRequest.type utf8) buffer with
    | none => s.sendStatus key kErrorCodeMalformedRequest
    | some request =>
      let status := h.handleProcessClientRequest1 request
      if status ≠ kErrorCodeOk then s.sendStatus key status else s
  | 2 =>
    match parseFromArray (SearchRequest.type utf8) buffer with
    | none => s.sendStatus key kErrorCodeMalformedRequest
    | some request =>
      match h.handleProcessClientRequest2 request with
      | none => { s with pending := s.pending ++ [key] }
      | some r => s.continuation key r
  | _ => s.sendStatus key kErrorCodeInvalidMethod

end Peer

/-- `ServiceHash::value` of the services. -/
abbrev testService1Hash : UInt32 := 0x63F1143F
abbrev testService2Hash : UInt32 := 0x52265835
abbrev testService3Hash : UInt32 := 0x512656A2

def testService1 (_ : Handlers utf8) (_token _methodId : UInt32) (_buffer : List UInt8) (s : Peer) : Peer := s

def testService2 : Handlers utf8 → UInt32 → UInt32 → List UInt8 → Peer → Peer :=
  Peer.callServerMethod testService2Hash

def testService3 : Handlers utf8 → UInt32 → UInt32 → List UInt8 → Peer → Peer :=
  Peer.callServerMethod testService3Hash

/-- A manager with the three services; what a handler does may differ from call to call. -/
def testServices : ServiceMgr (Handlers utf8) Peer :=
  ((({} : ServiceMgr (Handlers utf8) Peer).addService testService1Hash testService1).addService testService2Hash
    testService2).addService testService3Hash testService3

inductive ServiceOp (utf8 : List UInt8 → Bool)
  | receive (h : Handlers utf8) (header : Header) (packet : List UInt8)
  | resume (i : ℕ) (r : Int32 × Response utf8)

/-- A continuation that was kept is called once. -/
def Peer.exec (s : Peer) : ServiceOp utf8 → Option Peer
  | .receive h header packet =>
    some (testServices.dispatch h header.serviceHash header.token header.methodId packet s)
  | .resume i r =>
    (s.pending[i]?).map fun key => ({ s with pending := s.pending.eraseIdx i }).continuation key r

def serviceRuns (utf8 : List UInt8 → Bool) : System Peer (ServiceOp utf8) where
  init s := s = {}
  step s op t := s.exec op = some t

/-- The calls that are to be answered: those of a method with a response, and the others unless their
handler says Ok. -/
def ServiceOp.owes : ServiceOp utf8 → List CallKey
  | .receive h header packet =>
    if (header.serviceHash = testService2Hash ∨ header.serviceHash = testService3Hash) ∧
        ((header.methodId &&& 0x3FFFFFFF).toNat = 1 →
          (parseFromArray (SearchRequest.type utf8) packet).map h.handleProcessClientRequest1 ≠ some kErrorCodeOk) then
      [⟨header.serviceHash, header.methodId, header.token⟩]
    else []
  | .resume _ _ => []

lemma owes_receive (h : Handlers utf8) (header : Header) (packet : List UInt8) :
    (ServiceOp.receive h header packet).owes =
      if (header.serviceHash = testService2Hash ∨ header.serviceHash = testService3Hash) ∧
          ((header.methodId &&& 0x3FFFFFFF).toNat = 1 →
            (parseFromArray (SearchRequest.type utf8) packet).map h.handleProcessClientRequest1 ≠
              some kErrorCodeOk) then
        [⟨header.serviceHash, header.methodId, header.token⟩]
      else [] := rfl

/-- A packet is a status that is not Ok, or Ok with a response that its reader gets back. -/
def Answers (utf8 : List UInt8 → Bool) (p : Packet) : Prop :=
  (p.header.status ≠ kErrorCodeOk ∧ p.body = none) ∨
    p.header.status = kErrorCodeOk ∧ ∃ r : Response utf8, p.bodyBytes = r.1.serialize

def Packet.key (p : Packet) : CallKey := ⟨p.header.serviceHash, p.header.methodId, p.header.token⟩

/-- Each call that is owed an answer has one answer or one continuation that was kept. -/
structure PeerInv (utf8 : List UInt8 → Bool) (owed : List CallKey) (s : Peer) : Prop where
  balanced : List.Perm (s.session.sent.map Packet.key ++ s.pending) owed
  answers : ∀ p ∈ s.session.sent, Answers utf8 p
  named : ∀ key ∈ s.pending, key.serviceHash ≠ 0
  wf : ∀ p ∈ s.session.sent, p.Wf

section PeerInv
variable {s t : Peer} {key : CallKey} {pending owed owed' : List CallKey}

lemma PeerInv.sendStatus (h : PeerInv utf8 owed s) (hkey : key.serviceHash ≠ 0) {status : Int32}
    (hstatus : status ≠ kErrorCodeOk) (hnamed : ∀ key ∈ pending, key.serviceHash ≠ 0)
    (hbalanced : List.Perm (s.session.sent.map Packet.key ++ [key] ++ pending) owed') :
    PeerInv utf8 owed' (({ s with pending } : Peer).sendStatus key status) := by
  refine ⟨?_, ?_, hnamed, ?_⟩
  · simpa [Peer.sendStatus, Session.sendStatus, Session.send, Packet.key] using hbalanced
  · intro p hp
    simp only [Peer.sendStatus, Session.sendStatus, Session.send, List.mem_append, List.mem_singleton] at hp
    rcases hp with hp | rfl
    · exact h.answers p hp
    · exact .inl ⟨hstatus, rfl⟩
  · intro p hp
    simp only [Peer.sendStatus, Session.sendStatus, Session.send, List.mem_append, List.mem_singleton] at hp
    rcases hp with hp | rfl
    · exact h.wf p hp
    · exact ⟨rfl, fun heq => hkey (congrArg Header.serviceHash heq)⟩

lemma PeerInv.sendResponse (h : PeerInv utf8 owed s) (hkey : key.serviceHash ≠ 0)
    (response : Response utf8) (hnamed : ∀ key ∈ pending, key.serviceHash ≠ 0)
    (hbalanced : List.Perm (s.session.sent.map Packet.key ++ [key] ++ pending) owed') :
    PeerInv utf8 owed' (({ s with pending } : Peer).sendResponse key response) := by
  refine ⟨?_, ?_, hnamed, ?_⟩
  · simpa [Peer.sendResponse, Session.sendResponse, Session.send, Packet.key] using hbalanced
  · intro p hp
    simp only [Peer.sendResponse, Session.sendResponse, Session.send, List.mem_append, List.mem_singleton] at hp
    rcases hp with hp | rfl
    · exact h.answers p hp
    · exact .inr ⟨rfl, response, rfl⟩
  · intro p hp
    simp only [Peer.sendResponse, Session.sendResponse, Session.send, List.mem_append, List.mem_singleton] at hp
    rcases hp with hp | rfl
    · exact h.wf p hp
    · exact ⟨rfl, fun heq => hkey (congrArg Header.serviceHash heq)⟩

lemma PeerInv.continuation (h : PeerInv utf8 owed s) (hkey : key.serviceHash ≠ 0)
    (r : Int32 × Response utf8) (hnamed : ∀ key ∈ pending, key.serviceHash ≠ 0)
    (hbalanced : List.Perm (s.session.sent.map Packet.key ++ [key] ++ pending) owed') :
    PeerInv utf8 owed' (({ s with pending } : Peer).continuation key r) := by
  unfold Peer.continuation
  split_ifs with hok
  · exact h.sendResponse hkey r.2 hnamed hbalanced
  · exact h.sendStatus hkey hok hnamed hbalanced

/-- An answer at once. -/
lemma PeerInv.answered (h : PeerInv utf8 owed s) (key : CallKey) :
    List.Perm (s.session.sent.map Packet.key ++ [key] ++ s.pending) (owed ++ [key]) := by
  rw [List.append_assoc]
  refine (List.perm_append_comm.append_left _).trans ?_
  rw [← List.append_assoc]
  exact h.balanced.append_right [key]

lemma PeerInv.callServerMethod (h : PeerInv utf8 owed s) {header : Header} (handlers : Handlers utf8)
    (packet : List UInt8)
    (hhash : header.serviceHash = testService2Hash ∨ header.serviceHash = testService3Hash) :
    PeerInv utf8 (owed ++ (ServiceOp.receive handlers header packet).owes)
      (Peer.callServerMethod header.serviceHash handlers header.token header.methodId packet s) := by
  have hne : header.serviceHash ≠ 0 := by
    rcases hhash with h2 | h3
    · rw [h2]
      decide
    · rw [h3]
      decide
  have hanswered := h.answered ⟨header.serviceHash, header.methodId, header.token⟩
  unfold Peer.callServerMethod
  dsimp only
  split
  next hone =>
    rw [owes_receive]
    cases hparse : parseFromArray (SearchRequest.type utf8) packet with
    | none =>
      rw [if_pos ⟨hhash, fun _ => by simp⟩]
      exact h.sendStatus hne (by decide) h.named hanswered
    | some request =>
      by_cases hstatus : handlers.handleProcessClientRequest1 request = kErrorCodeOk
      · rw [if_neg fun hand => hand.2 hone (by rw [Option.map_some, hstatus]), List.append_nil]
        simp only [hstatus, ne_eq, not_true_eq_false, if_false]
        exact h
      · rw [if_pos ⟨hhash, fun _ heq => hstatus (Option.some.inj heq)⟩]
        simp only [ne_eq, hstatus, not_false_eq_true, if_true]
        exact h.sendStatus hne hstatus h.named hanswered
  next htwo =>
    rw [owes_receive, if_pos ⟨hhash, fun hone => by omega⟩]
    cases parseFromArray (SearchRequest.type utf8) packet with
    | none => exact h.sendStatus hne (by decide) h.named hanswered
    | some request =>
      dsimp only
      split
      · refine ⟨?_, h.answers, ?_, h.wf⟩
        · dsimp only
          rw [← List.append_assoc]
          exact h.balanced.append_right _
        · intro key hmem
          rcases List.mem_append.mp hmem with hmem | hmem
          · exact h.named key hmem
          · rw [List.mem_singleton.mp hmem]
            exact hne
      · exact h.continuation hne _ h.named hanswered
  next hone htwo =>
    rw [owes_receive, if_pos ⟨hhash, fun h1 => absurd h1 hone⟩]
    exact h.sendStatus hne (by decide) h.named hanswered

lemma PeerInv.dispatch (h : PeerInv utf8 owed s) (handlers : Handlers utf8) (header : Header) (packet : List UInt8) :
    PeerInv utf8 (owed ++ (ServiceOp.receive handlers header packet).owes)
      (testServices.dispatch handlers header.serviceHash header.token header.methodId packet s) := by
  have hcall := fun hhash => @PeerInv.callServerMethod _ _ _ h header handlers packet hhash
  simp only [ServiceMgr.dispatch, testServices, ServiceMgr.addService, Function.update_apply]
  by_cases h3 : header.serviceHash = testService3Hash
  · have h3' := hcall (.inr h3)
    rw [if_pos h3]
    rw [h3] at h3'
    exact h3'
  · rw [if_neg h3]
    by_cases h2 : header.serviceHash = testService2Hash
    · have h2' := hcall (.inl h2)
      rw [if_pos h2]
      rw [h2] at h2'
      exact h2'
    · rw [if_neg h2, owes_receive, if_neg fun hand => hand.1.elim h2 h3, List.append_nil]
      by_cases h1 : header.serviceHash = testService1Hash
      · rw [if_pos h1]
        exact h
      · rw [if_neg h1]
        exact h

lemma PeerInv.exec {op : ServiceOp utf8} (h : PeerInv utf8 owed s) (hs : s.exec op = some t) :
    PeerInv utf8 (owed ++ op.owes) t := by
  cases op with
  | receive handlers header packet =>
    cases hs
    exact h.dispatch handlers header packet
  | resume i r =>
    obtain ⟨key, hi, rfl⟩ := Option.map_eq_some_iff.mp hs
    obtain ⟨hlt, hget⟩ := List.getElem?_eq_some_iff.mp hi
    have hperm : List.Perm (s.pending[i] :: s.pending.eraseIdx i) s.pending := List.getElem_cons_eraseIdx_perm hlt
    rw [hget] at hperm
    have hnamed : ∀ key ∈ s.pending.eraseIdx i, key.serviceHash ≠ 0 :=
      fun key hmem => h.named key (List.mem_of_mem_eraseIdx hmem)
    refine h.continuation (h.named key (List.mem_of_getElem? hi)) r hnamed ?_
    rw [List.append_assoc, ServiceOp.owes, List.append_nil]
    exact (hperm.append_left _).trans h.balanced

lemma PeerInv.of_traces {ops : List (ServiceOp utf8)} (h : Traces (serviceRuns utf8) ops s) :
    PeerInv utf8 (ops.flatMap ServiceOp.owes) s := by
  apply h.induction (I := fun ops s => PeerInv utf8 (ops.flatMap ServiceOp.owes) s)
  · intro a ha
    cases ha
    refine ⟨List.Perm.refl [], ?_, ?_, ?_⟩
    · intro p hp
      cases hp
    · intro key hkey
      cases hkey
    · intro p hp
      cases hp
  · intro ops _ op _ hi hs
    rw [List.flatMap_append, List.flatMap_singleton]
    exact hi.exec hs

end PeerInv

/-- In every run each call that is to be answered has just one answer, with its hash, method number and
token, or a continuation that some handler still keeps; an answer is a status that is not Ok, or a
response that the caller reads as it was filled in. -/
theorem calls_answered_once {ops : List (ServiceOp utf8)} {s : Peer} (h : Traces (serviceRuns utf8) ops s) :
    List.Perm (s.session.sent.map Packet.key ++ s.pending) (ops.flatMap ServiceOp.owes) ∧
      ∀ p ∈ s.session.sent, p.Wf ∧ ((p.header.status ≠ kErrorCodeOk ∧ p.body = none) ∨
        p.header.status = kErrorCodeOk ∧
          ∃ r : Response utf8, parseFromArray (SearchResponse.type utf8) p.bodyBytes = some r.1) := by
  have hinv := PeerInv.of_traces h
  refine ⟨hinv.balanced, fun p hp => ⟨hinv.wf p hp, ?_⟩⟩
  rcases hinv.answers p hp with hstatus | ⟨hok, r, hr⟩
  · exact .inl hstatus
  · refine .inr ⟨hok, r, ?_⟩
    rw [hr]
    exact (@searchResponse_sound 99 utf8).roundTrips.parse r.1 r.2.1

/-- A call of an unknown method, and one whose handler keeps the continuation. -/
def twoCalls : List (ServiceOp fun _ => true) :=
  [.receive (.base _) { serviceHash := testService3Hash, methodId := 9, token := 7 } [],
    .receive ⟨fun _ => kErrorCodeOk, fun _ => none⟩ { serviceHash := testService2Hash, methodId := 2, token := 8 } []]

theorem calls_answered_once_kept :
    ∃ s : Peer, s.pending = [⟨testService2Hash, 2, 8⟩] ∧
      List.Perm (s.session.sent.map Packet.key ++ s.pending) [⟨testService3Hash, 9, 7⟩, ⟨testService2Hash, 2, 8⟩] := by
  have h0 : Traces (serviceRuns fun _ => true) [] {} := .nil rfl
  have hrun : twoCalls.foldlM Peer.exec {} = some _ := rfl
  exact ⟨_, rfl, (calls_answered_once (h0.of_foldlM (fun _ _ _ hstep => hstep) hrun)).1⟩

end TyphoonZero.Rpc
