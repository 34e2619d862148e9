import TyphoonZero.RpcService

/-! The chat server: a dispatcher finds the service of a packet by its hash, the service the method
by its number, and the methods join a room and deliver texts to it. The room keeps the last texts
for those who join. Each session is on one of the io handles, and its handlers run on the strand of
that. The room and the sessions have no locks, and what is said here is of runs in which a handler
ends before the next one begins, on whatever strand. -/
namespace TyphoonZero.Chat
open Transition WireFormat MessageType Rpc

/-- `IsStructurallyValidUTF8`. -/
structure Utf8 where
  valid : List UInt8 → Bool
  valid_nil : valid [] = true

variable (U : Utf8)

/-- A text that was read from a message. -/
abbrev Text := {s : List UInt8 // TextFits U.valid s}

abbrev kMaxRecentMsgs : ℕ := 100

/-- `ServiceHash::value` of the two services. -/
abbrev tChatServiceHash : UInt32 := 0xEF00192C
abbrev tChatListenerHash : UInt32 := 0x7608B2A9

section Texts
variable {U}

lemma length_ntf (msg : Text U) : (⟨[msg.1]⟩ : TChatNtf).serialize.length = (⟨[msg.1]⟩ : TChatNtf).byteSizeLong :=
  (@tChatNtf_sound 0 U.valid).length ⟨[msg.1]⟩ fun s hs => by
    rw [List.mem_singleton.mp hs]
    exact msg.2

lemma ntf_small (msg : Text U) : (⟨[msg.1]⟩ : TChatNtf).byteSizeLong ≤ kIntMax := by
  have hlen := msg.2.2
  have hsize : varintSize (msg.1.length % 2 ^ 32) ≤ 5 := varintSize_le (Nat.mod_lt _ (by norm_num))
  simp only [TChatNtf.byteSizeLong, repeatedStringSize, List.map_cons, List.map_nil, List.sum_cons, List.sum_nil,
    List.length_cons, List.length_nil, lengthDelimitedSize]
  have hmax : maxSize = 2 ^ 31 - 1 - 16 := rfl
  have hint : kIntMax = 2 ^ 31 - 1 := rfl
  omega

end Texts

variable {U}

/-- The message of a notification with one text. -/
def ntfMessage (msg : Text U) : Message where
  byteSizeLong := (⟨[msg.1]⟩ : TChatNtf).byteSizeLong
  serialize := (⟨[msg.1]⟩ : TChatNtf).serialize
  length_serialize := length_ntf msg
  small := ntf_small msg

/-- `sent` are the packets in the order in which they came into the queue of events, and `posted`
those that still wait for that on the strand of the session. -/
structure ChatSession where
  name : List UInt8 := []
  started : Bool := true
  requestToken : UInt32 := 0
  sent : List Packet := []
  posted : List Packet := []

namespace ChatSession
variable (x : ChatSession)

/-- `own` says that the caller runs on the strand of the session. -/
def send (own : Bool) (p : Packet) : ChatSession :=
  if x.started then
    if own then { x with sent := x.sent ++ [p] } else { x with posted := x.posted ++ [p] }
  else x

/-- The token is taken before it is seen whether the session is started. -/
def sendRequest (own : Bool) (serviceHash methodId : UInt32) (request : Message) : ChatSession :=
  ({ x with requestToken := x.requestToken + 1 }).send own
    ⟨{ serviceHash, methodId, token := x.requestToken, size := UInt32.ofNat request.byteSizeLong }, some request⟩

/-- `SendResponse` with a status, from a handler of the session. -/
def sendStatus (serviceHash methodId token : UInt32) (status : Int32) : ChatSession :=
  x.send true ⟨{ serviceHash, methodId, token, status }, none⟩

def deliver (own : Bool) (msg : Text U) : ChatSession :=
  x.sendRequest own tChatListenerHash (methodNumber 1 false false) (ntfMessage msg)

/-- The first packet that was posted comes into the queue. -/
def runPosted : ChatSession :=
  match x.posted with
  | [] => x
  | p :: posted => { x with sent := x.sent ++ [p], posted }

end ChatSession

/-- The room and the sessions. -/
structure Server (U : Utf8) (I : Type) where
  users : Finset I := ∅
  recentMsg : List (Text U) := []
  sessions : I → Option ChatSession := fun _ => none

namespace Server
variable {I : Type} [DecidableEq I] (s : Server U I)

def modify (i : I) (f : ChatSession → ChatSession) : Server U I :=
  { s with sessions := Function.update s.sessions i ((s.sessions i).map f) }

/-- `ChatRoom::Join`. -/
def join (i : I) : Server U I :=
  ({ s with users := insert i s.users }).modify i fun x =>
    s.recentMsg.foldl (fun x msg => x.deliver true msg) x

/-- `ChatRoom::Leave`. -/
def leave (i : I) : Server U I := { s with users := s.users.erase i }

/-- `ChatRoom::Deliver`, in a handler of the session `i`. -/
def deliver {H : Type} [DecidableEq H] (home : I → H) (i : I) (msg : Text U) : Server U I :=
  let recentMsg := s.recentMsg ++ [msg]
  { s with
    recentMsg := recentMsg.drop (recentMsg.length - kMaxRecentMsgs)
    sessions := fun j =>
      if j ∈ s.users then (s.sessions j).map fun x => x.deliver (home j = home i) msg else s.sessions j }

end Server

section Requests

lemma chatRequest_fits {bs : List UInt8} {m : TChatRequest}
    (h : parseFromArray (TChatRequest.type U.valid) bs = some m) : TextFits U.valid m.message := by
  refine parse_invariant (I := fun m => TextFits U.valid m.message) ⟨U.valid_nil, Nat.zero_le _⟩ ?_ h
  intro tag parse htag depth m bs m' rest _ hparse
  simp only [TChatRequest.type] at htag
  split at htag
  · cases htag
    obtain ⟨text, hvalid, hsmall, rfl⟩ := stringField_sound hparse
    exact ⟨hvalid, hsmall⟩
  · cases htag

/-- The text of a `TChatRequest`. -/
def parseChatRequest (U : Utf8) (bs : List UInt8) : Option (Text U) :=
  ((parseFromArray (TChatRequest.type U.valid) bs).attach).map fun m => ⟨m.1.message, chatRequest_fits m.2⟩

end Requests

namespace Server
variable {I H : Type} [DecidableEq I] [DecidableEq H] (home : I → H) (s : Server U I)

def sendStatus (i : I) (methodId token : UInt32) (status : Int32) : Server U I :=
  s.modify i fun x => x.sendStatus tChatServiceHash methodId token status

def handleUpdateInfo (i : I) (request : TUpdateInfoRequest) : Server U I × Int32 :=
  ((s.modify i fun x => { x with name := request.name }).join i, kErrorCodeOk)

def handleChat (i : I) (message : Text U) : Server U I × Int32 := (s.deliver home i message, kErrorCodeOk)

/-- The end of a method: a status that is not Ok is sent. -/
def finish (i : I) (methodId token : UInt32) (r : Server U I × Int32) : Server U I :=
  if r.2 ≠ kErrorCodeOk then r.1.sendStatus i methodId token r.2 else r.1

/-- `TChatService::CallServerMethod`. -/
def callServerMethod (i : I) (token methodId : UInt32) (buffer : List UInt8) (s : Server U I) : Server U I :=
  match (methodId &&& 0x3FFFFFFF).toNat with
  | 1 =>
    match parseFromArray (TUpdateInfoRequest.type U.valid) buffer with
    | none => s.sendStatus i methodId token kErrorCodeMalformedRequest
    | some request => finish i methodId token (s.handleUpdateInfo i request)
  | 2 =>
    match parseChatRequest U buffer with
    | none => s.sendStatus i methodId token kErrorCodeMalformedRequest
    | some message => finish i methodId token (s.handleChat home i message)
  | _ => s.sendStatus i methodId token kErrorCodeInvalidMethod

def chatDispather : ServiceMgr I (Server U I) :=
  ({} : ServiceMgr I (Server U I)).addService tChatServiceHash (callServerMethod home)

def fireRecv (i : I) (header : Header) (packet : List UInt8) : Server U I :=
  (chatDispather home).dispatch i header.serviceHash header.token header.methodId packet s

def handleDisconnect (i : I) : Server U I := s.leave i

end Server

/-- The client: the lists of texts that it printed, and whether it stopped. -/
structure Client where
  printed : List (List (List UInt8)) := []
  stopped : Bool := false

namespace Client
variable (U)

def fireRecv (c : Client) (r : Header × List UInt8) : Client :=
  if c.stopped then c
  else if r.2 = [] then c
  else
    match parseFromArray (TChatNtf.type U.valid) r.2 with
    | none => { c with stopped := true }
    | some ntf => { c with printed := c.printed ++ [ntf.messageList] }

def run (rs : List (Header × List UInt8)) : Client := rs.foldl (fireRecv U) {}

end Client

section Runs

/-- What a packet asks of the service. -/
inductive Request (U : Utf8)
  | foreign
  | refused (status : Int32)
  | join (name : List UInt8)
  | chat (msg : Text U)

def readRequest (U : Utf8) (r : Header × List UInt8) : Request U :=
  if r.1.serviceHash ≠ tChatServiceHash then .foreign
  else if r.1.methodId &&& 0x3FFFFFFF = 1 then
    match parseFromArray (TUpdateInfoRequest.type U.valid) r.2 with
    | none => .refused kErrorCodeMalformedRequest
    | some request => .join request.name
  else if r.1.methodId &&& 0x3FFFFFFF = 2 then
    match parseChatRequest U r.2 with
    | none => .refused kErrorCodeMalformedRequest
    | some msg => .chat msg
  else .refused kErrorCodeInvalidMethod

/-- What a session has lived through while it was started: from and until which lengths of the log it
was in the room, and the packets that it dispatched. -/
structure Account where
  closed : List (ℕ × ℕ) := []
  joined : Option ℕ := none
  received : List (Header × List UInt8) := []

namespace Account
variable (a : Account)

/-- The stay ends when the log has length `n`. -/
def close (n : ℕ) : Account :=
  { a with
    closed := a.closed ++ (a.joined.map fun k => (k, n)).toList
    joined := none }

def enter (n : ℕ) : Account := { a.close n with joined := some n }

def receive (r : Header × List UInt8) : Account := { a with received := a.received ++ [r] }

end Account

/-- The server beside a record of all texts that were delivered to the room, and of the sessions. -/
structure World (U : Utf8) (I : Type) where
  server : Server U I := {}
  log : List (Text U) := []
  accounts : I → Account := fun _ => {}

namespace World
variable {I H : Type} [DecidableEq I] [DecidableEq H] (w : World U I)

def modify (i : I) (f : Account → Account) : World U I :=
  { w with accounts := Function.update w.accounts i (f (w.accounts i)) }

/-- A packet is dispatched; a session that has stopped does not hear what follows. -/
def record (i : I) (r : Header × List UInt8) (started : Bool) : World U I :=
  let w1 := if started then w.modify i fun a => a.receive r else w
  match readRequest U r with
  | .join _ => if started then w1.modify i fun a => a.enter w1.log.length else w1
  | .chat msg => { w1 with log := w1.log ++ [msg] }
  | _ => w1

end World

inductive Op (I : Type)
  | connect (i : I)
  | receive (i : I) (header : Header) (packet : List UInt8)
  | runPosted (i : I)
  | stop (i : I)
  | disconnect (i : I)

variable {I H : Type} [DecidableEq I] [DecidableEq H]

/-- A session is made for each connection. A packet that was there before it stopped may still come
to it, even after it has left the room. -/
def exec (home : I → H) (w : World U I) : Op I → Option (World U I)
  | .connect i =>
    match w.server.sessions i with
    | none => some { w with server := { w.server with sessions := Function.update w.server.sessions i (some {}) } }
    | some _ => none
  | .receive i header packet =>
    (w.server.sessions i).map fun x =>
      { w.record i (header, packet) x.started with server := w.server.fireRecv home i header packet }
  | .runPosted i =>
    (w.server.sessions i).map fun _ => { w with server := w.server.modify i ChatSession.runPosted }
  | .stop i =>
    (w.server.sessions i).map fun _ =>
      { w.modify i (fun a => a.close w.log.length) with
        server := w.server.modify i fun x => { x with started := false } }
  | .disconnect i =>
    match w.server.sessions i with
    | some x => if x.started then none else some { w with server := w.server.handleDisconnect i }
    | none => none

def chatRuns (U : Utf8) (home : I → H) : System (World U I) (Op I) where
  init w := w = {}
  step w op v := exec home w op = some v

end Runs

end TyphoonZero.Chat
