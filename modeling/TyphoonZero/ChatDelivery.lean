import TyphoonZero.ChatServer

/-! What the sessions of the chat server are sent: for each of their stays the texts of the log from
the hundredth before they joined, numbered in this order. -/
namespace TyphoonZero.Chat
open Transition WireFormat MessageType Rpc TcpFraming

variable {U : Utf8}

/-- The texts for a stay that began when the log had length `v.1` and ended at length `v.2`. -/
def stay (log : List (Text U)) (v : ℕ × ℕ) : List (Text U) := (log.take v.2).drop (v.1 - kMaxRecentMsgs)

/-- The texts for all stays of a session, the last of which may still go on. -/
def heard (log : List (Text U)) (a : Account) : List (Text U) :=
  (a.closed ++ (a.joined.map fun k => (k, log.length)).toList).flatMap (stay log)

/-- The packet of a text. -/
def notice (k : ℕ) (msg : Text U) : Packet :=
  ⟨{ serviceHash := tChatListenerHash, methodId := methodNumber 1 false false, token := UInt32.ofNat k,
     size := UInt32.ofNat (ntfMessage msg).byteSizeLong }, some (ntfMessage msg)⟩

def notices (texts : List (Text U)) : List Packet := texts.mapIdx notice

/-- The answer to a packet, if it gets one. -/
def respond (U : Utf8) (r : Header × List UInt8) : Option Header :=
  let answer (status : Int32) : Header :=
    { serviceHash := r.1.serviceHash, methodId := r.1.methodId, token := r.1.token, status }
  if r.1.serviceHash ≠ tChatServiceHash then none
  else if r.1.methodId &&& 0x3FFFFFFF = 1 then
    if parseFromArray (TUpdateInfoRequest.type U.valid) r.2 = none then some (answer kErrorCodeMalformedRequest)
    else none
  else if r.1.methodId &&& 0x3FFFFFFF = 2 then
    if parseFromArray (TChatRequest.type U.valid) r.2 = none then some (answer kErrorCodeMalformedRequest) else none
  else some (answer kErrorCodeInvalidMethod)

section Client

lemma run_append (rs : List (Header × List UInt8)) (r : Header × List UInt8) :
    Client.run U (rs ++ [r]) = Client.fireRecv U (Client.run U rs) r := by
  simp [Client.run]

/-- A client prints the text of a notification. -/
lemma fireRecv_ntf {c : Client} (h : c.stopped = false) (header : Header) (msg : Text U) :
    c.fireRecv U (header, (ntfMessage msg).serialize) = { c with printed := c.printed ++ [[msg.1]] } := by
  have hfits : (tChatNtfCodec U.valid).Fits ⟨[msg.1]⟩ := fun s hs => by
    rw [List.mem_singleton.mp hs]
    exact msg.2
  have hparse : parseFromArray (TChatNtf.type U.valid) (ntfMessage msg).serialize = some ⟨[msg.1]⟩ :=
    (@tChatNtf_sound kDefaultRecursionLimit U.valid).roundTrips.parse _ hfits
  have hne : (ntfMessage msg).serialize ≠ [] := by
    intro hnil
    rw [hnil] at hparse
    cases hparse
  rw [Client.fireRecv, if_neg (by rw [h]; exact Bool.false_ne_true), if_neg hne]
  dsimp only
  rw [hparse]

lemma fireRecv_status {c : Client} (header : Header) : c.fireRecv U (header, []) = c := by
  rw [Client.fireRecv, if_pos rfl, ite_self]

/-- A client that has not stopped keeps what it printed. -/
lemma printed_grows {c : Client} (rs : List (Header × List UInt8))
    (h : (rs.foldl (Client.fireRecv U) c).stopped = false) :
    c.stopped = false ∧ c.printed <+: (rs.foldl (Client.fireRecv U) c).printed := by
  induction rs generalizing c with
  | nil => exact ⟨h, List.prefix_rfl⟩
  | cons r rs ih =>
    obtain ⟨hstopped, hinitial⟩ := ih h
    rw [List.foldl_cons]
    cases hc : c.stopped with
    | true =>
      rw [Client.fireRecv, if_pos hc, hc] at hstopped
      cases hstopped
    | false =>
      refine ⟨rfl, List.IsPrefix.trans ?_ hinitial⟩
      rw [Client.fireRecv, hc, if_neg Bool.false_ne_true]
      split_ifs
      · exact List.prefix_rfl
      · cases parseFromArray (TChatNtf.type U.valid) r.2 with
        | none => exact List.prefix_rfl
        | some ntf => exact List.prefix_append _ _

end Client

/-- The packets that are no answers. -/
def requests (ps : List Packet) : List Packet := ps.filter fun p => p.body.isSome

lemma requests_append (ps qs : List Packet) : requests (ps ++ qs) = requests ps ++ requests qs :=
  List.filter_append ps qs

lemma notices_append (texts : List (Text U)) (msg : Text U) :
    notices (texts ++ [msg]) = notices texts ++ [notice texts.length msg] := by
  simp [notices, List.mapIdx_append]

/-- The texts of packets that are notices or have no body are what a client prints of them. -/
lemma run_notices {ps : List Packet} (h : ∀ p ∈ requests ps, ∃ k, ∃ msg : Text U, p = notice k msg) :
    ∃ ms : List (ℕ × Text U), requests ps = ms.map (fun m => notice m.1 m.2) ∧
      Client.run U (ps.map Packet.received) = ⟨ms.map fun m => [m.2.1], false⟩ := by
  induction ps using List.reverseRecOn with
  | nil => exact ⟨[], rfl, rfl⟩
  | append_singleton ps p ih =>
    rw [requests_append] at h
    obtain ⟨ms, hms, hrun⟩ := ih fun q hq => h q (List.mem_append_left _ hq)
    rw [requests_append, List.map_append, List.map_singleton, run_append, hrun]
    cases hbody : p.body with
    | none =>
      have hnone : requests [p] = [] := by simp [requests, hbody]
      have hempty : p.received = (p.header, []) := by simp [Packet.received, Packet.bodyBytes, hbody]
      rw [hnone, List.append_nil, hempty]
      exact ⟨ms, hms, fireRecv_status _⟩
    | some body =>
      have hsome : requests [p] = [p] := by simp [requests, hbody]
      rw [hsome] at h ⊢
      obtain ⟨k, msg, rfl⟩ := h p (List.mem_append_right _ (List.mem_singleton_self p))
      refine ⟨ms ++ [(k, msg)], by rw [hms, List.map_append, List.map_singleton], ?_⟩
      exact (fireRecv_ntf rfl _ msg).trans (by rw [List.map_append, List.map_singleton])

/-- The session sent or posted the notices of just these texts, and what it answered is said by headers
without a body. `alone` says that no other strand posts to it. -/
structure Sends (alone : Prop) (x : ChatSession) (texts : List (Text U)) (answers : List Header) : Prop where
  notices : (requests (x.sent ++ x.posted)).Perm (notices texts)
  order : alone → x.posted = [] ∧ requests x.sent = Chat.notices texts
  posted : ∀ p ∈ x.posted, p.body.isSome
  next : x.started → x.requestToken = UInt32.ofNat texts.length
  answers : (x.sent.filter fun p => p.body.isNone).map Packet.header = answers
  wf : ∀ p ∈ x.sent ++ x.posted, p.Wf

lemma listenerHash_ne : tChatListenerHash ≠ 0 := by decide

lemma serviceHash_ne : tChatServiceHash ≠ 0 := by decide

section Sends
variable {alone : Prop} {x : ChatSession} {texts : List (Text U)} {answers : List Header}

lemma notice_wf (k : ℕ) (msg : Text U) : (notice k msg).Wf :=
  ⟨rfl, fun heq => listenerHash_ne (congrArg Header.serviceHash heq)⟩

lemma deliver_started (hx : x.started) (h : Sends alone x texts answers) (own : Bool) (msg : Text U) :
    x.deliver own msg =
      if own then { x with requestToken := x.requestToken + 1, sent := x.sent ++ [notice texts.length msg] }
      else { x with requestToken := x.requestToken + 1, posted := x.posted ++ [notice texts.length msg] } := by
  unfold ChatSession.deliver ChatSession.sendRequest ChatSession.send
  rw [if_pos (by exact hx), h.next hx]
  rfl

lemma deliver_stopped (hx : x.started = false) (own : Bool) (msg : Text U) :
    x.deliver own msg = { x with requestToken := x.requestToken + 1 } := by
  unfold ChatSession.deliver ChatSession.sendRequest ChatSession.send
  exact if_neg (by simp [hx])

lemma Sends.deliver (h : Sends alone x texts answers) (hx : x.started) {own : Bool} (hown : alone → own = true)
    (msg : Text U) : Sends alone (x.deliver own msg) (texts ++ [msg]) answers := by
  have hone : requests [notice texts.length msg] = [notice texts.length msg] := rfl
  have hnext : x.requestToken + 1 = UInt32.ofNat (texts ++ [msg]).length := by
    rw [h.next hx, List.length_append, List.length_singleton, UInt32.ofNat_add]
    rfl
  have hperm : (requests (x.sent ++ x.posted ++ [notice texts.length msg])).Perm (Chat.notices (texts ++ [msg])) := by
    rw [requests_append, hone, notices_append]
    exact h.notices.append_right _
  rw [deliver_started hx h]
  cases own with
  | true =>
    rw [if_pos rfl]
    refine ⟨?_, fun ha => ?_, h.posted, fun _ => hnext, ?_, ?_⟩
    · refine List.Perm.trans (List.Perm.filter _ ?_) hperm
      rw [List.append_assoc, List.append_assoc]
      exact List.perm_append_comm.append_left x.sent
    · obtain ⟨hposted, hsent⟩ := h.order ha
      refine ⟨hposted, ?_⟩
      dsimp only
      rw [requests_append, hsent, hone, notices_append]
    · dsimp only
      rw [List.filter_append, List.map_append, h.answers]
      exact List.append_nil _
    · intro p hp
      simp only [List.mem_append, List.mem_singleton] at hp
      rcases hp with (hp | rfl) | hp
      · exact h.wf p (List.mem_append_left _ hp)
      · exact notice_wf _ _
      · exact h.wf p (List.mem_append_right _ hp)
  | false =>
    rw [if_neg Bool.false_ne_true]
    refine ⟨?_, fun ha => absurd (hown ha) Bool.false_ne_true, ?_, fun _ => hnext, h.answers, ?_⟩
    · dsimp only
      rw [← List.append_assoc]
      exact hperm
    · intro p hp
      rcases List.mem_append.mp hp with hp | hp
      · exact h.posted p hp
      · rw [List.mem_singleton.mp hp]
        rfl
    · intro p hp
      dsimp only at hp
      rw [← List.append_assoc] at hp
      rcases List.mem_append.mp hp with hp | hp
      · exact h.wf p hp
      · rw [List.mem_singleton.mp hp]
        exact notice_wf _ _

lemma Sends.drop (h : Sends alone x texts answers) (hx : x.started = false) (own : Bool) (msg : Text U) :
    Sends alone (x.deliver own msg) texts answers := by
  rw [deliver_stopped hx]
  exact ⟨h.notices, h.order, h.posted, fun hstarted => absurd hstarted (by simp [hx]), h.answers, h.wf⟩

lemma deliver_isStarted (x : ChatSession) (own : Bool) (msg : Text U) : (x.deliver own msg).started = x.started := by
  unfold ChatSession.deliver ChatSession.sendRequest ChatSession.send
  split
  · split <;> rfl
  · rfl

lemma deliverAll_isStarted (msgs : List (Text U)) (x : ChatSession) :
    (msgs.foldl (fun x msg => x.deliver true msg) x).started = x.started := by
  induction msgs generalizing x with
  | nil => rfl
  | cons msg msgs ih => exact (ih (x.deliver true msg)).trans (deliver_isStarted x true msg)

lemma Sends.deliverAll (h : Sends alone x texts answers) (hx : x.started) (msgs : List (Text U)) :
    Sends alone (msgs.foldl (fun x msg => x.deliver true msg) x) (texts ++ msgs) answers := by
  induction msgs generalizing x texts with
  | nil => rwa [List.append_nil]
  | cons msg msgs ih =>
    have hnext := ih (h.deliver hx (fun _ => rfl) msg) ((deliver_isStarted x true msg).trans hx)
    rwa [List.append_assoc] at hnext

lemma Sends.dropAll (h : Sends alone x texts answers) (hx : x.started = false) (msgs : List (Text U)) :
    Sends alone (msgs.foldl (fun x msg => x.deliver true msg) x) texts answers := by
  induction msgs generalizing x with
  | nil => exact h
  | cons msg msgs ih => exact ih (h.drop hx true msg) ((deliver_isStarted x true msg).trans hx)

lemma Sends.sendStatus (h : Sends alone x texts answers) (hx : x.started) (methodId token : UInt32) (status : Int32) :
    Sends alone (x.sendStatus tChatServiceHash methodId token status) texts
      (answers ++ [{ serviceHash := tChatServiceHash, methodId, token, status }]) := by
  have hnone : ∀ header : Header, requests [⟨header, none⟩] = [] := fun _ => rfl
  unfold ChatSession.sendStatus ChatSession.send
  rw [if_pos hx, if_pos rfl]
  refine ⟨?_, fun ha => ?_, h.posted, h.next, ?_, ?_⟩
  · dsimp only
    rw [requests_append, requests_append, hnone, List.append_nil, ← requests_append]
    exact h.notices
  · obtain ⟨hposted, hsent⟩ := h.order ha
    refine ⟨hposted, ?_⟩
    dsimp only
    rw [requests_append, hsent, hnone, List.append_nil]
  · dsimp only
    rw [List.filter_append, List.map_append, h.answers]
    rfl
  · intro p hp
    simp only [List.mem_append, List.mem_singleton] at hp
    rcases hp with (hp | rfl) | hp
    · exact h.wf p (List.mem_append_left _ hp)
    · exact ⟨rfl, fun heq => serviceHash_ne (congrArg Header.serviceHash heq)⟩
    · exact h.wf p (List.mem_append_right _ hp)

lemma Sends.runPosted (h : Sends alone x texts answers) : Sends alone x.runPosted texts answers := by
  unfold ChatSession.runPosted
  split
  · exact h
  · rename_i p posted hposted
    have hp : p.body.isSome := h.posted p (by rw [hposted]; exact List.mem_cons_self)
    have hsame : x.sent ++ [p] ++ posted = x.sent ++ x.posted := by
      rw [hposted, List.append_assoc, List.singleton_append]
    refine ⟨?_, fun ha => ?_, ?_, h.next, ?_, ?_⟩
    · dsimp only
      rw [hsame]
      exact h.notices
    · rw [(h.order ha).1] at hposted
      cases hposted
    · intro q hq
      exact h.posted q (by rw [hposted]; exact List.mem_cons_of_mem _ hq)
    · dsimp only
      rw [List.filter_append, List.map_append, h.answers]
      simp [Option.isSome_iff_ne_none.mp hp]
    · dsimp only
      rw [hsame]
      exact h.wf

/-- What a client prints of one packet. -/
def printedText (U : Utf8) (p : Packet) : List (List UInt8) := (Client.run U [p.received]).printed.headD []

lemma printedText_notice (k : ℕ) (msg : Text U) : printedText U (notice k msg) = [msg.1] := by
  have hrun : Client.run U [(notice k msg).received] = ⟨[[msg.1]], false⟩ := @fireRecv_ntf U {} rfl _ msg
  rw [printedText, hrun]
  rfl

lemma map_notices (texts : List (Text U)) : (notices texts).map (printedText U) = texts.map fun msg => [msg.1] := by
  induction texts using List.reverseRecOn with
  | nil => rfl
  | append_singleton texts msg ih =>
    rw [notices_append, List.map_append, ih, List.map_append, List.map_singleton, List.map_singleton,
      printedText_notice]

/-- What the client has printed and will print are the texts, in their order if no other strand posts. -/
lemma Sends.printed (h : Sends alone x texts answers) :
    (Client.run U (x.sent.map Packet.received)).stopped = false ∧
      ((Client.run U (x.sent.map Packet.received)).printed ++
        (Client.run U (x.posted.map Packet.received)).printed).Perm (texts.map fun msg => [msg.1]) ∧
      (alone → x.posted = [] ∧ (Client.run U (x.sent.map Packet.received)).printed = texts.map fun msg => [msg.1]) := by
  have hnotice : ∀ p ∈ requests x.sent ++ requests x.posted, ∃ k, ∃ msg : Text U, p = notice k msg := by
    intro p hp
    rw [← requests_append, h.notices.mem_iff] at hp
    obtain ⟨k, hk, rfl⟩ := List.mem_mapIdx.mp hp
    exact ⟨k, _, rfl⟩
  have hprinted : ∀ ms : List (ℕ × Text U), (ms.map fun m => notice m.1 m.2).map (printedText U) =
      ms.map fun m => [m.2.1] := fun ms => by
    rw [List.map_map]
    exact List.map_congr_left fun m _ => printedText_notice m.1 m.2
  obtain ⟨ms, hms, hrun⟩ := run_notices fun p hp => hnotice p (List.mem_append_left _ hp)
  obtain ⟨ms', hms', hrun'⟩ := run_notices fun p hp => hnotice p (List.mem_append_right _ hp)
  rw [hrun, hrun']
  refine ⟨rfl, ?_, fun ha => ?_⟩
  · have hperm := h.notices.map (printedText U)
    rwa [requests_append, List.map_append, hms, hms', hprinted, hprinted, map_notices] at hperm
  · obtain ⟨hposted, hsent⟩ := h.order ha
    refine ⟨hposted, ?_⟩
    dsimp only
    rw [← hprinted, ← hms, hsent, map_notices]

lemma map_token (texts : List (Text U)) :
    (notices texts).map (fun p => p.header.token) = (List.range texts.length).map UInt32.ofNat := by
  induction texts using List.reverseRecOn with
  | nil => rfl
  | append_singleton texts msg ih =>
    rw [notices_append, List.map_append, ih, List.length_append, List.length_singleton, List.range_succ,
      List.map_append]
    rfl

end Sends

section Stays
variable {log : List (Text U)} {a : Account}

lemma stay_append {v : ℕ × ℕ} (h : v.2 ≤ log.length) (msg : Text U) : stay (log ++ [msg]) v = stay log v := by
  rw [stay, stay, List.take_append_of_le_length h]

lemma stays_append {vs : List (ℕ × ℕ)} (h : ∀ v ∈ vs, v.2 ≤ log.length) (msg : Text U) :
    vs.flatMap (stay (log ++ [msg])) = vs.flatMap (stay log) :=
  List.flatMap_congr fun v hv => stay_append (h v hv) msg

lemma heard_joined {k : ℕ} (ha : a.joined = some k) (hk : k ≤ log.length) (hc : ∀ v ∈ a.closed, v.2 ≤ log.length)
    (msg : Text U) : heard (log ++ [msg]) a = heard log a ++ [msg] := by
  have hopen : stay (log ++ [msg]) (k, (log ++ [msg]).length) = stay log (k, log.length) ++ [msg] := by
    simp only [stay, List.take_length]
    exact List.drop_append_of_le_length (by omega)
  simp only [heard, ha, Option.map_some, Option.toList_some, List.flatMap_append, List.flatMap_singleton]
  rw [stays_append hc, hopen, List.append_assoc]

lemma heard_absent (ha : a.joined = none) (hc : ∀ v ∈ a.closed, v.2 ≤ log.length) (msg : Text U) :
    heard (log ++ [msg]) a = heard log a := by
  simp only [heard, ha, Option.map_none, Option.toList_none, List.append_nil]
  exact stays_append hc msg

lemma heard_close (log : List (Text U)) (a : Account) : heard log (a.close log.length) = heard log a := by
  simp [heard, Account.close]

/-- The last texts of the log. -/
def recent (log : List (Text U)) : List (Text U) := log.drop (log.length - kMaxRecentMsgs)

lemma recent_append (log : List (Text U)) (msg : Text U) :
    (recent log ++ [msg]).drop ((recent log ++ [msg]).length - kMaxRecentMsgs) = recent (log ++ [msg]) := by
  have hlast : recent log ++ [msg] = (log ++ [msg]).drop (log.length - kMaxRecentMsgs) :=
    (List.drop_append_of_le_length (Nat.sub_le _ _)).symm
  have hmax : kMaxRecentMsgs = 100 := rfl
  have hlen : log.length - kMaxRecentMsgs + ((recent log ++ [msg]).length - kMaxRecentMsgs) =
      (log ++ [msg]).length - kMaxRecentMsgs := by
    simp only [recent, List.length_append, List.length_drop, List.length_singleton]
    omega
  have hnext : recent (log ++ [msg]) = (log ++ [msg]).drop ((log ++ [msg]).length - kMaxRecentMsgs) := rfl
  rw [hnext, ← hlen, ← List.drop_drop, ← hlast]

lemma heard_enter (log : List (Text U)) (a : Account) : heard log (a.enter log.length) = heard log a ++ recent log := by
  have hstay : stay log (log.length, log.length) = recent log := by
    rw [stay, List.take_length]
    rfl
  rw [← heard_close log a]
  simp only [heard, Account.enter, Option.map_some, Option.toList_some, List.flatMap_append, List.flatMap_singleton,
    hstay]
  simp [Account.close]

end Stays

/-- A session of a room with this log. -/
structure SessionInv (log : List (Text U)) (alone member : Prop) (a : Account) (x : ChatSession) : Prop where
  member_iff : member ∧ x.started ↔ a.joined.isSome
  closed : ∀ v ∈ a.closed, v.2 ≤ log.length
  joined : ∀ k, a.joined = some k → k ≤ log.length
  sends : Sends alone x (heard log a) (a.received.filterMap (respond U))

section SessionInv
variable {log : List (Text U)} {alone member : Prop} {a : Account} {x : ChatSession} {r : Header × List UInt8}

lemma close_closed (hc : ∀ v ∈ a.closed, v.2 ≤ log.length) : ∀ v ∈ (a.close log.length).closed, v.2 ≤ log.length := by
  intro v hv
  rw [Account.close, List.mem_append] at hv
  rcases hv with hv | hv
  · exact hc v hv
  · obtain ⟨k, _, rfl⟩ := Option.map_eq_some_iff.mp (Option.mem_toList.mp hv)
    exact le_rfl

lemma SessionInv.connect (hm : ¬ member) : SessionInv log alone member {} {} := by
  refine ⟨iff_of_false (fun hin => hm hin.1) Bool.false_ne_true, ?_, ?_, .refl _, fun _ => ⟨rfl, rfl⟩, ?_, fun _ => rfl,
    rfl, ?_⟩
  · intro v hv
    cases hv
  · intro k hk
    cases hk
  · intro p hp
    cases hp
  · intro p hp
    cases hp

lemma SessionInv.receive (h : SessionInv log alone member a x) (hr : respond U r = none) :
    SessionInv log alone member (a.receive r) x where
  member_iff := h.member_iff
  closed := h.closed
  joined := h.joined
  sends := by
    have hsame : (a.receive r).received.filterMap (respond U) = a.received.filterMap (respond U) := by
      simp [Account.receive, hr]
    rw [hsame]
    exact h.sends

lemma SessionInv.refuse {methodId token : UInt32} {status : Int32} (h : SessionInv log alone member a x)
    (hx : x.started) (hr : respond U r = some { serviceHash := tChatServiceHash, methodId, token, status }) :
    SessionInv log alone member (a.receive r) (x.sendStatus tChatServiceHash methodId token status) where
  member_iff := by
    have hstarted : (x.sendStatus tChatServiceHash methodId token status).started = x.started := by
      unfold ChatSession.sendStatus ChatSession.send
      rw [if_pos hx, if_pos rfl]
    rw [hstarted]
    exact h.member_iff
  closed := h.closed
  joined := h.joined
  sends := by
    have hmore : (a.receive r).received.filterMap (respond U) = a.received.filterMap (respond U) ++
        [{ serviceHash := tChatServiceHash, methodId, token, status }] := by
      simp [Account.receive, hr]
    rw [hmore]
    exact h.sends.sendStatus hx methodId token status

lemma sendStatus_stopped (hx : x.started = false) (serviceHash methodId token : UInt32) (status : Int32) :
    x.sendStatus serviceHash methodId token status = x := by
  unfold ChatSession.sendStatus ChatSession.send
  exact if_neg (by simp [hx])

/-- The room tells a session that joins it what it keeps. -/
lemma SessionInv.join (h : SessionInv log alone member a x) (name : List UInt8) :
    SessionInv log alone True (if x.started then a.enter log.length else a)
      ((recent log).foldl (fun x msg => x.deliver true msg) { x with name }) := by
  have hnamed : Sends alone { x with name } (heard log a) (a.received.filterMap (respond U)) :=
    ⟨h.sends.notices, h.sends.order, h.sends.posted, h.sends.next, h.sends.answers, h.sends.wf⟩
  have hstarted := deliverAll_isStarted (recent log) { x with name }
  by_cases hx : x.started
  · rw [if_pos hx]
    refine ⟨?_, close_closed h.closed, fun k hk => ?_, ?_⟩
    · rw [hstarted]
      exact iff_of_true ⟨trivial, hx⟩ rfl
    · cases hk
      exact le_rfl
    · rw [heard_enter]
      exact hnamed.deliverAll hx (recent log)
  · rw [if_neg hx]
    refine ⟨?_, h.closed, h.joined, hnamed.dropAll (by simpa using hx) (recent log)⟩
    rw [hstarted, ← h.member_iff]
    simp [hx]

/-- A text is delivered to the room. -/
lemma SessionInv.chat (h : SessionInv log alone member a x) [Decidable member] {own : Bool}
    (hown : alone → own = true) (msg : Text U) :
    SessionInv (log ++ [msg]) alone member a (if member then x.deliver own msg else x) := by
  have hle : log.length ≤ (log ++ [msg]).length := by
    rw [List.length_append]
    exact Nat.le_add_right _ _
  have hclosed : ∀ v ∈ a.closed, v.2 ≤ (log ++ [msg]).length := fun v hv => (h.closed v hv).trans hle
  have hjoined : ∀ k, a.joined = some k → k ≤ (log ++ [msg]).length := fun k hk => (h.joined k hk).trans hle
  have hstarted : (if member then x.deliver own msg else x).started = x.started := by
    split
    · exact deliver_isStarted x own msg
    · rfl
  refine ⟨by rw [hstarted]; exact h.member_iff, hclosed, hjoined, ?_⟩
  cases hk : a.joined with
  | some k =>
    obtain ⟨hmember, hx⟩ := h.member_iff.mpr (by rw [hk]; rfl)
    rw [heard_joined hk (h.joined k hk) h.closed, if_pos hmember]
    exact h.sends.deliver hx hown msg
  | none =>
    rw [heard_absent hk h.closed]
    split
    · rename_i hmember
      have hx : x.started = false := by
        by_contra hx
        have hsome := h.member_iff.mp ⟨hmember, by simpa using hx⟩
        simp [hk] at hsome
      exact h.sends.drop hx own msg
    · exact h.sends

lemma SessionInv.runPosted (h : SessionInv log alone member a x) : SessionInv log alone member a x.runPosted := by
  refine ⟨?_, h.closed, h.joined, h.sends.runPosted⟩
  have hstarted : x.runPosted.started = x.started := by
    unfold ChatSession.runPosted
    split <;> rfl
  rw [hstarted]
  exact h.member_iff

lemma SessionInv.stop (h : SessionInv log alone member a x) :
    SessionInv log alone member (a.close log.length) { x with started := false } := by
  refine ⟨iff_of_false (fun hx => Bool.false_ne_true hx.2) Bool.false_ne_true, close_closed h.closed, ?_, ?_⟩
  · intro k hk
    cases hk
  · rw [heard_close]
    exact ⟨h.sends.notices, h.sends.order, h.sends.posted, fun hx => absurd hx Bool.false_ne_true, h.sends.answers,
      h.sends.wf⟩

lemma SessionInv.leave (h : SessionInv log alone member a x) (hx : x.started = false) :
    SessionInv log alone False a x := by
  refine ⟨?_, h.closed, h.joined, h.sends⟩
  rw [← h.member_iff]
  simp [hx]

end SessionInv

section WorldInv
variable {I H : Type} [DecidableEq I] {home : I → H}

/-- No session is on another handle than `i`. -/
def Alone (home : I → H) (i : I) : Prop := ∀ j, home j = home i

structure WorldInv (home : I → H) (w : World U I) : Prop where
  recent : w.server.recentMsg = recent w.log
  absent : ∀ i, w.server.sessions i = none → i ∉ w.server.users ∧ w.accounts i = {}
  sessions : ∀ i x, w.server.sessions i = some x →
    SessionInv w.log (Alone home i) (i ∈ w.server.users) (w.accounts i) x

variable {w v : World U I} {i : I} {x : ChatSession}

/-- A step changes the session `i`, its account and whether it is in the room. -/
lemma WorldInv.update (h : WorldInv home w) (hi : w.server.sessions i = some x) {a : Account} {y : ChatSession}
    (hlog : v.log = w.log) (hrecent : v.server.recentMsg = w.server.recentMsg)
    (hsessions : v.server.sessions = Function.update w.server.sessions i (some y))
    (haccounts : v.accounts = Function.update w.accounts i a)
    (husers : ∀ j, j ≠ i → (j ∈ v.server.users ↔ j ∈ w.server.users))
    (hf : SessionInv w.log (Alone home i) (i ∈ w.server.users) (w.accounts i) x →
      SessionInv w.log (Alone home i) (i ∈ v.server.users) a y) : WorldInv home v := by
  refine ⟨by rw [hrecent, hlog, h.recent], ?_, ?_⟩
  · intro j hj
    rw [hsessions] at hj
    by_cases hji : j = i
    · subst hji
      rw [Function.update_self] at hj
      cases hj
    · rw [Function.update_of_ne hji] at hj
      rw [husers j hji, haccounts, Function.update_of_ne hji]
      exact h.absent j hj
  · intro j z hj
    rw [hsessions] at hj
    rw [hlog, haccounts]
    by_cases hji : j = i
    · subst hji
      rw [Function.update_self] at hj ⊢
      cases hj
      exact hf (h.sessions j x hi)
    · rw [Function.update_of_ne hji] at hj ⊢
      rw [husers j hji]
      exact h.sessions j z hj

lemma modify_sessions {s : Server U I} (hi : s.sessions i = some x) (f : ChatSession → ChatSession) :
    (s.modify i f).sessions = Function.update s.sessions i (some (f x)) := by
  rw [Server.modify, hi]
  rfl

lemma WorldInv.receive (h : WorldInv home w) (hi : w.server.sessions i = some x) {r : Header × List UInt8}
    (hr : respond U r = none) (started : Bool) :
    WorldInv home (if started then w.modify i fun a => a.receive r else w) := by
  cases started with
  | true =>
    refine @WorldInv.update _ _ _ _ _ w _ i x h hi ((w.accounts i).receive r) x rfl rfl ?_ rfl (fun _ _ => Iff.rfl)
      fun hx => hx.receive hr
    exact (Function.update_eq_self_iff.mpr hi.symm).symm
  | false => exact h

lemma WorldInv.refuse (h : WorldInv home w) (hi : w.server.sessions i = some x) {r : Header × List UInt8}
    {methodId token : UInt32} {status : Int32}
    (hr : respond U r = some { serviceHash := tChatServiceHash, methodId, token, status }) :
    WorldInv home { if x.started then w.modify i fun a => a.receive r else w with
      server := w.server.sendStatus i methodId token status } := by
  have hsessions := modify_sessions hi fun x => x.sendStatus tChatServiceHash methodId token status
  by_cases hx : x.started
  · rw [if_pos hx]
    exact h.update hi rfl rfl hsessions rfl (fun _ _ => Iff.rfl) fun hinv => hinv.refuse hx hr
  · have hstopped : x.sendStatus tChatServiceHash methodId token status = x := sendStatus_stopped (by simpa using hx) ..
    rw [if_neg hx]
    refine h.update hi rfl rfl hsessions (Function.update_eq_self i w.accounts).symm (fun _ _ => Iff.rfl) fun hinv => ?_
    rw [hstopped]
    exact hinv

lemma WorldInv.join (h : WorldInv home w) (hi : w.server.sessions i = some x) (name : List UInt8) :
    WorldInv home { if x.started then w.modify i fun a => a.enter w.log.length else w with
      server := (w.server.modify i fun x => { x with name }).join i } := by
  have husers : ∀ j, j ≠ i → (j ∈ insert i w.server.users ↔ j ∈ w.server.users) := fun j hj => by
    rw [Finset.mem_insert]
    exact or_iff_right hj
  have hnamed := modify_sessions hi fun x => { x with name }
  have hsessions : ((w.server.modify i fun x => { x with name }).join i).sessions = Function.update w.server.sessions i
      (some ((Chat.recent w.log).foldl (fun x msg => x.deliver true msg) { x with name })) := by
    rw [Server.join, Server.modify]
    dsimp only
    rw [hnamed, Function.update_self, Function.update_idem, ← h.recent]
    rfl
  refine @WorldInv.update _ _ _ _ _ w _ i x h hi
    (if x.started then (w.accounts i).enter w.log.length else w.accounts i) _ ?_ rfl hsessions ?_ husers fun hinv => ?_
  · split <;> rfl
  · split
    · rfl
    · exact (Function.update_eq_self i w.accounts).symm
  · have hjoin := hinv.join name
    rwa [← propext (iff_of_true (Finset.mem_insert_self i w.server.users) trivial)] at hjoin

variable [DecidableEq H]

lemma WorldInv.deliver (h : WorldInv home w) (i : I) (msg : Text U) :
    WorldInv home { w with server := w.server.deliver home i msg, log := w.log ++ [msg] } := by
  refine ⟨?_, ?_, ?_⟩
  · dsimp only [Server.deliver]
    rw [h.recent, recent_append]
  · intro j hj
    dsimp only [Server.deliver] at hj ⊢
    refine h.absent j ?_
    split_ifs at hj with hmem
    · exact Option.map_eq_none_iff.mp hj
    · exact hj
  · intro j x hj
    have hown : Alone home j → decide (home j = home i) = true := fun ha => decide_eq_true (ha i).symm
    dsimp only [Server.deliver] at hj ⊢
    split_ifs at hj with hmem
    · obtain ⟨y, hy, rfl⟩ := Option.map_eq_some_iff.mp hj
      have hchat := (h.sessions j y hy).chat hown msg
      rwa [if_pos hmem] at hchat
    · have hchat := (h.sessions j x hj).chat hown msg
      rwa [if_neg hmem] at hchat

/-- A method does what the packet asks. -/
lemma fireRecv_read (home : I → H) (s : Server U I) (i : I) (header : Header) (packet : List UInt8) :
    s.fireRecv home i header packet =
      match readRequest U (header, packet) with
      | .foreign => s
      | .refused status => s.sendStatus i header.methodId header.token status
      | .join name => (s.modify i fun x => { x with name }).join i
      | .chat msg => s.deliver home i msg := by
  have hone : (header.methodId &&& 0x3FFFFFFF).toNat = 1 ↔ header.methodId &&& 0x3FFFFFFF = 1 := by
    rw [← UInt32.toNat_inj]
    rfl
  have htwo : (header.methodId &&& 0x3FFFFFFF).toNat = 2 ↔ header.methodId &&& 0x3FFFFFFF = 2 := by
    rw [← UInt32.toNat_inj]
    rfl
  unfold Server.fireRecv ServiceMgr.dispatch readRequest
  by_cases hhash : header.serviceHash = tChatServiceHash
  · have hfound : (Server.chatDispather (U := U) home).dispatchers header.serviceHash =
        some (Server.callServerMethod home) := by
      simp [Server.chatDispather, ServiceMgr.addService, hhash]
    rw [hfound, if_neg (not_not.mpr hhash)]
    dsimp only
    unfold Server.callServerMethod
    split
    next h1 =>
      rw [if_pos (hone.mp h1)]
      cases parseFromArray (TUpdateInfoRequest.type U.valid) packet <;> rfl
    next h2 =>
      have hnot : ¬ header.methodId &&& 0x3FFFFFFF = 1 := by
        intro h1
        rw [htwo.mp h2] at h1
        cases h1
      rw [if_neg hnot, if_pos (htwo.mp h2)]
      cases parseChatRequest U packet <;> rfl
    next h1 h2 => rw [if_neg fun h => h1 (hone.mpr h), if_neg fun h => h2 (htwo.mpr h)]
  · have hmissing : (Server.chatDispather (U := U) home).dispatchers header.serviceHash = none := by
      simp [Server.chatDispather, ServiceMgr.addService, hhash]
    rw [hmissing, if_pos hhash]

lemma respond_read (U : Utf8) (header : Header) (packet : List UInt8) :
    respond U (header, packet) =
      match readRequest U (header, packet) with
      | .refused status =>
        some { serviceHash := tChatServiceHash, methodId := header.methodId, token := header.token, status }
      | _ => none := by
  unfold respond readRequest
  by_cases hhash : header.serviceHash = tChatServiceHash
  · rw [if_neg (not_not.mpr hhash), if_neg (not_not.mpr hhash)]
    dsimp only
    rw [hhash]
    split
    · cases parseFromArray (TUpdateInfoRequest.type U.valid) packet <;> rfl
    · split
      · have hparse : parseChatRequest U packet = none ↔ parseFromArray (TChatRequest.type U.valid) packet = none := by
          simp [parseChatRequest]
        cases hchat : parseChatRequest U packet with
        | none => rw [if_pos (hparse.mp hchat)]
        | some msg => exact if_neg fun hnone => by simp [hparse.mpr hnone] at hchat
      · rfl
  · rw [if_pos hhash, if_pos hhash]

lemma exec_receive (h : WorldInv home w) (hi : w.server.sessions i = some x) (header : Header) (packet : List UInt8) :
    WorldInv home { w.record i (header, packet) x.started with server := w.server.fireRecv home i header packet } := by
  have hrespond := respond_read U header packet
  rw [fireRecv_read]
  unfold World.record
  cases hread : readRequest U (header, packet) with
  | foreign =>
    rw [hread] at hrespond
    have hreceive := h.receive hi hrespond x.started
    cases hx : x.started with
    | true | false =>
      rw [hx] at hreceive
      exact hreceive
  | refused status =>
    rw [hread] at hrespond
    exact h.refuse hi hrespond
  | join name =>
    rw [hread] at hrespond
    have hreceive := h.receive hi hrespond x.started
    cases hx : x.started with
    | true | false =>
      rw [hx] at hreceive
      have hjoin := hreceive.join hi name
      rw [hx] at hjoin
      exact hjoin
  | chat msg =>
    rw [hread] at hrespond
    have hchat := (h.receive hi hrespond x.started).deliver i msg
    cases hx : x.started with
    | true | false =>
      rw [hx] at hchat
      exact hchat

lemma exec_inv {op : Op I} (h : WorldInv home w) (hs : exec home w op = some v) : WorldInv home v := by
  cases op with
  | connect i =>
    simp only [exec] at hs
    split at hs
    next hi =>
      cases hs
      obtain ⟨hout, hnew⟩ := h.absent i hi
      refine ⟨h.recent, fun j hj => ?_, fun j x hj => ?_⟩
      · dsimp only at hj
        by_cases hji : j = i
        · rw [hji, Function.update_self] at hj
          cases hj
        · rw [Function.update_of_ne hji] at hj
          exact h.absent j hj
      · dsimp only at hj ⊢
        by_cases hji : j = i
        · rw [hji, Function.update_self] at hj
          cases hj
          rw [hji, hnew]
          exact SessionInv.connect hout
        · rw [Function.update_of_ne hji] at hj
          exact h.sessions j x hj
    next => cases hs
  | receive i header packet =>
    obtain ⟨x, hi, rfl⟩ := Option.map_eq_some_iff.mp hs
    exact exec_receive h hi header packet
  | runPosted i =>
    obtain ⟨x, hi, rfl⟩ := Option.map_eq_some_iff.mp hs
    exact h.update hi rfl rfl (modify_sessions hi _) (Function.update_eq_self i w.accounts).symm
      (fun _ _ => Iff.rfl) fun hinv => hinv.runPosted
  | stop i =>
    obtain ⟨x, hi, rfl⟩ := Option.map_eq_some_iff.mp hs
    exact h.update hi rfl rfl (modify_sessions hi _) rfl (fun _ _ => Iff.rfl) fun hinv => hinv.stop
  | disconnect i =>
    simp only [exec] at hs
    split at hs
    next x hi =>
      split_ifs at hs with hx
      cases hs
      have husers : ∀ j, j ≠ i → (j ∈ w.server.users.erase i ↔ j ∈ w.server.users) := fun j hj => by
        rw [Finset.mem_erase]
        exact and_iff_right hj
      refine h.update hi rfl rfl (Function.update_eq_self_iff.mpr hi.symm).symm
        (Function.update_eq_self i w.accounts).symm husers fun hinv => ?_
      have hleave := hinv.leave (by simpa using hx)
      rwa [propext (iff_of_false id (Finset.notMem_erase i w.server.users))] at hleave
    next => cases hs

lemma inv_of_reachable (h : Reachable (chatRuns U home) w) : WorldInv home w := by
  apply h.invariant
  · intro a ha
    cases ha
    exact ⟨rfl, fun i _ => ⟨Finset.notMem_empty i, rfl⟩, fun i x hx => by cases hx⟩
  · intro _ _ _ hi hs
    exact exec_inv hi hs

end WorldInv

/-- A machine on which every sequence of bytes is a text. -/
def anyText : Utf8 := ⟨fun _ => true, rfl⟩

/-- Two sessions on two handles join, each of them says one text, and a method that there is not is called.
The second one is sent its own text before the other one. -/
def twoTalk : List (Op ℕ) :=
  [.connect 0, .connect 1, .receive 0 { serviceHash := tChatServiceHash, methodId := 0x40000001 } [],
    .receive 1 { serviceHash := tChatServiceHash, methodId := 0x40000001 } [],
    .receive 0 { serviceHash := tChatServiceHash, methodId := 0x40000002 } [10, 1, 120],
    .receive 1 { serviceHash := tChatServiceHash, methodId := 0x40000002 } [10, 1, 121],
    .receive 1 { serviceHash := tChatServiceHash, methodId := 9, token := 2 } [], .runPosted 1]

def talked : World anyText ℕ := (twoTalk.foldlM (exec id) {}).getD {}

def talker : ChatSession := (talked.server.sessions 1).getD {}

lemma talked_reachable : Reachable (chatRuns anyText (id : ℕ → ℕ)) talked :=
  have hrun : twoTalk.foldlM (exec id) {} = some talked := rfl
  .of_foldlM (fun _ _ _ hstep => hstep) (.init rfl) hrun

section Rooms
variable {I H : Type} [DecidableEq I] [DecidableEq H] {home : I → H} {w : World U I} {i : I} {x : ChatSession}

/-- For every part of a session's stream that has arrived, in whatever pieces, the client reads it without
an error and has printed the first of the texts that were sent, and all of them when the stream has
arrived. These and the texts that are still posted are the texts of the session's stays, each as often as
there, and in their order when all sessions are on one handle. -/
theorem chat_heard (h : Reachable (chatRuns U home) w) (hx : w.server.sessions i = some x)
    (native : ByteOrder.Endian) {chunks : List (List UInt8)} {unread : List UInt8}
    (hcut : chunks.flatten ++ unread = x.sent.flatMap Packet.encode) {fuel : ℕ}
    (hfuel : chunks.flatten.length + 1 < fuel) :
    ∃ t, receive (headerProtocol native) fuel chunks = some t ∧ (Client.run U t.packets).stopped = false ∧
      (Client.run U t.packets).printed <+: (Client.run U (x.sent.map Packet.received)).printed ∧
      (unread = [] → (Client.run U t.packets).printed = (Client.run U (x.sent.map Packet.received)).printed) ∧
      ((Client.run U (x.sent.map Packet.received)).printed ++
        (Client.run U (x.posted.map Packet.received)).printed).Perm
          ((heard w.log (w.accounts i)).map fun msg => [msg.1]) ∧
      (Alone home i → x.posted = [] ∧ (Client.run U (x.sent.map Packet.received)).printed =
        (heard w.log (w.accounts i)).map fun msg => [msg.1]) := by
  have hsends := ((inv_of_reachable h).sessions i x hx).sends
  obtain ⟨hwhole, hperm, hall⟩ := hsends.printed
  obtain ⟨t, ht, -, hinitial, hread⟩ :=
    @receive_packets native _ (fun p hp => hsends.wf p (List.mem_append_left _ hp)) _ _ hcut _ hfuel
  obtain ⟨more, hmore⟩ := hinitial
  have hrun : more.foldl (Client.fireRecv U) (Client.run U t.packets) = Client.run U (x.sent.map Packet.received) := by
    rw [← hmore, Client.run, Client.run, List.foldl_append]
  obtain ⟨hstopped, hprinted⟩ := @printed_grows U (Client.run U t.packets) more (by rw [hrun, hwhole])
  rw [hrun] at hprinted
  refine ⟨t, ht, hstopped, hprinted, fun hunread => ?_, hperm, hall⟩
  rw [(hread hunread).1]

theorem chat_heard_two_talk :
    ∃ t, receive (headerProtocol .little) 100
        [(talker.sent.flatMap Packet.encode).take 7, (talker.sent.flatMap Packet.encode).drop 7] = some t ∧
      (Client.run anyText t.packets).printed = [[[121]], [[120]]] := by
  have hcut : [(talker.sent.flatMap Packet.encode).take 7, (talker.sent.flatMap Packet.encode).drop 7].flatten ++ [] =
      talker.sent.flatMap Packet.encode := by
    simp
  obtain ⟨t, ht, -, -, hall, -⟩ := chat_heard talked_reachable (show talked.server.sessions 1 = some talker from rfl)
    .little hcut (show _ < 100 by decide)
  exact ⟨t, ht, hall rfl⟩

/-- The texts that the room keeps are the last hundred of all, and the last ones in the numbering of what
each started member was sent or will be. -/
theorem members_agree (h : Reachable (chatRuns U home) w) :
    w.server.recentMsg = w.log.drop (w.log.length - kMaxRecentMsgs) ∧
      ∀ i ∈ w.server.users, ∃ x, w.server.sessions i = some x ∧ (x.started →
        ∃ before : List (Text U),
          (requests (x.sent ++ x.posted)).Perm (notices (before ++ w.server.recentMsg)) ∧
          (Alone home i → (Client.run U (x.sent.map Packet.received)).printed =
            (before ++ w.server.recentMsg).map fun msg => [msg.1])) := by
  have hinv := inv_of_reachable h
  refine ⟨hinv.recent, fun i hi => ?_⟩
  cases hx : w.server.sessions i with
  | none => exact absurd hi (hinv.absent i hx).1
  | some x =>
    have hsession := hinv.sessions i x hx
    refine ⟨x, rfl, fun hstarted => ?_⟩
    obtain ⟨k, hk⟩ := Option.isSome_iff_exists.mp (hsession.member_iff.mp ⟨hi, hstarted⟩)
    have hle := hsession.joined k hk
    have hsuffix : w.server.recentMsg <:+ heard w.log (w.accounts i) := by
      rw [hinv.recent, heard, hk, Option.map_some, Option.toList_some, List.flatMap_append, List.flatMap_singleton,
        stay, List.take_length]
      exact (List.drop_suffix_drop_left w.log (Nat.sub_le_sub_right hle _)).trans (List.suffix_append _ _)
    obtain ⟨before, hbefore⟩ := hsuffix
    refine ⟨before, ?_, fun ha => ?_⟩
    · rw [hbefore]
      exact hsession.sends.notices
    · rw [hbefore]
      exact (hsession.sends.printed.2.2 ha).2

theorem members_agree_two_talk : talked.server.recentMsg.length = 2 ∧ ∃ x, talked.server.sessions 1 = some x ∧
    ∃ before : List (Text anyText),
      (requests (x.sent ++ x.posted)).Perm (notices (before ++ talked.server.recentMsg)) := by
  obtain ⟨x, hx, hsent⟩ := (members_agree talked_reachable).2 1 (by decide)
  obtain rfl : talker = x := Option.some.inj hx
  obtain ⟨before, hperm, -⟩ := hsent rfl
  exact ⟨rfl, talker, hx, before, hperm⟩

/-- A session answers just the packets of its service that it cannot read or has no method for, in
their order, and its notices are numbered from 0. -/
theorem answers_exact (h : Reachable (chatRuns U home) w) (hx : w.server.sessions i = some x) :
    (x.sent.filter fun p => p.body.isNone).map Packet.header = (w.accounts i).received.filterMap (respond U) ∧
      (∀ p ∈ x.posted, p.body.isSome) ∧
      ((requests (x.sent ++ x.posted)).map fun p => p.header.token).Perm
        ((List.range (heard w.log (w.accounts i)).length).map UInt32.ofNat) ∧
      (Alone home i → (requests x.sent).map (fun p => p.header.token) =
        (List.range (heard w.log (w.accounts i)).length).map UInt32.ofNat) := by
  have hsends := ((inv_of_reachable h).sessions i x hx).sends
  refine ⟨hsends.answers, hsends.posted, ?_, fun ha => ?_⟩
  · rw [← map_token]
    exact hsends.notices.map _
  · rw [← map_token, (hsends.order ha).2]

theorem answers_exact_two_talk :
    (talked.accounts 1).received.filterMap (respond anyText) =
        [{ serviceHash := tChatServiceHash, methodId := 9, token := 2, status := kErrorCodeInvalidMethod }] ∧
      (talker.sent.filter fun p => p.body.isNone).map Packet.header =
        (talked.accounts 1).received.filterMap (respond anyText) :=
  ⟨rfl, (answers_exact talked_reachable (show talked.server.sessions 1 = some talker from rfl)).1⟩

end Rooms

end TyphoonZero.Chat
