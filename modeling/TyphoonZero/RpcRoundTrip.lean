import TyphoonZero.RpcConnection
import TyphoonZero.RpcService

/-! A call from one end of a connection to the services at the other end, and its answer back. -/
namespace TyphoonZero.Rpc
open Transition EventQueue TcpFraming
variable {utf8 : List UInt8 → Bool}

/-- What was given to `FireRecv` of the end that has the services. -/
def ServiceOp.received : ServiceOp utf8 → Option (Header × List UInt8)
  | .receive _ header packet => some (header, packet)
  | .resume _ _ => none

def callKey (received : Header × List UInt8) : CallKey :=
  ⟨received.1.serviceHash, received.1.methodId, received.1.token⟩

lemma callKey_received (p : Packet) : callKey p.received = p.key := rfl

/-- The method of the key is one with a response, of a service that is there. -/
def CallKey.HasResponse (key : CallKey) : Prop :=
  (key.serviceHash = testService2Hash ∨ key.serviceHash = testService3Hash) ∧
    (key.methodId &&& 0x3FFFFFFF).toNat ≠ 1

lemma owes_sublist (op : ServiceOp utf8) :
    op.owes.Sublist ((op.received.map callKey).toList) := by
  cases op with
  | receive h header packet =>
    rw [owes_receive]
    split
    · exact List.Sublist.refl _
    · exact List.nil_sublist _
  | resume i r => exact List.Sublist.refl _

lemma owes_count (op : ServiceOp utf8) {key : CallKey} (hkey : key.HasResponse) :
    op.owes.count key = ((op.received.map callKey).toList).count key := by
  cases op with
  | receive h header packet =>
    rw [owes_receive]
    split
    · rfl
    · rename_i howes
      -- A call that is not owed an answer has another key.
      have hne : callKey (header, packet) ≠ key := by
        rintro rfl
        exact howes ⟨hkey.1, fun hone => absurd hone hkey.2⟩
      have hzero : List.count key [callKey (header, packet)] = 0 :=
        List.count_eq_zero.mpr fun hmem => hne (List.mem_singleton.mp hmem).symm
      exact hzero.symm
  | resume i r => rfl

lemma received_cons (op : ServiceOp utf8) (ops : List (ServiceOp utf8)) :
    ((op :: ops).filterMap ServiceOp.received).map callKey =
      (op.received.map callKey).toList ++ (ops.filterMap ServiceOp.received).map callKey := by
  cases op with
  | receive h header packet => rfl
  | resume i r => rfl

/-- Nothing is owed an answer that was not received. -/
lemma owes_sublist_all (ops : List (ServiceOp utf8)) :
    (ops.flatMap ServiceOp.owes).Sublist ((ops.filterMap ServiceOp.received).map callKey) := by
  induction ops with
  | nil => exact List.Sublist.refl _
  | cons op ops ih =>
    rw [List.flatMap_cons, received_cons]
    exact (owes_sublist op).append ih

lemma owes_count_all (ops : List (ServiceOp utf8)) {key : CallKey} (hkey : key.HasResponse) :
    (ops.flatMap ServiceOp.owes).count key =
      ((ops.filterMap ServiceOp.received).map callKey).count key := by
  induction ops with
  | nil => rfl
  | cons op ops ih =>
    rw [List.flatMap_cons, received_cons, List.count_append, List.count_append, owes_count op hkey, ih]

section Connections
variable {G : Type} [DecidableEq G]

/-- Nothing that was sent waits for the socket. -/
structure Drained (s : Connection G) : Prop where
  posted : s.queue.posted = []
  quiet : Quiet s.queue

variable {caller callee : Connection G}

/-- Two ends on machines of any byte orders: when all calls and all answers that were sent on a started
session have arrived, cut in any way, no call has two answers and no answer is without a call. No answer
was refused: then a call of a method with a response has its one answer, unless a handler still keeps
the continuation. -/
theorem calls_come_back (hcaller : Reachable (connectionRuns G) caller)
    (hcallee : Reachable (connectionRuns G) callee) (hthrough : Drained caller) (hthrough' : Drained callee)
    {native native' : ByteOrder.Endian} {there back : List (List UInt8)}
    (hthere : there.flatten = caller.wire native) (hback : back.flatten = callee.wire native') {fuel : ℕ}
    (hfuel : there.flatten.length + 1 < fuel) (hfuel' : back.flatten.length + 1 < fuel)
    {t : TcpFraming.Session Header} (ht : receive (headerProtocol native') fuel there = some t)
    {ops : List (ServiceOp utf8)} {peer : Peer} (hrun : Traces (serviceRuns utf8) ops peer)
    (hfed : ops.filterMap ServiceOp.received = t.packets) (hsent : callee.given = peer.session.sent) :
    ∃ u, receive (headerProtocol native) fuel back = some u ∧
      List.Subperm (u.packets.map callKey ++ peer.pending) (caller.given.map Packet.key) ∧
      ∀ key : CallKey, key.HasResponse → (u.packets.map callKey ++ peer.pending).count key =
        (caller.given.map Packet.key).count key := by
  have hinv := PeerInv.of_traces hrun
  obtain ⟨t', ht', hcalls⟩ :=
    receive_all (inv_of_reachable hcaller) hthrough.posted hthrough.quiet native native' hthere hfuel
  obtain rfl : t' = t := Option.some.inj (ht'.symm.trans ht)
  obtain ⟨u, hu, hanswers⟩ :=
    receive_all (inv_of_reachable hcallee) hthrough'.posted hthrough'.quiet native' native hback hfuel'
  have hasked : List.Perm ((ops.filterMap ServiceOp.received).map callKey)
      (caller.given.map Packet.key) := by
    rw [hfed]
    simpa [Function.comp_def, callKey_received] using hcalls.map callKey
  have hgiven : List.Perm (u.packets.map callKey ++ peer.pending) (ops.flatMap ServiceOp.owes) := by
    have hkeys : List.Perm (u.packets.map callKey) (peer.session.sent.map Packet.key) := by
      rw [hsent] at hanswers
      simpa [Function.comp_def, callKey_received] using hanswers.map callKey
    exact (hkeys.append_right _).trans hinv.balanced
  refine ⟨u, hu, ?_, fun key hkey => ?_⟩
  · exact (hgiven.subperm.trans (owes_sublist_all ops).subperm).trans hasked.subperm
  · rw [hgiven.count_eq, owes_count_all ops hkey, hasked.count_eq]

end Connections

def noFields : Message where
  byteSizeLong := 0
  serialize := []
  length_serialize := rfl
  small := Nat.zero_le _

/-- The connection of an end after one call, whose event has been through. -/
def afterCall (c : Call) : Option (Connection ℕ) :=
  [Op.setStarted true, .call c (some 0), .releaseOnStrand 0 1].foldlM exec {}

/-- A call of an unknown method comes back as a status. -/
theorem calls_come_back_status : ∃ caller callee : Connection ℕ, ∃ u,
    afterCall (.request testService3Hash 9 noFields) = some caller ∧
      receive (headerProtocol .little) 100 [callee.wire .big] = some u ∧
      (u.packets.map callKey).count ⟨testService3Hash, 9, 0⟩ =
        (caller.given.map Packet.key).count ⟨testService3Hash, 9, 0⟩ := by
  have hinit : Reachable (connectionRuns ℕ) {} := .init rfl
  have h0 := @Reachable.step _ _ _ (Op.setStarted true) _ _ hinit ⟨trivial, rfl⟩
  have hquiet : ∀ g : ℕ, Function.update (Function.update (fun _ => none) 0 (some true)) 0 none g ≠ some true := by
    intro g
    rw [Function.update_idem]
    simp [Function.update]
  have hrequest : (Op.call (.request testService3Hash 9 noFields) (some (0 : ℕ))).Named :=
    show testService3Hash ≠ 0 by decide
  have hstatus : (Op.call (.status testService3Hash 9 0 kErrorCodeInvalidMethod) (some (0 : ℕ))).Named :=
    show testService3Hash ≠ 0 by decide
  have h1 := h0.step ⟨hrequest, rfl⟩
  have hcaller := @Reachable.step _ _ _ (Op.releaseOnStrand 0 1) _ _ h1 ⟨trivial, rfl⟩
  have h2 := h0.step ⟨hstatus, rfl⟩
  have hcallee := @Reachable.step _ _ _ (Op.releaseOnStrand 0 1) _ _ h2 ⟨trivial, rfl⟩
  have hreceived := @receive_all ℕ _ _ (inv_of_reachable hcaller) rfl ⟨hquiet, rfl⟩ .little .big [_]
    (List.append_nil _) 100 (by decide)
  obtain ⟨t, ht, hperm⟩ := hreceived
  have hpackets := List.perm_singleton.mp hperm
  have htrace : Traces (serviceRuns fun _ => true) [] {} := .nil rfl
  have hexec : [ServiceOp.receive (.base fun _ => true) { serviceHash := testService3Hash, methodId := 9 }
      []].foldlM Peer.exec {} = some _ := rfl
  have hrun := htrace.of_foldlM (fun _ _ _ hstep => hstep) hexec
  obtain ⟨u, hu, -, hcount⟩ := @calls_come_back (fun _ => true) ℕ _ _ _ hcaller hcallee ⟨rfl, hquiet, rfl⟩
    ⟨rfl, hquiet, rfl⟩ .little .big [_] [_] (List.append_nil _) (List.append_nil _) 100 (by decide) (by decide) t ht
    _ _ hrun hpackets.symm rfl
  have hkey : CallKey.HasResponse ⟨testService3Hash, 9, 0⟩ := ⟨.inr rfl, by decide⟩
  have hanswered : List.count (⟨testService3Hash, 9, 0⟩ : CallKey) (u.packets.map callKey ++ []) = _ :=
    hcount _ hkey
  rw [List.append_nil] at hanswered
  exact ⟨_, _, u, rfl, hu, hanswered⟩

end TyphoonZero.Rpc
