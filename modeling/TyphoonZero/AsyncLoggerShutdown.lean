import TyphoonZero.AsyncLogger

/-! What the appenders have received when `Shutdown` returns. -/
namespace TyphoonZero.AsyncLogger
open Transition MPMCQueue
variable {n : ℕ} {P : Type} {appenders : List Appender} {s t : State n P}

lemma take_queue_nil (w : Fin n) (h : s.q.queue = []) : (s.take w).q.queue = [] := by
  unfold State.take
  split
  · exact h
  · obtain ⟨task, -, hq⟩ | hnone := dequeue_head s.q
    · rw [h] at hq
      cases hq
    · rw [hnone]
      exact h

lemma isExited_iff {x : Worker P} : x.isExited = true ↔ x = .exited := by
  cases x <;> simp [Worker.isExited]

lemma exec_closed {op : Op n P} (h : Closed s) (hs : exec appenders s op = some t) : Closed t := by
  -- a worker moves only before the workers are joined
  have hmove : ∀ {w : Fin n} {u : State n P}, s.worker w ≠ .exited → u.phase = s.phase →
      (s.q.queue = [] → u.q.queue = []) → Closed u := by
    intro w u hw hphase hqueue
    constructor
    · intro hp
      rw [hphase] at hp
      exact hqueue (h.cancelled hp)
    · intro hp
      rw [hphase] at hp
      exact absurd (h.returned hp w) hw
  cases op with
  | appenderDoLog msg =>
    simp only [exec] at hs
    split at hs
    next hp =>
      cases hs
      constructor
      · intro hp'
        simp [hp] at hp'
      · intro hp'
        simp [hp] at hp'
    next => cases hs
  | appenderDoFlush =>
    simp only [exec] at hs
    split at hs
    next hp =>
      cases hs
      constructor
      · intro hp'
        rcases hp with hp | hp <;> simp [hp] at hp'
      · intro hp'
        rcases hp with hp | hp <;> simp [hp] at hp'
    next => cases hs
  | flushAll =>
    simp only [exec] at hs
    split at hs
    · cases hs
      constructor
      · intro hp
        simp at hp
      · intro hp
        cases hp
    · cases hs
  | cancel =>
    simp only [exec] at hs
    split at hs
    · cases hs
      constructor
      · intro _
        rfl
      · intro hp
        cases hp
    · cases hs
  | join =>
    simp only [exec] at hs
    split at hs
    next hdone =>
      cases hs
      constructor
      · intro _
        exact h.cancelled (.inl hdone.1)
      · intro _ w
        exact isExited_iff.mp (hdone.2 w)
    next => cases hs
  | dequeueWait w | wake w =>
    simp only [exec] at hs
    split at hs
    next hw =>
      cases hs
      apply @hmove w
      · simp [hw]
      · exact take_phase w
      · exact take_queue_nil w
    next => cases hs
  | backend w =>
    simp only [exec] at hs
    split at hs
    next seq msg next hw =>
      obtain ⟨hqueue, -, -⟩ := @Inv.deliver_frame _ _ appenders s seq msg next
      have hphase : (s.deliver appenders seq msg next).phase = s.phase := by
        unfold State.deliver
        split <;> rfl
      split at hs
      · cases hs
        apply @hmove w
        · simp [hw]
        · exact hphase
        · intro hnil
          change (s.deliver appenders seq msg next).q.queue = []
          rw [hqueue, hnil]
      · cases hs
        apply @hmove w
        · simp [hw]
        · rfl
        · exact id
    next hw =>
      cases hs
      apply @hmove w
      · simp [hw]
      · rfl
      · exact id
    next => cases hs

/-- The loop over the appenders from `k` on hands the message to those that take it. -/
lemma syncAppenderDoLog_apply (received : ℕ → List (LogMsg P)) (msg : LogMsg P) (i : ℕ) :
    syncAppenderDoLog appenders received msg i =
      received i ++ if takes appenders i msg then [msg] else [] := by
  have key : ∀ k, (List.range k).foldl (fun received i =>
      if takes appenders i msg then Function.update received i (received i ++ [msg]) else received)
      received i = received i ++ if i < k ∧ takes appenders i msg then [msg] else [] := by
    intro k
    induction k with
    | zero => simp
    | succ k ih =>
      rw [List.range_succ, List.foldl_append, List.foldl_cons, List.foldl_nil]
      by_cases hi : i = k
      · subst hi
        have hsame := ih
        simp only [lt_self_iff_false, false_and, if_false, List.append_nil] at hsame
        split <;> simp_all
      · have hlt : i < k + 1 ↔ i < k := by omega
        simp only [hlt]
        rw [← ih]
        split
        · exact Function.update_of_ne hi _ _
        · rfl
  unfold syncAppenderDoLog
  rw [key]
  by_cases ht : takes appenders i msg
  · simp [ht, takes_lt ht]
  · simp [ht]

/-- A synchronous logger hands each appender the messages it takes, in the order logged. -/
lemma sync_received (msgs : List (LogMsg P)) (i : ℕ) :
    msgs.foldl (syncAppenderDoLog appenders) (fun _ => []) i =
      msgs.filter (takes appenders i) := by
  have key : ∀ received : ℕ → List (LogMsg P),
      msgs.foldl (syncAppenderDoLog appenders) received i =
        received i ++ msgs.filter (takes appenders i) := by
    induction msgs with
    | nil =>
      intro received
      simp
    | cons msg msgs ih =>
      intro received
      rw [List.foldl_cons, ih, syncAppenderDoLog_apply, List.append_assoc, List.filter_cons]
      split <;> simp
  rw [key]
  rfl

/-- A list sorted by places that holds the messages at the places of `msgs` that `p` takes. -/
lemma sorted_eq_filter {M : Type} {l : List (ℕ × M)} {msgs : List M} {p : M → Bool}
    (hsorted : l.Pairwise fun x y => x.1 < y.1)
    (hmem : ∀ i m, (i, m) ∈ l ↔ msgs[i]? = some m ∧ p m = true) :
    l.map Prod.snd = msgs.filter p := by
  induction msgs using List.reverseRecOn generalizing l with
  | nil =>
    have hnil : l = [] := by
      apply List.eq_nil_iff_forall_not_mem.mpr
      intro x hx
      have := (hmem x.1 x.2).mp hx
      simp at this
    simp [hnil]
  | append_singleton msgs m ih =>
    have hlast : ∀ {x}, x ∈ l → x.1 ≤ msgs.length := by
      intro x hx
      obtain ⟨hget, -⟩ := (hmem x.1 x.2).mp hx
      obtain ⟨hlt, -⟩ := List.getElem?_eq_some_iff.mp hget
      simp at hlt
      omega
    have hfront : ∀ {l' : List (ℕ × M)}, l'.Pairwise (fun x y => x.1 < y.1) →
        (∀ i m', (i, m') ∈ l' ↔ (i, m') ∈ l ∧ i < msgs.length) →
        l'.map Prod.snd = msgs.filter p := by
      intro l' hsorted' hmem'
      apply ih hsorted'
      intro i m'
      rw [hmem', hmem]
      by_cases hlt : i < msgs.length
      · simp [List.getElem?_append_left hlt, hlt]
      · simp [hlt]
    by_cases hp : p m = true
    · have hin : (msgs.length, m) ∈ l := (hmem _ _).mpr (by simp [hp])
      obtain ⟨pre, post, rfl⟩ := List.append_of_mem hin
      obtain ⟨hpre, hpost, hcross⟩ := List.pairwise_append.mp hsorted
      obtain ⟨hhead, -⟩ := List.pairwise_cons.mp hpost
      have hpost_nil : post = [] := by
        apply List.eq_nil_iff_forall_not_mem.mpr
        intro x hx
        have hlt := hhead x hx
        have hle := @hlast x (by simp [hx])
        simp only at hlt
        omega
      subst hpost_nil
      have hmap := hfront hpre (by
        intro i m'
        constructor
        · intro hi
          exact ⟨by simp [hi], hcross _ hi (msgs.length, m) (by simp)⟩
        · rintro ⟨hi, hlt⟩
          rcases List.mem_append.mp hi with hi | hi
          · exact hi
          · have heq := List.mem_singleton.mp hi
            obtain ⟨rfl, -⟩ := Prod.mk.inj heq
            omega)
      rw [List.map_append, hmap, List.filter_append]
      simp [hp]
    · rw [List.filter_append, List.filter_cons_of_neg hp, List.filter_nil, List.append_nil]
      apply hfront hsorted
      intro i m'
      constructor
      · intro hi
        refine ⟨hi, ?_⟩
        have hle := hlast hi
        by_contra hge
        have heq : i = msgs.length := by omega
        subst heq
        obtain ⟨hget, ht⟩ := (hmem _ _).mp hi
        have hm : m = m' := by simpa using hget
        rw [hm] at hp
        exact hp ht
      · exact fun hi => hi.1

/-- A pool of one worker overtakes nothing. -/
lemma inOrder_single (s : State 1 P) (w : Fin 1) : InOrder appenders s (.backend w) := by
  intro seq msg i hw _ w' seq' msg' next hw' _ _
  have hsame : w' = w := Subsingleton.elim w' w
  rw [hsame, hw] at hw'
  cases hw'
  exact le_refl seq

lemma inOrder_cancel (h : s.q.queue = []) : InOrder appenders s .cancel := by
  intro seq msg hmem
  rw [h] at hmem
  cases hmem

/-- When no message is cancelled that an appender would log, and no worker overtakes another at an
appender, each appender has received at the return of `Shutdown` what a synchronous logger would
have given it. -/
theorem asyncLogger_delivers (appenders : List Appender)
    (h : Reachable ((asyncRuns appenders n P).restrict (InOrder appenders)) s)
    (hreturned : s.phase = .returned) (i : ℕ) :
    (s.received i).map Prod.snd = s.logged.foldl (syncAppenderDoLog appenders) (fun _ => []) i := by
  have hinv : Inv appenders s := by
    apply h.invariant
    · intro a ha
      cases ha
      exact init_inv
    · intro a op b hi hs
      exact exec_inv hi hs.1 hs.2
  have hclosed : Closed s := by
    apply h.invariant
    · intro a ha
      cases ha
      constructor
      · intro hp
        simp at hp
      · intro hp
        cases hp
    · intro a op b hi hs
      exact exec_closed hi hs.2
  rw [sync_received]
  apply sorted_eq_filter (hinv.receivedSorted i)
  intro seq msg
  constructor
  · intro hr
    obtain ⟨hlogged, ht, -⟩ := hinv.received i seq msg hr
    exact ⟨hlogged, ht⟩
  · intro ⟨hlogged, ht⟩
    obtain hr | ⟨w, next, hw, -⟩ | hq := hinv.complete i seq msg hlogged ht
    · exact hr
    · rw [hclosed.returned hreturned w] at hw
      cases hw
    · rw [hclosed.cancelled (.inr hreturned)] at hq
      cases hq

/-- One worker hands the message on before `Shutdown` cancels the queue. -/
theorem asyncLogger_delivers_one_worker :
    ∃ s : State 1 Unit,
      Reachable ((asyncRuns [⟨.info⟩] 1 Unit).restrict (InOrder [⟨.info⟩])) s ∧ s.phase = .returned ∧
      s.logged = [⟨.warn, ()⟩] ∧ (s.received 0).map Prod.snd = [⟨.warn, ()⟩] := by
  have h0 : Reachable ((asyncRuns [⟨.info⟩] 1 Unit).restrict (InOrder [⟨.info⟩]))
      ({} : State 1 Unit) := .init rfl
  have h1 := @Reachable.step _ _ _ (Op.appenderDoLog ⟨.warn, ()⟩) _ _ h0 ⟨trivial, rfl⟩
  have h2 := @Reachable.step _ _ _ (Op.dequeueWait 0) _ _ h1 ⟨trivial, rfl⟩
  have h3 := @Reachable.step _ _ _ (Op.backend 0) _ _ h2 ⟨inOrder_single _ 0, rfl⟩
  have h4 := @Reachable.step _ _ _ (Op.backend 0) _ _ h3 ⟨inOrder_single _ 0, rfl⟩
  have h5 := @Reachable.step _ _ _ Op.flushAll _ _ h4 ⟨trivial, rfl⟩
  have h6 := @Reachable.step _ _ _ (Op.dequeueWait 0) _ _ h5 ⟨trivial, rfl⟩
  have h7 := @Reachable.step _ _ _ (Op.backend 0) _ _ h6 ⟨inOrder_single _ 0, rfl⟩
  have h8 := @Reachable.step _ _ _ Op.cancel _ _ h7 ⟨inOrder_cancel rfl, rfl⟩
  have h9 := @Reachable.step _ _ _ (Op.dequeueWait 0) _ _ h8 ⟨trivial, rfl⟩
  have h10 := @Reachable.step _ _ _ Op.join _ _ h9 ⟨trivial, rfl⟩
  have h := asyncLogger_delivers [⟨.info⟩] h10 rfl 0
  exact ⟨_, h10, rfl, rfl, h⟩

/-- The message is still in the queue when `Shutdown` cancels it, and no appender gets it. -/
theorem shutdown_loses_message :
    ∃ s : State 1 Unit, Reachable (asyncRuns [⟨.info⟩] 1 Unit) s ∧ s.phase = .returned ∧
      s.logged = [⟨.warn, ()⟩] ∧ s.received 0 = [] ∧
      (s.received 0).map Prod.snd ≠
        s.logged.foldl (syncAppenderDoLog [⟨.info⟩]) (fun _ => []) 0 := by
  have h0 : Reachable (asyncRuns [⟨.info⟩] 1 Unit) ({} : State 1 Unit) := .init rfl
  have h1 := @Reachable.step _ _ _ (Op.appenderDoLog ⟨.warn, ()⟩) _ _ h0 rfl
  have h2 := @Reachable.step _ _ _ Op.flushAll _ _ h1 rfl
  have h3 := @Reachable.step _ _ _ Op.cancel _ _ h2 rfl
  have h4 := @Reachable.step _ _ _ (Op.dequeueWait 0) _ _ h3 rfl
  have h5 := @Reachable.step _ _ _ Op.join _ _ h4 rfl
  refine ⟨_, h5, rfl, rfl, rfl, ?_⟩
  rw [sync_received]
  exact (List.cons_ne_nil (⟨.warn, ()⟩ : LogMsg Unit) []).symm

end TyphoonZero.AsyncLogger
