import TyphoonZero.IoPool

/-! What holds of the io pool in every run, and that its calls return. -/
namespace TyphoonZero.IoPool
open Transition

namespace Pool
variable {p q : Pool} {t : Thread} {op : Op}

lemma Inv.init (ios : ℕ) : Inv { ios := ios } where
  call := ⟨.outside 0, fun _ _ => rfl, rfl, fun h => by simp at h, Nat.zero_le _⟩
  contexts i := ⟨fun h => by simp at h, fun h => by simp at h, fun h => absurd h (Nat.not_lt_zero i)⟩

lemma step_spawn {created : Bool} (hs : IoPool.step p (.spawn t created) = some q) :
    ∃ i, p.calls t = .spawning i ∧ i < p.ios ∧ q = p.spawn t created i := by
  simp only [IoPool.step] at hs
  split at hs
  · rename_i i hcall
    obtain ⟨hi, rfl⟩ := by simpa using hs
    exact ⟨i, hcall, hi, rfl⟩
  · cases hs

lemma step_wait (hs : IoPool.step p (.wait t) = some q) :
    ∃ i, p.calls t = .waiting i ∧ (p.contexts i).stopped = true ∧ q = p.waited t i := by
  simp only [IoPool.step] at hs
  split at hs
  · rename_i i hcall
    obtain ⟨hstopped, rfl⟩ := by simpa using hs
    exact ⟨i, hcall, hstopped, rfl⟩
  · cases hs

lemma step_join (hs : IoPool.step p (.join t) = some q) :
    ∃ i, p.calls t = .joining i ∧ (i < p.threads ∧ (p.contexts i).running = false) ∧
      q = p.goTo t (.joining (i + 1)) := by
  simp only [IoPool.step] at hs
  split at hs
  · rename_i i hcall
    obtain ⟨hready, rfl⟩ := by simpa using hs
    exact ⟨i, hcall, hready, rfl⟩
  · cases hs

theorem Inv.step (h : p.Inv) (hasks : p.AsksOk) (hs : step p op = some q) : q.Inv := by
  cases op with
  | start t =>
    obtain ⟨-, rfl⟩ := by simpa [IoPool.step] using hs
    exact h.asks _
  | stop t =>
    obtain ⟨-, rfl⟩ := by simpa [IoPool.step] using hs
    exact h.asks _
  | enter t a =>
    obtain ⟨⟨hm, hmem⟩, rfl⟩ := by simpa [IoPool.step] using hs
    obtain ⟨hidle, hcan⟩ := hasks (t, a) hmem
    cases a with
    | start => exact (h.asks (p.asks.erase (t, .start))).start ⟨hm, hidle, hcan⟩
    | stop => exact (h.asks (p.asks.erase (t, .stop))).stop ⟨hm, hidle, hcan⟩
  | post i =>
    obtain ⟨-, rfl⟩ := by simpa [IoPool.step] using hs
    exact h.modify id rfl id (h.contexts i).handling fun _ _ => id
  | spawn t created =>
    obtain ⟨i, hcall, hi, rfl⟩ := step_spawn hs
    exact h.spawn hcall hi created
  | started t =>
    obtain ⟨hcall, rfl⟩ := by simpa [IoPool.step] using hs
    exact h.started hcall
  | resetFirst t =>
    obtain ⟨⟨hm, hcall⟩, rfl⟩ := by simpa [IoPool.step] using hs
    exact h.resetFirst hm hcall
  | wait t =>
    obtain ⟨i, hcall, hstopped, rfl⟩ := step_wait hs
    exact h.waited hcall hstopped
  | resetRest t =>
    obtain ⟨⟨hm, hcall⟩, rfl⟩ := by simpa [IoPool.step] using hs
    exact h.resetRest hm hcall
  | lock t =>
    obtain ⟨⟨-, hcall⟩, rfl⟩ := by simpa [IoPool.step] using hs
    exact h.lock hcall
  | join t =>
    obtain ⟨i, hcall, ⟨hi, hrun⟩, rfl⟩ := step_join hs
    exact h.join hcall hi hrun
  | clear t =>
    obtain ⟨hcall, rfl⟩ := by simpa [IoPool.step] using hs
    exact h.clear hcall
  | take i =>
    obtain ⟨⟨hrun, -, hstopped, -⟩, rfl⟩ := by simpa [IoPool.step] using hs
    exact h.modify id rfl id (fun _ => ⟨hrun, hstopped⟩) fun _ _ => id
  | finish i =>
    obtain ⟨-, rfl⟩ := by simpa [IoPool.step] using hs
    exact h.modify id rfl id (fun hh => by simp at hh) fun _ _ => id
  | drain i =>
    obtain ⟨⟨-, hidle, -⟩, rfl⟩ := by simpa [IoPool.step] using hs
    exact h.modify (fun _ => rfl) rfl id (fun hh => by simp [hidle] at hh) fun hs' => by simp at hs'
  | leave i =>
    obtain ⟨⟨-, hidle, hstopped⟩, rfl⟩ := by simpa [IoPool.step] using hs
    refine h.modify id rfl (fun hr => by simp at hr) (fun hh => by simp [hidle] at hh) fun hs' => ?_
    simp [hstopped] at hs'

lemma CallOk.threads_le {c : Call} (h : p.CallOk t c) : p.threads ≤ p.ios := by
  cases c with
  | idle => exact h.2.2
  | spawning i => exact h.2.2.2.1.trans_le h.2.2.2.2.1
  | resetFirst => exact h.2.threads.le
  | waiting i => exact h.2.1.threads.le
  | resetRest => exact h.2.1.threads.le
  | locking => exact h.2.1.threads.le
  | joining i => exact h.2.1.threads.le

lemma Inv.threads_le (h : p.Inv) : p.threads ≤ p.ios := by
  obtain ⟨t, -, hok⟩ := h.call
  exact hok.threads_le

/-- Who waits for a lock that is free gets it. -/
lemma asks_goes (hm : p.mutex = none) (hasks : p.Asks t) : ∃ op : Op, op.Internal ∧ (IoPool.step p op).isSome := by
  obtain ⟨⟨u, a⟩, hmem, rfl⟩ := List.mem_map.mp hasks
  exact ⟨.enter u a, trivial, by simp [IoPool.step, hm, hmem]⟩

/-- A context that has a thread and has not stopped goes on, unless its guard keeps it. -/
lemma Inv.context_goes (h : p.Inv) {i : ℕ} (hm : p.mutex = none) (hi : i < p.threads)
    (hstopped : (p.contexts i).stopped = false) (hguard : (p.contexts i).guard = false)
    (hcall : p.calls (.io i) = .idle) : ∃ op : Op, op.Internal ∧ (IoPool.step p op).isSome := by
  have hrun := (h.contexts i).runs hi hstopped
  cases hhandling : (p.contexts i).handling with
  | true =>
    -- a handler that waits for the lock does not end before it has got it
    by_cases hasks : p.Asks (.io i)
    · exact asks_goes hm hasks
    · exact ⟨.finish i, trivial, by simp [IoPool.step, hhandling, hcall, hasks]⟩
  | false =>
    cases hwork : (p.contexts i).work with
    | zero => exact ⟨.drain i, trivial, by simp [IoPool.step, hrun, hhandling, hstopped, hwork, hguard]⟩
    | succ n => exact ⟨.take i, trivial, by simp [IoPool.step, hrun, hhandling, hstopped, hwork]⟩

/-- A call never waits for a thread that waits for its lock. -/
lemma Inv.goes (h : p.Inv) (ht : p.calls t ≠ .idle) :
    ∃ op : Op, op.Internal ∧ (IoPool.step p op).isSome := by
  obtain ⟨hothers, hok⟩ := h.active ht
  cases hcall : p.calls t with
  | idle => exact absurd hcall ht
  | spawning i =>
    rw [hcall] at hok
    obtain ⟨-, -, -, -, hi, -⟩ := hok
    rcases hi.lt_or_eq with hlt | rfl
    · exact ⟨.spawn t true, trivial, by simp [IoPool.step, hcall, hlt]⟩
    · exact ⟨.started t, trivial, by simp [IoPool.step, hcall]⟩
  | resetFirst =>
    rw [hcall] at hok
    exact ⟨.resetFirst t, trivial, by simp [IoPool.step, hcall, hok.1]⟩
  | waiting i =>
    rw [hcall] at hok
    obtain ⟨hm, hclosing, hi, -, hreset⟩ := hok
    cases hstopped : (p.contexts i).stopped with
    | true => exact ⟨.wait t, trivial, by simp [IoPool.step, hcall, hstopped]⟩
    | false =>
      exact h.context_goes hm (hclosing.threads ▸ hi) hstopped (hreset i hi (Nat.eq_zero_or_pos i))
        (hothers _ (hclosing.outside i).symm)
  | resetRest =>
    rw [hcall] at hok
    exact ⟨.resetRest t, trivial, by simp [IoPool.step, hcall, hok.1]⟩
  | locking =>
    rw [hcall] at hok
    exact ⟨.lock t, trivial, by simp [IoPool.step, hcall, hok.1]⟩
  | joining i =>
    rw [hcall] at hok
    obtain ⟨-, hclosing, hpast, hi, -⟩ := hok
    rcases hi.lt_or_eq with hlt | rfl
    · have hthread : i < p.threads := hclosing.threads ▸ hlt
      cases hrun : (p.contexts i).running with
      | false => exact ⟨.join t, trivial, by simp [IoPool.step, hcall, hthread, hrun]⟩
      | true =>
        have hhandling : (p.contexts i).handling = false := by
          by_contra hhandling
          have hstopped := ((h.contexts i).handling (by simpa using hhandling)).2
          simp [hpast i hlt] at hstopped
        exact ⟨.leave i, trivial, by simp [IoPool.step, hrun, hhandling, hpast i hlt]⟩
    · exact ⟨.clear t, trivial, by simp [IoPool.step, hcall, hclosing.threads]⟩

end Pool

/-- How many steps a context can make without new work. -/
def Context.weight (c : Context) : ℕ :=
  2 * c.work + c.handling.toNat + c.running.toNat + (!c.stopped).toNat

/-- How many steps a call has left; a thread that is spawned brings the steps of its context. -/
def Call.weight (ios : ℕ) : Call → ℕ
  | .idle => 0
  | .spawning i => 3 * (ios - i) + 1
  | .resetFirst => 2 * ios + 6
  | .waiting 0 => 2 * ios + 5
  | .resetRest => 2 * ios + 4
  | .waiting (i + 1) => 2 * ios + 2 - i
  | .locking => ios + 2
  | .joining i => ios - i + 1

namespace Pool
variable {p q : Pool} {t : Thread} {op : Op}

def weight (p : Pool) (t : Thread) : ℕ :=
  (p.calls t).weight p.ios + ∑ i ∈ Finset.range p.ios, (p.contexts i).weight

/-- The other contexts keep their weights. -/
lemma sum_modify {i : ℕ} (hi : i < p.ios) (f : Context → Context) :
    (∑ j ∈ Finset.range p.ios, ((p.modify i f).contexts j).weight) + (p.contexts i).weight =
      (∑ j ∈ Finset.range p.ios, (p.contexts j).weight) + (f (p.contexts i)).weight := by
  have hmem : i ∈ Finset.range p.ios := Finset.mem_range.mpr hi
  have hrest : ∑ j ∈ (Finset.range p.ios).erase i, ((p.modify i f).contexts j).weight =
      ∑ j ∈ (Finset.range p.ios).erase i, (p.contexts j).weight := by
    refine Finset.sum_congr rfl fun j hj => ?_
    simp [modify, Finset.ne_of_mem_erase hj]
  have hnew := Finset.add_sum_erase (Finset.range p.ios) (fun j => ((p.modify i f).contexts j).weight) hmem
  have hold := Finset.add_sum_erase (Finset.range p.ios) (fun j => (p.contexts j).weight) hmem
  have hself : (p.modify i f).contexts i = f (p.contexts i) := by simp [modify]
  simp only [hself] at hnew
  omega

lemma weight_modify {i : ℕ} (hi : i < p.ios) {f : Context → Context}
    (hf : (f (p.contexts i)).weight < (p.contexts i).weight) : (p.modify i f).weight t < p.weight t := by
  have hsum := sum_modify hi f
  have hcalls : ((p.modify i f).calls t).weight (p.modify i f).ios = (p.calls t).weight p.ios := rfl
  have hios : (p.modify i f).ios = p.ios := rfl
  unfold weight
  rw [hcalls, hios]
  omega

/-- A step of the call alone. -/
lemma weight_call {c : Call} (hcalls : q.calls = Function.update p.calls t c) (hios : q.ios = p.ios)
    (hctx : ∀ i, (q.contexts i).weight = (p.contexts i).weight)
    (hc : c.weight p.ios < (p.calls t).weight p.ios) : q.weight t < p.weight t := by
  unfold weight
  rw [hcalls, hios, Function.update_self]
  simp only [hctx]
  omega

lemma weight_waitFor {i : ℕ} (hi : 0 < i) (hle : i ≤ p.ios) : (p.waitFor i).weight p.ios ≤ 2 * p.ios + 3 - i := by
  obtain ⟨n, rfl⟩ := Nat.exists_eq_succ_of_ne_zero hi.ne'
  unfold waitFor
  split
  · simp only [Call.weight]
    omega
  · simp only [Call.weight]
    omega

lemma weight_spawn {i : ℕ} (hi : i < p.ios) (hcall : p.calls t = .spawning i) (created : Bool) :
    (p.spawn t created i).weight t < p.weight t := by
  have hcalls : ((p.spawn t created i).calls t).weight p.ios + 3 ≤ (p.calls t).weight p.ios := by
    cases created <;> simp [Pool.spawn, goTo, hcall, Call.weight] <;> omega
  -- The restart takes back that the context has stopped, and the thread is new.
  have hctx : ∀ f : Context → Context, (f (p.contexts i)).weight ≤ (p.contexts i).weight + 2 →
      (∑ j ∈ Finset.range p.ios, ((p.modify i f).contexts j).weight) ≤
        (∑ j ∈ Finset.range p.ios, (p.contexts j).weight) + 2 := by
    intro f hf
    have hsum := sum_modify hi f
    omega
  have hbool : ∀ b : Bool, b.toNat ≤ 1 := Bool.toNat_le
  have hw : (∑ j ∈ Finset.range p.ios, ((p.spawn t created i).contexts j).weight) ≤
      (∑ j ∈ Finset.range p.ios, (p.contexts j).weight) + 2 := by
    cases created with
    | false =>
      refine hctx (fun c => { c with stopped := false, guard := true }) ?_
      simp [Context.weight]
      omega
    | true =>
      have hsame : (p.spawn t true i).contexts =
          (p.modify i fun c => { c with stopped := false, guard := true, running := true }).contexts := by
        simp [Pool.spawn, Pool.modify, goTo]
      rw [hsame]
      refine hctx _ ?_
      simp [Context.weight]
      omega
  have hios : (p.spawn t created i).ios = p.ios := by cases created <;> rfl
  unfold weight
  rw [hios]
  omega

lemma resetFrom_weight (first i : ℕ) :
    ((p.resetFrom first).contexts i).weight = (p.contexts i).weight := by
  simp only [resetFrom]
  split <;> rfl

/-- Without new calls and new work every step brings the end nearer. -/
lemma Inv.weight_step (h : p.Inv) (hothers : ∀ u, u ≠ t → p.calls u = .idle) (hop : op.Advances)
    (hs : IoPool.step p op = some q) : q.weight t < p.weight t := by
  have hcaller : ∀ u, p.calls u ≠ .idle → u = t := by
    intro u hu
    by_contra hne
    exact hu (hothers u hne)
  have hbelow : ∀ i, (p.contexts i).running = true → i < p.ios :=
    fun i hr => ((h.contexts i).running hr).trans_le h.threads_le
  cases op with
  | start u => exact hop.elim
  | stop u => exact hop.elim
  | enter u a => exact hop.elim
  | post i => exact hop.elim
  | spawn u created =>
    obtain ⟨i, hcall, hi, rfl⟩ := step_spawn hs
    obtain rfl := hcaller u (by simp [hcall])
    exact weight_spawn hi hcall created
  | started u =>
    obtain ⟨hcall, rfl⟩ := by simpa [IoPool.step] using hs
    obtain rfl := hcaller u (by simp [hcall])
    exact weight_call rfl rfl (fun _ => rfl) (by simp [hcall, Call.weight])
  | resetFirst u =>
    obtain ⟨⟨-, hcall⟩, rfl⟩ := by simpa [IoPool.step] using hs
    obtain rfl := hcaller u (by simp [hcall])
    have hnext : (p.waitFor 0).weight p.ios ≤ 2 * p.ios + 5 := by
      unfold waitFor
      split <;> simp only [Call.weight] <;> omega
    have hold : (p.calls u).weight p.ios = 2 * p.ios + 6 := by rw [hcall]; rfl
    by_cases hin : p.isRunningInIoPoolThreads u = true
    · have hstep : p.resetFirst u = p.goTo u .locking := by simp [Pool.resetFirst, hin]
      rw [hstep]
      exact weight_call rfl rfl (fun _ => rfl) (by rw [hold]; simp only [Call.weight]; omega)
    · by_cases hworkers : p.workers = 0
      · have hstep : p.resetFirst u = p.goTo u (p.waitFor 0) := by
          simp [Pool.resetFirst, hin, hworkers]
        rw [hstep]
        exact weight_call rfl rfl (fun _ => rfl) (by omega)
      · have hstep : p.resetFirst u =
            (p.modify 0 fun c => { c with guard := false }).goTo u (p.waitFor 0) := by
          simp [Pool.resetFirst, hin, hworkers]
        rw [hstep]
        refine weight_call rfl rfl (fun i => ?_) (by omega)
        by_cases hi : i = 0
        · subst hi
          simp [goTo, Pool.modify, Context.weight]
        · simp [goTo, Pool.modify, hi]
  | wait u =>
    obtain ⟨i, hcall, hstopped, rfl⟩ := step_wait hs
    obtain rfl := hcaller u (by simp [hcall])
    have hok := (h.active (u := u) (by simp [hcall])).2
    rw [hcall] at hok
    have hi : i < p.ios := hok.2.2.1
    refine weight_call rfl rfl (fun _ => rfl) ?_
    cases i with
    | zero => simp [hcall, Call.weight]
    | succ n =>
      have hnext := weight_waitFor (p := p) (i := n + 1 + 1) (Nat.succ_pos _) hi
      have hold : (p.calls u).weight p.ios = 2 * p.ios + 2 - n := by rw [hcall]; rfl
      simp only [hold, Nat.add_one_ne_zero, ↓reduceIte]
      omega
  | resetRest u =>
    obtain ⟨⟨-, hcall⟩, rfl⟩ := by simpa [IoPool.step] using hs
    obtain rfl := hcaller u (by simp [hcall])
    have hok := (h.active (u := u) (by simp [hcall])).2
    rw [hcall] at hok
    have hnext := weight_waitFor (p := p) Nat.one_pos hok.2.1.pos
    refine weight_call rfl rfl (fun i => resetFrom_weight 1 i) ?_
    have hold : (p.calls u).weight p.ios = 2 * p.ios + 4 := by rw [hcall]; rfl
    omega
  | lock u =>
    obtain ⟨⟨-, hcall⟩, rfl⟩ := by simpa [IoPool.step] using hs
    obtain rfl := hcaller u (by simp [hcall])
    exact weight_call rfl rfl (fun i => resetFrom_weight 0 i) (by simp [hcall, Call.weight])
  | join u =>
    obtain ⟨i, hcall, ⟨hi, -⟩, rfl⟩ := step_join hs
    obtain rfl := hcaller u (by simp [hcall])
    have hle := h.threads_le
    refine weight_call rfl rfl (fun _ => rfl) ?_
    simp only [hcall, Call.weight]
    omega
  | clear u =>
    obtain ⟨hcall, rfl⟩ := by simpa [IoPool.step] using hs
    obtain rfl := hcaller u (by simp [hcall])
    exact weight_call rfl rfl (fun _ => rfl) (by simp [hcall, Call.weight])
  | take i =>
    obtain ⟨⟨hrun, hidle, -, hwork⟩, rfl⟩ := by simpa [IoPool.step] using hs
    refine weight_modify (hbelow i hrun) ?_
    simp only [Context.weight, hidle, Bool.toNat_true, Bool.toNat_false]
    omega
  | finish i =>
    obtain ⟨⟨hhandling, -⟩, rfl⟩ := by simpa [IoPool.step] using hs
    refine weight_modify (hbelow i ((h.contexts i).handling hhandling).1) ?_
    simp only [Context.weight, hhandling, Bool.toNat_true, Bool.toNat_false]
    omega
  | drain i =>
    obtain ⟨⟨hrun, -, hstopped, -⟩, rfl⟩ := by simpa [IoPool.step] using hs
    refine weight_modify (hbelow i hrun) ?_
    simp only [Context.weight, hstopped, Bool.not_true, Bool.not_false, Bool.toNat_true, Bool.toNat_false]
    omega
  | leave i =>
    obtain ⟨⟨hrun, -⟩, rfl⟩ := by simpa [IoPool.step] using hs
    refine weight_modify (hbelow i hrun) ?_
    simp only [Context.weight, hrun, Bool.toNat_true, Bool.toNat_false]
    omega

/-- A thread enters a call by `Start` or `Stop` only. -/
lemma calls_step (hop : op.Advances) (hs : IoPool.step p op = some q) :
    q.calls = p.calls ∨ ∃ u c, p.calls u ≠ .idle ∧ q.calls = Function.update p.calls u c := by
  cases op with
  | start u => exact hop.elim
  | stop u => exact hop.elim
  | enter u a => exact hop.elim
  | post i => exact hop.elim
  | spawn u created =>
    obtain ⟨i, hcall, -, rfl⟩ := step_spawn hs
    exact Or.inr ⟨u, if created then .spawning (i + 1) else .idle, by simp [hcall],
      by cases created <;> rfl⟩
  | started u =>
    obtain ⟨hcall, rfl⟩ := by simpa [IoPool.step] using hs
    exact Or.inr ⟨u, _, by simp [hcall], rfl⟩
  | resetFirst u =>
    obtain ⟨⟨-, hcall⟩, rfl⟩ := by simpa [IoPool.step] using hs
    refine Or.inr ⟨u, if p.isRunningInIoPoolThreads u then .locking else p.waitFor 0, by simp [hcall], ?_⟩
    unfold Pool.resetFirst
    split
    · rfl
    · split <;> rfl
  | wait u =>
    obtain ⟨i, hcall, -, rfl⟩ := step_wait hs
    exact Or.inr ⟨u, _, by simp [hcall], rfl⟩
  | resetRest u =>
    obtain ⟨⟨-, hcall⟩, rfl⟩ := by simpa [IoPool.step] using hs
    exact Or.inr ⟨u, _, by simp [hcall], rfl⟩
  | lock u =>
    obtain ⟨⟨-, hcall⟩, rfl⟩ := by simpa [IoPool.step] using hs
    exact Or.inr ⟨u, _, by simp [hcall], rfl⟩
  | join u =>
    obtain ⟨i, hcall, -, rfl⟩ := step_join hs
    exact Or.inr ⟨u, _, by simp [hcall], rfl⟩
  | clear u =>
    obtain ⟨hcall, rfl⟩ := by simpa [IoPool.step] using hs
    exact Or.inr ⟨u, _, by simp [hcall], rfl⟩
  | take i =>
    obtain ⟨-, rfl⟩ := by simpa [IoPool.step] using hs
    exact Or.inl rfl
  | finish i =>
    obtain ⟨-, rfl⟩ := by simpa [IoPool.step] using hs
    exact Or.inl rfl
  | drain i =>
    obtain ⟨-, rfl⟩ := by simpa [IoPool.step] using hs
    exact Or.inl rfl
  | leave i =>
    obtain ⟨-, rfl⟩ := by simpa [IoPool.step] using hs
    exact Or.inl rfl

/-- Nobody comes to wait, and only the end of a handler ends it. -/
lemma asks_step (hop : op.Advances) (hs : IoPool.step p op = some q) :
    q.asks = p.asks ∧ q.ios = p.ios ∧ ∀ i, (p.contexts i).handling = true → op ≠ .finish i →
      (q.contexts i).handling = true := by
  have hmodify : ∀ {i : ℕ} {f : Context → Context},
      ((p.contexts i).handling = true → (f (p.contexts i)).handling = true) →
        ∀ j, (p.contexts j).handling = true → ((p.modify i f).contexts j).handling = true := by
    intro i f hf j hj
    by_cases hji : j = i
    · subst hji
      simpa [Pool.modify] using hf hj
    · simpa [Pool.modify, hji] using hj
  have hreset : ∀ first j, (p.contexts j).handling = true → ((p.resetFrom first).contexts j).handling = true := by
    intro first j hj
    simp only [Pool.resetFrom]
    split <;> exact hj
  cases op with
  | start u => exact hop.elim
  | stop u => exact hop.elim
  | enter u a => exact hop.elim
  | post i => exact hop.elim
  | spawn u created =>
    obtain ⟨i, hcall, -, rfl⟩ := step_spawn hs
    refine ⟨by cases created <;> rfl, by cases created <;> rfl, fun j hj _ => ?_⟩
    by_cases hji : j = i
    · subst hji
      cases created <;> simpa [Pool.spawn, Pool.modify, goTo] using hj
    · cases created <;> simpa [Pool.spawn, Pool.modify, goTo, hji] using hj
  | started u =>
    obtain ⟨-, rfl⟩ := by simpa [IoPool.step] using hs
    exact ⟨rfl, rfl, fun _ hj _ => hj⟩
  | resetFirst u =>
    obtain ⟨-, rfl⟩ := by simpa [IoPool.step] using hs
    unfold Pool.resetFirst
    split
    · exact ⟨rfl, rfl, fun _ hj _ => hj⟩
    · split
      · refine ⟨rfl, rfl, fun j hj _ => ?_⟩
        have hguard := hmodify (i := 0) (f := fun c => { c with guard := false }) id j hj
        simpa [goTo] using hguard
      · exact ⟨rfl, rfl, fun _ hj _ => hj⟩
  | wait u =>
    obtain ⟨-, -, -, rfl⟩ := step_wait hs
    exact ⟨rfl, rfl, fun _ hj _ => hj⟩
  | resetRest u =>
    obtain ⟨-, rfl⟩ := by simpa [IoPool.step] using hs
    exact ⟨rfl, rfl, fun j hj _ => hreset 1 j hj⟩
  | lock u =>
    obtain ⟨-, rfl⟩ := by simpa [IoPool.step] using hs
    exact ⟨rfl, rfl, fun j hj _ => hreset 0 j hj⟩
  | join u =>
    obtain ⟨-, -, -, rfl⟩ := step_join hs
    exact ⟨rfl, rfl, fun _ hj _ => hj⟩
  | clear u =>
    obtain ⟨-, rfl⟩ := by simpa [IoPool.step] using hs
    exact ⟨rfl, rfl, fun _ hj _ => hj⟩
  | take i =>
    obtain ⟨-, rfl⟩ := by simpa [IoPool.step] using hs
    exact ⟨rfl, rfl, fun j hj _ => hmodify (fun _ => rfl) j hj⟩
  | finish i =>
    obtain ⟨-, rfl⟩ := by simpa [IoPool.step] using hs
    refine ⟨rfl, rfl, fun j hj hne => ?_⟩
    have hji : j ≠ i := fun he => hne (he ▸ rfl)
    simpa [Pool.modify, hji] using hj
  | drain i =>
    obtain ⟨-, rfl⟩ := by simpa [IoPool.step] using hs
    exact ⟨rfl, rfl, fun j hj _ => hmodify id j hj⟩
  | leave i =>
    obtain ⟨-, rfl⟩ := by simpa [IoPool.step] using hs
    exact ⟨rfl, rfl, fun j hj _ => hmodify id j hj⟩

lemma start_calls (p : Pool) (u : Thread) : ((p.start u).asks = p.asks ∧ (p.start u).contexts = p.contexts ∧
    (p.start u).ios = p.ios) ∧ ((p.start u).calls = p.calls ∨
      (p.threads = 0 ∧ (p.start u).calls = Function.update p.calls u (.spawning 0))) := by
  unfold Pool.start
  split
  · exact ⟨⟨rfl, rfl, rfl⟩, .inl rfl⟩
  · rename_i hfree
    simp only [not_or, not_not] at hfree
    exact ⟨⟨rfl, rfl, rfl⟩, .inr ⟨hfree.2.2, rfl⟩⟩

lemma stop_calls (p : Pool) (u : Thread) : ((p.stop u).asks = p.asks ∧ (p.stop u).contexts = p.contexts ∧
    (p.stop u).ios = p.ios) ∧ ((p.stop u).calls = p.calls ∨
      (p.stopped = false ∧ (p.stop u).calls = Function.update p.calls u .resetFirst)) := by
  unfold Pool.stop
  split
  · exact ⟨⟨rfl, rfl, rfl⟩, .inl rfl⟩
  · rename_i hup
    split
    · exact ⟨⟨rfl, rfl, rfl⟩, .inl rfl⟩
    · split
      · exact ⟨⟨rfl, rfl, rfl⟩, .inl rfl⟩
      · exact ⟨⟨rfl, rfl, rfl⟩, .inr ⟨by simpa using hup, rfl⟩⟩

/-- Whoever gets the lock returns at once, or is alone in a call. -/
lemma Inv.enter_calls (h : p.Inv) {u : Thread} {a : Ask} (hm : p.mutex = none) :
    ((p.enter u a).asks = p.asks.erase (u, a) ∧ (p.enter u a).contexts = p.contexts ∧ (p.enter u a).ios = p.ios) ∧
      ((p.enter u a).calls = p.calls ∨ ((∀ v, p.calls v = .idle) ∧
        ∃ c, (p.enter u a).calls = Function.update p.calls u c ∧ c.weight p.ios < 5 * p.ios + 8)) := by
  cases a with
  | start =>
    obtain ⟨hkeep, hcalls⟩ := start_calls { p with asks := p.asks.erase (u, .start) } u
    refine ⟨hkeep, hcalls.imp id fun hnew => ⟨h.allIdle hm (.inr hnew.1), _, hnew.2, ?_⟩⟩
    simp only [Call.weight]
    omega
  | stop =>
    obtain ⟨hkeep, hcalls⟩ := stop_calls { p with asks := p.asks.erase (u, .stop) } u
    refine ⟨hkeep, hcalls.imp id fun hnew => ⟨h.allIdle hm (.inl hnew.1), _, hnew.2, ?_⟩⟩
    simp only [Call.weight]
    omega

lemma others_idle (hothers : ∀ u, u ≠ t → p.calls u = .idle) (hop : op.Advances)
    (hs : IoPool.step p op = some q) : ∀ u, u ≠ t → q.calls u = .idle := by
  intro u hu
  rcases calls_step hop hs with hsame | ⟨v, c, hv, hcalls⟩
  · rw [hsame]
    exact hothers u hu
  · have hne : u ≠ v := fun huv => hv (huv ▸ hothers u hu)
    rw [hcalls, Function.update_of_ne hne]
    exact hothers u hu

/-- Steps inside calls and contexts leave those that wait where they are. -/
lemma AsksOk.advance (h : p.AsksOk) (hop : op.Advances) (hs : IoPool.step p op = some q) : q.AsksOk := by
  obtain ⟨hasks, -, hhandling⟩ := asks_step hop hs
  intro e he
  rw [hasks] at he
  obtain ⟨hidle, hcan⟩ := h e he
  refine ⟨?_, ?_⟩
  · rcases calls_step hop hs with hsame | ⟨v, c, hv, hcalls⟩
    · rw [hsame]
      exact hidle
    · have hne : e.1 ≠ v := fun hev => hv (hev ▸ hidle)
      rw [hcalls, Function.update_of_ne hne]
      exact hidle
  · cases hthread : e.1 with
    | outside k => rfl
    | io i =>
      rw [hthread] at hcan
      refine hhandling i hcan fun hfinish => ?_
      subst hfinish
      obtain ⟨⟨-, -, hnot⟩, -⟩ := by simpa [IoPool.step] using hs
      exact hnot (hthread ▸ List.mem_map_of_mem he)

/-- An ask comes once, from a thread in no call. -/
structure Asking (p : Pool) : Prop where
  ok : p.AsksOk
  once : (p.asks.map Prod.fst).Nodup

lemma Asking.ask (h : p.Asking) (hfree : p.Free t) (a : Ask) : (p.ask t a).Asking := by
  obtain ⟨hidle, hnot, hcan⟩ := hfree
  refine ⟨fun e he => ?_, ?_⟩
  · rcases List.mem_append.mp he with he | he
    · exact h.ok e he
    · rw [List.mem_singleton.mp he]
      exact ⟨hidle, hcan⟩
  · unfold Pool.ask
    rw [List.map_append]
    refine List.nodup_append.mpr ⟨h.once, List.nodup_singleton _, fun u hu v hv huv => hnot ?_⟩
    rw [huv, List.mem_singleton.mp hv] at hu
    exact hu

/-- Only who has got the lock does not wait any more. -/
lemma Asking.enter (h : p.Asking) (hinv : p.Inv) (hm : p.mutex = none) {a : Ask} (hmem : (t, a) ∈ p.asks) :
    (p.enter t a).Asking := by
  obtain ⟨⟨hasks, hcontexts, -⟩, hcalls⟩ := hinv.enter_calls (u := t) (a := a) hm
  refine ⟨fun e he => ?_, ?_⟩
  · rw [hasks] at he
    obtain ⟨hidle, hcan⟩ := h.ok e (List.mem_of_mem_erase he)
    have hne : e.1 ≠ t := by
      intro het
      have hnodup := ((List.perm_cons_erase hmem).map Prod.fst).nodup_iff.mp h.once
      have hmem' : t ∈ (p.asks.erase (t, a)).map Prod.fst := List.mem_map.mpr ⟨e, he, het⟩
      exact (List.nodup_cons.mp hnodup).1 hmem'
    refine ⟨?_, ?_⟩
    · rcases hcalls with hsame | ⟨-, c, hnew, -⟩
      · rw [hsame]
        exact hidle
      · rw [hnew, Function.update_of_ne hne]
        exact hidle
    · unfold Pool.canCall at hcan ⊢
      rw [hcontexts]
      exact hcan
  · rw [hasks]
    exact h.once.sublist (List.erase_sublist.map Prod.fst)

lemma Asking.step (h : p.Asking) (hinv : p.Inv) (hs : IoPool.step p op = some q) : q.Asking := by
  by_cases hop : op.Advances
  · exact ⟨h.ok.advance hop hs, (asks_step hop hs).1 ▸ h.once⟩
  · cases op with
    | start t =>
      obtain ⟨hfree, rfl⟩ := by simpa [IoPool.step] using hs
      exact h.ask hfree .start
    | stop t =>
      obtain ⟨hfree, rfl⟩ := by simpa [IoPool.step] using hs
      exact h.ask hfree .stop
    | enter t a =>
      obtain ⟨⟨hm, hmem⟩, rfl⟩ := by simpa [IoPool.step] using hs
      exact h.enter hinv hm hmem
    | post i =>
      obtain ⟨-, rfl⟩ := by simpa [IoPool.step] using hs
      refine ⟨fun e he => ?_, h.once⟩
      obtain ⟨hidle, hcan⟩ := h.ok e he
      refine ⟨hidle, ?_⟩
      unfold Pool.canCall at hcan ⊢
      split at hcan
      · rfl
      · rename_i j hj
        by_cases hji : j = i
        · subst hji
          simpa [Pool.modify] using hcan
        · simpa [Pool.modify, hji] using hcan
    | _ => exact absurd trivial hop

theorem of_reachable {ios : ℕ} (h : Reachable (poolRuns ios) p) : p.Inv ∧ p.Asking := by
  refine h.invariant (I := fun p => p.Inv ∧ p.Asking) ?_ ?_
  · rintro _ rfl
    exact ⟨Inv.init ios, fun e he => absurd he List.not_mem_nil, List.nodup_nil⟩
  · rintro p op q ⟨hinv, hasking⟩ hs
    exact ⟨hinv.step hasking.ok hs, hasking.step hinv hs⟩

/-- What those that wait may bring. -/
def potential (p : Pool) (t : Thread) : ℕ := p.asks.length * (5 * p.ios + 8) + p.weight t

/-- Without new calls and new work every step brings the end nearer, also one that gets the lock. -/
lemma Inv.potential_step (h : p.Inv) (hothers : ∀ u, u ≠ t → p.calls u = .idle) (hop : op.Internal)
    (hs : IoPool.step p op = some q) :
    ∃ u, (∀ v, v ≠ u → q.calls v = .idle) ∧ q.potential u < p.potential t := by
  by_cases hadvance : op.Advances
  · obtain ⟨hasks, hios, -⟩ := asks_step hadvance hs
    have hless := h.weight_step hothers hadvance hs
    refine ⟨t, others_idle hothers hadvance hs, ?_⟩
    unfold potential
    rw [hasks, hios]
    omega
  · cases op with
    | enter u a =>
      obtain ⟨⟨hm, hmem⟩, rfl⟩ := by simpa [IoPool.step] using hs
      obtain ⟨⟨hasks, hcontexts, hios⟩, hcalls⟩ := h.enter_calls (u := u) (a := a) hm
      have hlen := List.length_erase_add_one hmem
      have hpotential : ∀ v n, ((p.enter u a).calls v).weight p.ios ≤ n + 5 * p.ios + 7 →
          n = (p.calls t).weight p.ios → (p.enter u a).potential v < p.potential t := by
        rintro v n hle rfl
        unfold potential weight
        rw [hasks, hios, hcontexts, ← hlen, Nat.add_mul]
        omega
      rcases hcalls with hsame | ⟨hidle, c, hnew, hweight⟩
      · refine ⟨t, fun v hv => ?_, hpotential t _ ?_ rfl⟩
        · rw [hsame]
          exact hothers v hv
        · rw [hsame]
          omega
      · refine ⟨u, fun v hv => ?_, hpotential u _ ?_ rfl⟩
        · rw [hnew, Function.update_of_ne hv]
          exact hidle v
        · rw [hnew, Function.update_self]
          omega
    | start u => exact hop.elim
    | stop u => exact hop.elim
    | post i => exact hop.elim
    | _ => exact absurd trivial hadvance

/-- A run without new calls and new work is no longer than the potential at its start. -/
lemma Inv.run_le (h : p.Inv) (hasking : p.Asking) (hothers : ∀ u, u ≠ t → p.calls u = .idle) {ops : List Op}
    (hops : ∀ op ∈ ops, op.Internal) (hrun : ops.foldlM IoPool.step p = some q) :
    q.Inv ∧ ops.length ≤ p.potential t := by
  induction ops generalizing p t with
  | nil =>
    cases hrun
    exact ⟨h, Nat.zero_le _⟩
  | cons op ops ih =>
    have hop : op.Internal := hops op List.mem_cons_self
    obtain ⟨r, hs, hrest⟩ := Option.bind_eq_some_iff.mp hrun
    obtain ⟨u, hidle, hless⟩ := h.potential_step hothers hop hs
    obtain ⟨hinv, hlen⟩ := ih (h.step hasking.ok hs) (hasking.step h hs) hidle
      (fun op hmem => hops op (List.mem_cons_of_mem _ hmem)) hrest
    exact ⟨hinv, by simp only [List.length_cons]; omega⟩

end Pool

open Pool

/-- Whatever threads call `Start` and `Stop` in whatever order, at most one of them is inside a call
that goes on, a context is restarted only when no run of it is unfinished, and a pool without threads
has no unfinished run. -/
theorem restarts_apart {ios : ℕ} {p : Pool} (h : Reachable (poolRuns ios) p) :
    (∀ t u, p.calls t ≠ .idle → p.calls u ≠ .idle → t = u) ∧
      (∀ t i, p.calls t = .spawning i → (p.contexts i).running = false) ∧
      (p.threads = 0 → ∀ i, (p.contexts i).running = false) := by
  have hinv : p.Inv := (of_reachable h).1
  refine ⟨fun t u ht hu => ?_, fun t i hcall => ?_, fun hthreads i => ?_⟩
  · by_contra hne
    exact hu ((hinv.active ht).1 u (Ne.symm hne))
  · have hok := (hinv.active (u := t) (by simp [hcall])).2
    rw [hcall] at hok
    have hlen : p.threads = i := hok.2.2.2.1
    by_contra hrun
    have hlt := (hinv.contexts i).running (by simpa using hrun)
    omega
  · by_contra hrun
    have hlt := (hinv.contexts i).running (by simpa using hrun)
    omega

/-- One thread starts the pool, another stops it, and it is started again. -/
def restart : List Op :=
  [.start (.outside 0), .enter (.outside 0) .start, .spawn (.outside 0) true, .started (.outside 0),
    .stop (.outside 1), .enter (.outside 1) .stop, .resetFirst (.outside 1), .drain 0, .leave 0, .wait (.outside 1),
    .resetRest (.outside 1), .lock (.outside 1), .join (.outside 1), .clear (.outside 1),
    .start (.outside 0), .enter (.outside 0) .start]

/-- The run of the context has come to its end before the context is restarted. -/
theorem restarts_apart_first : ∃ p, restart.foldlM step ({ ios := 1 } : Pool) = some p ∧
    p.calls (.outside 0) = .spawning 0 ∧ (p.contexts 0).running = false := by
  obtain ⟨p, hrun, hcall⟩ : ∃ p, restart.foldlM step ({ ios := 1 } : Pool) = some p ∧
      p.calls (.outside 0) = .spawning 0 := ⟨_, rfl, rfl⟩
  have hreach : Reachable (poolRuns 1) p :=
    Reachable.of_foldlM (S := poolRuns 1) (fun _ _ _ hs => hs) (Reachable.init rfl) hrun
  exact ⟨p, hrun, hcall, (restarts_apart hreach).2.1 (.outside 0) 0 hcall⟩

/-- `Start` and `Stop` never lock each other out: from every state, a run without new calls and new
work is bounded, and when nothing more can happen in it every call has returned, and none waits. -/
theorem calls_return {ios : ℕ} {p : Pool} (h : Reachable (poolRuns ios) p) :
    ∃ bound, ∀ (ops : List Op) (q : Pool), (∀ op ∈ ops, op.Internal) → ops.foldlM step p = some q →
      ops.length ≤ bound ∧ ((∀ op : Op, op.Internal → step q op = none) →
        (∀ t, q.calls t = .idle) ∧ q.asks = []) := by
  obtain ⟨hinv, hasking⟩ := of_reachable h
  obtain ⟨t, hothers, -⟩ := hinv.call
  refine ⟨p.potential t, fun ops q hops hrun => ?_⟩
  obtain ⟨hq, hlen⟩ := hinv.run_le hasking hothers hops hrun
  refine ⟨hlen, fun hstuck => ?_⟩
  have hidle : ∀ u, q.calls u = .idle := by
    intro u
    by_contra hu
    obtain ⟨op, hop, hgoes⟩ := hq.goes hu
    simp [hstuck op hop] at hgoes
  refine ⟨hidle, ?_⟩
  by_contra hne
  obtain ⟨e, rest, hasks⟩ := List.exists_cons_of_ne_nil hne
  obtain ⟨u, -, hok⟩ := hq.call
  rw [hidle u] at hok
  have hmem : q.Asks e.1 := List.mem_map_of_mem (hasks ▸ List.mem_cons_self)
  obtain ⟨op, hop, hgoes⟩ := asks_goes hok.1 hmem
  simp [hstuck op hop] at hgoes

/-- A thread stops what another has started, while a handler of the pool waits to stop it as well. -/
def stopTwice : List Op :=
  [.start (.outside 0), .enter (.outside 0) .start, .spawn (.outside 0) true, .started (.outside 0), .post 0, .take 0,
    .stop (.outside 1), .stop (.io 0), .enter (.outside 1) .stop]

theorem calls_return_stop : ∃ p, stopTwice.foldlM step ({ ios := 1 } : Pool) = some p ∧
    p.calls (.outside 1) = .resetFirst ∧ p.asks = [(.io 0, .stop)] ∧
      ∃ bound, ∀ (ops : List Op) (q : Pool), (∀ op ∈ ops, op.Internal) → ops.foldlM step p = some q →
        ops.length ≤ bound ∧ ((∀ op : Op, op.Internal → step q op = none) →
          (∀ t, q.calls t = .idle) ∧ q.asks = []) := by
  obtain ⟨p, hrun, hcall, hasks⟩ : ∃ p, stopTwice.foldlM step ({ ios := 1 } : Pool) = some p ∧
      p.calls (.outside 1) = .resetFirst ∧ p.asks = [(.io 0, .stop)] := ⟨_, rfl, rfl, rfl⟩
  have hreach : Reachable (poolRuns 1) p :=
    Reachable.of_foldlM (S := poolRuns 1) (fun _ _ _ hs => hs) (Reachable.init rfl) hrun
  exact ⟨p, hrun, hcall, hasks, calls_return hreach⟩

end TyphoonZero.IoPool
