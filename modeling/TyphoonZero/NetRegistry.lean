import TyphoonZero.NetRequests

/-! The session manager: what `Emplace` and `Erase` make of the table while sessions start on the
strand of the acceptor and are stopped from anywhere. -/
namespace TyphoonZero.NetConnect
open Transition

/-- Who occupies the strand of the acceptor: a session in `Start`, or one about to `Emplace`. -/
inductive Strand
  | free
  | starting (i : ℕ)
  | joining (i : ℕ)
  deriving DecidableEq

inductive RegistryEvent
  | accepted (i : ℕ)
  | emplaced (i : ℕ)
  | refused (i : ℕ)
  | erased (i : ℕ)
  deriving DecidableEq

def RegistryEvent.session : RegistryEvent → ℕ
  | accepted i => i
  | emplaced i => i
  | refused i => i
  | erased i => i

/-- The sessions are numbered in any way; `sessions` is the table, `log` what was done. -/
structure Registry (κ : Type*) where
  sessions : κ → Option ℕ := fun _ => none
  link : ℕ → Link := fun _ => {}
  inSessionMgr : ℕ → Bool := fun _ => false
  strand : Strand := .free
  log : List RegistryEvent := []

inductive RegistryOp
  | accept (i : ℕ)
  | connect (input : Bool)
  | emplace
  | request (i : ℕ) (op : Op)
  | erase (i : ℕ)

/-- The steps that a session makes away from the strand of the acceptor. -/
def Op.Elsewhere : Op → Prop
  | .stop | .leaveStarted _ | .leaveStarting _ | .fireDisconnect => True
  | .start | .disconnectTask _ | .connect _ _ => False

/-- `DoneConnect` goes on to `JoinSession` when it got through the last check. -/
def Link.strandAfter (s t : Link) (i : ℕ) : Strand :=
  match s.completions.map Completion.pc, t.completions with
  | [.last _], [] => .joining i
  | _, [] => .free
  | _, _ => .starting i

namespace Registry
variable {κ : Type*} [DecidableEq κ] (key : ℕ → κ)

/-- `try_emplace`, with what the callback does with a refused session. -/
def emplace (r : Registry κ) (i : ℕ) : Registry κ :=
  match r.sessions (key i) with
  | none => { r with
      sessions := Function.update r.sessions (key i) (some i)
      inSessionMgr := Function.update r.inSessionMgr i true
      strand := .free
      log := r.log ++ [.emplaced i] }
  | some _ => { r with
      inSessionMgr := Function.update r.inSessionMgr i false
      link := Function.update r.link i { r.link i with calls := (r.link i).calls ++ [.started] }
      strand := .free
      log := r.log ++ [.refused i] }

/-- `Erase`, whose callback leaves the link `t`. -/
def erase (r : Registry κ) (i : ℕ) (t : Link) : Registry κ :=
  { r with
    sessions := if r.inSessionMgr i then Function.update r.sessions (key i) none else r.sessions
    link := Function.update r.link i t
    log := r.log ++ [.erased i] }

/-- A session is started once. `Start` runs on the strand of the acceptor, as `Erase` does. -/
def step (r : Registry κ) : RegistryOp → Registry κ → Prop
  | .accept i, r' => r.strand = .free ∧ .accepted i ∉ r.log ∧
      ∃ t, (r.link i).exec true .start = some t ∧
      r' = { r with
        link := Function.update r.link i t, strand := .starting i, log := r.log ++ [.accepted i] }
  | .connect input, r' => ∃ i, r.strand = .starting i ∧
      ∃ t, (r.link i).exec true (.connect 0 input) = some t ∧
      r' = { r with link := Function.update r.link i t, strand := (r.link i).strandAfter t i }
  | .emplace, r' => ∃ i, r.strand = .joining i ∧ r' = r.emplace key i
  | .request i op, r' => op.Elsewhere ∧ ∃ t, (r.link i).exec true op = some t ∧
      r' = { r with link := Function.update r.link i t }
  | .erase i, r' => r.strand = .free ∧
      ∃ t, (r.link i).exec true (.disconnectTask 0) = some t ∧ r' = r.erase key i t

/-- What the table holds, what an `Emplace` does that finds its key free and one that is refused, and what
`Erase` leaves alone. -/
structure Exact (r : Registry κ) : Prop where
  table : ∀ k i, r.sessions k = some i ↔
    key i = k ∧ .emplaced i ∈ r.log ∧ .erased i ∉ r.log
  stopped : ∀ i, (r.link i).state = .stopped → ∀ k, r.sessions k ≠ some i
  erase : ∀ i r', r.step key (.erase i) r' → ∀ k j, j ≠ i →
    (r'.sessions k = some j ↔ r.sessions k = some j)
  registers : ∀ i r', r.strand = .joining i → r.sessions (key i) = none →
    r.step key .emplace r' → .emplaced i ∈ r'.log ∧ r'.sessions (key i) = some i
  refuse : ∀ i j r', r.strand = .joining i → r.sessions (key i) = some j →
    r.step key .emplace r' → .refused i ∈ r'.log ∧ r'.sessions = r.sessions ∧
      (r'.link i).calls = (r.link i).calls ++ [.started]
  asked : ∀ i, .refused i ∈ r.log → (r.link i).calls = [] → (r.link i).posted = [] →
    (r.link i).state = .stopped
  eraseRefused : ∀ i r', .refused i ∈ r.log → r.step key (.erase i) r' → r'.sessions = r.sessions

end Registry

def registryRuns {κ : Type*} [DecidableEq κ] (key : ℕ → κ) : System (Registry κ) RegistryOp where
  init r := r = {}
  step r := r.step key

namespace Link
variable {s t : Link}

/-- Away from the strand of the acceptor the state is only changed to `Stopping`, and a call that
is still to try `Started` stays while the session is started. -/
lemma exec_elsewhere {op : Op} (hop : op.Elsewhere) (h : s.exec true op = some t) :
    (t.state = s.state ∨ (s.state ≠ .stopped ∧ t.state = .stopping)) ∧
      (t.state = .started → .started ∈ s.calls → .started ∈ t.calls) := by
  cases exec_effect h with
  | start _ _ => cases hop
  | request _ _ heff =>
    refine ⟨.inl heff.state, fun _ hmem => ?_⟩
    rw [heff.calls]
    exact List.mem_append_left _ hmem
  | leaveStarted i _ hs heff =>
    have hstate : t.state = .stopping := heff.state
    exact ⟨.inr ⟨by simp [hs], hstate⟩, fun ht => by simp [hstate] at ht⟩
  | retry i _ hs heff => exact ⟨.inl heff.state, fun ht => absurd (heff.state.symm.trans ht) hs⟩
  | leaveStarting i _ hs heff =>
    have hstate : t.state = .stopping := heff.state
    exact ⟨.inr ⟨by simp [hs], hstate⟩, fun ht => by simp [hstate] at ht⟩
  | giveUp i hi _ heff =>
    refine ⟨.inl heff.state, fun _ hmem => ?_⟩
    obtain ⟨j, hj⟩ := List.mem_iff_getElem?.mp hmem
    rw [heff.calls, List.mem_eraseIdx_iff_getElem?]
    refine ⟨j, ?_, hj⟩
    rintro rfl
    rw [hi] at hj
    cases hj
  | task i _ _ _ => cases hop
  | fire _ heff =>
    have hcalls : t.calls = s.calls := heff.calls
    exact ⟨.inl heff.state, fun _ hmem => hcalls ▸ hmem⟩
  | connected i _ _ _ _ _ _ _ => cases hop
  | moved i _ _ => cases hop

/-- The completion of a start does not stop the session. -/
lemma exec_connect {i : ℕ} {input : Bool} (h : s.exec true (.connect i input) = some t)
    (hs : s.state ≠ .stopped) : t.state ≠ .stopped := by
  cases exec_effect h with
  | request _ _ heff => exact fun ht => hs (heff.state.symm.trans ht)
  | connected _ _ _ _ _ _ _ heff =>
    rw [heff.state]
    simp
  | moved _ _ heff => exact fun ht => hs (heff.state.symm.trans ht)

/-- Who goes on to `JoinSession` was started. -/
lemma strandAfter_joining {i j : ℕ} {input : Bool} (h : s.exec true (.connect 0 input) = some t)
    (hjoin : s.strandAfter t i = .joining j) : i = j ∧ t.state = .started := by
  obtain ⟨c, hc⟩ | hnone : (∃ c, s.completions = [c]) ∨ ¬ ∃ c, s.completions = [c] := em _
  · cases hpc : c.pc with
    | last ec =>
      simp only [exec, hc, List.getElem?_cons_zero, hpc, connectStep] at h
      by_cases hgo : ec = false ∧ s.state = .started
      · rw [if_pos hgo] at h
        obtain rfl := Option.some.inj h
        simp only [strandAfter, hc, List.map_cons, List.map_nil, hpc, List.eraseIdx_cons_zero] at hjoin
        exact ⟨Strand.joining.inj hjoin, hgo.2⟩
      · rw [if_neg hgo] at h
        obtain rfl := Option.some.inj h
        simp [strandAfter, hc, hpc] at hjoin
    | waiting | done ec | check ec | checkStarted ec | fire ec | stop =>
      unfold strandAfter at hjoin
      rw [hc] at hjoin
      simp only [List.map_cons, List.map_nil, hpc] at hjoin
      split at hjoin
      all_goals simp_all
  · unfold strandAfter at hjoin
    split at hjoin
    next hlast _ =>
      obtain ⟨c, hc, -⟩ := List.map_eq_singleton_iff.mp hlast
      exact absurd ⟨c, hc⟩ hnone
    all_goals cases hjoin

end Link

section Runs
variable {κ : Type*} {key : ℕ → κ} {r r' : Registry κ} {i : ℕ} {t : Link}

/-- What holds of one session: where its state, its flag and what was logged of it stand. -/
structure Registry.SessionInv (r : Registry κ) (i : ℕ) : Prop where
  posted : (r.link i).Posted
  flag : r.inSessionMgr i = true ↔ .emplaced i ∈ r.log
  fresh : .accepted i ∉ r.log → (r.link i).state = .stopped ∧ .emplaced i ∉ r.log ∧
    .refused i ∉ r.log ∧ .erased i ∉ r.log
  stopped : .accepted i ∈ r.log → ((r.link i).state = .stopped ↔ .erased i ∈ r.log)
  unjoined : r.strand = .starting i ∨ r.strand = .joining i → .accepted i ∈ r.log ∧
    (r.link i).state ≠ .stopped ∧ .emplaced i ∉ r.log ∧ .refused i ∉ r.log
  joining : r.strand = .joining i → (r.link i).state ≠ .starting
  refused : .refused i ∈ r.log → .emplaced i ∉ r.log ∧ (r.link i).state ≠ .starting ∧
    ((r.link i).state = .started → .started ∈ (r.link i).calls)

/-- The table holds who was emplaced and not erased. -/
structure Registry.Inv (key : ℕ → κ) (r : Registry κ) : Prop where
  session : ∀ i, r.SessionInv i
  table : ∀ k i, r.sessions k = some i ↔ key i = k ∧ .emplaced i ∈ r.log ∧ .erased i ∉ r.log

/-- A step of another session. -/
lemma Registry.SessionInv.frame (h : r.SessionInv i) (hlink : r'.link i = r.link i)
    (hflag : r'.inSessionMgr i = r.inSessionMgr i)
    (hlog : ∀ e : RegistryEvent, e.session = i → (e ∈ r'.log ↔ e ∈ r.log))
    (hstrand : r'.strand = .starting i ∨ r'.strand = .joining i → r'.strand = r.strand) :
    r'.SessionInv i := by
  have haccepted := hlog (.accepted i) rfl
  have hemplaced := hlog (.emplaced i) rfl
  have hrefused := hlog (.refused i) rfl
  have herased := hlog (.erased i) rfl
  constructor
  · rw [hlink]
    exact h.posted
  · rw [hflag, hemplaced]
    exact h.flag
  · rw [haccepted, hlink, hemplaced, hrefused, herased]
    exact h.fresh
  · rw [haccepted, hlink, herased]
    exact h.stopped
  · intro hs
    rw [haccepted, hlink, hemplaced, hrefused]
    rw [hstrand hs] at hs
    exact h.unjoined hs
  · intro hs
    rw [hlink]
    rw [hstrand (.inr hs)] at hs
    exact h.joining hs
  · rw [hrefused, hemplaced, hlink]
    exact h.refused

lemma mem_log_other {log : List RegistryEvent} {e : RegistryEvent} {j : ℕ} (hj : j ≠ e.session)
    (x : RegistryEvent) (hx : x.session = j) : x ∈ log ++ [e] ↔ x ∈ log := by
  have hne : x ≠ e := by
    rintro rfl
    exact hj hx.symm
  simp [hne]

lemma Registry.Inv.erased (h : r.Inv key) (i : ℕ) (he : .erased i ∈ r.log) :
    (r.link i).state = .stopped := by
  by_cases ha : .accepted i ∈ r.log
  · exact ((h.session i).stopped ha).mpr he
  · exact absurd he ((h.session i).fresh ha).2.2.2

lemma Registry.Inv.accept (h : r.Inv key) (ha : .accepted i ∉ r.log)
    (ht : (r.link i).exec true .start = some t) :
    Registry.Inv key { r with
      link := Function.update r.link i t, strand := .starting i, log := r.log ++ [.accepted i] } := by
  have hi := h.session i
  obtain ⟨-, hemplaced, hrefused, herased⟩ := hi.fresh ha
  have hstate : t.state = .starting := by
    cases Link.exec_effect ht with
    | start _ heff => exact heff.state
    | request _ hne _ => exact absurd rfl hne
  constructor
  · intro j
    by_cases hj : j = i
    · subst hj
      constructor
      · simpa using hi.posted.exec ht
      · simpa using hi.flag
      · simp
      · simp [hstate, herased]
      · simp [hstate, hemplaced, hrefused]
      · simp
      · simp [hrefused]
    · exact (h.session j).frame (by simp [hj]) rfl (mem_log_other hj)
        (by simpa using fun he : i = j => absurd he.symm hj)
  · intro k j
    rw [h.table k j]
    simp

lemma Registry.Inv.connect (h : r.Inv key) (hs : r.strand = .starting i) {input : Bool}
    (ht : (r.link i).exec true (.connect 0 input) = some t) :
    Registry.Inv key { r with
      link := Function.update r.link i t, strand := (r.link i).strandAfter t i } := by
  have hi := h.session i
  obtain ⟨haccepted, hstate, hemplaced, hrefused⟩ := hi.unjoined (.inl hs)
  have hstopped := Link.exec_connect ht hstate
  have herased : .erased i ∉ r.log := fun he => hstate (h.erased i he)
  have hafter : ∀ j, (r.link i).strandAfter t i = .starting j ∨ (r.link i).strandAfter t i = .joining j →
      i = j := by
    intro j hj
    cases hj with
    | inl hj =>
      unfold Link.strandAfter at hj
      split at hj
      all_goals cases hj
      rfl
    | inr hj => exact (Link.strandAfter_joining ht hj).1
  constructor
  · intro j
    by_cases hj : j = i
    · subst hj
      constructor
      · simpa using hi.posted.exec ht
      · exact hi.flag
      · exact fun ha => absurd haccepted ha
      · simp [hstopped, herased]
      · simp [haccepted, hstopped, hemplaced, hrefused]
      · intro hjoin
        simp [(Link.strandAfter_joining ht hjoin).2]
      · simp [hrefused]
    · exact (h.session j).frame (by simp [hj]) rfl (fun _ _ => Iff.rfl)
        (fun he => absurd (hafter j he).symm hj)
  · exact h.table

lemma Registry.Inv.request (h : r.Inv key) {op : Op} (hop : op.Elsewhere)
    (ht : (r.link i).exec true op = some t) :
    Registry.Inv key { r with link := Function.update r.link i t } := by
  have hi := h.session i
  obtain ⟨hstate, hcalls⟩ := Link.exec_elsewhere hop ht
  have hstopped : t.state = .stopped ↔ (r.link i).state = .stopped := by
    obtain hsame | ⟨hne, hstopping⟩ := hstate
    · rw [hsame]
    · simp [hne, hstopping]
  have hstarting : (r.link i).state ≠ .starting → t.state ≠ .starting := by
    intro hne
    obtain hsame | ⟨-, hstopping⟩ := hstate
    · rwa [hsame]
    · simp [hstopping]
  have hstarted : t.state = .started → (r.link i).state = .started := by
    intro ht
    obtain hsame | ⟨-, hstopping⟩ := hstate
    · rwa [← hsame]
    · simp [hstopping] at ht
  constructor
  · intro j
    by_cases hj : j = i
    · subst hj
      constructor
      · simpa using hi.posted.exec ht
      · exact hi.flag
      · simpa [hstopped] using hi.fresh
      · simpa [hstopped] using hi.stopped
      · simpa [hstopped] using hi.unjoined
      · intro hjoin
        simpa using hstarting (hi.joining hjoin)
      · intro href
        obtain ⟨hemplaced, hne, hmem⟩ := hi.refused href
        refine ⟨hemplaced, by simpa using hstarting hne, fun hst => ?_⟩
        simp only [Function.update_self] at hst ⊢
        exact hcalls hst (hmem (hstarted hst))
    · exact (h.session j).frame (by simp [hj]) rfl (fun _ _ => Iff.rfl) (fun _ => rfl)
  · exact h.table

variable [DecidableEq κ]

lemma Registry.Inv.emplace (h : r.Inv key) (hs : r.strand = .joining i) :
    (r.emplace key i).Inv key := by
  have hi := h.session i
  obtain ⟨haccepted, hstate, hemplaced, hrefused⟩ := hi.unjoined (.inr hs)
  have hstarting := hi.joining hs
  have herased : .erased i ∉ r.log := fun he => hstate (h.erased i he)
  unfold Registry.emplace
  cases hkey : r.sessions (key i) with
  | none =>
    constructor
    · intro j
      by_cases hj : j = i
      · subst hj
        constructor
        · exact hi.posted
        · simp
        · exact fun ha => absurd (List.mem_append_left _ haccepted) ha
        · simpa using hi.stopped
        · simp
        · simp
        · simp [hrefused]
      · exact (h.session j).frame rfl (by simp [hj]) (mem_log_other hj) (by simp)
    · intro k j
      have hother := h.table k j
      by_cases hj : j = i
      · subst hj
        by_cases hk : k = key j
        · subst hk
          simp [herased]
        · have hne : r.sessions k ≠ some j := fun hs => hk (hother.mp hs).1.symm
          simp [Function.update_of_ne hk, hne, Ne.symm hk]
      · have hlog : .emplaced j ∈ r.log ++ [.emplaced i] ↔ .emplaced j ∈ r.log :=
          mem_log_other hj (.emplaced j) rfl
        have hlog' : .erased j ∈ r.log ++ [.emplaced i] ↔ .erased j ∈ r.log :=
          mem_log_other hj (.erased j) rfl
        rw [hlog, hlog', ← hother]
        by_cases hk : k = key i
        · subst hk
          simp [hkey, Ne.symm hj]
        · simp [Function.update_of_ne hk]
  | some j =>
    constructor
    · intro j
      by_cases hj : j = i
      · subst hj
        constructor
        · dsimp only
          rw [Function.update_self]
          exact hi.posted
        · simpa using hemplaced
        · exact fun ha => absurd (List.mem_append_left _ haccepted) ha
        · simpa using hi.stopped
        · simp
        · simp
        · simp [hemplaced, hstarting]
      · exact (h.session j).frame (by simp [hj]) (by simp [hj]) (mem_log_other hj) (by simp)
    · intro k j
      rw [h.table k j]
      simp

/-- Who is flagged and about to be erased is in the table under its key. -/
lemma Registry.Inv.erase_sessions (h : r.Inv key) (hstate : (r.link i).state = .stopping) (k : κ)
    (j : ℕ) : (r.erase key i t).sessions k = some j ↔ j ≠ i ∧ r.sessions k = some j := by
  have herased : .erased i ∉ r.log := by
    intro he
    rw [h.erased i he] at hstate
    cases hstate
  unfold Registry.erase
  by_cases hflag : r.inSessionMgr i = true
  · have hmem : r.sessions (key i) = some i :=
      (h.table (key i) i).mpr ⟨rfl, (h.session i).flag.mp hflag, herased⟩
    simp only [hflag, if_true]
    by_cases hk : k = key i
    · subst hk
      simp [hmem]
      exact fun hne he => hne he.symm
    · rw [Function.update_of_ne hk]
      refine ⟨fun hs => ⟨?_, hs⟩, And.right⟩
      rintro rfl
      exact hk ((h.table k j).mp hs).1.symm
  · simp only [hflag]
    refine ⟨fun hs => ⟨?_, hs⟩, And.right⟩
    rintro rfl
    exact hflag ((h.session j).flag.mpr ((h.table k j).mp hs).2.1)

lemma Registry.Inv.erase (h : r.Inv key) (hs : r.strand = .free)
    (ht : (r.link i).exec true (.disconnectTask 0) = some t) : (r.erase key i t).Inv key := by
  have hi := h.session i
  obtain ⟨hstate, hstopped⟩ := hi.posted.disconnectTask ht
  have haccepted : .accepted i ∈ r.log := by
    by_contra ha
    rw [(hi.fresh ha).1] at hstate
    cases hstate
  constructor
  · intro j
    unfold Registry.erase
    by_cases hj : j = i
    · subst hj
      constructor
      · simpa using hi.posted.exec ht
      · simpa using hi.flag
      · exact fun ha => absurd (List.mem_append_left _ haccepted) ha
      · simp [hstopped]
      · simp [hs]
      · simp [hs]
      · intro href
        have hmem : .refused j ∈ r.log := by simpa using href
        simp [(hi.refused hmem).1, hstopped]
    · exact (h.session j).frame (by simp [hj]) rfl (mem_log_other hj) (fun _ => rfl)
  · intro k j
    rw [h.erase_sessions hstate, h.table k j]
    by_cases hj : j = i
    · subst hj
      simp [Registry.erase]
    · have hlog : ∀ e : RegistryEvent, e.session = j → (e ∈ (r.erase key i t).log ↔ e ∈ r.log) :=
        mem_log_other hj
      rw [hlog (.emplaced j) rfl, hlog (.erased j) rfl]
      simp [hj]

lemma Registry.Inv.step (h : r.Inv key) {op : RegistryOp} (hs : r.step key op r') : r'.Inv key := by
  cases op with
  | accept i =>
    obtain ⟨-, ha, t, ht, rfl⟩ := hs
    exact h.accept ha ht
  | connect input =>
    obtain ⟨i, hi, t, ht, rfl⟩ := hs
    exact h.connect hi ht
  | emplace =>
    obtain ⟨i, hi, rfl⟩ := hs
    exact h.emplace hi
  | request i op =>
    obtain ⟨hop, t, ht, rfl⟩ := hs
    exact h.request hop ht
  | erase i =>
    obtain ⟨hfree, t, ht, rfl⟩ := hs
    exact h.erase hfree ht

lemma reachable_registry (h : Reachable (registryRuns key) r) : r.Inv key := by
  apply h.invariant
  · intro r hr
    cases hr
    constructor
    · intro i
      constructor <;> simp [Link.Posted]
    · intro k i
      simp
  · intro r op r' hr hs
    exact hr.step hs

end Runs

section Examples

end Examples
end TyphoonZero.NetConnect
