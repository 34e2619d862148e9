import Mathlib

/-! Labelled transition systems: runs, reachable states, and the two induction
rules used for every stateful component of the development. -/
namespace Transition

structure System (σ ι : Type*) where
  init : σ → Prop
  step : σ → ι → σ → Prop

variable {σ ι : Type*} {S : System σ ι}

/-- The labels are listed oldest first. -/
inductive Run (S : System σ ι) : σ → List ι → σ → Prop
  | nil (s) : Run S s [] s
  | snoc {s t u ls l} : Run S s ls t → S.step t l u → Run S s (ls ++ [l]) u

def Traces (S : System σ ι) (ls : List ι) (t : σ) : Prop := ∃ s, S.init s ∧ Run S s ls t

def Reachable (S : System σ ι) (t : σ) : Prop := ∃ ls, Traces S ls t

/-- The same system with only those steps whose source state and label meet `C`. -/
def System.restrict (S : System σ ι) (C : σ → ι → Prop) : System σ ι where
  init := S.init
  step s l t := C s l ∧ S.step s l t

lemma Traces.nil {s : σ} (h : S.init s) : Traces S [] s := ⟨s, h, .nil s⟩

lemma Traces.snoc {ls : List ι} {l : ι} {s t : σ} (h : Traces S ls s) (hs : S.step s l t) :
    Traces S (ls ++ [l]) t := by
  obtain ⟨a, ha, hr⟩ := h
  exact ⟨a, ha, hr.snoc hs⟩

lemma Traces.snoc_inv {ls : List ι} {l : ι} {t : σ} (h : Traces S (ls ++ [l]) t) :
    ∃ s, Traces S ls s ∧ S.step s l t := by
  obtain ⟨a, ha, hr⟩ := h
  generalize hls : ls ++ [l] = ls' at hr
  cases hr with
  | nil => simp at hls
  | snoc hr hs =>
    obtain ⟨rfl, hl⟩ := List.append_inj' hls rfl
    obtain rfl := List.singleton_inj.mp hl
    exact ⟨_, ⟨a, ha, hr⟩, hs⟩

/-- A deterministic system ends a trace in one state only. -/
lemma Traces.unique (hi : ∀ s t, S.init s → S.init t → s = t)
    (hd : ∀ s l t u, S.step s l t → S.step s l u → t = u) {ls : List ι} {s t : σ} (hs : Traces S ls s)
    (ht : Traces S ls t) : s = t := by
  obtain ⟨a, ha, hr⟩ := hs
  induction hr generalizing t with
  | nil =>
    obtain ⟨b, hb, hr'⟩ := ht
    generalize hls : ([] : List ι) = ls' at hr'
    cases hr' with
    | nil => exact hi _ _ ha hb
    | snoc hr' hs' => simp at hls
  | snoc hr hstep ih =>
    obtain ⟨u, hu, hstep'⟩ := ht.snoc_inv
    obtain rfl := ih hu
    exact hd _ _ _ _ hstep hstep'

lemma Reachable.init {s : σ} (h : S.init s) : Reachable S s := ⟨[], .nil h⟩

lemma Reachable.step {l : ι} {s t : σ} (h : Reachable S s) (hs : S.step s l t) :
    Reachable S t := by
  obtain ⟨ls, hl⟩ := h
  exact ⟨_, hl.snoc hs⟩

/-- A relation between the history and the state that holds initially and is
kept by every step holds of every trace. -/
theorem Traces.induction {I : List ι → σ → Prop} (h0 : ∀ s, S.init s → I [] s)
    (h1 : ∀ ls s l t, I ls s → S.step s l t → I (ls ++ [l]) t)
    {ls : List ι} {s : σ} (h : Traces S ls s) : I ls s := by
  obtain ⟨a, ha, hr⟩ := h
  induction hr with
  | nil => exact h0 a ha
  | snoc hr hs ih => exact h1 _ _ _ _ ih hs

theorem Reachable.invariant {I : σ → Prop} (h0 : ∀ s, S.init s → I s)
    (h1 : ∀ s l t, I s → S.step s l t → I t) {s : σ} (h : Reachable S s) : I s := by
  obtain ⟨ls, hl⟩ := h
  exact hl.induction (I := fun _ t => I t) h0 (fun _ s l t => h1 s l t)

/-- A run computed step by step. -/
lemma Traces.of_foldlM {f : σ → ι → Option σ} (hf : ∀ s l t, f s l = some t → S.step s l t)
    {pre ls : List ι} {s t : σ} (h : Traces S pre s) (hr : ls.foldlM f s = some t) : Traces S (pre ++ ls) t := by
  induction ls generalizing s pre with
  | nil =>
    cases hr
    rwa [List.append_nil]
  | cons l ls ih =>
    rw [List.foldlM_cons, Option.bind_eq_bind, Option.bind_eq_some_iff] at hr
    obtain ⟨u, hu, hr⟩ := hr
    rw [List.append_cons]
    exact ih (h.snoc (hf s l u hu)) hr

lemma Reachable.of_foldlM {f : σ → ι → Option σ} (hf : ∀ s l t, f s l = some t → S.step s l t)
    {ls : List ι} {s t : σ} (h : Reachable S s) (hr : ls.foldlM f s = some t) : Reachable S t := by
  obtain ⟨pre, hpre⟩ := h
  exact ⟨_, hpre.of_foldlM hf hr⟩

lemma Traces.of_restrict {C : σ → ι → Prop} {ls : List ι} {s : σ} (h : Traces (S.restrict C) ls s) : Traces S ls s :=
  Traces.induction (S := S.restrict C) (I := Traces S) (fun _ ha => .nil ha) (fun _ _ _ _ ih hs => ih.snoc hs.2) h

/-- The beginning of a restricted trace is restricted as well. -/
lemma Traces.restrict_initial {C : σ → ι → Prop} (hi : ∀ s t, S.init s → S.init t → s = t)
    (hd : ∀ s l t u, S.step s l t → S.step s l u → t = u) {ls pre : List ι} {s t : σ}
    (h : Traces (S.restrict C) ls t) (hpre : pre <+: ls) (hs : Traces S pre s) : Traces (S.restrict C) pre s := by
  obtain ⟨a, ha, hr⟩ := h
  induction hr with
  | nil =>
    obtain rfl := List.prefix_nil.mp hpre
    obtain rfl := Traces.unique hi hd hs (.nil ha)
    exact .nil ha
  | snoc hr hstep ih =>
    rcases List.prefix_concat_iff.mp hpre with rfl | hpre
    · have ht := Traces.snoc (S := S.restrict C) ⟨_, ha, hr⟩ hstep
      obtain rfl := Traces.unique hi hd hs ht.of_restrict
      exact ht
    · exact ih hpre

/-- What every step of the run with these labels does. -/
def Along (S : System σ ι) (Q : σ → ι → σ → Prop) (ls : List ι) : Prop :=
  ∀ pre l s t, pre ++ [l] <+: ls → Traces S pre s → S.step s l t → Q s l t

lemma Along.initial {Q : σ → ι → σ → Prop} {ls pre : List ι} (h : Along S Q ls) (hpre : pre <+: ls) :
    Along S Q pre := fun pre' l s t hpre' => h pre' l s t (hpre'.trans hpre)

/-- When `C` says from a good state what the next step does, and keeps the state good, it says so
of whole runs. -/
theorem Traces.along_iff {C : σ → ι → Prop} {Q : σ → ι → σ → Prop} {I : σ → Prop}
    (hi : ∀ s t, S.init s → S.init t → s = t) (hd : ∀ s l t u, S.step s l t → S.step s l u → t = u)
    (h0 : ∀ s, S.init s → I s)
    (hQ : ∀ s l t, I s → S.step s l t → (Q s l t ↔ C s l)) (hI : ∀ s l t, I s → C s l → S.step s l t → I t)
    {ls : List ι} {t : σ} (h : Traces S ls t) : Along S Q ls ↔ Traces (S.restrict C) ls t := by
  have hgood : ∀ {pre : List ι} {s : σ}, Traces (S.restrict C) pre s → I s := fun hpre =>
    hpre.induction (S := S.restrict C) (I := fun _ s => I s) h0 fun _ s l t hs hstep => hI s l t hs hstep.1 hstep.2
  constructor
  · refine Traces.induction (S := S) (I := fun ls t => Along S Q ls → Traces (S.restrict C) ls t)
      (fun s hs _ => .nil hs) ?_ h
    intro ls s l t ih hstep halong
    have hpre := ih (halong.initial (List.prefix_append _ _))
    have hC := (hQ s l t (hgood hpre) hstep).mp (halong ls l s t List.prefix_rfl hpre.of_restrict hstep)
    exact hpre.snoc ⟨hC, hstep⟩
  · intro hr pre l s t hpre hs hstep
    obtain ⟨s', hs', hC, -⟩ := (hr.restrict_initial hi hd hpre (hs.snoc hstep)).snoc_inv
    obtain rfl := Traces.unique hi hd hs hs'.of_restrict
    exact (hQ s l t (hgood hs') hstep).mpr hC

lemma Reachable.of_restrict {C : σ → ι → Prop} {s : σ} (h : Reachable (S.restrict C) s) :
    Reachable S s :=
  h.invariant (fun _ ha => .init ha) (fun _ _ _ ih hs => ih.step hs.2)

end Transition
