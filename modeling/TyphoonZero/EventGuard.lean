import TyphoonZero.Transition

/-! The guard of an event: its copies and moves pass on the right to start the next
event, and the guard that has it when it dies uses it. -/
namespace TyphoonZero.EventGuard
open Transition

/-- `deriveSptr` tells whether the pointer that keeps the connection alive is set. -/
structure EventQueueGuard where
  deriveSptr : Bool
  valid : Bool
  deriving DecidableEq, Repr

/-- The guards that exist, and the calls of `NextEvent`. -/
structure Guards (G : Type) where
  guards : G → Option EventQueueGuard
  nextEvents : ℕ := 0

section Guards
variable {G : Type} [DecidableEq G] (s : Guards G)

/-- The copy constructor; the pointer of a constant guard is copied. -/
def Guards.copyGuard (g fresh : G) (other : EventQueueGuard) : Guards G :=
  { s with
    guards := Function.update (Function.update s.guards g (some { other with valid := !other.valid })) fresh
      (some { deriveSptr := other.deriveSptr, valid := other.valid }) }

/-- The move constructor. -/
def Guards.moveGuard (g fresh : G) (other : EventQueueGuard) : Guards G :=
  { s with
    guards := Function.update (Function.update s.guards g (some { deriveSptr := false, valid := !other.valid }))
      fresh (some { deriveSptr := other.deriveSptr, valid := other.valid }) }

def Guards.destroyGuard (g : G) (guard : EventQueueGuard) : Guards G :=
  { guards := Function.update s.guards g none
    nextEvents := if guard.valid then s.nextEvents + 1 else s.nextEvents }

inductive Op (G : Type)
  | copy (g fresh : G)
  | move (g fresh : G)
  | destroy (g : G)
  deriving DecidableEq

/-- The guard that a construction is made from, and the new one. -/
def Op.construction? : Op G → Option (G × G)
  | .copy g fresh => some (g, fresh)
  | .move g fresh => some (g, fresh)
  | .destroy _ => none

def exec : Op G → Option (Guards G)
  | .copy g fresh => if s.guards fresh = none then (s.guards g).map (s.copyGuard g fresh) else none
  | .move g fresh => if s.guards fresh = none then (s.guards g).map (s.moveGuard g fresh) else none
  | .destroy g => (s.guards g).map (s.destroyGuard g)

def start (root : G) : Guards G :=
  { guards := Function.update (fun _ => none) root (some { deriveSptr := true, valid := true }) }

/-- All that can happen to the guards that come from `root`. -/
def guardRuns (root : G) : System (Guards G) (Op G) where
  init s := s = start root
  step s op t := exec s op = some t

def Valid (g : G) : Prop := ∃ guard, s.guards g = some guard ∧ guard.valid = true

/-- At any moment one guard is valid at most, a guard made from an invalid one is invalid,
and `NextEvent` is called once, by a valid guard that dies. -/
structure FiresOnce (root : G) (ops : List (Op G)) (t : Guards G) : Prop where
  single : ∀ pre s, pre <+: ops → Traces (guardRuns root) pre s → ∀ g g', Valid s g → Valid s g' → g = g'
  invalid : ∀ pre op s s', pre ++ [op] <+: ops → Traces (guardRuns root) pre s → exec s op = some s' →
    ∀ g fresh, op.construction? = some (g, fresh) → ¬ Valid s g → ¬ Valid s' fresh
  once : t.nextEvents = 1
  dies : ∀ pre op s s', pre ++ [op] <+: ops → Traces (guardRuns root) pre s → exec s op = some s' →
    s'.nextEvents ≠ s.nextEvents → ∃ g, op = .destroy g ∧ Valid s g

/-- No construction begins with an invalid guard. -/
def FromValid (op : Op G) : Prop := ∀ g fresh, op.construction? = some (g, fresh) → Valid s g

end Guards

lemma Op.cases {G : Type} (op : Op G) : (∃ g fresh, op.construction? = some (g, fresh)) ∨ ∃ g, op = .destroy g := by
  cases op with
  | copy g fresh => exact .inl ⟨g, fresh, rfl⟩
  | move g fresh => exact .inl ⟨g, fresh, rfl⟩
  | destroy g => exact .inr ⟨g, rfl⟩

section Steps
variable {G : Type} [DecidableEq G] {s t : Guards G} {op : Op G}

/-- What a construction does to the guards. -/
structure Constructs (s t : Guards G) (g fresh : G) : Prop where
  source : (s.guards g).isSome
  unused : s.guards fresh = none
  valid : Valid t fresh ↔ Valid s g
  flipped : Valid t g ↔ ¬ Valid s g
  rest : ∀ g', g' ≠ g → g' ≠ fresh → t.guards g' = s.guards g'
  nextEvents : t.nextEvents = s.nextEvents

lemma exec_construction {g fresh : G} (h : exec s op = some t) (hop : op.construction? = some (g, fresh)) :
    Constructs s t g fresh := by
  have hcases : s.guards fresh = none ∧ ∃ other, s.guards g = some other ∧ ∃ keeps : Bool,
      t = { s with
        guards := Function.update
          (Function.update s.guards g (some { deriveSptr := keeps, valid := !other.valid })) fresh
          (some { deriveSptr := other.deriveSptr, valid := other.valid }) } := by
    cases op with
    | copy g₀ fresh₀ =>
      obtain ⟨rfl, rfl⟩ := Prod.mk.inj (Option.some.inj hop)
      simp only [exec, Option.ite_none_right_eq_some, Option.map_eq_some_iff] at h
      obtain ⟨hfresh, other, hg, rfl⟩ := h
      exact ⟨hfresh, other, hg, other.deriveSptr, rfl⟩
    | move g₀ fresh₀ =>
      obtain ⟨rfl, rfl⟩ := Prod.mk.inj (Option.some.inj hop)
      simp only [exec, Option.ite_none_right_eq_some, Option.map_eq_some_iff] at h
      obtain ⟨hfresh, other, hg, rfl⟩ := h
      exact ⟨hfresh, other, hg, false, rfl⟩
    | destroy g₀ => cases hop
  obtain ⟨hfresh, other, hg, keeps, rfl⟩ := hcases
  have hne : g ≠ fresh := by
    rintro rfl
    rw [hfresh] at hg
    cases hg
  refine ⟨by rw [hg]; rfl, hfresh, ?_, ?_, ?_, rfl⟩
  · simp [Valid, hg]
  · simp [Valid, hg, Function.update_of_ne hne]
  · intro g' h1 h2
    simp [Function.update_of_ne h1, Function.update_of_ne h2]

lemma exec_destroy {g : G} (h : exec s (.destroy g) = some t) : (∀ g', Valid t g' ↔ g' ≠ g ∧ Valid s g') ∧
    (Valid s g ∧ t.nextEvents = s.nextEvents + 1 ∨ ¬ Valid s g ∧ t.nextEvents = s.nextEvents) := by
  obtain ⟨guard, hg, rfl⟩ := Option.map_eq_some_iff.mp h
  constructor
  · intro g'
    by_cases hne : g' = g
    · simp [Valid, Guards.destroyGuard, hne]
    · simp [Valid, Guards.destroyGuard, hne]
  · cases hv : guard.valid with
    | true => exact .inl ⟨⟨guard, hg, hv⟩, by simp [Guards.destroyGuard, hv]⟩
    | false => exact .inr ⟨by simp [Valid, hg, hv], by simp [Guards.destroyGuard, hv]⟩

/-- The valid guards and the calls of `NextEvent` together are one, and one more for
each construction from an invalid guard. -/
def Balanced (s : Guards G) (revived : ℕ) : Prop :=
  ∃ valid : Finset G, (∀ g, g ∈ valid ↔ Valid s g) ∧ valid.card + s.nextEvents = 1 + revived

lemma balanced_start (root : G) : Balanced (start root) 0 := by
  refine ⟨{root}, fun g => ?_, rfl⟩
  rw [Finset.mem_singleton]
  by_cases hg : g = root
  · simp [Valid, start, hg]
  · simp [Valid, start, hg]

/-- A construction from a valid guard moves the right, one from an invalid guard adds a right. -/
lemma Constructs.balanced {g fresh : G} {k : ℕ} (hc : Constructs s t g fresh) (h : Balanced s k) :
    (Valid s g → Balanced t k) ∧ (¬ Valid s g → Balanced t (k + 1)) := by
  obtain ⟨valid, hmem, hcard⟩ := h
  have hne : g ≠ fresh := by
    rintro rfl
    have hsource := hc.source
    rw [hc.unused] at hsource
    cases hsource
  have hfresh : ¬ Valid s fresh := by
    rintro ⟨guard, hguard, -⟩
    rw [hc.unused] at hguard
    cases hguard
  have hrest : ∀ g', g' ≠ g → g' ≠ fresh → (Valid t g' ↔ Valid s g') := by
    intro g' h1 h2
    rw [Valid, Valid, hc.rest g' h1 h2]
  constructor
  · intro hv
    refine ⟨insert fresh (valid.erase g), fun g' => ?_, ?_⟩
    · rw [Finset.mem_insert, Finset.mem_erase, hmem]
      by_cases h1 : g' = fresh
      · simp [h1, hc.valid, hv]
      · by_cases h2 : g' = g
        · simp [h2, hne, hc.flipped, hv]
        · simp [h1, h2, hrest g' h2 h1]
    · rw [Finset.card_insert_of_notMem (by simp [hmem, hfresh]), hc.nextEvents,
        Finset.card_erase_add_one ((hmem g).mpr hv), hcard]
  · intro hv
    refine ⟨insert g valid, fun g' => ?_, ?_⟩
    · rw [Finset.mem_insert, hmem]
      by_cases h1 : g' = fresh
      · simp [h1, hne.symm, hc.valid, hv, hfresh]
      · by_cases h2 : g' = g
        · simp [h2, hc.flipped, hv]
        · simp [h2, hrest g' h2 h1]
    · rw [Finset.card_insert_of_notMem (by simp [hmem, hv]), hc.nextEvents]
      omega

lemma balanced_destroy {g : G} {k : ℕ} (h : exec s (.destroy g) = some t) (hb : Balanced s k) : Balanced t k := by
  obtain ⟨valid, hmem, hcard⟩ := hb
  obtain ⟨hvalid, hcount⟩ := exec_destroy h
  refine ⟨valid.erase g, fun g' => by rw [Finset.mem_erase, hmem, hvalid], ?_⟩
  rcases hcount with ⟨hv, hn⟩ | ⟨hv, hn⟩
  · have hcard' := Finset.card_erase_add_one ((hmem g).mpr hv)
    omega
  · rw [Finset.erase_eq_of_notMem (by simp [hmem, hv]), hn, hcard]

/-- One operation. -/
lemma exec_balanced {k : ℕ} (h : exec s op = some t) (hb : Balanced s k) :
    (FromValid s op → Balanced t k) ∧ (¬ FromValid s op → Balanced t (k + 1)) := by
  rcases op.cases with ⟨g, fresh, hop⟩ | ⟨g, rfl⟩
  · have hiff : FromValid s op ↔ Valid s g := by
      constructor
      · intro hf
        exact hf g fresh hop
      · intro hv g' fresh' hop'
        obtain ⟨rfl, rfl⟩ := Prod.mk.inj (Option.some.inj (hop.symm.trans hop'))
        exact hv
    rw [hiff]
    exact (exec_construction h hop).balanced hb
  · exact ⟨fun _ => balanced_destroy h hb, fun hf => absurd nofun hf⟩

end Steps

/-- At the end all rights are used. -/
lemma Balanced.done {G : Type} {t : Guards G} {k : ℕ} (h : Balanced t k) (hdone : ∀ g, t.guards g = none) :
    t.nextEvents = 1 + k := by
  obtain ⟨valid, hmem, hcard⟩ := h
  have hempty : valid = ∅ := by
    refine Finset.eq_empty_of_forall_notMem fun g hg => ?_
    obtain ⟨guard, hguard, -⟩ := (hmem g).mp hg
    rw [hdone] at hguard
    cases hguard
  rw [← hcard, hempty, Finset.card_empty, Nat.zero_add]

section Runs
variable {G : Type} [DecidableEq G] {root : G} {ops : List (Op G)} {s t : Guards G}

/-- The whole run: no right was added only if no construction began with an invalid guard. -/
lemma trace_balanced (h : Traces (guardRuns root) ops t) :
    ∃ revived, Balanced t revived ∧ (revived = 0 → Traces ((guardRuns root).restrict FromValid) ops t) := by
  refine h.induction (I := fun ops t => ∃ revived, Balanced t revived ∧
    (revived = 0 → Traces ((guardRuns root).restrict FromValid) ops t)) ?_ ?_
  · rintro _ rfl
    exact ⟨0, balanced_start root, fun _ => .nil rfl⟩
  · rintro ops s op t ⟨revived, hb, htrace⟩ hstep
    obtain ⟨hvalid, hinvalid⟩ := exec_balanced hstep hb
    by_cases hf : FromValid s op
    · exact ⟨revived, hvalid hf, fun h0 => (htrace h0).snoc ⟨hf, hstep⟩⟩
    · exact ⟨revived + 1, hinvalid hf, fun h0 => absurd h0 (Nat.succ_ne_zero _)⟩

lemma restricted_balanced (h : Traces ((guardRuns root).restrict FromValid) ops t) : Balanced t 0 := by
  refine h.induction (I := fun _ t => Balanced t 0) ?_ ?_
  · rintro _ rfl
    exact balanced_start root
  · rintro ops s op t hb ⟨hf, hstep⟩
    exact (exec_balanced hstep hb).1 hf

end Runs

/-- In every run to the death of all guards, one guard is valid at a time and the next
event is started once just when no construction begins with an invalid guard. -/
theorem fires_once_iff {G : Type} [DecidableEq G] (root : G) {ops : List (Op G)} {t : Guards G}
    (h : Traces (guardRuns root) ops t) (hdone : ∀ g, t.guards g = none) :
    FiresOnce root ops t ↔ Traces ((guardRuns root).restrict FromValid) ops t := by
  constructor
  · intro hf
    obtain ⟨revived, hb, htrace⟩ := trace_balanced h
    have hnext := hb.done hdone
    rw [hf.once] at hnext
    exact htrace (by omega)
  · intro hr
    refine ⟨fun pre s hpre hs g g' hg hg' => ?_, fun pre op s s' _ _ hstep g fresh hop hv hv' => ?_,
      (restricted_balanced hr).done hdone, fun pre op s s' _ _ hstep hne => ?_⟩
    · have hpre' := @Traces.restrict_initial _ _ (guardRuns root) FromValid (fun _ _ h1 h2 => h1.trans h2.symm)
        (fun _ _ _ _ h1 h2 => Option.some.inj (h1.symm.trans h2)) _ _ _ _ hr hpre hs
      obtain ⟨valid, hmem, hcard⟩ := restricted_balanced hpre'
      exact Finset.card_le_one.mp (by omega) g ((hmem g).mpr hg) g' ((hmem g').mpr hg')
    · exact hv ((exec_construction hstep hop).valid.mp hv')
    · rcases op.cases with ⟨g, fresh, hop⟩ | ⟨g, rfl⟩
      · exact absurd (exec_construction hstep hop).nextEvents hne
      · rcases (exec_destroy hstep).2 with ⟨hv, -⟩ | ⟨-, heq⟩
        · exact ⟨g, rfl, hv⟩
        · exact absurd heq hne

/-- A copy, a move from the copy, and the deaths of all three. -/
def chain : List (Op ℕ) := [.copy 0 1, .move 1 2, .destroy 0, .destroy 2, .destroy 1]

/-- Two copies of one guard; the second one is made when the guard is invalid already. -/
def secondCopy : List (Op ℕ) := [.copy 0 1, .copy 0 2, .destroy 0, .destroy 1, .destroy 2]

/-- Where a run ends. -/
def endOf (ops : List (Op ℕ)) : Guards ℕ := (ops.foldlM exec (start 0)).getD (start 0)

lemma endOf_run {ops : List (Op ℕ)} (h : (ops.foldlM exec (start 0)).isSome) :
    Traces (guardRuns 0) ops (endOf ops) := by
  obtain ⟨t, ht⟩ := Option.isSome_iff_exists.mp h
  have hend : endOf ops = t := by rw [endOf, ht, Option.getD_some]
  rw [hend]
  exact @Traces.of_foldlM _ _ _ _ (fun _ _ _ h => h) [] _ _ _ (.nil rfl) ht

theorem fires_once_chain : FiresOnce 0 chain (endOf chain) := by
  have h0 : Traces ((guardRuns 0).restrict FromValid) [] (start 0) := .nil rfl
  have hdestroy : ∀ (s : Guards ℕ) (g : ℕ), FromValid s (.destroy g) := fun s g k fresh hop => by cases hop
  have h1 := @Traces.snoc _ _ _ _ (Op.copy 0 1) _ _ h0 ⟨fun g fresh hop => by cases hop; exact ⟨_, rfl, rfl⟩, rfl⟩
  have h2 := @Traces.snoc _ _ _ _ (Op.move 1 2) _ _ h1 ⟨fun g fresh hop => by cases hop; exact ⟨_, rfl, rfl⟩, rfl⟩
  have h3 := @Traces.snoc _ _ _ _ (Op.destroy 0) _ _ h2 ⟨hdestroy _ 0, rfl⟩
  have h4 := @Traces.snoc _ _ _ _ (Op.destroy 2) _ _ h3 ⟨hdestroy _ 2, rfl⟩
  have h5 := @Traces.snoc _ _ _ _ (Op.destroy 1) _ _ h4 ⟨hdestroy _ 1, rfl⟩
  refine (fires_once_iff 0 (endOf_run rfl) fun g => ?_).mpr h5
  rcases g with _ | _ | _ | g <;> rfl

/-- The second copy made the first guard valid again. -/
theorem secondCopy_fires_twice : Traces (guardRuns 0) secondCopy (endOf secondCopy) ∧
    (∀ g, (endOf secondCopy).guards g = none) ∧ (endOf secondCopy).nextEvents = 2 ∧
    ¬ FiresOnce 0 secondCopy (endOf secondCopy) := by
  refine ⟨endOf_run rfl, fun g => ?_, rfl, fun h => absurd h.once (by decide)⟩
  rcases g with _ | _ | _ | g <;> rfl

end TyphoonZero.EventGuard
