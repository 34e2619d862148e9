import TyphoonZero.CoordinateInvariant
import TyphoonZero.CoordinateOutcome
import TyphoonZero.CrossListCrossings

/-! What one update of an entity node does to the three lists, when the updates of its
watchers do not come back to the system. -/
namespace TyphoonZero.Coordinate
open Loop CrossList LinkedChain Transition

variable {P E α : Type} [DecidableEq P] [LinearOrder α]

omit [DecidableEq P] [LinearOrder α] in
/-- Updates of this node do not reach the system: it is in none, and so are its watchers. -/
inductive Outside (w : World P E α) : P → Prop
  | intro {q : P} (hptr : w.coordinateSystemPtr q = false)
    (hwatch : ∀ r, some r ∈ w.watcherNodes q → Outside w r) : Outside w q

/-- The nodes of the system are the same, and no watcher has come. -/
structure Shrinks (w v : World P E α) : Prop where
  ptr : v.coordinateSystemPtr = w.coordinateSystemPtr
  watchers : ∀ p, (v.watcherNodes p).Sublist (w.watcherNodes p)

/-- The lists are as they were, too. -/
structure Leaves (w v : World P E α) : Prop extends Shrinks w v where
  axis : v.axis = w.axis

section Leaves
omit [DecidableEq P] [LinearOrder α]
variable {u v w : World P E α} {p q : P}

lemma Shrinks.trans (h : Shrinks u v) (h' : Shrinks v w) : Shrinks u w :=
  ⟨h'.ptr.trans h.ptr, fun p => (h'.watchers p).trans (h.watchers p)⟩

lemma Leaves.of_fields (hptr : v.coordinateSystemPtr = w.coordinateSystemPtr) (haxis : v.axis = w.axis)
    (hwatch : v.watcherNodes = w.watcherNodes) : Leaves w v :=
  ⟨⟨hptr, fun p => by rw [hwatch]⟩, haxis⟩

lemma Leaves.trans (h : Leaves u v) (h' : Leaves v w) : Leaves u w :=
  ⟨h.toShrinks.trans h'.toShrinks, h'.axis.trans h.axis⟩

variable [DecidableEq P]

lemma storeOldRealPosition_leaves : Leaves w (w.storeOldRealPosition p) := .of_fields rfl rfl rfl

lemma beginUpdate_leaves : Leaves w (w.beginUpdate p) := .of_fields rfl rfl rfl

lemma endUpdate_leaves : Leaves w (w.endUpdate p) := by
  unfold World.endUpdate
  dsimp only
  split_ifs <;> exact .of_fields rfl rfl rfl

omit [DecidableEq P] in
lemma eraseDelWatchers_sublist (l : List (Option P)) (n : ℤ) : (World.eraseDelWatchers l n).1.Sublist l := by
  induction l generalizing n with
  | nil => exact List.Sublist.refl _
  | cons slot l ih =>
    cases slot with
    | none =>
      rw [World.eraseDelWatchers]
      split_ifs
      · exact List.sublist_cons_self none l
      · exact (ih _).cons none
    | some q => exact (ih n).cons_cons (some q)

lemma clearDelWatcherNodes_leaves : Leaves w (w.clearDelWatcherNodes p) := by
  unfold World.clearDelWatcherNodes
  split_ifs
  · exact .of_fields rfl rfl rfl
  · refine ⟨⟨rfl, fun q => ?_⟩, rfl⟩
    by_cases hq : q = p
    · subst hq
      simp [eraseDelWatchers_sublist]
    · simp [hq]
  · exact .of_fields rfl rfl rfl

end Leaves

section Updates
variable [OrderBot α] {v w : World P E α} {p q : P} {k fuel depth : ℕ}

/-- Fuel above `k` is enough for an update of `q`, which changes no list. -/
def Quiet (w : World P E α) (q : P) (k : ℕ) : Prop :=
  ∀ v, Shrinks w v → ∀ fuel depth,
    Safe .outOfFuel (k < fuel ∧ k < depth) (v.entityUpdate fuel depth q) (Leaves v)

def WatchersQuiet (w : World P E α) (p : P) (k : ℕ) : Prop := ∀ r, some r ∈ w.watcherNodes p → Quiet w r k

lemma Quiet.mono {k' : ℕ} (h : Quiet w q k) (hle : k ≤ k') : Quiet w q k' := fun v hv fuel depth =>
  (h v hv fuel depth).enough fun hlt => ⟨hle.trans_lt hlt.1, hle.trans_lt hlt.2⟩

/-- The loop over the watchers. -/
lemma watcherLoop_safe (hquiet : WatchersQuiet w p k) (hv : Shrinks w v) :
    Safe .outOfFuel ((k < fuel ∧ k < depth) ∧ (w.watcherNodes p).length < fuel)
      (whileExcept .outOfFuel (fun (i, w) =>
        match (w.watcherNodes p)[i]? with
        | none => .ok none
        | some none => .ok (some (i + 1, w))
        | some (some q) => (World.entityUpdate fuel depth q w).map fun w => some (i + 1, w)) fuel ((0 : ℕ), v))
      fun c => Leaves v c.2 := by
  refine whileExcept_safe_of (fun j c => Leaves v c.2 ∧ j = (w.watcherNodes p).length - c.1) ?_
    ⟨.of_fields rfl rfl rfl, rfl⟩
  rintro j ⟨i, u⟩ ⟨hu, rfl⟩
  dsimp only at hu ⊢
  have hsub := (hv.trans hu.toShrinks).watchers p
  cases hslot : (u.watcherNodes p)[i]? with
  | none => exact hu
  | some slot =>
    have hlt : i < (w.watcherNodes p).length :=
      (List.getElem?_eq_some_iff.mp hslot).1.trans_le hsub.length_le
    have hless : (w.watcherNodes p).length - (i + 1) < (w.watcherNodes p).length - i := by omega
    cases slot with
    | none => exact ⟨_, hless, hu, rfl⟩
    | some r =>
      have hr : some r ∈ w.watcherNodes p := hsub.subset (List.mem_of_getElem? hslot)
      exact (hquiet r hr u (hv.trans hu.toShrinks) fuel depth).map fun u' hu' => ⟨_, hless, hu.trans hu', rfl⟩

/-- An update whose watchers are quiet leaves the lists as the update of the node itself does. -/
lemma entityUpdate_rest {e : Prop} {Q : World P E α → Prop}
    (hnode : Safe .outOfFuel e ((v.storeOldRealPosition p).nodeUpdate fuel p) Q)
    (hquiet : WatchersQuiet w p k) (hQ : ∀ v₁, Q v₁ → Shrinks w v₁) :
    Safe .outOfFuel (e ∧ k < fuel ∧ k < depth ∧ (w.watcherNodes p).length < fuel)
      (v.entityUpdate fuel (depth + 1) p) fun v' => ∃ v₁, Q v₁ ∧ Leaves v₁ v' := by
  unfold World.entityUpdate
  refine (hnode.enough And.left).bind fun v₁ hv₁ => ?_
  have hbegin := (hQ v₁ hv₁).trans (@beginUpdate_leaves _ _ _ v₁ p _).toShrinks
  refine ((watcherLoop_safe hquiet hbegin).enough fun h => ?_).bind fun c hc => ?_
  · exact ⟨⟨h.2.1, h.2.2.1⟩, h.2.2.2⟩
  · exact ⟨v₁, hv₁, ((beginUpdate_leaves.trans hc).trans endUpdate_leaves).trans clearDelWatcherNodes_leaves⟩

/-- One bound for all watchers. -/
lemma watchersQuiet_of_bounds (h : ∀ r, some r ∈ w.watcherNodes p → ∃ k, Quiet w r k) :
    ∃ k, WatchersQuiet w p k := by
  have hbound : ∀ L : List (Option P), (∀ r, some r ∈ L → ∃ k, Quiet w r k) →
      ∃ k, ∀ r, some r ∈ L → Quiet w r k := by
    intro L
    induction L with
    | nil => exact fun _ => ⟨0, nofun⟩
    | cons slot L ih =>
      intro hL
      obtain ⟨k, hk⟩ := ih fun r hr => hL r (List.mem_cons_of_mem slot hr)
      cases slot with
      | none => exact ⟨k, fun r hr => hk r ((List.mem_cons.mp hr).resolve_left nofun)⟩
      | some q =>
        obtain ⟨k', hk'⟩ := hL q List.mem_cons_self
        refine ⟨max k k', fun r hr => ?_⟩
        rcases List.mem_cons.mp hr with heq | hr
        · obtain rfl := Option.some.inj heq
          exact hk'.mono (le_max_right k k')
        · exact (hk r hr).mono (le_max_left k k')
  exact hbound _ h

/-- A node outside comes to the end of its update and changes no list. -/
lemma Outside.quiet (h : Outside w q) : ∃ k, Quiet w q k := by
  induction h with
  | @intro q hptr hwatch ih =>
    obtain ⟨k, hk⟩ := watchersQuiet_of_bounds ih
    refine ⟨max (k + 1) (w.watcherNodes q).length, fun v hv fuel depth => ?_⟩
    cases depth with
    | zero => exact ⟨rfl, fun hlt => Nat.not_lt_zero _ hlt.2⟩
    | succ depth =>
      have hnode : Safe .outOfFuel True ((v.storeOldRealPosition q).nodeUpdate fuel q) (Leaves v) := by
        have hout : (v.storeOldRealPosition q).coordinateSystemPtr q = false := by
          rw [← hptr, ← hv.ptr]
          rfl
        unfold World.nodeUpdate
        rw [if_neg (by rw [hout]; exact Bool.false_ne_true)]
        exact storeOldRealPosition_leaves
      have hrest := @entityUpdate_rest _ _ _ _ _ _ v w q k fuel depth _ _ hnode hk
        fun v₁ hv₁ => hv.trans hv₁.toShrinks
      refine (hrest.enough fun hlt => ?_).weaken fun v' hv' => ?_
      · exact ⟨trivial, by omega, by omega, by omega⟩
      · obtain ⟨v₁, hv₁, hv'⟩ := hv'
        exact hv₁.trans hv'

end Updates

/-- One update of an entity node in a system whose lists are linked and sorted: on every
axis the crossings are exact. Its watchers are updated as well, and do not come back to
the system. It ends when all lists link the nodes of the first one. -/
theorem entityUpdate_crossings [OrderBot α] {w : World P E α} {n : P} {X : Axis → List P}
    (hlinked : ∀ a, (w.axis a).Linked (X a)) (hsorted : ∀ a, Sorted (w.axis a).pos (X a))
    (hn : ∀ a, n ∈ X a) (hptr : w.coordinateSystemPtr n = true)
    (hout : ∀ q, some q ∈ w.watcherNodes n → Outside w q) :
    (∀ fuel w', w.entityUpdate fuel fuel n = .ok w' → ∀ a, ∃ cs L',
      Crossings w.flagView n (w.getReal n a) (X a) (w.axis a) (w'.axis a) cs L') ∧
    ((∀ a, ∀ p ∈ X .x, p ∈ X a) → ∃ k, ∀ fuel, k < fuel → ∃ w', w.entityUpdate fuel fuel n = .ok w') := by
  choose k hk using fun a => update_crossings (hlinked a) (hsorted a) (hn a) w.flagView (w.getReal n a)
  obtain ⟨m, hquiet⟩ := watchersQuiet_of_bounds fun q hq => (hout q hq).quiet
  have hsafe : ∀ fuel depth, Safe .outOfFuel (((∀ a, k a < fuel) ∧ (∀ a, ∀ p ∈ X .x, p ∈ X a) ∧
      ∀ a, (X a).length ≤ fuel) ∧ m < fuel ∧ m < depth ∧ (w.watcherNodes n).length < fuel)
      (w.entityUpdate fuel (depth + 1) n) fun w' => ∀ a, ∃ cs L',
        Crossings w.flagView n (w.getReal n a) (X a) (w.axis a) (w'.axis a) cs L' := by
    intro fuel depth
    have hnode : Safe .outOfFuel ((∀ a, k a < fuel) ∧ (∀ a, ∀ p ∈ X .x, p ∈ X a) ∧ ∀ a, (X a).length ≤ fuel)
        ((w.storeOldRealPosition n).nodeUpdate fuel n) fun v =>
        (∀ a, ∃ cs L', Crossings w.flagView n (w.getReal n a) (X a) (w.axis a) (v.axis a) cs L') ∧
          Shrinks w v := by
      have hin : (w.storeOldRealPosition n).coordinateSystemPtr n = true := hptr
      unfold World.nodeUpdate
      rw [if_pos hin]
      have haxes : ∀ a, Safe .outOfFuel (∀ a, k a < fuel) (((w.storeOldRealPosition n).axis a).update
          (w.storeOldRealPosition n).flagView true fuel n ((w.storeOldRealPosition n).getReal n a)
          ((w.storeOldRealPosition n).oldRealPosition a n)) fun l' =>
            ∃ cs L', Crossings w.flagView n (w.getReal n a) (X a) (w.axis a) l' cs L' := by
        intro a
        have hold : (w.storeOldRealPosition n).oldRealPosition a n = (w.axis a).pos n := Function.update_self ..
        rw [hold]
        exact (hk a fuel).enough fun hlt => hlt a
      refine ((mapAxes_safe haxes).enough And.left).bind fun v hv => ?_
      choose cs L' hcrossed using hv.1
      -- every list links the nodes that it has linked before
      have hperm : ∀ a, (L' a).Perm (X a) := fun a => (hcrossed a).swaps.perm
      have hlinked' : ∀ a, ((v.resetOldRealXYZ n).axis a).Linked (L' a) := fun a => (hcrossed a).linked
      have hne : L' .x ≠ [] := List.ne_nil_of_mem ((hperm .x).mem_iff.mpr (hn .x))
      refine ((debug_safe hlinked' hne fuel).enough fun h => ?_).bind fun _ _ => ?_
      · refine ⟨fun a p hp => (hperm a).mem_iff.mpr (h.2.1 a p ((hperm .x).mem_iff.mp hp)), fun a => ?_⟩
        rw [(hperm a).length_eq]
        exact h.2.2 a
      · refine ⟨hv.1, ?_⟩
        rw [resetOldRealXYZ_eq, hv.2]
        exact ⟨rfl, fun _ => List.Sublist.refl _⟩
    refine (entityUpdate_rest hnode hquiet fun v hv => hv.2).weaken fun w' hw' => ?_
    obtain ⟨v, hv, hleaves⟩ := hw'
    rw [hleaves.axis]
    exact hv.1
  constructor
  · intro fuel w' hok
    cases fuel with
    | zero => cases hok
    | succ d => exact (hsafe (d + 1) d).of_eq_ok hok
  · intro hsame
    refine ⟨(k .x + k .y + k .z) + ((X .x).length + (X .y).length + (X .z).length) + m +
      (w.watcherNodes n).length + 1, fun fuel hfuel => ?_⟩
    obtain ⟨d, rfl⟩ : ∃ d, fuel = d + 1 := ⟨fuel - 1, by omega⟩
    obtain ⟨w', hok, -⟩ := (hsafe (d + 1) d).exists_ok
      ⟨⟨fun a => by cases a <;> omega, hsame, fun a => by cases a <;> omega⟩, by omega, by omega, by omega⟩
    exact ⟨w', hok⟩

/-- Three nodes in one line; the entity of the first one has gone ahead of the others. -/
def line : World UInt64 UInt64 ℕ where
  axis _ :=
    { first := some 1
      prev := fun p => if p = 2 then some 1 else if p = 3 then some 2 else none
      next := fun p => if p = 1 then some 2 else if p = 2 then some 3 else none
      pos := UInt64.toNat }
  oldRealPosition _ := UInt64.toNat
  entityPtr := some
  entityPosition p _ := if p = 1 then 5 else p.toNat
  flags _ := kCoordinateNodeFlagEntity
  coordinateSystemPtr _ := true
  watcherNodes _ := []
  deleteWatcherNodeNum _ := 0
  entityNodeUpdating _ := 0
  size := 3
  delsCount := 0
  dels := []

lemma line_linked (a : Axis) : (line.axis a).Linked [1, 2, 3] := by
  refine ⟨by decide, rfl, fun A x B hs => ?_, fun A x B hs => ?_⟩
  all_goals
    rcases A with _ | ⟨c, _ | ⟨d, _ | ⟨e, A⟩⟩⟩
    · obtain ⟨rfl, rfl⟩ := List.cons.inj hs
      rfl
    · obtain ⟨rfl, htail⟩ := List.cons.inj hs
      obtain ⟨rfl, rfl⟩ := List.cons.inj htail
      rfl
    · obtain ⟨rfl, htail⟩ := List.cons.inj hs
      obtain ⟨rfl, hlast⟩ := List.cons.inj htail
      obtain ⟨rfl, rfl⟩ := List.cons.inj hlast
      rfl
    · have hlen := congrArg List.length hs
      simp at hlen

/-- The first node passes each of the others once. -/
theorem entityUpdate_crossings_three : ∃ k, ∀ fuel, k < fuel → ∃ w', line.entityUpdate fuel fuel 1 = .ok w' ∧
    ∀ a, ∃ cs L', Crossings line.flagView 1 5 [1, 2, 3] (line.axis a) (w'.axis a) cs L' ∧
      cs.count 2 = 1 ∧ cs.count 3 = 1 := by
  obtain ⟨hcrossings, hends⟩ := @entityUpdate_crossings _ _ _ _ _ _ line 1 (fun _ => [1, 2, 3]) line_linked
    (fun _ => show Sorted UInt64.toNat [1, 2, 3] by decide) (fun _ => List.mem_cons_self) rfl
    fun q hq => absurd hq List.not_mem_nil
  obtain ⟨k, hk⟩ := hends fun _ p hp => hp
  refine ⟨k, fun fuel hf => ?_⟩
  obtain ⟨w', hok⟩ := hk fuel hf
  refine ⟨w', hok, fun a => ?_⟩
  obtain ⟨cs, L', hc⟩ := hcrossings fuel w' hok a
  have hreal : line.getReal 1 a = 5 := by cases a <;> rfl
  rw [hreal] at hc
  have hbetween : ∀ c : UInt64, c ∈ [1, 2, 3] → min 1 5 < c.toNat → c.toNat < max 1 5 → cs.count c = 1 := hc.between
  exact ⟨cs, L', hc, hbetween 2 (by decide) (by decide) (by decide), hbetween 3 (by decide) (by decide) (by decide)⟩

end TyphoonZero.Coordinate
