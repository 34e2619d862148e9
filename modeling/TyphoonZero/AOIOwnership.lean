import TyphoonZero.AOIRun
import TyphoonZero.CrossListDrop

/-! The nodes that the AOI manager owns: from `Insert` until they are deleted, by `ReleaseNodes` or
by the destructor of the manager. -/
namespace TyphoonZero.AOI
open Loop LinkedChain CrossList Transition

/-- A `delete` statement that was executed: the node, and the manager right before it. -/
structure Deletion (α : Type) where
  node : Node
  world : World α

/-- The manager with the history of its nodes. `released` were deleted by `ReleaseNodes`, `dropped`
by the loop of the destructor. -/
structure Heap (α : Type) where
  world : World α
  inserted : List Node
  released : List (Deletion α)
  dropped : List (Deletion α)
  ended : Bool

section Definitions
variable {α : Type}

/-- A list head or a neighbour refers to the node. -/
def World.Referenced (w : World α) (p : Node) : Prop :=
  ∃ a, (w.axis a).first = some p ∨ ∃ q, (w.axis a).prev q = some p ∨ (w.axis a).next q = some p

/-- What `~AOINode` asserts. -/
structure World.Detached (w : World α) (p : Node) : Prop where
  axis : ∀ a, (w.axis a).prev p = none ∧ (w.axis a).next p = none
  aoiMgr : w.aoiMgr p = false

/-- The pointers that the destructor clears before it deletes the node. -/
def World.detach (w : World α) (p : Node) : World α :=
  { w with
    axis := dropLinks w.axis p
    aoiMgr := Function.update w.aoiMgr p false }

namespace Heap
variable (h : Heap α)

def deletions (p : Node) : ℕ :=
  (h.released.map Deletion.node).count p + (h.dropped.map Deletion.node).count p

/-- A node that was inserted and not deleted since. -/
def Owned (p : Node) : Prop := h.deletions p < h.inserted.count p

def releaseNode (p : Node) : Except Fault (Heap α) := do
  let w ← h.world.deleteNode p
  pure { h with world := w, released := ⟨p, h.world⟩ :: h.released }

def releaseNodes : Except Fault (Heap α) := do
  let w ← h.world.removeDelNodes
  let h ← w.releases.foldlM (fun (h : Heap α) p => h.releaseNode p) { h with world := w }
  pure { h with world := { h.world with releases := [] } }

/-- One round of the loop of `~AOIMgr`. -/
def dropNode (p : Node) : Except Fault (Heap α) := do
  let w ← (h.world.detach p).deleteNode p
  pure { h with world := w, dropped := ⟨p, h.world.detach p⟩ :: h.dropped }

def dropStep : Option Node × Heap α → Except Fault (Option (Option Node × Heap α))
  | (none, _) => .ok none
  | (some p, h) => do
    let next := (h.world.axis .x).next p
    let h ← h.dropNode p
    pure (some (next, h))

def dropNodes (fuel : ℕ) : Except Fault (Heap α) :=
  match (h.world.axis .x).first with
  | none => .ok h
  | some first => do
    let (_, h) ← whileExcept .outOfFuel dropStep fuel (some first, h)
    pure { h with world := { h.world with axis := fun a => { h.world.axis a with first := none } } }

/-- `~AOIMgr`. -/
def destroy (fuel : ℕ) : Except Fault (Heap α) := do
  let h ← Heap.dropNodes { h with world := { h.world with dels := [], delsCount := 0 } } fuel
  h.releaseNodes

variable [LinearOrder α] [OrderBot α]

def exec (fuel : ℕ) : Op α → Except Fault (Heap α)
  | .insert p =>
    (h.world.insert fuel p).map fun w => { h with world := w, inserted := p :: h.inserted }
  | .releaseNodes => h.releaseNodes
  | op => (h.world.exec fuel op).map fun w => { h with world := w }

end Heap

/-- A node is inserted once, removed while the manager owns it, and not used after it is deleted. -/
def Op.Proper (h : Heap α) : Op α → Prop
  | .construct p _ _ => h.world.alive p = false
  | .setExt p _ => h.world.alive p = true
  | .insert p => h.world.alive p = true ∧ ¬ h.Owned p
  | .update p => h.world.alive p = true
  | .remove p => h.Owned p
  | .removeDelNodes => True
  | .releaseNodes => True

inductive HeapOp (α : Type)
  | manager (op : Op α)
  | destroy

variable [LinearOrder α] [OrderBot α]

def Heap.step (h : Heap α) : HeapOp α → Heap α → Prop
  | .manager op, h' => h.ended = false ∧ op.Proper h ∧ ∃ fuel, h.exec fuel op = .ok h'
  | .destroy, h' => h.ended = false ∧ ∃ fuel v, h.destroy fuel = .ok v ∧ h' = { v with ended := true }

def heapRuns (α : Type) [LinearOrder α] [OrderBot α] : System (Heap α) (HeapOp α) where
  init h := h.world.Fresh ∧ h.inserted = [] ∧ h.released = [] ∧ h.dropped = [] ∧ h.ended = false
  step := Heap.step

end Definitions

section Release
variable {α : Type}

/-- `ReleaseNodes` does to the manager what it does without the history. -/
theorem releaseNodes_world (h : Heap α) :
    h.releaseNodes.map Heap.world = h.world.releaseNodes := by
  have hfold : ∀ (ds : List Node) (h : Heap α),
      (ds.foldlM (fun (h : Heap α) p => h.releaseNode p) h).map Heap.world =
        ds.foldlM (fun (w : World α) p => w.deleteNode p) h.world := by
    intro ds
    induction ds with
    | nil =>
      intro h
      rfl
    | cons p ds ih =>
      intro h
      rw [List.foldlM_cons, List.foldlM_cons]
      unfold Heap.releaseNode
      cases h.world.deleteNode p with
      | error e => rfl
      | ok w => exact ih _
  unfold Heap.releaseNodes World.releaseNodes
  cases h.world.removeDelNodes with
  | error e => rfl
  | ok w =>
    have hw := hfold w.releases { h with world := w }
    simp only [bind, Except.bind, pure, Except.pure] at hw ⊢
    rw [← hw]
    cases w.releases.foldlM (fun (h : Heap α) p => h.releaseNode p) { h with world := w } with
    | error e => rfl
    | ok h' => rfl

end Release

section Manager
variable {α : Type} {w w' : World α} {R : List Node} {p q : Node}

/-- The manager and the released nodes `R` that are still to be deleted. -/
structure OwnInv (w : World α) (R : List Node) : Prop where
  axis : ∀ a, ∃ L, ListInv (w.axis a) w.linked L
  delsCount : w.delsCount = UInt64.ofNat w.dels.length
  delsNodup : w.dels.Nodup
  dels : ∀ p ∈ w.dels, p ∈ w.linked ∨ p ∈ R
  nodup : R.Nodup
  unlinked : ∀ p ∈ R, p ∉ w.linked
  alive : ∀ p, p ∈ w.linked ∨ p ∈ R → w.alive p = true

lemma OwnInv.detached (h : OwnInv w R) (hp : p ∉ w.linked) : w.Detached p := by
  refine ⟨fun a => ?_, Bool.eq_false_of_not_eq_true hp⟩
  obtain ⟨L, hL⟩ := h.axis a
  exact hL.detached p hp

lemma OwnInv.not_referenced (h : OwnInv w R) (hp : p ∉ w.linked) : ¬ w.Referenced p := by
  rintro ⟨a, href⟩
  obtain ⟨L, hL⟩ := h.axis a
  obtain ⟨hfirst, hnode⟩ := hL.unreferenced hp
  obtain hf | ⟨q, hq | hq⟩ := href
  · exact hfirst hf
  · exact (hnode q).1 hq
  · exact (hnode q).2 hq

/-- Only the order of the lists has changed. -/
lemma OwnInv.congr (h : OwnInv w R) (haxis : ∀ a, ∃ L, ListInv (w'.axis a) w.linked L)
    (haoi : w'.aoiMgr = w.aoiMgr) (halive : w'.alive = w.alive) (hdels : w'.dels = w.dels)
    (hcount : w'.delsCount = w.delsCount) : OwnInv w' R := by
  have hlinked : w'.linked = w.linked := by
    unfold World.linked
    rw [haoi]
  constructor
  · rw [hlinked]
    exact haxis
  · rw [hcount, hdels]
    exact h.delsCount
  · rw [hdels]
    exact h.delsNodup
  · rw [hdels, hlinked]
    exact h.dels
  · exact h.nodup
  · rw [hlinked]
    exact h.unlinked
  · rw [hlinked, halive]
    exact h.alive

lemma fresh_owned (h : w.Fresh) : OwnInv w w.releases := by
  have hlinked : ∀ p, p ∉ w.linked := by
    intro p hp
    have haoi : w.aoiMgr p = true := hp
    rw [h.aoiMgr p] at haoi
    cases haoi
  refine ⟨fun a => ⟨[], ⟨List.nodup_nil, (h.axis a).1, ?_, ?_⟩, fun p => ?_, fun p _ => (h.axis a).2 p⟩,
    ?_, ?_, ?_, ?_, fun p _ => hlinked p, ?_⟩
  · intro A x B hs
    simp at hs
  · intro A x B hs
    simp at hs
  · simp [hlinked p]
  · simp [h.delsCount, h.dels]
  · simp [h.dels]
  · simp [h.dels]
  · simp [h.releases]
  · simp [hlinked, h.releases]

lemma construct_owned [LinearOrder α] [OrderBot α] (h : OwnInv w R) (hp : w.alive p = false) (v : Axis → α)
    (flags : UInt32) : OwnInv (w.construct p v flags) R := by
  have hdead : ∀ q, q ∈ w.linked ∨ q ∈ R → q ≠ p := by
    rintro q hq rfl
    rw [h.alive q hq] at hp
    cases hp
  have hunlinked : p ∉ w.linked := fun hl => hdead p (.inl hl) rfl
  have hlinked : (w.construct p v flags).linked = w.linked := by
    have hfalse : w.aoiMgr p = false := Bool.eq_false_of_not_eq_true hunlinked
    have hkeep : (w.construct p v flags).aoiMgr = w.aoiMgr :=
      Function.update_eq_self_iff.mpr hfalse.symm
    unfold World.linked
    rw [hkeep]
  refine ⟨fun a => ?_, h.delsCount, h.delsNodup, ?_, h.nodup, ?_, fun q hq => ?_⟩
  · obtain ⟨L, hL⟩ := h.axis a
    rw [hlinked]
    unfold World.construct
    dsimp only
    rw [hL.resetPtr_eq hunlinked]
    exact ⟨L, hL.linked, hL.mem, hL.detached⟩
  · rw [hlinked]
    exact h.dels
  · rw [hlinked]
    exact h.unlinked
  · rw [hlinked] at hq
    have hqp := hdead q hq
    have hkeep : (w.construct p v flags).alive q = w.alive q := Function.update_of_ne hqp ..
    rw [hkeep]
    exact h.alive q hq

section Moves
variable [LinearOrder α]

lemma update_owned (haxis : ∀ a, ∃ L, ListInv (w.axis a) w.linked L) (hne : w.linked.Nonempty) (fuel : ℕ)
    (p : Node) : Safe .outOfFuel (w.linked.ncard < fuel) (w.update fuel p) fun w' =>
      (∀ a, ∃ L, ListInv (w'.axis a) w.linked L) ∧
        w' = { w with axis := w'.axis, oldExt := w'.oldExt } := by
  have hlist : ∀ a, Safe .outOfFuel (w.linked.ncard < fuel)
      ((w.axis a).update w.flagView false fuel p (w.ext p a) (w.oldExt a p))
      fun l' => ∃ L', ListInv l' w.linked L' := by
    intro a
    obtain ⟨L, hL⟩ := haxis a
    rw [hL.ncard]
    exact hL.update w.flagView false fuel p _ _
  refine (update_axes_safe hlist (fun _ _ h => h) hne fun hlt => hlt.le).weaken fun w' hw' => ?_
  obtain ⟨hlist, hrest⟩ := hw'
  refine ⟨hlist, ?_⟩
  rw [hrest]

variable [OrderBot α]

lemma remove_owned (h : OwnInv w R) (hp : p ∈ w.linked ∨ p ∈ R) (hne : w.linked.Nonempty) (fuel : ℕ) :
    Safe .outOfFuel (w.linked.ncard < fuel) (w.remove fuel p) fun w' =>
      OwnInv w' R ∧ w'.aoiMgr = w.aoiMgr ∧ w'.releases = w.releases := by
  have haxis := onRemove_listInv h.axis p
  unfold World.remove
  refine (@update_owned _ ((w.addFlag p kAOINodeFlagRemoving).onRemove p) _ haxis hne fuel p).bind
    fun v hv => ?_
  obtain ⟨hlist, hrest⟩ := hv
  have hfields : v.aoiMgr = w.aoiMgr ∧ v.alive = w.alive ∧ v.dels = w.dels ∧
      v.delsCount = w.delsCount ∧ v.releases = w.releases := by
    rw [hrest]
    exact ⟨rfl, rfl, rfl, rfl, rfl⟩
  obtain ⟨haoi, halive, hdels, hcount, hrel⟩ := hfields
  have hown : OwnInv (v.addFlag p kAOINodeFlagRemoved) R := h.congr hlist haoi halive hdels hcount
  have hlinked : v.linked = w.linked := by
    unfold World.linked
    rw [haoi]
  dsimp only
  split_ifs with hmem
  · exact ⟨hown, haoi, hrel⟩
  · refine ⟨⟨hown.axis, ?_, ?_, fun q hq => ?_, hown.nodup, hown.unlinked, hown.alive⟩, haoi, hrel⟩
    · rw [List.length_append, UInt64.ofNat_add, hown.delsCount]
      rfl
    · exact List.nodup_append.mpr ⟨hown.delsNodup, List.nodup_singleton p, fun a ha b hb he =>
        hmem (List.mem_singleton.mp hb ▸ he ▸ ha)⟩
    · obtain hq | hq := List.mem_append.mp hq
      · exact hown.dels q hq
      · have hheld : p ∈ v.linked ∨ p ∈ R := hlinked ▸ hp
        rw [List.mem_singleton.mp hq]
        exact hheld

omit [LinearOrder α] [OrderBot α] in
/-- A new node joins the linked ones; the pending lists stay. -/
lemma OwnInv.inserted (h : OwnInv w R) (halive : w.alive p = true) (hR : p ∉ R) {v : World α}
    (haxis : ∀ a, ∃ L, ListInv (v.axis a) (Set.insert p w.linked) L)
    (haoi : v.aoiMgr = Function.update w.aoiMgr p true) (hkeep : v.alive = w.alive)
    (hdels : v.dels = w.dels) (hcount : v.delsCount = w.delsCount) : OwnInv v R := by
  have hlinked : v.linked = Set.insert p w.linked := linked_insert haoi
  constructor
  · rw [hlinked]
    exact haxis
  · rw [hcount, hdels]
    exact h.delsCount
  · rw [hdels]
    exact h.delsNodup
  · intro q hq
    rw [hdels] at hq
    rw [hlinked]
    exact (h.dels q hq).imp .inr id
  · exact h.nodup
  · intro q hq hl
    rw [hlinked] at hl
    obtain rfl | hl := hl
    · exact hR hq
    · exact h.unlinked q hq hl
  · intro q hq
    rw [hkeep]
    rw [hlinked] at hq
    obtain (rfl | hq) | hq := hq
    · exact halive
    · exact h.alive q (.inl hq)
    · exact h.alive q (.inr hq)

omit [LinearOrder α] [OrderBot α] in
lemma OwnInv.first_eq_none_iff (h : OwnInv w R) (a : Axis) :
    (w.axis a).first = none ↔ w.linked = ∅ := by
  obtain ⟨L, hL⟩ := h.axis a
  exact hL.first_eq_none_iff

lemma insert_owned (h : OwnInv w R) (halive : w.alive p = true) (hp : p ∉ w.linked) (hR : p ∉ R)
    (fuel : ℕ) :
    Safe .outOfFuel (w.linked.ncard + 1 < fuel) (w.insert fuel p) fun w' =>
      OwnInv w' R ∧ w'.aoiMgr = Function.update w.aoiMgr p true ∧ w'.releases = w.releases := by
  unfold World.insert
  split_ifs with hfirst
  · simp only [World.isEmpty, Bool.and_eq_true, Option.isNone_iff_eq_none] at hfirst
    have hl := (h.first_eq_none_iff .x).mp hfirst.1.1
    refine ⟨h.inserted halive hR (fun a => ?_) rfl rfl rfl rfl, rfl, rfl⟩
    obtain ⟨L, hL⟩ := h.axis a
    obtain rfl := hL.eq_nil_iff.mpr hl
    exact ⟨[p], hL.singleton p (w.ext p a)⟩
  · have hne : w.linked ≠ ∅ := by
      intro hl
      apply hfirst
      simp only [World.isEmpty, (h.first_eq_none_iff _).mpr hl]
      rfl
    have hpush : ∀ a, Safe .outOfFuel (w.linked.ncard + 1 < fuel)
        (((w.setOldExt p fun _ => ⊥).axis a).pushFirst p)
        fun l' => ∃ L, ListInv l' (Set.insert p w.linked) L := by
      intro a
      obtain ⟨L, hL⟩ := h.axis a
      cases L with
      | nil => exact absurd ((h.first_eq_none_iff a).mp hL.linked.first) hne
      | cons f L =>
        obtain ⟨l', hl', hinv, -⟩ := hL.push hp
        have haxis : (w.setOldExt p fun _ => ⊥).axis a = w.axis a := rfl
        rw [haxis, hl']
        exact ⟨_, hinv⟩
    refine (mapAxes_safe hpush).bind fun w₁ hw₁ => ?_
    obtain ⟨hlist, hrest⟩ := hw₁
    have haoi : Function.update w₁.aoiMgr p true = Function.update w.aoiMgr p true := by
      rw [hrest]
      rfl
    let w₂ : World α := { w₁ with aoiMgr := Function.update w₁.aoiMgr p true, size := w₁.size + 1 }
    have hlinked : w₂.linked = Set.insert p w.linked := linked_insert haoi
    have hfinite : w.linked.Finite := by
      obtain ⟨L, hL⟩ := h.axis .x
      exact L.finite_toSet.subset fun q hq => (hL.mem q).mpr hq
    have hcard : w₂.linked.ncard = w.linked.ncard + 1 := by
      rw [hlinked]
      exact Set.ncard_insert_of_notMem hp hfinite
    rw [← hcard]
    have hne₂ : w₂.linked.Nonempty := by
      rw [hlinked]
      exact ⟨p, Set.mem_insert p _⟩
    refine (update_owned (w := w₂) (fun a => hlinked ▸ hlist a) hne₂ fuel p).weaken fun v hv => ?_
    obtain ⟨hlist', hrest'⟩ := hv
    rw [hlinked] at hlist'
    have hfields : v.aoiMgr = Function.update w.aoiMgr p true ∧ v.alive = w.alive ∧
        v.dels = w.dels ∧ v.delsCount = w.delsCount ∧ v.releases = w.releases := by
      rw [hrest']
      refine ⟨haoi, ?_, ?_, ?_, ?_⟩ <;> dsimp only [w₂] <;> rw [hrest] <;> rfl
    obtain ⟨haoi', halive', hdels, hcount, hrel⟩ := hfields
    exact ⟨h.inserted halive hR hlist' haoi' halive' hdels hcount, haoi', hrel⟩

end Moves

/-- The nodes that are linked or wait in `releases_`. -/
def World.Held (w : World α) (R : List Node) (p : Node) : Prop := w.aoiMgr p = true ∨ p ∈ R

lemma removeReal_owned (h : OwnInv w w.releases) (p : Node) :
    Safe .outOfFuel True (w.removeReal p) fun w' =>
      OwnInv w' w'.releases ∧ ∀ q, w'.Held w'.releases q ↔ w.Held w.releases q := by
  unfold World.removeReal
  split_ifs with hmgr
  · exact ⟨h, fun _ => Iff.rfl⟩
  have hlive : p ∈ w.linked := Bool.eq_true_of_not_eq_false hmgr
  have hunlink : ∀ a, Safe .outOfFuel True (((w.axis a).unlink p).map fun l => l.resetPtr p)
      fun l' => ∃ L, ListInv l' (w.linked \ {p}) L := by
    intro a
    obtain ⟨L, hL⟩ := h.axis a
    obtain ⟨F, G, rfl⟩ := List.append_of_mem ((hL.mem p).mpr hlive)
    obtain ⟨l', hl', hinv, -⟩ := hL.unlink
    rw [hl']
    exact ⟨F ++ G, hinv⟩
  refine (mapAxes_safe hunlink).bind fun v hv => ?_
  obtain ⟨hlist, hrest⟩ := hv
  let t : World α := { v with
    aoiMgr := Function.update v.aoiMgr p false, releases := v.releases ++ [p], size := v.size - 1 }
  have hfields : t.aoiMgr = Function.update w.aoiMgr p false ∧ t.alive = w.alive ∧ t.dels = w.dels ∧
      t.delsCount = w.delsCount ∧ t.releases = w.releases ++ [p] := by
    dsimp only [t]
    rw [hrest]
    exact ⟨rfl, rfl, rfl, rfl, rfl⟩
  obtain ⟨haoi, halive, hdels, hcount, hrel⟩ := hfields
  have hlinked : t.linked = w.linked \ {p} := linked_erase haoi
  have hheld : ∀ q, t.Held t.releases q ↔ w.Held w.releases q := by
    intro q
    have hmem : q ∈ t.linked ↔ q ∈ w.linked ∧ q ≠ p := by
      rw [hlinked]
      rfl
    have hreleased : q ∈ t.releases ↔ q ∈ w.releases ∨ q = p := by
      rw [hrel, List.mem_append, List.mem_singleton]
    have hqp : q = p → q ∈ w.linked := fun hq => hq ▸ hlive
    exact ⟨fun ht => ht.elim (fun ht => .inl (hmem.mp ht).1) fun ht =>
      (hreleased.mp ht).elim .inr fun hq => .inl (hqp hq), fun hw => by
        by_cases hq : q = p
        · exact .inr (hreleased.mpr (.inr hq))
        · exact hw.imp (fun hw => hmem.mpr ⟨hw, hq⟩) fun hw => hreleased.mpr (.inl hw)⟩
  refine ⟨⟨fun a => ?_, ?_, ?_, fun q hq => ?_, ?_, fun q hq => ?_, fun q hq => ?_⟩, hheld⟩
  · rw [hlinked]
    exact hlist a
  · rw [hcount, hdels]
    exact h.delsCount
  · rw [hdels]
    exact h.delsNodup
  · rw [hdels] at hq
    exact (hheld q).mpr (h.dels q hq)
  · rw [hrel]
    exact List.nodup_append.mpr ⟨h.nodup, List.nodup_singleton p, fun a ha b hb he =>
      h.unlinked a ha (he ▸ List.mem_singleton.mp hb ▸ hlive)⟩
  · rw [hlinked]
    rw [hrel] at hq
    obtain hq | hq := List.mem_append.mp hq
    · exact fun hm => h.unlinked q hq hm.1
    · exact fun hm => hm.2 (List.mem_singleton.mp hq)
  · rw [halive]
    exact h.alive q ((hheld q).mp hq)

lemma removeDelNodes_owned (h : OwnInv w w.releases) :
    Safe .outOfFuel True w.removeDelNodes fun w' =>
      OwnInv w' w'.releases ∧ w'.dels = [] ∧
        ∀ q, w'.Held w'.releases q ↔ w.Held w.releases q := by
  unfold World.removeDelNodes
  split_ifs with hzero
  · exact ⟨h, ofNat_length_eq_zero h.delsNodup (h.delsCount ▸ hzero), fun _ => Iff.rfl⟩
  have hfold : ∀ (ds : List Node) (v : World α), OwnInv v v.releases →
      Safe .outOfFuel True (ds.foldlM (fun (v : World α) p => v.removeReal p) v) fun w' =>
        OwnInv w' w'.releases ∧ ∀ q, w'.Held w'.releases q ↔ v.Held v.releases q := by
    intro ds
    induction ds with
    | nil =>
      intro v h
      exact ⟨h, fun _ => Iff.rfl⟩
    | cons d ds ih =>
      intro v h
      rw [List.foldlM_cons]
      refine (removeReal_owned h d).bind fun t ht => ?_
      exact (ih t ht.1).weaken fun w' hw' => ⟨hw'.1, fun q => (hw'.2 q).trans (ht.2 q)⟩
  refine (hfold w.dels w h).bind fun w' hw' => ?_
  obtain ⟨hown, hheld⟩ := hw'
  exact ⟨⟨hown.axis, rfl, List.nodup_nil, by simp, hown.nodup, hown.unlinked, hown.alive⟩, rfl, hheld⟩

lemma deleteNode_eq (h : w.Detached p) :
    w.deleteNode p = .ok { w with alive := Function.update w.alive p false } := by
  unfold World.deleteNode
  rw [if_pos ⟨⟨(h.axis .x).1, (h.axis .x).2, (h.axis .y).1, (h.axis .y).2, (h.axis .z).1,
    (h.axis .z).2⟩, h.aoiMgr⟩]

end Manager

section History
variable {α : Type} {h : Heap α} {R : List Node} {p q : Node}

/-- The deletions so far were sound, and the nodes still held are the inserted ones that are not
deleted. -/
structure History (h : Heap α) (R : List Node) : Prop where
  held : ∀ p, h.world.Held R p → h.inserted.count p = h.deletions p + 1
  unheld : ∀ p, ¬ h.world.Held R p → h.inserted.count p = h.deletions p
  released : ∀ d ∈ h.released, d.world.alive d.node = true ∧ d.world.Detached d.node ∧
    ¬ d.world.Referenced d.node
  dropped : ∀ d ∈ h.dropped, d.world.alive d.node = true ∧ d.world.Detached d.node

lemma History.owned_iff (hh : History h R) : h.Owned p ↔ h.world.Held R p := by
  unfold Heap.Owned
  by_cases hp : h.world.Held R p
  · rw [hh.held p hp]
    exact ⟨fun _ => hp, fun _ => Nat.lt_succ_self _⟩
  · rw [hh.unheld p hp]
    exact ⟨fun hlt => absurd hlt (lt_irrefl _), fun hp' => absurd hp' hp⟩

/-- A step of the manager that deletes and inserts nothing. -/
lemma History.congr (hh : History h R) {w : World α} {R' : List Node}
    (hheld : ∀ q, w.Held R' q ↔ h.world.Held R q) : History { h with world := w } R' :=
  ⟨fun p hp => hh.held p ((hheld p).mp hp), fun p hp => hh.unheld p fun hp' => hp ((hheld p).mpr hp'),
    hh.released, hh.dropped⟩

lemma releaseNode_safe (hown : OwnInv h.world (p :: R)) (hh : History h (p :: R))
    (hdels : h.world.dels = []) :
    Safe .outOfFuel True (h.releaseNode p) fun h' =>
      OwnInv h'.world R ∧ History h' R ∧ h'.world.dels = [] ∧ h'.world.aoiMgr = h.world.aoiMgr ∧
        h'.ended = h.ended := by
  have hp := hown.unlinked p List.mem_cons_self
  obtain ⟨hpR, hnodup⟩ := List.nodup_cons.mp hown.nodup
  unfold Heap.releaseNode
  rw [deleteNode_eq (hown.detached hp)]
  refine ⟨⟨hown.axis, hown.delsCount, hown.delsNodup, ?_, hnodup,
    fun q hq => hown.unlinked q (List.mem_cons_of_mem p hq), fun q hq => ?_⟩, ⟨fun q hq => ?_,
    fun q hq => ?_, fun d hd => ?_, hh.dropped⟩, hdels, rfl, rfl⟩
  · simp [hdels]
  · have hqp : q ≠ p := by
      rintro rfl
      exact hq.elim hp hpR
    have hkeep : Function.update h.world.alive p false q = h.world.alive q :=
      Function.update_of_ne hqp ..
    exact hkeep.trans (hown.alive q (hq.imp id (List.mem_cons_of_mem p)))
  · have hqp : q ≠ p := by
      rintro rfl
      exact hq.elim hp hpR
    have hcount := hh.held q (hq.imp id (List.mem_cons_of_mem p))
    simpa [Heap.deletions, hqp.symm] using hcount
  · by_cases hqp : q = p
    · subst hqp
      have hcount := hh.held q (.inr List.mem_cons_self)
      simp only [Heap.deletions, List.map_cons, List.count_cons_self] at hcount ⊢
      omega
    · have hcount := hh.unheld q fun hq' => hq (hq'.imp id fun hm => (List.mem_cons.mp hm).resolve_left hqp)
      have hpq : p ≠ q := fun he => hqp he.symm
      simpa [Heap.deletions, hpq] using hcount
  · obtain rfl | hd := List.mem_cons.mp hd
    · exact ⟨hown.alive p (.inr List.mem_cons_self), hown.detached hp, hown.not_referenced hp⟩
    · exact hh.released d hd

/-- Every node of `releases_` is deleted. -/
lemma releases_safe (hown : OwnInv h.world R) (hh : History h R) (hdels : h.world.dels = []) :
    Safe .outOfFuel True (R.foldlM (fun (h : Heap α) p => h.releaseNode p) h) fun h' =>
      OwnInv h'.world [] ∧ History h' [] ∧ h'.world.dels = [] ∧ h'.world.aoiMgr = h.world.aoiMgr ∧
        h'.ended = h.ended := by
  induction R generalizing h with
  | nil => exact ⟨hown, hh, hdels, rfl, rfl⟩
  | cons p R ih =>
    rw [List.foldlM_cons]
    refine (releaseNode_safe hown hh hdels).bind fun v hv => ?_
    obtain ⟨hown', hh', hdels', haoi, hended⟩ := hv
    refine (ih hown' hh' hdels').weaken fun h' hh' => ?_
    obtain ⟨hown'', hh'', hdels'', haoi', hended'⟩ := hh'
    exact ⟨hown'', hh'', hdels'', haoi'.trans haoi, hended'.trans hended⟩

/-- What `ReleaseNodes` leaves: no node waits for anything. -/
structure Released (h : Heap α) : Prop where
  own : OwnInv h.world h.world.releases
  history : History h h.world.releases
  releases : h.world.releases = []

lemma heap_releaseNodes_safe (hown : OwnInv h.world h.world.releases)
    (hh : History h h.world.releases) :
    Safe .outOfFuel True h.releaseNodes fun h' => Released h' ∧ h'.ended = h.ended ∧
      (h.world.linked = ∅ → h.world.delsCount = 0 → h'.world.linked = ∅) := by
  have hremoved : Safe .outOfFuel True h.world.removeDelNodes fun w =>
      (OwnInv w w.releases ∧ w.dels = [] ∧ ∀ q, w.Held w.releases q ↔ h.world.Held h.world.releases q) ∧
        (h.world.delsCount = 0 → w = h.world) := by
    have hsafe := removeDelNodes_owned hown
    unfold World.removeDelNodes at hsafe ⊢
    split_ifs at hsafe ⊢ with hzero
    · exact ⟨hsafe, fun _ => rfl⟩
    · exact hsafe.weaken fun w hw => ⟨hw, fun hcount => absurd hcount hzero⟩
  refine hremoved.bind fun w hw => ?_
  obtain ⟨⟨hown', hdels, hheld⟩, hsame⟩ := hw
  refine (@releases_safe _ { h with world := w } _ hown' (hh.congr hheld) hdels).bind fun v hv => ?_
  obtain ⟨hown'', hh'', hdels', haoi, hended⟩ := hv
  refine ⟨⟨⟨hown''.axis, hown''.delsCount, hown''.delsNodup, hown''.dels, List.nodup_nil,
    hown''.unlinked, hown''.alive⟩, hh''.congr fun _ => Iff.rfl, rfl⟩, hended, fun hlinked hcount => ?_⟩
  have hlinked' : v.world.linked = w.linked := by
    unfold World.linked
    rw [haoi]
  rw [hsame hcount, hlinked] at hlinked'
  exact hlinked'

/-- The loop of the destructor has dropped all linked nodes but `rest`. -/
structure Walking (h : Heap α) (rest : List Node) : Prop where
  drop : Dropping h.world.axis rest
  linked : ∀ q, h.world.aoiMgr q = true ↔ q ∈ rest
  dels : h.world.dels = []
  delsCount : h.world.delsCount = 0
  nodup : h.world.releases.Nodup
  unlinked : ∀ p ∈ h.world.releases, p ∉ rest
  alive : ∀ p, h.world.Held h.world.releases p → h.world.alive p = true
  history : History h h.world.releases

lemma Walking.dropNode {rest : List Node} (hw : Walking h (p :: rest)) :
    ∃ h', h.dropNode p = .ok h' ∧ (h.world.axis .x).next p = rest.head? ∧ Walking h' rest ∧
      h'.ended = h.ended := by
  obtain ⟨hhead, hdrop⟩ := hw.drop.step
  obtain ⟨hp, -⟩ := List.nodup_cons.mp hw.drop.nodup
  have hreleases : p ∉ h.world.releases := fun hm => hw.unlinked p hm List.mem_cons_self
  have hlinked : ∀ q, Function.update h.world.aoiMgr p false q = true ↔ q ∈ rest := by
    intro q
    by_cases hqp : q = p
    · subst hqp
      simp [hp]
    · rw [Function.update_of_ne hqp, hw.linked q, List.mem_cons, or_iff_right hqp]
  have hheld : ∀ q, Function.update h.world.aoiMgr p false q = true ∨ q ∈ h.world.releases →
      h.world.Held h.world.releases q ∧ q ≠ p := by
    intro q hq
    refine ⟨hq.imp (fun hq => (hw.linked q).mpr (List.mem_cons_of_mem p ((hlinked q).mp hq))) id, ?_⟩
    rintro rfl
    exact hq.elim (fun hq => hp ((hlinked q).mp hq)) hreleases
  have hdetached : (h.world.detach p).Detached p :=
    ⟨fun a => dropLinks_self a, Function.update_self ..⟩
  have hself : h.world.Held h.world.releases p := .inl ((hw.linked p).mpr List.mem_cons_self)
  unfold Heap.dropNode
  rw [deleteNode_eq hdetached]
  refine ⟨_, rfl, hhead, ⟨hdrop, hlinked, hw.dels, hw.delsCount, hw.nodup, fun q hq hm =>
    hw.unlinked q hq (List.mem_cons_of_mem p hm), fun q hq => ?_, ⟨fun q hq => ?_, fun q hq => ?_,
    hw.history.released, fun d hd => ?_⟩⟩, rfl⟩
  · obtain ⟨hq, hqp⟩ := hheld q hq
    have hkeep : Function.update h.world.alive p false q = h.world.alive q :=
      Function.update_of_ne hqp ..
    exact hkeep.trans (hw.alive q hq)
  · obtain ⟨hq, hqp⟩ := hheld q hq
    have hcount := hw.history.held q hq
    simpa [Heap.deletions, hqp.symm] using hcount
  · by_cases hqp : q = p
    · subst hqp
      have hcount := hw.history.held q hself
      simp only [Heap.deletions, List.map_cons, List.count_cons_self] at hcount ⊢
      omega
    · have hcount := hw.history.unheld q fun hq' => hq (hq'.imp (fun hm => ?_) id)
      · have hpq : p ≠ q := fun he => hqp he.symm
        simpa [Heap.deletions, hpq] using hcount
      · have hkeep : Function.update h.world.aoiMgr p false q = h.world.aoiMgr q :=
          Function.update_of_ne hqp ..
        exact hkeep.trans hm
  · obtain rfl | hd := List.mem_cons.mp hd
    · exact ⟨hw.alive p hself, hdetached⟩
    · exact hw.history.dropped d hd

/-- The manager after the loop. -/
lemma Walking.emptied (hw : Walking h []) :
    OwnInv { h.world with axis := fun a => { h.world.axis a with first := none } }
      h.world.releases := by
  have hlinked : ∀ q, h.world.aoiMgr q ≠ true := fun q hq => List.not_mem_nil ((hw.linked q).mp hq)
  refine ⟨fun a => ⟨[], ⟨List.nodup_nil, rfl, ?_, ?_⟩, fun q => ?_, fun q _ => ?_⟩, ?_, ?_, ?_,
    hw.nodup, fun q _ => hlinked q, hw.alive⟩
  · intro A x B hs
    simp at hs
  · intro A x B hs
    simp at hs
  · exact ⟨fun hq => absurd hq List.not_mem_nil, fun hq => absurd hq (hlinked q)⟩
  · exact hw.drop.others q List.not_mem_nil a
  · dsimp only
    rw [hw.delsCount, hw.dels]
    rfl
  · dsimp only
    rw [hw.dels]
    exact List.nodup_nil
  · dsimp only
    rw [hw.dels]
    intro q hq
    exact absurd hq List.not_mem_nil

lemma heap_dropNodes_safe (hown : OwnInv h.world h.world.releases)
    (hh : History h h.world.releases) (hdels : h.world.dels = []) (fuel : ℕ) :
    Safe .outOfFuel (h.world.linked.ncard < fuel) (h.dropNodes fuel) fun h' =>
      OwnInv h'.world h'.world.releases ∧ History h' h'.world.releases ∧ h'.world.linked = ∅ ∧
        h'.world.delsCount = 0 ∧ h'.ended = h.ended := by
  have hcount : h.world.delsCount = 0 := by
    rw [hown.delsCount, hdels]
    rfl
  obtain ⟨L, hL⟩ := hown.axis .x
  rw [hL.ncard]
  unfold Heap.dropNodes
  rw [hL.linked.first]
  cases L with
  | nil =>
    have hempty : h.world.linked = ∅ :=
      Set.eq_empty_of_forall_notMem fun q hq => List.not_mem_nil ((hL.mem q).mpr hq)
    exact ⟨hown, hh, hempty, hcount, rfl⟩
  | cons first rest =>
    let I : ℕ → Option Node × Heap α → Prop := fun k c =>
      ∃ rest, c.1 = rest.head? ∧ Walking c.2 rest ∧ c.2.ended = h.ended ∧ k = rest.length
    have hstart : I (rest.length + 1) (some first, h) := by
      have hlinked : ∀ q, h.world.aoiMgr q = true ↔ q ∈ first :: rest := fun q => (hL.mem q).symm
      refine ⟨first :: rest, rfl, ⟨⟨hL.linked.nodup, hL.linked.next, fun q hq a => ?_⟩, hlinked, hdels,
        hcount, hown.nodup, fun q hq hm => hown.unlinked q hq ((hL.mem q).mp hm), hown.alive, hh⟩, rfl, rfl⟩
      obtain ⟨M, hM⟩ := hown.axis a
      exact hM.detached q fun hl => hq ((hL.mem q).mpr hl)
    refine (whileExcept_safe (Q := fun c : Option Node × Heap α =>
      Walking c.2 [] ∧ c.2.ended = h.ended) I (fun k c hc => ?_) hstart).bind fun c hc => ?_
    · obtain ⟨node, v⟩ := c
      obtain ⟨rest, rfl, hw, hended, rfl⟩ := hc
      cases rest with
      | nil => exact ⟨hw, hended⟩
      | cons p rest =>
        obtain ⟨v', hv', hhead, hw', hended'⟩ := hw.dropNode
        have hhead : (v.world.axis .x).next p = rest.head? := hhead
        have hround : Heap.dropStep ((p :: rest).head?, v) = .ok (some (rest.head?, v')) := by
          simp [Heap.dropStep, hv', hhead, bind, Except.bind, pure, Except.pure]
        rw [hround]
        exact ⟨rest.length, by simp, rest, rfl, hw', hended'.trans hended, rfl⟩
    · obtain ⟨hw, hended⟩ := hc
      have hempty : World.linked c.2.world = ∅ :=
        Set.eq_empty_of_forall_notMem fun q hq => List.not_mem_nil ((hw.linked q).mp hq)
      exact ⟨hw.emptied, hw.history.congr fun _ => Iff.rfl, hempty, hw.delsCount, hended⟩

/-- The destructor deletes every node that is left. -/
theorem heap_destroy_safe (hown : OwnInv h.world h.world.releases)
    (hh : History h h.world.releases) (fuel : ℕ) :
    Safe .outOfFuel (h.world.linked.ncard < fuel) (h.destroy fuel) fun h' =>
      Released h' ∧ h'.world.linked = ∅ := by
  have hcleared : OwnInv { h.world with dels := [], delsCount := 0 } h.world.releases :=
    ⟨hown.axis, rfl, List.nodup_nil, by simp, hown.nodup, hown.unlinked, hown.alive⟩
  have hhistory : History { h with world := { h.world with dels := [], delsCount := 0 } }
      h.world.releases := hh.congr fun _ => Iff.rfl
  refine (heap_dropNodes_safe hcleared hhistory rfl fuel).bind fun v hv => ?_
  obtain ⟨hown', hh', hlinked, hcount, -⟩ := hv
  refine ((heap_releaseNodes_safe hown' hh').enough fun _ => trivial).weaken fun h' hh' => ?_
  exact ⟨hh'.1, hh'.2.2 hlinked hcount⟩

end History

section Runs
variable {α : Type} [LinearOrder α] [OrderBot α] {h h' : Heap α}

structure HeapInv (h : Heap α) : Prop where
  own : OwnInv h.world h.world.releases
  history : History h h.world.releases
  ended : h.ended = true → h.world.linked = ∅ ∧ h.world.releases = []

omit [LinearOrder α] [OrderBot α] in
/-- An operation that inserts and deletes nothing. -/
lemma HeapInv.keep (hh : HeapInv h) (hended : h.ended = false) {w : World α}
    (hown : OwnInv w w.releases) (hheld : ∀ q, w.Held w.releases q ↔ h.world.Held h.world.releases q) :
    HeapInv { h with world := w } := by
  refine ⟨hown, hh.history.congr hheld, fun ht => ?_⟩
  rw [hended] at ht
  cases ht

lemma heap_insert_safe (hh : HeapInv h) (hended : h.ended = false) {p : Node}
    (hop : (Op.insert p).Proper h) (fuel : ℕ) :
    Safe .outOfFuel (h.world.linked.ncard + 1 < fuel) (h.exec fuel (.insert p)) HeapInv := by
  obtain ⟨halive, hfree⟩ := hop
  have hheld : ¬ h.world.Held h.world.releases p := fun hp => hfree (hh.history.owned_iff.mpr hp)
  have hlinked : p ∉ h.world.linked := fun hl => hheld (.inl hl)
  have hreleases : p ∉ h.world.releases := fun hm => hheld (.inr hm)
  refine (insert_owned hh.own halive hlinked hreleases fuel).map fun w hw => ?_
  obtain ⟨hown, haoi, hrel⟩ := hw
  rw [← hrel] at hown
  have hother : ∀ q, q ≠ p → (w.Held w.releases q ↔ h.world.Held h.world.releases q) := by
    intro q hq
    unfold World.Held
    rw [haoi, hrel, Function.update_of_ne hq]
  refine ⟨hown, ⟨fun q hq => ?_, fun q hq => ?_, hh.history.released, hh.history.dropped⟩, fun ht => ?_⟩
  · by_cases hqp : q = p
    · subst hqp
      rw [List.count_cons_self, hh.history.unheld q hheld]
      rfl
    · rw [List.count_cons_of_ne fun he => hqp he.symm, hh.history.held q ((hother q hqp).mp hq)]
      rfl
  · by_cases hqp : q = p
    · subst hqp
      refine absurd (.inl ?_) hq
      rw [haoi]
      exact Function.update_self ..
    · rw [List.count_cons_of_ne fun he => hqp he.symm,
        hh.history.unheld q fun hq' => hq ((hother q hqp).mpr hq')]
      rfl
  · rw [hended] at ht
    cases ht

theorem heap_exec_safe (hh : HeapInv h) (hended : h.ended = false) {op : Op α} (hop : op.Proper h)
    (hdebug : op.Debuggable h.world) (fuel : ℕ) :
    Safe .outOfFuel (h.world.linked.ncard + 1 < fuel) (h.exec fuel op) HeapInv := by
  have hown := hh.own
  cases op with
  | construct p v flags =>
    have hp : ¬ h.world.Held h.world.releases p := by
      intro hp
      have hdead : h.world.alive p = false := hop
      rw [hown.alive p hp] at hdead
      cases hdead
    have haoi : (h.world.construct p v flags).aoiMgr = h.world.aoiMgr :=
      Function.update_eq_self_iff.mpr (Bool.eq_false_of_not_eq_true fun hl => hp (.inl hl)).symm
    apply hh.keep hended (construct_owned hown hop v flags)
    intro q
    unfold World.Held
    rw [haoi]
    rfl
  | setExt p v => exact hh.keep hended (hown.congr hown.axis rfl rfl rfl rfl) fun _ => Iff.rfl
  | insert p => exact heap_insert_safe hh hended hop fuel
  | update p =>
    refine ((update_owned hown.axis hdebug fuel p).enough fun hf => by omega).map fun w hw => ?_
    obtain ⟨haxis, hrest⟩ := hw
    have hfields : w.aoiMgr = h.world.aoiMgr ∧ w.alive = h.world.alive ∧ w.dels = h.world.dels ∧
        w.delsCount = h.world.delsCount ∧ w.releases = h.world.releases := by
      rw [hrest]
      exact ⟨rfl, rfl, rfl, rfl, rfl⟩
    obtain ⟨haoi, halive, hdels, hcount, hrel⟩ := hfields
    refine hh.keep hended (hrel ▸ hown.congr haxis haoi halive hdels hcount) fun q => ?_
    unfold World.Held
    rw [haoi, hrel]
  | remove p =>
    have hp := hh.history.owned_iff.mp hop
    refine ((remove_owned hown hp hdebug fuel).enough fun hf => by omega).map fun w hw => ?_
    obtain ⟨hown', haoi, hrel⟩ := hw
    refine hh.keep hended (hrel ▸ hown') fun q => ?_
    unfold World.Held
    rw [haoi, hrel]
  | removeDelNodes =>
    refine ((removeDelNodes_owned hown).enough fun _ => trivial).map fun w hw => ?_
    exact hh.keep hended hw.1 hw.2.2
  | releaseNodes =>
    refine ((heap_releaseNodes_safe hown hh.history).enough fun _ => trivial).weaken fun v hv => ?_
    obtain ⟨hreleased, hkeep, -⟩ := hv
    refine ⟨hreleased.own, hreleased.history, fun ht => ?_⟩
    rw [hkeep, hended] at ht
    cases ht

omit [LinearOrder α] [OrderBot α] in
lemma map_null {β γ : Type} {r : Except Fault β} {f : β → γ} {fuel : ℕ}
    (h : ∃ x, r = .error x ∧ (0 < fuel → x = .nullDeref)) :
    ∃ x, r.map f = .error x ∧ (0 < fuel → x = .nullDeref) := by
  obtain ⟨x, rfl, hnull⟩ := h
  exact ⟨x, rfl, hnull⟩

/-- Without a linked node an update follows a null pointer. -/
lemma heap_exec_null (hh : HeapInv h) {op : Op α} (hdebug : ¬op.Debuggable h.world) (fuel : ℕ) :
    ∃ x, h.exec fuel op = .error x ∧ (0 < fuel → x = .nullDeref) := by
  cases op with
  | update p => exact map_null (update_null hh.own.axis (Set.not_nonempty_iff_eq_empty.mp hdebug) fuel p)
  | remove p => exact map_null (remove_null hh.own.axis (Set.not_nonempty_iff_eq_empty.mp hdebug) fuel p)
  | _ => exact absurd trivial hdebug

lemma HeapInv.step {op : HeapOp α} (hh : HeapInv h) (hstep : h.step op h') : HeapInv h' := by
  cases op with
  | manager op =>
    obtain ⟨hended, hop, fuel, hexec⟩ := hstep
    by_cases hdebug : op.Debuggable h.world
    · exact (heap_exec_safe hh hended hop hdebug fuel).of_eq_ok hexec
    · obtain ⟨x, hx, -⟩ := heap_exec_null hh hdebug fuel
      cases hexec.symm.trans hx
  | destroy =>
    obtain ⟨-, fuel, v, hexec, rfl⟩ := hstep
    obtain ⟨hreleased, hlinked⟩ := (heap_destroy_safe hh.own hh.history fuel).of_eq_ok hexec
    have hhistory := hreleased.history
    exact ⟨hreleased.own, ⟨hhistory.held, hhistory.unheld, hhistory.released, hhistory.dropped⟩,
      fun _ => ⟨hlinked, hreleased.releases⟩⟩

lemma reachable_heap (hh : Reachable (heapRuns α) h) : HeapInv h := by
  apply hh.invariant
  · intro h hinit
    obtain ⟨hfresh, hinserted, hreleased, hdropped, hended⟩ := hinit
    have hempty : ∀ p, ¬ h.world.Held h.world.releases p := by
      intro p hp
      simp [World.Held, hfresh.aoiMgr p, hfresh.releases] at hp
    refine ⟨fresh_owned hfresh, ⟨fun p hp => absurd hp (hempty p), fun p _ => ?_, ?_, ?_⟩, fun ht => ?_⟩
    · simp [Heap.deletions, hinserted, hreleased, hdropped]
    · simp [hreleased]
    · simp [hdropped]
    · rw [hended] at ht
      cases ht
  · intro h op h' hh hstep
    exact hh.step hstep

/-- Where the nodes of the manager are: linked, linked and waiting in `dels_`, or unlinked and
waiting in `releases_`. -/
structure Placed (h : Heap α) (X : Axis → List Node) : Prop where
  linked : ∀ a, (h.world.axis a).Linked (X a)
  owned : ∀ p, h.Owned p →
    ((∀ a, p ∈ X a) ∧ p ∉ h.world.dels ∧ p ∉ h.world.releases) ∨
    ((∀ a, p ∈ X a) ∧ p ∈ h.world.dels ∧ p ∉ h.world.releases) ∨
    ((∀ a, p ∉ X a) ∧ p ∈ h.world.releases)
  others : ∀ p, ¬ h.Owned p → (∀ a, p ∉ X a) ∧ p ∉ h.world.dels ∧ p ∉ h.world.releases

/-- What the manager promises about its nodes. -/
structure Ownership (h : Heap α) : Prop where
  once : ∀ p, h.deletions p ≤ h.inserted.count p ∧ h.inserted.count p ≤ h.deletions p + 1
  ended : h.ended = true → ∀ p, h.deletions p = h.inserted.count p ∧ ¬ h.world.Referenced p
  released : ∀ d ∈ h.released, d.world.alive d.node = true ∧ d.world.Detached d.node ∧
    ¬ d.world.Referenced d.node
  dropped : ∀ d ∈ h.dropped, d.world.alive d.node = true ∧ d.world.Detached d.node
  delsCount : h.world.delsCount.toNat = h.world.dels.length
  placed : ∃ X, Placed h X

omit [LinearOrder α] [OrderBot α] in
lemma HeapInv.placed (hh : HeapInv h) : ∃ X, Placed h X := by
  have haxis := hh.own.axis
  choose X hX using haxis
  refine ⟨X, fun a => (hX a).linked, fun p hp => ?_, fun p hp => ?_⟩
  · obtain hlinked | hrel := hh.history.owned_iff.mp hp
    · have hnot : p ∉ h.world.releases := fun hm => hh.own.unlinked p hm hlinked
      by_cases hdels : p ∈ h.world.dels
      · exact .inr (.inl ⟨fun a => ((hX a).mem p).mpr hlinked, hdels, hnot⟩)
      · exact .inl ⟨fun a => ((hX a).mem p).mpr hlinked, hdels, hnot⟩
    · exact .inr (.inr ⟨fun a hm => hh.own.unlinked p hrel (((hX a).mem p).mp hm), hrel⟩)
  · have hheld : ¬ h.world.Held h.world.releases p := fun hq => hp (hh.history.owned_iff.mpr hq)
    exact ⟨fun a hm => hheld (.inl (((hX a).mem p).mp hm)), fun hd => hheld (hh.own.dels p hd),
      fun hr => hheld (.inr hr)⟩

omit [LinearOrder α] [OrderBot α] in
lemma HeapInv.ownership (hh : HeapInv h) : Ownership h := by
  refine ⟨fun p => ?_, fun hended p => ?_, hh.history.released, hh.history.dropped, ?_, hh.placed⟩
  · by_cases hp : h.world.Held h.world.releases p
    · rw [hh.history.held p hp]
      omega
    · rw [hh.history.unheld p hp]
      omega
  · obtain ⟨hlinked, hreleases⟩ := hh.ended hended
    have hp : p ∉ h.world.linked := hlinked ▸ Set.notMem_empty p
    have hheld : ¬ h.world.Held h.world.releases p := by
      rintro (hl | hr)
      · exact hp hl
      · rw [hreleases] at hr
        exact List.not_mem_nil hr
    exact ⟨(hh.history.unheld p hheld).symm, hh.own.not_referenced hp⟩
  · rw [hh.own.delsCount, UInt64.toNat_ofNat', Nat.mod_eq_of_lt (nodes_length_lt hh.own.delsNodup)]

/-- In every run, ended by the destructor or not, every inserted node is deleted once at most, and
once when the manager is destroyed. `ReleaseNodes` deletes no node that a head or a neighbour still
refers to; the loop of the destructor deletes nodes that have no pointers of their own any more. No
operation and no destructor runs into the assertion of `~AOINode`; a null pointer is followed just by
an update, or a removal, without a linked node. -/
theorem nodes_owned (hh : Reachable (heapRuns α) h) :
    Ownership h ∧ (h.ended = false →
      (∀ op : Op α, op.Proper h →
        (op.Debuggable h.world → (∀ fuel e, h.exec fuel op = .error e → e = .outOfFuel) ∧
          ∃ n, ∀ fuel, n < fuel → ∃ h', h.exec fuel op = .ok h') ∧
        (¬op.Debuggable h.world → ∀ fuel, 0 < fuel → h.exec fuel op = .error .nullDeref)) ∧
      (∀ fuel e, h.destroy fuel = .error e → e = .outOfFuel) ∧
        ∃ n, ∀ fuel, n < fuel → ∃ h', h.destroy fuel = .ok h') := by
  have hinv := reachable_heap hh
  refine ⟨hinv.ownership, fun hended => ⟨fun op hop => ⟨fun hdebug => ⟨fun fuel e he => ?_,
    h.world.linked.ncard + 1, fun fuel hf => ?_⟩, fun hdebug fuel hf => ?_⟩, fun fuel e he => ?_,
    h.world.linked.ncard, fun fuel hf => ?_⟩⟩
  · exact (heap_exec_safe hinv hended hop hdebug fuel).error_eq he
  · obtain ⟨h', hok, -⟩ := (heap_exec_safe hinv hended hop hdebug fuel).exists_ok hf
    exact ⟨h', hok⟩
  · obtain ⟨x, hx, hnull⟩ := heap_exec_null hinv hdebug fuel
    rw [hx, hnull hf]
  · exact (heap_destroy_safe hinv.own hinv.history fuel).error_eq he
  · obtain ⟨h', hok, -⟩ := (heap_destroy_safe hinv.own hinv.history fuel).exists_ok hf
    exact ⟨h', hok⟩

end Runs

section Examples

/-- A manager without nodes at the start of a run. -/
def emptyHeap : Heap ℕ := ⟨emptyManager, [], [], [], false⟩

instance (h : Heap ℕ) (op : Op ℕ) : Decidable (op.Proper h) :=
  match op with
  | .construct p _ _ => inferInstanceAs (Decidable (h.world.alive p = false))
  | .setExt p _ => inferInstanceAs (Decidable (h.world.alive p = true))
  | .insert p => inferInstanceAs (Decidable
      (h.world.alive p = true ∧ ¬ h.deletions p < h.inserted.count p))
  | .update p => inferInstanceAs (Decidable (h.world.alive p = true))
  | .remove p => inferInstanceAs (Decidable (h.deletions p < h.inserted.count p))
  | .removeDelNodes => inferInstanceAs (Decidable True)
  | .releaseNodes => inferInstanceAs (Decidable True)

/-- One step of a run, with enough fuel for a few nodes. -/
def tryHeap (h : Heap ℕ) : HeapOp ℕ → Option (Heap ℕ)
  | .manager op => if h.ended = false ∧ op.Proper h then (h.exec 8 op).toOption else none
  | .destroy =>
    if h.ended = false then (h.destroy 8).toOption.map fun v => { v with ended := true } else none

lemma tryHeap_step {h h' : Heap ℕ} {op : HeapOp ℕ} (hrun : tryHeap h op = some h') :
    (heapRuns ℕ).step h op h' := by
  cases op with
  | manager op =>
    dsimp only [tryHeap] at hrun
    split_ifs at hrun with hop
    exact ⟨hop.1, hop.2, 8, toOption_eq_some hrun⟩
  | destroy =>
    dsimp only [tryHeap] at hrun
    split_ifs at hrun with hended
    obtain ⟨v, hv, rfl⟩ := Option.map_eq_some_iff.mp hrun
    exact ⟨hended, 8, v, toOption_eq_some hv, rfl⟩

lemma emptyHeap_init : (heapRuns ℕ).init emptyHeap := ⟨emptyManager_fresh, rfl, rfl, rfl, rfl⟩

/-- The second node is removed twice, and once more while it waits in `releases_`. -/
def removeThreeTimes : List (HeapOp ℕ) :=
  [.manager (.construct node₁ (fun _ => 10) 0), .manager (.insert node₁),
    .manager (.construct node₂ (fun _ => 20) 0), .manager (.insert node₂), .manager (.remove node₂),
    .manager (.remove node₂), .manager .removeDelNodes, .manager (.remove node₂), .destroy]

lemma removeThreeTimes_result :
    (removeThreeTimes.foldlM tryHeap emptyHeap).map (fun h => (h.ended, h.deletions node₂)) =
      some (true, 1) := by
  decide +kernel

theorem nodes_owned_removed_three_times :
    ∃ h, Reachable (heapRuns ℕ) h ∧ h.ended = true ∧ h.deletions node₂ = 1 ∧ Ownership h := by
  obtain ⟨h, hrun, hh⟩ := Option.map_eq_some_iff.mp removeThreeTimes_result
  obtain ⟨hended, hdeletions⟩ := Prod.mk.inj hh
  have hreach : Reachable (heapRuns ℕ) h :=
    (Reachable.init emptyHeap_init).of_foldlM (fun _ _ _ => tryHeap_step) hrun
  exact ⟨h, hreach, hended, hdeletions, (nodes_owned hreach).1⟩

lemma dropFirst_result :
    ([HeapOp.manager (.construct node₁ (fun _ => 10) 0), .manager (.insert node₁),
        .destroy].foldlM tryHeap emptyHeap).map
      (fun h => h.dropped.map fun d => (d.node, (d.world.axis .x).first)) =
        some [(node₁, some node₁)] := by
  decide +kernel

/-- The destructor deletes the first node while the heads of the lists still refer to it. -/
theorem first_dropped_referenced : ¬ ∀ h : Heap ℕ, Reachable (heapRuns ℕ) h →
    ∀ d ∈ h.released ++ h.dropped, ¬ d.world.Referenced d.node := by
  intro hall
  obtain ⟨h, hrun, hh⟩ := Option.map_eq_some_iff.mp dropFirst_result
  have hreach : Reachable (heapRuns ℕ) h :=
    (Reachable.init emptyHeap_init).of_foldlM (fun _ _ _ => tryHeap_step) hrun
  have hmem : (node₁, some node₁) ∈ h.dropped.map fun d => (d.node, (d.world.axis .x).first) := by
    rw [hh]
    exact List.mem_singleton.mpr rfl
  obtain ⟨d, hd, hfirst⟩ := List.mem_map.mp hmem
  obtain ⟨hnode, hfirst⟩ := Prod.mk.inj hfirst
  apply hall h hreach d (List.mem_append_right _ hd)
  refine ⟨.x, .inl ?_⟩
  rw [hfirst, hnode]

end Examples

end TyphoonZero.AOI
