import TyphoonZero.CoordinateInvariant
import TyphoonZero.CrossListDrop

/-! Nodes that leave the coordinate system at once, by `RemoveImmediately` or with their entity, and
what the system still holds of them. -/
namespace TyphoonZero.Coordinate
open Loop LinkedChain CrossList Transition

namespace World
variable {P E α : Type} [DecidableEq P] (w : World P E α)

/-- What `~CoordinateNode` asserts. -/
def Unlinked (p : P) : Prop :=
  ((w.axis .x).prev p = none ∧ (w.axis .x).next p = none ∧
    (w.axis .y).prev p = none ∧ (w.axis .y).next p = none ∧
    (w.axis .z).prev p = none ∧ (w.axis .z).next p = none) ∧ w.coordinateSystemPtr p = false

instance (p : P) : Decidable (w.Unlinked p) := inferInstanceAs (Decidable (_ ∧ _))

/-- `Entity::RemoveCoordinateNodeFromCoordinateSystem` for the entity with the node `p`. -/
def removeCoordinateNodeFromCoordinateSystem [LinearOrder α] [OrderBot α] (fuel : ℕ) (p : P) :
    Except Fault (World P E α) :=
  if w.coordinateSystemPtr p then w.removeImmediately fuel p else .ok w

/-- The destruction of an entity with the node `p`: `~EntityCoordinateNode` and
`~CoordinateNode`. -/
def destroyEntity [LinearOrder α] [OrderBot α] (fuel : ℕ) (p : P) :
    Except Fault (World P E α) := do
  let w ← w.removeCoordinateNodeFromCoordinateSystem fuel p
  if w.Unlinked p then pure w else .error .assertion

/-- One round of the loop of `~CoordinateSystem`. -/
def dropNode (p : P) : World P E α :=
  { w with
    axis := dropLinks w.axis p
    coordinateSystemPtr := Function.update w.coordinateSystemPtr p false }

def dropStep : Option P × World P E α → Except Fault (Option (Option P × World P E α))
  | (none, _) => .ok none
  | (some p, w) => .ok (some ((w.axis .x).next p, w.dropNode p))

def dropNodes (fuel : ℕ) : Except Fault (World P E α) :=
  match (w.axis .x).first with
  | none => .ok w
  | some first => do
    let (_, w) ← whileExcept .outOfFuel dropStep fuel (some first, w)
    pure { w with axis := fun a => { w.axis a with first := none } }

/-- `~CoordinateSystem`. The nodes belong to their entities and are not deleted. -/
def destroy (fuel : ℕ) : Except Fault (World P E α) := do
  let w ← World.dropNodes { w with dels := [], delsCount := 0 } fuel
  w.removeDelNodes

/-- The system holds no pointer to the node. -/
structure Unreferenced (p : P) : Prop where
  first : ∀ a, (w.axis a).first ≠ some p
  prev : ∀ a q, (w.axis a).prev q ≠ some p
  next : ∀ a q, (w.axis a).next q ≠ some p
  dels : p ∉ w.dels

end World

section Unreferenced
variable {P E α : Type} [DecidableEq P] [LinearOrder α] {w : World P E α} {live : Set P}
  {X : Axis → List P} {p : P}

omit [DecidableEq P] in
/-- The lists lead to nodes of the system only. -/
lemma Inv.unreferenced (h : Inv w live X) (hp : p ∉ live) (hdels : p ∉ w.dels) :
    w.Unreferenced p := by
  have hfree := fun a => (h.axis a).listInv.unreferenced hp
  exact ⟨fun a => (hfree a).1, fun a q => ((hfree a).2 q).1, fun a q => ((hfree a).2 q).2, hdels⟩

omit [DecidableEq P] in
lemma Inv.unlinked (h : Inv w live X) (hp : p ∉ live) : w.Unlinked p := by
  have hdetached := fun a => (h.axis a).detached p hp
  refine ⟨⟨(hdetached .x).1, (hdetached .x).2, (hdetached .y).1, (hdetached .y).2,
    (hdetached .z).1, (hdetached .z).2⟩, ?_⟩
  exact Bool.eq_false_of_not_eq_true fun hptr => hp ((h.attached p).mp hptr)

/-- The assertion of `~CoordinateNode` does not fail. -/
lemma destroyEntity_safe [OrderBot α] (h : Inv w live X) (fuel : ℕ) :
    Safe .outOfFuel ((X .x).length < fuel) (w.destroyEntity fuel p) fun w' =>
      (∃ X', Inv w' (live \ {p}) X') ∧ w'.dels = w.dels := by
  have hremoved : Safe .outOfFuel ((X .x).length < fuel)
      (w.removeCoordinateNodeFromCoordinateSystem fuel p) fun w' =>
        (∃ X', Inv w' (live \ {p}) X') ∧ w'.dels = w.dels := by
    unfold World.removeCoordinateNodeFromCoordinateSystem
    split_ifs with hptr
    · exact removeImmediately_safe h ⟨p, (h.attached p).mp hptr⟩ fuel
    · have hlive : p ∉ live := fun hl => hptr ((h.attached p).mpr hl)
      rw [Set.sdiff_singleton_eq_self hlive]
      exact ⟨⟨X, h⟩, rfl⟩
  refine hremoved.bind fun w' hw' => ?_
  obtain ⟨⟨X', hX'⟩, hdels⟩ := hw'
  rw [if_pos (hX'.unlinked fun hm => hm.2 rfl)]
  exact ⟨⟨X', hX'⟩, hdels⟩

/-- After an immediate removal the system holds no pointer to the node just when the node did not
wait in `dels_`. -/
theorem removeImmediately_unreferenced_iff [OrderBot α] {w' : World P E α} {fuel : ℕ}
    (h : Inv w live X) (hremove : w.removeImmediately fuel p = .ok w') :
    w'.Unreferenced p ↔ p ∉ w.dels := by
  have hne : live.Nonempty := by
    by_contra hnone
    obtain rfl := Set.not_nonempty_iff_eq_empty.mp hnone
    obtain ⟨x, hx, -⟩ := removing_null h fuel p fun w => (w.addFlag p kCoordinateNodeFlagRemoved).removeReal p
    cases hremove.symm.trans hx
  obtain ⟨⟨X', hX'⟩, hdels⟩ := (removeImmediately_safe h hne fuel).of_eq_ok hremove
  constructor
  · intro hfree
    rw [← hdels]
    exact hfree.dels
  · intro hp
    rw [← hdels] at hp
    exact hX'.unreferenced (fun hm => hm.2 rfl) hp

lemma remove_pending [OrderBot α] {w' : World P E α} {fuel : ℕ}
    (hremove : w.remove fuel p = .ok w') : p ∈ w'.dels := by
  obtain ⟨v, -, hremove⟩ := bind_ok hremove
  dsimp only at hremove
  split_ifs at hremove with hmem
  · obtain rfl := Except.ok.inj hremove
    exact hmem
  · obtain rfl := Except.ok.inj hremove
    exact List.mem_append_right _ List.mem_cons_self

end Unreferenced

section Destroy
variable {P E α : Type} [DecidableEq P] {w : World P E α} {p q : P}

/-- Nothing is left in the system. -/
structure Emptied (w : World P E α) : Prop where
  axis : ∀ a, (w.axis a).first = none ∧ ∀ q, (w.axis a).prev q = none ∧ (w.axis a).next q = none
  coordinateSystemPtr : ∀ q, w.coordinateSystemPtr q = false
  dels : w.dels = []

omit [DecidableEq P] in
lemma Emptied.unlinked (h : Emptied w) (p : P) : w.Unlinked p :=
  ⟨⟨((h.axis .x).2 p).1, ((h.axis .x).2 p).2, ((h.axis .y).2 p).1, ((h.axis .y).2 p).2,
    ((h.axis .z).2 p).1, ((h.axis .z).2 p).2⟩, h.coordinateSystemPtr p⟩

omit [DecidableEq P] in
lemma Emptied.unreferenced (h : Emptied w) (p : P) : w.Unreferenced p := by
  constructor
  · intro a
    simp [(h.axis a).1]
  · intro a q
    simp [((h.axis a).2 q).1]
  · intro a q
    simp [((h.axis a).2 q).2]
  · simp [h.dels]

/-- The destructor takes every node out of the system. -/
lemma dropNodes_safe [LinearOrder α] {live : Set P} {X : Axis → List P} (h : Inv w live X)
    (hdels : w.dels = []) (fuel : ℕ) :
    Safe .outOfFuel ((X .x).length < fuel) (w.dropNodes fuel) fun w' =>
      Emptied w' ∧ w'.delsCount = w.delsCount := by
  have hempty : ∀ q, q ∉ X .x → (∀ a, (w.axis a).prev q = none ∧ (w.axis a).next q = none) ∧
      w.coordinateSystemPtr q = false := by
    intro q hq
    have hlive : q ∉ live := fun hl => hq (((h.axis .x).mem q).mpr hl)
    exact ⟨fun a => (h.axis a).detached q hlive,
      Bool.eq_false_of_not_eq_true fun hptr => hlive ((h.attached q).mp hptr)⟩
  have hfirst := fun a => (h.axis a).linked.first
  unfold World.dropNodes
  cases hnodes : X .x with
  | nil =>
    have hnil : ∀ a, X a = [] := by
      intro a
      have hlength := h.length_eq a .x
      rw [hnodes] at hlength
      exact List.length_eq_zero_iff.mp hlength
    rw [hnodes] at hempty
    rw [hfirst .x, hnil .x]
    refine ⟨⟨fun a => ⟨?_, fun q => (hempty q List.not_mem_nil).1 a⟩,
      fun q => (hempty q List.not_mem_nil).2, hdels⟩, rfl⟩
    rw [hfirst a, hnil a]
    rfl
  | cons first rest =>
    rw [hfirst .x, hnodes]
    let I : ℕ → Option P × World P E α → Prop := fun k c =>
      ∃ rest, c.1 = rest.head? ∧ Dropping c.2.axis rest ∧
        (∀ q ∉ rest, c.2.coordinateSystemPtr q = false) ∧ c.2.dels = [] ∧
        c.2.delsCount = w.delsCount ∧ k = rest.length
    have hstart : I (rest.length + 1) (some first, w) := by
      have hnodup := (h.axis .x).linked.nodup
      have hnext := (h.axis .x).linked.next
      rw [hnodes] at hempty hnodup hnext
      exact ⟨first :: rest, rfl, ⟨hnodup, hnext, fun q hq => (hempty q hq).1⟩,
        fun q hq => (hempty q hq).2, hdels, rfl, rfl⟩
    refine (whileExcept_safe (Q := fun c : Option P × World P E α => Dropping c.2.axis [] ∧
      (∀ q, c.2.coordinateSystemPtr q = false) ∧ c.2.dels = [] ∧ c.2.delsCount = w.delsCount) I
      (fun k c hc => ?_) hstart).bind fun c hc => ?_
    · obtain ⟨node, v⟩ := c
      obtain ⟨rest, rfl, hdrop, hptr, hdels, hcount, rfl⟩ := hc
      cases rest with
      | nil => exact ⟨hdrop, fun q => hptr q List.not_mem_nil, hdels, hcount⟩
      | cons p rest =>
        obtain ⟨hhead, hnext⟩ := hdrop.step
        refine ⟨rest.length, by simp, rest, hhead, hnext, fun q hq => ?_, hdels, hcount, rfl⟩
        by_cases hqp : q = p
        · rw [hqp]
          exact Function.update_self ..
        · have hkeep : (v.dropNode p).coordinateSystemPtr q = v.coordinateSystemPtr q :=
            Function.update_of_ne hqp ..
          rw [hkeep]
          exact hptr q (by simp [hqp, hq])
    · obtain ⟨hdrop, hptr, hdels, hcount⟩ := hc
      exact ⟨⟨fun a => ⟨rfl, fun q => hdrop.others q List.not_mem_nil a⟩, hptr, hdels⟩, hcount⟩

lemma destroy_safe [LinearOrder α] {live : Set P} {X : Axis → List P} (h : Inv w live X)
    (fuel : ℕ) : Safe .outOfFuel ((X .x).length < fuel) (w.destroy fuel) Emptied := by
  have hcleared : Inv ({ w with dels := [], delsCount := 0 } : World P E α) live X :=
    h.congr rfl rfl rfl rfl
  refine (dropNodes_safe hcleared rfl fuel).bind fun w' hw' => ?_
  obtain ⟨hemptied, hcount⟩ := hw'
  unfold World.removeDelNodes
  rw [if_pos hcount]
  exact hemptied

end Destroy

section Runs
variable {P E α : Type}

/-- The node that an operation is given. -/
def Op.node : Op P E α → Option P
  | .insert p => some p
  | .setPosition .. => none
  | .update p => some p
  | .entityUpdate p => some p
  | .remove p => some p
  | .removeImmediately p => some p
  | .removeDelNodes => none

inductive SiteOp (P E α : Type)
  | system (op : Op P E α)
  | destroyEntity (p : P)
  | destroySystem

/-- The system with its nodes. `gone` are the nodes that were removed immediately, or destroyed, and
not handed to the system again; `ended` says that the system is destroyed. -/
structure Site (P E α : Type) where
  world : World P E α
  gone : Set P
  destroyed : Set P
  ended : Bool

/-- The nodes gone after an operation of the system. -/
def Op.gone (gone : Set P) : Op P E α → Set P
  | .insert p => gone \ {p}
  | .remove p => gone \ {p}
  | .removeImmediately p => Set.insert p gone
  | _ => gone

lemma Op.not_live {w : World P E α} {live gone : Set P} {op : Op P E α} {p : P}
    (hp : p ∈ op.gone gone) (hgone : ∀ q ∈ gone, q ∉ live) : p ∉ op.live w live := by
  cases op with
  | insert q =>
    intro hm
    obtain rfl | hm := hm
    · exact hp.2 rfl
    · exact hgone p hp.1 hm
  | remove q => exact hgone p hp.1
  | removeImmediately q =>
    intro hm
    obtain rfl | hp := hp
    · exact hm.2 rfl
    · exact hgone p hp hm.1
  | removeDelNodes =>
    intro hm
    unfold Op.live at hm
    split_ifs at hm
    · exact hgone p hp hm
    · exact hgone p hp hm.1
  | setPosition | update | entityUpdate => exact hgone p hp

lemma Op.not_pending {dels : List P} {gone : Set P} {op : Op P E α} {p : P}
    (hp : p ∈ op.gone gone) (hgone : ∀ q ∈ gone, q ∉ dels)
    (hop : ∀ q, op = .removeImmediately q → q ∉ dels) : p ∉ op.pending dels := by
  cases op with
  | insert q => exact hgone p hp.1
  | remove q =>
    intro hm
    obtain rfl | hm := List.mem_cons.mp hm
    · exact hp.2 rfl
    · exact hgone p hp.1 hm
  | removeImmediately q =>
    obtain rfl | hp := hp
    · exact hop p rfl
    · exact hgone p hp
  | setPosition | update | entityUpdate | removeDelNodes => exact hgone p hp

variable [DecidableEq P] [DecidableEq E] [LinearOrder α] [OrderBot α]

/-- A destroyed system or node is not used. -/
def Site.step (s : Site P E α) : SiteOp P E α → Site P E α → Prop
  | .system op, t => s.ended = false ∧ op.Allowed s.world ∧
      (∀ p ∈ s.destroyed, op.node ≠ some p) ∧ (∃ fuel, s.world.exec fuel op = .ok t.world) ∧
      t.gone = op.gone s.gone ∧ t.destroyed = s.destroyed ∧ t.ended = false
  | .destroyEntity p, t => p ∉ s.destroyed ∧
      (∃ fuel, s.world.destroyEntity fuel p = .ok t.world) ∧ t.gone = Set.insert p s.gone ∧
      t.destroyed = Set.insert p s.destroyed ∧ t.ended = s.ended
  | .destroySystem, t => s.ended = false ∧ (∃ fuel, s.world.destroy fuel = .ok t.world) ∧
      t.gone = s.gone ∧ t.destroyed = s.destroyed ∧ t.ended = true

def siteRuns (P E α : Type) [DecidableEq P] [DecidableEq E] [LinearOrder α] [OrderBot α] :
    System (Site P E α) (SiteOp P E α) where
  init s := s.world.Fresh ∧ s.gone = ∅ ∧ s.destroyed = ∅ ∧ s.ended = false
  step := Site.step

/-- A node that is removed immediately, or destroyed, does not wait in `dels_`. -/
def NotPending (s : Site P E α) : SiteOp P E α → Prop
  | .system (.removeImmediately p) => p ∉ s.world.dels
  | .destroyEntity p => p ∉ s.world.dels
  | _ => True

structure SiteInv (s : Site P E α) : Prop where
  system : s.ended = false → ∃ live X, Inv s.world live X ∧ ∀ p ∈ s.gone, p ∉ live
  ended : s.ended = true → Emptied s.world
  dels : ∀ p ∈ s.gone, p ∉ s.world.dels
  destroyed : s.destroyed ⊆ s.gone

variable {s t : Site P E α}

lemma SiteInv.step {op : SiteOp P E α} (h : SiteInv s) (hop : NotPending s op)
    (hstep : s.step op t) : SiteInv t := by
  cases op with
  | system op =>
    obtain ⟨hended, hallowed, hnode, ⟨fuel, hexec⟩, hgone, hdestroyed, htended⟩ := hstep
    obtain ⟨live, X, hX, hlive⟩ := h.system hended
    obtain ⟨⟨X', hX'⟩, hdels⟩ := exec_inv hX hallowed hexec
    have hpending : ∀ q, op = .removeImmediately q → q ∉ s.world.dels := by
      rintro q rfl
      exact hop
    refine ⟨fun _ => ⟨_, X', hX', fun p hp => ?_⟩, fun ht => ?_, fun p hp hm => ?_, fun p hp => ?_⟩
    · exact Op.not_live (hgone ▸ hp) hlive
    · rw [htended] at ht
      cases ht
    · exact Op.not_pending (hgone ▸ hp) h.dels hpending (hdels hm)
    · rw [hdestroyed] at hp
      have hmem := h.destroyed hp
      have hother := hnode p hp
      rw [hgone]
      cases op with
      | insert q | remove q =>
        refine ⟨hmem, fun hq => hother ?_⟩
        rw [Set.mem_singleton_iff.mp hq]
        rfl
      | removeImmediately q => exact .inr hmem
      | setPosition | update | entityUpdate | removeDelNodes => exact hmem
  | destroyEntity p =>
    obtain ⟨hnew, ⟨fuel, hexec⟩, hgone, hdestroyed, htended⟩ := hstep
    have hsub : t.destroyed ⊆ t.gone := by
      rw [hgone, hdestroyed]
      exact Set.insert_subset_insert h.destroyed
    cases hended : s.ended with
    | false =>
      obtain ⟨live, X, hX, hlive⟩ := h.system hended
      obtain ⟨⟨X', hX'⟩, hdels⟩ := (destroyEntity_safe hX fuel).of_eq_ok hexec
      refine ⟨fun _ => ⟨_, X', hX', fun q hq hm => ?_⟩, fun ht => ?_, fun q hq => ?_, hsub⟩
      · rw [hgone] at hq
        obtain rfl | hq := hq
        · exact hm.2 rfl
        · exact hlive q hq hm.1
      · rw [htended, hended] at ht
        cases ht
      · rw [hgone] at hq
        rw [hdels]
        obtain rfl | hq := hq
        · exact hop
        · exact h.dels q hq
    | true =>
      have hemptied := h.ended hended
      have hworld : s.world = t.world := by
        have hunlinked := hemptied.unlinked p
        unfold World.destroyEntity World.removeCoordinateNodeFromCoordinateSystem at hexec
        rw [hemptied.coordinateSystemPtr p] at hexec
        simpa [bind, Except.bind, pure, Except.pure, hunlinked] using hexec
      refine ⟨fun ht => ?_, fun _ => hworld ▸ hemptied, fun q _ => ?_, hsub⟩
      · rw [htended, hended] at ht
        cases ht
      · rw [← hworld, hemptied.dels]
        exact List.not_mem_nil
  | destroySystem =>
    obtain ⟨hended, ⟨fuel, hexec⟩, hgone, hdestroyed, htended⟩ := hstep
    obtain ⟨live, X, hX, -⟩ := h.system hended
    have hemptied := (destroy_safe hX fuel).of_eq_ok hexec
    refine ⟨fun ht => ?_, fun _ => hemptied, fun p _ => ?_, ?_⟩
    · rw [htended] at ht
      cases ht
    · rw [hemptied.dels]
      exact List.not_mem_nil
    · rw [hgone, hdestroyed]
      exact h.destroyed

omit [DecidableEq P] [DecidableEq E] [OrderBot α] in
lemma SiteInv.unreferenced (h : SiteInv s) {p : P} (hp : p ∈ s.gone) : s.world.Unreferenced p := by
  cases hended : s.ended with
  | false =>
    obtain ⟨live, X, hX, hlive⟩ := h.system hended
    exact hX.unreferenced (hlive p hp) (h.dels p hp)
  | true => exact (h.ended hended).unreferenced p

/-- In every run in which no node is removed immediately, or destroyed, while it waits in `dels_`,
the system holds no pointer to a node that is gone; the destroyed nodes are among them. -/
theorem gone_unreferenced (h : Reachable ((siteRuns P E α).restrict NotPending) s) :
    (∀ p ∈ s.gone, s.world.Unreferenced p) ∧ s.destroyed ⊆ s.gone := by
  have hinv : SiteInv s := by
    apply h.invariant
    · intro s hs
      obtain ⟨hfresh, hgone, hdestroyed, hended⟩ := hs
      refine ⟨fun _ => ⟨∅, fun _ => [], fresh_inv hfresh, fun p _ => Set.notMem_empty p⟩, fun ht => ?_,
        fun p hp => ?_, ?_⟩
      · rw [hended] at ht
        cases ht
      · rw [hfresh.dels]
        exact List.not_mem_nil
      · rw [hdestroyed]
        exact Set.empty_subset _
    · intro s op t hs hstep
      exact hs.step hstep.1 hstep.2
  exact ⟨fun p hp => hinv.unreferenced hp, hinv.destroyed⟩

end Runs

section OneNode

/-- The system without nodes as the start of a run. -/
def emptySite : Site UInt64 Unit ℕ := ⟨emptyWorld, ∅, ∅, false⟩

lemma emptySite_init : (siteRuns UInt64 Unit ℕ).init emptySite :=
  ⟨emptyWorld_fresh, rfl, rfl, rfl⟩

/-- The first node is inserted into the empty system. -/
lemma insert_first : ∃ w live X, Inv w live X ∧ live.Nonempty ∧ w.dels = [] ∧
    (siteRuns UInt64 Unit ℕ).step emptySite (.system (.insert 1)) ⟨w, ∅ \ {1}, ∅, false⟩ := by
  have hop : (Op.insert 1 : Op UInt64 Unit ℕ).Allowed emptyWorld := rfl
  obtain ⟨w, hw, ⟨X, hX⟩, hdels⟩ :=
    (exec_safe (fresh_inv emptyWorld_fresh) hop trivial _).exists_ok (Nat.lt_succ_self _)
  refine ⟨w, _, X, hX, ⟨1, Set.mem_insert 1 ∅⟩, List.subset_nil.mp hdels, rfl, hop, ?_, ⟨_, hw⟩, rfl, rfl, rfl⟩
  intro p hp
  exact absurd hp (Set.notMem_empty p)

/-- The entity of the first node is destroyed while the node is in the system. -/
theorem gone_unreferenced_destroyed_entity :
    ∃ s, Reachable ((siteRuns UInt64 Unit ℕ).restrict NotPending) s ∧ 1 ∈ s.destroyed ∧
      s.world.Unreferenced 1 := by
  obtain ⟨w, live, X, hX, -, hdels, hinsert⟩ := insert_first
  obtain ⟨w', hw', -, -⟩ := (@destroyEntity_safe _ _ _ _ _ _ _ _ 1 _ hX _).exists_ok
    (Nat.lt_succ_self _)
  have hstart : Reachable ((siteRuns UInt64 Unit ℕ).restrict NotPending) emptySite :=
    .init emptySite_init
  have hinserted := @Reachable.step _ _ ((siteRuns UInt64 Unit ℕ).restrict NotPending)
    (SiteOp.system (.insert 1)) _ _ hstart ⟨trivial, hinsert⟩
  have hpending : (1 : UInt64) ∉ w.dels := by
    rw [hdels]
    exact List.not_mem_nil
  have hstep : (siteRuns UInt64 Unit ℕ).step ⟨w, ∅ \ {1}, ∅, false⟩ (SiteOp.destroyEntity 1)
      ⟨w', Set.insert 1 (∅ \ {1}), Set.insert 1 ∅, false⟩ :=
    ⟨Set.notMem_empty _, ⟨_, hw'⟩, rfl, rfl, rfl⟩
  have hdestroyed := @Reachable.step _ _ ((siteRuns UInt64 Unit ℕ).restrict NotPending)
    (SiteOp.destroyEntity 1) _ _ hinserted ⟨hpending, hstep⟩
  refine ⟨_, hdestroyed, .inl rfl, ?_⟩
  exact (gone_unreferenced hdestroyed).1 1 (.inl rfl)

/-- The entity of a node is destroyed after `Remove` and before the next `RemoveDelNodes`. -/
theorem destroyed_node_pending :
    ∃ s, Reachable (siteRuns UInt64 Unit ℕ) s ∧ 1 ∈ s.destroyed ∧ 1 ∈ s.gone ∧
      1 ∈ s.world.dels ∧ ¬ s.world.Unreferenced 1 := by
  obtain ⟨w, live, X, hX, hne, hdels, hinsert⟩ := insert_first
  have hop : (Op.remove 1 : Op UInt64 Unit ℕ).Allowed w := trivial
  obtain ⟨w', hw', ⟨X', hX'⟩, -⟩ := (exec_safe hX hop hne _).exists_ok (Nat.lt_succ_self _)
  obtain ⟨w'', hw'', -, hdels'⟩ := (@destroyEntity_safe _ _ _ _ _ _ _ _ 1 _ hX' _).exists_ok
    (Nat.lt_succ_self _)
  have hstart : Reachable (siteRuns UInt64 Unit ℕ) emptySite := .init emptySite_init
  have hinserted := hstart.step hinsert
  have hremoved : Reachable (siteRuns UInt64 Unit ℕ) ⟨w', (∅ \ {1}) \ {1}, ∅, false⟩ :=
    @Reachable.step _ _ (siteRuns UInt64 Unit ℕ) (SiteOp.system (.remove 1)) _ _ hinserted
      ⟨rfl, hop, fun p hp => absurd hp (Set.notMem_empty p), ⟨_, hw'⟩, rfl, rfl, rfl⟩
  have hdestroyed : Reachable (siteRuns UInt64 Unit ℕ)
      ⟨w'', Set.insert 1 ((∅ \ {1}) \ {1}), Set.insert 1 ∅, false⟩ :=
    @Reachable.step _ _ (siteRuns UInt64 Unit ℕ) (SiteOp.destroyEntity 1) _ _ hremoved
      ⟨Set.notMem_empty _, ⟨_, hw''⟩, rfl, rfl, rfl⟩
  have hpending : (1 : UInt64) ∈ w''.dels := by
    rw [hdels']
    exact remove_pending hw'
  exact ⟨_, hdestroyed, .inl rfl, .inl rfl, hpending, fun hfree => hfree.dels hpending⟩

end OneNode
end TyphoonZero.Coordinate
