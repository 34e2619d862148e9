import TyphoonZero.CoordinateInvariant
import TyphoonZero.CoordinateOutcome

/-! Whether the stored coordinates of a node, and the ones kept from its last update, are the
real ones. -/
namespace TyphoonZero.Coordinate
open Loop CrossList Transition

variable {P E α : Type} [LinearOrder α] [OrderBot α]

def Follows (w : World P E α) (p : P) : Prop :=
  ∀ a, (w.axis a).pos p = w.getReal p a ∧ w.oldRealPosition a p = w.getReal p a

/-- What an insertion or an update has to leave behind. -/
def Op.Followed (w : World P E α) : Op P E α → Prop
  | .insert p => Follows w p
  | .update p => Follows w p
  | .entityUpdate p => Follows w p
  | _ => True

/-- The node of the operation has not moved since its coordinates were kept. -/
def Op.Timely (w : World P E α) : Op P E α → Prop
  | .insert p =>
    if w.isEmpty then ∀ a, w.oldRealPosition a p = w.getReal p a
    else ∀ a, w.getReal p a = ⊥ ∧ ∀ f, (w.axis a).first = some f → (w.axis a).pos f = ⊥
  | .update p => ∀ a, w.getReal p a = w.oldRealPosition a p ∧ (w.axis a).pos p = w.getReal p a
  | .entityUpdate p => ∀ a, (w.axis a).pos p = w.getReal p a
  | _ => True

/-- The nodes inserted or updated and not removed since. -/
def Op.current (cur : Set P) : Op P E α → Set P
  | .insert p => Set.insert p cur
  | .update p => Set.insert p cur
  | .entityUpdate p => Set.insert p cur
  | .remove p => cur \ {p}
  | .removeImmediately p => cur \ {p}
  | _ => cur

/-- The node whose coordinates an operation works with. -/
def Op.node? : Op P E α → Option P
  | .insert p => some p
  | .update p => some p
  | .entityUpdate p => some p
  | .remove p => some p
  | .removeImmediately p => some p
  | _ => none

/-- Stored and kept coordinates of a node are the same as before. -/
def SameAt (w w' : World P E α) (q : P) : Prop :=
  ∀ a, (w'.axis a).pos q = (w.axis a).pos q ∧ w'.oldRealPosition a q = w.oldRealPosition a q

/-- The coordinates of all nodes are the same, the real ones as well. -/
structure Idle (w w' : World P E α) : Prop where
  axis : w'.axis = w.axis
  oldRealPosition : w'.oldRealPosition = w.oldRealPosition
  getReal : w'.getReal = w.getReal

section Idle
variable {u v w w' : World P E α} {p q : P}

lemma Idle.trans (h : Idle u v) (h' : Idle v w) : Idle u w :=
  ⟨h'.axis.trans h.axis, h'.oldRealPosition.trans h.oldRealPosition, h'.getReal.trans h.getReal⟩

lemma Idle.follows (h : Idle w w') : Follows w' p ↔ Follows w p := by
  simp only [Follows, h.axis, h.oldRealPosition, h.getReal]

lemma Idle.sameAt (h : Idle w w') : SameAt w w' q := fun a => by
  rw [h.axis, h.oldRealPosition]
  exact ⟨rfl, rfl⟩

lemma Idle.of_flags (haxis : w'.axis = w.axis) (hold : w'.oldRealPosition = w.oldRealPosition)
    (hentity : w'.entityPtr = w.entityPtr) (hposition : w'.entityPosition = w.entityPosition)
    (hflags : ∀ q flag, Separate flag → w'.hasFlag q flag = w.hasFlag q flag) : Idle w w' := by
  refine ⟨haxis, hold, funext fun q => funext fun a => ?_⟩
  have hremoved := hflags q (kCoordinateNodeFlagRemoved ||| kCoordinateNodeFlagRemoving)
    ⟨by decide, by decide⟩
  simp only [World.getReal, hentity, hposition, hremoved]

variable [DecidableEq P]

lemma watchers_idle (v : World P E α) (p : P) :
    Idle v (((v.beginUpdate p).endUpdate p).clearDelWatcherNodes p) := by
  have hbegin : Idle v (v.beginUpdate p) :=
    .of_flags rfl rfl rfl rfl fun q _ hflag => addFlag_updating hflag q
  have hend : Idle (v.beginUpdate p) ((v.beginUpdate p).endUpdate p) := by
    unfold World.endUpdate
    dsimp only
    split_ifs
    · exact .of_flags rfl rfl rfl rfl fun q _ hflag => removeFlag_updating hflag q
    · exact .of_flags rfl rfl rfl rfl fun _ _ _ => rfl
  refine (hbegin.trans hend).trans ?_
  unfold World.clearDelWatcherNodes
  split_ifs <;> exact .of_flags rfl rfl rfl rfl fun _ _ _ => rfl

end Idle

section Steps
variable [DecidableEq P] {w w' : World P E α} {live : Set P} {X : Axis → List P} {fuel : ℕ} {p q : P}

omit [LinearOrder α] [OrderBot α] [DecidableEq P] in
lemma SameAt.trans {u v w : World P E α} (h : SameAt u v q) (h' : SameAt v w q) : SameAt u w q := fun a =>
  ⟨(h' a).1.trans (h a).1, (h' a).2.trans (h a).2⟩

lemma update_pos (h : ∀ a, AxisInv (w.axis a) live (X a)) (hok : w.update fuel p = .ok w') (a : Axis) :
    (w'.axis a).pos =
      if w.getReal p a = w.oldRealPosition a p then (w.axis a).pos
      else Function.update (w.axis a).pos p (w.getReal p a) :=
  (((h a).update w.flagView true fuel p _ _).of_eq_ok ((update_ok hok).1 a)).2

lemma update_same (h : ∀ a, AxisInv (w.axis a) live (X a)) (hok : w.update fuel p = .ok w') (hq : q ≠ p) :
    SameAt w w' q := by
  intro a
  refine ⟨?_, by rw [(update_ok hok).2]⟩
  rw [update_pos h hok a]
  split_ifs
  · rfl
  · exact Function.update_of_ne hq ..

/-- A skipped axis must be right already; an axis that is not skipped keeps its old value. -/
lemma update_follows (h : ∀ a, AxisInv (w.axis a) live (X a)) (hok : w.update fuel p = .ok w') :
    Follows w' p ↔ ∀ a, w.getReal p a = w.oldRealPosition a p ∧ (w.axis a).pos p = w.getReal p a := by
  have hreal : ∀ a, w'.getReal p a = w.getReal p a := fun a => by
    rw [(update_ok hok).2]
    rfl
  have hold : ∀ a, w'.oldRealPosition a p = w.oldRealPosition a p := fun a => by rw [(update_ok hok).2]
  refine forall_congr' fun a => ?_
  rw [hreal, hold, update_pos h hok a]
  constructor
  · intro hf
    have heq := hf.2.symm
    rw [if_pos heq] at hf
    exact ⟨heq, hf.1⟩
  · intro hf
    rw [if_pos hf.1]
    exact ⟨hf.2, hf.1.symm⟩

omit [OrderBot α] in
lemma push_pos (h : Inv w live X) (hp : p ∉ live) {axis : Axis → AxisList P α}
    (hpush : ∀ a, (w.axis a).pushFirst p = .ok (axis a)) (a : Axis) :
    ∃ f L, (w.axis a).first = some f ∧ AxisInv (axis a) (Set.insert p live) (p :: f :: L) ∧
      (axis a).pos = Function.update (w.axis a).pos p ((w.axis a).pos f) := by
  have hax := h.axis a
  have hpush := hpush a
  cases hX : X a with
  | nil =>
    have hfirst := hax.linked.first
    rw [hX] at hfirst
    simp [AxisList.pushFirst, hfirst] at hpush
  | cons f L =>
    rw [hX] at hax
    obtain ⟨l', hl', hinv, hpos⟩ := hax.push hp
    obtain rfl := Except.ok.inj (hpush.symm.trans hl')
    exact ⟨f, L, hax.linked.first, hinv, hpos⟩

lemma insert_follows (h : Inv w live X) (hp : w.coordinateSystemPtr p = false)
    (hok : w.insert fuel p = .ok w') : Follows w' p ↔ (Op.insert p : Op P E α).Timely w := by
  by_cases he : w.isEmpty = true
  · unfold World.insert at hok
    rw [if_pos he] at hok
    obtain rfl := Except.ok.inj hok
    rw [Op.Timely, if_pos he, resetOldRealXYZ_eq]
    refine forall_congr' fun a => ?_
    refine and_iff_right_of_imp fun _ => ?_
    exact Function.update_self ..
  · obtain ⟨axis, hpush, hjoined⟩ := insert_ok (Bool.eq_false_iff.mpr he) hok
    choose f L hfirst hinv hpos using push_pos h (h.not_live hp) hpush
    rw [Op.Timely, if_neg he, update_follows hinv hjoined]
    refine forall_congr' fun a => ?_
    have hstored : (axis a).pos p = (w.axis a).pos (f a) := by rw [hpos a, Function.update_self]
    have hkept : (w.joined p axis).oldRealPosition a p = ⊥ := Function.update_self ..
    have hreal : (w.joined p axis).getReal p a = w.getReal p a := rfl
    rw [hkept, hreal, hfirst a]
    change _ ∧ (axis a).pos p = _ ↔ _
    rw [hstored]
    refine and_congr_right fun hbot => ?_
    rw [hbot]
    constructor
    · intro hf g hg
      obtain rfl := Option.some.inj hg
      exact hf
    · intro hf
      exact hf (f a) rfl

lemma insert_same (h : Inv w live X) (hp : w.coordinateSystemPtr p = false)
    (hok : w.insert fuel p = .ok w') (hq : q ≠ p) : SameAt w w' q := by
  by_cases he : w.isEmpty = true
  · unfold World.insert at hok
    rw [if_pos he] at hok
    obtain rfl := Except.ok.inj hok
    rw [resetOldRealXYZ_eq]
    exact fun a => ⟨Function.update_of_ne hq .., rfl⟩
  · obtain ⟨axis, hpush, hjoined⟩ := insert_ok (Bool.eq_false_iff.mpr he) hok
    choose f L hfirst hinv hpos using push_pos h (h.not_live hp) hpush
    have hjoin : SameAt w (w.joined p axis) q := fun a => by
      refine ⟨?_, Function.update_of_ne hq ..⟩
      change (axis a).pos q = _
      rw [hpos a, Function.update_of_ne hq]
    exact hjoin.trans (update_same hinv hjoined hq)

omit [LinearOrder α] [OrderBot α] in
lemma storeOldRealPosition_same (hq : q ≠ p) : SameAt w (w.storeOldRealPosition p) q := fun _ =>
  ⟨rfl, Function.update_of_ne hq ..⟩

lemma nodeUpdate_same (h : Inv w live X) (hok : w.nodeUpdate fuel p = .ok w') (hq : q ≠ p) :
    SameAt w w' q := by
  unfold World.nodeUpdate at hok
  split_ifs at hok
  · exact update_same h.axis hok hq
  · obtain rfl := Except.ok.inj hok
    exact fun _ => ⟨rfl, rfl⟩

lemma entityUpdate_follows (h : Inv w live X) {depth : ℕ} (hok : w.entityUpdate fuel depth p = .ok w') :
    Follows w' p ↔ ∀ a, (w.axis a).pos p = w.getReal p a := by
  obtain ⟨v, hv, -, rfl⟩ := entityUpdate_unwatched (h.watchers p) hok
  have hkept : ∀ a, (w.storeOldRealPosition p).oldRealPosition a p = (w.axis a).pos p := fun a =>
    Function.update_self ..
  rw [(watchers_idle v p).follows]
  unfold World.nodeUpdate at hv
  split_ifs at hv
  · rw [@update_follows _ _ _ _ _ _ (w.storeOldRealPosition p) v live X fuel p h.axis hv]
    refine forall_congr' fun a => ?_
    rw [hkept]
    exact ⟨And.right, fun heq => ⟨heq.symm, heq⟩⟩
  · obtain rfl := Except.ok.inj hv
    refine forall_congr' fun a => ?_
    rw [hkept]
    exact and_self_iff

lemma entityUpdate_same (h : Inv w live X) {depth : ℕ} (hok : w.entityUpdate fuel depth p = .ok w')
    (hq : q ≠ p) : SameAt w w' q := by
  obtain ⟨v, hv, -, rfl⟩ := entityUpdate_unwatched (h.watchers p) hok
  have hstore : Inv (w.storeOldRealPosition p) live X := h.congr rfl rfl rfl rfl
  exact ((storeOldRealPosition_same hq).trans (nodeUpdate_same hstore hv hq)).trans
    (watchers_idle v p).sameAt

/-- The part which `Remove` and `RemoveImmediately` share. -/
lemma removing_same (h : Inv w live X)
    (hok : ((w.addFlag p kCoordinateNodeFlagRemoving).onRemove p).update fuel p = .ok w') (hq : q ≠ p) :
    SameAt w w' q := by
  have hstore : SameAt w ((w.addFlag p kCoordinateNodeFlagRemoving).onRemove p) q := fun _ =>
    ⟨rfl, Function.update_of_ne hq ..⟩
  exact hstore.trans (update_same (h.onRemove kCoordinateNodeFlagRemoving).axis hok hq)

omit [LinearOrder α] [OrderBot α] in
lemma unlink_pos {l l' : AxisList P α} (h : l.unlink p = .ok l') : l'.pos = l.pos := by
  unfold AxisList.unlink at h
  split_ifs at h
  · split at h
    · obtain rfl := Except.ok.inj h
      rfl
    · obtain rfl := Except.ok.inj h
      simp
  · split at h
    · cases h
    · dsimp only at h
      split at h
      · obtain rfl := Except.ok.inj h
        simp
      · obtain rfl := Except.ok.inj h
        simp

omit [LinearOrder α] [OrderBot α] in
lemma removeReal_same (hok : w.removeReal p = .ok w') : SameAt w w' q := by
  unfold World.removeReal at hok
  split_ifs at hok
  · obtain rfl := Except.ok.inj hok
    exact fun _ => ⟨rfl, rfl⟩
  · obtain ⟨v, hv, hok⟩ := bind_ok hok
    obtain rfl := Except.ok.inj hok
    obtain ⟨haxis, hrest⟩ := mapAxes_ok hv
    intro a
    obtain ⟨l, hl, hreset⟩ := map_ok (haxis a)
    refine ⟨?_, by rw [hrest]⟩
    rw [← unlink_pos hl]
    change (v.axis a).pos q = _
    rw [← hreset]
    rfl

omit [LinearOrder α] [OrderBot α] in
lemma removeDelNodes_same (hok : w.removeDelNodes = .ok w') : SameAt w w' q := by
  have hfold : ∀ (ds : List P) (w w' : World P E α),
      ds.foldlM (fun (w : World P E α) p => w.removeReal p) w = .ok w' → SameAt w w' q := by
    intro ds
    induction ds with
    | nil =>
      intro w w' hok
      obtain rfl := Except.ok.inj hok
      exact fun _ => ⟨rfl, rfl⟩
    | cons d ds ih =>
      intro w w' hok
      rw [List.foldlM_cons] at hok
      obtain ⟨v, hv, hok⟩ := bind_ok hok
      exact (removeReal_same hv).trans (ih v w' hok)
  unfold World.removeDelNodes at hok
  split_ifs at hok
  · obtain rfl := Except.ok.inj hok
    exact fun _ => ⟨rfl, rfl⟩
  · obtain ⟨v, hv, hok⟩ := bind_ok hok
    obtain rfl := Except.ok.inj hok
    exact hfold w.dels w v hv

end Steps

section Runs
variable [DecidableEq P] [DecidableEq E] {w w' : World P E α} {live : Set P} {X : Axis → List P} {fuel : ℕ}
  {op : Op P E α} {q : P}

theorem exec_followed (h : Inv w live X) (hop : op.Allowed w) (hok : w.exec fuel op = .ok w') :
    op.Followed w' ↔ op.Timely w := by
  cases op with
  | insert p => exact insert_follows h hop hok
  | update p => exact update_follows h.axis hok
  | entityUpdate p => exact entityUpdate_follows h hok
  | setPosition e v => exact Iff.rfl
  | remove p => exact Iff.rfl
  | removeImmediately p => exact Iff.rfl
  | removeDelNodes => exact Iff.rfl

/-- An operation on another node. -/
lemma exec_same (h : Inv w live X) (hop : op.Allowed w) (hok : w.exec fuel op = .ok w')
    (hq : op.node? ≠ some q) : SameAt w w' q := by
  have hne : ∀ p, op.node? = some p → q ≠ p := fun p hp he => hq (he ▸ hp)
  cases op with
  | insert p => exact insert_same h hop hok (hne p rfl)
  | update p => exact update_same h.axis hok (hne p rfl)
  | entityUpdate p => exact entityUpdate_same h hok (hne p rfl)
  | setPosition e v =>
    obtain rfl := Except.ok.inj hok
    exact fun _ => ⟨rfl, rfl⟩
  | remove p =>
    obtain ⟨v, hv, hok⟩ := bind_ok hok
    refine (removing_same h hv (hne p rfl)).trans ?_
    dsimp only at hok
    split_ifs at hok <;> obtain rfl := Except.ok.inj hok <;> exact fun _ => ⟨rfl, rfl⟩
  | removeImmediately p =>
    obtain ⟨v, hv, hok⟩ := bind_ok hok
    have hflag : SameAt v (v.addFlag p kCoordinateNodeFlagRemoved) q := fun _ => ⟨rfl, rfl⟩
    exact ((removing_same h hv (hne p rfl)).trans hflag).trans (removeReal_same hok)
  | removeDelNodes => exact removeDelNodes_same hok

omit [OrderBot α] [DecidableEq P] [DecidableEq E] [LinearOrder α] in
/-- A node is inserted or updated by the operation, or was before and is not its node. -/
lemma mem_current {cur : Set P} (hq : q ∈ op.current cur) :
    (op = .insert q ∨ op = .update q ∨ op = .entityUpdate q) ∨ op.node? ≠ some q ∧ q ∈ cur := by
  by_cases hnode : op.node? = some q
  · cases op with
    | insert p =>
      obtain rfl := Option.some.inj hnode
      exact .inl (.inl rfl)
    | update p =>
      obtain rfl := Option.some.inj hnode
      exact .inl (.inr (.inl rfl))
    | entityUpdate p =>
      obtain rfl := Option.some.inj hnode
      exact .inl (.inr (.inr rfl))
    | setPosition e v => cases hnode
    | remove p =>
      obtain rfl := Option.some.inj hnode
      exact absurd rfl hq.2
    | removeImmediately p =>
      obtain rfl := Option.some.inj hnode
      exact absurd rfl hq.2
    | removeDelNodes => cases hnode
  · refine .inr ⟨hnode, ?_⟩
    cases op with
    | insert p => exact hq.resolve_left fun he => hnode (he ▸ rfl)
    | update p => exact hq.resolve_left fun he => hnode (he ▸ rfl)
    | entityUpdate p => exact hq.resolve_left fun he => hnode (he ▸ rfl)
    | setPosition e v => exact hq
    | remove p => exact hq.1
    | removeImmediately p => exact hq.1
    | removeDelNodes => exact hq

/-- The nodes that the operations have left inserted or updated. -/
def current (ops : List (Op P E α)) : Set P := ops.foldl (fun cur op => op.current cur) ∅

/-- For nodes in use the kept coordinates are the stored ones. -/
lemma kept_eq_stored {ops : List (Op P E α)} {s : World P E α × Set P}
    (h : Traces ((coordinateRuns P E α).restrict fun s op => op.Timely s.1) ops s) :
    (∃ X, Inv s.1 s.2 X) ∧ ∀ q ∈ current ops, ∀ a, s.1.oldRealPosition a q = (s.1.axis a).pos q := by
  refine Traces.induction (I := fun ops s =>
    (∃ X, Inv s.1 s.2 X) ∧ ∀ q ∈ current ops, ∀ a, s.1.oldRealPosition a q = (s.1.axis a).pos q) ?_ ?_ h
  · intro s hs
    exact ⟨reachable_inv (.init hs), fun q hq => by cases hq⟩
  · intro ops s op t hI hstep
    obtain ⟨⟨X, hX⟩, hkept⟩ := hI
    obtain ⟨htimely, hop, ⟨fuel, hok⟩, hlive⟩ := hstep
    obtain ⟨⟨X', hX'⟩, -⟩ := exec_inv hX hop hok
    refine ⟨⟨X', hlive ▸ hX'⟩, fun q hq a => ?_⟩
    rw [current, List.foldl_append] at hq
    have hfollowed := (exec_followed hX hop hok).mpr htimely
    have hfollows : Follows t.1 q → t.1.oldRealPosition a q = (t.1.axis a).pos q := fun hf =>
      (hf a).2.trans (hf a).1.symm
    rcases mem_current hq with hnode | hother
    · rcases hnode with rfl | rfl | rfl <;> exact hfollows hfollowed
    · have hsame := exec_same hX hop hok hother.1 a
      rw [hsame.1, hsame.2]
      exact hkept q hother.2 a

/-- An insertion or an update leaves the real coordinates behind exactly when nothing had
moved. Runs of such operations never skip an axis that is wrong. -/
theorem stored_follow_real :
    (∀ s op t, Reachable (coordinateRuns P E α) s → (coordinateRuns P E α).step s op t →
      (op.Followed t.1 ↔ op.Timely s.1)) ∧
    ∀ ops s, Traces ((coordinateRuns P E α).restrict fun s op => op.Timely s.1) ops s →
      (∀ op, ops.getLast? = some op → op.Followed s.1) ∧
      ∀ q ∈ current ops, ∀ a, s.1.getReal q a = s.1.oldRealPosition a q →
        (s.1.axis a).pos q = s.1.getReal q a := by
  constructor
  · intro s op t hs hstep
    obtain ⟨X, hX⟩ := reachable_inv hs
    obtain ⟨hop, ⟨fuel, hok⟩, -⟩ := hstep
    exact exec_followed hX hop hok
  · intro ops s h
    refine ⟨fun op hlast => ?_, fun q hq a hskip => ?_⟩
    · obtain ⟨ops', rfl⟩ := List.getLast?_eq_some_iff.mp hlast
      obtain ⟨r, hr, htimely, hop, ⟨fuel, hok⟩, -⟩ := h.snoc_inv
      obtain ⟨⟨X, hX⟩, -⟩ := kept_eq_stored hr
      exact (exec_followed hX hop hok).mpr htimely
    · rw [hskip]
      exact ((kept_eq_stored h).2 q hq a).symm

end Runs

section Examples

/-- A node that has never been in a system, with its entity at 10 on all axes and 10 kept. -/
def oneNode : World Unit Unit ℕ where
  axis _ := { pos := fun _ => 10 }
  oldRealPosition _ _ := 10
  entityPtr _ := some ()
  entityPosition _ _ := 10
  flags _ := kCoordinateNodeFlagEntity
  coordinateSystemPtr _ := false
  watcherNodes _ := []
  deleteWatcherNodeNum _ := 0
  entityNodeUpdating _ := 0
  size := 0
  delsCount := 0
  dels := []

lemma oneNode_init : (coordinateRuns Unit Unit ℕ).init (oneNode, ∅) :=
  ⟨⟨fun _ => ⟨rfl, fun _ => ⟨rfl, rfl⟩⟩, fun _ => rfl, fun _ => rfl, rfl, rfl, rfl⟩, rfl⟩

instance (w : World Unit Unit ℕ) (op : Op Unit Unit ℕ) : Decidable (op.Allowed w) :=
  match op with
  | .insert p => inferInstanceAs (Decidable (w.coordinateSystemPtr p = false))
  | .setPosition _ _ => inferInstanceAs (Decidable True)
  | .update _ => inferInstanceAs (Decidable True)
  | .entityUpdate _ => inferInstanceAs (Decidable True)
  | .remove _ => inferInstanceAs (Decidable True)
  | .removeImmediately _ => inferInstanceAs (Decidable True)
  | .removeDelNodes => inferInstanceAs (Decidable True)

/-- One operation of a run, with enough fuel for one node. -/
def tryOp (s : World Unit Unit ℕ × Set Unit) (op : Op Unit Unit ℕ) : Option (World Unit Unit ℕ × Set Unit) :=
  if op.Allowed s.1 then (s.1.exec 4 op).toOption.map fun w => (w, op.live s.1 s.2) else none

lemma tryOp_step {s t : World Unit Unit ℕ × Set Unit} {op : Op Unit Unit ℕ} (h : tryOp s op = some t) :
    (coordinateRuns Unit Unit ℕ).step s op t := by
  unfold tryOp at h
  split_ifs at h with hop
  obtain ⟨w, hw, rfl⟩ := Option.map_eq_some_iff.mp h
  exact ⟨hop, ⟨4, toOption_eq_some hw⟩, rfl⟩

/-- The entity moves away, updates itself, and moves back. -/
def moveAwayAndBack : List (Op Unit Unit ℕ) :=
  [.insert (), .setPosition () (fun _ => 17), .entityUpdate (), .setPosition () (fun _ => 10), .update ()]

lemma moveAwayAndBack_result :
    (moveAwayAndBack.foldlM tryOp (oneNode, ∅)).map (fun s =>
      ((s.1.axis .x).pos (), s.1.getReal () .x, s.1.oldRealPosition .x ())) = some (17, 10, 10) := by
  decide +kernel

/-- The update after the way back skips the axis and leaves the node stored at 17. -/
theorem stored_stays_behind : ∃ s, Traces (coordinateRuns Unit Unit ℕ) moveAwayAndBack s ∧
    moveAwayAndBack.getLast? = some (.update ()) ∧ ¬ Follows s.1 () ∧
    s.1.getReal () .x = s.1.oldRealPosition .x () ∧ (s.1.axis .x).pos () ≠ s.1.getReal () .x := by
  have hres := moveAwayAndBack_result
  rw [Option.map_eq_some_iff] at hres
  obtain ⟨s, hrun, hs⟩ := hres
  simp only [Prod.mk.injEq] at hs
  obtain ⟨hpos, hreal, hold⟩ := hs
  have hne : (s.1.axis .x).pos () ≠ s.1.getReal () .x := by
    rw [hpos, hreal]
    decide
  exact ⟨s, (Traces.nil oneNode_init).of_foldlM (fun _ _ _ => tryOp_step) hrun, rfl,
    fun hf => hne (hf .x).1, hreal.trans hold.symm, hne⟩

/-- A node that stands where it was inserted may be updated in both ways. -/
theorem stored_follow_real_in_place : ∃ s, Traces ((coordinateRuns Unit Unit ℕ).restrict fun s op =>
    op.Timely s.1) [.insert (), .entityUpdate (), .update ()] s ∧ Follows s.1 () := by
  have hstep : ∀ ops s op, Traces ((coordinateRuns Unit Unit ℕ).restrict fun s op => op.Timely s.1) ops s →
      op.Allowed s.1 → op.Debuggable s.2 → op.Timely s.1 →
      ∃ t, t.2 = op.live s.1 s.2 ∧
        Traces ((coordinateRuns Unit Unit ℕ).restrict fun s op => op.Timely s.1) (ops ++ [op]) t := by
    intro ops s op hs hop hdebug htimely
    obtain ⟨⟨X, hX⟩, -⟩ := kept_eq_stored hs
    obtain ⟨w', hw', -⟩ := (exec_safe hX hop hdebug _).exists_ok (Nat.lt_succ_self _)
    exact ⟨(w', op.live s.1 s.2), rfl, hs.snoc ⟨htimely, hop, ⟨_, hw'⟩, rfl⟩⟩
  have hinsert : (Op.insert () : Op Unit Unit ℕ).Timely oneNode := by
    intro a
    cases a <;> rfl
  obtain ⟨s₁, hlive₁, h₁⟩ := hstep [] (oneNode, ∅) (.insert ()) (.nil oneNode_init) rfl trivial hinsert
  have hf₁ : Follows s₁.1 () := (stored_follow_real.2 _ s₁ h₁).1 _ rfl
  obtain ⟨s₂, hlive₂, h₂⟩ := hstep _ s₁ (.entityUpdate ()) h₁ trivial trivial fun a => (hf₁ a).1
  have hf₂ : Follows s₂.1 () := (stored_follow_real.2 _ s₂ h₂).1 _ rfl
  have hne : s₂.2.Nonempty := by
    have hsame : s₂.2 = s₁.2 := hlive₂
    rw [hsame, hlive₁]
    exact ⟨(), Set.mem_insert () ∅⟩
  obtain ⟨s₃, -, h₃⟩ := hstep _ s₂ (.update ()) h₂ trivial hne fun a => ⟨(hf₂ a).2.symm, (hf₂ a).1⟩
  exact ⟨s₃, h₃, (stored_follow_real.2 _ s₃ h₃).1 _ rfl⟩

end Examples

end TyphoonZero.Coordinate
