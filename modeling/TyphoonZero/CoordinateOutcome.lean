import TyphoonZero.CoordinateSystem
import TyphoonZero.CrossListUpdate

/-! What has changed when an operation of the coordinate system has come to its end. -/
namespace TyphoonZero.Coordinate
open Loop CrossList

section Outcome
variable {P E α : Type} {w w' : World P E α} {fuel : ℕ} {p : P}

lemma mapAxes_ok {f : Axis → AxisList P α → Except Fault (AxisList P α)} (h : w.mapAxes f = .ok w') :
    (∀ a, f a (w.axis a) = .ok (w'.axis a)) ∧ w' = { w with axis := w'.axis } := by
  obtain ⟨axis, haxis, h⟩ := bind_ok h
  obtain rfl := Except.ok.inj h
  exact ⟨eachAxis_ok haxis, rfl⟩

variable [DecidableEq P]

@[simp] lemma resetOldRealXYZ_eq (w : World P E α) (p : P) : w.resetOldRealXYZ p = w := by
  simp [World.resetOldRealXYZ]

/-- A flag that has nothing to do with the updates of watchers. -/
def Separate (flag : UInt16) : Prop :=
  kCoordinateNodeFlagUpdating &&& flag = 0 ∧ ~~~kCoordinateNodeFlagUpdating &&& flag = flag

omit [DecidableEq P] in
lemma hasFlag_of_mask {q : P} {flag : UInt16} (h : w'.flags q &&& flag = w.flags q &&& flag) :
    w'.hasFlag q flag = w.hasFlag q flag := by
  simp only [World.hasFlag, h]

lemma addFlag_updating {flag : UInt16} (h : Separate flag) (q : P) :
    (w.addFlag p kCoordinateNodeFlagUpdating).hasFlag q flag = w.hasFlag q flag := by
  apply hasFlag_of_mask
  unfold World.addFlag
  dsimp only
  by_cases hq : q = p
  · rw [hq, Function.update_self, ← UInt16.toBitVec_inj, UInt16.toBitVec_and, UInt16.toBitVec_or,
      BitVec.and_or_distrib_right, ← UInt16.toBitVec_and, ← UInt16.toBitVec_and, h.1]
    simp
  · rw [Function.update_of_ne hq]

lemma removeFlag_updating {flag : UInt16} (h : Separate flag) (q : P) :
    (w.removeFlag p kCoordinateNodeFlagUpdating).hasFlag q flag = w.hasFlag q flag := by
  apply hasFlag_of_mask
  unfold World.removeFlag
  dsimp only
  by_cases hq : q = p
  · rw [hq, Function.update_self, UInt16.and_assoc, h.2]
  · rw [Function.update_of_ne hq]

variable [LinearOrder α] [OrderBot α]

lemma update_ok (h : w.update fuel p = .ok w') :
    (∀ a, (w.axis a).update w.flagView true fuel p (w.getReal p a) (w.oldRealPosition a p) =
      .ok (w'.axis a)) ∧ w' = { w with axis := w'.axis } := by
  obtain ⟨v, hv, h⟩ := bind_ok h
  rw [resetOldRealXYZ_eq] at h
  obtain ⟨u, -, h⟩ := bind_ok h
  obtain rfl := Except.ok.inj h
  exact mapAxes_ok hv

/-- The state before the update inside an insertion; `axis` has the node in front. -/
def World.joined (w : World P E α) (p : P) (axis : Axis → AxisList P α) : World P E α :=
  { w with
    axis := axis
    oldRealPosition := fun a => Function.update (w.oldRealPosition a) p ⊥
    coordinateSystemPtr := Function.update w.coordinateSystemPtr p true
    size := w.size + 1 }

lemma insert_ok (hne : w.isEmpty = false) (h : w.insert fuel p = .ok w') :
    ∃ axis : Axis → AxisList P α, (∀ a, (w.axis a).pushFirst p = .ok (axis a)) ∧
      (w.joined p axis).update fuel p = .ok w' := by
  unfold World.insert at h
  rw [if_neg (by simp [hne])] at h
  obtain ⟨v, hv, h⟩ := bind_ok h
  obtain ⟨hpush, hrest⟩ := mapAxes_ok hv
  refine ⟨v.axis, hpush, ?_⟩
  rw [hrest] at h
  exact h

lemma nodeUpdate_ok (h : w.nodeUpdate fuel p = .ok w') : w' = { w with axis := w'.axis } := by
  unfold World.nodeUpdate at h
  split_ifs at h
  · exact (update_ok h).2
  · obtain rfl := Except.ok.inj h
    rfl

/-- An update of an entity node without watchers. -/
lemma entityUpdate_unwatched {depth : ℕ} (hw : w.watcherNodes p = [])
    (h : w.entityUpdate fuel depth p = .ok w') :
    ∃ v, (w.storeOldRealPosition p).nodeUpdate fuel p = .ok v ∧ v.watcherNodes = w.watcherNodes ∧
      w' = ((v.beginUpdate p).endUpdate p).clearDelWatcherNodes p := by
  cases depth with
  | zero =>
    unfold World.entityUpdate at h
    cases h
  | succ depth =>
    unfold World.entityUpdate at h
    obtain ⟨v, hv, h⟩ := bind_ok h
    obtain ⟨c, hloop, h⟩ := bind_ok h
    have hsame : v.watcherNodes = w.watcherNodes := by
      rw [nodeUpdate_ok hv]
      rfl
    have hwatch : (v.beginUpdate p).watcherNodes p = [] := by
      rw [← hw, ← hsame]
      rfl
    cases fuel with
    | zero => cases hloop
    | succ fuel =>
      simp only [whileExcept, hwatch, List.getElem?_nil] at hloop
      obtain rfl := Except.ok.inj hloop
      exact ⟨v, hv, hsame, (Except.ok.inj h).symm⟩

end Outcome

end TyphoonZero.Coordinate
