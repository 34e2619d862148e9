import TyphoonZero.AOIRun
import TyphoonZero.CoordinateInvariant
import TyphoonZero.CoordinateOutcome
import TyphoonZero.CrossListPasses

/-! The AOI manager and the coordinate system of the cell server side by side: the same nodes are
inserted into both and moved in both, each move followed by the node's own update. -/
namespace TyphoonZero.Agreement
open Loop LinkedChain CrossList Transition

abbrev Node := AOI.Node

/-- The two implementations with the same nodes. -/
structure Pair (E α : Type) where
  aoi : AOI.World α
  cell : Coordinate.World Node E α

section Definitions
variable {E α : Type} [DecidableEq E] [LinearOrder α] [OrderBot α]

/-- `AOINode::Update`. -/
def aoiNodeUpdate (w : AOI.World α) (fuel : ℕ) (p : Node) : Except Fault (AOI.World α) :=
  if w.aoiMgr p then w.update fuel p else .ok w

inductive Op (α : Type)
  | insert (p : Node)
  | move (p : Node) (v : Axis → α)

/-- A node is inserted once. A moved entity node is moved with its entity. -/
def Pair.step (s : Pair E α) : Op α → Pair E α → Prop
  | .insert p, t => s.aoi.aoiMgr p = false ∧ (∃ fuel, s.aoi.insert fuel p = .ok t.aoi) ∧
      ∃ fuel, s.cell.insert fuel p = .ok t.cell
  | .move p v, t => (∃ fuel, aoiNodeUpdate (s.aoi.setExt p v) fuel p = .ok t.aoi) ∧
      ∃ e fuel, s.cell.entityPtr p = some e ∧
        (s.cell.setPosition e v).entityUpdate fuel fuel p = .ok t.cell

/-- The two have no nodes yet. Each node has its own entity, is not being removed, and has the same
coordinates and the same flags in both. -/
structure Pair.Start (s : Pair E α) : Prop where
  aoi : ∀ a, (s.aoi.axis a).first = none ∧ (s.aoi.axis a).passes = [] ∧
    ∀ p, (s.aoi.axis a).prev p = none ∧ (s.aoi.axis a).next p = none
  aoiMgr : ∀ p, s.aoi.aoiMgr p = false
  cell : s.cell.Fresh
  passes : ∀ a, (s.cell.axis a).passes = []
  entityPtr : ∀ p, ∃ e, s.cell.entityPtr p = some e
  entities : ∀ p q, s.cell.entityPtr p = s.cell.entityPtr q → p = q
  kept : ∀ p, s.cell.hasFlag p
    (Coordinate.kCoordinateNodeFlagRemoved ||| Coordinate.kCoordinateNodeFlagRemoving) = false
  flags : s.cell.flagView = s.aoi.flagView
  coordinates : ∀ p a, s.cell.getReal p a = s.aoi.ext p a

def pairRuns (E α : Type) [DecidableEq E] [LinearOrder α] [OrderBot α] :
    System (Pair E α) (Op α) where
  init := Pair.Start
  step := Pair.step

/-- The lists are in the same order, and the same calls were made. -/
structure Agree (s : Pair E α) : Prop where
  order : ∀ a, ∃ L, (s.aoi.axis a).Linked L ∧ (s.cell.axis a).Linked L
  passes : ∀ a, (s.aoi.axis a).passes = (s.cell.axis a).passes

/-- The steps at which no visible node is passed, and at which the new coordinate of a node is its
last one just when it is the stored one. -/
def Op.Alike (s : Pair E α) : Op α → Prop
  | .insert p => ∀ a L, (s.aoi.axis a).Linked L → s.aoi.ext p a ≠ ⊥ →
      ∀ c ∈ passed s.aoi.flagView (s.aoi.axis a).pos (s.aoi.ext p a) [] L,
        s.aoi.flagView.hideOrRemoved c = true
  | .move p v => s.aoi.aoiMgr p = true → ∀ a,
      (v a = s.aoi.oldExt a p ↔ v a = (s.cell.axis a).pos p) ∧
      (v a ≠ s.aoi.oldExt a p → ∀ F G, (s.aoi.axis a).Linked (F ++ p :: G) →
        ∀ c ∈ passed s.aoi.flagView (s.aoi.axis a).pos (v a) F G,
          s.aoi.flagView.hideOrRemoved c = true)

end Definitions

section Results
variable {P E α : Type}

/-- What stays when the lists change. -/
structure AoiKept (w w' : AOI.World α) : Prop where
  aoiMgr : w'.aoiMgr = w.aoiMgr
  ext : w'.ext = w.ext
  flagView : w'.flagView = w.flagView

structure CellKept (w w' : Coordinate.World P E α) : Prop where
  coordinateSystemPtr : w'.coordinateSystemPtr = w.coordinateSystemPtr
  entityPtr : w'.entityPtr = w.entityPtr
  entityPosition : w'.entityPosition = w.entityPosition
  watcherNodes : ∀ p, w.watcherNodes p = [] → w'.watcherNodes p = []
  flagView : w'.flagView = w.flagView
  removed : ∀ p, w'.hasFlag p
    (Coordinate.kCoordinateNodeFlagRemoved ||| Coordinate.kCoordinateNodeFlagRemoving) =
      w.hasFlag p (Coordinate.kCoordinateNodeFlagRemoved ||| Coordinate.kCoordinateNodeFlagRemoving)

lemma CellKept.refl (w : Coordinate.World P E α) : CellKept w w :=
  ⟨rfl, rfl, rfl, fun _ h => h, rfl, fun _ => rfl⟩

lemma CellKept.trans {w v u : Coordinate.World P E α} (h : CellKept w v) (h' : CellKept v u) :
    CellKept w u :=
  ⟨h'.coordinateSystemPtr.trans h.coordinateSystemPtr, h'.entityPtr.trans h.entityPtr,
    h'.entityPosition.trans h.entityPosition, fun p hp => h'.watcherNodes p (h.watcherNodes p hp),
    h'.flagView.trans h.flagView, fun p => (h'.removed p).trans (h.removed p)⟩

section Aoi
variable {w w' : AOI.World α} {fuel : ℕ} {p : Node}

lemma aoi_mapAxes_ok {f : Axis → AxisList Node α → Except Fault (AxisList Node α)}
    (h : w.mapAxes f = .ok w') :
    (∀ a, f a (w.axis a) = .ok (w'.axis a)) ∧ w' = { w with axis := w'.axis } := by
  obtain ⟨axis, haxis, h⟩ := bind_ok h
  obtain rfl := Except.ok.inj h
  exact ⟨eachAxis_ok haxis, rfl⟩

lemma aoi_update_ok [LinearOrder α] (h : w.update fuel p = .ok w') :
    (∀ a, (w.axis a).update w.flagView false fuel p (w.ext p a) (w.oldExt a p) = .ok (w'.axis a)) ∧
      AoiKept w w' := by
  obtain ⟨v, hv, h⟩ := bind_ok h
  obtain ⟨u, -, h⟩ := bind_ok h
  obtain rfl := Except.ok.inj h
  obtain ⟨haxis, hrest⟩ := aoi_mapAxes_ok hv
  refine ⟨haxis, ?_⟩
  rw [hrest]
  exact ⟨rfl, rfl, rfl⟩

lemma aoi_insert_ok [LinearOrder α] [OrderBot α] (h : w.insert fuel p = .ok w') (hne : w.isEmpty = false) :
    ∃ m : Axis → AxisList Node α, (∀ a, (w.axis a).pushFirst p = .ok (m a)) ∧
      (∀ a, (m a).update w.flagView false fuel p (w.ext p a) ⊥ = .ok (w'.axis a)) ∧
      w'.aoiMgr = Function.update w.aoiMgr p true ∧ w'.ext = w.ext ∧ w'.flagView = w.flagView := by
  unfold AOI.World.insert at h
  rw [if_neg (by simp [hne])] at h
  obtain ⟨v, hv, h⟩ := bind_ok h
  obtain ⟨hpush, hrest⟩ := aoi_mapAxes_ok hv
  obtain ⟨hupdate, hkept⟩ := aoi_update_ok h
  refine ⟨v.axis, hpush, fun a => ?_, ?_, ?_, ?_⟩
  · have ha := hupdate a
    have hold : v.oldExt a p = ⊥ := by
      rw [hrest]
      exact Function.update_self ..
    have hext : v.ext = w.ext := by rw [hrest]; rfl
    have hflags : v.flagView = w.flagView := by rw [hrest]; rfl
    rw [← hflags, ← hext, ← hold]
    exact ha
  · rw [hkept.aoiMgr, hrest]
    rfl
  · rw [hkept.ext, hrest]
    rfl
  · rw [hkept.flagView, hrest]
    rfl

end Aoi

section Cell
variable [DecidableEq P] [LinearOrder α] [OrderBot α] {w w' : Coordinate.World P E α} {fuel : ℕ} {p : P}

lemma cell_update_ok (h : w.update fuel p = .ok w') :
    (∀ a, (w.axis a).update w.flagView true fuel p (w.getReal p a) (w.oldRealPosition a p) =
      .ok (w'.axis a)) ∧ CellKept w w' := by
  obtain ⟨haxis, hrest⟩ := Coordinate.update_ok h
  refine ⟨haxis, ?_⟩
  rw [hrest]
  exact ⟨rfl, rfl, rfl, fun _ h => h, rfl, fun _ => rfl⟩

lemma cell_insert_ok (h : w.insert fuel p = .ok w') (hne : w.isEmpty = false) :
    ∃ m : Axis → AxisList P α, (∀ a, (w.axis a).pushFirst p = .ok (m a)) ∧
      (∀ a, (m a).update w.flagView true fuel p (w.getReal p a) ⊥ = .ok (w'.axis a)) ∧
      CellKept { w with coordinateSystemPtr := Function.update w.coordinateSystemPtr p true } w' := by
  obtain ⟨m, hpush, hjoined⟩ := Coordinate.insert_ok hne h
  obtain ⟨hupdate, hkept⟩ := cell_update_ok hjoined
  refine ⟨m, hpush, fun a => ?_, CellKept.trans (v := w.joined p m) ?_ hkept⟩
  · have hold : (w.joined p m).oldRealPosition a p = ⊥ := Function.update_self ..
    rw [← hold]
    exact hupdate a
  · exact ⟨rfl, rfl, rfl, fun _ h => h, rfl, fun _ => rfl⟩

omit [DecidableEq P] [LinearOrder α] [OrderBot α] in
lemma flagView_of_separate (h : ∀ q flag, Coordinate.Separate flag → w'.hasFlag q flag = w.hasFlag q flag) :
    w'.flagView = w.flagView := by
  have hflag : ∀ flag, Coordinate.Separate flag → (fun q => w'.hasFlag q flag) = fun q => w.hasFlag q flag :=
    fun flag hs => funext fun q => h q flag hs
  unfold Coordinate.World.flagView
  rw [hflag _ ⟨by decide, by decide⟩, hflag _ ⟨by decide, by decide⟩, hflag _ ⟨by decide, by decide⟩]

omit [DecidableEq P] [LinearOrder α] [OrderBot α] in
lemma kept_of_flags (hptr : w'.coordinateSystemPtr = w.coordinateSystemPtr)
    (hentity : w'.entityPtr = w.entityPtr) (hposition : w'.entityPosition = w.entityPosition)
    (hwatch : ∀ q, w.watcherNodes q = [] → w'.watcherNodes q = [])
    (hflags : ∀ q flag, Coordinate.Separate flag → w'.hasFlag q flag = w.hasFlag q flag) : CellKept w w' :=
  ⟨hptr, hentity, hposition, hwatch, flagView_of_separate hflags,
    fun q => hflags q _ ⟨by decide, by decide⟩⟩

omit [LinearOrder α] [OrderBot α] in
lemma storeOldRealPosition_kept : CellKept w (w.storeOldRealPosition p) :=
  kept_of_flags rfl rfl rfl (fun _ h => h) fun _ _ _ => rfl

omit [LinearOrder α] [OrderBot α] in
lemma beginUpdate_kept : CellKept w (w.beginUpdate p) :=
  kept_of_flags rfl rfl rfl (fun _ h => h) fun q _ h => Coordinate.addFlag_updating h q

omit [LinearOrder α] [OrderBot α] in
lemma endUpdate_kept : (w.endUpdate p).axis = w.axis ∧ CellKept w (w.endUpdate p) := by
  unfold Coordinate.World.endUpdate
  dsimp only
  split_ifs
  · exact ⟨rfl, kept_of_flags rfl rfl rfl (fun _ h => h) fun q _ h => Coordinate.removeFlag_updating h q⟩
  · exact ⟨rfl, kept_of_flags rfl rfl rfl (fun _ h => h) fun _ _ _ => rfl⟩

omit [LinearOrder α] [OrderBot α] in
lemma clearDelWatcherNodes_kept (hw : w.watcherNodes p = []) :
    (w.clearDelWatcherNodes p).axis = w.axis ∧ CellKept w (w.clearDelWatcherNodes p) := by
  unfold Coordinate.World.clearDelWatcherNodes
  split_ifs
  · exact ⟨rfl, CellKept.refl w⟩
  · refine ⟨rfl, kept_of_flags rfl rfl rfl (fun q hq => ?_) fun _ _ _ => rfl⟩
    by_cases hqp : q = p
    · simp [hqp, hw, Coordinate.World.eraseDelWatchers]
    · simp [hqp, hq]
  · exact ⟨rfl, CellKept.refl w⟩

/-- An update of an entity node without watchers. -/
lemma entityUpdate_ok {depth : ℕ} (hw : w.watcherNodes p = [])
    (h : w.entityUpdate fuel depth p = .ok w') :
    ∃ v, (w.storeOldRealPosition p).nodeUpdate fuel p = .ok v ∧ w'.axis = v.axis ∧ CellKept v w' := by
  obtain ⟨v, hv, hsame, rfl⟩ := Coordinate.entityUpdate_unwatched hw h
  have hbegin : CellKept v (v.beginUpdate p) := beginUpdate_kept
  obtain ⟨haxis, hend⟩ := @endUpdate_kept _ _ _ _ (v.beginUpdate p) p
  have hwatch : v.watcherNodes p = [] := hsame ▸ hw
  obtain ⟨haxis', hclear⟩ := clearDelWatcherNodes_kept (hend.watcherNodes p (hbegin.watcherNodes p hwatch))
  exact ⟨v, hv, haxis'.trans haxis, (hbegin.trans hend).trans hclear⟩

omit [DecidableEq P] in
lemma getReal_eq {e : E} (he : w.entityPtr p = some e) (hp : w.hasFlag p
    (Coordinate.kCoordinateNodeFlagRemoved ||| Coordinate.kCoordinateNodeFlagRemoving) = false)
    (a : Axis) : w.getReal p a = w.entityPosition e a := by
  unfold Coordinate.World.getReal
  rw [he]
  cases a with
  | x => exact if_neg (by simp [hp])
  | y => rfl
  | z => rfl

end Cell
end Results

section Runs
variable {E α : Type} [DecidableEq E] [LinearOrder α] [OrderBot α] {s t : Pair E α} {p : Node}

/-- What the two know of the nodes, apart from the lists. -/
structure SameNodes (s : Pair E α) : Prop where
  attached : s.cell.coordinateSystemPtr = s.aoi.aoiMgr
  watchers : ∀ p, s.cell.watcherNodes p = []
  entityPtr : ∀ p, ∃ e, s.cell.entityPtr p = some e
  entities : ∀ p q, s.cell.entityPtr p = s.cell.entityPtr q → p = q
  kept : ∀ p, s.cell.hasFlag p
    (Coordinate.kCoordinateNodeFlagRemoved ||| Coordinate.kCoordinateNodeFlagRemoving) = false
  flags : s.cell.flagView = s.aoi.flagView
  coordinates : ∀ p a, s.cell.getReal p a = s.aoi.ext p a

omit [DecidableEq E] in
/-- The two after a step that is about the lists. -/
lemma SameNodes.congr (h : SameNodes s) (hcell : CellKept s.cell t.cell) (haoi : AoiKept s.aoi t.aoi) :
    SameNodes t := by
  have hkept : ∀ p, t.cell.hasFlag p
      (Coordinate.kCoordinateNodeFlagRemoved ||| Coordinate.kCoordinateNodeFlagRemoving) = false :=
    fun p => (hcell.removed p).trans (h.kept p)
  refine ⟨?_, fun p => hcell.watcherNodes p (h.watchers p), ?_, ?_, hkept, ?_, fun p a => ?_⟩
  · rw [hcell.coordinateSystemPtr, haoi.aoiMgr]
    exact h.attached
  · rw [hcell.entityPtr]
    exact h.entityPtr
  · rw [hcell.entityPtr]
    exact h.entities
  · rw [hcell.flagView, haoi.flagView]
    exact h.flags
  · obtain ⟨e, he⟩ := h.entityPtr p
    have he' : t.cell.entityPtr p = some e := by rw [hcell.entityPtr, he]
    rw [getReal_eq he' (hkept p), hcell.entityPosition, haoi.ext, ← h.coordinates p a,
      getReal_eq he (h.kept p)]

/-- The node and its entity get new coordinates. -/
lemma SameNodes.setExt (h : SameNodes s) {e : E} (he : s.cell.entityPtr p = some e) (v : Axis → α) :
    SameNodes (⟨s.aoi.setExt p v, s.cell.setPosition e v⟩ : Pair E α) := by
  refine ⟨h.attached, h.watchers, h.entityPtr, h.entities, h.kept, h.flags, fun q a => ?_⟩
  obtain ⟨e', he'⟩ := h.entityPtr q
  have hq : (s.cell.setPosition e v).entityPtr q = some e' := he'
  rw [getReal_eq hq (h.kept q)]
  unfold AOI.World.setExt Coordinate.World.setPosition
  by_cases hqp : q = p
  · have hee : e' = e := by
      rw [hqp, he] at he'
      exact (Option.some.inj he').symm
    dsimp only
    rw [hqp, hee, Function.update_self, Function.update_self]
  · have hee : e' ≠ e := fun hee => hqp (h.entities q p (he'.trans (hee ▸ he.symm)))
    dsimp only
    rw [Function.update_of_ne hqp, Function.update_of_ne hee, ← h.coordinates q a,
      getReal_eq he' (h.kept q)]

omit [DecidableEq E] in
/-- A node is put into both. -/
lemma SameNodes.insert (h : SameNodes s)
    (hcell : CellKept { s.cell with
      coordinateSystemPtr := Function.update s.cell.coordinateSystemPtr p true } t.cell)
    (haoi : AoiKept { s.aoi with aoiMgr := Function.update s.aoi.aoiMgr p true } t.aoi) :
    SameNodes t := by
  have hboth : SameNodes (⟨{ s.aoi with aoiMgr := Function.update s.aoi.aoiMgr p true },
      { s.cell with
        coordinateSystemPtr := Function.update s.cell.coordinateSystemPtr p true }⟩ : Pair E α) := by
    refine ⟨?_, h.watchers, h.entityPtr, h.entities, h.kept, h.flags, h.coordinates⟩
    dsimp only
    rw [h.attached]
  exact hboth.congr hcell haoi

structure PairInv (s : Pair E α) (X : Axis → List Node) : Prop where
  order : ∀ a, SameOrder (s.aoi.axis a) (s.cell.axis a) s.aoi.linked (X a)
  passes : ∀ a, (s.aoi.axis a).passes = (s.cell.axis a).passes
  nodes : SameNodes s

lemma PairInv.move (h : PairInv s X) {v : Axis → α} (hop : (Op.move p v).Alike s)
    (hstep : s.step (.move p v) t) : ∃ X', PairInv t X' := by
  obtain ⟨⟨fuel, haoi⟩, e, fuel', he, hcell⟩ := hstep
  have hnodes := h.nodes.setExt he v
  obtain ⟨u, hu, haxis, hkept⟩ := entityUpdate_ok (hnodes.watchers p) hcell
  unfold aoiNodeUpdate at haoi
  unfold Coordinate.World.nodeUpdate at hu
  have hattached : (s.cell.setPosition e v).coordinateSystemPtr p = (s.aoi.setExt p v).aoiMgr p :=
    congrFun hnodes.attached p
  by_cases hp : s.aoi.aoiMgr p = true
  · have hptr : ((s.cell.setPosition e v).storeOldRealPosition p).coordinateSystemPtr p = true :=
      hattached.trans hp
    have hmgr : (s.aoi.setExt p v).aoiMgr p = true := hp
    rw [if_pos hmgr] at haoi
    rw [if_pos hptr] at hu
    obtain ⟨hleft, hleftKept⟩ := aoi_update_ok haoi
    obtain ⟨hright, hrightKept⟩ := cell_update_ok hu
    have hext : (s.aoi.setExt p v).ext p = v := Function.update_self ..
    have hold : ∀ a, ((s.cell.setPosition e v).storeOldRealPosition p).oldRealPosition a p =
        (s.cell.axis a).pos p := fun a => Function.update_self ..
    have hreal : ∀ a, ((s.cell.setPosition e v).storeOldRealPosition p).getReal p a = v a := by
      intro a
      exact (hnodes.coordinates p a).trans (congrFun hext a)
    have hflags : ((s.cell.setPosition e v).storeOldRealPosition p).flagView = s.aoi.flagView :=
      hnodes.flags
    have hlists : ∀ a, (∃ L, SameOrder (t.aoi.axis a) (t.cell.axis a) s.aoi.linked L) ∧
        (t.aoi.axis a).passes = (t.cell.axis a).passes := by
      intro a
      obtain ⟨htest, hhidden⟩ := hop hp a
      obtain ⟨F, G, hX⟩ := List.append_of_mem (((h.order a).left.mem p).mpr hp)
      have horder := h.order a
      rw [hX] at horder
      have hl := hleft a
      have hr := hright a
      rw [hext] at hl
      rw [hreal, hold, hflags] at hr
      obtain ⟨hsame, hpasses⟩ := horder.update htest hl hr
      rw [haxis]
      exact ⟨hsame, (hpasses (h.passes a)).mpr fun hne => hhidden hne F G horder.left.linked⟩
    have hlinked : t.aoi.linked = s.aoi.linked := by
      unfold AOI.World.linked
      rw [hleftKept.aoiMgr]
      rfl
    choose X' hX' using fun a => (hlists a).1
    refine ⟨X', fun a => ?_, fun a => (hlists a).2, ?_⟩
    · rw [hlinked]
      exact hX' a
    · exact hnodes.congr (storeOldRealPosition_kept.trans (hrightKept.trans hkept)) hleftKept
  · have hmgr : ¬ (s.aoi.setExt p v).aoiMgr p = true := hp
    have hptr : ¬ ((s.cell.setPosition e v).storeOldRealPosition p).coordinateSystemPtr p = true :=
      fun hm => hmgr (hattached.symm.trans hm)
    rw [if_neg hmgr] at haoi
    rw [if_neg hptr] at hu
    obtain rfl := Except.ok.inj hu
    have haoi := Except.ok.inj haoi
    refine ⟨X, fun a => ?_, fun a => ?_, ?_⟩
    · rw [haxis, ← haoi]
      exact h.order a
    · rw [haxis, ← haoi]
      exact h.passes a
    · apply hnodes.congr
      · exact storeOldRealPosition_kept.trans hkept
      · rw [← haoi]
        exact ⟨rfl, rfl, rfl⟩

omit [DecidableEq E] in
lemma PairInv.isEmpty_iff (h : PairInv s X) :
    (s.aoi.isEmpty = true ↔ s.aoi.linked = ∅) ∧ (s.cell.isEmpty = true ↔ s.aoi.linked = ∅) := by
  unfold AOI.World.isEmpty Coordinate.World.isEmpty
  simp only [(h.order _).left.first_eq_none_iff, (h.order _).right.first_eq_none_iff, Bool.and_eq_true,
    Option.isNone_iff_eq_none, and_self]

lemma PairInv.insert_empty (h : PairInv s X) (hstep : s.step (.insert p) t) (hempty : s.aoi.linked = ∅) :
    ∃ X', PairInv t X' := by
  obtain ⟨-, ⟨fuel, haoi⟩, fuel', hcell⟩ := hstep
  obtain ⟨hleft, hright⟩ := h.isEmpty_iff
  have hnil : ∀ a, X a = [] := fun a => (h.order a).left.eq_nil_iff.mpr hempty
  unfold AOI.World.insert at haoi
  unfold Coordinate.World.insert at hcell
  rw [if_pos (hleft.mpr hempty)] at haoi
  rw [if_pos (hright.mpr hempty)] at hcell
  have haoi := Except.ok.inj haoi
  have hcell := Except.ok.inj hcell
  have haoiMgr : t.aoi.aoiMgr = Function.update s.aoi.aoiMgr p true := by
    rw [← haoi]
    rfl
  have hlinked : t.aoi.linked = Set.insert p s.aoi.linked := AOI.linked_insert haoiMgr
  refine ⟨fun _ => [p], fun a => ?_, fun a => ?_, ?_⟩
  · have hl := (h.order a).left
    have hr := (h.order a).right
    rw [hnil a] at hl hr
    rw [hlinked, ← haoi, ← hcell]
    refine ⟨hl.singleton p (s.aoi.ext p a), hr.singleton p (s.cell.getReal p a), fun q hq => ?_⟩
    rw [List.mem_singleton.mp hq]
    have hpos : ∀ (l : AxisList Node α) (v : α), (l.setPos p v).pos p = v := fun l v =>
      Function.update_self ..
    exact (hpos _ _).trans ((h.nodes.coordinates p a).trans (hpos _ _).symm)
  · rw [← haoi, ← hcell]
    exact h.passes a
  · apply @SameNodes.insert _ _ _ _ s t p h.nodes
    · rw [← hcell]
      exact ⟨rfl, rfl, rfl, fun _ h => h, rfl, fun _ => rfl⟩
    · rw [← haoi]
      exact ⟨rfl, rfl, rfl⟩

lemma PairInv.insert_first (h : PairInv s X) (hop : (Op.insert p).Alike s)
    (hstep : s.step (.insert p) t) (hempty : s.aoi.linked ≠ ∅) : ∃ X', PairInv t X' := by
  obtain ⟨hmgr, ⟨fuel, haoi⟩, fuel', hcell⟩ := hstep
  have hp : p ∉ s.aoi.linked := by
    intro hl
    have hm : s.aoi.aoiMgr p = true := hl
    rw [hmgr] at hm
    cases hm
  obtain ⟨hleft, hright⟩ := h.isEmpty_iff
  have hleftEmpty : s.aoi.isEmpty = false :=
    Bool.eq_false_of_not_eq_true fun he => hempty (hleft.mp he)
  have hrightEmpty : s.cell.isEmpty = false :=
    Bool.eq_false_of_not_eq_true fun he => hempty (hright.mp he)
  obtain ⟨m, hpush, hupdate, haoiMgr, hext, hflags⟩ := aoi_insert_ok haoi hleftEmpty
  obtain ⟨m', hpush', hupdate', hkept⟩ := cell_insert_ok hcell hrightEmpty
  have hlinked : t.aoi.linked = Set.insert p s.aoi.linked := AOI.linked_insert haoiMgr
  have hlists : ∀ a, (∃ L, SameOrder (t.aoi.axis a) (t.cell.axis a) (Set.insert p s.aoi.linked) L) ∧
      (t.aoi.axis a).passes = (t.cell.axis a).passes := by
    intro a
    have horder := h.order a
    cases hX : X a with
    | nil =>
      have hfirst := horder.left.linked.first
      rw [hX] at hfirst
      have hl := hpush a
      unfold AxisList.pushFirst at hl
      rw [hfirst] at hl
      cases hl
    | cons f L =>
      rw [hX] at horder
      obtain ⟨hpushed, hpos⟩ := horder.push hp (hpush a) (hpush' a)
      have hpasses : (m a).passes = (m' a).passes := by
        rw [pushFirst_passes (hpush a), pushFirst_passes (hpush' a)]
        exact h.passes a
      have hr := hupdate' a
      rw [h.nodes.coordinates, h.nodes.flags] at hr
      obtain ⟨hsame, hcalls⟩ := SameOrder.update (F := []) hpushed Iff.rfl (hupdate a) hr
      refine ⟨hsame, (hcalls hpasses).mpr fun hne => ?_⟩
      have hstored : ∀ c ∈ [] ++ f :: L, (m a).pos c = (s.aoi.axis a).pos c := by
        intro c hc
        have hcp : c ≠ p := by
          rintro rfl
          exact hp ((horder.left.mem c).mp hc)
        rw [hpos, Function.update_of_ne hcp]
      rw [(@passed_congr _ _ _ [] (f :: L) s.aoi.flagView p _ _ _ hstored).1]
      exact hop a (f :: L) horder.left.linked hne
  choose X' hX' using fun a => (hlists a).1
  refine ⟨X', fun a => ?_, fun a => (hlists a).2, ?_⟩
  · rw [hlinked]
    exact hX' a
  · exact h.nodes.insert hkept ⟨haoiMgr, hext, hflags⟩

lemma PairInv.insert (h : PairInv s X) (hop : (Op.insert p).Alike s)
    (hstep : s.step (.insert p) t) : ∃ X', PairInv t X' := by
  by_cases hempty : s.aoi.linked = ∅
  · exact h.insert_empty hstep hempty
  · exact h.insert_first hop hstep hempty

omit [DecidableEq E] in
lemma start_inv (h : s.Start) : PairInv s fun _ => [] := by
  have hlinked : ∀ p, p ∉ s.aoi.linked := by
    intro p hp
    have hm : s.aoi.aoiMgr p = true := hp
    rw [h.aoiMgr p] at hm
    cases hm
  have hempty : ∀ l : AxisList Node α, l.first = none → (∀ p, l.prev p = none ∧ l.next p = none) →
      ListInv l s.aoi.linked [] := by
    intro l hfirst hnone
    refine ⟨⟨List.nodup_nil, hfirst, ?_, ?_⟩, fun p => ?_, fun p _ => hnone p⟩
    · intro A x B hs
      simp at hs
    · intro A x B hs
      simp at hs
    · exact ⟨fun hm => absurd hm List.not_mem_nil, fun hm => absurd hm (hlinked p)⟩
  refine ⟨fun a => ⟨hempty _ (h.aoi a).1 (h.aoi a).2.2, hempty _ (h.cell.axis a).1 (h.cell.axis a).2,
    fun p hp => absurd hp List.not_mem_nil⟩, fun a => ?_, ?_, h.cell.watcherNodes, h.entityPtr,
    h.entities, h.kept, h.flags, h.coordinates⟩
  · rw [(h.aoi a).2.1, h.passes a]
  · funext p
    rw [h.cell.coordinateSystemPtr p, h.aoiMgr p]

/-- In every run whose steps pass no visible node and compare alike, the two implementations have
the nodes in the same orders and have made the same calls. -/
theorem implementations_agree (h : Reachable ((pairRuns E α).restrict fun s op => op.Alike s) s) :
    Agree s := by
  have hinv : ∃ X, PairInv s X := by
    apply h.invariant
    · intro s hs
      exact ⟨_, start_inv hs⟩
    · intro s op t hs hstep
      obtain ⟨X, hX⟩ := hs
      obtain ⟨hop, hstep⟩ := hstep
      cases op with
      | insert p => exact hX.insert hop hstep
      | move p v => exact hX.move hop hstep
  obtain ⟨X, hX⟩ := hinv
  exact ⟨fun a => ⟨X a, (hX.order a).left.linked, (hX.order a).right.linked⟩, hX.passes⟩

end Runs
section Examples
open AOI (node₁ node₂)

def aoiFlags (visible : Bool) : UInt32 := if visible then 0 else AOI.kAOINodeFlagHide

def cellFlags (visible : Bool) : UInt16 :=
  if visible then Coordinate.kCoordinateNodeFlagEntity
  else Coordinate.kCoordinateNodeFlagEntity ||| Coordinate.kCoordinateNodeFlagHide

/-- Two nodes that are not inserted yet, the first at 10 and the second at `x`. -/
def twoNodes (visible : Bool) (x : ℕ) : Pair Node ℕ where
  aoi := { AOI.emptyManager with
    ext := fun p _ => if p = node₁ then 10 else x
    flags := fun _ => aoiFlags visible }
  cell :=
    { axis := fun _ => { pos := fun _ => 0 }
      oldRealPosition := fun _ _ => 0
      entityPtr := some
      entityPosition := fun p _ => if p = node₁ then 10 else x
      flags := fun _ => cellFlags visible
      coordinateSystemPtr := fun _ => false
      watcherNodes := fun _ => []
      deleteWatcherNodeNum := fun _ => 0
      entityNodeUpdating := fun _ => 0
      size := 0
      delsCount := 0
      dels := [] }

lemma twoNodes_start (visible : Bool) (x : ℕ) : (twoNodes visible x).Start := by
  have hkept : ∀ p, (twoNodes visible x).cell.hasFlag p
      (Coordinate.kCoordinateNodeFlagRemoved ||| Coordinate.kCoordinateNodeFlagRemoving) = false := by
    intro p
    show decide (cellFlags visible &&& _ ≠ 0) = false
    cases visible <;> decide
  refine ⟨fun _ => ⟨rfl, rfl, fun _ => ⟨rfl, rfl⟩⟩, fun _ => rfl, ?_, fun _ => rfl, fun p => ⟨p, rfl⟩,
    fun p q h => Option.some.inj h, hkept, ?_, fun p a => getReal_eq rfl (hkept p) a⟩
  · exact ⟨fun _ => ⟨rfl, fun _ => ⟨rfl, rfl⟩⟩, fun _ => rfl, fun _ => rfl, rfl, rfl, rfl⟩
  · have hbits : ∀ flag flag', (flag, flag') ∈ [(Coordinate.kCoordinateNodeFlagHideOrRemoved,
        AOI.kAOINodeFlagHideOrRemoved), (Coordinate.kCoordinateNodeFlagPositiveBoundary,
        AOI.kAOINodeFlagPositiveBoundary), (Coordinate.kCoordinateNodeFlagNagativeBoundary,
        AOI.kAOINodeFlagNagativeBoundary)] →
        (twoNodes visible x).cell.hasFlag node₁ flag = (twoNodes visible x).aoi.hasFlag node₁ flag' := by
      intro flag flag' hf
      show decide (cellFlags visible &&& _ ≠ 0) = decide (aoiFlags visible &&& _ ≠ 0)
      simp only [List.mem_cons, Prod.mk.injEq, List.not_mem_nil, or_false] at hf
      obtain ⟨rfl, rfl⟩ | ⟨rfl, rfl⟩ | ⟨rfl, rfl⟩ := hf <;> cases visible <;> decide
    unfold Coordinate.World.flagView AOI.World.flagView
    congr 1
    · exact funext fun _ => hbits _ _ (by simp)
    · exact funext fun _ => hbits _ _ (by simp)
    · exact funext fun _ => hbits _ _ (by simp)

/-- One step of a run, with enough fuel for a few nodes. -/
def tryPair (s : Pair Node ℕ) : Op ℕ → Option (Pair Node ℕ)
  | .insert p =>
    if s.aoi.aoiMgr p = false then do
      let aoi ← (s.aoi.insert 8 p).toOption
      let cell ← (s.cell.insert 8 p).toOption
      pure ⟨aoi, cell⟩
    else none
  | .move p v => do
    let aoi ← (aoiNodeUpdate (s.aoi.setExt p v) 8 p).toOption
    let e ← s.cell.entityPtr p
    let cell ← ((s.cell.setPosition e v).entityUpdate 8 8 p).toOption
    pure ⟨aoi, cell⟩

lemma tryPair_step {s t : Pair Node ℕ} {op : Op ℕ} (h : tryPair s op = some t) : s.step op t := by
  cases op with
  | insert p =>
    dsimp only [tryPair] at h
    split_ifs at h with hmgr
    obtain ⟨aoi, haoi, h⟩ := Option.bind_eq_some_iff.mp h
    obtain ⟨cell, hcell, h⟩ := Option.bind_eq_some_iff.mp h
    obtain rfl := Option.some.inj h
    exact ⟨hmgr, ⟨8, toOption_eq_some haoi⟩, 8, toOption_eq_some hcell⟩
  | move p v =>
    obtain ⟨aoi, haoi, h⟩ := Option.bind_eq_some_iff.mp h
    obtain ⟨e, he, h⟩ := Option.bind_eq_some_iff.mp h
    obtain ⟨cell, hcell, h⟩ := Option.bind_eq_some_iff.mp h
    obtain rfl := Option.some.inj h
    exact ⟨⟨8, toOption_eq_some haoi⟩, e, 8, he, toOption_eq_some hcell⟩

lemma insert_flagView {s t : Pair Node ℕ} {p : Node} (h : s.step (.insert p) t) :
    t.aoi.flagView = s.aoi.flagView := by
  obtain ⟨-, ⟨fuel, haoi⟩, -⟩ := h
  cases hempty : s.aoi.isEmpty with
  | true =>
    unfold AOI.World.insert at haoi
    rw [if_pos hempty] at haoi
    rw [← Except.ok.inj haoi]
    rfl
  | false =>
    obtain ⟨m, -, -, -, -, hflags⟩ := aoi_insert_ok haoi hempty
    exact hflags

lemma insert_hidden (p : Node) {s : Pair Node ℕ}
    (h : s.aoi.flagView = (twoNodes false 20).aoi.flagView) : (Op.insert p).Alike s := by
  intro a L _ _ c _
  have hflag : (twoNodes false 20).aoi.hasFlag c AOI.kAOINodeFlagHideOrRemoved = true := by
    show decide (aoiFlags false &&& _ ≠ 0) = true
    decide
  rw [h]
  exact hflag

lemma hidden_result :
    ([Op.insert node₁, .insert node₂].foldlM tryPair (twoNodes false 20)).map
      (fun s => (s.aoi.axis .x).next node₁) = some (some node₂) := by
  decide +kernel

/-- The second node passes the first one, which is hidden. -/
theorem implementations_agree_hidden :
    ∃ s, Reachable ((pairRuns Node ℕ).restrict fun s op => op.Alike s) s ∧
      (s.aoi.axis .x).next node₁ = some node₂ ∧ Agree s := by
  obtain ⟨t, hrun, hnext⟩ := Option.map_eq_some_iff.mp hidden_result
  rw [List.foldlM_cons] at hrun
  obtain ⟨s, hs, hrun⟩ := Option.bind_eq_some_iff.mp hrun
  rw [List.foldlM_cons] at hrun
  obtain ⟨u, hu, hrun⟩ := Option.bind_eq_some_iff.mp hrun
  obtain rfl := Option.some.inj hrun
  have hstart : Reachable ((pairRuns Node ℕ).restrict fun s op => op.Alike s) (twoNodes false 20) :=
    .init (twoNodes_start false 20)
  have hfirst := @Reachable.step _ _ ((pairRuns Node ℕ).restrict fun s op => op.Alike s)
    (.insert node₁) _ _ hstart ⟨insert_hidden node₁ rfl, tryPair_step hs⟩
  have hflags := insert_flagView (tryPair_step hs)
  have hsecond := @Reachable.step _ _ ((pairRuns Node ℕ).restrict fun s op => op.Alike s)
    (.insert node₂) _ _ hfirst ⟨insert_hidden node₂ hflags, tryPair_step hu⟩
  exact ⟨u, hsecond, hnext, implementations_agree hsecond⟩

lemma visible_result :
    ([Op.insert node₁, .insert node₂].foldlM tryPair (twoNodes true 20)).map
      (fun s => ((s.aoi.axis .x).passes.map fun c => c.2.2, (s.cell.axis .x).passes.map fun c => c.2.2)) =
        some ([false, true], [true, true]) := by
  decide +kernel

lemma lowest_result :
    ([Op.insert node₁, .insert node₂, .move node₂ fun _ => 10].foldlM tryPair (twoNodes false 0)).map
      (fun s => ((s.aoi.axis .x).first, (s.cell.axis .x).first)) = some (some node₁, some node₂) := by
  decide +kernel

/-- A visible node is passed: the calls differ. A node that was inserted at the least value is
moved to the first stored coordinate: the orders differ. -/
theorem implementations_differ :
    (¬ ∀ s : Pair Node ℕ, Reachable (pairRuns Node ℕ) s →
      ∀ a, (s.aoi.axis a).passes = (s.cell.axis a).passes) ∧
    ¬ ∀ s : Pair Node ℕ, Reachable (pairRuns Node ℕ) s →
      ∀ a, ∃ L, (s.aoi.axis a).Linked L ∧ (s.cell.axis a).Linked L := by
  constructor
  · intro hall
    obtain ⟨s, hrun, hpasses⟩ := Option.map_eq_some_iff.mp visible_result
    obtain ⟨haoi, hcell⟩ := Prod.mk.inj hpasses
    have hreach : Reachable (pairRuns Node ℕ) s :=
      (Reachable.init (twoNodes_start true 20)).of_foldlM (fun _ _ _ => tryPair_step) hrun
    rw [hall s hreach .x, hcell] at haoi
    exact absurd haoi (by decide)
  · intro hall
    obtain ⟨s, hrun, hfirst⟩ := Option.map_eq_some_iff.mp lowest_result
    obtain ⟨haoi, hcell⟩ := Prod.mk.inj hfirst
    have hreach : Reachable (pairRuns Node ℕ) s :=
      (Reachable.init (twoNodes_start false 0)).of_foldlM (fun _ _ _ => tryPair_step) hrun
    obtain ⟨L, hleft, hright⟩ := hall s hreach .x
    have hsame := hleft.first.trans hright.first.symm
    rw [haoi, hcell] at hsame
    exact absurd hsame (by decide)

end Examples

end TyphoonZero.Agreement
