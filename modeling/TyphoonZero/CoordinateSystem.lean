import TyphoonZero.CrossList
import TyphoonZero.Transition

/-! The coordinate system of the cell server: nodes of entities in one cross
list on three axes. `OnNodePass` calls are recorded and do nothing else. The code
under `TPN_DEBUG` is compiled in, as it is by default. -/
namespace TyphoonZero.Coordinate
open Loop CrossList Transition

abbrev kCoordinateNodeFlagEntity : UInt16 := 0x1
abbrev kCoordinateNodeFlagHide : UInt16 := 0x4
abbrev kCoordinateNodeFlagRemoving : UInt16 := 0x8
abbrev kCoordinateNodeFlagRemoved : UInt16 := 0x10
abbrev kCoordinateNodeFlagUpdating : UInt16 := 0x20
abbrev kCoordinateNodeFlagPositiveBoundary : UInt16 := 0x80
abbrev kCoordinateNodeFlagNagativeBoundary : UInt16 := 0x100
abbrev kCoordinateNodeFlagHideOrRemoved : UInt16 :=
  kCoordinateNodeFlagHide ||| kCoordinateNodeFlagRemoved

/-- The system together with all nodes and entities. `axis` holds the first
pointers of the system and the neighbours and `position_` of the nodes. -/
structure World (P E α : Type) where
  axis : Axis → AxisList P α
  oldRealPosition : Axis → P → α
  entityPtr : P → Option E
  entityPosition : E → Axis → α
  flags : P → UInt16
  coordinateSystemPtr : P → Bool
  watcherNodes : P → List (Option P)
  deleteWatcherNodeNum : P → ℤ
  entityNodeUpdating : P → ℤ
  size : UInt32
  delsCount : UInt32
  dels : List P

namespace World
variable {P E α : Type} (w : World P E α)

def hasFlag (p : P) (flag : UInt16) : Bool := w.flags p &&& flag ≠ 0

def flagView : FlagView P where
  hideOrRemoved p := w.hasFlag p kCoordinateNodeFlagHideOrRemoved
  positiveBoundary p := w.hasFlag p kCoordinateNodeFlagPositiveBoundary
  nagativeBoundary p := w.hasFlag p kCoordinateNodeFlagNagativeBoundary

def isEmpty : Bool :=
  (w.axis .x).first.isNone && (w.axis .y).first.isNone && (w.axis .z).first.isNone

def mapAxes (f : Axis → AxisList P α → Except Fault (AxisList P α)) :
    Except Fault (World P E α) := do
  let axis ← eachAxis f w.axis
  pure { w with axis := axis }

/-- The end of `Update` under `TPN_DEBUG`: all three walks begin at the first node of the first list. -/
def debug (fuel : ℕ) : Except Fault Unit := do
  (w.axis .x).debug fuel (w.axis .x).first
  (w.axis .y).debug fuel (w.axis .x).first
  (w.axis .z).debug fuel (w.axis .x).first

variable [DecidableEq P]

def addFlag (p : P) (flag : UInt16) : World P E α :=
  { w with flags := Function.update w.flags p (w.flags p ||| flag) }

def removeFlag (p : P) (flag : UInt16) : World P E α :=
  { w with flags := Function.update w.flags p (w.flags p &&& ~~~flag) }

/-- `old_real_position_ = position_`. -/
def storeOldRealPosition (p : P) : World P E α :=
  { w with
    oldRealPosition := fun a => Function.update (w.oldRealPosition a) p ((w.axis a).pos p) }

/-- `ResetOldRealXYZ` stores back the values it reads. -/
def resetOldRealXYZ (p : P) : World P E α :=
  { w with
    oldRealPosition := fun a => Function.update (w.oldRealPosition a) p (w.oldRealPosition a p) }

/-- `EntityCoordinateNode::OnRemove`. -/
def onRemove (p : P) : World P E α :=
  storeOldRealPosition
    { w with
      watcherNodes := Function.update w.watcherNodes p ((w.watcherNodes p).map fun _ => none)
      deleteWatcherNodeNum := Function.update w.deleteWatcherNodeNum p
        (w.deleteWatcherNodeNum p + ((w.watcherNodes p).filter Option.isSome).length) } p

/-- The loop of `ClearDelWatcherNodes`. -/
def eraseDelWatchers : List (Option P) → ℤ → List (Option P) × ℤ
  | [], n => ([], n)
  | none :: l, n => if n - 1 ≤ 0 then (l, n - 1) else eraseDelWatchers l (n - 1)
  | some q :: l, n => (some q :: (eraseDelWatchers l n).1, (eraseDelWatchers l n).2)

def clearDelWatcherNodes (p : P) : World P E α :=
  if w.hasFlag p
      (kCoordinateNodeFlagUpdating ||| kCoordinateNodeFlagRemoved ||| kCoordinateNodeFlagRemoving) then w
  else if w.deleteWatcherNodeNum p > 0 then
    let r := eraseDelWatchers (w.watcherNodes p) (w.deleteWatcherNodeNum p)
    { w with
      watcherNodes := Function.update w.watcherNodes p r.1
      deleteWatcherNodeNum := Function.update w.deleteWatcherNodeNum p r.2 }
  else w

/-- Before and after the watchers are updated. -/
def beginUpdate (p : P) : World P E α :=
  addFlag
    { w with
      entityNodeUpdating := Function.update w.entityNodeUpdating p (w.entityNodeUpdating p + 1) } p
    kCoordinateNodeFlagUpdating

def endUpdate (p : P) : World P E α :=
  let w := { w with
    entityNodeUpdating := Function.update w.entityNodeUpdating p (w.entityNodeUpdating p - 1) }
  if w.entityNodeUpdating p = 0 then w.removeFlag p kCoordinateNodeFlagUpdating else w

/-- `RemoveReal`; it answers before anything else when the node is in no system. -/
def removeReal (p : P) : Except Fault (World P E α) :=
  if w.coordinateSystemPtr p = false then .ok w
  else do
    let w ← w.mapAxes fun _ l => (l.unlink p).map fun l => l.resetPtr p
    pure { w with
      coordinateSystemPtr := Function.update w.coordinateSystemPtr p false
      size := w.size - 1 }

def removeDelNodes : Except Fault (World P E α) :=
  if w.delsCount = 0 then .ok w
  else do
    let w ← w.dels.foldlM (fun w p => w.removeReal p) w
    pure { w with dels := [], delsCount := 0 }

variable [LinearOrder α] [OrderBot α]

/-- `GetRealX`, `GetRealY` and `GetRealZ`; only the first looks at the flags. -/
def getReal (p : P) (a : Axis) : α :=
  match w.entityPtr p with
  | none => ⊥
  | some e =>
    match a with
    | .x =>
      if w.hasFlag p (kCoordinateNodeFlagRemoved ||| kCoordinateNodeFlagRemoving) then ⊥
      else w.entityPosition e .x
    | .y => w.entityPosition e .y
    | .z => w.entityPosition e .z

/-- `CoordinateSystem::Update`. -/
def update (fuel : ℕ) (p : P) : Except Fault (World P E α) := do
  let w ← w.mapAxes fun a l =>
    l.update w.flagView true fuel p (w.getReal p a) (w.oldRealPosition a p)
  let w := w.resetOldRealXYZ p
  w.debug fuel
  pure w

/-- `CoordinateNode::Update`. -/
def nodeUpdate (fuel : ℕ) (p : P) : Except Fault (World P E α) :=
  if w.coordinateSystemPtr p then w.update fuel p else .ok w

def insert (fuel : ℕ) (p : P) : Except Fault (World P E α) :=
  if w.isEmpty then
    let w := { w with
      axis := fun a => (AxisList.resetPtr { w.axis a with first := some p } p).setPos p (w.getReal p a)
      coordinateSystemPtr := Function.update w.coordinateSystemPtr p true }
    .ok { w.resetOldRealXYZ p with size := 1 }
  else do
    let w := { w with oldRealPosition := fun a => Function.update (w.oldRealPosition a) p ⊥ }
    let w ← w.mapAxes fun _ l => l.pushFirst p
    let w := { w with
      coordinateSystemPtr := Function.update w.coordinateSystemPtr p true
      size := w.size + 1 }
    w.update fuel p

def remove (fuel : ℕ) (p : P) : Except Fault (World P E α) := do
  let w := w.addFlag p kCoordinateNodeFlagRemoving
  let w := w.onRemove p
  let w ← w.update fuel p
  let w := w.addFlag p kCoordinateNodeFlagRemoved
  if p ∈ w.dels then pure w
  else pure { w with dels := w.dels ++ [p], delsCount := w.delsCount + 1 }

def removeImmediately (fuel : ℕ) (p : P) : Except Fault (World P E α) := do
  let w := w.addFlag p kCoordinateNodeFlagRemoving
  let w := w.onRemove p
  let w ← w.update fuel p
  let w := w.addFlag p kCoordinateNodeFlagRemoved
  w.removeReal p

/-- `EntityCoordinateNode::Update`; `depth` bounds the updates of watchers inside
updates. -/
def entityUpdate (fuel : ℕ) : ℕ → P → World P E α → Except Fault (World P E α)
  | 0, _, _ => .error .outOfFuel
  | depth + 1, p, w => do
    let w ← (w.storeOldRealPosition p).nodeUpdate fuel p
    let w := w.beginUpdate p
    let (_, w) ← whileExcept .outOfFuel (fun (i, w) =>
      match (w.watcherNodes p)[i]? with
      | none => .ok none
      | some none => .ok (some (i + 1, w))
      | some (some q) => (entityUpdate fuel depth q w).map fun w => some (i + 1, w)) fuel ((0 : ℕ), w)
    let w := w.endUpdate p
    pure (w.clearDelWatcherNodes p)

def setPosition [DecidableEq E] (e : E) (v : Axis → α) : World P E α :=
  { w with entityPosition := Function.update w.entityPosition e v }

end World

inductive Op (P E α : Type)
  | insert (p : P)
  | setPosition (e : E) (v : Axis → α)
  | update (p : P)
  | entityUpdate (p : P)
  | remove (p : P)
  | removeImmediately (p : P)
  | removeDelNodes

section Runs
variable {P E α : Type} [DecidableEq P] [DecidableEq E] [LinearOrder α] [OrderBot α]

def World.exec (w : World P E α) (fuel : ℕ) : Op P E α → Except Fault (World P E α)
  | .insert p => w.insert fuel p
  | .setPosition e v => .ok (w.setPosition e v)
  | .update p => w.update fuel p
  | .entityUpdate p => w.entityUpdate fuel fuel p
  | .remove p => w.remove fuel p
  | .removeImmediately p => w.removeImmediately fuel p
  | .removeDelNodes => w.removeDelNodes

def Op.Allowed (w : World P E α) : Op P E α → Prop
  | .insert p => w.coordinateSystemPtr p = false
  | _ => True

/-- An update that is not one of a node of the system follows the pointer to the first node. -/
def Op.Debuggable (live : Set P) : Op P E α → Prop
  | .update _ | .remove _ | .removeImmediately _ => live.Nonempty
  | _ => True

/-- The nodes inserted and not yet really removed, after an operation on `w`. -/
def Op.live (w : World P E α) (live : Set P) : Op P E α → Set P
  | .insert p => Set.insert p live
  | .removeImmediately p => live \ {p}
  | .removeDelNodes => if w.delsCount = 0 then live else live \ {p | p ∈ w.dels}
  | _ => live

/-- A fresh system: no node is in it, nodes and entities are arbitrary otherwise. -/
structure World.Fresh (w : World P E α) : Prop where
  axis : ∀ a, (w.axis a).first = none ∧ ∀ p, (w.axis a).prev p = none ∧ (w.axis a).next p = none
  coordinateSystemPtr : ∀ p, w.coordinateSystemPtr p = false
  watcherNodes : ∀ p, w.watcherNodes p = []
  size : w.size = 0
  delsCount : w.delsCount = 0
  dels : w.dels = []

/-- Runs carry the set of nodes inserted and not yet really removed. -/
def coordinateRuns (P E α : Type) [DecidableEq P] [DecidableEq E] [LinearOrder α] [OrderBot α] :
    System (World P E α × Set P) (Op P E α) where
  init s := s.1.Fresh ∧ s.2 = ∅
  step s op t := op.Allowed s.1 ∧ (∃ fuel, s.1.exec fuel op = .ok t.1) ∧ t.2 = op.live s.1 s.2

end Runs

end TyphoonZero.Coordinate
