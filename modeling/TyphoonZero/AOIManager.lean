import TyphoonZero.CrossList
import TyphoonZero.Transition

/-! The manager of AOI nodes: one cross list on three axes, with the nodes that
wait to be unlinked and to be released. The `Debug` methods are those under
`TPN_AOIDEBUG`, which is on by default. -/
namespace TyphoonZero.AOI
open CrossList Transition

abbrev kAOINodeFlagHide : UInt32 := 0x4
abbrev kAOINodeFlagRemoving : UInt32 := 0x8
abbrev kAOINodeFlagRemoved : UInt32 := 0x10
abbrev kAOINodeFlagPositiveBoundary : UInt32 := 0x100
abbrev kAOINodeFlagNagativeBoundary : UInt32 := 0x200
abbrev kAOINodeFlagHideOrRemoved : UInt32 := kAOINodeFlagHide ||| kAOINodeFlagRemoved

/-- The nodes are known by their addresses. -/
abbrev Node := {a : UInt64 // a ≠ 0}

/-- The manager together with all nodes. `axis` holds the first pointers of the
manager and the neighbours and `x_`, `y_`, `z_` of the nodes; `ext` is what
`GetExtX`, `GetExtY` and `GetExtZ` return; `alive` are the nodes not deleted. -/
structure World (α : Type) where
  axis : Axis → AxisList Node α
  ext : Node → Axis → α
  oldExt : Axis → Node → α
  flags : Node → UInt32
  aoiMgr : Node → Bool
  alive : Node → Bool
  size : UInt64
  delsCount : UInt64
  dels : List Node
  releases : List Node

namespace World
variable {α : Type} (w : World α)

def hasFlag (p : Node) (flag : UInt32) : Bool := w.flags p &&& flag ≠ 0

def flagView : FlagView Node where
  hideOrRemoved p := w.hasFlag p kAOINodeFlagHideOrRemoved
  positiveBoundary p := w.hasFlag p kAOINodeFlagPositiveBoundary
  nagativeBoundary p := w.hasFlag p kAOINodeFlagNagativeBoundary

def isEmpty : Bool :=
  (w.axis .x).first.isNone && (w.axis .y).first.isNone && (w.axis .z).first.isNone

def mapAxes (f : Axis → AxisList Node α → Except Fault (AxisList Node α)) : Except Fault (World α) := do
  let axis ← eachAxis f w.axis
  pure { w with axis := axis }

/-- The end of `Update`: a walk along every axis. -/
def debug (fuel : ℕ) : Except Fault Unit := do
  (w.axis .x).debug fuel (w.axis .x).first
  (w.axis .y).debug fuel (w.axis .y).first
  (w.axis .z).debug fuel (w.axis .z).first

def addFlag (p : Node) (flag : UInt32) : World α :=
  { w with flags := Function.update w.flags p (w.flags p ||| flag) }

def setOldExt (p : Node) (v : Axis → α) : World α :=
  { w with oldExt := fun a => Function.update (w.oldExt a) p (v a) }

def resetOldExtXYZ (p : Node) : World α := w.setOldExt p (w.ext p)

def setExt (p : Node) (v : Axis → α) : World α := { w with ext := Function.update w.ext p v }

def removeReal (p : Node) : Except Fault (World α) :=
  if w.aoiMgr p = false then .ok w
  else do
    let w ← w.mapAxes fun _ l => (l.unlink p).map fun l => l.resetPtr p
    pure { w with
      aoiMgr := Function.update w.aoiMgr p false
      releases := w.releases ++ [p]
      size := w.size - 1 }

def removeDelNodes : Except Fault (World α) :=
  if w.delsCount = 0 then .ok w
  else do
    let w ← w.dels.foldlM (fun w p => w.removeReal p) w
    pure { w with dels := [], delsCount := 0 }

/-- `~AOINode` asserts that the node is in no list and in no manager. -/
def deleteNode (p : Node) : Except Fault (World α) :=
  if ((w.axis .x).prev p = none ∧ (w.axis .x).next p = none ∧
      (w.axis .y).prev p = none ∧ (w.axis .y).next p = none ∧
      (w.axis .z).prev p = none ∧ (w.axis .z).next p = none) ∧ w.aoiMgr p = false then
    .ok { w with alive := Function.update w.alive p false }
  else .error .assertion

def releaseNodes : Except Fault (World α) := do
  let w ← w.removeDelNodes
  let w ← w.releases.foldlM (fun w p => w.deleteNode p) w
  pure { w with releases := [] }

variable [LinearOrder α] [OrderBot α]

/-- A new node, with the flags and the coordinates that its class gives it. -/
def construct (p : Node) (v : Axis → α) (flags : UInt32) : World α :=
  { w with
    axis := fun a => ((w.axis a).resetPtr p).setPos p ⊥
    ext := Function.update w.ext p v
    oldExt := fun a => Function.update (w.oldExt a) p ⊥
    flags := Function.update w.flags p flags
    aoiMgr := Function.update w.aoiMgr p false
    alive := Function.update w.alive p true }

/-- `AOINode::OnRemove`. Only `x_` is set to the least value. -/
def onRemove (p : Node) : World α :=
  let w := w.setOldExt p fun a => (w.axis a).pos p
  { w with axis := Function.update w.axis .x ((w.axis .x).setPos p ⊥) }

def update (fuel : ℕ) (p : Node) : Except Fault (World α) := do
  let w ← w.mapAxes fun a l => l.update w.flagView false fuel p (w.ext p a) (w.oldExt a p)
  let w := w.resetOldExtXYZ p
  w.debug fuel
  pure w

def insert (fuel : ℕ) (p : Node) : Except Fault (World α) :=
  if w.isEmpty then
    let w := { w with
      axis := fun a => (AxisList.resetPtr { w.axis a with first := some p } p).setPos p (w.ext p a)
      aoiMgr := Function.update w.aoiMgr p true
      size := 1 }
    .ok (w.resetOldExtXYZ p)
  else do
    let w := w.setOldExt p fun _ => ⊥
    let w ← w.mapAxes fun _ l => l.pushFirst p
    let w := { w with
      aoiMgr := Function.update w.aoiMgr p true
      size := w.size + 1 }
    w.update fuel p

def remove (fuel : ℕ) (p : Node) : Except Fault (World α) := do
  let w := w.addFlag p kAOINodeFlagRemoving
  let w := w.onRemove p
  let w ← w.update fuel p
  let w := w.addFlag p kAOINodeFlagRemoved
  if p ∈ w.dels then pure w
  else pure { w with dels := w.dels ++ [p], delsCount := w.delsCount + 1 }

end World

inductive Op (α : Type)
  | construct (p : Node) (v : Axis → α) (flags : UInt32)
  | setExt (p : Node) (v : Axis → α)
  | insert (p : Node)
  | update (p : Node)
  | remove (p : Node)
  | removeDelNodes
  | releaseNodes

section Runs
variable {α : Type} [LinearOrder α] [OrderBot α]

def World.exec (w : World α) (fuel : ℕ) : Op α → Except Fault (World α)
  | .construct p v flags => .ok (w.construct p v flags)
  | .setExt p v => .ok (w.setExt p v)
  | .insert p => w.insert fuel p
  | .update p => w.update fuel p
  | .remove p => w.remove fuel p
  | .removeDelNodes => w.removeDelNodes
  | .releaseNodes => w.releaseNodes

/-- Only nodes that exist are used, and a node is inserted once, before it is
removed. -/
def Op.Allowed (w : World α) : Op α → Prop
  | .construct p _ _ => w.alive p = false
  | .setExt p _ => w.alive p = true
  | .insert p => w.alive p = true ∧ w.aoiMgr p = false ∧ w.hasFlag p kAOINodeFlagRemoved = false
  | .update p => w.alive p = true
  | .remove p => w.alive p = true
  | .removeDelNodes => True
  | .releaseNodes => True

/-- The walks at the end of an update begin at nodes. -/
def Op.Debuggable (w : World α) : Op α → Prop
  | .update _ | .remove _ => ∃ p, w.aoiMgr p = true
  | _ => True

/-- The steps at which the least value is not mistaken for a coordinate: a node
that is removed without having moved on the x axis stands behind least values
only, and a node is inserted at the least value only in front of it. -/
def Op.LeastValueUnused (w : World α) : Op α → Prop
  | .remove p =>
    w.ext p .x = (w.axis .x).pos p → ∀ q ∈ (w.axis .x).prev p, (w.axis .x).pos q = ⊥
  | .insert p => ∀ a, w.ext p a = ⊥ → ∀ f ∈ (w.axis a).first, (w.axis a).pos f = ⊥
  | _ => True

/-- A manager without nodes, before any node is constructed. -/
structure World.Fresh (w : World α) : Prop where
  axis : ∀ a, (w.axis a).first = none ∧ ∀ p, (w.axis a).prev p = none ∧ (w.axis a).next p = none
  aoiMgr : ∀ p, w.aoiMgr p = false
  alive : ∀ p, w.alive p = false
  size : w.size = 0
  delsCount : w.delsCount = 0
  dels : w.dels = []
  releases : w.releases = []

def aoiRuns (α : Type) [LinearOrder α] [OrderBot α] : System (World α) (Op α) where
  init := World.Fresh
  step w op w' := op.Allowed w ∧ ∃ fuel, w.exec fuel op = .ok w'

end Runs

end TyphoonZero.AOI
