import TyphoonZero.Loop
import TyphoonZero.LinkedChain

/-! One axis of a cross list: a doubly linked list of nodes kept in the order of
their stored coordinates. The coordinate system of the cell server and the AOI
manager move, insert and unlink nodes on every axis with this code. -/
namespace TyphoonZero.CrossList
open Loop LinkedChain

inductive Axis
  | x | y | z
  deriving DecidableEq, Repr

inductive Fault
  | assertion | nullDeref | outOfFuel
  deriving DecidableEq, Repr

/-- `passes` lists the `OnNodePass` calls, newest first: the node called, the
node passed and `is_front`. -/
structure AxisList (P α : Type*) where
  first : Option P := none
  prev : P → Option P := fun _ => none
  next : P → Option P := fun _ => none
  pos : P → α
  passes : List (P × P × Bool) := []

/-- The flags that a move looks at. -/
structure FlagView (P : Type*) where
  hideOrRemoved : P → Bool
  positiveBoundary : P → Bool
  nagativeBoundary : P → Bool

namespace AxisList
variable {P α : Type*} [DecidableEq P] (l : AxisList P α)

/-- A node never becomes its own neighbour. -/
def setPrev (p : P) (q : Option P) : AxisList P α :=
  if some p = q then l else { l with prev := Function.update l.prev p q }

def setNext (p : P) (q : Option P) : AxisList P α :=
  if some p = q then l else { l with next := Function.update l.next p q }

def setPos (p : P) (v : α) : AxisList P α := { l with pos := Function.update l.pos p v }

def resetPtr (p : P) : AxisList P α :=
  { l with prev := Function.update l.prev p none, next := Function.update l.next p none }

/-- The rewiring of a move in the negative direction. -/
def moveBefore (node curr : P) : AxisList P α :=
  let prev := l.prev curr
  let l := l.setPrev curr (some node)
  let l :=
    match prev with
    | some p =>
      let l := l.setNext p (some node)
      if l.first = some node ∧ (l.next node).isSome then { l with first := l.next node } else l
    | none => { l with first := some node }
  let l :=
    match l.prev node with
    | some q => l.setNext q (l.next node)
    | none => l
  let l :=
    match l.next node with
    | some q => l.setPrev q (l.prev node)
    | none => l
  let l := l.setPrev node prev
  l.setNext node (some curr)

/-- The rewiring of a move in the positive direction. -/
def moveAfter (node curr : P) : AxisList P α :=
  let next := l.next curr
  if next = some node then l
  else
    let l := l.setNext curr (some node)
    let l :=
      match next with
      | some q => l.setPrev q (some node)
      | none => l
    let l :=
      match l.prev node with
      | some q => l.setNext q (l.next node)
      | none => l
    let l :=
      match l.next node with
      | some q =>
        let l := l.setPrev q (l.prev node)
        if l.first = some node then { l with first := l.next node } else l
      | none => l
    let l := l.setPrev node (some curr)
    l.setNext node next

/-- `front` is the `is_front` argument of the second call. -/
def notify (flags : FlagView P) (front : Bool) (node curr : P) : AxisList P α :=
  let l := if flags.hideOrRemoved node then l else { l with passes := (curr, node, true) :: l.passes }
  if flags.hideOrRemoved curr then l else { l with passes := (node, curr, front) :: l.passes }

/-- A new node is put in front of the first one, with its coordinate. -/
def pushFirst (node : P) : Except Fault (AxisList P α) :=
  match l.first with
  | none => .error .nullDeref
  | some f =>
    let l := l.setPos node (l.pos f)
    let l := l.setPrev f (some node)
    let l := l.setNext node (some f)
    .ok { l with first := some node }

/-- The part of `RemoveReal` for one axis. -/
def unlink (node : P) : Except Fault (AxisList P α) :=
  if l.first = some node then
    match l.next node with
    | none => .ok { l with first := none }
    | some f => .ok (setPrev { l with first := some f } f none)
  else
    match l.prev node with
    | none => .error .nullDeref
    | some p =>
      let l := l.setNext p (l.next node)
      match l.next node with
      | none => .ok l
      | some q => .ok (l.setPrev q (l.prev node))

/-- The walk of `DebugX`, `DebugY` or `DebugZ` from a node on; the lines that it logs are not kept. -/
def debugFrom : ℕ → P → Except Fault Unit
  | 0, _ => .error .outOfFuel
  | fuel + 1, node =>
    match l.next node with
    | none => .ok ()
    | some curr => debugFrom fuel curr

/-- The walk begins at the node of a pointer that is not looked at. -/
def debug (fuel : ℕ) : Option P → Except Fault Unit
  | none => .error .nullDeref
  | some node => l.debugFrom fuel node

variable [LinearOrder α]

def moveNode (flags : FlagView P) (front : Bool) (node : P) (x : α) (curr : P) :
    Except Fault (AxisList P α) :=
  let l := l.setPos node (l.pos curr)
  if l.prev node = some curr then
    if l.pos curr ≥ x then .ok ((l.moveBefore node curr).notify flags front node curr)
    else .error .assertion
  else
    if l.pos curr ≤ x then .ok ((l.moveAfter node curr).notify flags front node curr)
    else .error .assertion

def prevStep (flags : FlagView P) (front : Bool) (node : P) (x : α) (l : AxisList P α) :
    Except Fault (Option (AxisList P α)) :=
  match l.prev node with
  | none => .ok none
  | some curr =>
    if curr ≠ node ∧ (l.pos curr > x ∨ l.pos curr = x ∧ flags.nagativeBoundary curr = false) then
      (l.moveNode flags front node x curr).map some
    else .ok none

def nextStep (flags : FlagView P) (front : Bool) (node : P) (x : α) (l : AxisList P α) :
    Except Fault (Option (AxisList P α)) :=
  match l.next node with
  | none => .ok none
  | some curr =>
    if curr ≠ node ∧ (l.pos curr < x ∨ l.pos curr = x ∧ flags.positiveBoundary curr = false) then
      (l.moveNode flags front node x curr).map some
    else .ok none

/-- The part of `Update` for one axis: `real` is the node's own coordinate and
`old` the one of its last update. -/
def update (flags : FlagView P) (front : Bool) (fuel : ℕ) (node : P) (real old : α) :
    Except Fault (AxisList P α) :=
  if real ≠ old then do
    let l ← whileExcept .outOfFuel (prevStep flags front node real) fuel l
    let l ← whileExcept .outOfFuel (nextStep flags front node real) fuel l
    pure (l.setPos node real)
  else pure l

end AxisList

/-- The three copies of the code for the axes, in their order. -/
def eachAxis {P α : Type} (f : Axis → AxisList P α → Except Fault (AxisList P α))
    (axis : Axis → AxisList P α) : Except Fault (Axis → AxisList P α) := do
  let x ← f .x (axis .x)
  let y ← f .y (axis .y)
  let z ← f .z (axis .z)
  pure fun
    | .x => x
    | .y => y
    | .z => z

end TyphoonZero.CrossList
