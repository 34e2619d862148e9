import TyphoonZero.LinkedChain

/-! The intrusive list. Elements hold pointers to their neighbours, and a list head holds
two elements of its own around the others. -/
namespace TyphoonZero.LinkedList
open LinkedChain

variable {H E : Type}

/-- A `LinkedListElement`: a free-standing one, or `first_` or `last_` of a head. -/
inductive Node (H E : Type)
  | elem (e : E)
  | first (h : H)
  | last (h : H)
  deriving DecidableEq

inductive Fault
  | nullPointer
  deriving DecidableEq, Repr

/-- What all elements and heads hold; `none` is `nullptr`. -/
structure Memory (H E : Type) where
  next : Node H E → Option (Node H E)
  prev : Node H E → Option (Node H E)
  size : H → UInt32

/-- After the constructors. -/
def Memory.init : Memory H E where
  next
    | .first h => some (.last h)
    | _ => none
  prev
    | .last h => some (.first h)
    | _ => none
  size _ := 0

def deref {α : Type*} : Option α → Except Fault α
  | some x => .ok x
  | none => .error .nullPointer

namespace Memory
variable (m : Memory H E)

def hasNext (x : Node H E) : Bool := ((m.next x).bind m.next).isSome

def hasPrev (x : Node H E) : Bool := ((m.prev x).bind m.prev).isSome

def isInList (x : Node H E) : Bool := (m.prev x).isSome && (m.next x).isSome

def getNext (x : Node H E) : Option (Node H E) := if m.hasNext x then m.next x else none

def getPrev (x : Node H E) : Option (Node H E) := if m.hasPrev x then m.prev x else none

section Pointers
variable [DecidableEq H] [DecidableEq E]

def setNext (x : Node H E) (p : Option (Node H E)) : Memory H E := { m with next := Function.update m.next x p }

def setPrev (x : Node H E) (p : Option (Node H E)) : Memory H E := { m with prev := Function.update m.prev x p }

def insertBefore (this elem : Node H E) : Except Fault (Memory H E) := do
  let m := m.setNext elem (some this)
  let m := m.setPrev elem (m.prev this)
  let p ← deref (m.prev this)
  let m := m.setNext p (some elem)
  pure (m.setPrev this (some elem))

def insertAfter (this elem : Node H E) : Except Fault (Memory H E) := do
  let m := m.setPrev elem (some this)
  let m := m.setNext elem (m.next this)
  let n ← deref (m.next this)
  let m := m.setPrev n (some elem)
  pure (m.setNext this (some elem))

def delink (this : Node H E) : Except Fault (Memory H E) :=
  if !m.isInList this then pure m
  else do
    let n ← deref (m.next this)
    let m := m.setPrev n (m.prev this)
    let p ← deref (m.prev this)
    let m := m.setNext p (m.next this)
    let m := m.setNext this none
    pure (m.setPrev this none)

end Pointers

def isEmpty (h : H) : Except Fault Bool := do
  let x ← deref (m.next (.first h))
  pure (!m.isInList x)

def getFirst (h : H) : Except Fault (Option (Node H E)) := do
  if ← m.isEmpty h then pure none else pure (m.next (.first h))

def getLast (h : H) : Except Fault (Option (Node H E)) := do
  if ← m.isEmpty h then pure none else pure (m.prev (.last h))

/-- The loop of `GetSize`; `none` when the fuel runs out. -/
def countLoop : ℕ → Option (Node H E) → UInt32 → Option UInt32
  | _, none, result => some result
  | 0, some _, _ => none
  | fuel + 1, some curr, result => countLoop fuel (m.getNext curr) (result + 1)

def getSize (h : H) (fuel : ℕ) : Except Fault (Option UInt32) := do
  if m.size h = 0 then
    let curr ← m.getFirst h
    pure (m.countLoop fuel curr 0)
  else pure (some (m.size h))

/-- An iterator from `GetFirst` with `++` to the end. -/
def forward (h : H) (fuel : ℕ) : Except Fault (Option (List (Node H E))) := do
  let x ← m.getFirst h
  pure (walk m.getNext fuel x)

/-- An iterator from `GetLast` with `--` to the end. -/
def backward (h : H) (fuel : ℕ) : Except Fault (Option (List (Node H E))) := do
  let x ← m.getLast h
  pure (walk m.getPrev fuel x)

end Memory

inductive Op (H E : Type)
  | insertFirst (h : H) (elem : E)
  | insertLast (h : H) (elem : E)
  | insertBefore (this elem : E)
  | insertAfter (this elem : E)
  | delink (this : E)

section Ops
variable [DecidableEq H] [DecidableEq E]

def exec (m : Memory H E) : Op H E → Except Fault (Memory H E)
  | .insertFirst h elem => m.insertAfter (.first h) (.elem elem)
  | .insertLast h elem => m.insertBefore (.last h) (.elem elem)
  | .insertBefore this elem => m.insertBefore (.elem this) (.elem elem)
  | .insertAfter this elem => m.insertAfter (.elem this) (.elem elem)
  | .delink this => m.delink (.elem this)

/-- The sequences that the lists stand for. -/
abbrev Sequences (H E : Type) := H → List E

def Free (seq : Sequences H E) (e : E) : Prop := ∀ h, e ∉ seq h

namespace Op

def Allowed (seq : Sequences H E) : Op H E → Prop
  | .insertFirst _ elem => Free seq elem
  | .insertLast _ elem => Free seq elem
  | .insertBefore this elem => Free seq elem ∧ ∃ h, this ∈ seq h
  | .insertAfter this elem => Free seq elem ∧ ∃ h, this ∈ seq h
  | .delink _ => True

def apply (seq : Sequences H E) : Op H E → Sequences H E
  | .insertFirst h elem => Function.update seq h (elem :: seq h)
  | .insertLast h elem => Function.update seq h (seq h ++ [elem])
  | .insertBefore this elem => fun h => (seq h).flatMap fun x => if x = this then [elem, x] else [x]
  | .insertAfter this elem => fun h => (seq h).flatMap fun x => if x = this then [x, elem] else [x]
  | .delink this => fun h => (seq h).erase this

end Op

/-- Every operation of a run is allowed when it is its turn. -/
def Permitted (seq : Sequences H E) : List (Op H E) → Prop
  | [] => True
  | op :: ops => op.Allowed seq ∧ Permitted (op.apply seq) ops

/-- The memory holds the sequences, as the list's own functions show them. -/
structure Agrees (m : Memory H E) (seq : Sequences H E) : Prop where
  forward : ∀ h fuel, (seq h).length ≤ fuel → m.forward h fuel = .ok (some ((seq h).map .elem))
  backward : ∀ h fuel, (seq h).length ≤ fuel → m.backward h fuel = .ok (some ((seq h).reverse.map .elem))
  getSize : ∀ h fuel, (seq h).length ≤ fuel → m.getSize h fuel = .ok (some (UInt32.ofNat (seq h).length))
  isEmpty : ∀ h, m.isEmpty h = .ok (decide (seq h = []))
  getFirst : ∀ h, m.getFirst h = .ok ((seq h).head?.map .elem)
  getLast : ∀ h, m.getLast h = .ok ((seq h).getLast?.map .elem)
  hasNext : ∀ e, m.hasNext (.elem e) = true ↔ ∃ h A x B, seq h = A ++ e :: x :: B
  hasPrev : ∀ e, m.hasPrev (.elem e) = true ↔ ∃ h A x B, seq h = A ++ x :: e :: B
  isInList : ∀ e, m.isInList (.elem e) = true ↔ ∃ h, e ∈ seq h
  delink : ∀ e, Free seq e → m.delink (.elem e) = .ok m

end Ops

end TyphoonZero.LinkedList
