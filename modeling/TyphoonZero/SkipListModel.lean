import TyphoonZero.Loop
import TyphoonZero.RankOrder

/-! The ranking skip list over an explicit heap. A node address is a non-zero
64-bit word; the random level and the address of a fresh node are arguments of
the operations. `none` is a loop that ran out of fuel. -/
namespace TyphoonZero.Rank
open Loop

def kSkipListMaxLevel : ℕ := 32

abbrev Addr := {a : UInt64 // a ≠ 0}

structure SkipListLevel where
  forward : Option Addr := none
  span : UInt64 := 0
  deriving DecidableEq

/-- `height` is the size of the array `levels`. -/
structure SkipListNode where
  height : ℕ
  uaks : Uaks := []
  backward : Option Addr := none
  levels : ℕ → SkipListLevel := fun _ => {}

def SkipListNode.getUid (n : SkipListNode) : UInt64 := n.uaks.at 0

def SkipListNode.getScore (n : SkipListNode) : UInt64 := n.uaks.at 1

abbrev Heap := Addr → SkipListNode

structure SkipList where
  type : UInt16
  uaksSize : ℕ
  header : Addr
  tail : Option Addr := none
  length : UInt64 := 0
  level : ℕ := 1
  uidUmap : AList fun _ : UInt64 => Addr := ∅
  nodes : Heap

namespace Heap

def setLevel (m : Heap) (a : Addr) (i : ℕ) (l : SkipListLevel) : Heap :=
  Function.update m a { m a with levels := Function.update (m a).levels i l }

def setForward (m : Heap) (a : Addr) (i : ℕ) (f : Option Addr) : Heap :=
  m.setLevel a i { (m a).levels i with forward := f }

def setSpan (m : Heap) (a : Addr) (i : ℕ) (d : UInt64) : Heap :=
  m.setLevel a i { (m a).levels i with span := d }

def setBackward (m : Heap) (a : Addr) (b : Option Addr) : Heap :=
  Function.update m a { m a with backward := b }

def getForward (m : Heap) (a : Addr) (i : ℕ) : Option Addr := ((m a).levels i).forward

def getSpan (m : Heap) (a : Addr) (i : ℕ) : UInt64 := ((m a).levels i).span

end Heap

/-- The constructor; `none` is its assertion on the key type. -/
def new (type : UInt16) (header : Addr) : Option SkipList :=
  (getSizeByRankKeyType (getRankKeyType type)).map fun size =>
    { type := type, uaksSize := size, header := header,
      nodes := fun _ => { height := kSkipListMaxLevel } }

/-- The arrays filled by a search. Entries the search does not write are never read. -/
structure Path where
  update : ℕ → Addr
  rank : ℕ → UInt64

namespace SkipList
variable (s : SkipList)

def compUaks (left right : Uaks) : Bool := Rank.compUaks s.type s.uaksSize left right

def getNodeByUid (uid : UInt64) : Option Addr := s.uidUmap.lookup uid

/-- One iteration of the inner loop shared by the searches at level `i`: `go`
decides from the rank reached and the next node whether to move on. -/
def advanceStep (go : UInt64 → Addr → Bool) (i : ℕ) (c : Addr × UInt64) : Option (Addr × UInt64) :=
  match s.nodes.getForward c.1 i with
  | none => none
  | some y =>
    let r := c.2 + s.nodes.getSpan c.1 i
    if go r y then some (y, r) else none

def advance (go : UInt64 → Addr → Bool) (fuel i : ℕ) (c : Addr × UInt64) :
    Option (Addr × UInt64) :=
  whileSome (s.advanceStep go i) fuel c

/-- The outer loop of a search over the levels below `n`, highest first. -/
def descend (go : UInt64 → Addr → Bool) (fuel : ℕ) : ℕ → Addr × UInt64 → Path → Option Path
  | 0, _, p => some p
  | i + 1, c, p => do
    let c' ← s.advance go fuel i c
    descend go fuel i c' ⟨Function.update p.update i c'.1, Function.update p.rank i c'.2⟩

def search (go : UInt64 → Addr → Bool) (fuel : ℕ) : Option Path :=
  s.descend go fuel s.level (s.header, 0) ⟨fun _ => s.header, fun _ => 0⟩

/-- The levels a new node is the first to reach start at the header. -/
def raise (lv : ℕ) (p : Path) : SkipList × Path :=
  if s.level < lv then
    ({ s with
        level := lv
        nodes := forRange (fun i m => Heap.setSpan m s.header i s.length) s.level (lv - s.level) s.nodes },
      forRange (fun i q => ⟨Function.update q.update i s.header, Function.update q.rank i 0⟩)
        s.level (lv - s.level) p)
  else (s, p)

def linkLevel (p : Path) (x : Addr) (i : ℕ) (m : Heap) : Heap :=
  let u := p.update i
  let m := m.setForward x i (m.getForward u i)
  let m := m.setForward u i (some x)
  let m := m.setSpan x i (m.getSpan u i - (p.rank 0 - p.rank i))
  m.setSpan u i ((p.rank 0 - p.rank i) + 1)

def bumpLevel (p : Path) (i : ℕ) (m : Heap) : Heap :=
  m.setSpan (p.update i) i (m.getSpan (p.update i) i + 1)

/-- Puts a new node of `lv` levels into the heap and links it. -/
def linkNode (lv : ℕ) (x : Addr) (uaks : Uaks) (p : Path) : Heap :=
  let m : Heap := Function.update s.nodes x { height := lv, uaks := uaks }
  let m := forRange (linkLevel p x) 0 lv m
  forRange (bumpLevel p) lv (s.level - lv) m

/-- The level-0 successor of `x` gets the backward pointer `b`; without one the tail does. -/
def setSuccBackward (m : Heap) (x : Addr) (b : Option Addr) : SkipList :=
  match m.getForward x 0 with
  | some y => { s with nodes := m.setBackward y b }
  | none => { s with nodes := m, tail := b }

/-- The part of `Insert` after the search; `lv` is the random level and `x` the new node. -/
def insertAt (lv : ℕ) (x : Addr) (uaks : Uaks) (p : Path) : SkipList :=
  let (s, p) := s.raise lv p
  let m := s.linkNode lv x uaks p
  let m := m.setBackward x (if p.update 0 = s.header then none else some (p.update 0))
  let s := s.setSuccBackward m x (some x)
  { s with
    length := s.length + 1
    uidUmap := s.uidUmap.insert (s.nodes x).getUid x }

def insert (fuel lv : ℕ) (x : Addr) (uaks : Uaks) : Option SkipList := do
  let p ← s.search (fun _ y => s.compUaks (s.nodes y).uaks uaks) fuel
  pure (s.insertAt lv x uaks p)

def unlinkLevel (p : Path) (x : Addr) (i : ℕ) (m : Heap) : Heap :=
  let u := p.update i
  if m.getForward u i = some x then
    let m := m.setSpan u i (m.getSpan u i + m.getSpan x i - 1)
    m.setForward u i (m.getForward x i)
  else
    m.setSpan u i (m.getSpan u i - 1)

/-- One iteration of the loop that drops empty levels. -/
def shrinkStep (lv : ℕ) : Option ℕ :=
  if lv > 1 ∧ s.nodes.getForward s.header (lv - 1) = none then some (lv - 1) else none

/-- `Delete(node_sptr, update)`. -/
def deleteAt (fuel : ℕ) (x : Addr) (p : Path) : Option SkipList :=
  let m := forRange (unlinkLevel p x) 0 s.level s.nodes
  let s := s.setSuccBackward m x (m x).backward
  (whileSome s.shrinkStep fuel s.level).map fun lv =>
    { s with
      level := lv
      length := s.length - 1
      uidUmap := s.uidUmap.erase (s.nodes x).getUid }

/-- `Delete(node_sptr)`. -/
def deleteNode (fuel : ℕ) (x : Addr) : Option SkipList := do
  let p ← s.search (fun _ y => s.compUaks (s.nodes y).uaks (s.nodes x).uaks) fuel
  s.deleteAt fuel x p

def delete (fuel : ℕ) (uid : UInt64) : Option (SkipList × Bool) :=
  match s.getNodeByUid uid with
  | none => some (s, false)
  | some x => (s.deleteNode fuel x).map fun t => (t, true)

def update (fuel lv : ℕ) (x : Addr) (uaks : Uaks) : Option (SkipList × Bool) := do
  let (t, _) ← s.delete fuel uaks.uid
  let u ← t.insert fuel lv x uaks
  pure (u, true)

/-- The outer loop of a query: stops at the first level after which `stop` holds. -/
def seek (go : UInt64 → Addr → Bool) (stop : Addr × UInt64 → Bool) (fuel : ℕ) :
    ℕ → Addr × UInt64 → Option (Option (Addr × UInt64))
  | 0, _ => some none
  | i + 1, c => do
    let c' ← s.advance go fuel i c
    if stop c' then pure (some c') else seek go stop fuel i c'

def getRank (fuel : ℕ) (uid : UInt64) : Option UInt64 :=
  match s.getNodeByUid uid with
  | none => some 0
  | some x => do
    let found ← s.seek
      (fun _ y => uid == (s.nodes y).getUid || s.compUaks (s.nodes y).uaks (s.nodes x).uaks)
      (fun c => c.1 == x) fuel s.level (s.header, 0)
    match found with
    | none => pure 0
    | some c => pure c.2

def getRevRank (fuel : ℕ) (uid : UInt64) : Option UInt64 := do
  let rank ← s.getRank fuel uid
  if 0 = rank then pure 0 else pure (s.length - rank + 1)

def getNodeByRank (fuel : ℕ) (rank : UInt64) : Option (Option Addr) :=
  if 0 = rank then some none
  else do
    let found ← s.seek (fun r _ => r ≤ rank) (fun c => c.2 == rank) fuel s.level (s.header, 0)
    pure (found.map Prod.fst)

def getUid (x : Option Addr) : UInt64 :=
  match x with
  | none => 0
  | some x => if 0 < s.uaksSize then (s.nodes x).getUid else 0

def getScoreOf (x : Option Addr) : UInt64 :=
  match x with
  | none => 0
  | some x => if 1 < s.uaksSize then (s.nodes x).getScore else 0

def getScore (uid : UInt64) : UInt64 := s.getScoreOf (s.getNodeByUid uid)

def getUidByRank (fuel : ℕ) (rank : UInt64) : Option UInt64 := do
  let x ← s.getNodeByRank fuel rank
  pure (s.getUid x)

def getUidByRevRank (fuel : ℕ) (rank : UInt64) : Option UInt64 := do
  let x ← s.getNodeByRank fuel (s.length + 1 - rank)
  pure (s.getUid x)

end SkipList

section HeapLemmas
variable {m : Heap} {a b : Addr} {i j : ℕ} {l : SkipListLevel} {f : Option Addr} {d : UInt64}

lemma setLevel_levels : ((m.setLevel a i l) b).levels j =
    if b = a ∧ j = i then l else (m b).levels j := by
  by_cases hb : b = a
  · subst hb
    by_cases hj : j = i <;> simp [Heap.setLevel, hj]
  · simp [Heap.setLevel, hb]

@[simp] lemma setLevel_uaks : ((m.setLevel a i l) b).uaks = (m b).uaks := by
  by_cases hb : b = a <;> simp [Heap.setLevel, Function.update, hb]

@[simp] lemma setLevel_backward : ((m.setLevel a i l) b).backward = (m b).backward := by
  by_cases hb : b = a <;> simp [Heap.setLevel, Function.update, hb]

@[simp] lemma setLevel_height : ((m.setLevel a i l) b).height = (m b).height := by
  by_cases hb : b = a <;> simp [Heap.setLevel, Function.update, hb]

@[simp] lemma setForward_uaks : ((m.setForward a i f) b).uaks = (m b).uaks := setLevel_uaks

@[simp] lemma setForward_backward : ((m.setForward a i f) b).backward = (m b).backward :=
  setLevel_backward

@[simp] lemma setForward_height : ((m.setForward a i f) b).height = (m b).height := setLevel_height

@[simp] lemma setSpan_uaks : ((m.setSpan a i d) b).uaks = (m b).uaks := setLevel_uaks

@[simp] lemma setSpan_backward : ((m.setSpan a i d) b).backward = (m b).backward :=
  setLevel_backward

@[simp] lemma setSpan_height : ((m.setSpan a i d) b).height = (m b).height := setLevel_height

lemma setBackward_apply : (m.setBackward a f) b = if b = a then { m a with backward := f } else m b := by
  by_cases hb : b = a <;> simp [Heap.setBackward, hb]

@[simp] lemma setBackward_levels : ((m.setBackward a f) b).levels = (m b).levels := by
  by_cases hb : b = a <;> simp [setBackward_apply, hb]

@[simp] lemma setBackward_uaks : ((m.setBackward a f) b).uaks = (m b).uaks := by
  by_cases hb : b = a <;> simp [setBackward_apply, hb]

@[simp] lemma setBackward_height : ((m.setBackward a f) b).height = (m b).height := by
  by_cases hb : b = a <;> simp [setBackward_apply, hb]

end HeapLemmas

end TyphoonZero.Rank
