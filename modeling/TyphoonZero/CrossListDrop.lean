import TyphoonZero.CrossListMove

/-! The end of a cross list: its nodes are dropped one after the other along the x axis. -/
namespace TyphoonZero.CrossList
open LinkedChain

section
variable {P α : Type} [DecidableEq P]

/-- The next node loses its predecessor. -/
def AxisList.freeNext (l : AxisList P α) (p : P) : AxisList P α :=
  match l.next p with
  | some q => l.setPrev q none
  | none => l

/-- The links of a node that is dropped, with those to it from the x axis. -/
def dropLinks (axis : Axis → AxisList P α) (p : P) (a : Axis) : AxisList P α :=
  (if a = .x then (axis a).freeNext p else axis a).resetPtr p

lemma freeNext_next (l : AxisList P α) (p : P) : (l.freeNext p).next = l.next := by
  unfold AxisList.freeNext
  cases l.next p <;> simp

lemma freeNext_prev {l : AxisList P α} {p q : P} (h : l.next p ≠ some q) :
    (l.freeNext p).prev q = l.prev q := by
  unfold AxisList.freeNext
  cases hn : l.next p with
  | none => rfl
  | some r =>
    have hr : q ≠ r := by
      intro hqr
      rw [hn, hqr] at h
      exact h rfl
    simp [hr]

variable {axis : Axis → AxisList P α} {p q : P}

lemma dropLinks_self (a : Axis) :
    (dropLinks axis p a).prev p = none ∧ (dropLinks axis p a).next p = none := by
  simp [dropLinks, AxisList.resetPtr]

lemma dropLinks_next (hq : q ≠ p) (a : Axis) : (dropLinks axis p a).next q = (axis a).next q := by
  unfold dropLinks
  split_ifs <;> simp [AxisList.resetPtr, hq, freeNext_next]

lemma dropLinks_prev (hq : q ≠ p) (a : Axis) (h : (axis .x).next p ≠ some q) :
    (dropLinks axis p a).prev q = (axis a).prev q := by
  unfold dropLinks
  split_ifs with ha
  · rw [ha]
    simp [AxisList.resetPtr, hq, freeNext_prev h]
  · simp [AxisList.resetPtr, hq]

/-- The nodes `rest` are still to be dropped; the others have no neighbours any more. -/
structure Dropping (axis : Axis → AxisList P α) (rest : List P) : Prop where
  nodup : rest.Nodup
  next : Succ (axis .x).next rest
  others : ∀ q ∉ rest, ∀ a, (axis a).prev q = none ∧ (axis a).next q = none

lemma Dropping.step {rest : List P} (h : Dropping axis (p :: rest)) :
    (axis .x).next p = rest.head? ∧ Dropping (dropLinks axis p) rest := by
  obtain ⟨hp, hnodup⟩ := List.nodup_cons.mp h.nodup
  have hhead : (axis .x).next p = rest.head? := h.next [] p rest rfl
  refine ⟨hhead, hnodup, ?_, fun q hq a => ?_⟩
  · have hrest : Succ (axis .x).next rest := by
      intro A x B hsplit
      exact h.next (p :: A) x B (by rw [hsplit]; rfl)
    apply hrest.congr
    intro q hq
    apply dropLinks_next
    rintro rfl
    exact hp hq
  · by_cases hqp : q = p
    · rw [hqp]
      exact dropLinks_self a
    · have hnext : (axis .x).next p ≠ some q := by
        rw [hhead]
        intro hmem
        exact hq (List.mem_of_head? hmem)
      rw [dropLinks_prev hqp a hnext, dropLinks_next hqp]
      exact h.others q (by simp [hqp, hq]) a

end
end TyphoonZero.CrossList
