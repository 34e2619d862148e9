import Mathlib

/-! Lists of digits kept as a mask of the places that are not zero and the digits
at these places. -/
namespace SparseCode
variable {α : Type*} [Zero α] [DecidableEq α]

def mask (l : List α) : List Bool := l.map fun x => decide (x ≠ 0)

def nonzero (l : List α) : List α := l.filter fun x => decide (x ≠ 0)

/-- The digits of a mask, taken from `s` in order, and what is left of `s`. -/
def expand : List Bool → List α → Option (List α × List α)
  | [], s => some ([], s)
  | false :: m, s => (expand m s).map fun r => (0 :: r.1, r.2)
  | true :: _, [] => none
  | true :: m, x :: s => (expand m s).map fun r => (x :: r.1, r.2)

@[simp] lemma length_mask (l : List α) : (mask l).length = l.length := List.length_map _

lemma mask_cons (x : α) (l : List α) : mask (x :: l) = decide (x ≠ 0) :: mask l := rfl

lemma nonzero_cons_zero {x : α} (hx : x = 0) (l : List α) : nonzero (x :: l) = nonzero l := by
  simp [nonzero, hx]

lemma nonzero_cons {x : α} (hx : x ≠ 0) (l : List α) : nonzero (x :: l) = x :: nonzero l := by
  simp [nonzero, hx]

/-- Expanding takes exactly the digits that were kept. -/
theorem expand_mask (l rest : List α) : expand (mask l) (nonzero l ++ rest) = some (l, rest) := by
  induction l with
  | nil => rfl
  | cons x l ih =>
    by_cases hx : x = 0
    · rw [mask_cons, nonzero_cons_zero hx, decide_eq_false (not_not.mpr hx), expand, ih, hx]
      rfl
    · rw [mask_cons, nonzero_cons hx, decide_eq_true hx, List.cons_append, expand, ih]
      rfl

/-- The code of a list is no proper beginning of the code of another one with the same mask. -/
lemma eq_of_isPrefix {l l' : List α} (hmask : mask l = mask l') (h : nonzero l <+: nonzero l') : l = l' := by
  obtain ⟨t, ht⟩ := h
  have hl := expand_mask l t
  have hl' := expand_mask l' []
  rw [List.append_nil, ← ht, ← hmask, hl] at hl'
  exact (Prod.mk.inj (Option.some.inj hl')).1

/-- Digits without a zero, as many as the mask wants, are the code of a list. -/
lemma exists_of_count {m : List Bool} {s : List α} (hs : 0 ∉ s) (hcount : m.count true = s.length) :
    ∃ l, mask l = m ∧ nonzero l = s := by
  induction m generalizing s with
  | nil =>
    obtain rfl : s = [] := List.length_eq_zero_iff.mp hcount.symm
    exact ⟨[], rfl, rfl⟩
  | cons b m ih =>
    cases b with
    | false =>
      obtain ⟨l, hm, hl⟩ := ih hs (by simpa using hcount)
      refine ⟨0 :: l, ?_, ?_⟩
      · rw [mask_cons, hm, decide_eq_false (not_not.mpr rfl)]
      · rw [nonzero_cons_zero rfl, hl]
    | true =>
      rw [List.count_cons_self] at hcount
      obtain ⟨x, s, rfl⟩ := List.exists_of_length_succ s hcount.symm
      rw [List.mem_cons, not_or] at hs
      have hx : x ≠ 0 := fun h => hs.1 h.symm
      obtain ⟨l, hm, hl⟩ := ih hs.2 (by simpa using hcount)
      refine ⟨x :: l, ?_, ?_⟩
      · rw [mask_cons, hm, decide_eq_true hx]
      · rw [nonzero_cons hx, hl]

end SparseCode
