import Mathlib

/-! Lists of towers. One level of an indexed skip list keeps only the elements
meeting a predicate; `reach` is the distance from just before the list to the
first such element, and `LastTall` names the last one of a prefix. -/
namespace Tower

variable {α : Type*} {p : α → Bool} {l A B C D : List α} {x y : α}

/-- The distance to the first element meeting `p`, the whole length when there is none. -/
def reach (p : α → Bool) : List α → ℕ
  | [] => 0
  | a :: l => if p a then 1 else reach p l + 1

lemma reach_le_length : reach p l ≤ l.length := by
  induction l with
  | nil => simp [reach]
  | cons a l ih => simp only [reach, List.length_cons]; split_ifs <;> omega

lemma reach_eq_length (h : ∀ a ∈ l, p a = false) : reach p l = l.length := by
  induction l with
  | nil => rfl
  | cons a l ih =>
    simp only [List.mem_cons, forall_eq_or_imp] at h
    simp [reach, h.1, ih h.2]

lemma reach_congr {q : α → Bool} (h : ∀ a ∈ l, q a = p a) : reach q l = reach p l := by
  induction l with
  | nil => rfl
  | cons a l ih =>
    simp only [List.mem_cons, forall_eq_or_imp] at h
    simp only [reach, h.1, ih h.2]

lemma reach_append_short (h : ∀ b ∈ B, p b = false) : reach p (B ++ l) = B.length + reach p l := by
  induction B with
  | nil => simp
  | cons b B ih =>
    simp only [List.mem_cons, forall_eq_or_imp] at h
    simp only [List.cons_append, reach, h.1, ih h.2, List.length_cons, Bool.false_eq_true, if_false]
    omega

lemma find?_append_short (h : ∀ b ∈ B, p b = false) : (B ++ l).find? p = l.find? p := by
  rw [List.find?_append, List.find?_eq_none.mpr (by simpa using h), Option.none_or]

lemma reach_append_tall (h : p x = true) : reach p (A ++ x :: B ++ l) = reach p (A ++ x :: B) := by
  induction A with
  | nil => simp [reach, h]
  | cons a A ih =>
    simp only [List.cons_append, reach] at ih ⊢
    rw [ih]

lemma find?_append_tall (h : p x = true) : (A ++ x :: B ++ l).find? p = (A ++ x :: B).find? p := by
  rw [List.find?_append]
  have hs : ((A ++ x :: B).find? p).isSome = true := by
    rw [List.find?_isSome]
    exact ⟨x, by simp, h⟩
  obtain ⟨y, hy⟩ := Option.isSome_iff_exists.mp hs
  simp [hy]

lemma find?_eq_head? (h : ∀ a ∈ l, p a = true) : l.find? p = l.head? := by
  cases l with
  | nil => rfl
  | cons a l => simp [List.find?_cons, h a (by simp)]

lemma exists_of_find?_eq_some (h : l.find? p = some y) :
    ∃ C D, l = C ++ y :: D ∧ p y = true ∧ (∀ c ∈ C, p c = false) ∧ reach p l = C.length + 1 := by
  obtain ⟨hy, C, D, rfl, hC⟩ := List.find?_eq_some_iff_append.mp h
  have hC' : ∀ c ∈ C, p c = false := by simpa using hC
  refine ⟨C, D, rfl, hy, hC', ?_⟩
  rw [reach_append_short hC']
  simp [reach, hy]

/-- `x` is the last element of `A ++ x :: B` meeting `p`. -/
structure LastTall (p : α → Bool) (F A : List α) (x : α) (B : List α) : Prop where
  split : F = A ++ x :: B
  tall : p x = true
  short : ∀ b ∈ B, p b = false

lemma LastTall.length (h : LastTall p l A x B) : A.length + B.length + 1 = l.length := by
  simp [h.split]; omega

/-- Two prefixes around different occurrences: the one that ends later passes the other. -/
lemma split_cases {A' B' : List α} (h : A ++ x :: B = A' ++ y :: B') :
    (A = A' ∧ x = y ∧ B = B') ∨ (∃ C, A' = A ++ x :: C ∧ B = C ++ y :: B') ∨
      ∃ C, A = A' ++ y :: C ∧ B' = C ++ x :: B := by
  rcases List.append_eq_append_iff.mp h with ⟨C, hA, hB⟩ | ⟨C, hA, hB⟩
  · cases C with
    | nil => simp only [List.nil_append, List.cons.injEq] at hB; simp_all
    | cons c C =>
      simp only [List.cons_append, List.cons.injEq] at hB
      obtain ⟨rfl, rfl⟩ := hB
      exact .inr (.inl ⟨C, hA, rfl⟩)
  · cases C with
    | nil => simp only [List.nil_append, List.cons.injEq] at hB; simp_all
    | cons c C =>
      simp only [List.cons_append, List.cons.injEq] at hB
      obtain ⟨rfl, rfl⟩ := hB
      exact .inr (.inr ⟨C, hA, rfl⟩)

lemma append_split_cases {F G : List α} (h : F ++ G = A ++ y :: B) :
    (∃ C, F = A ++ y :: C ∧ B = C ++ G) ∨ ∃ C, A = F ++ C ∧ G = C ++ y :: B := by
  rcases List.append_eq_append_iff.mp h with ⟨C, hA, hB⟩ | ⟨C, hA, hB⟩
  · exact .inr ⟨C, hA, hB⟩
  · cases C with
    | nil =>
      refine .inr ⟨[], ?_, ?_⟩
      · simpa using hA.symm
      · simpa using hB.symm
    | cons c C =>
      simp only [List.cons_append, List.cons.injEq] at hB
      obtain ⟨rfl, rfl⟩ := hB
      exact .inl ⟨C, hA, rfl⟩

end Tower
