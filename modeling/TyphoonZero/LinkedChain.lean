import TyphoonZero.Tower

/-! Doubly linked lists over pointer functions. `Pred f L` says that `f` gives
the predecessor of every element of `L`; a list read backwards turns it into
the successor function. -/
namespace LinkedChain
open Tower

variable {P : Type*}

def Pred (f : P → Option P) (L : List P) : Prop :=
  ∀ A x B, L = A ++ x :: B → f x = A.getLast?

def Succ (f : P → Option P) (L : List P) : Prop :=
  ∀ A x B, L = A ++ x :: B → f x = B.head?

section Pred
variable {f f' : P → Option P} {F G L : List P} {x : P}

lemma succ_iff_pred_reverse : Succ f L ↔ Pred f L.reverse := by
  constructor
  · intro h A x B hs
    have hL : L = B.reverse ++ x :: A.reverse := by
      rw [← List.reverse_reverse L, hs]
      simp
    rw [h B.reverse x A.reverse hL, List.head?_reverse]
  · intro h A x B hs
    have hL : L.reverse = B.reverse ++ x :: A.reverse := by simp [hs]
    rw [h B.reverse x A.reverse hL, List.getLast?_reverse]

lemma Pred.congr (h : Pred f L) (hf : ∀ a ∈ L, f' a = f a) : Pred f' L := by
  intro A y B hs
  rw [hf y (by simp [hs])]
  exact h A y B hs

/-- A new element gets its own predecessor and becomes that of the next one. -/
lemma Pred.insert (h : Pred f (F ++ G)) (hnd : (F ++ x :: G).Nodup) (hx : f' x = F.getLast?)
    (hy : ∀ y, G.head? = some y → f' y = some x)
    (hold : ∀ b ∈ F ++ G, G.head? ≠ some b → f' b = f b) : Pred f' (F ++ x :: G) := by
  intro A y B hs
  rcases split_cases hs with ⟨rfl, rfl, rfl⟩ | ⟨C, rfl, rfl⟩ | ⟨C, rfl, rfl⟩
  · exact hx
  · cases C using List.reverseRecOn with
    | nil => simpa using hy y rfl
    | append_singleton C c =>
      rw [hold y (by simp), h (F ++ (C ++ [c])) y B (by simp)]
      · simp [List.getLast?_append, List.getLast?_cons]
      · intro hh
        cases C <;> simp_all [List.nodup_append]
  · rw [hold y (by simp), h A y (C ++ G) (by simp)]
    intro hh
    have hyG : y ∈ G := List.mem_of_mem_head? hh
    exact List.disjoint_of_nodup_append hnd (a := y) (by simp) (by simp [hyG])

lemma Pred.delete (h : Pred f (F ++ x :: G)) (hnd : (F ++ x :: G).Nodup)
    (hy : ∀ y, G.head? = some y → f' y = F.getLast?)
    (hold : ∀ b ∈ F ++ G, G.head? ≠ some b → f' b = f b) : Pred f' (F ++ G) := by
  intro A y B hs
  rcases append_split_cases hs with ⟨C, rfl, rfl⟩ | ⟨C, rfl, rfl⟩
  · rw [hold y (by simp), h A y (C ++ x :: G) (by simp)]
    intro hh
    have hyG : y ∈ G := List.mem_of_mem_head? hh
    exact List.disjoint_of_nodup_append hnd (a := y) (by simp) (by simp [hyG])
  · cases C using List.reverseRecOn with
    | nil => rw [hy y rfl, List.append_nil]
    | append_singleton C c =>
      rw [hold y (by simp), h (F ++ x :: (C ++ [c])) y B (by simp)]
      · simp [List.getLast?_append, List.getLast?_cons]
      · intro hh
        cases C <;> simp_all [List.nodup_append]

end Pred

/-- Exchanging two neighbours changes the pointers of at most three elements. -/
lemma Pred.swap [DecidableEq P] {f f' : P → Option P} {A B : List P} {c n : P}
    (h : Pred f (A ++ c :: n :: B)) (hnd : (A ++ c :: n :: B).Nodup) (hn : f' n = A.getLast?)
    (hc : f' c = some n) (hhead : ∀ b, B.head? = some b → f' b = some c)
    (hold : ∀ b ∈ A ++ B, B.head? ≠ some b → f' b = f b) : Pred f' (A ++ n :: c :: B) := by
  have hAc : (A ++ [c]) ++ n :: B = A ++ c :: n :: B := by simp
  have hnd' : (A ++ n :: c :: B).Nodup := by
    have hperm : (A ++ n :: c :: B).Perm (A ++ c :: n :: B) := (List.Perm.swap c n B).append_left A
    exact hperm.nodup_iff.mpr hnd
  let g : P → Option P := fun b => if B.head? = some b then some c else f b
  have hg : Pred g (A ++ c :: B) := by
    have hd : Pred g ((A ++ [c]) ++ B) := by
      refine Pred.delete (hAc ▸ h) (hAc ▸ hnd) (fun y hy => ?_) fun b _ hb => if_neg hb
      simp [g, hy]
    simpa using hd
  refine hg.insert hnd' hn (fun y hy => ?_) fun b hb hbc => ?_
  · simp only [List.head?_cons, Option.some.injEq] at hy
    rw [← hy, hc]
  · simp only [List.head?_cons, ne_eq, Option.some.injEq] at hbc
    have hb' : b ∈ A ++ B := by
      simp only [List.mem_append, List.mem_cons] at hb ⊢
      rcases hb with hb | rfl | hb
      · exact .inl hb
      · exact absurd rfl hbc
      · exact .inr hb
    by_cases hB : B.head? = some b
    · rw [hhead b hB]
      simp [g, hB]
    · rw [hold b hb' hB]
      simp [g, hB]

lemma Succ.congr {f f' : P → Option P} {L : List P} (h : Succ f L) (hf : ∀ a ∈ L, f' a = f a) :
    Succ f' L := by
  rw [succ_iff_pred_reverse] at h ⊢
  exact h.congr fun a ha => hf a (List.mem_reverse.mp ha)

lemma Succ.insert {f f' : P → Option P} {F G : List P} {x : P} (h : Succ f (F ++ G))
    (hnd : (F ++ x :: G).Nodup) (hx : f' x = G.head?)
    (hy : ∀ y, F.getLast? = some y → f' y = some x)
    (hold : ∀ b ∈ F ++ G, F.getLast? ≠ some b → f' b = f b) : Succ f' (F ++ x :: G) := by
  have hrev : (F ++ x :: G).reverse = G.reverse ++ x :: F.reverse := by simp
  rw [succ_iff_pred_reverse, List.reverse_append] at h
  rw [succ_iff_pred_reverse, hrev]
  refine h.insert ?_ (by rw [hx, List.getLast?_reverse]) (fun y hy' => ?_) fun b hb hne => ?_
  · rw [← hrev]
    exact List.nodup_reverse.mpr hnd
  · exact hy y (by rwa [List.head?_reverse] at hy')
  · refine hold b ?_ (by rwa [List.head?_reverse] at hne)
    simp only [List.mem_append, List.mem_reverse] at hb ⊢
    exact hb.symm

lemma Succ.delete {f f' : P → Option P} {F G : List P} {x : P} (h : Succ f (F ++ x :: G))
    (hnd : (F ++ x :: G).Nodup) (hy : ∀ y, F.getLast? = some y → f' y = G.head?)
    (hold : ∀ b ∈ F ++ G, F.getLast? ≠ some b → f' b = f b) : Succ f' (F ++ G) := by
  have hrev : (F ++ x :: G).reverse = G.reverse ++ x :: F.reverse := by simp
  rw [succ_iff_pred_reverse, hrev] at h
  rw [succ_iff_pred_reverse, List.reverse_append]
  refine h.delete ?_ (fun y hy' => ?_) fun b hb hne => ?_
  · rw [← hrev]
    exact List.nodup_reverse.mpr hnd
  · rw [List.getLast?_reverse]
    exact hy y (by rwa [List.head?_reverse] at hy')
  · refine hold b ?_ (by rwa [List.head?_reverse] at hne)
    simp only [List.mem_append, List.mem_reverse] at hb ⊢
    exact hb.symm

lemma Succ.swap [DecidableEq P] {f f' : P → Option P} {A B : List P} {c n : P}
    (h : Succ f (A ++ c :: n :: B)) (hnd : (A ++ c :: n :: B).Nodup) (hc : f' c = B.head?)
    (hn : f' n = some c) (hlast : ∀ a, A.getLast? = some a → f' a = some n)
    (hold : ∀ b ∈ A ++ B, A.getLast? ≠ some b → f' b = f b) : Succ f' (A ++ n :: c :: B) := by
  have hrev : (A ++ c :: n :: B).reverse = B.reverse ++ n :: c :: A.reverse := by simp
  have hrev' : (A ++ n :: c :: B).reverse = B.reverse ++ c :: n :: A.reverse := by simp
  rw [succ_iff_pred_reverse, hrev] at h
  rw [succ_iff_pred_reverse, hrev']
  refine h.swap ?_ (by rw [hc, List.getLast?_reverse]) hn (fun a ha => ?_) fun b hb hne => ?_
  · rw [← hrev]
    exact List.nodup_reverse.mpr hnd
  · exact hlast a (by rwa [List.head?_reverse] at ha)
  · refine hold b ?_ (by rwa [List.head?_reverse] at hne)
    simp only [List.mem_append, List.mem_reverse] at hb ⊢
    exact hb.symm

/-- The elements from one on, as pointers lead to them; `none` when the fuel runs out. -/
def walk (f : P → Option P) : ℕ → Option P → Option (List P)
  | _, none => some []
  | 0, some _ => none
  | fuel + 1, some x => (walk f fuel (f x)).map (x :: ·)

lemma Succ.tail {f : P → Option P} {x : P} {L : List P} (h : Succ f (x :: L)) : Succ f L :=
  fun A y B hs => h (x :: A) y B (congrArg (x :: ·) hs)

lemma Succ.walk {f : P → Option P} {L : List P} (h : Succ f L) {fuel : ℕ} (hfuel : L.length ≤ fuel) :
    walk f fuel L.head? = some L := by
  induction L generalizing fuel with
  | nil => cases fuel <;> rfl
  | cons x L ih =>
    cases fuel with
    | zero => exact absurd hfuel (Nat.not_succ_le_zero _)
    | succ fuel =>
      rw [List.head?_cons, LinkedChain.walk, h [] x L rfl, ih h.tail (Nat.le_of_succ_le_succ hfuel)]
      rfl

lemma Pred.walk {f : P → Option P} {L : List P} (h : Pred f L) {fuel : ℕ} (hfuel : L.length ≤ fuel) :
    walk f fuel L.getLast? = some L.reverse := by
  have hrev : Succ f L.reverse := by rwa [succ_iff_pred_reverse, List.reverse_reverse]
  rw [← List.head?_reverse]
  exact hrev.walk (by rwa [List.length_reverse])

/-- `L` is the doubly linked list with head `first`. -/
structure DLinked (first : Option P) (prev next : P → Option P) (L : List P) : Prop where
  nodup : L.Nodup
  first : first = L.head?
  prev : Pred prev L
  next : Succ next L

end LinkedChain
