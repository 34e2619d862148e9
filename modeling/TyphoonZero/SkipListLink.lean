import TyphoonZero.SkipListSearch

/-! Linking a node into the levels of a skip list and unlinking it. Every loop
over the levels treats one level an iteration and looks at no other. -/
namespace TyphoonZero.Rank
open Tower Loop

/-- The iteration for level `i` reads and writes level `i` only. -/
structure LevelWise (f : ℕ → Heap → Heap) : Prop where
  other : ∀ i m b j, j ≠ i → ((f i m) b).levels j = (m b).levels j
  congr : ∀ i m m', (∀ b, (m b).levels i = (m' b).levels i) →
    ∀ b, ((f i m) b).levels i = ((f i m') b).levels i
  uaks : ∀ i m b, ((f i m) b).uaks = (m b).uaks
  height : ∀ i m b, ((f i m) b).height = (m b).height
  backward : ∀ i m b, ((f i m) b).backward = (m b).backward

section LevelWise
variable {f : ℕ → Heap → Heap} (hf : LevelWise f) {lo n : ℕ} {m : Heap} {b : Addr}
include hf

lemma LevelWise.forRange_other {j : ℕ} (hj : j < lo ∨ lo + n ≤ j) :
    ((forRange f lo n m) b).levels j = (m b).levels j := by
  refine forRange_invariant (fun _ (t : Heap) => (t b).levels j = (m b).levels j) rfl fun i t hl hu ht => ?_
  rw [hf.other i t b j (by omega), ht]

lemma LevelWise.forRange_levels {j : ℕ} (hl : lo ≤ j) (hu : j < lo + n) :
    ((forRange f lo n m) b).levels j = ((f j m) b).levels j := by
  let I : ℕ → Heap → Prop := fun k t =>
    (k ≤ j → ∀ b, (t b).levels j = (m b).levels j) ∧
      (j < k → ∀ b, (t b).levels j = ((f j m) b).levels j)
  have h : I (lo + n) (forRange f lo n m) := by
    refine forRange_invariant I ⟨fun _ _ => rfl, fun h => by omega⟩ ?_
    rintro i t - - ⟨hle, hlt⟩
    refine ⟨fun h b => ?_, fun h b => ?_⟩
    · rw [hf.other i t b j (by omega), hle (by omega)]
    · rcases Nat.lt_succ_iff_lt_or_eq.mp h with h | rfl
      · rw [hf.other i t b j (by omega), hlt h]
      · exact hf.congr j t m (hle le_rfl) b
  exact h.2 hu b

lemma LevelWise.forRange_uaks : ((forRange f lo n m) b).uaks = (m b).uaks :=
  forRange_invariant (fun _ (t : Heap) => (t b).uaks = (m b).uaks) rfl
    fun i t _ _ ht => (hf.uaks i t b).trans ht

lemma LevelWise.forRange_height : ((forRange f lo n m) b).height = (m b).height :=
  forRange_invariant (fun _ (t : Heap) => (t b).height = (m b).height) rfl
    fun i t _ _ ht => (hf.height i t b).trans ht

lemma LevelWise.forRange_backward : ((forRange f lo n m) b).backward = (m b).backward :=
  forRange_invariant (fun _ (t : Heap) => (t b).backward = (m b).backward) rfl
    fun i t _ _ ht => (hf.backward i t b).trans ht

lemma LevelWise.forRange_tall : (forRange f lo n m).tall = m.tall := by
  funext i b
  simp only [Heap.tall, hf.forRange_height]

end LevelWise

section Loops
variable {p : Path} {x h : Addr} {d : UInt64} {m : Heap} {i : ℕ} {b : Addr}

lemma setSpan_levelWise : LevelWise fun i m => m.setSpan h i d where
  other i m b j hj := by simp [Heap.setSpan, setLevel_levels, hj]
  congr i m m' hm b := by simp [Heap.setSpan, setLevel_levels, hm]
  uaks := by simp
  height := by simp
  backward := by simp

lemma linkLevel_levelWise : LevelWise (SkipList.linkLevel p x) where
  other i m b j hj := by simp [SkipList.linkLevel, Heap.setSpan, Heap.setForward, setLevel_levels, hj]
  congr i m m' hm b := by
    simp [SkipList.linkLevel, Heap.setSpan, Heap.setForward, Heap.getForward, Heap.getSpan,
      setLevel_levels, hm]
  uaks := by simp [SkipList.linkLevel]
  height := by simp [SkipList.linkLevel]
  backward := by simp [SkipList.linkLevel]

lemma bumpLevel_levelWise : LevelWise (SkipList.bumpLevel p) where
  other i m b j hj := by simp [SkipList.bumpLevel, Heap.setSpan, setLevel_levels, hj]
  congr i m m' hm b := by simp [SkipList.bumpLevel, Heap.setSpan, Heap.getSpan, setLevel_levels, hm]
  uaks := by simp [SkipList.bumpLevel]
  height := by simp [SkipList.bumpLevel]
  backward := by simp [SkipList.bumpLevel]

lemma unlinkLevel_levelWise : LevelWise (SkipList.unlinkLevel p x) where
  other i m b j hj := by
    simp only [SkipList.unlinkLevel]
    split_ifs <;> simp [Heap.setSpan, Heap.setForward, setLevel_levels, hj]
  congr i m m' hm b := by
    simp only [SkipList.unlinkLevel, Heap.getForward, hm]
    split_ifs <;>
      simp_all [Heap.setSpan, Heap.setForward, Heap.getSpan, setLevel_levels]
  uaks i m b := by simp only [SkipList.unlinkLevel]; split_ifs <;> simp
  height i m b := by simp only [SkipList.unlinkLevel]; split_ifs <;> simp
  backward i m b := by simp only [SkipList.unlinkLevel]; split_ifs <;> simp

lemma linkLevel_levels (hx : p.update i ≠ x) : ((SkipList.linkLevel p x i m) b).levels i =
    if b = x then
      ⟨m.getForward (p.update i) i, m.getSpan (p.update i) i - (p.rank 0 - p.rank i)⟩
    else if b = p.update i then ⟨some x, p.rank 0 - p.rank i + 1⟩
    else (m b).levels i := by
  simp only [SkipList.linkLevel, Heap.setSpan, Heap.setForward, Heap.getForward, Heap.getSpan,
    setLevel_levels, and_true, hx, hx.symm, if_true, if_false]
  split_ifs with h₁ h₂ <;> simp_all

lemma bumpLevel_levels : ((SkipList.bumpLevel p i m) b).levels i =
    if b = p.update i then ⟨m.getForward b i, m.getSpan b i + 1⟩ else (m b).levels i := by
  simp only [SkipList.bumpLevel, Heap.setSpan, Heap.getForward, Heap.getSpan, setLevel_levels,
    and_true]
  split_ifs with h <;> simp_all

lemma unlinkLevel_levels (hx : p.update i ≠ x) : ((SkipList.unlinkLevel p x i m) b).levels i =
    if b = p.update i then
      if m.getForward b i = some x then ⟨m.getForward x i, m.getSpan b i + m.getSpan x i - 1⟩
      else ⟨m.getForward b i, m.getSpan b i - 1⟩
    else (m b).levels i := by
  simp only [SkipList.unlinkLevel]
  by_cases hb : b = p.update i
  · subst hb
    split_ifs with hf <;>
      simp_all [Heap.setSpan, Heap.setForward, Heap.getForward, Heap.getSpan, setLevel_levels, hx.symm]
  · split_ifs <;> simp [Heap.setSpan, Heap.setForward, setLevel_levels, hb]

end Loops

section Passed
variable {m : Heap} {n i : ℕ} {F D A B C : List Addr} {x y : Addr}

/-- The last tall node of `F` is none of those behind `F`. -/
lemma ne_of_behind (h : LastTall (m.tall i) F A x B) (hnd : (F ++ D).Nodup) (hy : y ∈ D) : y ≠ x := by
  have hxF : x ∈ F := by
    rw [h.split]
    exact List.mem_append_right _ List.mem_cons_self
  rintro rfl
  exact List.disjoint_of_nodup_append hnd hxF hy

/-- A node before a tall one does not see what comes behind it. -/
lemma levels_before (hl : Levels m n (A ++ y :: (C ++ x :: B) ++ D)) (hi : i < n) (hy : m.tall i y = true)
    (hx : m.tall i x = true) (D' : List Addr) :
    (m y).levels i = ⟨(C ++ x :: B ++ D').find? (m.tall i),
      UInt64.ofNat (reach (m.tall i) (C ++ x :: B ++ D'))⟩ := by
  have hly := hl i hi A y (C ++ x :: B ++ D) (by simp) hy
  rw [find?_append_tall hx, reach_append_tall hx] at hly ⊢
  exact hly

end Passed

section Relink
variable {m : Heap} {n lv : ℕ} {F G : List Addr} {x : Addr} {p : Path}
  (hp : ∀ i < n, AtLast m F i (p.update i, p.rank i))
include hp

/-- The distance from the frontier of a level to the end of the part passed over. -/
lemma rank_sub_rank (hF : ∀ a ∈ F, m.tall 0 a = true) {i : ℕ} (hi : i < n) {A B : List Addr}
    (hl : LastTall (m.tall i) F A (p.update i) B) (hr : p.rank i = UInt64.ofNat A.length) :
    p.rank 0 - p.rank i = UInt64.ofNat B.length := by
  obtain ⟨A₀, B₀, h₀, hr₀⟩ := hp 0 (by omega)
  have hB₀ : B₀ = [] := by
    refine List.eq_nil_iff_forall_not_mem.mpr fun b hb => ?_
    have ht := hF b (by simp [h₀.split, hb])
    rw [h₀.short b hb] at ht
    exact Bool.false_ne_true ht
  have h₁ := h₀.length
  have h₂ := hl.length
  have hA : A₀.length = A.length + B.length := by simp only [hB₀, List.length_nil] at h₁; omega
  dsimp only at hr₀
  rw [hr₀, hr, hA, UInt64.ofNat_add, add_sub_cancel_left]

lemma linked_levels (hl : Levels m n (F ++ G)) (hx : x ∉ F) (hF : ∀ a ∈ F, m.tall 0 a = true)
    {i : ℕ} (hi : i < n) {A B : List Addr} (h : LastTall (m.tall i) F A (p.update i) B)
    (hr : p.rank i = UInt64.ofNat A.length) (b : Addr) (hb : b = x → i < lv) :
    (forRange (SkipList.bumpLevel p) lv (n - lv) (forRange (SkipList.linkLevel p x) 0 lv m) b).levels i =
      if b = x then ⟨G.find? (m.tall i), UInt64.ofNat (reach (m.tall i) G)⟩
      else if b = p.update i then
        if i < lv then ⟨some x, UInt64.ofNat (B.length + 1)⟩
        else ⟨G.find? (m.tall i), UInt64.ofNat (B.length + (reach (m.tall i) G + 1))⟩
      else (m b).levels i := by
  have hux : p.update i ≠ x := by
    rintro rfl
    exact hx (by simp [h.split])
  have hu := hl i hi A (p.update i) (B ++ G) (by simp [h.split]) h.tall
  rw [find?_append_short h.short, reach_append_short h.short] at hu
  by_cases hlv : i < lv
  · rw [bumpLevel_levelWise.forRange_other (.inl hlv),
      linkLevel_levelWise.forRange_levels (Nat.zero_le i) (by omega), linkLevel_levels hux,
      rank_sub_rank hp hF hi h hr]
    simp only [Heap.getForward, Heap.getSpan, hu, if_pos hlv, UInt64.ofNat_add, add_sub_cancel_left]
    rfl
  · have hbx : b ≠ x := fun h => hlv (hb h)
    rw [bumpLevel_levelWise.forRange_levels (by omega) (by omega), bumpLevel_levels, if_neg hbx,
      if_neg hlv]
    have hm : ∀ a, (forRange (SkipList.linkLevel p x) 0 lv m a).levels i = (m a).levels i :=
      fun a => linkLevel_levelWise.forRange_other (.inr (by omega))
    simp only [Heap.getForward, Heap.getSpan, hm]
    split_ifs with hbu
    · subst hbu
      simp only [hu, UInt64.ofNat_add, add_assoc]
      rfl
    · rfl

/-- Linking a node of `lv` levels between `F` and `G`. -/
lemma levels_link (hl : Levels m n (F ++ G)) (hnd : (F ++ x :: G).Nodup) (hlv : (m x).height = lv)
    (hF : ∀ a ∈ F, m.tall 0 a = true) :
    Levels (forRange (SkipList.bumpLevel p) lv (n - lv) (forRange (SkipList.linkLevel p x) 0 lv m)) n
      (F ++ x :: G) := by
  intro i hi A y B hs hy
  rw [bumpLevel_levelWise.forRange_tall, linkLevel_levelWise.forRange_tall] at hy ⊢
  obtain ⟨A₀, B₀, h₀, hr⟩ := hp i hi
  dsimp only at hr h₀
  have hxF : x ∉ F := fun h => List.disjoint_of_nodup_append hnd h (by simp)
  have hxt : ∀ b, m.tall i b = true → b = x → i < lv := by
    rintro b hb rfl
    simpa [hlv] using hb
  rw [linked_levels hp hl hxF hF hi h₀ hr y (hxt y hy)]
  rcases split_cases hs with ⟨rfl, rfl, rfl⟩ | ⟨C, rfl, rfl⟩ | ⟨C, rfl, rfl⟩
  · rw [if_pos rfl]
  · have hyx : y ≠ x := by
      rintro rfl
      simp [List.nodup_append] at hnd
    have hyu : y ≠ p.update i := ne_of_behind h₀ hnd (by simp)
    rw [if_neg hyx, if_neg hyu]
    exact hl i hi (F ++ C) y B (by simp) hy
  · have hyx : y ≠ x := by
      rintro rfl
      exact hxF (by simp)
    rw [if_neg hyx]
    rcases split_cases h₀.split with ⟨rfl, rfl, rfl⟩ | ⟨C', rfl, rfl⟩ | ⟨C', rfl, rfl⟩
    · rw [if_pos rfl, find?_append_short h₀.short, reach_append_short h₀.short]
      by_cases hi' : i < lv
      · have hx : m.tall i x = true := by simpa [hlv] using hi'
        simp [hi', hx, reach]
      · have hx : m.tall i x = false := by simpa [Heap.tall, hlv] using hi'
        simp [hi', hx, reach]
    · have hyu : y ≠ p.update i := by
        rintro hyu
        have hF' := hnd.of_append_left
        simp [hyu, List.nodup_append] at hF'
      rw [if_neg hyu]
      exact levels_before hl hi hy h₀.tall _
    · have hy' := h₀.short y (by simp)
      simp [hy] at hy'

omit hp in
lemma unlinked_levels (hl : Levels m n (F ++ x :: G)) (hnd : (F ++ x :: G).Nodup)
    {i : ℕ} (hi : i < n) {A B : List Addr} (h : LastTall (m.tall i) F A (p.update i) B) (b : Addr) :
    (forRange (SkipList.unlinkLevel p x) 0 n m b).levels i =
      if b = p.update i then ⟨G.find? (m.tall i), UInt64.ofNat (B.length + reach (m.tall i) G)⟩
      else (m b).levels i := by
  have hux : p.update i ≠ x := (ne_of_behind h hnd List.mem_cons_self).symm
  have hxG : x ∉ G := (List.nodup_cons.mp hnd.of_append_right).1
  have hu := hl i hi A (p.update i) (B ++ x :: G) (by simp [h.split]) h.tall
  rw [find?_append_short h.short, reach_append_short h.short] at hu
  rw [unlinkLevel_levelWise.forRange_levels (Nat.zero_le i) (by omega), unlinkLevel_levels hux]
  by_cases hb : b = p.update i
  · subst hb
    rw [if_pos rfl, if_pos rfl]
    simp only [Heap.getForward, Heap.getSpan, hu]
    by_cases hx : m.tall i x = true
    · have hxl := hl i hi F x G rfl hx
      simp only [hxl, List.find?_cons, hx, reach, if_true, UInt64.ofNat_add]
      congr 1
      rw [add_right_comm]
      exact add_sub_cancel_right _ _
    · have hx' : m.tall i x = false := Bool.eq_false_iff.mpr hx
      have hne : G.find? (m.tall i) ≠ some x := fun h => hxG (List.mem_of_find?_eq_some h)
      simp only [List.find?_cons, hx', reach, hne, if_false, Bool.false_eq_true, UInt64.ofNat_add]
      congr 1
      rw [← add_assoc]
      exact add_sub_cancel_right _ _
  · rw [if_neg hb, if_neg hb]

/-- Unlinking the node between `F` and `G`. -/
lemma levels_unlink (hl : Levels m n (F ++ x :: G)) (hnd : (F ++ x :: G).Nodup) :
    Levels (forRange (SkipList.unlinkLevel p x) 0 n m) n (F ++ G) := by
  intro i hi A y B hs hy
  rw [unlinkLevel_levelWise.forRange_tall] at hy ⊢
  obtain ⟨A₀, B₀, h₀, -⟩ := hp i hi
  dsimp only at h₀
  rw [unlinked_levels hl hnd hi h₀]
  rcases append_split_cases hs with ⟨C, rfl, rfl⟩ | ⟨C, rfl, rfl⟩
  · rcases split_cases h₀.split with ⟨rfl, rfl, rfl⟩ | ⟨C', rfl, rfl⟩ | ⟨C', rfl, rfl⟩
    · rw [if_pos rfl, find?_append_short h₀.short, reach_append_short h₀.short]
    · have hyu : y ≠ p.update i := by
        rintro hyu
        have hF' := hnd.of_append_left
        simp [hyu, List.nodup_append] at hF'
      rw [if_neg hyu]
      exact levels_before hl hi hy h₀.tall _
    · have hy' := h₀.short y (by simp)
      simp [hy] at hy'
  · have hyu : y ≠ p.update i := ne_of_behind h₀ hnd (by simp)
    rw [if_neg hyu]
    exact hl i hi (F ++ x :: C) y B (by simp) hy

end Relink

end TyphoonZero.Rank
