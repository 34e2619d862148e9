import TyphoonZero.LinkedChain
import TyphoonZero.SkipListLink

/-! The representation invariant of the skip list and its preservation by
insertion and deletion. -/
namespace TyphoonZero.Rank
open Tower Loop LinkedChain

def Backward (m : Heap) (L : List Addr) : Prop := Pred (fun a => (m a).backward) L

/-- `L` is the level-0 list that the skip list represents. -/
structure Rep (s : SkipList) (L : List Addr) : Prop where
  nodup : (s.header :: L).Nodup
  header_height : (s.nodes s.header).height = kSkipListMaxLevel
  level_pos : 1 ≤ s.level
  level_le : s.level ≤ kSkipListMaxLevel
  heights : ∀ a ∈ L, 1 ≤ (s.nodes a).height ∧ (s.nodes a).height ≤ s.level
  levels : Levels s.nodes s.level (s.header :: L)
  above : ∀ i, s.level ≤ i → s.nodes.getForward s.header i = none
  backward : Backward s.nodes L
  tail : s.tail = L.getLast?
  sorted : L.Pairwise fun a b => s.compUaks (s.nodes a).uaks (s.nodes b).uaks = true
  length : s.length = UInt64.ofNat L.length
  umap : ∀ uid a, s.uidUmap.lookup uid = some a ↔ a ∈ L ∧ (s.nodes a).getUid = uid

/-- The part of the invariant that does not depend on the keys. -/
structure Shape (s : SkipList) (L : List Addr) : Prop where
  nodup : (s.header :: L).Nodup
  header_height : (s.nodes s.header).height = kSkipListMaxLevel
  level_pos : 1 ≤ s.level
  level_le : s.level ≤ kSkipListMaxLevel
  heights : ∀ a ∈ L, 1 ≤ (s.nodes a).height ∧ (s.nodes a).height ≤ s.level
  levels : Levels s.nodes s.level (s.header :: L)
  above : ∀ i, s.level ≤ i → s.nodes.getForward s.header i = none
  backward : Backward s.nodes L
  tail : s.tail = L.getLast?
  length : s.length = UInt64.ofNat L.length

lemma Rep.shape {s : SkipList} {L : List Addr} (h : Rep s L) : Shape s L :=
  ⟨h.nodup, h.header_height, h.level_pos, h.level_le, h.heights, h.levels, h.above, h.backward, h.tail,
    h.length⟩

lemma Shape.rep {s : SkipList} {L : List Addr} (h : Shape s L)
    (sorted : L.Pairwise fun a b => s.compUaks (s.nodes a).uaks (s.nodes b).uaks = true)
    (umap : ∀ uid a, s.uidUmap.lookup uid = some a ↔ a ∈ L ∧ (s.nodes a).getUid = uid) : Rep s L :=
  ⟨h.nodup, h.header_height, h.level_pos, h.level_le, h.heights, h.levels, h.above, h.backward, h.tail,
    sorted, h.length, umap⟩

section SetSuccBackward
variable {s : SkipList} {m : Heap} {x : Addr} {b : Option Addr}

lemma setSuccBackward_fields : (s.setSuccBackward m x b).type = s.type ∧
    (s.setSuccBackward m x b).uaksSize = s.uaksSize ∧
    (s.setSuccBackward m x b).header = s.header ∧ (s.setSuccBackward m x b).level = s.level ∧
    (s.setSuccBackward m x b).length = s.length ∧
    (s.setSuccBackward m x b).uidUmap = s.uidUmap := by
  unfold SkipList.setSuccBackward
  split <;> simp

lemma setSuccBackward_nodes (a : Addr) :
    ((s.setSuccBackward m x b).nodes a).levels = (m a).levels ∧
    ((s.setSuccBackward m x b).nodes a).uaks = (m a).uaks ∧
    ((s.setSuccBackward m x b).nodes a).height = (m a).height ∧
    ((s.setSuccBackward m x b).nodes a).backward =
      if m.getForward x 0 = some a then b else (m a).backward := by
  unfold SkipList.setSuccBackward
  split
  next y hy =>
    refine ⟨by simp, by simp, by simp, ?_⟩
    by_cases ha : a = y
    · simp [ha, hy, setBackward_apply]
    · simp [hy, setBackward_apply, ha, Ne.symm ha]
  next hn => simp [hn]

lemma setSuccBackward_tail : (s.setSuccBackward m x b).tail =
    if m.getForward x 0 = none then b else s.tail := by
  unfold SkipList.setSuccBackward
  split
  next y hy => simp [hy]
  next hn => simp [hn]

end SetSuccBackward

/-- What every operation leaves alone. -/
structure SameKind (s t : SkipList) : Prop where
  type : t.type = s.type
  uaksSize : t.uaksSize = s.uaksSize
  header : t.header = s.header

lemma SameKind.compUaks {s t : SkipList} (h : SameKind s t) : t.compUaks = s.compUaks := by
  funext a b
  simp only [SkipList.compUaks, h.type, h.uaksSize]

lemma SameKind.trans {s t u : SkipList} (h : SameKind s t) (h' : SameKind t u) : SameKind s u :=
  ⟨h'.type.trans h.type, h'.uaksSize.trans h.uaksSize, h'.header.trans h.header⟩

section Raise
variable {s : SkipList} {F G : List Addr} {p : Path} {lv : ℕ}

lemma raise_path (h : Addr) (lo n i : ℕ) :
    let q : Path := forRange (fun i q => ⟨Function.update q.update i h, Function.update q.rank i 0⟩) lo n p
    q.update i = (if lo ≤ i ∧ i < lo + n then h else p.update i) ∧
      q.rank i = if lo ≤ i ∧ i < lo + n then 0 else p.rank i := by
  refine forRange_invariant
    (fun k (q : Path) => q.update i = (if lo ≤ i ∧ i < k then h else p.update i) ∧
      q.rank i = if lo ≤ i ∧ i < k then 0 else p.rank i) ?_ ?_
  · have hn : ¬(lo ≤ i ∧ i < lo) := by omega
    simp [hn]
  · rintro k q hl - ⟨hu, hr⟩
    by_cases hk : i = k
    · subst hk
      simp [hl]
    · have hiff : (lo ≤ i ∧ i < k + 1) ↔ (lo ≤ i ∧ i < k) := by omega
      simp only [Function.update_of_ne hk, hu, hr, hiff, and_self]

lemma raise_spec (h : Shape s (F ++ G))
    (hp : ∀ i < s.level, AtLast s.nodes (s.header :: F) i (p.update i, p.rank i))
    (hlv : lv ≤ kSkipListMaxLevel) :
    Shape (s.raise lv p).1 (F ++ G) ∧ SameKind s (s.raise lv p).1 ∧ lv ≤ (s.raise lv p).1.level ∧
      (∀ a, ((s.raise lv p).1.nodes a).uaks = (s.nodes a).uaks) ∧
      (s.raise lv p).1.uidUmap = s.uidUmap ∧
      ∀ i < (s.raise lv p).1.level, AtLast (s.raise lv p).1.nodes (s.header :: F) i
        ((s.raise lv p).2.update i, (s.raise lv p).2.rank i) := by
  by_cases hlt : s.level < lv
  swap
  · rw [SkipList.raise, if_neg hlt]
    exact ⟨h, ⟨rfl, rfl, rfl⟩, Nat.le_of_not_lt hlt, fun _ => rfl, rfl, hp⟩
  rw [SkipList.raise, if_pos hlt]
  dsimp only
  set m := forRange (fun i m => Heap.setSpan m s.header i s.length) s.level (lv - s.level) s.nodes with hm
  have hw : LevelWise fun i m => Heap.setSpan m s.header i s.length := setSpan_levelWise
  have htall : m.tall = s.nodes.tall := hw.forRange_tall
  have huaks : ∀ a, (m a).uaks = (s.nodes a).uaks := fun a => hw.forRange_uaks
  have hheight : ∀ a, (m a).height = (s.nodes a).height := fun a => hw.forRange_height
  have hlow : ∀ a i, i < s.level → (m a).levels i = (s.nodes a).levels i :=
    fun a i hi => hw.forRange_other (.inl hi)
  have hfwd : ∀ i, s.level ≤ i → m.getForward s.header i = none := by
    intro i hi
    have ha := h.above i hi
    rw [Heap.getForward] at ha ⊢
    by_cases hi' : i < lv
    · rw [hm, hw.forRange_levels hi (by omega)]
      simp [Heap.setSpan, setLevel_levels, ha]
    · rw [hm, hw.forRange_other (.inr (by omega)), ha]
  have hshort : ∀ i, s.level ≤ i → ∀ a ∈ F ++ G, s.nodes.tall i a = false := by
    intro i hi a ha
    have hh := (h.heights a ha).2
    simp only [Heap.tall, decide_eq_false_iff_not]
    omega
  refine ⟨⟨h.nodup, ?_, by have := h.level_pos; dsimp only; omega, hlv, ?_, ?_, ?_, ?_, h.tail, h.length⟩,
    ⟨rfl, rfl, rfl⟩, le_rfl, huaks, rfl, ?_⟩
  · simpa only [hheight] using h.header_height
  · intro a ha
    have hh := h.heights a ha
    simp only [hheight]
    omega
  · intro i hi A x B hs hx
    rw [htall] at hx ⊢
    by_cases hi' : i < s.level
    · rw [hlow x i hi']
      exact h.levels i hi' A x B hs hx
    · have hge : s.level ≤ i := by omega
      cases A with
      | nil =>
        simp only [List.nil_append, List.cons.injEq] at hs
        obtain ⟨rfl, rfl⟩ := hs
        have hf := hfwd i hge
        rw [Heap.getForward] at hf
        rw [List.find?_eq_none.mpr fun a ha => Bool.eq_false_iff.mp (hshort i hge a ha),
          reach_eq_length (hshort i hge), ← h.length, ← hf, hm,
          hw.forRange_levels hge (by dsimp only at hi; omega)]
        simp [Heap.setSpan, setLevel_levels]
      | cons a A =>
        simp only [List.cons_append, List.cons.injEq] at hs
        have hx' := hshort i hge x (by simp [hs.2])
        simp [hx'] at hx
  · intro i hi
    exact hfwd i (by dsimp only at hi; omega)
  · exact Pred.congr h.backward fun a _ => hw.forRange_backward
  · intro i hi
    obtain ⟨hu, hr⟩ := raise_path (p := p) s.header s.level (lv - s.level) i
    rw [hu, hr]
    by_cases hi' : i < s.level
    · have hn : ¬(s.level ≤ i ∧ i < s.level + (lv - s.level)) := by omega
      obtain ⟨A, B, hl, hA⟩ := hp i hi'
      simp only [if_neg hn]
      exact ⟨A, B, by rw [htall]; exact hl, hA⟩
    · have hc : s.level ≤ i ∧ i < s.level + (lv - s.level) := by omega
      simp only [if_pos hc]
      refine ⟨[], F, ⟨rfl, ?_, fun b hb => ?_⟩, rfl⟩
      · rw [tall_eq_true, hheight, h.header_height]
        omega
      · rw [htall]
        exact hshort i hc.1 b (by simp [hb])

end Raise

lemma levels_congr {m m' : Heap} {n : ℕ} {F : List Addr} (hm : ∀ a ∈ F, m' a = m a)
    (h : Levels m n F) : Levels m' n F := by
  intro i hi A x B hs hx
  have htall : ∀ a ∈ F, m'.tall i a = m.tall i a := by
    intro a ha
    simp only [Heap.tall, hm a ha]
  have hB : ∀ b ∈ B, m'.tall i b = m.tall i b := fun b hb => htall b (by simp [hs, hb])
  rw [htall x (by simp [hs])] at hx
  rw [hm x (by simp [hs]), List.find?_congr hB, reach_congr hB]
  exact h i hi A x B hs hx

lemma levels_of_eq {m m' : Heap} {n : ℕ} {F : List Addr}
    (hl : ∀ a, (m' a).levels = (m a).levels) (hh : ∀ a, (m' a).height = (m a).height)
    (h : Levels m n F) : Levels m' n F := by
  have htall : m'.tall = m.tall := by
    funext i a
    simp only [Heap.tall, hh]
  intro i hi A x B hs hx
  rw [htall] at hx ⊢
  rw [hl]
  exact h i hi A x B hs hx

section LinkNode
variable {s : SkipList} {F G : List Addr} {p : Path} {lv : ℕ} {x : Addr} {uaks : Uaks}

lemma linkNode_uaks (a : Addr) :
    (s.linkNode lv x uaks p a).uaks = if a = x then uaks else (s.nodes a).uaks := by
  rw [SkipList.linkNode, bumpLevel_levelWise.forRange_uaks, linkLevel_levelWise.forRange_uaks]
  by_cases ha : a = x <;> simp [Function.update, ha]

lemma linkNode_height (a : Addr) :
    (s.linkNode lv x uaks p a).height = if a = x then lv else (s.nodes a).height := by
  rw [SkipList.linkNode, bumpLevel_levelWise.forRange_height, linkLevel_levelWise.forRange_height]
  by_cases ha : a = x <;> simp [Function.update, ha]

lemma linkNode_backward (a : Addr) (ha : a ≠ x) :
    (s.linkNode lv x uaks p a).backward = (s.nodes a).backward := by
  rw [SkipList.linkNode, bumpLevel_levelWise.forRange_backward,
    linkLevel_levelWise.forRange_backward]
  simp [Function.update, ha]

lemma linkNode_above (hlv : lv ≤ s.level) {a : Addr} (ha : a ≠ x) {i : ℕ} (hi : s.level ≤ i) :
    (s.linkNode lv x uaks p a).levels i = (s.nodes a).levels i := by
  rw [SkipList.linkNode, bumpLevel_levelWise.forRange_other (.inr (by omega)),
    linkLevel_levelWise.forRange_other (.inr (by omega))]
  simp [Function.update, ha]

lemma linkNode_levels (h : Shape s (F ++ G)) (hx : x ∉ s.header :: (F ++ G))
    (hp : ∀ i < s.level, AtLast s.nodes (s.header :: F) i (p.update i, p.rank i)) :
    Levels (s.linkNode lv x uaks p) s.level (s.header :: (F ++ x :: G)) := by
  set m : Heap := Function.update s.nodes x { height := lv, uaks := uaks } with hm
  have hsame : ∀ a ∈ s.header :: (F ++ G), m a = s.nodes a := by
    intro a ha
    have hax : a ≠ x := fun he => hx (he ▸ ha)
    simp [hm, hax]
  have hF : ∀ a ∈ s.header :: F, a ∈ s.header :: (F ++ G) := by
    intro a ha
    simp only [List.mem_cons, List.mem_append] at ha ⊢
    tauto
  have hp' : ∀ i < s.level, AtLast m (s.header :: F) i (p.update i, p.rank i) := by
    intro i hi
    obtain ⟨A, B, hl, hr⟩ := hp i hi
    have hmem : ∀ a ∈ A ++ p.update i :: B, m.tall i a = s.nodes.tall i a := by
      intro a ha
      simp only [Heap.tall, hsame a (hF a (hl.split ▸ ha))]
    refine ⟨A, B, ⟨hl.split, ?_, fun b hb => ?_⟩, hr⟩
    · rw [hmem _ (by simp)]
      exact hl.tall
    · rw [hmem b (by simp [hb])]
      exact hl.short b hb
  have htall : ∀ a ∈ s.header :: F, m.tall 0 a = true := by
    intro a ha
    rw [tall_eq_true, hsame a (hF a ha)]
    rcases List.mem_cons.mp ha with rfl | ha
    · rw [h.header_height]
      decide
    · exact (h.heights a (by simp [ha])).1
  have hnd : (s.header :: F ++ x :: G).Nodup := by
    have hperm : (s.header :: F ++ x :: G).Perm (x :: (s.header :: (F ++ G))) := List.perm_middle
    exact hperm.nodup_iff.mpr (List.nodup_cons.mpr ⟨hx, h.nodup⟩)
  exact levels_link hp' (levels_congr hsame h.levels) hnd (by simp [hm]) htall

lemma pairwise_insert {R : Addr → Addr → Prop} (h : (F ++ G).Pairwise R) (hF : ∀ a ∈ F, R a x)
    (hG : ∀ b ∈ G, R x b) : (F ++ x :: G).Pairwise R := by
  obtain ⟨hsF, hsG, hFG⟩ := List.pairwise_append.mp h
  apply List.pairwise_append.mpr ⟨hsF, List.pairwise_cons.mpr ⟨hG, hsG⟩, _⟩
  intro a ha b hb
  rcases List.mem_cons.mp hb with rfl | hb
  · exact hF a ha
  · exact hFG a ha b hb

/-- What the table of the uids finds after a new node was entered. -/
lemma lookup_insert_iff {umap : AList fun _ : UInt64 => Addr} {L : List Addr} {f g : Addr → UInt64}
    (h : ∀ uid a, umap.lookup uid = some a ↔ a ∈ L ∧ f a = uid) (hg : ∀ a ∈ L, g a = f a)
    (hx : ∀ a ∈ L, f a ≠ g x) (uid : UInt64) (a : Addr) :
    (umap.insert (g x) x).lookup uid = some a ↔ (a = x ∨ a ∈ L) ∧ g a = uid := by
  by_cases hu : uid = g x
  · rw [hu, AList.lookup_insert]
    constructor
    · intro hxa
      obtain rfl : x = a := Option.some.inj hxa
      exact ⟨.inl rfl, rfl⟩
    · rintro ⟨rfl | ha, hau⟩
      · rfl
      · exact absurd ((hg a ha).symm.trans hau) (hx a ha)
  · rw [AList.lookup_insert_ne hu, h]
    constructor
    · rintro ⟨ha, hau⟩
      exact ⟨.inr ha, (hg a ha).trans hau⟩
    · rintro ⟨rfl | ha, hau⟩
      · exact absurd hau.symm hu
      · exact ⟨ha, (hg a ha).symm.trans hau⟩

/-- The last node of level 0 before the place is the last one before it. -/
lemma Shape.backward_of_atLast (h : Shape s (F ++ G))
    (hp : AtLast s.nodes (s.header :: F) 0 (p.update 0, p.rank 0)) :
    (if p.update 0 = s.header then none else some (p.update 0)) = F.getLast? := by
  obtain ⟨A, B, hl, -⟩ := hp
  have hB : B = [] := by
    refine List.eq_nil_iff_forall_not_mem.mpr fun b hb => ?_
    have hbs := hl.short b hb
    have hbF : b ∈ s.header :: F := by simp [hl.split, hb]
    simp only [Heap.tall, decide_eq_false_iff_not] at hbs
    rcases List.mem_cons.mp hbF with rfl | hbF
    · rw [h.header_height] at hbs
      exact hbs (by decide)
    · have := (h.heights b (by simp [hbF])).1
      omega
  have hlast : (s.header :: F).getLast? = some (p.update 0) := by
    rw [hl.split, hB, List.getLast?_append]
    simp
  cases F using List.reverseRecOn with
  | nil => simp_all
  | append_singleton F f =>
    have hf : f = p.update 0 := by
      simpa [List.getLast?_cons, List.getLast?_append] using hlast
    have hfh : f ≠ s.header := by
      rintro rfl
      have hn := h.nodup
      simp at hn
    rw [← hf, if_neg hfh]
    simp

/-- Linking after the levels have been raised. -/
lemma insertRaised_shape (h : Shape s (F ++ G)) (hx : x ∉ s.header :: (F ++ G)) (hlv : 1 ≤ lv)
    (hle : lv ≤ s.level)
    (hp : ∀ i < s.level, AtLast s.nodes (s.header :: F) i (p.update i, p.rank i)) {t : SkipList}
    (ht : t = s.setSuccBackward ((s.linkNode lv x uaks p).setBackward x
      (if p.update 0 = s.header then none else some (p.update 0))) x (some x)) :
    Shape { t with length := t.length + 1, uidUmap := t.uidUmap.insert (t.nodes x).getUid x }
        (F ++ x :: G) ∧ SameKind s t ∧ t.uidUmap = s.uidUmap ∧
      ∀ a, (t.nodes a).uaks = if a = x then uaks else (s.nodes a).uaks := by
  set m := (s.linkNode lv x uaks p).setBackward x
    (if p.update 0 = s.header then none else some (p.update 0)) with hm
  obtain ⟨htype, hsize, hheader, hlevel, hlength, humap⟩ :=
    setSuccBackward_fields (s := s) (m := m) (x := x) (b := some x)
  rw [← ht] at htype hsize hheader hlevel hlength humap
  have hnodes := fun a => @setSuccBackward_nodes s m x (some x) a
  rw [← ht] at hnodes
  have htail := @setSuccBackward_tail s m x (some x)
  rw [← ht] at htail
  have hlevels : ∀ a, (t.nodes a).levels = (s.linkNode lv x uaks p a).levels := fun a => by
    rw [(hnodes a).1, hm, setBackward_levels]
  have huaks : ∀ a, (t.nodes a).uaks = if a = x then uaks else (s.nodes a).uaks := fun a => by
    rw [(hnodes a).2.1, hm, setBackward_uaks, linkNode_uaks]
  have hheight : ∀ a, (t.nodes a).height = (s.linkNode lv x uaks p a).height := fun a => by
    rw [(hnodes a).2.2.1, hm, setBackward_height]
  have hhx : ∀ a, (t.nodes a).height = if a = x then lv else (s.nodes a).height := fun a => by
    rw [hheight, linkNode_height]
  have hnd : (s.header :: (F ++ x :: G)).Nodup := by
    have hperm : (s.header :: F ++ x :: G).Perm (x :: (s.header :: (F ++ G))) := List.perm_middle
    exact hperm.nodup_iff.mpr (List.nodup_cons.mpr ⟨hx, h.nodup⟩)
  have hne : ∀ a ∈ F ++ G, a ≠ x := fun a ha he => hx (by simp [← he, ha])
  have hhne : s.header ≠ x := fun he => hx (by simp [he])
  have hlev : Levels t.nodes s.level (s.header :: (F ++ x :: G)) :=
    levels_of_eq hlevels hheight (linkNode_levels h hx hp)
  have hGtall : ∀ a ∈ G, t.nodes.tall 0 a = true := by
    intro a ha
    rw [tall_eq_true, hhx, if_neg (hne a (by simp [ha]))]
    exact (h.heights a (by simp [ha])).1
  have hfwd : m.getForward x 0 = G.head? := by
    have hx0 := hlev 0 (by omega) (s.header :: F) x G rfl (by rw [tall_eq_true, hhx, if_pos rfl]; omega)
    rw [Heap.getForward, ← (hnodes x).1, hx0]
    exact find?_eq_head? hGtall
  have hbx : (m x).backward = F.getLast? := by
    simp only [hm, setBackward_apply, if_true]
    exact h.backward_of_atLast (hp 0 h.level_pos)
  refine ⟨⟨?_, ?_, ?_, ?_, ?_, ?_, ?_, ?_, ?_, ?_⟩, ⟨htype, hsize, hheader⟩, humap, huaks⟩
  · simpa only [hheader] using hnd
  · simp only [hheader, hhx, if_neg hhne, h.header_height]
  · simpa only [hlevel] using h.level_pos
  · simpa only [hlevel] using h.level_le
  · intro a ha
    simp only [hlevel, hhx]
    split_ifs with hax
    · exact ⟨hlv, hle⟩
    · refine h.heights a ?_
      simp only [List.mem_append, List.mem_cons, hax, false_or] at ha ⊢
      exact ha
  · simpa only [hlevel, hheader] using hlev
  · intro i hi
    simp only [hlevel] at hi
    simp only [Heap.getForward, hheader, hlevels, linkNode_above hle hhne hi]
    exact h.above i hi
  · refine Pred.insert h.backward hnd.of_cons ?_ ?_ ?_
    · dsimp only
      rw [(hnodes x).2.2.2, hfwd, if_neg, hbx]
      intro hh
      exact hne x (by simp [List.mem_of_mem_head? hh]) rfl
    · intro y hy
      dsimp only
      rw [(hnodes y).2.2.2, hfwd, if_pos hy]
    · intro b hb hG
      have hbx' := hne b hb
      dsimp only
      rw [(hnodes b).2.2.2, hfwd, if_neg hG, hm, setBackward_apply, if_neg hbx',
        linkNode_backward b hbx']
  · dsimp only
    rw [htail, hfwd, h.tail]
    cases G with
    | nil => simp
    | cons g G => simp [List.getLast?_append, List.getLast?_cons]
  · simp only [hlength, h.length, List.length_append, List.length_cons, UInt64.ofNat_add, add_assoc]
    rfl

/-- Insertion behind the nodes `F`. -/
lemma insertAt_shape (h : Shape s (F ++ G)) (hx : x ∉ s.header :: (F ++ G)) (hlv : 1 ≤ lv)
    (hlv' : lv ≤ kSkipListMaxLevel)
    (hp : ∀ i < s.level, AtLast s.nodes (s.header :: F) i (p.update i, p.rank i)) :
    Shape (s.insertAt lv x uaks p) (F ++ x :: G) ∧ SameKind s (s.insertAt lv x uaks p) ∧
      (s.insertAt lv x uaks p).uidUmap = s.uidUmap.insert uaks.uid x ∧
      ∀ a, ((s.insertAt lv x uaks p).nodes a).uaks = if a = x then uaks else (s.nodes a).uaks := by
  obtain ⟨hr, hk, hle, hu, hmap, hp'⟩ := raise_spec h hp hlv'
  set r := s.raise lv p with hrdef
  obtain ⟨hshape, hk', hmap', hu'⟩ := @insertRaised_shape r.1 F G r.2 lv x uaks hr (by rwa [hk.header])
    hlv hle (by simpa only [hk.header] using hp') _ rfl
  have huaks : ∀ a, ((s.insertAt lv x uaks p).nodes a).uaks = if a = x then uaks else (s.nodes a).uaks :=
    fun a => (hu' a).trans (by rw [hu])
  refine ⟨hshape, hk.trans ⟨hk'.type, hk'.uaksSize, hk'.header⟩, ?_, huaks⟩
  have huid : ((s.insertAt lv x uaks p).nodes x).getUid = uaks.uid := by
    rw [SkipListNode.getUid, huaks, if_pos rfl]
    rfl
  rw [← huid, ← hmap, ← hmap']
  rfl

/-- The nodes that are there keep their data when `x` is entered. -/
lemma uaks_entered {t : SkipList} (hx : x ∉ s.header :: (F ++ G))
    (hins : ∀ a, (t.nodes a).uaks = if a = x then uaks else (s.nodes a).uaks) :
    (∀ a ∈ F ++ G, (t.nodes a).uaks = (s.nodes a).uaks) ∧ (t.nodes x).uaks = uaks := by
  refine ⟨fun a ha => ?_, by rw [hins, if_pos rfl]⟩
  have hax : a ≠ x := by
    rintro rfl
    exact hx (List.mem_cons_of_mem _ ha)
  rw [hins, if_neg hax]

/-- A node whose data fit between those of `F` and `G` keeps an order of the data. -/
lemma pairwise_entered {t : SkipList} {R : Uaks → Uaks → Prop}
    (h : (F ++ G).Pairwise fun a b => R (s.nodes a).uaks (s.nodes b).uaks)
    (hold : ∀ a ∈ F ++ G, (t.nodes a).uaks = (s.nodes a).uaks) (hnew : (t.nodes x).uaks = uaks)
    (hF : ∀ a ∈ F, R (s.nodes a).uaks uaks) (hG : ∀ b ∈ G, R uaks (s.nodes b).uaks) :
    (F ++ x :: G).Pairwise fun a b => R (t.nodes a).uaks (t.nodes b).uaks := by
  refine pairwise_insert (h.imp_of_mem fun {a b} ha hb hab => ?_) (fun a ha => ?_) fun b hb => ?_
  · rwa [hold a ha, hold b hb]
  · rw [hold a (List.mem_append_left _ ha), hnew]
    exact hF a ha
  · rw [hold b (List.mem_append_right _ hb), hnew]
    exact hG b hb

end LinkNode

section Delete
variable {s t : SkipList} {F G : List Addr} {p : Path} {x : Addr} {fuel : ℕ}

/-- What the table of the uids finds after a node was taken out. -/
lemma lookup_erase_iff {umap : AList fun _ : UInt64 => Addr} {L L' : List Addr} {f : Addr → UInt64}
    (h : ∀ uid a, umap.lookup uid = some a ↔ a ∈ L ∧ f a = uid) (hx : x ∈ L)
    (hmem : ∀ a, a ∈ L' ↔ a ∈ L ∧ a ≠ x) (uid : UInt64) (a : Addr) :
    (umap.erase (f x)).lookup uid = some a ↔ a ∈ L' ∧ f a = uid := by
  by_cases hu : uid = f x
  · rw [hu, AList.lookup_erase]
    constructor
    · intro hnone
      cases hnone
    · rintro ⟨ha, hua⟩
      obtain ⟨hold, hne⟩ := (hmem a).mp ha
      have hla := (h (f x) a).mpr ⟨hold, hua⟩
      rw [(h (f x) x).mpr ⟨hx, rfl⟩] at hla
      exact absurd (Option.some.inj hla).symm hne
  · rw [AList.lookup_erase_ne hu, h, hmem]
    constructor
    · rintro ⟨ha, hua⟩
      refine ⟨⟨ha, ?_⟩, hua⟩
      rintro rfl
      exact hu hua.symm
    · rintro ⟨⟨ha, -⟩, hua⟩
      exact ⟨ha, hua⟩

/-- The state of `Delete` before it drops empty levels, at the level `lv` it ends with. -/
lemma unlinked_shape (h : Shape s (F ++ x :: G))
    (hp : ∀ i < s.level, AtLast s.nodes (s.header :: F) i (p.update i, p.rank i))
    (ht : t = s.setSuccBackward (forRange (SkipList.unlinkLevel p x) 0 s.level s.nodes) x
      (forRange (SkipList.unlinkLevel p x) 0 s.level s.nodes x).backward)
    {lv : ℕ} (hlv : 1 ≤ lv) (hle : lv ≤ s.level)
    (hab : ∀ i, lv ≤ i → t.nodes.getForward s.header i = none) :
    Shape { t with
          level := lv
          length := t.length - 1
          uidUmap := t.uidUmap.erase (t.nodes x).getUid } (F ++ G) := by
  set m := forRange (SkipList.unlinkLevel p x) 0 s.level s.nodes with hm
  obtain ⟨htype, hsize, hheader, hlevel, hlength, humap⟩ :=
    @setSuccBackward_fields s m x (m x).backward
  rw [← ht] at htype hsize hheader hlevel hlength humap
  have hnodes := fun a => @setSuccBackward_nodes s m x (m x).backward a
  rw [← ht] at hnodes
  have htail := @setSuccBackward_tail s m x (m x).backward
  rw [← ht] at htail
  have hw : LevelWise (SkipList.unlinkLevel p x) := unlinkLevel_levelWise
  have huaks : ∀ a, (t.nodes a).uaks = (s.nodes a).uaks := fun a => by
    rw [(hnodes a).2.1, hm, hw.forRange_uaks]
  have hheight : ∀ a, (t.nodes a).height = (s.nodes a).height := fun a => by
    rw [(hnodes a).2.2.1, hm, hw.forRange_height]
  have hnd : (s.header :: F ++ x :: G).Nodup := h.nodup
  have hperm : (F ++ x :: G).Perm (x :: (F ++ G)) := List.perm_middle
  have hsub : ∀ a ∈ F ++ G, a ∈ F ++ x :: G ∧ a ≠ x := by
    intro a ha
    refine ⟨hperm.mem_iff.mpr (by simp [ha]), ?_⟩
    rintro rfl
    exact (List.nodup_cons.mp (hperm.nodup_iff.mp h.nodup.of_cons)).1 ha
  have hlev : Levels t.nodes s.level (s.header :: (F ++ G)) :=
    levels_of_eq (fun a => (hnodes a).1) (fun a => (hnodes a).2.2.1) (levels_unlink hp h.levels hnd)
  have hfwd : m.getForward x 0 = G.head? := by
    obtain ⟨A, B, hl, -⟩ := hp 0 (by have := h.level_pos; omega)
    have hxA : x ≠ p.update 0 := by
      rintro hx
      exact List.disjoint_of_nodup_append hnd (a := x) (by simp [hl.split, hx]) (by simp)
    have htall : ∀ a ∈ x :: G, s.nodes.tall 0 a = true := by
      intro a ha
      exact tall_eq_true.mpr (h.heights a (List.mem_append_right F ha)).1
    have hx0 := h.levels 0 (by omega) (s.header :: F) x G rfl (htall x (by simp))
    rw [Heap.getForward, hm, unlinked_levels h.levels hnd (by omega) hl, if_neg hxA, hx0]
    exact find?_eq_head? fun a ha => htall a (by simp [ha])
  have hback : ∀ a, (m a).backward = (s.nodes a).backward := fun a => hw.forRange_backward
  refine ⟨?_, ?_, hlv, hle.trans h.level_le, ?_, ?_, ?_, ?_, ?_, ?_⟩
  · have hn : (s.header :: (F ++ G)).Nodup := hnd.sublist (by simp)
    simpa only [hheader] using hn
  · simp only [hheader, hheight, h.header_height]
  · intro a ha
    have hh := h.heights a (hsub a ha).1
    simp only [hheight]
    refine ⟨hh.1, ?_⟩
    by_contra hn
    have hlt : lv < s.level := by omega
    have hf := hab lv le_rfl
    rw [Heap.getForward, hlev lv hlt [] s.header (F ++ G) rfl
      (by rw [tall_eq_true, hheight, h.header_height]; have := h.level_le; omega)] at hf
    have hs := List.find?_eq_none.mp hf a ha
    rw [tall_eq_true, hheight] at hs
    omega
  · intro i hi
    simpa only [hheader] using hlev i (by dsimp only at hi; omega)
  · simpa only [hheader] using hab
  · refine Pred.delete h.backward hnd.of_cons ?_ ?_
    · intro y hy
      dsimp only
      rw [(hnodes y).2.2.2, hfwd, if_pos hy, hback]
      exact h.backward F x G rfl
    · intro b _ hG
      dsimp only
      rw [(hnodes b).2.2.2, hfwd, if_neg hG, hback]
  · dsimp only
    rw [htail, hfwd, h.tail]
    cases G with
    | nil => simp [hback, h.backward F x [] rfl]
    | cons g G => simp [List.getLast?_append, List.getLast?_cons]
  · simp only [hlength, h.length, List.length_append, List.length_cons, UInt64.ofNat_add, ← add_assoc]
    exact add_sub_cancel_right _ _

lemma deleteAt_spec (h : Shape s (F ++ x :: G))
    (hp : ∀ i < s.level, AtLast s.nodes (s.header :: F) i (p.update i, p.rank i)) :
    Fuelled (kSkipListMaxLevel < fuel) (s.deleteAt fuel x p) fun t =>
      Shape t (F ++ G) ∧ SameKind s t ∧ t.uidUmap = s.uidUmap.erase (s.nodes x).getUid ∧
        ∀ a, (t.nodes a).uaks = (s.nodes a).uaks := by
  unfold SkipList.deleteAt
  dsimp only
  set m := forRange (SkipList.unlinkLevel p x) 0 s.level s.nodes with hm
  set t := s.setSuccBackward m x (m x).backward with ht
  obtain ⟨htype, hsize, hheader, hlevel, -, humap⟩ := @setSuccBackward_fields s m x (m x).backward
  rw [← ht] at htype hsize hheader hlevel humap
  have hnodes := fun a => @setSuccBackward_nodes s m x (m x).backward a
  rw [← ht] at hnodes
  let I : ℕ → ℕ → Prop := fun k lv =>
    k = lv ∧ 1 ≤ lv ∧ lv ≤ s.level ∧ ∀ i, lv ≤ i → t.nodes.getForward s.header i = none
  have hI : ∀ k a b, I k a → t.shrinkStep a = some b → ∃ k' < k, I k' b := by
    rintro k a b ⟨rfl, h1, h2, h3⟩ hs
    simp only [SkipList.shrinkStep, Option.ite_none_right_eq_some, Option.some.injEq] at hs
    obtain ⟨⟨hk, hn⟩, rfl⟩ := hs
    refine ⟨k - 1, by omega, rfl, by omega, by omega, fun i hi => ?_⟩
    rcases Nat.lt_or_ge i k with hlt | hge
    · rw [show i = k - 1 by omega, ← hheader]
      exact hn
    · exact h3 i hge
  have h0 : I s.level s.level := by
    refine ⟨rfl, h.level_pos, le_rfl, fun i hi => ?_⟩
    have hi0 := h.above i hi
    rw [Heap.getForward] at hi0 ⊢
    rw [(hnodes _).1, hm, unlinkLevel_levelWise.forRange_other (.inr (by omega)), hi0]
  rw [hlevel]
  refine ((whileSome_fuelled I hI h0).enough fun hf => lt_of_le_of_lt h.level_le hf).map ?_
  rintro lv ⟨⟨_, -, h1, h2, h3⟩, -⟩
  have huaks : ∀ a, (t.nodes a).uaks = (s.nodes a).uaks := fun a => by
    rw [(hnodes a).2.1, hm, unlinkLevel_levelWise.forRange_uaks]
  refine ⟨unlinked_shape h hp ht h1 h2 h3, ⟨htype, hsize, hheader⟩, ?_, huaks⟩
  dsimp only
  rw [humap, SkipListNode.getUid, huaks]
  rfl

end Delete

end TyphoonZero.Rank
