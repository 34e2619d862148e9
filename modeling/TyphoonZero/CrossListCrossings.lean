import TyphoonZero.CrossListPasses

/-! In a sorted list an update passes every node strictly between its old and its new
coordinate once, and none strictly outside. -/
namespace TyphoonZero.CrossList
open Loop LinkedChain

variable {P α : Type} [DecidableEq P] [LinearOrder α]

section Lists
variable {flags : FlagView P} {pos : P → α} {n c : P} {x : α} {F G L cs M : List P}

omit [DecidableEq P] in
lemma mem_takeWhile {p : P → Bool} {A B : List P} (hA : ∀ a ∈ A, p a = true) (hc : p c = true) :
    c ∈ (A ++ c :: B).takeWhile p := by
  rw [List.takeWhile_append_of_pos hA, List.takeWhile_cons_of_pos hc]
  exact List.mem_append_right A List.mem_cons_self

omit [DecidableEq P] in
lemma of_mem_takeWhile {p : P → Bool} (h : c ∈ L.takeWhile p) : c ∈ L ∧ p c = true :=
  ⟨(List.takeWhile_sublist p).subset h, List.mem_takeWhile_imp h⟩

/-- The other nodes keep their order. -/
lemma Swaps.filter (h : Swaps n L cs M) : M.filter (· ≠ n) = L.filter (· ≠ n) := by
  induction h with
  | nil L => rfl
  | before h ih =>
    rw [ih]
    simp [List.filter_cons]
  | after h ih =>
    rw [ih]
    simp [List.filter_cons]

omit [DecidableEq P] in
lemma Swaps.perm (h : Swaps n L cs M) : M.Perm L := by
  induction h with
  | nil L => exact .refl L
  | before h ih => exact ih.trans ((List.Perm.swap _ _ _).append_left _)
  | after h ih => exact ih.trans ((List.Perm.swap _ _ _).append_left _)

omit [DecidableEq P] in
lemma sorted_before (hs : Sorted pos (F ++ n :: G)) (hc : c ∈ F) : pos c ≤ pos n :=
  (List.pairwise_append.mp hs).2.2 c hc n List.mem_cons_self

omit [DecidableEq P] in
lemma sorted_behind (hs : Sorted pos (F ++ n :: G)) (hc : c ∈ G) : pos n ≤ pos c :=
  (List.pairwise_cons.mp (List.pairwise_append.mp hs).2.1).1 c hc

omit [DecidableEq P] in
lemma of_mem_passedBefore (h : c ∈ passedBefore flags pos x F) : c ∈ F ∧ x ≤ pos c := by
  obtain ⟨hmem, hgo⟩ := of_mem_takeWhile h
  refine ⟨List.mem_reverse.mp hmem, ?_⟩
  rcases of_decide_eq_true hgo with hlt | ⟨heq, -⟩
  · exact hlt.le
  · exact heq.ge

omit [DecidableEq P] in
lemma of_goesBehind (h : goesBehind flags pos x c = true) : pos c ≤ x := by
  rcases of_decide_eq_true h with hlt | ⟨heq, -⟩
  · exact hlt.le
  · exact heq.le

omit [DecidableEq P] in
/-- No node strictly outside is passed. -/
theorem passed_inside (hs : Sorted pos (F ++ n :: G)) (h : c ∈ passed flags pos x F G) :
    min (pos n) x ≤ pos c ∧ pos c ≤ max (pos n) x := by
  have hbefore : ∀ c ∈ passedBefore flags pos x F, x ≤ pos c ∧ pos c ≤ pos n := by
    intro c hc
    obtain ⟨hF, hx⟩ := of_mem_passedBefore hc
    exact ⟨hx, sorted_before hs hF⟩
  rcases List.mem_append.mp h with hc | hc
  · obtain ⟨hx, hn⟩ := hbefore c hc
    exact ⟨min_le_of_right_le hx, le_max_of_le_left hn⟩
  · obtain ⟨hmem, hgo⟩ := of_mem_takeWhile hc
    have hle := of_goesBehind hgo
    rcases List.mem_append.mp hmem with hc | hc
    · exact ⟨min_le_of_right_le (hbefore c (List.mem_reverse.mp hc)).1, le_max_of_le_right hle⟩
    · exact ⟨min_le_of_left_le (sorted_behind hs hc), le_max_of_le_right hle⟩

/-- A node strictly between is passed by the first loop when the coordinate falls. -/
lemma count_falling (hs : Sorted pos (F ++ n :: G)) (hnd : (F ++ n :: G).Nodup) (hc : c ∈ F ++ n :: G)
    (hx : x < pos c) (hn : pos c < pos n) : (passed flags pos x F G).count c = 1 := by
  have hF : c ∈ F := by
    rcases List.mem_append.mp hc with hc | hc
    · exact hc
    · rcases List.mem_cons.mp hc with rfl | hc
      · exact absurd hn (lt_irrefl _)
      · exact absurd hn (sorted_behind hs hc).not_gt
  have hsF : Sorted pos F := (List.pairwise_append.mp hs).1
  have hndF : F.Nodup := (List.nodup_append.mp hnd).1
  have hmem : c ∈ passedBefore flags pos x F := by
    obtain ⟨A, B, rfl⟩ := List.append_of_mem hF
    rw [passedBefore, List.reverse_append, List.reverse_cons, List.append_assoc]
    refine mem_takeWhile (fun b hb => ?_) (decide_eq_true (.inl hx))
    have hcb := (List.pairwise_cons.mp (List.pairwise_append.mp hsF).2.1).1 b (List.mem_reverse.mp hb)
    exact decide_eq_true (.inl (hx.trans_le hcb))
  have hnot : c ∉ (behind flags pos x F G).takeWhile (goesBehind flags pos x) := fun h =>
    hx.not_ge (of_goesBehind (of_mem_takeWhile h).2)
  have hnd' : (passedBefore flags pos x F).Nodup := (List.nodup_reverse.mpr hndF).sublist (List.takeWhile_sublist _)
  rw [passed, List.count_append, List.count_eq_one_of_mem hnd' hmem, List.count_eq_zero.mpr hnot]

/-- A node strictly between is passed by the second loop when the coordinate rises. -/
lemma count_rising (hs : Sorted pos (F ++ n :: G)) (hnd : (F ++ n :: G).Nodup) (hc : c ∈ F ++ n :: G)
    (hn : pos n < pos c) (hx : pos c < x) : (passed flags pos x F G).count c = 1 := by
  have hG : c ∈ G := by
    rcases List.mem_append.mp hc with hc | hc
    · exact absurd hn (sorted_before hs hc).not_gt
    · rcases List.mem_cons.mp hc with rfl | hc
      · exact absurd hn (lt_irrefl _)
      · exact hc
  have hsG : Sorted pos G := (List.pairwise_cons.mp (List.pairwise_append.mp hs).2.1).2
  have hndG : G.Nodup := (List.nodup_cons.mp (List.nodup_append.mp hnd).2.1).2
  have hnone : passedBefore flags pos x F = [] := by
    refine List.eq_nil_iff_forall_not_mem.mpr fun b hb => ?_
    obtain ⟨hF, hxb⟩ := of_mem_passedBefore hb
    exact absurd (hn.trans hx) (hxb.trans (sorted_before hs hF)).not_gt
  have hmem : c ∈ G.takeWhile (goesBehind flags pos x) := by
    obtain ⟨A, B, rfl⟩ := List.append_of_mem hG
    refine mem_takeWhile (fun a ha => ?_) (decide_eq_true (.inl hx))
    have hac := (List.pairwise_append.mp hsG).2.2 a ha c List.mem_cons_self
    exact decide_eq_true (.inl (hac.trans_lt hx))
  rw [passed, behind, hnone, List.reverse_nil, List.nil_append, List.nil_append]
  exact List.count_eq_one_of_mem (hndG.sublist (List.takeWhile_sublist _)) hmem

/-- Every node strictly between is passed once. -/
theorem passed_between (hs : Sorted pos (F ++ n :: G)) (hnd : (F ++ n :: G).Nodup) (hc : c ∈ F ++ n :: G)
    (hlow : min (pos n) x < pos c) (hhigh : pos c < max (pos n) x) : (passed flags pos x F G).count c = 1 := by
  rcases le_total x (pos n) with hle | hle
  · rw [min_eq_right hle] at hlow
    rw [max_eq_left hle] at hhigh
    exact count_falling hs hnd hc hlow hhigh
  · rw [min_eq_left hle] at hlow
    rw [max_eq_right hle] at hhigh
    exact count_rising hs hnd hc hlow hhigh

end Lists

/-- The crossings `cs` of an update of `n` in the list `L`, from its stored coordinate to `real`. -/
structure Crossings (flags : FlagView P) (n : P) (real : α) (L : List P) (l l' : AxisList P α)
    (cs L' : List P) : Prop where
  rounds : Crossed flags true n real (l.pos n) l cs l'
  swaps : Swaps n L cs L'
  linked : l'.Linked L'
  others : L'.filter (· ≠ n) = L.filter (· ≠ n)
  between : ∀ c ∈ L, min (l.pos n) real < l.pos c → l.pos c < max (l.pos n) real → cs.count c = 1
  inside : ∀ c ∈ cs, min (l.pos n) real ≤ l.pos c ∧ l.pos c ≤ max (l.pos n) real
  notified : l'.passes = notifyAll flags true n cs l.passes

section Update
variable {l : AxisList P α} {flags : FlagView P} {n : P} {L : List P}

/-- One axis: an update from the stored coordinate has exact crossings. -/
theorem update_crossings (h : l.Linked L) (hs : Sorted l.pos L) (hn : n ∈ L) (flags : FlagView P) (real : α) :
    ∃ k, ∀ fuel, Safe .outOfFuel (k < fuel) (l.update flags true fuel n real (l.pos n)) fun l' =>
      ∃ cs L', Crossings flags n real L l l' cs L' := by
  by_cases heq : real = l.pos n
  · have hskip : Crossed flags true n real (l.pos n) l [] l := .skipped heq
    refine ⟨0, fun fuel => (hskip.safe fuel).weaken fun l' hl' => ?_⟩
    subst hl'
    refine ⟨[], L, hskip, .nil L, h, rfl, fun c _ hlow hhigh => ?_, nofun, rfl⟩
    rw [heq, min_self] at hlow
    rw [heq, max_self] at hhigh
    exact absurd hlow hhigh.not_gt
  · obtain ⟨F, G, rfl⟩ := List.append_of_mem hn
    obtain ⟨l', hcrossed, hlinked, -, hpasses, -, hswaps⟩ := @update_rounds _ _ _ _ l flags true n F G real _ h heq
    refine ⟨_, fun fuel => (hcrossed.safe fuel).weaken fun t ht => ?_⟩
    subst ht
    exact ⟨_, _, hcrossed, hswaps, hlinked, hswaps.filter, fun c hc => passed_between hs h.nodup hc,
      fun c hc => passed_inside hs hc, hpasses⟩

end Update

end TyphoonZero.CrossList
