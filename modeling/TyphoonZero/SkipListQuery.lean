import TyphoonZero.SkipListRun

/-! The rank queries against the sorted list of the stored keys. -/
namespace TyphoonZero.Rank
open Tower Loop Transition

/-- The ranking a store stands for: its keys in the order of the list type. -/
structure IsRanking (type : UInt16) (size : ℕ) (c : UInt64 → Option Uaks) (K : List Uaks) : Prop where
  sorted : K.Pairwise fun u v => compUaks type size u v = true
  mem : ∀ u, u ∈ K ↔ c u.uid = some u

def rankOf (K : List Uaks) (uid : UInt64) : ℕ :=
  if uid ∈ K.map Uaks.uid then (K.map Uaks.uid).idxOf uid + 1 else 0

def revRankOf (K : List Uaks) (uid : UInt64) : ℕ :=
  if rankOf K uid = 0 then 0 else K.length - rankOf K uid + 1

def uidAt (K : List Uaks) : ℕ → UInt64
  | 0 => 0
  | n + 1 => (K.map Uaks.uid)[n]?.getD 0

section Ranking
variable {type : UInt16} {size : ℕ} {c : UInt64 → Option Uaks} {K K' : List Uaks}

/-- A store stands for one ranking only. -/
theorem IsRanking.unique (h : IsRanking type size c K) (h' : IsRanking type size c K') : K = K' := by
  have hirr : ∀ {K}, IsRanking type size c K → K.Nodup := fun h =>
    h.sorted.imp fun {u v} huv he => by simp [he] at huv
  have hperm : K.Perm K' :=
    (List.perm_ext_iff_of_nodup (hirr h) (hirr h')).mpr fun u => (h.mem u).trans (h'.mem u).symm
  refine hperm.eq_of_pairwise (fun u v _ _ huv hvu => ?_) h.sorted h'.sorted
  rw [compUaks_asymm huv] at hvu
  exact absurd hvu Bool.false_ne_true

lemma IsRanking.nodup_uid (h : IsRanking type size c K) : (K.map Uaks.uid).Nodup := by
  have hnd : K.Nodup := h.sorted.imp fun {u v} huv he => by simp [he] at huv
  refine List.Nodup.map_on (fun u hu v hv huv => ?_) hnd
  have h₁ := (h.mem u).mp hu
  have h₂ := (h.mem v).mp hv
  rw [huv, h₂] at h₁
  exact (Option.some.inj h₁).symm

lemma rankOf_append {F G : List Uaks} {u : Uaks} (hnd : ((F ++ u :: G).map Uaks.uid).Nodup) :
    rankOf (F ++ u :: G) u.uid = F.length + 1 := by
  have hu : u.uid ∉ F.map Uaks.uid := by
    rw [List.map_append] at hnd
    exact fun hF => List.disjoint_of_nodup_append hnd hF (by simp)
  rw [rankOf, if_pos (by simp), List.map_append, List.idxOf_append_of_notMem hu, List.length_map,
    List.map_cons, List.idxOf_cons_self]

lemma uidAt_append {F G : List Uaks} {u : Uaks} : uidAt (F ++ u :: G) (F.length + 1) = u.uid := by
  simp [uidAt]

lemma exists_split_of_mem {uid : UInt64} (h : uid ∈ K.map Uaks.uid) :
    ∃ F u G, K = F ++ u :: G ∧ u.uid = uid := by
  obtain ⟨u, hu, rfl⟩ := List.mem_map.mp h
  obtain ⟨F, G, rfl⟩ := List.append_of_mem hu
  exact ⟨F, u, G, rfl, rfl⟩

lemma uidAt_rankOf (hnd : (K.map Uaks.uid).Nodup) {uid : UInt64} (h : uid ∈ K.map Uaks.uid) :
    uidAt K (rankOf K uid) = uid := by
  obtain ⟨F, u, G, rfl, rfl⟩ := exists_split_of_mem h
  rw [rankOf_append hnd, uidAt_append]

lemma rankOf_uidAt (hnd : (K.map Uaks.uid).Nodup) {n : ℕ} (h1 : 1 ≤ n) (hn : n ≤ K.length) :
    rankOf K (uidAt K n) = n := by
  obtain ⟨m, rfl⟩ := Nat.exists_eq_add_of_le' h1
  have hm : m < K.length := by omega
  obtain ⟨F, u, G, rfl, rfl⟩ : ∃ F u G, K = F ++ u :: G ∧ F.length = m :=
    ⟨K.take m, K[m], K.drop (m + 1), by rw [List.getElem_cons_drop, List.take_append_drop],
      by rw [List.length_take]; omega⟩
  rw [uidAt_append, rankOf_append hnd]

/-- The reverse rank is the rank in the reversed list. -/
lemma revRankOf_eq (hnd : (K.map Uaks.uid).Nodup) (uid : UInt64) :
    revRankOf K uid = rankOf K.reverse uid := by
  by_cases h : uid ∈ K.map Uaks.uid
  · obtain ⟨F, u, G, rfl, rfl⟩ := exists_split_of_mem h
    have hrev : (F ++ u :: G).reverse = G.reverse ++ u :: F.reverse := by simp
    have hnd' : ((G.reverse ++ u :: F.reverse).map Uaks.uid).Nodup := by
      rw [← hrev, List.map_reverse]
      exact List.nodup_reverse.mpr hnd
    rw [revRankOf, hrev, rankOf_append hnd, rankOf_append hnd', if_neg (Nat.succ_ne_zero _)]
    simp only [List.length_append, List.length_cons, List.length_reverse]
    omega
  · have h' : uid ∉ K.reverse.map Uaks.uid := by
      rw [List.map_reverse, List.mem_reverse]
      exact h
    rw [revRankOf, rankOf, if_neg h, rankOf, if_neg h']
    rfl

lemma rankOf_le_length (uid : UInt64) : rankOf K uid ≤ K.length := by
  unfold rankOf
  split_ifs with h
  · have hlt := List.idxOf_lt_length_of_mem h
    rwa [List.length_map] at hlt
  · exact Nat.zero_le _

end Ranking

section Query
variable {s : SkipList} {L : List Addr} {fuel : ℕ}

lemma level0_last {F : List Addr} {c : Addr × UInt64} (h : AtLast s.nodes F 0 c)
    (hF : ∀ a ∈ F, s.nodes.tall 0 a = true) : ∃ A, F = A ++ [c.1] ∧ c.2 = UInt64.ofNat A.length := by
  obtain ⟨A, B, hl, hr⟩ := h
  have hB : B = [] := by
    refine List.eq_nil_iff_forall_not_mem.mpr fun b hb => ?_
    have ht := hF b (by simp [hl.split, hb])
    rw [hl.short b hb] at ht
    exact Bool.false_ne_true ht
  exact ⟨A, by rw [hl.split, hB], hr⟩

lemma Shape.tall_zero (h : Shape s L) : ∀ a ∈ s.header :: L, s.nodes.tall 0 a = true := by
  intro a ha
  rw [tall_eq_true]
  rcases List.mem_cons.mp ha with rfl | ha
  · rw [h.header_height]
    decide
  · exact (h.heights a ha).1

/-- A query along a cut that stops exactly at the last node passed over. -/
lemma seek_last {F G : List Addr} {x : Addr} {go : UInt64 → Addr → Bool}
    {stop : Addr × UInt64 → Bool} (h : Shape s (F ++ x :: G))
    (hg : Frontier go (s.header :: (F ++ [x])) G)
    (hstop : ∀ A y B, s.header :: (F ++ [x]) = A ++ y :: B →
      (stop (y, UInt64.ofNat A.length) = true ↔ B = [])) :
    Fuelled ((F ++ x :: G).length + 1 < fuel)
      (s.seek go stop fuel s.level (s.header, 0)) fun found =>
        found = some (x, UInt64.ofNat (F.length + 1)) := by
  have hsplit : s.header :: (F ++ [x]) ++ G = s.header :: (F ++ x :: G) := by simp
  have hl : Levels s.nodes s.level (s.header :: (F ++ [x]) ++ G) := hsplit ▸ h.levels
  have hn : AtNode s.nodes (s.header :: (F ++ [x])) s.level (s.header, 0) :=
    Shape.header_atNode (by simpa using h : Shape s ((F ++ [x]) ++ G))
  have hlast : ∀ A y, s.header :: (F ++ [x]) = A ++ [y] → A = s.header :: F ∧ y = x := by
    intro A y hA
    have hA' : s.header :: F ++ [x] = A ++ [y] := hA
    obtain ⟨h₁, h₂⟩ := List.append_inj' hA' rfl
    exact ⟨h₁.symm, (List.cons.inj h₂).1.symm⟩
  refine ((seek_spec hl hg le_rfl hn).enough ?_).weaken ?_
  · simp only [List.length_append, List.length_cons, List.length_nil]
    omega
  · intro found hf
    cases found with
    | some d =>
      obtain ⟨y, r⟩ := d
      obtain ⟨hs, A, B, hA, -, hr⟩ := hf
      dsimp only at hA hr
      subst hr
      obtain rfl := (hstop A y B hA).mp hs
      obtain ⟨rfl, rfl⟩ := hlast A y hA
      rfl
    | none =>
      rcases hf with h0 | ⟨⟨y, r⟩, hd, hs⟩
      · have := h.level_pos
        omega
      · have htall : ∀ a ∈ s.header :: (F ++ [x]), s.nodes.tall 0 a = true := by
          intro a ha
          refine h.tall_zero a ?_
          rw [← hsplit]
          exact List.mem_append_left G ha
        obtain ⟨A, hA, hr⟩ := level0_last hd htall
        dsimp only at hA hr
        subst hr
        rw [(hstop A y [] hA).mpr rfl] at hs
        exact absurd hs.symm Bool.false_ne_true

def nodeAt (L : List Addr) : ℕ → Option Addr
  | 0 => none
  | n + 1 => L[n]?

lemma getUid_nodeAt (hsize : 0 < s.uaksSize) (n : ℕ) : s.getUid (nodeAt L n) = uidAt (keys s L) n := by
  cases n with
  | zero => rfl
  | succ n =>
    rw [nodeAt, uidAt, keys, List.map_map, List.getElem?_map]
    cases L[n]? with
    | none => rfl
    | some a =>
      rw [SkipList.getUid, if_pos hsize]
      rfl

lemma Rep.isRanking {c : UInt64 → Option Uaks} (h : Rep s L)
    (hc : ∀ u, u ∈ keys s L ↔ c u.uid = some u) :
    IsRanking s.type s.uaksSize c (keys s L) :=
  ⟨h.keys_pairwise, hc⟩

lemma Rep.nodup_uid (h : Rep s L) : ((keys s L).map Uaks.uid).Nodup := by
  rw [keys, List.map_map]
  refine List.Nodup.map_on (fun a ha b hb hab => ?_) h.nodup.of_cons
  exact h.uid_inj ha hb hab

@[simp] lemma keys_length : (keys s L).length = L.length := by simp [keys]

lemma getNodeByUid_none {uid : UInt64} (h : Rep s L) (hn : s.getNodeByUid uid = none) :
    uid ∉ (keys s L).map Uaks.uid := by
  intro hu
  obtain ⟨u, hu, hue⟩ := List.mem_map.mp hu
  obtain ⟨a, ha, hau⟩ := mem_keys.mp hu
  have hl := (h.umap uid a).mpr ⟨ha, by rw [← hue, ← hau]; rfl⟩
  rw [SkipList.getNodeByUid, hl] at hn
  exact Option.some_ne_none _ hn

theorem getRank_spec (h : Rep s L) (uid : UInt64) :
    Fuelled (L.length + 1 < fuel) (s.getRank fuel uid) fun r =>
      r = UInt64.ofNat (rankOf (keys s L) uid) := by
  unfold SkipList.getRank
  cases hn : s.getNodeByUid uid with
  | none =>
    refine .some ?_
    rw [rankOf, if_neg (getNodeByUid_none h hn)]
    rfl
  | some x =>
    obtain ⟨hx, hxu⟩ := (h.umap uid x).mp hn
    obtain ⟨F, G, rfl⟩ := List.append_of_mem hx
    have hnd := h.nodup
    obtain ⟨-, hxG, hFG⟩ := List.pairwise_append.mp h.sorted
    have hg : Frontier (fun _ y => uid == (s.nodes y).getUid ||
        s.compUaks (s.nodes y).uaks (s.nodes x).uaks) (s.header :: (F ++ [x])) G := by
      refine frontier_of_cut (fun a ha => ?_) fun a ha => ?_
      · rcases List.mem_append.mp ha with ha | ha
        · simp [hFG a ha x (by simp)]
        · simp [List.mem_singleton.mp ha, hxu]
      · have hax : (s.nodes a).getUid ≠ uid := by
          intro hau
          have hax := h.uid_inj (by simp [ha]) hx (hau.trans hxu.symm)
          simp [List.nodup_append, ← hax, ha] at hnd
        have hcomp := compUaks_asymm ((List.pairwise_cons.mp hxG).1 a ha)
        simp [Ne.symm hax, SkipList.compUaks, hcomp]
    have hstop : ∀ A y B, s.header :: (F ++ [x]) = A ++ y :: B →
        ((y == x) = true ↔ B = []) := by
      intro A y B hA
      have hFx : (s.header :: F) ++ x :: [] = A ++ y :: B := hA
      rcases split_cases hFx with ⟨-, rfl, rfl⟩ | ⟨C, -, hB⟩ | ⟨C, hF, rfl⟩
      · simp
      · simp at hB
      · have hyx : y ≠ x := by
          rintro rfl
          have hx : y ∈ s.header :: F := by simp [hF]
          have hnd' : (s.header :: F ++ y :: G).Nodup := hnd
          exact List.disjoint_of_nodup_append hnd' hx (by simp)
        exact ⟨fun h => absurd (beq_iff_eq.mp h) hyx, fun h => by simp at h⟩
    refine (seek_last h.shape hg hstop).bind ?_
    rintro _ rfl
    refine .some ?_
    have hu : uid = (s.nodes x).uaks.uid := hxu.symm
    have hr := @rankOf_append (keys s F) (keys s G) (s.nodes x).uaks (by simpa [keys] using h.nodup_uid)
    rw [hu, show keys s (F ++ x :: G) = keys s F ++ (s.nodes x).uaks :: keys s G by simp [keys], hr,
      keys_length]

section ByRank
variable (h : Shape s L) {rank : UInt64}
include h

lemma ofNat_le_rank {n : ℕ} (hn : n ≤ L.length + 1) :
    UInt64.ofNat n ≤ rank ↔ n ≤ rank.toNat := by
  rw [UInt64.le_iff_toNat_le, h.toNat_ofNat hn]

lemma ofNat_eq_rank {n : ℕ} (hn : n ≤ L.length + 1) : UInt64.ofNat n = rank ↔ n = rank.toNat := by
  rw [← UInt64.toNat_inj, h.toNat_ofNat hn]

/-- The walk over a prefix of at most `rank` nodes of which nothing or only later ranks follow. -/
lemma frontier_rank {F G : List Addr} (hL : L = F ++ G) (hF : F.length ≤ rank.toNat)
    (hG : G = [] ∨ rank.toNat ≤ F.length) :
    Frontier (fun r _ => decide (r ≤ rank)) (s.header :: F) G where
  before A y B hs _ := by
    have hlen := congrArg List.length hs
    simp only [List.length_cons, List.length_append] at hlen
    have hA : A.length ≤ L.length + 1 := by simp only [hL, List.length_append]; omega
    rw [decide_eq_true_eq, ofNat_le_rank h hA]
    omega
  after A y B hs := by
    have hlen := congrArg List.length hs
    simp only [List.length_cons, List.length_append] at hlen
    have hA : (s.header :: F).length + A.length ≤ L.length + 1 := by
      simp only [hL, List.length_append, List.length_cons]; omega
    rw [decide_eq_false_iff_not, ofNat_le_rank h hA, List.length_cons]
    rcases hG with rfl | hG
    · simp at hs
    · omega

theorem getNodeByRank_spec :
    Fuelled (L.length + 1 < fuel) (s.getNodeByRank fuel rank) fun r => r = nodeAt L rank.toNat := by
  unfold SkipList.getNodeByRank
  by_cases h0 : 0 = rank
  · rw [if_pos h0, ← h0]
    exact .some rfl
  rw [if_neg h0]
  have hpos : rank.toNat ≠ 0 := fun hn => h0 (UInt64.toNat_inj.mp hn.symm)
  rcases Nat.lt_or_ge L.length rank.toNat with hlt | hge
  · have hl : Levels s.nodes s.level (s.header :: L ++ []) := by simpa using h.levels
    have hn : AtNode s.nodes (s.header :: L) s.level (s.header, 0) :=
      Shape.header_atNode (G := []) (by simpa using h)
    have hg := frontier_rank h (F := L) (G := []) (by simp) hlt.le (.inl rfl)
    refine ((seek_spec hl hg le_rfl hn).enough fun hf => hf).bind fun found hf => .some ?_
    have hnone : nodeAt L rank.toNat = none := by
      obtain ⟨n, hn⟩ := Nat.exists_eq_succ_of_ne_zero hpos
      rw [hn]
      exact List.getElem?_eq_none (by omega)
    rw [hnone]
    cases found with
    | none => rfl
    | some d =>
      obtain ⟨hs, A, B, hA, -, hr⟩ := hf
      have hlen := congrArg List.length hA
      simp only [List.length_cons, List.length_append] at hlen
      rw [beq_iff_eq, hr, ofNat_eq_rank h (by omega)] at hs
      omega
  · obtain ⟨n, hn⟩ := Nat.exists_eq_succ_of_ne_zero hpos
    have hsplit : L = L.take n ++ L[n] :: L.drop (n + 1) := by
      rw [List.getElem_cons_drop, List.take_append_drop]
    set F := L.take n with hF
    set x := L[n] with hx
    set G := L.drop (n + 1) with hG
    have hFlen : F.length = n := by
      rw [hF, List.length_take]
      omega
    have hLlen : L.length = F.length + G.length + 1 := by
      rw [hsplit]
      simp only [List.length_append, List.length_cons]
      omega
    have hg : Frontier (fun r _ => decide (r ≤ rank)) (s.header :: (F ++ [x])) G := by
      refine frontier_rank h (by rw [hsplit]; simp) ?_ (.inr ?_)
      · simp only [List.length_append, List.length_cons, List.length_nil]
        omega
      · simp only [List.length_append, List.length_cons, List.length_nil]
        omega
    have hstop : ∀ A y B, s.header :: (F ++ [x]) = A ++ y :: B →
        (((y, UInt64.ofNat A.length).2 == rank) = true ↔ B = []) := by
      intro A y B hA
      have hlen := congrArg List.length hA
      simp only [List.length_cons, List.length_append, List.length_nil] at hlen
      rw [beq_iff_eq, ofNat_eq_rank h (by omega), ← List.length_eq_zero_iff]
      omega
    have hseek := @seek_last s fuel F G x _ (fun c => c.2 == rank) (hsplit ▸ h) hg hstop
    refine ((hsplit ▸ hseek).enough fun hf => hf).bind ?_
    rintro _ rfl
    refine .some ?_
    rw [hn, nodeAt, List.getElem?_eq_getElem (by omega)]
    rfl

end ByRank

end Query

/-- The queries of `s` answer from the ranking `K`, whose scores are those of `c`. -/
structure Answers (s : SkipList) (fuel : ℕ) (c : UInt64 → Option Uaks) (K : List Uaks) : Prop where
  getRank : ∀ uid, (s.getRank fuel uid).map UInt64.toNat = some (rankOf K uid)
  getRevRank : ∀ uid, (s.getRevRank fuel uid).map UInt64.toNat = some (revRankOf K uid)
  getScore : ∀ uid, s.getScore uid = ((c uid).map fun u => u.at 1).getD 0
  getUidByRank : ∀ rank, s.getUidByRank fuel rank = some (uidAt K rank.toNat)
  getUidByRevRank : ∀ rank, s.getUidByRevRank fuel rank = some (uidAt K.reverse rank.toNat)

lemma uidAt_of_length_lt {K : List Uaks} {n : ℕ} (h : K.length < n) : uidAt K n = 0 := by
  obtain ⟨m, rfl⟩ := Nat.exists_eq_succ_of_ne_zero (show n ≠ 0 by omega)
  rw [uidAt, List.getElem?_eq_none (by rw [List.length_map]; omega)]
  rfl

/-- Counting from the end is counting down from one past the length. -/
lemma uidAt_reverse {K : List Uaks} {n : ℕ} (h0 : 1 ≤ n) (hn : n ≤ K.length) :
    uidAt K.reverse n = uidAt K (K.length + 1 - n) := by
  obtain ⟨m, rfl⟩ := Nat.exists_eq_add_of_le' h0
  have hK : K.length + 1 - (m + 1) = (K.length - 1 - m) + 1 := by omega
  rw [hK, uidAt, uidAt, List.map_reverse, List.getElem?_reverse (by rw [List.length_map]; omega),
    List.length_map]

section Answers
variable {s : SkipList} {L : List Addr} {fuel : ℕ} (h : Rep s L) (hf : L.length + 1 < fuel)
include h hf

lemma getRevRank_eq (uid : UInt64) :
    (s.getRevRank fuel uid).map UInt64.toNat = some (revRankOf (keys s L) uid) := by
  obtain ⟨r, hr, rfl⟩ := (getRank_spec h uid).eq_some hf
  have hle : rankOf (keys s L) uid ≤ L.length := (rankOf_le_length uid).trans_eq keys_length
  have hnat := h.shape.toNat_ofNat (n := rankOf (keys s L) uid) (by omega)
  have hlen := h.shape.toNat_ofNat (n := L.length) (by omega)
  have hbound := h.shape.length_lt
  by_cases h0 : rankOf (keys s L) uid = 0
  · simp [SkipList.getRevRank, hr, h0, revRankOf]
  · have hne : 0 ≠ UInt64.ofNat (rankOf (keys s L) uid) := fun he => h0 (by rw [← hnat, ← he]; rfl)
    simp only [SkipList.getRevRank, hr, Option.bind_eq_bind, Option.bind_some, if_neg hne,
      Option.pure_def, Option.map_some, Option.some.injEq, revRankOf, if_neg h0, keys_length]
    rw [h.length, UInt64.toNat_add, UInt64.toNat_sub_of_le _ _ (by rw [UInt64.le_iff_toNat_le]; omega), hnat,
      hlen]
    exact Nat.mod_eq_of_lt (by rw [UInt64.toNat_one]; omega)

lemma getUidByRank_eq (hsize : 0 < s.uaksSize) (rank : UInt64) :
    s.getUidByRank fuel rank = some (uidAt (keys s L) rank.toNat) := by
  obtain ⟨r, hr, rfl⟩ := (@getNodeByRank_spec s L fuel h.shape rank).eq_some hf
  simp [SkipList.getUidByRank, hr, getUid_nodeAt hsize]

lemma getUidByRevRank_eq (hsize : 0 < s.uaksSize) (rank : UInt64) :
    s.getUidByRevRank fuel rank = some (uidAt (keys s L).reverse rank.toNat) := by
  have hk : (keys s L).length = L.length := keys_length
  have hbound := h.shape.length_lt
  have heq := getUidByRank_eq h hf hsize (s.length + 1 - rank)
  have hrev : s.getUidByRevRank fuel rank = s.getUidByRank fuel (s.length + 1 - rank) := rfl
  rw [hrev, heq]
  have hlen := h.shape.length_add_one
  have hr := rank.toNat_lt
  rcases Nat.lt_or_ge (L.length + 1) rank.toNat with hgt | hle
  · have hsub : (s.length + 1 - rank).toNat = 2 ^ 64 - rank.toNat + (L.length + 1) := by
      rw [UInt64.toNat_sub, hlen]
      exact Nat.mod_eq_of_lt (by omega)
    rw [uidAt_of_length_lt (by omega), uidAt_of_length_lt (by rw [List.length_reverse]; omega)]
  · have hsub : (s.length + 1 - rank).toNat = L.length + 1 - rank.toNat := by
      rw [UInt64.toNat_sub_of_le _ _ (by rw [UInt64.le_iff_toNat_le]; omega), hlen]
    rw [hsub]
    rcases Nat.eq_zero_or_pos rank.toNat with h0 | hpos
    · rw [h0, uidAt_of_length_lt (by omega)]
      rfl
    · rcases Nat.lt_or_ge L.length rank.toNat with hlt | hle'
      · rw [uidAt_of_length_lt (K := (keys s L).reverse) (by rw [List.length_reverse]; omega),
          show L.length + 1 - rank.toNat = 0 by omega]
        rfl
      · rw [uidAt_reverse hpos (by omega), hk]

theorem Rep.answers {c : UInt64 → Option Uaks} (hsize : 1 < s.uaksSize)
    (hc : ∀ u, u ∈ keys s L ↔ c u.uid = some u) (hcu : ∀ uid u, c uid = some u → u.uid = uid) :
    Answers s fuel c (keys s L) where
  getRank uid := by
    obtain ⟨r, hr, rfl⟩ := (getRank_spec h uid).eq_some hf
    have hle : rankOf (keys s L) uid ≤ L.length := (rankOf_le_length uid).trans_eq keys_length
    rw [hr, Option.map_some, h.shape.toNat_ofNat (by omega)]
  getRevRank := getRevRank_eq h hf
  getScore uid := by
    unfold SkipList.getScore
    cases hn : s.getNodeByUid uid with
    | none =>
      cases hcuid : c uid with
      | none => rfl
      | some u =>
        have hu := hcu uid u hcuid
        refine absurd ?_ (getNodeByUid_none h hn)
        exact List.mem_map.mpr ⟨u, (hc u).mpr (hu ▸ hcuid), hu⟩
    | some x =>
      obtain ⟨hx, hxu⟩ := (h.umap uid x).mp hn
      have hk := (hc _).mp (mem_keys.mpr ⟨x, hx, rfl⟩)
      have hxu' : (s.nodes x).uaks.uid = uid := hxu
      rw [hxu'] at hk
      simp only [SkipList.getScoreOf, hk, if_pos hsize, Option.map_some, Option.getD_some]
      rfl
  getUidByRank := getUidByRank_eq h hf (by omega)
  getUidByRevRank := getUidByRevRank_eq h hf (by omega)

end Answers

inductive Command
  | update (uaks : Uaks)
  | delete (uid : UInt64)

/-- The operation without the random level and the address of the new node. -/
def Op.command : Op → Command
  | .update _ _ uaks => .update uaks
  | .delete uid => .delete uid

def commandsOn (uid : UInt64) (ops : List Op) : List Command :=
  (ops.filter fun op => op.uid == uid).map Op.command

lemma apply_of_uid_ne {op : Op} {uid : UInt64} (h : op.uid ≠ uid) (c : Option Uaks) :
    op.apply uid c = c := by
  cases op with
  | update lv x uaks => exact if_neg h
  | delete u => exact if_neg h

lemma apply_of_command_eq {op op' : Op} (h : op.command = op'.command) (uid : UInt64)
    (c : Option Uaks) : op.apply uid c = op'.apply uid c := by
  cases op with
  | update lv x uaks =>
    cases op' with
    | update lv' x' uaks' => cases h; rfl
    | delete u' => cases h
  | delete u =>
    cases op' with
    | update lv' x' uaks' => cases h
    | delete u' => cases h; rfl

lemma foldl_apply_filter (uid : UInt64) (ops : List Op) (c : Option Uaks) :
    ops.foldl (Op.apply uid) c = (ops.filter fun op => op.uid == uid).foldl (Op.apply uid) c := by
  induction ops generalizing c with
  | nil => rfl
  | cons op ops ih =>
    by_cases h : op.uid = uid
    · simp only [List.foldl_cons, List.filter_cons, h, BEq.rfl, if_true]
      exact ih _
    · have hb : (op.uid == uid) = false := by simpa using h
      simp only [List.foldl_cons, List.filter_cons, hb, Bool.false_eq_true, if_false,
        apply_of_uid_ne h]
      exact ih c

lemma foldl_apply_congr (uid : UInt64) (ops ops' : List Op) (c : Option Uaks)
    (h : ops.map Op.command = ops'.map Op.command) :
    ops.foldl (Op.apply uid) c = ops'.foldl (Op.apply uid) c := by
  induction ops generalizing ops' c with
  | nil => cases ops' with
    | nil => rfl
    | cons op' ops' => cases h
  | cons op ops ih => cases ops' with
    | nil => cases h
    | cons op' ops' =>
      simp only [List.map_cons, List.cons.injEq] at h
      rw [List.foldl_cons, List.foldl_cons, apply_of_command_eq h.1]
      exact ih ops' _ h.2

/-- The contents depend on each uid's own commands alone. -/
lemma contents_congr {ops ops' : List Op} (h : ∀ uid, commandsOn uid ops = commandsOn uid ops') :
    contents ops = contents ops' := by
  funext uid
  rw [contents, contents, foldl_apply_filter uid ops, foldl_apply_filter uid ops']
  exact foldl_apply_congr uid _ _ _ (h uid)

lemma contents_uid {ops : List Op} {uid : UInt64} {u : Uaks} (h : contents ops uid = some u) :
    u.uid = uid := by
  induction ops using List.reverseRecOn generalizing u with
  | nil => simp [contents] at h
  | append_singleton ops op ih =>
    rw [contents_snoc] at h
    cases op with
    | update lv x uaks =>
      simp only [Op.apply] at h
      split_ifs at h with hu
      · cases h
        exact hu
      · exact ih h
    | delete v =>
      simp only [Op.apply] at h
      split_ifs at h
      exact ih h

/-- Uids and ranks are converted into each other without loss. -/
structure Inverse (s : SkipList) (fuel : ℕ) (c : UInt64 → Option Uaks) (K : List Uaks) : Prop where
  uid_rank_uid : ∀ uid, c uid ≠ none → (s.getRank fuel uid).bind (s.getUidByRank fuel) = some uid
  rank_uid_rank : ∀ rank : UInt64, 1 ≤ rank.toNat → rank.toNat ≤ K.length →
    (s.getUidByRank fuel rank).bind (s.getRank fuel) = some rank
  uid_rev_uid : ∀ uid, c uid ≠ none → (s.getRevRank fuel uid).bind (s.getUidByRevRank fuel) = some uid
  rev_uid_rev : ∀ rank : UInt64, 1 ≤ rank.toNat → rank.toNat ≤ K.length →
    (s.getUidByRevRank fuel rank).bind (s.getRevRank fuel) = some rank

lemma bind_of_rank {r : Option UInt64} {f : UInt64 → Option UInt64} {K : List Uaks} {n : ℕ}
    (hr : r.map UInt64.toNat = some n) (hf : ∀ q, f q = some (uidAt K q.toNat)) :
    r.bind f = some (uidAt K n) := by
  obtain ⟨q, rfl, rfl⟩ := Option.map_eq_some_iff.mp hr
  exact hf q

lemma bind_of_uid {r : Option UInt64} {f : UInt64 → Option UInt64} {K : List Uaks} {q : UInt64}
    (hr : r = some (uidAt K q.toNat)) (hf : ∀ uid, (f uid).map UInt64.toNat = some (rankOf K uid))
    (hK : rankOf K (uidAt K q.toNat) = q.toNat) : r.bind f = some q := by
  obtain ⟨p, hp, hpq⟩ := Option.map_eq_some_iff.mp ((hf _).trans (congrArg some hK))
  rw [hr, Option.bind_some, hp, UInt64.toNat_inj.mp hpq]

theorem Answers.inverse {s : SkipList} {fuel : ℕ} {c : UInt64 → Option Uaks} {K : List Uaks}
    (h : Answers s fuel c K) (hK : IsRanking s.type s.uaksSize c K)
    (hcu : ∀ uid u, c uid = some u → u.uid = uid) : Inverse s fuel c K := by
  have hnd := hK.nodup_uid
  have hnd' : (K.reverse.map Uaks.uid).Nodup := by
    rw [List.map_reverse]
    exact List.nodup_reverse.mpr hnd
  have hmem : ∀ uid, c uid ≠ none → uid ∈ K.map Uaks.uid := by
    intro uid hc
    obtain ⟨u, hu⟩ := Option.ne_none_iff_exists'.mp hc
    have huu := hcu uid u hu
    exact List.mem_map.mpr ⟨u, (hK.mem u).mpr (huu ▸ hu), huu⟩
  have hrev : ∀ uid, (s.getRevRank fuel uid).map UInt64.toNat = some (rankOf K.reverse uid) :=
    fun uid => by rw [h.getRevRank, revRankOf_eq hnd]
  refine ⟨fun uid hc => ?_, fun rank h1 hn => ?_, fun uid hc => ?_, fun rank h1 hn => ?_⟩
  · rw [bind_of_rank (h.getRank uid) h.getUidByRank, uidAt_rankOf hnd (hmem uid hc)]
  · exact bind_of_uid (h.getUidByRank rank) h.getRank (rankOf_uidAt hnd h1 hn)
  · have hm : uid ∈ K.reverse.map Uaks.uid := by
      rw [List.map_reverse, List.mem_reverse]
      exact hmem uid hc
    rw [bind_of_rank (hrev uid) h.getUidByRevRank, uidAt_rankOf hnd' hm]
  · exact bind_of_uid (h.getUidByRevRank rank) hrev
      (rankOf_uidAt hnd' h1 (by rwa [List.length_reverse]))

/-- After every history the queries answer from the one ranking of its contents,
and histories with the same commands for each uid get the same ranking whatever
the node heights, addresses and the order among different uids. -/
theorem skipList_queries {type : UInt16} {ops : List Op} {s : SkipList}
    (h : Traces (listSystem type) ops s) :
    ∃ K, IsRanking type s.uaksSize (contents ops) K ∧
      (∃ n, ∀ fuel, n < fuel → Answers s fuel (contents ops) K ∧ Inverse s fuel (contents ops) K) ∧
      ∀ ops' s', Traces (listSystem type) ops' s' →
        (∀ uid, commandsOn uid ops = commandsOn uid ops') →
          ∃ n, ∀ fuel, n < fuel → Answers s' fuel (contents ops) K := by
  obtain ⟨L, hL, htype, hsize, hkeys⟩ := traces_rep h
  have hcu : ∀ uid u, contents ops uid = some u → u.uid = uid := fun uid u => contents_uid
  have hsz : ∀ n, getSizeByRankKeyType (getRankKeyType type) = some n → 1 < n := by
    intro n hn
    unfold getSizeByRankKeyType at hn
    split_ifs at hn <;> cases hn <;> decide
  have hK := hL.isRanking hkeys
  refine ⟨keys s L, htype ▸ hK, ⟨L.length + 1, fun fuel hf => ?_⟩, fun ops' s' h' hcmd => ?_⟩
  · have hans := hL.answers hf (hsz _ hsize) hkeys hcu
    exact ⟨hans, hans.inverse hK hcu⟩
  · obtain ⟨L', hL', htype', hsize', hkeys'⟩ := traces_rep h'
    rw [← contents_congr hcmd] at hkeys'
    have hK' := hL'.isRanking hkeys'
    have hss : s'.uaksSize = s.uaksSize := Option.some.inj (hsize'.symm.trans hsize)
    rw [htype', hss] at hK'
    rw [htype] at hK
    rw [hK.unique hK']
    exact ⟨L'.length + 1, fun fuel hf => hL'.answers hf (hsz _ hsize') hkeys' hcu⟩

/-- Two players with different scores, on nodes of different heights. -/
theorem skipList_queries_two_updates : ∃ ops s,
    ops = [Op.update 2 ⟨2, by decide⟩ [7, 100], .update 1 ⟨3, by decide⟩ [8, 50]] ∧
    Traces (listSystem 0x0101) ops s ∧ ∃ K, IsRanking 0x0101 s.uaksSize (contents ops) K ∧
      ∃ n, ∀ fuel, n < fuel → Answers s fuel (contents ops) K := by
  obtain ⟨s₀, hs₀⟩ : ∃ s₀, new 0x0101 ⟨1, by decide⟩ = some s₀ := ⟨_, rfl⟩
  have h0 : Traces (listSystem 0x0101) [] s₀ := .nil ⟨_, hs₀⟩
  have hop : Op.Allowed s₀ (.update 2 ⟨2, by decide⟩ [7, 100]) := by
    cases hs₀
    refine ⟨by decide, by decide, ?_, fun u _ => nofun⟩
    exact fun h => absurd (congrArg Subtype.val h) (by decide)
  obtain ⟨r, hr, humap, hheader⟩ : ∃ r, s₀.exec 40 (.update 2 ⟨2, by decide⟩ [7, 100]) = some r ∧
      r.1.uidUmap = AList.insert 7 ⟨2, by decide⟩ ∅ ∧ r.1.header = ⟨1, by decide⟩ := by
    cases hs₀
    exact ⟨_, rfl, rfl, rfl⟩
  have h1 : Traces (listSystem 0x0101) [.update 2 ⟨2, by decide⟩ [7, 100]] r.1 := h0.snoc ⟨hop, _, r.2, hr⟩
  have hop' : Op.Allowed r.1 (.update 1 ⟨3, by decide⟩ [8, 50]) := by
    refine ⟨le_rfl, by decide, ?_, fun u _ hu => ?_⟩
    · rw [hheader]
      decide
    · rw [humap] at hu
      by_cases h7 : u = 7
      · rw [h7, AList.lookup_insert] at hu
        revert hu
        decide
      · rw [AList.lookup_insert_ne h7] at hu
        cases hu
  obtain ⟨L, hL, -⟩ := traces_rep h1
  obtain ⟨r', hr'⟩ := (exec_spec hL hop').2 (Nat.lt_succ_self _)
  have h2 := h1.snoc ⟨hop', _, r'.2, hr'⟩
  obtain ⟨K, hK, ⟨n, hn⟩, -⟩ := skipList_queries h2
  exact ⟨_, r'.1, rfl, h2, K, hK, n, fun fuel hf => (hn fuel hf).1⟩

end TyphoonZero.Rank
