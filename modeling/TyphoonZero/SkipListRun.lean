import TyphoonZero.SkipListInvariant
import TyphoonZero.Transition

/-! Runs of `Update` and `Delete` on one skip list. -/
namespace TyphoonZero.Rank
open Tower Loop Transition

def keys (s : SkipList) (L : List Addr) : List Uaks := L.map fun a => (s.nodes a).uaks

lemma mem_keys {s : SkipList} {L : List Addr} {u : Uaks} :
    u ∈ keys s L ↔ ∃ a ∈ L, (s.nodes a).uaks = u := by simp [keys]

section Basic
variable {s : SkipList} {L : List Addr}

lemma Shape.header_atNode {F G : List Addr} (h : Shape s (F ++ G)) :
    AtNode s.nodes (s.header :: F) s.level (s.header, 0) := by
  refine ⟨[], F, rfl, fun i hi => ?_, rfl⟩
  rw [tall_eq_true, h.header_height]
  exact hi.trans_le h.level_le

/-- The header and the nodes have distinct non-zero addresses. -/
lemma Shape.length_lt (h : Shape s L) : L.length + 1 < 2 ^ 64 := by
  have hnd : ((s.header :: L).map fun a => a.1.toNat).Nodup := by
    refine h.nodup.map fun a b hab => ?_
    exact Subtype.ext (UInt64.toNat_inj.mp hab)
  have hsub : ((s.header :: L).map fun a => a.1.toNat).toFinset ⊆ Finset.Ico 1 (2 ^ 64) := by
    intro n hn
    obtain ⟨a, -, rfl⟩ := List.mem_map.mp (List.mem_toFinset.mp hn)
    have hpos : a.1.toNat ≠ 0 := fun h0 => a.2 (UInt64.toNat_inj.mp h0)
    exact Finset.mem_Ico.mpr ⟨by omega, a.1.toNat_lt⟩
  have hcard := Finset.card_le_card hsub
  rw [List.toFinset_card_of_nodup hnd, Nat.card_Ico, List.length_map, List.length_cons] at hcard
  omega

lemma Shape.toNat_ofNat (h : Shape s L) {n : ℕ} (hn : n ≤ L.length + 1) : (UInt64.ofNat n).toNat = n := by
  have hl := h.length_lt
  rw [UInt64.toNat_ofNat']
  exact Nat.mod_eq_of_lt (by omega)

lemma Shape.length_add_one (h : Shape s L) : (s.length + 1).toNat = L.length + 1 := by
  rw [h.length, ← h.toNat_ofNat (n := L.length + 1) le_rfl, UInt64.ofNat_add]
  rfl

lemma Rep.uid_inj (h : Rep s L) {a b : Addr} (ha : a ∈ L) (hb : b ∈ L)
    (hab : (s.nodes a).getUid = (s.nodes b).getUid) : a = b := by
  have h₁ := (h.umap _ a).mpr ⟨ha, hab⟩
  have h₂ := (h.umap _ b).mpr ⟨hb, rfl⟩
  exact Option.some.inj (h₁.symm.trans h₂)

lemma Rep.keys_pairwise (h : Rep s L) :
    (keys s L).Pairwise fun u v => s.compUaks u v = true :=
  List.pairwise_map.mpr h.sorted

/-- A comparison key cuts the level-0 list into what precedes it and the rest. -/
lemma exists_cut (hs : L.Pairwise fun a b => s.compUaks (s.nodes b).uaks (s.nodes a).uaks = false)
    (u : Uaks) : ∃ F G, L = F ++ G ∧ (∀ a ∈ F, s.compUaks (s.nodes a).uaks u = true) ∧
      ∀ a ∈ G, s.compUaks (s.nodes a).uaks u = false := by
  induction L with
  | nil => exact ⟨[], [], by simp⟩
  | cons a L ih =>
    obtain ⟨haL, hL⟩ := List.pairwise_cons.mp hs
    cases hau : s.compUaks (s.nodes a).uaks u with
    | true =>
      obtain ⟨F, G, rfl, hF, hG⟩ := ih hL
      refine ⟨a :: F, G, rfl, fun b hb => ?_, hG⟩
      rcases List.mem_cons.mp hb with rfl | hb
      · exact hau
      · exact hF b hb
    | false =>
      refine ⟨[], a :: L, rfl, by simp, fun b hb => ?_⟩
      rcases List.mem_cons.mp hb with rfl | hb
      · exact hau
      · exact compUaks_negTrans hau (haL b hb)

lemma frontier_of_cut {F G : List Addr} {go : Addr → Bool}
    (hF : ∀ a ∈ F, go a = true) (hG : ∀ a ∈ G, go a = false) :
    Frontier (fun _ y => go y) (s.header :: F) G where
  before A y B hs hA := by
    cases A with
    | nil => exact absurd rfl hA
    | cons a A =>
      simp only [List.cons_append, List.cons.injEq] at hs
      exact hF y (by simp [hs.2])
  after A y B hs := hG y (by simp [hs])

/-- What a search along a cut leaves in its arrays. -/
lemma search_spec {F G : List Addr} {go : Addr → Bool} {fuel : ℕ} (h : Shape s (F ++ G))
    (hF : ∀ a ∈ F, go a = true) (hG : ∀ a ∈ G, go a = false) :
    Fuelled ((F ++ G).length + 1 < fuel) (s.search (fun _ y => go y) fuel) fun p =>
      ∀ i < s.level, AtLast s.nodes (s.header :: F) i (p.update i, p.rank i) := by
  have hl : Levels s.nodes s.level (s.header :: F ++ G) := h.levels
  refine ((descend_spec hl (frontier_of_cut hF hG) le_rfl h.header_atNode).enough ?_).weaken ?_
  · simp only [List.length_append, List.length_cons]
    omega
  · exact fun p hp => hp.1

end Basic

section Operations
variable {s : SkipList} {L : List Addr} {fuel lv : ℕ} {x : Addr} {uaks : Uaks} {uid : UInt64}

theorem insert_spec (h : Rep s L) (hlv : 1 ≤ lv) (hlv' : lv ≤ kSkipListMaxLevel)
    (hx : x ∉ s.header :: L) (huid : ∀ u ∈ keys s L, u.uid ≠ uaks.uid) :
    Fuelled (L.length + kSkipListMaxLevel < fuel) (s.insert fuel lv x uaks) fun t =>
      ∃ L', Rep t L' ∧ SameKind s t ∧ (∀ a, a ∈ L' ↔ a = x ∨ a ∈ L) ∧
        ∀ u, u ∈ keys t L' ↔ u = uaks ∨ u ∈ keys s L := by
  obtain ⟨F, G, rfl, hF, hG⟩ := exists_cut (h.sorted.imp fun hab => compUaks_asymm hab) uaks
  have hne : ∀ a ∈ F ++ G, (s.nodes a).getUid ≠ uaks.uid := fun a ha =>
    huid _ (mem_keys.mpr ⟨a, ha, rfl⟩)
  have hG' : ∀ a ∈ G, s.compUaks uaks (s.nodes a).uaks = true := by
    intro a ha
    rcases compUaks_or_of_uid_ne (hne a (by simp [ha])) with hc | hc
    · exact absurd hc (Bool.eq_false_iff.mp (hG a ha))
    · exact hc
  refine ((search_spec h.shape hF hG).enough fun hf => ?_).bind fun p hp => ?_
  · exact lt_of_le_of_lt (Nat.add_le_add_left (by decide) _) hf
  obtain ⟨hshape, hk, humap, hins⟩ := @insertAt_shape s F G p lv x uaks h.shape hx hlv hlv' hp
  have hax : ∀ a ∈ F ++ G, a ≠ x := fun a ha he => hx (by simp [← he, ha])
  obtain ⟨huaks, hux⟩ := uaks_entered hx hins
  have hmem : ∀ a, a ∈ F ++ x :: G ↔ a = x ∨ a ∈ F ++ G := fun a => by
    simp only [List.mem_append, List.mem_cons]
    tauto
  have hrep : Rep (s.insertAt lv x uaks p) (F ++ x :: G) := by
    apply hshape.rep
    · rw [hk.compUaks]
      exact pairwise_entered (R := fun u v => s.compUaks u v = true) h.sorted huaks hux hF hG'
    · intro uid a
      have huid' : ∀ a ∈ F ++ G, ((s.insertAt lv x uaks p).nodes a).getUid = (s.nodes a).getUid :=
        fun a ha => congrArg Uaks.uid (huaks a ha)
      have huidx : ((s.insertAt lv x uaks p).nodes x).getUid = uaks.uid := congrArg Uaks.uid hux
      rw [humap, hmem, ← huidx]
      exact lookup_insert_iff h.umap huid' (fun a ha => huidx ▸ hne a ha) uid a
  refine .some ⟨F ++ x :: G, hrep, hk, hmem, fun u => ?_⟩
  rw [mem_keys, mem_keys]
  constructor
  · rintro ⟨a, ha, rfl⟩
    rcases (hmem a).mp ha with rfl | ha
    · exact .inl (by rw [hins, if_pos rfl])
    · exact .inr ⟨a, ha, by rw [hins, if_neg (hax a ha)]⟩
  · rintro (rfl | ⟨a, ha, rfl⟩)
    · exact ⟨x, by simp, by rw [hins, if_pos rfl]⟩
    · exact ⟨a, (hmem a).mpr (.inr ha), by rw [hins, if_neg (hax a ha)]⟩

lemma mem_unlinked {F G : List Addr} (hnd : (F ++ x :: G).Nodup) (a : Addr) :
    a ∈ F ++ G ↔ a ∈ F ++ x :: G ∧ a ≠ x := by
  have hperm : (F ++ x :: G).Perm (x :: (F ++ G)) := List.perm_middle
  have hxn := (List.nodup_cons.mp (hperm.nodup_iff.mp hnd)).1
  rw [hperm.mem_iff, List.mem_cons]
  constructor
  · intro ha
    exact ⟨.inr ha, fun he => hxn (he ▸ ha)⟩
  · rintro ⟨rfl | ha, hax⟩
    · exact absurd rfl hax
    · exact ha

lemma deleteNode_spec (h : Rep s L) (hx : x ∈ L) :
    Fuelled (L.length + kSkipListMaxLevel < fuel) (s.deleteNode fuel x) fun t =>
      ∃ L', Rep t L' ∧ SameKind s t ∧ (∀ a, a ∈ L' ↔ a ∈ L ∧ a ≠ x) ∧
        ∀ a, (t.nodes a).uaks = (s.nodes a).uaks := by
  obtain ⟨F, G, rfl⟩ := List.append_of_mem hx
  obtain ⟨-, hxG, hFG⟩ := List.pairwise_append.mp h.sorted
  have hF : ∀ a ∈ F, s.compUaks (s.nodes a).uaks (s.nodes x).uaks = true :=
    fun a ha => hFG a ha x (by simp)
  have hG : ∀ a ∈ x :: G, s.compUaks (s.nodes a).uaks (s.nodes x).uaks = false := by
    intro a ha
    rcases List.mem_cons.mp ha with rfl | ha
    · exact compUaks_irrefl
    · exact compUaks_asymm ((List.pairwise_cons.mp hxG).1 a ha)
  refine ((search_spec h.shape hF hG).enough fun hf => ?_).bind fun p hp => ?_
  · exact lt_of_le_of_lt (Nat.add_le_add_left (by decide) _) hf
  refine ((deleteAt_spec h.shape hp).enough fun hf => by omega).weaken ?_
  rintro t ⟨ht, hk, humap, hu⟩
  have hmem := mem_unlinked h.nodup.of_cons
  refine ⟨F ++ G, ht.rep ?_ fun uid a => ?_, hk, hmem, hu⟩
  · rw [hk.compUaks]
    have hsub : (F ++ G).Pairwise _ := h.sorted.sublist (by simp)
    simpa only [hu] using hsub
  · have hau : ∀ b, (t.nodes b).getUid = (s.nodes b).getUid := fun b => congrArg Uaks.uid (hu b)
    rw [humap, hau]
    exact lookup_erase_iff h.umap (by simp) hmem uid a

theorem delete_spec (h : Rep s L) :
    Fuelled (L.length + kSkipListMaxLevel < fuel) (s.delete fuel uid) fun r =>
      ∃ L', Rep r.1 L' ∧ SameKind s r.1 ∧
        (∀ a, a ∈ L' ↔ a ∈ L ∧ (s.nodes a).getUid ≠ uid) ∧
        ∀ u, u ∈ keys r.1 L' ↔ u ∈ keys s L ∧ u.uid ≠ uid := by
  unfold SkipList.delete
  cases hn : s.getNodeByUid uid with
  | none =>
    have hne : ∀ a ∈ L, (s.nodes a).getUid ≠ uid := by
      intro a ha he
      have hl := (h.umap uid a).mpr ⟨ha, he⟩
      rw [SkipList.getNodeByUid, hl] at hn
      exact Option.some_ne_none _ hn
    refine .some ⟨L, h, ⟨rfl, rfl, rfl⟩, fun a => ?_, fun u => ?_⟩
    · exact ⟨fun ha => ⟨ha, hne a ha⟩, And.left⟩
    · refine ⟨fun hu => ⟨hu, ?_⟩, And.left⟩
      obtain ⟨a, ha, rfl⟩ := mem_keys.mp hu
      exact hne a ha
  | some x =>
    obtain ⟨hx, hxu⟩ := (h.umap uid x).mp hn
    refine (deleteNode_spec h hx).map ?_
    rintro t ⟨L', ht, hk, hmem, hu⟩
    have hmem' : ∀ a, a ∈ L' ↔ a ∈ L ∧ (s.nodes a).getUid ≠ uid := by
      intro a
      rw [hmem]
      refine and_congr_right fun ha => not_congr ⟨fun he => he ▸ hxu, fun he => ?_⟩
      exact h.uid_inj ha hx (he.trans hxu.symm)
    refine ⟨L', ht, hk, hmem', fun u => ?_⟩
    rw [mem_keys, mem_keys]
    constructor
    · rintro ⟨a, ha, rfl⟩
      obtain ⟨haL, hau⟩ := (hmem' a).mp ha
      exact ⟨⟨a, haL, (hu a).symm⟩, by rw [hu]; exact hau⟩
    · rintro ⟨⟨a, ha, rfl⟩, hau⟩
      exact ⟨a, (hmem' a).mpr ⟨ha, hau⟩, hu a⟩

/-- The new node of an update is none of the list's nodes, but may take the
address of the node the update deletes. -/
def SkipList.Fresh (s : SkipList) (uid : UInt64) (x : Addr) : Prop :=
  x ≠ s.header ∧ ∀ u, u ≠ uid → s.uidUmap.lookup u ≠ some x

theorem update_spec (h : Rep s L) (hlv : 1 ≤ lv) (hlv' : lv ≤ kSkipListMaxLevel)
    (hx : s.Fresh uaks.uid x) :
    Fuelled (L.length + kSkipListMaxLevel < fuel) (s.update fuel lv x uaks) fun r =>
      ∃ L', Rep r.1 L' ∧ SameKind s r.1 ∧
        ∀ u, u ∈ keys r.1 L' ↔ u = uaks ∨ u ∈ keys s L ∧ u.uid ≠ uaks.uid := by
  refine (delete_spec h).bind ?_
  rintro ⟨t, b⟩ ⟨L₁, ht, hk, hmem, hkeys⟩
  have hlen : L₁.length ≤ L.length := by
    refine (ht.nodup.of_cons.subperm fun a ha => ?_).length_le
    exact ((hmem a).mp ha).1
  have hx₁ : x ∉ t.header :: L₁ := by
    rw [List.mem_cons, hk.header]
    rintro (rfl | hxL)
    · exact hx.1 rfl
    · obtain ⟨hxL, hxu⟩ := (hmem x).mp hxL
      exact hx.2 _ hxu ((h.umap _ x).mpr ⟨hxL, rfl⟩)
  have huid : ∀ u ∈ keys t L₁, u.uid ≠ uaks.uid := fun u hu => ((hkeys u).mp hu).2
  refine ((insert_spec ht hlv hlv' hx₁ huid).enough fun hf => by omega).bind ?_
  rintro u ⟨L₂, hu, hk₂, -, hkeys₂⟩
  refine .some ⟨L₂, hu, hk.trans hk₂, fun v => ?_⟩
  rw [hkeys₂, hkeys]

end Operations

inductive Op
  | update (lv : ℕ) (x : Addr) (uaks : Uaks)
  | delete (uid : UInt64)

def Op.uid : Op → UInt64
  | .update _ _ uaks => uaks.uid
  | .delete uid => uid

/-- What the allocator and the random level guarantee. -/
def Op.Allowed (s : SkipList) : Op → Prop
  | .update lv x uaks => 1 ≤ lv ∧ lv ≤ kSkipListMaxLevel ∧ s.Fresh uaks.uid x
  | .delete _ => True

def SkipList.exec (s : SkipList) (fuel : ℕ) : Op → Option (SkipList × Bool)
  | .update lv x uaks => s.update fuel lv x uaks
  | .delete uid => s.delete fuel uid

def listSystem (type : UInt16) : System SkipList Op where
  init s := ∃ header, new type header = some s
  step s op t := op.Allowed s ∧ ∃ fuel b, s.exec fuel op = some (t, b)

def Op.apply (uid : UInt64) (c : Option Uaks) : Op → Option Uaks
  | .update _ _ uaks => if uaks.uid = uid then some uaks else c
  | .delete u => if u = uid then none else c

/-- What a history has stored last for each uid. -/
def contents (ops : List Op) (uid : UInt64) : Option Uaks :=
  ops.foldl (Op.apply uid) none

lemma contents_snoc (ops : List Op) (op : Op) (uid : UInt64) :
    contents (ops ++ [op]) uid = op.apply uid (contents ops uid) := by
  simp [contents, List.foldl_append]

lemma new_rep {type : UInt16} {header : Addr} {s : SkipList} (h : new type header = some s) :
    Rep s [] ∧ s.type = type ∧ getSizeByRankKeyType (getRankKeyType type) = some s.uaksSize := by
  obtain ⟨size, hsize, rfl⟩ := Option.map_eq_some_iff.mp h
  refine ⟨⟨by simp, rfl, le_rfl, Nat.le_of_ble_eq_true rfl, by simp, ?_, fun _ _ => rfl, ?_, rfl, .nil, rfl, ?_⟩, rfl,
    hsize⟩
  · intro i hi A x B hs hx
    obtain ⟨rfl, rfl⟩ : A = [] ∧ B = [] := by cases A <;> simp_all
    rfl
  · intro A x B hs
    simp at hs
  · intro uid a
    simp

section Exec
variable {s : SkipList} {L : List Addr} {fuel : ℕ} {op : Op}

/-- One operation: it ends, keeps the invariant, and stores what its history says. -/
theorem exec_spec (h : Rep s L) (hop : op.Allowed s) :
    Fuelled (L.length + kSkipListMaxLevel < fuel) (s.exec fuel op) fun r =>
      ∃ L', Rep r.1 L' ∧ SameKind s r.1 ∧ ∀ c : UInt64 → Option Uaks,
        (∀ u, u ∈ keys s L ↔ c u.uid = some u) →
          ∀ u, u ∈ keys r.1 L' ↔ op.apply u.uid (c u.uid) = some u := by
  cases op with
  | update lv x uaks =>
    obtain ⟨hlv, hlv', hx⟩ := hop
    refine (update_spec h hlv hlv' hx).weaken ?_
    rintro r ⟨L', hr, hk, hkeys⟩
    refine ⟨L', hr, hk, fun c hc u => ?_⟩
    rw [hkeys, hc]
    by_cases hu : uaks.uid = u.uid
    · rw [Op.apply, if_pos hu]
      simp [hu, eq_comm]
    · have hne : u ≠ uaks := fun he => hu (he ▸ rfl)
      simp [Op.apply, hu, hne, Ne.symm hu]
  | delete uid =>
    refine (delete_spec h).weaken ?_
    rintro r ⟨L', hr, hk, -, hkeys⟩
    refine ⟨L', hr, hk, fun c hc u => ?_⟩
    rw [hkeys, hc]
    by_cases hu : uid = u.uid
    · simp [Op.apply, hu]
    · simp [Op.apply, hu, Ne.symm hu]

end Exec

/-- Every trace of one list represents the sorted list of its contents. -/
theorem traces_rep {type : UInt16} {ops : List Op} {s : SkipList}
    (h : Traces (listSystem type) ops s) : ∃ L, Rep s L ∧ s.type = type ∧
      getSizeByRankKeyType (getRankKeyType type) = some s.uaksSize ∧
      ∀ u, u ∈ keys s L ↔ contents ops u.uid = some u := by
  refine h.induction (I := fun ops s => ∃ L, Rep s L ∧ s.type = type ∧
    getSizeByRankKeyType (getRankKeyType type) = some s.uaksSize ∧
      ∀ u, u ∈ keys s L ↔ contents ops u.uid = some u) ?_ ?_
  · rintro s ⟨header, hs⟩
    obtain ⟨hrep, htype, hsize⟩ := new_rep hs
    exact ⟨[], hrep, htype, hsize, by simp [keys, contents]⟩
  · rintro ops s op t ⟨L, hs, htype, hsize, hkeys⟩ ⟨hop, fuel, b, hex⟩
    obtain ⟨L', ht, hk, hkeys'⟩ := (exec_spec hs hop).1 _ hex
    refine ⟨L', ht, hk.type.trans htype, by rw [hsize, ← hk.uaksSize], fun u => ?_⟩
    rw [contents_snoc]
    exact hkeys' (contents ops) hkeys u

end TyphoonZero.Rank
