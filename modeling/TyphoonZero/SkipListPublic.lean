import TyphoonZero.RankHub

/-! Runs of the whole public interface of one skip list: a uid may be inserted again
although it is present. -/
namespace TyphoonZero.Rank
open Tower Loop Transition

/-- The nodes that the level-0 pointers lead to, and the header. -/
inductive Linked (s : SkipList) : Addr → Prop
  | header : Linked s s.header
  | next {a b : Addr} : Linked s a → s.nodes.getForward a 0 = some b → Linked s b

/-- The list when uids may be repeated: the table leads to the newest node of a uid, which
stands before all nodes with the same keys. -/
structure Bag (s : SkipList) (L : List Addr) : Prop where
  shape : Shape s L
  sorted : L.Pairwise fun a b => s.compUaks (s.nodes b).uaks (s.nodes a).uaks = false
  entered : ∀ uid a, s.uidUmap.lookup uid = some a → a ∈ L ∧ (s.nodes a).getUid = uid
  newest : L.Pairwise fun b a => s.uidUmap.lookup (s.nodes a).getUid = some a →
    s.compUaks (s.nodes b).uaks (s.nodes a).uaks = true

section Shape
variable {s : SkipList} {L : List Addr}

lemma Shape.forward_zero (h : Shape s L) {A B : List Addr} {x : Addr} (hs : s.header :: L = A ++ x :: B) :
    s.nodes.getForward x 0 = B.head? := by
  have htall : ∀ a ∈ s.header :: L, s.nodes.tall 0 a = true := by
    intro a ha
    rw [tall_eq_true]
    rcases List.mem_cons.mp ha with rfl | ha
    · rw [h.header_height]
      decide
    · exact (h.heights a ha).1
  rw [Heap.getForward, h.levels 0 h.level_pos A x B hs (htall x (by simp [hs]))]
  exact find?_eq_head? fun b hb => htall b (by simp [hs, hb])

lemma Shape.linked (h : Shape s L) {a : Addr} (ha : a ∈ s.header :: L) : Linked s a := by
  obtain ⟨A, B, hs⟩ := List.append_of_mem ha
  clear ha
  induction A using List.reverseRecOn generalizing a B with
  | nil =>
    simp only [List.nil_append, List.cons.injEq] at hs
    rw [← hs.1]
    exact .header
  | append_singleton A b ih =>
    have hs' : s.header :: L = A ++ b :: (a :: B) := by simp [hs]
    exact .next (ih _ hs') (h.forward_zero hs')

lemma Linked.mem {a : Addr} (ha : Linked s a) (h : Shape s L) : a ∈ s.header :: L := by
  induction ha with
  | header => exact List.mem_cons_self
  | next _ hb ih =>
    obtain ⟨A, B, hs⟩ := List.append_of_mem ih
    rw [h.forward_zero hs] at hb
    rw [hs]
    exact List.mem_append_right A (List.mem_cons_of_mem _ (List.mem_of_head? hb))

lemma Shape.chain (h : Shape s L) : ForwardChain s.nodes 0 s.header L := by
  have hchain : ∀ A x, s.header :: L = A ++ x :: L.drop A.length →
      ForwardChain s.nodes 0 x (L.drop A.length) := by
    intro A x hs
    induction hd : L.drop A.length generalizing A x with
    | nil =>
      rw [ForwardChain, h.forward_zero hs, hd]
      rfl
    | cons b B ih =>
      refine ⟨by rw [h.forward_zero hs, hd]; rfl, ?_⟩
      have hB : L.drop (A ++ [x]).length = B := by
        rw [List.length_append, List.length_singleton, ← List.drop_drop, hd, List.drop_one, List.tail_cons]
      have hs' : s.header :: L = (A ++ [x]) ++ b :: L.drop (A ++ [x]).length := by
        rw [hB, hs, hd]
        simp
      have := ih (A ++ [x]) b hs' hB
      exact this
  exact hchain [] s.header rfl

end Shape

lemma ForwardChain.unique {m : Heap} {i : ℕ} {a : Addr} {L L' : List Addr} (h : ForwardChain m i a L)
    (h' : ForwardChain m i a L') : L = L' := by
  induction L generalizing a L' with
  | nil =>
    cases L' with
    | nil => rfl
    | cons b L' =>
      have hb := h'.1
      rw [ForwardChain] at h
      rw [h] at hb
      cases hb
  | cons b L ih =>
    cases L' with
    | nil =>
      have hb := h.1
      rw [ForwardChain] at h'
      rw [h'] at hb
      cases hb
    | cons c L' =>
      have hbc : b = c := Option.some.inj (h.1.symm.trans h'.1)
      rw [hbc] at h ⊢
      rw [ih h.2 h'.2]

section Bag
variable {s : SkipList} {L : List Addr} {fuel lv : ℕ} {x : Addr} {uaks : Uaks} {uid : UInt64}

lemma Rep.bag (h : Rep s L) : Bag s L := by
  refine ⟨h.shape, h.sorted.imp fun hab => compUaks_asymm hab, fun uid a => (h.umap uid a).mp, ?_⟩
  refine h.sorted.imp ?_
  intro b a hba _
  exact hba

/-- Every insertion adds a node, and the table forgets the node it had for the uid. -/
theorem Bag.insert (h : Bag s L) (hlv : 1 ≤ lv) (hlv' : lv ≤ kSkipListMaxLevel) (hx : x ∉ s.header :: L) :
    Fuelled (L.length + kSkipListMaxLevel < fuel) (s.insert fuel lv x uaks) fun t =>
      ∃ L', Bag t L' ∧ SameKind s t ∧ t.uidUmap = s.uidUmap.insert uaks.uid x ∧
        L'.length = L.length + 1 := by
  obtain ⟨F, G, rfl, hF, hG⟩ := exists_cut h.sorted uaks
  refine ((search_spec h.shape hF hG).enough fun hf => ?_).bind fun p hp => ?_
  · exact lt_of_le_of_lt (Nat.add_le_add_left (by decide) _) hf
  obtain ⟨hshape, hk, humap, hins⟩ := @insertAt_shape s F G p lv x uaks h.shape hx hlv hlv' hp
  have hax : ∀ a ∈ F ++ G, a ≠ x := fun a ha he => hx (by simp [← he, ha])
  obtain ⟨huaks, hux⟩ := uaks_entered hx hins
  have hxnd := hshape.nodup.of_cons
  refine .some ⟨F ++ x :: G, ⟨hshape, ?_, ?_, ?_⟩, hk, humap, ?_⟩
  · rw [hk.compUaks]
    exact pairwise_entered (R := fun u v => s.compUaks v u = false) h.sorted huaks hux
      (fun a ha => compUaks_asymm (hF a ha)) hG
  · intro uid a ha
    rw [humap] at ha
    by_cases hu : uid = uaks.uid
    · rw [hu, AList.lookup_insert] at ha
      obtain rfl := Option.some.inj ha
      exact ⟨by simp, hu ▸ congrArg Uaks.uid hux⟩
    · rw [AList.lookup_insert_ne hu] at ha
      obtain ⟨haL, hau⟩ := h.entered uid a ha
      have hmem : a ∈ F ++ x :: G := by
        simp only [List.mem_append, List.mem_cons] at haL ⊢
        tauto
      exact ⟨hmem, (congrArg Uaks.uid (huaks a haL)).trans hau⟩
  · have huid : ∀ a ∈ F ++ G, ((s.insertAt lv x uaks p).nodes a).getUid = (s.nodes a).getUid :=
      fun a ha => congrArg Uaks.uid (huaks a ha)
    have hold : ∀ a ∈ F ++ G, (s.insertAt lv x uaks p).uidUmap.lookup (s.nodes a).getUid = some a →
        (s.nodes a).getUid ≠ uaks.uid ∧ s.uidUmap.lookup (s.nodes a).getUid = some a := by
      intro a ha hl
      rw [humap] at hl
      by_cases hu : (s.nodes a).getUid = uaks.uid
      · rw [hu, AList.lookup_insert] at hl
        exact absurd (Option.some.inj hl).symm (hax a ha)
      · rw [AList.lookup_insert_ne hu] at hl
        exact ⟨hu, hl⟩
    rw [hk.compUaks]
    refine pairwise_insert (h.newest.imp_of_mem fun {b a} hb ha hba hl => ?_) (fun b hb _ => ?_)
      fun a ha hl => ?_
    · rw [huid a ha] at hl
      rw [huaks a ha, huaks b hb]
      exact hba (hold a ha hl).2
    · rw [huaks b (by simp [hb]), hux]
      exact hF b hb
    · rw [huid a (by simp [ha])] at hl
      rw [huaks a (by simp [ha]), hux]
      obtain hc | hc := compUaks_or_of_uid_ne (hold a (by simp [ha]) hl).1
      · exact absurd hc (Bool.eq_false_iff.mp (hG a ha))
      · exact hc
  · simp only [List.length_append, List.length_cons]
    omega

theorem Bag.delete (h : Bag s L) :
    Fuelled (L.length + kSkipListMaxLevel < fuel) (s.delete fuel uid) fun r =>
      ∃ L', Bag r.1 L' ∧ SameKind s r.1 ∧ ∀ a, a ∈ L' ↔ a ∈ L ∧ s.uidUmap.lookup uid ≠ some a := by
  unfold SkipList.delete
  cases hn : s.getNodeByUid uid with
  | none =>
    have hnone : s.uidUmap.lookup uid = none := hn
    exact .some ⟨L, h, ⟨rfl, rfl, rfl⟩, fun a => by simp [hnone]⟩
  | some x =>
    have hlookup : s.uidUmap.lookup uid = some x := hn
    obtain ⟨hx, hxu⟩ := h.entered uid x hn
    obtain ⟨F, G, rfl⟩ := List.append_of_mem hx
    obtain ⟨-, hxG, -⟩ := List.pairwise_append.mp h.sorted
    have hF : ∀ a ∈ F, s.compUaks (s.nodes a).uaks (s.nodes x).uaks = true := by
      intro a ha
      exact (List.pairwise_append.mp h.newest).2.2 a ha x List.mem_cons_self (hxu ▸ hlookup)
    have hG : ∀ a ∈ x :: G, s.compUaks (s.nodes a).uaks (s.nodes x).uaks = false := by
      intro a ha
      rcases List.mem_cons.mp ha with rfl | ha
      · exact compUaks_irrefl
      · exact (List.pairwise_cons.mp hxG).1 a ha
    have hnd := h.shape.nodup.of_cons
    have hmem := mem_unlinked hnd
    have hspec : Fuelled ((F ++ x :: G).length + kSkipListMaxLevel < fuel) (s.deleteNode fuel x) _ :=
      ((search_spec h.shape hF hG).enough fun hf => lt_of_le_of_lt (Nat.add_le_add_left (by decide) _) hf).bind
        fun p hp => (deleteAt_spec h.shape hp).enough fun hf => by omega
    refine hspec.map fun t ht => ?_
    obtain ⟨hshape, hk, humap, hu⟩ := ht
    have hau : ∀ b, (t.nodes b).getUid = (s.nodes b).getUid := fun b => congrArg Uaks.uid (hu b)
    have herase : ∀ uid' a, t.uidUmap.lookup uid' = some a → uid' ≠ uid ∧ s.uidUmap.lookup uid' = some a := by
      intro uid' a ha
      rw [humap, hxu] at ha
      by_cases hne : uid' = uid
      · rw [hne, AList.lookup_erase] at ha
        cases ha
      · rw [AList.lookup_erase_ne hne] at ha
        exact ⟨hne, ha⟩
    refine ⟨F ++ G, ⟨hshape, ?_, ?_, ?_⟩, hk, fun a => ?_⟩
    · rw [hk.compUaks]
      have hsub : (F ++ G).Pairwise _ := h.sorted.sublist (by simp)
      simpa only [hu] using hsub
    · intro uid' a ha
      obtain ⟨hne, ha⟩ := herase uid' a ha
      obtain ⟨haL, hau'⟩ := h.entered uid' a ha
      refine ⟨(hmem a).mpr ⟨haL, ?_⟩, (hau a).trans hau'⟩
      rintro rfl
      exact hne (hau'.symm.trans hxu)
    · have hsub : (F ++ G).Pairwise _ := h.newest.sublist (by simp)
      rw [hk.compUaks]
      refine hsub.imp fun {b a} hba hl => ?_
      rw [hau] at hl
      rw [hu, hu]
      exact hba (herase _ a hl).2
    · rw [hmem, hlookup]
      exact and_congr_right fun _ => ⟨fun hne he => hne (Option.some.inj he).symm, fun hne he => hne (he ▸ rfl)⟩

end Bag

inductive PublicOp
  | insert (lv : ℕ) (x : Addr) (uaks : Uaks)
  | update (lv : ℕ) (x : Addr) (uaks : Uaks)
  | delete (uid : UInt64)

/-- A new node is none that is still in use; `Update` has freed the one it deletes. -/
def PublicOp.Allowed (s : SkipList) : PublicOp → Prop
  | .insert lv x _ => 1 ≤ lv ∧ lv ≤ kSkipListMaxLevel ∧ ¬ Linked s x
  | .update lv x uaks => 1 ≤ lv ∧ lv ≤ kSkipListMaxLevel ∧
      (¬ Linked s x ∨ s.uidUmap.lookup uaks.uid = some x)
  | .delete _ => True

def SkipList.execPublic (s : SkipList) (fuel : ℕ) : PublicOp → Option (SkipList × Bool)
  | .insert lv x uaks => (s.insert fuel lv x uaks).map fun t => (t, true)
  | .update lv x uaks => s.update fuel lv x uaks
  | .delete uid => s.delete fuel uid

def publicSystem (type : UInt16) : System SkipList PublicOp where
  init s := ∃ header, new type header = some s
  step s op t := op.Allowed s ∧ ∃ fuel b, s.execPublic fuel op = some (t, b)

/-- An insertion brings a uid that is not in the table. -/
def NotPresent (s : SkipList) : PublicOp → Prop
  | .insert _ _ uaks => s.uidUmap.lookup uaks.uid = none
  | _ => True

/-- The equalities of `CheckLength` hold, and no two nodes carry the same uid. -/
def OneNode (s : SkipList) : Prop :=
  ∃ L, ForwardChain s.nodes 0 s.header L ∧ s.uidUmap.keys.length = s.length.toNat ∧
    L.length = s.uidUmap.keys.length ∧ (L.map fun a => (s.nodes a).getUid).Nodup

section Steps
variable {s t : SkipList} {L : List Addr} {fuel : ℕ} {op : PublicOp} {type : UInt16}

/-- Any operation of the interface keeps the list in shape. -/
theorem Bag.exec (h : Bag s L) (hop : op.Allowed s) :
    Fuelled (L.length + kSkipListMaxLevel < fuel) (s.execPublic fuel op) fun r =>
      ∃ L', Bag r.1 L' ∧ SameKind s r.1 := by
  cases op with
  | insert lv x uaks =>
    obtain ⟨hlv, hlv', hx⟩ := hop
    have hx' : x ∉ s.header :: L := fun hm => hx (h.shape.linked hm)
    refine (h.insert hlv hlv' hx').map fun t ht => ?_
    obtain ⟨L', ht, hk, -, -⟩ := ht
    exact ⟨L', ht, hk⟩
  | update lv x uaks =>
    obtain ⟨hlv, hlv', hx⟩ := hop
    refine h.delete.bind fun r hr => ?_
    obtain ⟨L₁, ht, hk, hmem⟩ := hr
    have hlen : L₁.length ≤ L.length := by
      apply (ht.shape.nodup.of_cons.subperm _).length_le
      intro a ha
      exact ((hmem a).mp ha).1
    have hx₁ : x ∉ r.1.header :: L₁ := by
      rw [hk.header, List.mem_cons, hmem]
      rcases hx with hx | hx
      · rintro (rfl | ⟨hxL, -⟩)
        · exact hx .header
        · exact hx (h.shape.linked (List.mem_cons_of_mem _ hxL))
      · rintro (rfl | ⟨-, hne⟩)
        · exact (List.nodup_cons.mp h.shape.nodup).1 (h.entered _ _ hx).1
        · exact hne hx
    refine ((ht.insert hlv hlv' hx₁).enough fun hf => by omega).bind fun u hu => ?_
    obtain ⟨L₂, hu, hk₂, -, -⟩ := hu
    exact .some ⟨L₂, hu, hk.trans hk₂⟩
  | delete uid =>
    refine h.delete.weaken fun r hr => ?_
    obtain ⟨L', ht, hk, -⟩ := hr
    exact ⟨L', ht, hk⟩

/-- With new uids only, each uid keeps its one node. -/
theorem Rep.exec (h : Rep s L) (hop : op.Allowed s) (hnew : NotPresent s op) :
    Fuelled (L.length + kSkipListMaxLevel < fuel) (s.execPublic fuel op) fun r => ∃ L', Rep r.1 L' := by
  cases op with
  | insert lv x uaks =>
    obtain ⟨hlv, hlv', hx⟩ := hop
    have hx' : x ∉ s.header :: L := fun hm => hx (h.shape.linked hm)
    have huid : ∀ u ∈ keys s L, u.uid ≠ uaks.uid := by
      intro u hu he
      obtain ⟨a, ha, rfl⟩ := mem_keys.mp hu
      have hl := (h.umap _ a).mpr ⟨ha, he⟩
      rw [NotPresent] at hnew
      rw [hnew] at hl
      cases hl
    refine (insert_spec h hlv hlv' hx' huid).map fun t ht => ?_
    obtain ⟨L', ht, -⟩ := ht
    exact ⟨L', ht⟩
  | update lv x uaks =>
    obtain ⟨hlv, hlv', hx⟩ := hop
    have hfresh : s.Fresh uaks.uid x := by
      rcases hx with hx | hx
      · refine ⟨fun he => hx (he ▸ .header), fun u _ hl => hx ?_⟩
        exact h.shape.linked (List.mem_cons_of_mem _ ((h.umap u x).mp hl).1)
      · obtain ⟨hxL, hxu⟩ := (h.umap _ x).mp hx
        refine ⟨?_, fun u hne hl => hne ?_⟩
        · rintro rfl
          exact (List.nodup_cons.mp h.nodup).1 hxL
        · exact ((h.umap u x).mp hl).2.symm.trans hxu
    refine (update_spec h hlv hlv' hfresh).weaken fun r hr => ?_
    obtain ⟨L', ht, -⟩ := hr
    exact ⟨L', ht⟩
  | delete uid =>
    refine (delete_spec h).weaken fun r hr => ?_
    obtain ⟨L', ht, -⟩ := hr
    exact ⟨L', ht⟩

lemma Rep.oneNode (h : Rep s L) : OneNode s := by
  have hw := h.wellFormed
  exact ⟨L, hw.chain, by rw [hw.length, hw.umap_size], hw.umap_size.symm, hw.uids_once⟩

/-- A repeated uid adds a node and no entry of the table. -/
lemma Rep.insert_present {lv : ℕ} {x : Addr} {uaks : Uaks} (h : Rep s L)
    (hop : PublicOp.Allowed s (.insert lv x uaks)) (hp : s.uidUmap.lookup uaks.uid ≠ none)
    (ht : s.insert fuel lv x uaks = some t) : ¬ OneNode t := by
  obtain ⟨hlv, hlv', hx⟩ := hop
  have hx' : x ∉ s.header :: L := fun hm => hx (h.shape.linked hm)
  obtain ⟨L', hbag, -, humap, hlen⟩ := (h.bag.insert hlv hlv' hx').1 _ ht
  obtain ⟨a, ha⟩ := Option.ne_none_iff_exists'.mp hp
  have hmem : uaks.uid ∈ s.uidUmap.keys := by
    rw [← AList.mem_keys, ← AList.lookup_isSome, ha]
    rfl
  have hpos := List.length_pos_of_mem hmem
  have hkeys : t.uidUmap.keys.length = L.length := by
    rw [humap, AList.keys_insert, List.length_cons, List.length_erase_of_mem hmem, ← h.wellFormed.umap_size]
    omega
  rintro ⟨-, -, hlength, -, -⟩
  rw [hkeys, hbag.shape.length, hbag.shape.toNat_ofNat (Nat.le_succ _), hlen] at hlength
  omega

theorem public_bag (h : Reachable (publicSystem type) s) : ∃ L, Bag s L ∧ s.type = type ∧
    getSizeByRankKeyType (getRankKeyType type) = some s.uaksSize := by
  refine h.invariant (I := fun s => ∃ L, Bag s L ∧ s.type = type ∧
    getSizeByRankKeyType (getRankKeyType type) = some s.uaksSize) ?_ ?_
  · rintro s ⟨header, hs⟩
    obtain ⟨hrep, htype, hsize⟩ := new_rep hs
    exact ⟨[], hrep.bag, htype, hsize⟩
  · rintro s op t ⟨L, hs, htype, hsize⟩ ⟨hop, fuel, b, hex⟩
    obtain ⟨L', ht, hk⟩ := (hs.exec hop).1 _ hex
    exact ⟨L', ht, hk.type.trans htype, by rw [hsize, ← hk.uaksSize]⟩

theorem public_rep (h : Reachable ((publicSystem type).restrict NotPresent) s) : ∃ L, Rep s L := by
  refine h.invariant (I := fun s => ∃ L, Rep s L) ?_ ?_
  · rintro s ⟨header, hs⟩
    exact ⟨[], (new_rep hs).1⟩
  · rintro s op t ⟨L, hs⟩ ⟨hnew, hop, fuel, b, hex⟩
    exact (hs.exec hop hnew).1 _ hex

/-- While no insertion repeats a uid that is present, every uid has one node after every
operation; the first insertion that does breaks this. -/
theorem one_node_per_uid (h : Reachable ((publicSystem type).restrict NotPresent) s) :
    OneNode s ∧ ∀ op t, (publicSystem type).step s op t → (OneNode t ↔ NotPresent s op) := by
  obtain ⟨L, hL⟩ := public_rep h
  refine ⟨hL.oneNode, fun op t hstep => ⟨fun hone => ?_, fun hnew => ?_⟩⟩
  · obtain ⟨hop, fuel, b, hex⟩ := hstep
    cases op with
    | insert lv x uaks =>
      obtain ⟨t', ht', heq⟩ := Option.map_eq_some_iff.mp hex
      obtain ⟨rfl, -⟩ := Prod.mk.inj heq
      by_contra hp
      exact hL.insert_present hop hp ht' hone
    | update lv x uaks => trivial
    | delete uid => trivial
  · obtain ⟨L', hL'⟩ := public_rep (h.step ⟨hnew, hstep⟩)
    exact hL'.oneNode

end Steps

section Repeated

/-- Player 7 is the first one inserted into a list by ascending score. -/
lemma first_player : ∃ s, Reachable ((publicSystem 0x0001).restrict NotPresent) s ∧
    s.uidUmap.lookup 7 = some ⟨2, by decide⟩ ∧ ¬ Linked s ⟨3, by decide⟩ := by
  obtain ⟨s, hs⟩ : ∃ s, new 0x0001 ⟨1, by decide⟩ = some s := ⟨_, rfl⟩
  have hinit : Reachable ((publicSystem 0x0001).restrict NotPresent) s := .init ⟨_, hs⟩
  have hrep := (new_rep hs).1
  obtain ⟨hheader, humap⟩ : s.header = ⟨1, by decide⟩ ∧ s.uidUmap = ∅ := by
    cases hs
    exact ⟨rfl, rfl⟩
  have hx : ⟨2, by decide⟩ ∉ s.header :: [] := by
    rw [hheader]
    decide
  obtain ⟨t, ht, L, hL, hk, hmap, -⟩ :=
    (@Bag.insert s [] (kSkipListMaxLevel + 1) 1 ⟨2, by decide⟩ [7, 100] hrep.bag le_rfl (by decide) hx).eq_some
      (by decide)
  have hstep : ((publicSystem 0x0001).restrict NotPresent).step s (.insert 1 ⟨2, by decide⟩ [7, 100]) t := by
    have hexec : s.execPublic (kSkipListMaxLevel + 1) (.insert 1 ⟨2, by decide⟩ [7, 100]) = some (t, true) := by
      rw [SkipList.execPublic, ht]
      rfl
    exact ⟨by rw [NotPresent, humap]; rfl, ⟨le_rfl, by decide, fun hl => hx (hl.mem hrep.shape)⟩, _, true, hexec⟩
  refine ⟨t, hinit.step hstep, ?_, fun hl => ?_⟩
  · rw [hmap]
    exact AList.lookup_insert _
  · obtain ⟨L', hL'⟩ := public_rep (hinit.step hstep)
    have hmem := hl.mem hL'.shape
    rw [hk.header, hheader] at hmem
    have hmem' := (List.mem_cons.mp hmem).resolve_left (by decide)
    have hlookup := (hL'.umap _ _).mpr ⟨hmem', rfl⟩
    rw [hmap, humap] at hlookup
    by_cases hu : (t.nodes ⟨3, by decide⟩).getUid = Uaks.uid [7, 100]
    · rw [hu, AList.lookup_insert] at hlookup
      revert hlookup
      decide
    · rw [AList.lookup_insert_ne hu] at hlookup
      cases hlookup

theorem one_node_per_uid_insert : ∃ s, Reachable ((publicSystem 0x0001).restrict NotPresent) s ∧
    s.uidUmap.lookup 7 = some ⟨2, by decide⟩ ∧ OneNode s := by
  obtain ⟨s, hs, hlookup, -⟩ := first_player
  exact ⟨s, hs, hlookup, (one_node_per_uid hs).1⟩

/-- The player is inserted again with a second score. -/
theorem repeated_uid_two_nodes : ∃ s op t, Reachable (publicSystem 0x0001) s ∧
    op = PublicOp.insert 1 ⟨3, by decide⟩ [7, 200] ∧ (publicSystem 0x0001).step s op t ∧ ¬ OneNode t := by
  obtain ⟨s, hs, hlookup, hlinked⟩ := first_player
  obtain ⟨L, hL⟩ := public_rep hs
  have hop : PublicOp.Allowed s (.insert 1 ⟨3, by decide⟩ [7, 200]) := ⟨le_rfl, by decide, hlinked⟩
  obtain ⟨r, hr, -⟩ := (hL.bag.exec hop).eq_some (Nat.lt_succ_self _)
  obtain ⟨t, ht, -⟩ := Option.map_eq_some_iff.mp hr
  have hpresent : s.uidUmap.lookup (Uaks.uid [7, 200]) ≠ none := by
    change s.uidUmap.lookup 7 ≠ none
    rw [hlookup]
    exact Option.some_ne_none _
  have hstep : (publicSystem 0x0001).step s (.insert 1 ⟨3, by decide⟩ [7, 200]) t := by
    have hexec : s.execPublic (L.length + kSkipListMaxLevel + 1) (.insert 1 ⟨3, by decide⟩ [7, 200]) =
        some (t, true) := by
      rw [SkipList.execPublic, ht]
      rfl
    exact ⟨hop, _, true, hexec⟩
  exact ⟨s, _, t, hs.of_restrict, rfl, hstep, hL.insert_present hop hpresent ht⟩

end Repeated

end TyphoonZero.Rank
