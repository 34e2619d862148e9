import TyphoonZero.SkipListRun

/-! The ranking hub over its skip lists, and the shape every list keeps. -/
namespace TyphoonZero.Rank
open Tower Loop Transition

/-- The forward pointers of level `i` lead from `a` through exactly the given nodes. -/
def ForwardChain (m : Heap) (i : ℕ) (a : Addr) : List Addr → Prop
  | [] => m.getForward a i = none
  | b :: l => m.getForward a i = some b ∧ ForwardChain m i b l

/-- The span at `x` against the nodes `B` that follow it on level 0. -/
def SpanExact (m : Heap) (i : ℕ) (x : Addr) (B : List Addr) : Prop :=
  match m.getForward x i with
  | none => (m.getSpan x i).toNat = B.length
  | some y => ∃ C D, B = C ++ y :: D ∧ (m.getSpan x i).toNat = C.length + 1

/-- The skip list `s` is well formed over its level-0 nodes `L`. -/
structure WellFormed (s : SkipList) (L : List Addr) : Prop where
  distinct : (s.header :: L).Nodup
  chain : ForwardChain s.nodes 0 s.header L
  sorted : L.Pairwise fun a b => s.compUaks (s.nodes a).uaks (s.nodes b).uaks = true
  uids_once : (L.map fun a => (s.nodes a).getUid).Nodup
  uids : ∀ uid, uid ∈ s.uidUmap.keys ↔ uid ∈ L.map fun a => (s.nodes a).getUid
  levels : ∀ i < s.level, ForwardChain s.nodes i s.header (L.filter fun a => i < (s.nodes a).height)
  spans : ∀ i < s.level, ∀ A x B, s.header :: L = A ++ x :: B → i < (s.nodes x).height →
    SpanExact s.nodes i x B
  backward : ∀ A x B, L = A ++ x :: B → (s.nodes x).backward = A.getLast?
  tail : s.tail = L.getLast?
  length : s.length.toNat = L.length
  umap_size : s.uidUmap.keys.length = L.length

section WellFormed
variable {s : SkipList} {L : List Addr}

lemma Levels.forwardChain {m : Heap} {n i : ℕ} {F : List Addr} (h : Levels m n F) (hi : i < n)
    (B : List Addr) : ∀ A x, F = A ++ x :: B → m.tall i x = true →
      ForwardChain m i x (B.filter (m.tall i)) := by
  induction hk : B.length using Nat.strong_induction_on generalizing B with
  | _ k ih =>
    intro A x hs hx
    have hl := h i hi A x B hs hx
    cases hf : B.find? (m.tall i) with
    | none =>
      have hnil : B.filter (m.tall i) = [] := by
        rw [List.filter_eq_nil_iff]
        exact List.find?_eq_none.mp hf
      rw [hnil, ForwardChain, Heap.getForward, hl, hf]
    | some y =>
      obtain ⟨C, D, rfl, hy, hC, -⟩ := exists_of_find?_eq_some hf
      have hfilter : (C ++ y :: D).filter (m.tall i) = y :: D.filter (m.tall i) := by
        have hnil : C.filter (m.tall i) = [] := by
          rw [List.filter_eq_nil_iff]
          exact fun c hc => Bool.eq_false_iff.mp (hC c hc)
        rw [List.filter_append, hnil, List.filter_cons, if_pos hy, List.nil_append]
      rw [hfilter]
      refine ⟨by rw [Heap.getForward, hl, hf], ?_⟩
      refine ih D.length ?_ D rfl (A ++ x :: C) y (by simp [hs]) hy
      simp only [← hk, List.length_append, List.length_cons]
      omega

theorem Rep.wellFormed (h : Rep s L) : WellFormed s L := by
  have htall : ∀ i < s.level, s.nodes.tall i s.header = true := by
    intro i hi
    rw [tall_eq_true, h.header_height]
    exact hi.trans_le h.level_le
  have hchain : ∀ i < s.level, ForwardChain s.nodes i s.header (L.filter (s.nodes.tall i)) :=
    fun i hi => h.levels.forwardChain hi L [] s.header rfl (htall i hi)
  have hall : L.filter (s.nodes.tall 0) = L := by
    rw [List.filter_eq_self]
    exact fun a ha => tall_eq_true.mpr (h.heights a ha).1
  have honce : (L.map fun a => (s.nodes a).getUid).Nodup := by
    refine List.Nodup.map_on (fun a ha b hb hab => ?_) h.nodup.of_cons
    exact h.uid_inj ha hb hab
  have huids : ∀ uid, uid ∈ s.uidUmap.keys ↔ uid ∈ L.map fun a => (s.nodes a).getUid := by
    intro uid
    rw [← AList.mem_keys, ← AList.lookup_isSome, Option.isSome_iff_exists, List.mem_map]
    exact exists_congr fun a => h.umap uid a
  refine ⟨h.nodup, ?_, h.sorted, honce, huids, hchain, ?_, h.backward, h.tail, ?_, ?_⟩
  · have h0 := hchain 0 h.level_pos
    rwa [hall] at h0
  · intro i hi A x B hs hx
    have hl := h.levels i hi A x B hs (tall_eq_true.mpr hx)
    have hB : B.length ≤ L.length := by
      have hlen := congrArg List.length hs
      simp only [List.length_cons, List.length_append] at hlen
      omega
    unfold SpanExact
    rw [Heap.getForward, Heap.getSpan, hl]
    dsimp only
    have hreach := h.shape.toNat_ofNat (n := reach (s.nodes.tall i) B)
      ((reach_le_length.trans hB).trans (Nat.le_succ _))
    split
    next hf =>
      rw [hreach]
      exact reach_eq_length fun b hb => Bool.eq_false_iff.mpr (List.find?_eq_none.mp hf b hb)
    next y hf =>
      obtain ⟨C, D, hBC, -, -, hr⟩ := exists_of_find?_eq_some hf
      exact ⟨C, D, hBC, by rw [hreach, hr]⟩
  · rw [h.length, h.shape.toNat_ofNat (Nat.le_succ _)]
  · have hperm : s.uidUmap.keys.Perm (L.map fun a => (s.nodes a).getUid) :=
      (List.perm_ext_iff_of_nodup s.uidUmap.keys_nodup honce).mpr huids
    rw [hperm.length_eq, List.length_map]

end WellFormed

structure RankHub where
  ranks : RankType → SkipList

namespace RankHub

/-- `Init` makes one list for every ranking type; its assertions hold. -/
def Init (hub : RankHub) : Prop :=
  ∀ type, ∃ header, new (transformRankType type) header = some (hub.ranks type)

def setRank (hub : RankHub) (type : RankType) (r : SkipList × Bool) : RankHub × Bool :=
  (⟨Function.update hub.ranks type r.1⟩, r.2)

def makeUaks (size : ℕ) (uid score p1 p2 : UInt64) : Uaks :=
  let uaks := ((List.replicate size 0).set 0 uid).set 1 score
  let uaks := if size > 2 then uaks.set 2 p1 else uaks
  if size > 3 then uaks.set 3 p2 else uaks

/-- `none` also stands for the assertion on the number of keys. -/
def updateRank (hub : RankHub) (fuel lv : ℕ) (x : Addr) (type : RankType)
    (uid score p1 p2 : UInt64) : Option (RankHub × Bool) :=
  let rank := hub.ranks type
  if rank.uaksSize > 1 then
    (rank.update fuel lv x (makeUaks rank.uaksSize uid score p1 p2)).map (hub.setRank type)
  else none

def removeRank (hub : RankHub) (fuel : ℕ) (type : RankType) (uid : UInt64) :
    Option (RankHub × Bool) :=
  ((hub.ranks type).delete fuel uid).map (hub.setRank type)

end RankHub

inductive HubOp
  | updateRank (lv : ℕ) (x : Addr) (type : RankType) (uid score p1 p2 : UInt64)
  | removeRank (type : RankType) (uid : UInt64)

def HubOp.Allowed (hub : RankHub) : HubOp → Prop
  | .updateRank lv x type uid _ _ _ =>
    1 ≤ lv ∧ lv ≤ kSkipListMaxLevel ∧ (hub.ranks type).Fresh uid x
  | .removeRank _ _ => True

def RankHub.exec (hub : RankHub) (fuel : ℕ) : HubOp → Option (RankHub × Bool)
  | .updateRank lv x type uid score p1 p2 => hub.updateRank fuel lv x type uid score p1 p2
  | .removeRank type uid => hub.removeRank fuel type uid

def hubSystem : System RankHub HubOp where
  init hub := hub.Init
  step hub op hub' := op.Allowed hub ∧ ∃ fuel b, hub.exec fuel op = some (hub', b)

lemma makeUaks_uid {n : ℕ} (hn : 0 < n) (uid score p1 p2 : UInt64) :
    (RankHub.makeUaks n uid score p1 p2).uid = uid := by
  unfold RankHub.makeUaks
  dsimp only
  split_ifs <;> simp [Uaks.uid, Uaks.at, List.getD_eq_getElem?_getD, hn]

/-- The operation of the hub as one on the list of the given type, when it concerns it. -/
def HubOp.onRank (size : ℕ) : HubOp → RankType × Op
  | .updateRank lv x type uid score p1 p2 =>
    (type, .update lv x (RankHub.makeUaks size uid score p1 p2))
  | .removeRank type uid => (type, .delete uid)

lemma HubOp.allowed_onRank {hub : RankHub} {op : HubOp} {size : ℕ} (hs : 0 < size)
    (h : op.Allowed hub) : (op.onRank size).2.Allowed (hub.ranks (op.onRank size).1) := by
  cases op with
  | updateRank lv x type uid score p1 p2 =>
    obtain ⟨h1, h2, h3⟩ := h
    refine ⟨h1, h2, ?_⟩
    rwa [makeUaks_uid hs]
  | removeRank type uid => trivial

lemma RankHub.exec_eq {hub : RankHub} {fuel : ℕ} {op : HubOp} {k : ℕ}
    (hs : (hub.ranks (op.onRank k).1).uaksSize = k) (hk : 1 < k) :
    hub.exec fuel op =
      ((hub.ranks (op.onRank k).1).exec fuel (op.onRank k).2).map
        (hub.setRank (op.onRank k).1) := by
  cases op with
  | updateRank lv x type uid score p1 p2 =>
    dsimp only [HubOp.onRank] at hs
    simp only [RankHub.exec, RankHub.updateRank, HubOp.onRank, SkipList.exec, hs, gt_iff_lt, hk,
      if_true]
  | removeRank type uid => rfl

lemma onRank_fst (op : HubOp) (n k : ℕ) : (op.onRank n).1 = (op.onRank k).1 := by
  cases op <;> rfl

/-- The number of keys of the lists of a type. -/
def RankType.size (type : RankType) : ℕ := (getSizeByRankKeyType (getRankKeyType (transformRankType type))).getD 0

/-- What an operation of the hub does to the list of a type. -/
def HubOp.onList (type : RankType) (op : HubOp) : Option Op :=
  if (op.onRank type.size).1 = type then some (op.onRank type.size).2 else none

def rankOps (type : RankType) (ops : List HubOp) : List Op := ops.filterMap (HubOp.onList type)

lemma RankType.one_lt_size (type : RankType) : 1 < type.size := by
  cases type <;> decide

/-- A run of the hub is a run of each of its lists. -/
theorem hub_trace_rank {hub : RankHub} {ops : List HubOp} (h : Traces hubSystem ops hub) (type : RankType) :
    Traces (listSystem (transformRankType type)) (rankOps type ops) (hub.ranks type) := by
  revert type
  refine h.induction (I := fun ops hub => ∀ type,
    Traces (listSystem (transformRankType type)) (rankOps type ops) (hub.ranks type)) ?_ ?_
  · intro hub hi type
    exact .nil (hi type)
  · rintro ops hub op hub' ih ⟨hop, fuel, b, hex⟩ type
    obtain ⟨L, hL, -, hsize, -⟩ := traces_rep (ih (op.onRank 0).1)
    have hk : (hub.ranks (op.onRank 0).1).uaksSize = (op.onRank 0).1.size := by
      rw [RankType.size, hsize]
      rfl
    have hlt := (op.onRank 0).1.one_lt_size
    set size := (op.onRank 0).1.size with hsz
    rw [RankHub.exec_eq (k := size) (by rw [onRank_fst op size 0, hk]) hlt] at hex
    obtain ⟨r, hr, hset⟩ := Option.map_eq_some_iff.mp hex
    have hhub : hub' = (hub.setRank (op.onRank size).1 r).1 := by rw [hset]
    rw [rankOps, List.filterMap_append]
    by_cases ht : type = (op.onRank size).1
    · have hsame : type.size = size := by rw [ht, onRank_fst op size 0]
      have hon : op.onList type = some (op.onRank size).2 := by
        rw [HubOp.onList, hsame, if_pos ht.symm]
      rw [List.filterMap_cons_some hon]
      subst ht
      refine (ih _).snoc (l := (op.onRank size).2) ⟨HubOp.allowed_onRank (by omega) hop, fuel, r.2, ?_⟩
      rw [hr, hhub]
      simp [RankHub.setRank]
    · have hon : op.onList type = none := by
        rw [HubOp.onList, if_neg]
        rw [onRank_fst op type.size size]
        exact Ne.symm ht
      rw [List.filterMap_cons_none hon, List.filterMap_nil, List.append_nil, hhub]
      simpa [RankHub.setRank, Function.update, ht, rankOps] using ih type

lemma hub_reachable_rank {hub : RankHub} (h : Reachable hubSystem hub) (type : RankType) :
    Reachable (listSystem (transformRankType type)) (hub.ranks type) := by
  obtain ⟨ops, hops⟩ := h
  exact ⟨_, hub_trace_rank hops type⟩

/-- After every run of the hub each of its lists is well formed, and every
further operation ends. -/
theorem rankHub_wellFormed {hub : RankHub} (h : Reachable hubSystem hub) :
    (∀ type, ∃ L, WellFormed (hub.ranks type) L) ∧
      ∀ op : HubOp, op.Allowed hub → ∃ n, ∀ fuel, n < fuel → ∃ r, hub.exec fuel op = some r := by
  constructor
  · intro type
    obtain ⟨ops, hops⟩ := hub_reachable_rank h type
    obtain ⟨L, hL, -⟩ := traces_rep hops
    exact ⟨L, hL.wellFormed⟩
  · intro op hop
    obtain ⟨ops, hops⟩ := hub_reachable_rank h (op.onRank 0).1
    obtain ⟨L, hL, -, hsize, -⟩ := traces_rep hops
    set size := (hub.ranks (op.onRank 0).1).uaksSize with hsz
    obtain ⟨n, hn, hn2, -⟩ := getSizeByRankKeyType_transformRankType (op.onRank 0).1
    have hlt : 1 < size := by
      rw [hsize, Option.some.injEq] at hn
      omega
    refine ⟨L.length + kSkipListMaxLevel, fun fuel hf => ?_⟩
    rw [onRank_fst op 0 size] at hL
    obtain ⟨r, hr⟩ := (exec_spec hL (HubOp.allowed_onRank (by omega) hop)).2 hf
    exact ⟨_, by rw [RankHub.exec_eq (k := size) (by rw [onRank_fst op size 0]) hlt, hr]; rfl⟩

/-- The hub after `Init`, with the given header nodes. -/
def RankHub.create (headers : RankType → Addr) : RankHub where
  ranks type := (new (transformRankType type) (headers type)).get (by
    obtain ⟨n, hn, -⟩ := getSizeByRankKeyType_transformRankType type
    simp [new, hn])

lemma RankHub.create_init (headers : RankType → Addr) : (RankHub.create headers).Init :=
  fun type => ⟨headers type, by simp [RankHub.create]⟩

theorem rankHub_wellFormed_two_updates :
    ∃ hub fuel r, Reachable hubSystem hub ∧ (hub.ranks .sdp1a).uidUmap = AList.insert 7 ⟨2, by decide⟩ ∅ ∧
      hub.exec fuel (.updateRank 1 ⟨3, by decide⟩ .sdp1a 8 50 0 0) = some r ∧
      ∀ type, ∃ L, WellFormed (r.1.ranks type) L := by
  set hub := RankHub.create fun _ => ⟨1, by decide⟩ with hhub
  have h0 : Reachable hubSystem hub := .init (RankHub.create_init _)
  have hop : HubOp.Allowed hub (.updateRank 3 ⟨2, by decide⟩ .sdp1a 7 100 5 0) := by
    refine ⟨by decide, by decide, ?_, fun u _ => nofun⟩
    exact fun h => absurd (congrArg Subtype.val h) (by decide)
  obtain ⟨r, hr, humap, hheader⟩ : ∃ r, hub.exec 40 (.updateRank 3 ⟨2, by decide⟩ .sdp1a 7 100 5 0) = some r ∧
      (r.1.ranks .sdp1a).uidUmap = AList.insert 7 ⟨2, by decide⟩ ∅ ∧ (r.1.ranks .sdp1a).header = ⟨1, by decide⟩ :=
    ⟨_, rfl, rfl, rfl⟩
  have h1 : Reachable hubSystem r.1 := h0.step ⟨hop, 40, r.2, hr⟩
  have hop' : HubOp.Allowed r.1 (.updateRank 1 ⟨3, by decide⟩ .sdp1a 8 50 0 0) := by
    refine ⟨le_rfl, by decide, ?_, fun u _ hu => ?_⟩
    · rw [hheader]
      decide
    · rw [humap] at hu
      by_cases h7 : u = 7
      · rw [h7, AList.lookup_insert] at hu
        revert hu
        decide
      · rw [AList.lookup_insert_ne h7] at hu
        cases hu
  obtain ⟨n, hn⟩ := (rankHub_wellFormed h1).2 _ hop'
  obtain ⟨r', hr'⟩ := hn (n + 1) (Nat.lt_succ_self n)
  exact ⟨r.1, n + 1, r', h1, humap, hr', (rankHub_wellFormed (h1.step ⟨hop', n + 1, r'.2, hr'⟩)).1⟩

end TyphoonZero.Rank
