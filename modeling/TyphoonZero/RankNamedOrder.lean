import TyphoonZero.SkipListRange

/-! The order that a ranking type is named after, against the order of its lists. -/
namespace TyphoonZero.Rank
open Loop Transition

inductive Direction
  | asc | desc
  deriving DecidableEq, Repr

/-- The directions of score, p1 and p2 in the name of a type. The test type names none. -/
def RankType.named : RankType → Option (List Direction)
  | .test => none
  | .sa => some [.asc]
  | .sd => some [.desc]
  | .sap1a => some [.asc, .asc]
  | .sap1d => some [.asc, .desc]
  | .sdp1a => some [.desc, .asc]
  | .sdp1d => some [.desc, .desc]
  | .sap1ap2a => some [.asc, .asc, .asc]
  | .sap1ap2d => some [.asc, .asc, .desc]
  | .sap1dp2a => some [.asc, .desc, .asc]
  | .sap1dp2d => some [.asc, .desc, .desc]
  | .sdp1ap2a => some [.desc, .asc, .asc]
  | .sdp1ap2d => some [.desc, .asc, .desc]
  | .sdp1dp2a => some [.desc, .desc, .asc]
  | .sdp1dp2d => some [.desc, .desc, .desc]

def Direction.Before (d : Direction) (a b : UInt64) : Prop :=
  match d with
  | .asc => a < b
  | .desc => b < a

/-- The lexicographic order of the keys from index `i` on; the uids break ties. -/
def Precedes (u v : Uaks) : List Direction → ℕ → Prop
  | [], _ => u.uid < v.uid
  | d :: ds, i => d.Before (u.at i) (v.at i) ∨ u.at i = v.at i ∧ Precedes u v ds (i + 1)

/-- The directions that the order bits of a type stand for. -/
def directions (order : UInt8) : ℕ → UInt8 → List Direction
  | 0, _ => []
  | n + 1, mask => (if mask &&& order ≠ 0 then .desc else .asc) :: directions order n (mask <<< 1)

def RankType.coded (type : RankType) : List Direction :=
  directions (getRankKeyOrderType (transformRankType type)) (type.size - 1) 0x1

namespace RankHub
variable (hub : RankHub) (fuel : ℕ) (type : RankType) (rankStart rankEnd : UInt64)

def getRange := (hub.ranks type).getRange fuel rankStart rankEnd

def getRevRange := (hub.ranks type).getRevRange fuel rankStart rankEnd

end RankHub

/-- `K` holds the keys that the store `c` has, in the order that the type names; the range
queries answer from it and from its reverse. -/
structure ListsInOrder (hub : RankHub) (fuel : ℕ) (type : RankType) (c : UInt64 → Option Uaks)
    (K : List Uaks) : Prop where
  mem : ∀ u, u ∈ K ↔ c u.uid = some u
  order : ∀ ds, type.named = some ds → K.Pairwise fun u v => Precedes u v ds 1
  range : ∀ rankStart rankEnd, hub.getRange fuel type rankStart rankEnd =
    .ok (slice (K.map Uaks.uid) rankStart.toNat rankEnd.toNat)
  revRange : ∀ rankStart rankEnd, hub.getRevRange fuel type rankStart rankEnd =
    .ok (slice (K.map Uaks.uid).reverse rankStart.toNat rankEnd.toNat)

section Order
variable {order : UInt8} {n i : ℕ} {mask : UInt8} {u v : Uaks} {type : RankType}

lemma compUaksFrom_iff :
    compUaksFrom order u v n i mask = true ↔ Precedes u v (directions order n mask) i := by
  induction n generalizing i mask with
  | zero => simp [compUaksFrom, directions, Precedes, Uaks.uid]
  | succ n ih =>
    have htri := uint64_lt_trichotomy (u.at i) (v.at i)
    simp only [compUaksFrom, directions, Precedes, gt_iff_lt]
    split_ifs with hmask hlt hgt hlt hgt
    · simp [Direction.Before, hlt]
    · have hne : u.at i ≠ v.at i := fun he => UInt64.lt_irrefl _ (he ▸ hgt)
      simp [Direction.Before, hlt, hne]
    · have heq : u.at i = v.at i := by tauto
      simp [Direction.Before, ih, heq]
    · simp [Direction.Before, hlt]
    · have hne : u.at i ≠ v.at i := fun he => UInt64.lt_irrefl _ (he ▸ hgt)
      simp [Direction.Before, hlt, hne]
    · have heq : u.at i = v.at i := by tauto
      simp [Direction.Before, ih, heq]

lemma compUaks_iff : compUaks (transformRankType type) type.size u v = true ↔ Precedes u v type.coded 1 :=
  compUaksFrom_iff

/-- The bits of one type only do not stand for its name. -/
lemma coded_eq_named {ds : List Direction} (h : type.named = some ds) (hne : type ≠ .sdp1ap2a) :
    type.coded = ds := by
  cases type <;> cases h <;> first | rfl | exact absurd rfl hne

/-- The two orders of that type agree on keys that do not differ in p1 alone behind equal scores. -/
lemma precedes_named (h : Precedes u v [.desc, .desc, .asc] 1) (hp : u.at 1 = v.at 1 → u.at 2 = v.at 2) :
    Precedes u v [.desc, .asc, .asc] 1 := by
  obtain hs | ⟨hs, hrest⟩ := h
  · exact .inl hs
  · refine .inr ⟨hs, .inr ⟨hp hs, ?_⟩⟩
    obtain hlt | ⟨-, hrest⟩ := hrest
    · exact absurd hlt (by rw [hp hs]; exact UInt64.lt_irrefl _)
    · exact hrest

lemma precedes_both (h : Precedes u v [.desc, .desc, .asc] 1) (h' : Precedes u v [.desc, .asc, .asc] 1) :
    u.at 1 = v.at 1 → u.at 2 = v.at 2 := by
  intro hs
  have hirr : ¬ Direction.Before .desc (u.at 1) (v.at 1) := by
    rw [hs]
    exact UInt64.lt_irrefl _
  obtain ⟨-, hrest⟩ := h.resolve_left hirr
  obtain ⟨-, hrest'⟩ := h'.resolve_left hirr
  obtain hlt | ⟨heq, -⟩ := hrest
  · obtain hlt' | ⟨heq, -⟩ := hrest'
    · exact absurd (UInt64.lt_trans hlt hlt') (UInt64.lt_irrefl _)
    · exact heq
  · exact heq

/-- Keys of one store are known by their uids. -/
lemma keys_eq_of_uids {c : UInt64 → Option Uaks} {K K' : List Uaks} (hK : ∀ u ∈ K, c u.uid = some u)
    (hK' : ∀ u ∈ K', c u.uid = some u) (h : K.map Uaks.uid = K'.map Uaks.uid) : K = K' := by
  have hsome : ∀ {K : List Uaks}, (∀ u ∈ K, c u.uid = some u) → (K.map Uaks.uid).map c = K.map some := by
    intro K hK
    rw [List.map_map]
    exact List.map_congr_left hK
  have hmap : K.map some = K'.map some := by rw [← hsome hK, ← hsome hK', h]
  exact List.map_injective_iff.mpr (Option.some_injective _) hmap

lemma slice_all {β : Type} (K : List β) : slice K 0 0 = K := by
  simp only [slice, true_or, if_true, Nat.sub_self, List.drop_zero]
  exact List.take_of_length_le (by omega)

end Order

section Hub
variable {hub : RankHub} {ops : List HubOp} {type : RankType}

/-- The condition under which a ranking is listed in the order of its name: it is not empty, and
for one type no two players share the score and differ in p1. -/
def NameHolds (type : RankType) (c : UInt64 → Option Uaks) : Prop :=
  (∃ uid, c uid ≠ none) ∧ (type = .sdp1ap2a → ∀ u v, c u.uid = some u → c v.uid = some v →
    u.at 1 = v.at 1 → u.at 2 = v.at 2)

/-- The lists of a hub are in the order of their names exactly when the condition holds. -/
theorem ranks_in_named_order (h : Traces hubSystem ops hub) (type : RankType) :
    ∃ n, ∀ fuel, n < fuel → ((∃ K, ListsInOrder hub fuel type (contents (rankOps type ops)) K) ↔
      NameHolds type (contents (rankOps type ops))) := by
  obtain ⟨L, hL, htype, hsize, hkeys⟩ := traces_rep (hub_trace_rank h type)
  set c := contents (rankOps type ops) with hc
  set s := hub.ranks type with hs
  have hsz : s.uaksSize = type.size := by
    rw [RankType.size, hsize]
    rfl
  have huids : (L.map fun a => (s.nodes a).getUid) = (keys s L).map Uaks.uid := by
    rw [keys, List.map_map]
    rfl
  have hsorted : (keys s L).Pairwise fun u v => Precedes u v type.coded 1 := by
    refine hL.keys_pairwise.imp fun {u v} huv => ?_
    rw [SkipList.compUaks, htype, hsz] at huv
    exact compUaks_iff.mp huv
  have hexact : ∀ fuel, L.length + 1 < fuel → L ≠ [] → ∀ a b, RangesExact s L fuel a b := fun fuel hf hne a b =>
    (@rangesExact_iff s L fuel a b hL.shape (uaksSize_of_type hsize) hf).mpr hne
  refine ⟨L.length + 1, fun fuel hf => ⟨?_, ?_⟩⟩
  · rintro ⟨K, hK⟩
    have hne : L ≠ [] := by
      rintro rfl
      have hrange := hK.range 0 0
      rw [RankHub.getRange, SkipList.getRange, SkipList.getRangeWithFlag, rangeWithFlag_empty hL.shape hf] at hrange
      cases hrange
    have hlist : K = keys s L := by
      apply keys_eq_of_uids (fun u hu => (hK.mem u).mp hu) fun u hu => (hkeys u).mp hu
      have hrange := (hK.range 0 0).symm.trans (hexact fuel hf hne 0 0).range
      rw [huids] at hrange
      simpa [slice_all] using hrange
    refine ⟨?_, fun htype' u v hu hv => ?_⟩
    · obtain ⟨a, ha⟩ := List.exists_mem_of_ne_nil L hne
      refine ⟨(s.nodes a).uaks.uid, ?_⟩
      rw [(hkeys _).mp (mem_keys.mpr ⟨a, ha, rfl⟩)]
      exact Option.some_ne_none _
    · subst htype'
      have hnamed := hK.order _ rfl
      rw [hlist] at hnamed
      have hboth : (keys s L).Pairwise fun u v => u.at 1 = v.at 1 → u.at 2 = v.at 2 :=
        (hsorted.and hnamed).imp fun huv => precedes_both huv.1 huv.2
      have : Std.Symm fun u v : Uaks => u.at 1 = v.at 1 → u.at 2 = v.at 2 := ⟨fun u v huv hs => (huv hs.symm).symm⟩
      exact List.Pairwise.forall_of_forall (fun _ _ _ => rfl) hboth ((hkeys u).mpr hu) ((hkeys v).mpr hv)
  · rintro ⟨⟨uid, huid⟩, hp⟩
    obtain ⟨u, hu⟩ := Option.ne_none_iff_exists'.mp huid
    have hmem : u ∈ keys s L := by
      rw [hkeys, contents_uid hu]
      exact hu
    have hne : L ≠ [] := by
      rintro rfl
      simp [keys] at hmem
    refine ⟨keys s L, hkeys, fun ds hds => ?_, fun a b => ?_, fun a b => ?_⟩
    · by_cases hname : type = .sdp1ap2a
      · subst hname
        cases hds
        refine hsorted.imp_of_mem fun {u v} hu hv huv => precedes_named huv ?_
        exact hp rfl u v ((hkeys u).mp hu) ((hkeys v).mp hv)
      · rw [coded_eq_named hds hname] at hsorted
        exact hsorted
    · rw [← huids]
      exact (hexact fuel hf hne a b).range
    · rw [← huids]
      exact (hexact fuel hf hne a b).revRange

end Hub

section EqualScores

lemma header_ne_null : (1 : UInt64) ≠ 0 := by decide

lemma node₁_ne_null : (2 : UInt64) ≠ 0 := by decide

lemma node₂_ne_null : (3 : UInt64) ≠ 0 := by decide

/-- Two players with the same score; the first has the smaller p1. -/
def equalScores : List HubOp :=
  [.updateRank 1 ⟨2, node₁_ne_null⟩ .sdp1ap2a 1 5 1 0, .updateRank 1 ⟨3, node₂_ne_null⟩ .sdp1ap2a 2 5 2 0]

def runHub (ops : List HubOp) : Option RankHub :=
  ops.foldlM (fun hub op => (hub.exec 40 op).map Prod.fst) (RankHub.create fun _ => ⟨1, header_ne_null⟩)

lemma first_of_equalScores : ∃ hub, runHub (equalScores.take 1) = some hub ∧
    Traces hubSystem (equalScores.take 1) hub := by
  set hub := RankHub.create fun _ => ⟨1, by decide⟩ with hhub
  have hop : HubOp.Allowed hub (.updateRank 1 ⟨2, by decide⟩ .sdp1ap2a 1 5 1 0) := by
    refine ⟨le_rfl, by decide, ?_, fun u _ => nofun⟩
    exact fun h => absurd (congrArg Subtype.val h) (by decide)
  obtain ⟨r, hr⟩ : ∃ r, hub.exec 40 (.updateRank 1 ⟨2, by decide⟩ .sdp1ap2a 1 5 1 0) = some r := ⟨_, rfl⟩
  refine ⟨r.1, ?_, (Traces.nil (RankHub.create_init _)).snoc ⟨hop, 40, r.2, hr⟩⟩
  simp only [runHub, equalScores, List.take_succ_cons, List.take_zero, List.foldlM_cons, ← hhub, hr]
  rfl

/-- A second player may come whatever its score is. -/
lemma second_allowed {hub : RankHub} (hrun : runHub (equalScores.take 1) = some hub) (score p1 p2 : UInt64) :
    HubOp.Allowed hub (.updateRank 1 ⟨3, by decide⟩ .sdp1ap2a 2 score p1 p2) := by
  have hmap : (hub.ranks .sdp1ap2a).uidUmap = AList.insert 1 ⟨2, by decide⟩ ∅ ∧
      (hub.ranks .sdp1ap2a).header = ⟨1, by decide⟩ := by
    obtain rfl := Option.some.inj hrun
    exact ⟨rfl, rfl⟩
  refine ⟨le_rfl, by decide, ?_, fun u _ hu => ?_⟩
  · rw [hmap.2]
    decide
  · rw [hmap.1] at hu
    by_cases h1 : u = 1
    · rw [h1, AList.lookup_insert] at hu
      revert hu
      decide
    · rw [AList.lookup_insert_ne h1] at hu
      cases hu

/-- Two players with different scores. -/
def differentScores : List HubOp :=
  [.updateRank 1 ⟨2, node₁_ne_null⟩ .sdp1ap2a 1 5 1 0, .updateRank 1 ⟨3, node₂_ne_null⟩ .sdp1ap2a 2 6 2 0]

theorem ranks_in_named_order_two_players : ∃ hub, Traces hubSystem differentScores hub ∧
    ∃ n, ∀ fuel, n < fuel →
      ∃ K, ListsInOrder hub fuel .sdp1ap2a (contents (rankOps .sdp1ap2a differentScores)) K := by
  obtain ⟨hub₁, hrun, htrace₁⟩ := first_of_equalScores
  obtain ⟨r, hr⟩ : ∃ r, hub₁.exec 40 (.updateRank 1 ⟨3, by decide⟩ .sdp1ap2a 2 6 2 0) = some r := by
    obtain rfl := Option.some.inj hrun
    exact ⟨_, rfl⟩
  have htrace : Traces hubSystem differentScores r.1 := htrace₁.snoc ⟨second_allowed hrun 6 2 0, 40, r.2, hr⟩
  obtain ⟨n, hn⟩ := ranks_in_named_order htrace .sdp1ap2a
  have hcontents : ∀ uid, contents (rankOps .sdp1ap2a differentScores) uid =
      if (2 : UInt64) = uid then some [2, 6, 2, 0] else if (1 : UInt64) = uid then some [1, 5, 1, 0] else none :=
    fun _ => rfl
  refine ⟨r.1, htrace, n, fun fuel hf => (hn fuel hf).mpr ⟨⟨1, by rw [hcontents]; decide⟩, ?_⟩⟩
  intro _ u v hu hv hscore
  rw [hcontents] at hu hv
  split_ifs at hu hv <;> obtain rfl := Option.some.inj hu <;> obtain rfl := Option.some.inj hv
  · rfl
  · exact absurd hscore (by decide)
  · exact absurd hscore (by decide)
  · rfl

/-- The player with the greater p1 comes first, though p1 is named ascending. -/
theorem sdp1ap2a_descends_in_p1 : ∃ hub, Traces hubSystem equalScores hub ∧
    hub.getRange 40 .sdp1ap2a 0 0 = .ok [2, 1] ∧
    ∀ K, ¬ ListsInOrder hub 40 .sdp1ap2a (contents (rankOps .sdp1ap2a equalScores)) K := by
  obtain ⟨hub₁, hrun, htrace⟩ := first_of_equalScores
  obtain ⟨r, hr, hrange⟩ : ∃ r, hub₁.exec 40 (.updateRank 1 ⟨3, by decide⟩ .sdp1ap2a 2 5 2 0) = some r ∧
      r.1.getRange 40 .sdp1ap2a 0 0 = .ok [2, 1] := by
    obtain rfl := Option.some.inj hrun
    exact ⟨_, rfl, rfl⟩
  refine ⟨r.1, htrace.snoc ⟨second_allowed hrun 5 2 0, 40, r.2, hr⟩, hrange, fun K hK => ?_⟩
  have huids : K.map Uaks.uid = [2, 1] := by
    have heq := (hK.range 0 0).symm.trans hrange
    rw [UInt64.toNat_zero, slice_all] at heq
    exact Except.ok.inj heq
  have hkeys : ∀ u ∈ K, contents (rankOps .sdp1ap2a equalScores) u.uid = some u := fun u => (hK.mem u).mp
  have hlist : K = [[2, 5, 2, 0], [1, 5, 1, 0]] := @keys_eq_of_uids _ K _ hkeys (by decide) huids
  have horder := hK.order _ rfl
  rw [hlist, List.pairwise_cons] at horder
  have hfirst := horder.1 _ List.mem_cons_self
  revert hfirst
  simp [Precedes, Direction.Before, Uaks.at]

end EqualScores

end TyphoonZero.Rank
