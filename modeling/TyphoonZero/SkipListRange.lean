import TyphoonZero.SkipListPublic
import TyphoonZero.SkipListQuery

/-! The range queries of a skip list: the ranks that a request stands for, and the walk
over their nodes. -/
namespace TyphoonZero.Rank
open Loop Transition

inductive WalkFault
  | outOfFuel | nullDeref
  deriving DecidableEq, Repr

/-- The ranks of a request to a list of `length` nodes. -/
def normalise (length rankStart rankEnd : UInt64) : UInt64 × UInt64 :=
  let rankStart := if 0 = rankStart ∨ rankStart > length then 1 else rankStart
  let rankEnd := if 0 = rankEnd ∨ rankEnd > length then length else rankEnd
  (rankStart, if rankEnd < rankStart then rankStart else rankEnd)

/-- The loop of a range query, with the number of turns left. A null node has an entry,
but no neighbour. -/
def walk {β : Type} (entry : Option Addr → β) (next : Addr → Option Addr) :
    ℕ → Option Addr → Except WalkFault (List β)
  | 0, _ => .ok []
  | n + 1, x =>
    match x with
    | none => .error .nullDeref
    | some a => do
      let ans ← walk entry next n (next a)
      pure (entry x :: ans)

namespace SkipList
variable (s : SkipList) (fuel : ℕ) (rankStart rankEnd : UInt64)

/-- The two queries with a flag differ in the entries only. -/
def rangeWithFlag {β : Type} (entry : Option Addr → β) (reverse : Bool) : Except WalkFault (List β) :=
  let r := normalise s.length rankStart rankEnd
  let range := r.2 - r.1 + 1
  match s.getNodeByRank fuel (if reverse then s.length + 1 - r.1 else r.1) with
  | none => .error .outOfFuel
  | some x =>
    walk entry (fun a => if reverse then (s.nodes a).backward else s.nodes.getForward a 0) range.toNat x

def getRangeWithFlag (reverse : Bool) : Except WalkFault (List UInt64) :=
  s.rangeWithFlag fuel rankStart rankEnd s.getUid reverse

def getRangeWithScoreWithFlag (reverse : Bool) : Except WalkFault (List (UInt64 × UInt64)) :=
  s.rangeWithFlag fuel rankStart rankEnd (fun x => (s.getUid x, s.getScoreOf x)) reverse

def getRange := s.getRangeWithFlag fuel rankStart rankEnd false

def getRevRange := s.getRangeWithFlag fuel rankStart rankEnd true

def getRangeWithScore := s.getRangeWithScoreWithFlag fuel rankStart rankEnd false

def getRevRangeWithScore := s.getRangeWithScoreWithFlag fuel rankStart rankEnd true

end SkipList

/-- The entries of the ranks that a request stands for, in a ranking `K`. -/
def slice {β : Type} (K : List β) (rankStart rankEnd : ℕ) : List β :=
  let rankStart := if rankStart = 0 ∨ K.length < rankStart then 1 else rankStart
  let rankEnd := if rankEnd = 0 ∨ K.length < rankEnd then K.length else rankEnd
  (K.drop (rankStart - 1)).take (max rankStart rankEnd + 1 - rankStart)

example : slice [7, 8, 9] 2 0 = [8, 9] ∧ slice [7, 8, 9] 3 1 = [9] ∧ slice ([] : List ℕ) 0 0 = [] := by decide

/-- The four queries answer with the uids and scores of the level-0 nodes `L`. -/
structure RangesExact (s : SkipList) (L : List Addr) (fuel : ℕ) (rankStart rankEnd : UInt64) : Prop where
  range : s.getRange fuel rankStart rankEnd =
    .ok (slice (L.map fun a => (s.nodes a).getUid) rankStart.toNat rankEnd.toNat)
  revRange : s.getRevRange fuel rankStart rankEnd =
    .ok (slice (L.map fun a => (s.nodes a).getUid).reverse rankStart.toNat rankEnd.toNat)
  rangeWithScore : s.getRangeWithScore fuel rankStart rankEnd =
    .ok (slice (L.map fun a => ((s.nodes a).getUid, (s.nodes a).getScore)) rankStart.toNat rankEnd.toNat)
  revRangeWithScore : s.getRevRangeWithScore fuel rankStart rankEnd =
    .ok (slice (L.map fun a => ((s.nodes a).getUid, (s.nodes a).getScore)).reverse rankStart.toNat
      rankEnd.toNat)

lemma slice_map {β γ : Type} (f : β → γ) (K : List β) (rankStart rankEnd : ℕ) :
    slice (K.map f) rankStart rankEnd = (slice K rankStart rankEnd).map f := by
  unfold slice
  rw [List.length_map, List.map_take, List.map_drop]

section Walk
variable {β : Type} {entry : Option Addr → β} {next : Addr → Option Addr} {M : List Addr}

/-- A walk over nodes that follow each other in `M`. -/
lemma walk_ok (hnext : ∀ A a B, M = A ++ a :: B → next a = B.head?) (A B : List Addr) (hM : M = A ++ B)
    (n : ℕ) (hn : n ≤ B.length) :
    walk entry next n B.head? = .ok ((B.take n).map fun a => entry (some a)) := by
  induction n generalizing A B with
  | zero => rfl
  | succ n ih =>
    cases B with
    | nil => simp at hn
    | cons b B =>
      have hrest := ih (A ++ [b]) B (by rw [hM, List.append_cons]) (by simpa using hn)
      rw [List.head?_cons, walk, hnext A b B hM, hrest]
      rfl

end Walk

/-- Requests to a list that is not empty. -/
lemma normalise_slice {length : UInt64} (hpos : 0 < length.toNat) (rankStart rankEnd : UInt64) :
    1 ≤ (normalise length rankStart rankEnd).1.toNat ∧
      (normalise length rankStart rankEnd).1.toNat ≤ (normalise length rankStart rankEnd).2.toNat ∧
      (normalise length rankStart rankEnd).2.toNat ≤ length.toNat ∧
      ∀ {β : Type} (K : List β), K.length = length.toNat → slice K rankStart.toNat rankEnd.toNat =
        (K.drop ((normalise length rankStart rankEnd).1.toNat - 1)).take
          ((normalise length rankStart rankEnd).2.toNat + 1 - (normalise length rankStart rankEnd).1.toNat) := by
  have hzero : ∀ r : UInt64, 0 = r ↔ r.toNat = 0 := fun r => by
    rw [eq_comm, ← UInt64.toNat_inj]
    rfl
  set a := (normalise length rankStart rankEnd).1.toNat with ha
  set b := (normalise length rankStart rankEnd).2.toNat with hb
  have hstart : a = if rankStart.toNat = 0 ∨ length.toNat < rankStart.toNat then 1 else rankStart.toNat := by
    rw [ha, normalise]
    simp only [hzero, gt_iff_lt, UInt64.lt_iff_toNat_lt]
    split_ifs <;> rfl
  have hend : b = max a (if rankEnd.toNat = 0 ∨ length.toNat < rankEnd.toNat then length.toNat
      else rankEnd.toNat) := by
    rw [hb, ha, normalise]
    simp only [hzero, gt_iff_lt, UInt64.lt_iff_toNat_lt]
    split_ifs <;> omega
  refine ⟨?_, ?_, ?_, fun K hK => ?_⟩
  · split_ifs at hstart <;> omega
  · omega
  · split_ifs at hstart hend <;> omega
  · unfold slice
    rw [hK, ← hstart]
    dsimp only
    rw [← hend]

section Range
variable {s : SkipList} {L : List Addr} {fuel : ℕ} {rankStart rankEnd : UInt64} {β : Type}

lemma backward_reverse (h : Shape s L) (A : List Addr) (a : Addr) (B : List Addr)
    (hs : L.reverse = A ++ a :: B) : (s.nodes a).backward = B.head? := by
  have hL : L = B.reverse ++ a :: A.reverse := by
    rw [← List.reverse_reverse L, hs]
    simp
  have hback := h.backward _ _ _ hL
  rwa [List.getLast?_reverse] at hback

/-- A query answers with the slice of the nodes, from either end of the list. -/
theorem rangeWithFlag_ok (h : Shape s L) (hf : L.length + 1 < fuel) (hne : L ≠ [])
    (entry : Option Addr → β) (reverse : Bool) :
    s.rangeWithFlag fuel rankStart rankEnd entry reverse =
      .ok ((slice (if reverse then L.reverse else L) rankStart.toNat rankEnd.toNat).map
        fun a => entry (some a)) := by
  have hlen : s.length.toNat = L.length := by
    rw [h.length]
    exact h.toNat_ofNat (Nat.le_succ _)
  have hpos : 0 < s.length.toNat := by
    rw [hlen]
    exact List.length_pos_iff.mpr hne
  obtain ⟨h1, hle, hn, hslice⟩ := normalise_slice hpos rankStart rankEnd
  set r := normalise s.length rankStart rankEnd with hr
  set M := if reverse then L.reverse else L with hM
  have hMlen : M.length = s.length.toNat := by
    rw [hM, hlen]
    split_ifs <;> simp
  have hbound := h.length_lt
  have hrange : (r.2 - r.1 + 1).toNat = r.2.toNat + 1 - r.1.toNat := by
    rw [UInt64.toNat_add, UInt64.toNat_sub_of_le _ _ (UInt64.le_iff_toNat_le.mpr hle), UInt64.toNat_one,
      Nat.mod_eq_of_lt (by omega)]
    omega
  have hnode : nodeAt L (if reverse then s.length + 1 - r.1 else r.1).toNat = (M.drop (r.1.toNat - 1)).head? := by
    rw [List.head?_drop, hM]
    cases reverse with
    | false =>
      obtain ⟨k, hk⟩ := Nat.exists_eq_add_of_le' h1
      simp only [Bool.false_eq_true, if_false, hk]
      rfl
    | true =>
      have hsub : (s.length + 1 - r.1).toNat = (L.length - r.1.toNat) + 1 := by
        rw [UInt64.toNat_sub_of_le _ _ (by rw [UInt64.le_iff_toNat_le, h.length_add_one]; omega),
          h.length_add_one]
        omega
      simp only [if_true, hsub, nodeAt]
      rw [List.getElem?_reverse (by omega)]
      congr 1
      omega
  have hwalk := @walk_ok β entry (fun a => if reverse then (s.nodes a).backward else s.nodes.getForward a 0) M
    (fun A a B hs => by
      cases reverse with
      | false =>
        have hs' : s.header :: L = (s.header :: A) ++ a :: B := congrArg _ hs
        exact h.forward_zero hs'
      | true => exact backward_reverse h A a B hs)
    (M.take (r.1.toNat - 1)) (M.drop (r.1.toNat - 1)) (List.take_append_drop _ _).symm
    (r.2 - r.1 + 1).toNat (by rw [hrange, List.length_drop, hMlen]; omega)
  obtain ⟨x, hx, rfl⟩ := (@getNodeByRank_spec s L fuel h
    (if reverse then s.length + 1 - r.1 else r.1)).eq_some hf
  unfold SkipList.rangeWithFlag
  dsimp only
  rw [← hr, hx, hslice M hMlen]
  dsimp only
  rw [hnode, hwalk, hrange]

/-- The loop runs once for an empty list and finds no node. -/
theorem rangeWithFlag_empty (h : Shape s []) (hf : 1 < fuel) (entry : Option Addr → β) (reverse : Bool) :
    s.rangeWithFlag fuel rankStart rankEnd entry reverse = .error .nullDeref := by
  have hlen : s.length = 0 := h.length
  have hnorm : normalise s.length rankStart rankEnd = (1, 1) := by
    have hbig : ∀ r : UInt64, 0 = r ∨ r > 0 := fun r => by
      rw [gt_iff_lt, UInt64.lt_iff_toNat_lt, eq_comm, ← UInt64.toNat_inj]
      change r.toNat = 0 ∨ 0 < r.toNat
      omega
    rw [hlen, normalise, if_pos (hbig _), if_pos (hbig _)]
    rfl
  obtain ⟨x, hx, hnode⟩ := (@getNodeByRank_spec s [] fuel h
    (if reverse then s.length + 1 - 1 else 1)).eq_some hf
  have hnone : x = none := by
    rw [hnode]
    cases reverse <;> simp [hlen, nodeAt]
  unfold SkipList.rangeWithFlag
  dsimp only
  rw [hnorm]
  dsimp only
  rw [hx, hnone]
  rfl

theorem rangesExact_iff (h : Shape s L) (hsize : 1 < s.uaksSize) (hf : L.length + 1 < fuel) :
    RangesExact s L fuel rankStart rankEnd ↔ L ≠ [] := by
  constructor
  · rintro hexact rfl
    have hrange := hexact.range
    rw [SkipList.getRange, SkipList.getRangeWithFlag, rangeWithFlag_empty h hf] at hrange
    cases hrange
  · intro hne
    have huid : ∀ a, s.getUid (some a) = (s.nodes a).getUid := fun a => if_pos (by omega)
    have hscore : ∀ a, s.getScoreOf (some a) = (s.nodes a).getScore := fun a => if_pos hsize
    refine ⟨?_, ?_, ?_, ?_⟩
    · rw [SkipList.getRange, SkipList.getRangeWithFlag, rangeWithFlag_ok h hf hne, slice_map]
      simp [huid]
    · rw [SkipList.getRevRange, SkipList.getRangeWithFlag, rangeWithFlag_ok h hf hne, ← List.map_reverse,
        slice_map]
      simp [huid]
    · rw [SkipList.getRangeWithScore, SkipList.getRangeWithScoreWithFlag, rangeWithFlag_ok h hf hne, slice_map]
      simp [huid, hscore]
    · rw [SkipList.getRevRangeWithScore, SkipList.getRangeWithScoreWithFlag, rangeWithFlag_ok h hf hne,
        ← List.map_reverse, slice_map]
      simp [huid, hscore]

end Range

section Reached
variable {type : UInt16} {s : SkipList} {L : List Addr}

lemma uaksSize_of_type (h : getSizeByRankKeyType (getRankKeyType type) = some s.uaksSize) :
    1 < s.uaksSize := by
  unfold getSizeByRankKeyType at h
  split_ifs at h <;> have hsize := Option.some.inj h <;> omega

/-- After any run of the interface, on every list but the empty one, the range queries answer
with the normalised slices; on the empty one they never do. -/
theorem range_queries_exact (h : Reachable (publicSystem type) s)
    (hL : ForwardChain s.nodes 0 s.header L) : ∃ n, ∀ fuel, n < fuel → ∀ rankStart rankEnd,
      RangesExact s L fuel rankStart rankEnd ↔ L ≠ [] := by
  obtain ⟨L', hbag, -, hsize⟩ := public_bag h
  obtain rfl := hbag.shape.chain.unique hL
  exact ⟨L'.length + 1, fun fuel hf _ _ => rangesExact_iff hbag.shape (uaksSize_of_type hsize) hf⟩

theorem range_queries_exact_two_players : ∃ s L, Reachable (publicSystem 0x0001) s ∧
    ForwardChain s.nodes 0 s.header L ∧ ⟨2, by decide⟩ ∈ L ∧ ⟨3, by decide⟩ ∈ L ∧
      ∃ n, ∀ fuel, n < fuel → ∀ rankStart rankEnd, RangesExact s L fuel rankStart rankEnd := by
  obtain ⟨s, hs, hlookup, hlinked⟩ := first_player
  obtain ⟨L, hL⟩ := public_rep hs
  have hx : ⟨3, by decide⟩ ∉ s.header :: L := fun hm => hlinked (hL.shape.linked hm)
  obtain ⟨t, ht, L', hL', -, humap, -⟩ :=
    (@Bag.insert s L (L.length + kSkipListMaxLevel + 1) 1 ⟨3, by decide⟩ [8, 200] hL.bag le_rfl (by decide) hx).eq_some
      (Nat.lt_succ_self _)
  have hexec : s.execPublic (L.length + kSkipListMaxLevel + 1) (.insert 1 ⟨3, by decide⟩ [8, 200]) =
      some (t, true) := by
    rw [SkipList.execPublic, ht]
    rfl
  have hop : PublicOp.Allowed s (.insert 1 ⟨3, by decide⟩ [8, 200]) := ⟨le_rfl, by decide, hlinked⟩
  have hreach := hs.of_restrict.step ⟨hop, _, true, hexec⟩
  have h7 : t.uidUmap.lookup 7 = some ⟨2, by decide⟩ := by
    rw [humap, AList.lookup_insert_ne (by decide)]
    exact hlookup
  have h8 : t.uidUmap.lookup 8 = some ⟨3, by decide⟩ := by
    rw [humap]
    exact AList.lookup_insert _
  have hne : L' ≠ [] := List.ne_nil_of_mem (hL'.entered _ _ h7).1
  obtain ⟨n, hn⟩ := range_queries_exact hreach hL'.shape.chain
  exact ⟨t, L', hreach, hL'.shape.chain, (hL'.entered _ _ h7).1, (hL'.entered _ _ h8).1, n,
    fun fuel hf _ _ => (hn fuel hf _ _).mpr hne⟩

theorem empty_list_null_node : ∃ s, Reachable (publicSystem 0x0001) s ∧ ForwardChain s.nodes 0 s.header [] ∧
    ∀ fuel, 1 < fuel → s.getRange fuel 0 0 = .error .nullDeref ∧ ¬ RangesExact s [] fuel 0 0 := by
  obtain ⟨s, hs⟩ : ∃ s, new 0x0001 ⟨1, by decide⟩ = some s := ⟨_, rfl⟩
  have hrep := (new_rep hs).1
  refine ⟨s, .init ⟨_, hs⟩, hrep.shape.chain, fun fuel hf => ?_⟩
  have hnull : s.getRange fuel 0 0 = .error .nullDeref := rangeWithFlag_empty hrep.shape hf _ _
  refine ⟨hnull, fun hexact => ?_⟩
  have hrange := hexact.range
  rw [hnull] at hrange
  cases hrange

end Reached

end TyphoonZero.Rank
