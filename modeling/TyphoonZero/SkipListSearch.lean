import TyphoonZero.SkipListModel
import TyphoonZero.Tower

/-! Searches in a skip list. The level pointers are described by the level-0
list alone, so that a search has to find a frontier in that list. -/
namespace TyphoonZero.Rank
open Tower Loop

def Heap.tall (m : Heap) (i : ℕ) (a : Addr) : Bool := i < (m a).height

@[simp] lemma tall_eq_true {m : Heap} {i : ℕ} {a : Addr} : m.tall i a = true ↔ i < (m a).height := by
  simp [Heap.tall]

/-- Below level `n` every forward pointer and span along `F` is the next tower
of that height in `F` and the distance to it. -/
def Levels (m : Heap) (n : ℕ) (F : List Addr) : Prop :=
  ∀ i < n, ∀ A x B, F = A ++ x :: B → m.tall i x = true →
    (m x).levels i = ⟨B.find? (m.tall i), UInt64.ofNat (reach (m.tall i) B)⟩

/-- `go` moves on exactly over the part `F` of the level-0 list `F ++ G`. -/
structure Frontier (go : UInt64 → Addr → Bool) (F G : List Addr) : Prop where
  before : ∀ A y B, F = A ++ y :: B → A ≠ [] → go (UInt64.ofNat A.length) y = true
  after : ∀ A y B, G = A ++ y :: B → go (UInt64.ofNat (F.length + A.length)) y = false

/-- A cursor at a node of `F` that is on every level below `n`, with its rank. -/
def AtNode (m : Heap) (F : List Addr) (n : ℕ) (c : Addr × UInt64) : Prop :=
  ∃ A B, F = A ++ c.1 :: B ∧ (∀ i < n, m.tall i c.1 = true) ∧ c.2 = UInt64.ofNat A.length

/-- A cursor at the last node of `F` on level `i`, with its rank. -/
def AtLast (m : Heap) (F : List Addr) (i : ℕ) (c : Addr × UInt64) : Prop :=
  ∃ A B, LastTall (m.tall i) F A c.1 B ∧ c.2 = UInt64.ofNat A.length

lemma AtLast.atNode {m : Heap} {F : List Addr} {i : ℕ} {c : Addr × UInt64} (h : AtLast m F i c) :
    AtNode m F i c := by
  obtain ⟨A, B, hl, hr⟩ := h
  have hc := hl.tall
  rw [tall_eq_true] at hc
  exact ⟨A, B, hl.split, fun j hj => tall_eq_true.mpr (hj.trans hc), hr⟩

variable {s : SkipList} {F G : List Addr} {go : UInt64 → Addr → Bool} {n i fuel : ℕ}

section AdvanceStep
variable {A B : List Addr} {x : Addr} (hl : Levels s.nodes n (F ++ G)) (hg : Frontier go F G)
  (hi : i < n) (hF : F = A ++ x :: B) (hx : s.nodes.tall i x = true)
include hl hg hi hF hx

/-- From a node of the part passed over, one iteration moves to the next tower
of that part or stops. -/
lemma advanceStep_cases :
    (s.advanceStep go i (x, UInt64.ofNat A.length) = none ∧ ∀ b ∈ B, s.nodes.tall i b = false) ∨
      ∃ C y D, B = C ++ y :: D ∧ s.nodes.tall i y = true ∧
        s.advanceStep go i (x, UInt64.ofNat A.length) =
          some (y, UInt64.ofNat (A ++ x :: C).length) := by
  have hlev := hl i hi A x (B ++ G) (by simp [hF]) hx
  have hfwd : s.nodes.getForward x i = (B ++ G).find? (s.nodes.tall i) := by
    simp [Heap.getForward, hlev]
  have hspan : s.nodes.getSpan x i = UInt64.ofNat (reach (s.nodes.tall i) (B ++ G)) := by
    simp [Heap.getSpan, hlev]
  cases hf : (B ++ G).find? (s.nodes.tall i) with
  | none =>
    refine .inl ⟨by simp [SkipList.advanceStep, hfwd, hf], fun b hb => ?_⟩
    exact Bool.eq_false_iff.mpr (List.find?_eq_none.mp hf b (by simp [hb]))
  | some y =>
    obtain ⟨C, D, hBG, hy, hC, hreach⟩ := exists_of_find?_eq_some hf
    have hr : UInt64.ofNat A.length + s.nodes.getSpan x i = UInt64.ofNat (A ++ x :: C).length := by
      rw [hspan, hreach, ← UInt64.ofNat_add]
      simp
    have hstep : s.advanceStep go i (x, UInt64.ofNat A.length) =
        if go (UInt64.ofNat (A ++ x :: C).length) y then some (y, UInt64.ofNat (A ++ x :: C).length)
        else none := by
      simp [SkipList.advanceStep, hfwd, hf, hr]
    rcases List.append_eq_append_iff.mp hBG with ⟨C', rfl, hG⟩ | ⟨D', hB, hD⟩
    · have hgo := hg.after C' y D hG
      refine .inl ⟨?_, fun b hb => hC b (by simp [hb])⟩
      have hlen : F.length + C'.length = (A ++ x :: (B ++ C')).length := by simp [hF]; omega
      rw [hlen] at hgo
      rw [hstep, if_neg (Bool.eq_false_iff.mp hgo)]
    · cases D' with
      | nil =>
        have hgo := hg.after [] y D (by simpa using hD.symm)
        have hlen : F.length + ([] : List Addr).length = (A ++ x :: C).length := by simp [hF, hB]
        rw [hlen] at hgo
        refine .inl ⟨?_, fun b hb => hC b (by simpa [hB] using hb)⟩
        rw [hstep, if_neg (Bool.eq_false_iff.mp hgo)]
      | cons d D' =>
        simp only [List.cons_append, List.cons.injEq] at hD
        obtain ⟨rfl, -⟩ := hD
        have hgo := hg.before (A ++ x :: C) y D' (by simp [hF, hB]) (by simp)
        exact .inr ⟨C, y, D', hB, hy, by rw [hstep, if_pos hgo]⟩

end AdvanceStep

section Search
variable (hl : Levels s.nodes n (F ++ G)) (hg : Frontier go F G)
include hl hg

lemma advance_spec {c : Addr × UInt64} (hi : i < n) (hc : AtNode s.nodes F (i + 1) c) :
    Fuelled (F.length < fuel) (s.advance go fuel i c) (AtLast s.nodes F i) := by
  obtain ⟨A, B, hF, htall, hr⟩ := hc
  let I : ℕ → Addr × UInt64 → Prop := fun k c =>
    ∃ A, ∃ B : List Addr, F = A ++ c.1 :: B ∧ s.nodes.tall i c.1 = true ∧
      c.2 = UInt64.ofNat A.length ∧ k = B.length
  have hI : ∀ k a b, I k a → s.advanceStep go i a = some b → ∃ k' < k, I k' b := by
    rintro _ ⟨x, r⟩ b ⟨A, B, hF, hx, hr, rfl⟩ hs
    dsimp only at hF hx hr
    subst hr
    rcases advanceStep_cases hl hg hi hF hx with ⟨hn, -⟩ | ⟨C, y, D, hB, hy, hn⟩
    · simp [hn] at hs
    · rw [hn, Option.some.injEq] at hs
      subst hs
      exact ⟨D.length, by simp [hB]; omega, A ++ x :: C, D, by simp [hF, hB], hy, rfl, rfl⟩
  have h0 : I B.length c := ⟨A, B, hF, htall i (by omega), hr, rfl⟩
  refine ((whileSome_fuelled I hI h0).enough ?_).weaken ?_
  · simp only [hF, List.length_append, List.length_cons]
    omega
  · rintro ⟨x, r⟩ ⟨⟨_, A, B, hF, hx, hr, -⟩, hs⟩
    dsimp only at hF hx hr
    subst hr
    rcases advanceStep_cases hl hg hi hF hx with ⟨-, hB⟩ | ⟨C, y, D, -, -, hn⟩
    · exact ⟨A, B, ⟨hF, hx, hB⟩, rfl⟩
    · simp [hn] at hs

lemma descend_spec {k : ℕ} {c : Addr × UInt64} {p : Path} (hk : k ≤ n)
    (hc : AtNode s.nodes F k c) :
    Fuelled (F.length < fuel) (s.descend go fuel k c p) fun q =>
      (∀ i < k, AtLast s.nodes F i (q.update i, q.rank i)) ∧
        ∀ i, k ≤ i → q.update i = p.update i ∧ q.rank i = p.rank i := by
  induction k generalizing c p with
  | zero => exact .some ⟨by simp, by simp⟩
  | succ k ih =>
    refine (advance_spec hl hg (by omega) hc).bind fun d hd => ?_
    refine (ih (by omega) hd.atNode).weaken ?_
    rintro q ⟨hq, hp⟩
    constructor
    · intro i hi
      rcases Nat.lt_succ_iff_lt_or_eq.mp hi with hi | rfl
      · exact hq i hi
      · rw [(hp i le_rfl).1, (hp i le_rfl).2]
        simpa using hd
    · intro i hi
      have hne : i ≠ k := by omega
      simpa [Function.update_of_ne hne] using hp i (by omega)

/-- A query either stops at a node of the part passed over or has looked at its
last node on level 0. -/
lemma seek_spec {stop : Addr × UInt64 → Bool} {k : ℕ} {c : Addr × UInt64} (hk : k ≤ n)
    (hc : AtNode s.nodes F k c) :
    Fuelled (F.length < fuel) (s.seek go stop fuel k c) fun found =>
      match found with
      | some d => stop d = true ∧ AtNode s.nodes F 0 d
      | none => k = 0 ∨ ∃ d, AtLast s.nodes F 0 d ∧ stop d = false := by
  induction k generalizing c with
  | zero => exact .some (.inl rfl)
  | succ k ih =>
    refine (advance_spec hl hg (by omega) hc).bind fun d hd => ?_
    split_ifs with hs
    · obtain ⟨A, B, h, hr⟩ := hd
      exact .some ⟨hs, A, B, h.split, by simp, hr⟩
    · refine (ih (by omega) hd.atNode).weaken ?_
      rintro (_ | e) he
      · rcases he with rfl | he
        · exact .inr ⟨d, hd, by simpa using hs⟩
        · exact .inr he
      · exact he

end Search

end TyphoonZero.Rank
