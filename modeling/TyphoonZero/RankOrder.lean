import Mathlib

/-! The key comparison of a ranking list and the ranking types it serves.
A key array holds the uid first and then score, p1 and p2. -/
namespace TyphoonZero.Rank

abbrev kRankKeyTypeS0 : UInt8 := 0x1
abbrev kRankKeyTypeS0P1 : UInt8 := 0x2
abbrev kRankKeyTypeS0P1P2 : UInt8 := 0x4

abbrev kRankKeyOrderTypeAsc : UInt8 := 0x0
abbrev kRankKeyOrderTypeS0Desc : UInt8 := 0x1
abbrev kRankKeyOrderTypeP1Desc : UInt8 := 0x2
abbrev kRankKeyOrderTypeP2Desc : UInt8 := 0x4

inductive RankType
  | test | sa | sd | sap1a | sap1d | sdp1a | sdp1d
  | sap1ap2a | sap1ap2d | sap1dp2a | sap1dp2d
  | sdp1ap2a | sdp1ap2d | sdp1dp2a | sdp1dp2d
  deriving DecidableEq, Repr

def makeUInt16 (high low : UInt8) : UInt16 := high.toUInt16 <<< 8 ||| low.toUInt16

def getRankKeyType (type : UInt16) : UInt8 := type.toUInt8

def getRankKeyOrderType (type : UInt16) : UInt8 := (type >>> 8).toUInt8

def transformRankType : RankType → UInt16
  | .test => makeUInt16 (kRankKeyOrderTypeS0Desc ||| kRankKeyOrderTypeP1Desc) kRankKeyTypeS0P1
  | .sa => makeUInt16 kRankKeyOrderTypeAsc kRankKeyTypeS0
  | .sd => makeUInt16 kRankKeyOrderTypeS0Desc kRankKeyTypeS0
  | .sap1a => makeUInt16 kRankKeyOrderTypeAsc kRankKeyTypeS0P1
  | .sap1d => makeUInt16 kRankKeyOrderTypeP1Desc kRankKeyTypeS0P1
  | .sdp1a => makeUInt16 kRankKeyOrderTypeS0Desc kRankKeyTypeS0P1
  | .sdp1d => makeUInt16 (kRankKeyOrderTypeS0Desc ||| kRankKeyOrderTypeP1Desc) kRankKeyTypeS0P1
  | .sap1ap2a => makeUInt16 kRankKeyOrderTypeAsc kRankKeyTypeS0P1P2
  | .sap1ap2d => makeUInt16 kRankKeyOrderTypeP2Desc kRankKeyTypeS0P1P2
  | .sap1dp2a => makeUInt16 kRankKeyOrderTypeP1Desc kRankKeyTypeS0P1P2
  | .sap1dp2d => makeUInt16 (kRankKeyOrderTypeP1Desc ||| kRankKeyOrderTypeP2Desc) kRankKeyTypeS0P1P2
  | .sdp1ap2a => makeUInt16 (kRankKeyOrderTypeS0Desc ||| kRankKeyOrderTypeP1Desc) kRankKeyTypeS0P1P2
  | .sdp1ap2d => makeUInt16 (kRankKeyOrderTypeS0Desc ||| kRankKeyOrderTypeP2Desc) kRankKeyTypeS0P1P2
  | .sdp1dp2a => makeUInt16 (kRankKeyOrderTypeS0Desc ||| kRankKeyOrderTypeP1Desc) kRankKeyTypeS0P1P2
  | .sdp1dp2d => makeUInt16
      (kRankKeyOrderTypeS0Desc ||| kRankKeyOrderTypeP1Desc ||| kRankKeyOrderTypeP2Desc)
      kRankKeyTypeS0P1P2

/-- `none` is the assertion on an unknown key type. -/
def getSizeByRankKeyType (type : UInt8) : Option ℕ :=
  if type = kRankKeyTypeS0 then some 2
  else if type = kRankKeyTypeS0P1 then some 3
  else if type = kRankKeyTypeS0P1P2 then some 4
  else none

abbrev Uaks := List UInt64

def Uaks.at (uaks : Uaks) (i : ℕ) : UInt64 := uaks.getD i 0

def Uaks.uid (uaks : Uaks) : UInt64 := uaks.at 0

/-- The loop of `CompUaks`; `n` counts the keys from index `i` on. -/
def compUaksFrom (order : UInt8) (left right : Uaks) : ℕ → ℕ → UInt8 → Bool
  | 0, _, _ => left.at 0 < right.at 0
  | n + 1, i, mask =>
    if mask &&& order ≠ 0 then
      if left.at i > right.at i then true
      else if left.at i < right.at i then false
      else compUaksFrom order left right n (i + 1) (mask <<< 1)
    else
      if left.at i < right.at i then true
      else if left.at i > right.at i then false
      else compUaksFrom order left right n (i + 1) (mask <<< 1)

def compUaks (type : UInt16) (uaksSize : ℕ) (left right : Uaks) : Bool :=
  compUaksFrom (getRankKeyOrderType type) left right (uaksSize - 1) 1 0x1

lemma uint64_lt_trichotomy (a b : UInt64) : a < b ∨ a = b ∨ b < a := by
  rcases lt_trichotomy a.toNat b.toNat with h | h | h
  · exact .inl (UInt64.lt_iff_toNat_lt.mpr h)
  · exact .inr (.inl (UInt64.toNat_inj.mp h))
  · exact .inr (.inr (UInt64.lt_iff_toNat_lt.mpr h))

section Order
variable {order : UInt8} {n i : ℕ} {mask : UInt8} {a b c : Uaks}

lemma compUaksFrom_irrefl : compUaksFrom order a a n i mask = false := by
  induction n generalizing i mask with
  | zero => simp [compUaksFrom]
  | succ n ih => simp [compUaksFrom, ih]

lemma compUaksFrom_trans (hab : compUaksFrom order a b n i mask = true)
    (hbc : compUaksFrom order b c n i mask = true) : compUaksFrom order a c n i mask = true := by
  induction n generalizing i mask with
  | zero =>
    simp only [compUaksFrom, decide_eq_true_eq] at *
    exact UInt64.lt_trans hab hbc
  | succ n ih =>
    simp only [compUaksFrom, gt_iff_lt, UInt64.lt_iff_toNat_lt] at *
    split_ifs at * with h₀ <;> first | rfl | omega | exact ih hab hbc

/-- What is not before a key and not behind another stays between them. -/
lemma compUaksFrom_negTrans (hba : compUaksFrom order b a n i mask = false)
    (hcb : compUaksFrom order c b n i mask = false) : compUaksFrom order c a n i mask = false := by
  induction n generalizing i mask with
  | zero =>
    simp only [compUaksFrom, decide_eq_false_iff_not, UInt64.lt_iff_toNat_lt] at *
    omega
  | succ n ih =>
    simp only [compUaksFrom, gt_iff_lt, UInt64.lt_iff_toNat_lt] at *
    split_ifs at * with h₀ <;> first | rfl | omega | exact ih hba hcb

/-- Keys that are not ordered either way carry the same uid. -/
lemma compUaksFrom_connected (hab : compUaksFrom order a b n i mask = false)
    (hba : compUaksFrom order b a n i mask = false) : a.uid = b.uid := by
  induction n generalizing i mask with
  | zero =>
    simp only [compUaksFrom, decide_eq_false_iff_not] at hab hba
    rcases uint64_lt_trichotomy (a.at 0) (b.at 0) with h | h | h
    · exact absurd h hab
    · exact h
    · exact absurd h hba
  | succ n ih =>
    simp only [compUaksFrom] at hab hba
    split_ifs at hab hba <;> exact ih hab hba

end Order

section CompUaks
variable {type : UInt16} {size : ℕ} {a b c : Uaks}

@[simp] lemma compUaks_irrefl : compUaks type size a a = false := compUaksFrom_irrefl

lemma compUaks_trans (hab : compUaks type size a b = true) (hbc : compUaks type size b c = true) :
    compUaks type size a c = true := compUaksFrom_trans hab hbc

lemma compUaks_asymm (hab : compUaks type size a b = true) : compUaks type size b a = false := by
  by_contra h
  have h' := compUaks_trans hab (by simpa using h)
  simp at h'

lemma compUaks_negTrans (hba : compUaks type size b a = false) (hcb : compUaks type size c b = false) :
    compUaks type size c a = false := compUaksFrom_negTrans hba hcb

lemma compUaks_or_of_uid_ne (h : a.uid ≠ b.uid) :
    compUaks type size a b = true ∨ compUaks type size b a = true := by
  by_contra hn
  simp only [not_or, Bool.not_eq_true] at hn
  exact h (compUaksFrom_connected hn.1 hn.2)

end CompUaks

/-- Every ranking type has a known key type, so the list constructor's assertion holds. -/
lemma getSizeByRankKeyType_transformRankType (t : RankType) :
    ∃ n, getSizeByRankKeyType (getRankKeyType (transformRankType t)) = some n ∧ 2 ≤ n ∧ n ≤ 4 := by
  cases t <;> exact ⟨_, rfl, by decide, by decide⟩

end TyphoonZero.Rank
