import Mathlib

/-! The proleptic Gregorian calendar: days counted from the first of January of the year 1,
and dates. Months and days of a month are counted from 0 and 1. -/
namespace Calendar

def Leap (y : ℤ) : Prop := y % 4 = 0 ∧ (y % 100 ≠ 0 ∨ y % 400 = 0)

instance (y : ℤ) : Decidable (Leap y) := inferInstanceAs (Decidable (_ ∧ _))

def daysInYear (y : ℤ) : ℤ := if Leap y then 366 else 365

def daysBeforeYear (y : ℤ) : ℤ := 365 * (y - 1) + (y - 1) / 4 - (y - 1) / 100 + (y - 1) / 400

/-- The days of a year before its month `m`. -/
def daysBeforeMonth (leap : Bool) (m : ℕ) : ℕ :=
  [0, 31, 59, 90, 120, 151, 181, 212, 243, 273, 304, 334, 365].getD m 365 + if leap && 2 ≤ m then 1 else 0

structure Date where
  year : ℤ
  month : ℕ
  day : ℕ
  deriving DecidableEq

namespace Date
variable (d : Date)

def leap : Bool := decide (Leap d.year)

structure Valid (d : Date) : Prop where
  month : d.month < 12
  first : 1 ≤ d.day
  last : daysBeforeMonth d.leap d.month + d.day ≤ daysBeforeMonth d.leap (d.month + 1)

def toDays : ℤ := daysBeforeYear d.year + daysBeforeMonth d.leap d.month + (d.day - 1)

end Date

lemma Date.mk_eq (y : ℤ) (m k : ℕ) (d : Date) : Date.mk y m k = d ↔ y = d.year ∧ m = d.month ∧ k = d.day := by
  cases d
  rw [Date.mk.injEq]

/-- The year of a day, guessed from the mean length of a year and put right by one. -/
def yearOf (n : ℤ) : ℤ :=
  let y := n * 400 / 146097 + 1
  if n < daysBeforeYear y then y - 1
  else if daysBeforeYear (y + 1) ≤ n then y + 1
  else y

/-- The month of a day of the year: as many months as have ended by then. -/
def monthOf (leap : Bool) (n : ℕ) : ℕ := ((List.range 12).filter fun m => daysBeforeMonth leap (m + 1) ≤ n).length

def ofDays (n : ℤ) : Date :=
  let year := yearOf n
  let rest := (n - daysBeforeYear year).toNat
  let month := monthOf (decide (Leap year)) rest
  ⟨year, month, rest - daysBeforeMonth (decide (Leap year)) month + 1⟩

lemma daysBeforeYear_succ (y : ℤ) : daysBeforeYear (y + 1) = daysBeforeYear y + daysInYear y := by
  unfold daysBeforeYear daysInYear Leap
  split_ifs with h
  · omega
  · omega

lemma yearOf_spec (n : ℤ) : daysBeforeYear (yearOf n) ≤ n ∧ n < daysBeforeYear (yearOf n + 1) := by
  unfold yearOf
  dsimp only
  have hlow : daysBeforeYear (n * 400 / 146097 + 1 - 1) ≤ n := by
    unfold daysBeforeYear
    omega
  have hhigh : n < daysBeforeYear (n * 400 / 146097 + 1 + 1 + 1) := by
    unfold daysBeforeYear
    omega
  split_ifs with hless hmore
  · rw [sub_add_cancel]
    exact ⟨hlow, hless⟩
  · exact ⟨hmore, hhigh⟩
  · exact ⟨Int.not_lt.mp hless, Int.not_le.mp hmore⟩

lemma daysBeforeYear_mono {y y' : ℤ} (h : y < y') : daysBeforeYear (y + 1) ≤ daysBeforeYear y' := by
  unfold daysBeforeYear
  omega

/-- A day is in one year only. -/
lemma yearOf_unique {n y : ℤ} (h : daysBeforeYear y ≤ n) (h' : n < daysBeforeYear (y + 1)) : yearOf n = y := by
  obtain ⟨hs, hs'⟩ := yearOf_spec n
  rcases lt_trichotomy (yearOf n) y with hlt | heq | hgt
  · have hmono := daysBeforeYear_mono hlt
    omega
  · exact heq
  · have hmono := daysBeforeYear_mono hgt
    omega

/-- A sequence passes `n` between two of its members. -/
lemma exists_between (f : ℕ → ℕ) {n N : ℕ} (h : f 0 ≤ n) (hN : n < f N) : ∃ m < N, f m ≤ n ∧ n < f (m + 1) := by
  induction N with
  | zero => exact absurd hN (Nat.not_lt.mpr h)
  | succ N ih =>
    rcases Nat.lt_or_ge n (f N) with hlt | hge
    · obtain ⟨m, hm, hbetween⟩ := ih hlt
      exact ⟨m, Nat.lt_succ_of_lt hm, hbetween⟩
    · exact ⟨N, Nat.lt_succ_self N, hge, hN⟩

lemma length_filter_range {p : ℕ → Bool} {k N : ℕ} (hk : k ≤ N) (hp : ∀ m < N, p m = true ↔ m < k) :
    ((List.range N).filter p).length = k := by
  obtain ⟨d, rfl⟩ := Nat.exists_eq_add_of_le hk
  have hfirst : (List.range k).filter p = List.range k :=
    List.filter_eq_self.mpr fun m hm => (hp m (by have := List.mem_range.mp hm; omega)).mpr (List.mem_range.mp hm)
  have hrest : ((List.range d).map (k + ·)).filter p = [] := by
    rw [List.filter_eq_nil_iff]
    intro m hm
    obtain ⟨i, hi, rfl⟩ := List.mem_map.mp hm
    rw [hp (k + i) (Nat.add_lt_add_left (List.mem_range.mp hi) k)]
    omega
  rw [List.range_add, List.filter_append, hfirst, hrest, List.append_nil, List.length_range]

lemma daysBeforeMonth_le : ∀ leap : Bool, ∀ m < 12, daysBeforeMonth leap m ≤ daysBeforeMonth leap (m + 1) ∧
    daysBeforeMonth leap (m + 1) ≤ daysBeforeMonth leap m + 31 := by decide

lemma daysBeforeMonth_mono (leap : Bool) {m m' : ℕ} (h : m ≤ m') (hm : m' ≤ 12) :
    daysBeforeMonth leap m ≤ daysBeforeMonth leap m' := by
  induction m', h using Nat.le_induction with
  | base => exact le_rfl
  | succ m' _ ih => exact (ih (by omega)).trans (daysBeforeMonth_le leap m' (by omega)).1

/-- A day of the year is in one month only. -/
lemma monthOf_eq {leap : Bool} {m n : ℕ} (hm : m < 12) (hle : daysBeforeMonth leap m ≤ n)
    (hlt : n < daysBeforeMonth leap (m + 1)) : monthOf leap n = m := by
  refine length_filter_range hm.le fun i hi => ?_
  rw [decide_eq_true_iff]
  constructor
  · intro hend
    by_contra hge
    have hmono := @daysBeforeMonth_mono leap (m + 1) (i + 1) (by omega) (by omega)
    omega
  · exact fun hless => (daysBeforeMonth_mono leap (Nat.succ_le_of_lt hless) hm.le).trans hle

lemma monthOf_spec {leap : Bool} {n : ℕ} (h : n < daysBeforeMonth leap 12) : monthOf leap n < 12 ∧
    daysBeforeMonth leap (monthOf leap n) ≤ n ∧ n < daysBeforeMonth leap (monthOf leap n + 1) := by
  have hzero : daysBeforeMonth leap 0 = 0 := by cases leap <;> rfl
  obtain ⟨m, hm, hle, hlt⟩ := exists_between (daysBeforeMonth leap) (by omega) h
  rw [monthOf_eq hm hle hlt]
  exact ⟨hm, hle, hlt⟩

/-- The months make up the year. -/
lemma daysBeforeMonth_end (y : ℤ) : (daysBeforeMonth (decide (Leap y)) 12 : ℤ) = daysInYear y := by
  unfold daysInYear
  by_cases h : Leap y
  · rw [if_pos h, decide_eq_true h]
    rfl
  · rw [if_neg h, decide_eq_false h]
    rfl

lemma ofDays_spec (n : ℤ) : (ofDays n).Valid ∧ (ofDays n).toDays = n := by
  obtain ⟨hlow, hhigh⟩ := yearOf_spec n
  rw [daysBeforeYear_succ] at hhigh
  obtain ⟨rest, hrest⟩ := Int.eq_ofNat_of_zero_le (sub_nonneg.mpr hlow)
  have hend := daysBeforeMonth_end (yearOf n)
  obtain ⟨hmonth, hbefore, hafter⟩ := @monthOf_spec (decide (Leap (yearOf n))) rest (by omega)
  have hof : ofDays n = ⟨yearOf n, monthOf (decide (Leap (yearOf n))) rest,
      rest - daysBeforeMonth (decide (Leap (yearOf n))) (monthOf (decide (Leap (yearOf n))) rest) + 1⟩ := by
    rw [ofDays, hrest, Int.toNat_natCast]
  rw [hof]
  refine ⟨⟨hmonth, Nat.succ_le_succ (Nat.zero_le _), ?_⟩, ?_⟩
  · dsimp only [Date.leap]
    omega
  · dsimp only [Date.toDays, Date.leap]
    omega

lemma ofDays_toDays {d : Date} (h : d.Valid) : ofDays d.toDays = d := by
  obtain ⟨hmonth, hfirst, hlast⟩ := h
  have hend : daysBeforeMonth d.leap (d.month + 1) ≤ daysBeforeMonth d.leap 12 :=
    daysBeforeMonth_mono d.leap (Nat.succ_le_of_lt hmonth) le_rfl
  have hyear : yearOf d.toDays = d.year := by
    refine yearOf_unique ?_ ?_
    · unfold Date.toDays
      omega
    · have hlength : (daysBeforeMonth d.leap 12 : ℤ) = daysInYear d.year := daysBeforeMonth_end d.year
      rw [daysBeforeYear_succ, ← hlength]
      unfold Date.toDays
      omega
  have hrest : (d.toDays - daysBeforeYear d.year).toNat = daysBeforeMonth d.leap d.month + (d.day - 1) := by
    unfold Date.toDays
    omega
  have hm := @monthOf_eq d.leap d.month (daysBeforeMonth d.leap d.month + (d.day - 1)) hmonth (Nat.le_add_right _ _)
    (by omega)
  rw [ofDays, hyear, hrest]
  change Date.mk d.year (monthOf d.leap _) (_ - daysBeforeMonth d.leap (monthOf d.leap _) + 1) = d
  rw [hm, Nat.add_sub_cancel_left, Nat.sub_add_cancel hfirst]

/-- The days of a date lie in its year. -/
lemma Date.Valid.days {d : Date} (h : d.Valid) :
    daysBeforeYear d.year ≤ d.toDays ∧ d.toDays < daysBeforeYear (d.year + 1) := by
  have hspec := yearOf_spec d.toDays
  have hyear : yearOf d.toDays = d.year := congrArg Date.year (ofDays_toDays h)
  rwa [hyear] at hspec

lemma month_le_leap : ∀ m < 12, daysBeforeMonth true m + daysBeforeMonth false (m + 1) ≤
    daysBeforeMonth true (m + 1) + daysBeforeMonth false m := by decide

/-- A date is one in another year as well, if leap years go to leap years. -/
lemma Date.Valid.of_leap {d : Date} (h : d.Valid) {y : ℤ} (hleap : Leap d.year → Leap y) :
    Date.Valid ⟨y, d.month, d.day⟩ := by
  obtain ⟨hmonth, hfirst, hlast⟩ := h
  refine ⟨hmonth, hfirst, ?_⟩
  have hle := month_le_leap d.month hmonth
  unfold Date.leap at hlast ⊢
  dsimp only
  by_cases hy : Leap y
  · rw [decide_eq_true hy]
    by_cases hd : Leap d.year
    · rwa [decide_eq_true hd] at hlast
    · rw [decide_eq_false hd] at hlast
      omega
  · rw [decide_eq_false hy]
    rwa [decide_eq_false (mt hleap hy)] at hlast

end Calendar
