import TyphoonZero.XlsxMatch

/-! Numeric cells: the number that is put into a member beside the one that the text writes. -/
namespace TyphoonZero.Xlsx

def digitsValue (digits : Text) : ℕ := digits.foldl (fun n ch => n * 10 + (ch.toNat - '0'.toNat)) 0

/-- Digits behind at most one sign. -/
def IsDecimal (data : Text) (n : ℤ) : Prop :=
  ∃ digits, digits ≠ [] ∧ (∀ ch ∈ digits, ch.isDigit = true) ∧
    ((data = digits ∨ data = '+' :: digits) ∧ n = digitsValue digits ∨
      data = '-' :: digits ∧ n = -digitsValue digits)

/-- Behind white space the text goes on with a number, whatever comes after its digits. -/
def Begins (data : Text) (n : ℤ) : Prop :=
  ∃ spaces number rest, data = spaces ++ (number ++ rest) ∧ (∀ ch ∈ spaces, isSpace ch = true) ∧
    IsDecimal number n ∧ ∀ ch ∈ rest.head?, ch.isDigit = false

lemma IsDecimal.begins {data : Text} {n : ℤ} (h : IsDecimal data n) : Begins data n :=
  ⟨[], data, [], by simp, fun ch hch => absurd hch List.not_mem_nil, h,
    fun ch hch => absurd hch (Option.not_mem_none ch)⟩

section StrtoInteger

lemma isSpace_digit {ch : Char} (h : ch.isDigit = true) : isSpace ch = false := by
  rw [Char.isDigit, Bool.and_eq_true, decide_eq_true_eq, decide_eq_true_eq] at h
  refine decide_eq_false fun hmem => ?_
  fin_cases hmem <;> exact absurd h (by decide)

lemma takeWhile_digits {digits rest : Text} (h : ∀ ch ∈ digits, ch.isDigit = true)
    (hrest : ∀ ch ∈ rest.head?, ch.isDigit = false) : (digits ++ rest).takeWhile Char.isDigit = digits := by
  rw [List.takeWhile_append_of_pos h]
  cases rest with
  | nil => rw [List.takeWhile_nil, List.append_nil]
  | cons ch rest => rw [List.takeWhile_cons_of_neg (by rw [hrest ch rfl]; decide), List.append_nil]

lemma dropWhile_spaces {spaces unspaced : Text} (h : ∀ ch ∈ spaces, isSpace ch = true)
    (hhead : ∀ ch ∈ unspaced.head?, isSpace ch = false) : (spaces ++ unspaced).dropWhile isSpace = unspaced := by
  rw [List.dropWhile_append_of_pos h]
  cases unspaced with
  | nil => rfl
  | cons ch unspaced => rw [List.dropWhile_cons_of_neg (by rw [hhead ch rfl]; decide)]

/-- The conversion finds the number that the text begins with. -/
lemma strtoInteger_of_begins {data : Text} {n : ℤ} (h : Begins data n) :
    ∃ signed m, strtoInteger data = some (signed, m) ∧ n = if signed then -(m : ℤ) else m := by
  obtain ⟨spaces, number, rest, rfl, hspaces, ⟨digits, hne, hdigits, hnumber⟩, hrest⟩ := h
  obtain ⟨d, ds, rfl⟩ := List.exists_cons_of_ne_nil hne
  have hd := hdigits d List.mem_cons_self
  have hplus : d ≠ '+' := by
    rintro rfl
    exact absurd hd (by decide)
  have hminus : d ≠ '-' := by
    rintro rfl
    exact absurd hd (by decide)
  have htake := takeWhile_digits hdigits hrest
  rw [List.cons_append] at htake
  rcases hnumber with ⟨rfl | rfl, rfl⟩ | ⟨rfl, rfl⟩
  · refine ⟨false, digitsValue (d :: ds), ?_, rfl⟩
    rw [strtoInteger, dropWhile_spaces hspaces (by rintro _ ⟨⟩; exact isSpace_digit hd)]
    simp [hplus, hminus, htake, digitsValue]
  · refine ⟨false, digitsValue (d :: ds), ?_, rfl⟩
    rw [strtoInteger, dropWhile_spaces hspaces (by rintro _ ⟨⟩; decide)]
    simp [htake, digitsValue]
  · refine ⟨true, digitsValue (d :: ds), ?_, rfl⟩
    rw [strtoInteger, dropWhile_spaces hspaces (by rintro _ ⟨⟩; decide)]
    simp [htake, digitsValue]

/-- The digits at the start of a text, behind its sign. -/
lemma begins_of_digits {data spaces body : Text} {n : ℤ} (sign : Text) (hdata : spaces ++ (sign ++ body) = data)
    (hspaces : ∀ ch ∈ spaces, isSpace ch = true) (hdecimal : IsDecimal (sign ++ body.takeWhile Char.isDigit) n) :
    Begins data n := by
  refine ⟨spaces, _, body.dropWhile Char.isDigit, ?_, hspaces, hdecimal, fun ch hch => ?_⟩
  · rw [List.append_assoc, List.takeWhile_append_dropWhile, hdata]
  · have hhead := List.head?_dropWhile_not Char.isDigit body
    rwa [Option.mem_def.mp hch] at hhead

lemma begins_of_strtoInteger {data : Text} {signed : Bool} {m : ℕ} (h : strtoInteger data = some (signed, m)) :
    Begins data (if signed then -(m : ℤ) else m) := by
  have hsplit := List.takeWhile_append_dropWhile (p := isSpace) (l := data)
  have hspaces : ∀ ch ∈ data.takeWhile isSpace, isSpace ch = true := fun ch hch => List.mem_takeWhile_imp hch
  unfold strtoInteger at h
  generalize data.takeWhile isSpace = spaces, data.dropWhile isSpace = unspaced at h hsplit hspaces
  have hall : ∀ body : Text, ∀ ch ∈ body.takeWhile Char.isDigit, ch.isDigit = true := fun body ch hch =>
    List.mem_takeWhile_imp hch
  by_cases hminus : unspaced.head? = some '-'
  · obtain ⟨body, rfl⟩ := List.head?_eq_some_iff.mp hminus
    simp only [hminus, decide_true, true_or, if_true, List.drop_succ_cons, List.drop_zero] at h
    split_ifs at h with hne
    obtain ⟨rfl, rfl⟩ := Prod.mk.inj (Option.some.inj h)
    exact begins_of_digits ['-'] hsplit hspaces ⟨_, hne, hall body, Or.inr ⟨rfl, rfl⟩⟩
  · by_cases hplus : unspaced.head? = some '+'
    · obtain ⟨body, rfl⟩ := List.head?_eq_some_iff.mp hplus
      simp only [hplus, or_true, if_true, List.drop_succ_cons, List.drop_zero] at h
      split_ifs at h with hne
      obtain ⟨hsigned, rfl⟩ := Prod.mk.inj (Option.some.inj h)
      obtain rfl : false = signed := hsigned
      exact begins_of_digits ['+'] hsplit hspaces ⟨_, hne, hall body, Or.inl ⟨Or.inr rfl, rfl⟩⟩
    · simp only [hminus, hplus, decide_false, or_self, if_false] at h
      split_ifs at h with hne
      obtain ⟨rfl, rfl⟩ := Prod.mk.inj (Option.some.inj h)
      exact begins_of_digits [] hsplit hspaces ⟨_, hne, hall unspaced, Or.inl ⟨Or.inl rfl, rfl⟩⟩

end StrtoInteger

inductive IntegerType
  | i32
  | i64
  | u32
  | u64

namespace IntegerType

def dataType : IntegerType → XlsxDataType
  | i32 => .i32
  | i64 => .i64
  | u32 => .u32
  | u64 => .u64

def InRange : IntegerType → ℤ → Prop
  | i32, n => -2 ^ 31 ≤ n ∧ n < 2 ^ 31
  | i64, n => -2 ^ 63 ≤ n ∧ n < 2 ^ 63
  | u32, n => 0 ≤ n ∧ n < 2 ^ 32
  | u64, n => 0 ≤ n ∧ n < 2 ^ 64

/-- The conversions are those of the 64-bit types, and the unsigned one takes negative numbers too. -/
def Convertible : IntegerType → ℤ → Prop
  | i32, n | i64, n => -2 ^ 63 ≤ n ∧ n < 2 ^ 63
  | u32, n | u64, n => -2 ^ 64 < n ∧ n < 2 ^ 64

/-- The value of the member for a number. -/
def value {F : Type} : IntegerType → ℤ → JsonValue F
  | i32, n => .int n
  | i64, n => .int64 n
  | u32, n => .uint n.toNat
  | u64, n => .uint64 n.toNat

/-- The number that is left of `n` in the member. -/
def narrowed : IntegerType → ℤ → ℤ
  | i32, n => n.bmod (2 ^ 32)
  | i64, n => n
  | u32, n => n % 2 ^ 32
  | u64, n => n % 2 ^ 64

lemma InRange.convertible {t : IntegerType} {n : ℤ} (h : t.InRange n) : t.Convertible n := by
  cases t <;> simp only [InRange, Convertible] at h ⊢ <;> omega

lemma narrowed_of_inRange {t : IntegerType} {n : ℤ} (h : t.InRange n) : t.narrowed n = n := by
  cases t <;> simp only [InRange, narrowed] at h ⊢
  · exact Int.bmod_eq_of_le (by norm_num; omega) (by norm_num; omega)
  · exact Int.emod_eq_of_lt h.1 h.2
  · exact Int.emod_eq_of_lt h.1 h.2

end IntegerType

section
variable {F : Type} {conv : FloatConversion F} {f : AnalystField} {t : IntegerType}

lemma stoll_eq {data : Text} {signed : Bool} {m : ℕ} (h : strtoInteger data = some (signed, m)) {n : ℤ}
    (hn : n = if signed then -(m : ℤ) else m) :
    stoll data = if -2 ^ 63 ≤ n ∧ n < 2 ^ 63 then some n else none := by
  rw [stoll, h]
  cases signed with
  | true =>
    obtain rfl : n = -(m : ℤ) := hn
    change (if m ≤ 2 ^ 63 then some (-(m : ℤ)) else none) = _
    exact if_congr (by omega) rfl rfl
  | false =>
    obtain rfl : n = m := hn
    change (if m < 2 ^ 63 then some (m : ℤ) else none) = _
    exact if_congr (by omega) rfl rfl

lemma stoull_eq {data : Text} {signed : Bool} {m : ℕ} (h : strtoInteger data = some (signed, m)) {n : ℤ}
    (hn : n = if signed then -(m : ℤ) else m) :
    stoull data = if -2 ^ 64 < n ∧ n < 2 ^ 64 then some (n % 2 ^ 64).toNat else none := by
  rw [stoull, h]
  cases signed with
  | true =>
    obtain rfl : n = -(m : ℤ) := hn
    change (if m < 2 ^ 64 then some ((2 ^ 64 - m) % 2 ^ 64) else none) = _
    by_cases hm : m < 2 ^ 64
    · rw [if_pos hm, if_pos (by omega)]
      congr 1
      omega
    · rw [if_neg hm, if_neg (by omega)]
  | false =>
    obtain rfl : n = m := hn
    change (if m < 2 ^ 64 then some m else none) = _
    by_cases hm : m < 2 ^ 64
    · rw [if_pos hm, if_pos (by omega)]
      congr 1
      omega
    · rw [if_neg hm, if_neg (by omega)]

/-- A number that can be converted is narrowed to the type; another one is an exception. -/
lemma scalarValue_integer {data : Text} {signed : Bool} {m : ℕ} (h : strtoInteger data = some (signed, m)) {n : ℤ}
    (hn : n = if signed then -(m : ℤ) else m) [Decidable (t.Convertible n)] :
    scalarValue conv data t.dataType = if t.Convertible n then some (t.value (t.narrowed n)) else none := by
  by_cases hc : t.Convertible n
  · rw [if_pos hc]
    cases t with
    | i32 | i64 =>
      have hll : stoll data = some n := (stoll_eq h hn).trans (if_pos hc)
      rw [IntegerType.dataType, scalarValue, hll]
      rfl
    | u32 =>
      have hull : stoull data = some (n % 2 ^ 64).toNat := (stoull_eq h hn).trans (if_pos hc)
      rw [IntegerType.dataType, scalarValue, hull]
      refine congrArg (fun k => some (JsonValue.uint k)) ?_
      change (n % 2 ^ 64).toNat % 2 ^ 32 = (n % 2 ^ 32).toNat
      omega
    | u64 =>
      have hull : stoull data = some (n % 2 ^ 64).toNat := (stoull_eq h hn).trans (if_pos hc)
      rw [IntegerType.dataType, scalarValue, hull]
      rfl
  · rw [if_neg hc]
    cases t with
    | i32 | i64 =>
      have hll : stoll data = none := (stoll_eq h hn).trans (if_neg hc)
      rw [IntegerType.dataType, scalarValue, hll]
      rfl
    | u32 | u64 =>
      have hull : stoull data = none := (stoull_eq h hn).trans (if_neg hc)
      rw [IntegerType.dataType, scalarValue, hull]
      rfl

lemma scalarValue_none {data : Text} (h : strtoInteger data = none) : scalarValue conv data t.dataType = none := by
  cases t <;> simp [IntegerType.dataType, scalarValue, stoll, stoull, h]

variable (conv f t)

/-- The cell becomes the number that its text is, or no member. -/
structure ExactOrRejected (depth : ℕ) (name data : Text) (rowData : Members F) : Prop where
  exact : ∀ n, IsDecimal data n → t.InRange n →
    f.generateMember conv (depth + 1) t.dataType name data rowData = some (rowData ++ [(name, t.value n)], true)
  rejected : (¬∃ n, IsDecimal data n ∧ t.InRange n) →
    ∀ rowData', f.generateMember conv (depth + 1) t.dataType name data rowData ≠ some (rowData', true)

variable {conv f t}

lemma generateMember_integer (depth : ℕ) (name data : Text) (rowData : Members F) :
    f.generateMember conv (depth + 1) t.dataType name data rowData =
      (scalarValue conv data t.dataType).map fun val => (rowData ++ [(name, val)], true) := by
  cases t <;> rfl

lemma IsDecimal.unique {data : Text} {n k : ℤ} (hn : IsDecimal data n) (hk : Begins data k) : n = k := by
  obtain ⟨signed, m, hm, rfl⟩ := strtoInteger_of_begins hn.begins
  obtain ⟨signed', m', hm', rfl⟩ := strtoInteger_of_begins hk
  obtain ⟨rfl, rfl⟩ := Prod.mk.inj (Option.some.inj (hm.symm.trans hm'))
  rfl

/-- What the text begins with must be all of it and in the range, unless the conversion throws. -/
theorem exactOrRejected_iff (conv : FloatConversion F) (f : AnalystField) (t : IntegerType) (depth : ℕ)
    (name data : Text) (rowData : Members F) :
    ExactOrRejected conv f t depth name data rowData ↔
      ∀ n, Begins data n → t.Convertible n → IsDecimal data n ∧ t.InRange n := by
  classical
  constructor
  · intro hexact n hbegins hconvertible
    by_contra hnot
    obtain ⟨signed, m, hm, hn⟩ := strtoInteger_of_begins hbegins
    have hvalue : scalarValue conv data t.dataType = _ := scalarValue_integer hm hn
    rw [if_pos hconvertible] at hvalue
    refine hexact.rejected ?_ (rowData ++ [(name, t.value (t.narrowed n))]) ?_
    · rintro ⟨k, hk, hrange⟩
      obtain rfl := hk.unique hbegins
      exact hnot ⟨hk, hrange⟩
    · rw [generateMember_integer, hvalue]
      rfl
  · intro hcond
    refine ⟨fun n hn hrange => ?_, fun hnone rowData' hsome => ?_⟩
    · obtain ⟨signed, m, hm, hval⟩ := strtoInteger_of_begins hn.begins
      rw [generateMember_integer, scalarValue_integer hm hval, if_pos hrange.convertible,
        IntegerType.narrowed_of_inRange hrange]
      rfl
    · rw [generateMember_integer] at hsome
      cases hm : strtoInteger data with
      | none =>
        rw [scalarValue_none hm] at hsome
        cases hsome
      | some pair =>
        obtain ⟨signed, m⟩ := pair
        rw [scalarValue_integer hm rfl] at hsome
        by_cases hconvertible : t.Convertible (if signed then -(m : ℤ) else m)
        · exact hnone ⟨_, hcond _ (begins_of_strtoInteger hm) hconvertible⟩
        · rw [if_neg hconvertible] at hsome
          cases hsome

/-- A number of 33 bits loses its highest bit, and what stands behind a number is not looked at. -/
theorem generateMember_narrows : ¬ExactOrRejected noFloats {} .u32 0 "id".toList "4294967297".toList [] ∧
    ¬ExactOrRejected noFloats {} .i32 0 "id".toList "1x".toList [] := by
  constructor
  · intro hexact
    have hvalue : digitsValue "4294967297".toList = 4294967297 := by decide
    have hdecimal : IsDecimal "4294967297".toList 4294967297 :=
      ⟨"4294967297".toList, by decide, List.all_eq_true.mp (by decide), Or.inl ⟨Or.inl rfl, by rw [hvalue]; rfl⟩⟩
    have hstoull : stoull "4294967297".toList = some 4294967297 := by decide
    refine hexact.rejected ?_ [("id".toList, .uint 1)] ?_
    · rintro ⟨n, hn, hrange⟩
      obtain rfl := hn.unique hdecimal.begins
      exact absurd hrange.2 (by norm_num)
    · rw [generateMember_integer, IntegerType.dataType, scalarValue, hstoull]
      rfl
  · intro hexact
    have hstoll : stoll "1x".toList = some 1 := by decide
    refine hexact.rejected ?_ [("id".toList, .int 1)] ?_
    · rintro ⟨n, ⟨digits, hne, hdigits, hdata⟩, -⟩
      have hx : 'x' ∈ digits := by
        rcases hdata with ⟨rfl | hplus, -⟩ | ⟨hminus, -⟩
        · decide
        · exact absurd (Option.some.inj (congrArg List.head? hplus)) (by decide : '1' ≠ '+')
        · exact absurd (Option.some.inj (congrArg List.head? hminus)) (by decide : '1' ≠ '-')
      exact absurd (hdigits 'x' hx) (by decide)
    · rw [generateMember_integer, IntegerType.dataType, scalarValue, hstoll]
      rfl

end
end TyphoonZero.Xlsx
