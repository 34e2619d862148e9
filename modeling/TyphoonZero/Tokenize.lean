import TyphoonZero.Storage
import TyphoonZero.XlsxCommon

/-! `Tokenize`: a string cut at every delimiter character. -/
namespace TyphoonZero.Utils
open Storage

variable {C : Type} [DecidableEq C]

/-- `find_first_of`: the first position from `pos` on that holds a delimiter. -/
def findFirstOf (input delimiters : List C) (pos : ℕ) : Option ℕ :=
  ((input.drop pos).findIdx? (· ∈ delimiters)).map (pos + ·)

/-- A delimiter stands at the position, and none from the last position up to it. -/
lemma findFirstOf_spec {input delimiters : List C} {lastPos pos : ℕ}
    (h : findFirstOf input delimiters lastPos = some pos) :
    ∃ piece d rest, input.drop lastPos = piece ++ d :: rest ∧ pos = lastPos + piece.length ∧
      d ∈ delimiters ∧ ∀ c ∈ piece, c ∉ delimiters := by
  obtain ⟨i, hi, rfl⟩ := Option.map_eq_some_iff.mp h
  obtain ⟨hlt, hd, hbefore⟩ := List.findIdx?_eq_some_iff_getElem.mp hi
  refine ⟨(input.drop lastPos).take i, (input.drop lastPos)[i], (input.drop lastPos).drop (i + 1), ?_, ?_, ?_, ?_⟩
  · rw [List.getElem_cons_drop, List.take_append_drop]
  · rw [List.length_take, Nat.min_eq_left hlt.le]
  · simpa using hd
  · intro c hc
    obtain ⟨j, hj, rfl⟩ := List.getElem_of_mem hc
    rw [List.length_take] at hj
    rw [List.getElem_take]
    simpa using hbefore j (by omega)

lemma findFirstOf_lt {input delimiters : List C} {lastPos pos : ℕ}
    (h : findFirstOf input delimiters lastPos = some pos) : lastPos ≤ pos ∧ pos < input.length := by
  obtain ⟨piece, d, rest, hdrop, rfl, -⟩ := findFirstOf_spec h
  have hlen := congrArg List.length hdrop
  simp only [List.length_drop, List.length_append, List.length_cons] at hlen
  omega

/-- The loop of `Tokenize`. -/
def tokenizeLoop (input delimiters : List C) (lastPos : ℕ) (tokens : List (List C)) : List (List C) :=
  match _h : findFirstOf input delimiters lastPos with
  | none => tokens ++ [slice input lastPos input.length]
  | some pos => tokenizeLoop input delimiters (pos + 1) (tokens ++ [slice input lastPos pos])
  termination_by input.length - lastPos
  decreasing_by
    have hlt := findFirstOf_lt ‹_›
    omega

def tokenize (input delimiters : List C) : List (List C) := tokenizeLoop input delimiters 0 []

/-- The tokens with the characters of `between` put between them in order. -/
def interleave (tokens : List (List C)) (between : List C) : List C :=
  (List.zipWith (· ++ ·) tokens (between.map (fun c => [c]) ++ [[]])).flatten

lemma tokenizeLoop_eq (input delimiters : List C) (lastPos : ℕ) (tokens : List (List C)) :
    tokenizeLoop input delimiters lastPos tokens =
      tokens ++ (input.drop lastPos).splitOnP (· ∈ delimiters) := by
  induction lastPos, tokens using tokenizeLoop.induct input delimiters with
  | case1 lastPos tokens hnone =>
    have hfree : ∀ c ∈ input.drop lastPos, decide (c ∈ delimiters) = false := by
      rw [findFirstOf, Option.map_eq_none_iff] at hnone
      exact List.findIdx?_eq_none_iff.mp hnone
    rw [tokenizeLoop]
    split
    · rw [List.splitOnP_eq_singleton hfree, slice, List.take_length]
    · next pos hpos => rw [hnone] at hpos; cases hpos
  | case2 lastPos tokens pos hsome ih =>
    rw [tokenizeLoop]
    split
    · next hnone => rw [hsome] at hnone; cases hnone
    · next pos' hpos =>
      obtain rfl := Option.some.inj (hsome.symm.trans hpos)
      obtain ⟨piece, d, rest, hdrop, hlen, hd, hfree⟩ := findFirstOf_spec hsome
      have hslice : slice input lastPos pos = piece := by
        rw [slice, List.drop_take, hdrop]
        have hcount : pos - lastPos = piece.length := by omega
        rw [hcount, List.take_left' rfl]
      have hrest : input.drop (pos + 1) = rest := by
        have hskip : pos + 1 = lastPos + (piece.length + 1) := by omega
        rw [hskip, ← List.drop_drop, hdrop, List.append_cons, List.drop_left' (by simp)]
      rw [ih, hslice, hrest, hdrop, List.append_assoc, List.singleton_append]
      congr 1
      exact (List.splitOnP_append_cons_of_forall_mem (fun c hc => decide_eq_false (hfree c hc)) d
        (decide_eq_true hd) rest).symm

/-- The pieces between the delimiters. -/
theorem tokenize_eq (input delimiters : List C) :
    tokenize input delimiters = input.splitOnP (· ∈ delimiters) := by
  rw [tokenize, tokenizeLoop_eq, List.drop_zero, List.nil_append]

/-- The tool's headers and cells are cut by this function. -/
lemma xlsx_tokenize_eq (input delimiters : Xlsx.Text) :
    Xlsx.tokenize input delimiters = tokenize input delimiters := (tokenize_eq input delimiters).symm

omit [DecidableEq C] in
lemma length_splitOnP (p : C → Bool) (input : List C) :
    (input.splitOnP p).length = input.countP p + 1 := by
  induction input with
  | nil => rfl
  | cons c input ih =>
    rw [List.splitOnP_cons_eq_if_modifyHead, List.countP_cons]
    split_ifs with hc
    · rw [List.length_cons, ih]
    · rw [List.length_modifyHead, ih]

omit [DecidableEq C] in
lemma splitOnP_free (p : C → Bool) (input : List C) : ∀ token ∈ input.splitOnP p, ∀ c ∈ token, p c = false := by
  induction input with
  | nil =>
    intro token htoken c hc
    rw [List.splitOnP_nil, List.mem_singleton] at htoken
    rw [htoken] at hc
    cases hc
  | cons d input ih =>
    intro token htoken c hc
    rw [List.splitOnP_cons_eq_if_modifyHead] at htoken
    obtain ⟨piece, pieces, hsplit⟩ := List.exists_cons_of_ne_nil (List.splitOnP_ne_nil p input)
    rw [hsplit] at htoken ih
    split_ifs at htoken with hd
    · rcases List.mem_cons.mp htoken with rfl | htoken
      · cases hc
      · exact ih token htoken c hc
    · rw [List.modifyHead_cons] at htoken
      rcases List.mem_cons.mp htoken with rfl | htoken
      · rcases List.mem_cons.mp hc with rfl | hc
        · simpa using hd
        · exact ih piece List.mem_cons_self c hc
      · exact ih token (List.mem_cons_of_mem piece htoken) c hc

/-- No token holds a delimiter, there is one token more than there are delimiters, and
with the delimiters between them the tokens are the input. -/
theorem tokenize_loses_nothing (input delimiters : List C) :
    (∀ token ∈ tokenize input delimiters, ∀ c ∈ token, c ∉ delimiters) ∧
      (tokenize input delimiters).length = input.countP (· ∈ delimiters) + 1 ∧
      interleave (tokenize input delimiters) (input.filter (· ∈ delimiters)) = input := by
  rw [tokenize_eq]
  refine ⟨fun token htoken c hc => ?_, length_splitOnP _ input, List.splitOnP_spec input⟩
  exact of_decide_eq_false (splitOnP_free _ input token htoken c hc)

end TyphoonZero.Utils
