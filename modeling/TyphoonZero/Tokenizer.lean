import Mathlib

/-! `Tokenizer`: a copy of a string is cut in place, a NUL at every delimiter. -/
namespace TyphoonZero.Utils

/-- The loop of the constructor on the copy `str_`; positions stand for pointers into it.
`none` is an access outside the copy. -/
def tokenizerLoop (delimiter : UInt8) (keepEmptyStrings : Bool) (str : List UInt8) (posOld posNew : ℕ)
    (storage : List ℕ) : Option (List UInt8 × List ℕ) :=
  match _h : str[posNew]? with
  | none => none
  | some c =>
    if c = delimiter then
      let storage := if keepEmptyStrings || posOld ≠ posNew then storage ++ [posOld] else storage
      tokenizerLoop delimiter keepEmptyStrings (str.set posNew 0) (posNew + 1) (posNew + 1) storage
    else if c = 0 then some (str, if posOld ≠ posNew then storage ++ [posOld] else storage)
    else tokenizerLoop delimiter keepEmptyStrings str posOld (posNew + 1) storage
  termination_by str.length - posNew
  decreasing_by
    all_goals
      obtain ⟨hlt, -⟩ := List.getElem?_eq_some_iff.mp ‹_›
      have hlen := @List.length_set _ str posNew 0
      omega

/-- The string that a pointer into `str` stands for. -/
def cString (str : List UInt8) (pos : ℕ) : List UInt8 := (str.drop pos).takeWhile (· ≠ 0)

/-- The tokens of a view with the memory `after` behind it; one byte more than the view
is copied. -/
def tokenizer (src after : List UInt8) (delimiter : UInt8) (keepEmptyStrings : Bool) :
    Option (List (List UInt8)) := do
  let next ← after.head?
  let (str, storage) ← tokenizerLoop delimiter keepEmptyStrings (src ++ [next]) 0 0 []
  pure (storage.map (cString str))

/-- All pieces but an empty one at the end, or those that are not empty. -/
def keptPieces (keepEmptyStrings : Bool) (pieces : List (List UInt8)) : List (List UInt8) :=
  if keepEmptyStrings then if pieces.getLast? = some [] then pieces.dropLast else pieces
  else pieces.filter (· ≠ [])

section Pieces
variable {keep : Bool} {piece : List UInt8} {pieces : List (List UInt8)}

lemma keptPieces_single (keep : Bool) (piece : List UInt8) :
    keptPieces keep [piece] = if piece = [] then [] else [piece] := by
  by_cases hpiece : piece = [] <;> cases keep <;> simp [keptPieces, hpiece]

lemma keptPieces_cons (h : pieces ≠ []) : keptPieces keep (piece :: pieces) =
    (if keep || piece ≠ [] then [piece] else []) ++ keptPieces keep pieces := by
  obtain ⟨next, pieces, rfl⟩ := List.exists_cons_of_ne_nil h
  cases keep with
  | false => by_cases hpiece : piece = [] <;> simp [keptPieces, hpiece]
  | true =>
    simp only [keptPieces, if_true, List.getLast?_cons_cons, Bool.true_or, List.dropLast_cons_cons]
    split_ifs <;> rfl

lemma cString_piece {before rest : List UInt8} (h : ∀ c ∈ piece, c ≠ 0) :
    cString (before ++ (piece ++ 0 :: rest)) before.length = piece := by
  rw [cString, List.drop_left' rfl, List.takeWhile_append_of_pos fun c hc => decide_eq_true (h c hc)]
  simp

end Pieces

section Loop
variable {delimiter : UInt8} {keep : Bool}

/-- Without a NUL ahead the loop leaves the copy. -/
lemma tokenizerLoop_none {str : List UInt8} {posNew : ℕ} (posOld : ℕ) (storage : List ℕ)
    (h : ∀ i, posNew ≤ i → str[i]? ≠ some 0) :
    tokenizerLoop delimiter keep str posOld posNew storage = none := by
  induction str, posOld, posNew, storage using tokenizerLoop.induct delimiter keep with
  | case1 str posOld posNew storage hnone =>
    rw [tokenizerLoop]
    split
    · rfl
    · next c hc => rw [hnone] at hc; cases hc
  | case2 str posOld posNew storage storage' hc ih =>
    rw [tokenizerLoop]
    split
    · rfl
    · next c hc' =>
      obtain rfl := Option.some.inj (hc.symm.trans hc')
      rw [if_pos rfl]
      refine ih fun i hi => ?_
      rw [List.getElem?_set_ne (by omega)]
      exact h i (by omega)
  | case3 str posOld posNew storage hc hne => exact absurd hc (h posNew le_rfl)
  | case4 str posOld posNew storage c hc hne hzero ih =>
    rw [tokenizerLoop]
    split
    · rfl
    · next c' hc' =>
      obtain rfl := Option.some.inj (hc.symm.trans hc')
      rw [if_neg hne, if_neg hzero]
      exact ih fun i hi => h i (by omega)

/-- One turn at the character `c`. -/
lemma tokenizerLoop_turn (before rest : List UInt8) (c : UInt8) (posOld : ℕ) (storage : List ℕ) :
    tokenizerLoop delimiter keep (before ++ c :: rest) posOld before.length storage =
      if c = delimiter then
        tokenizerLoop delimiter keep (before ++ 0 :: rest) (before.length + 1) (before.length + 1)
          (if keep || posOld ≠ before.length then storage ++ [posOld] else storage)
      else if c = 0 then
        some (before ++ c :: rest, if posOld ≠ before.length then storage ++ [posOld] else storage)
      else tokenizerLoop delimiter keep (before ++ c :: rest) posOld (before.length + 1) storage := by
  have hget : (before ++ c :: rest)[before.length]? = some c := by simp
  have hset : (before ++ c :: rest).set before.length 0 = before ++ 0 :: rest := by simp
  rw [tokenizerLoop]
  split
  · next hnone => rw [hget] at hnone; cases hnone
  · next c' hc =>
    obtain rfl := Option.some.inj (hget.symm.trans hc)
    rw [hset]

/-- The loop inside a piece, of which `piece` is behind it: the rest of the view is cut,
and what it adds to the tokens are the pieces from this one on. -/
lemma tokenizerLoop_pieces (hd : delimiter ≠ 0) {rest : List UInt8} (hrest : ∀ c ∈ rest, c ≠ 0)
    {piece : List UInt8} (hpiece : ∀ c ∈ piece, c ≠ delimiter ∧ c ≠ 0) (before : List UInt8) (storage : List ℕ) :
    ∃ cut new, tokenizerLoop delimiter keep (before ++ piece ++ (rest ++ [0])) before.length
        (before ++ piece).length storage = some (before ++ (piece ++ cut), storage ++ new) ∧
      new.map (cString (before ++ (piece ++ cut))) = keptPieces keep ((piece ++ rest).splitOn delimiter) := by
  induction rest generalizing before piece storage with
  | nil =>
    have hpiece₀ : ∀ c ∈ piece, c ≠ 0 := fun c hc => (hpiece c hc).2
    have hfree : delimiter ∉ piece := fun hmem => (hpiece delimiter hmem).1 rfl
    refine ⟨[0], if piece = [] then [] else [before.length], ?_, ?_⟩
    · rw [List.nil_append, tokenizerLoop_turn, if_neg hd.symm, if_pos rfl, List.append_assoc]
      by_cases hnil : piece = [] <;> simp [hnil]
    · rw [List.append_nil, List.splitOn_eq_singleton hfree, keptPieces_single]
      by_cases hnil : piece = []
      · simp [hnil]
      · simp [hnil, cString_piece hpiece₀]
  | cons c rest ih =>
    have hrest' : ∀ c ∈ rest, c ≠ 0 := fun c hc => hrest c (List.mem_cons_of_mem _ hc)
    rw [List.cons_append, tokenizerLoop_turn]
    by_cases hc : c = delimiter
    · subst hc
      have hpiece₀ : ∀ c ∈ piece, c ≠ 0 := fun c hc => (hpiece c hc).2
      have hfree : c ∉ piece := fun hmem => (hpiece c hmem).1 rfl
      let start := if keep || decide (piece ≠ []) then [before.length] else []
      obtain ⟨cut, new, hloop, hnew⟩ := @ih hrest' [] (by simp) (before ++ piece ++ [0]) (storage ++ start)
      have hcut : before ++ piece ++ [0] ++ ([] ++ cut) = before ++ (piece ++ 0 :: cut) := by simp
      have hstorage : (if keep || decide (before.length ≠ (before ++ piece).length) then storage ++ [before.length]
          else storage) = storage ++ start := by
        by_cases hnil : piece = [] <;> cases keep <;> simp [start, hnil]
      have hbefore : before ++ piece ++ [0] ++ [] ++ (rest ++ [0]) = before ++ piece ++ 0 :: (rest ++ [0]) := by simp
      have hlen : (before ++ piece ++ [0]).length = (before ++ piece).length + 1 := List.length_append
      rw [hcut] at hloop hnew
      rw [hbefore, List.append_nil, hlen] at hloop
      refine ⟨0 :: cut, start ++ new, ?_, ?_⟩
      · rw [if_pos rfl, hstorage, hloop, List.append_assoc]
      · rw [List.map_append, hnew, List.nil_append, List.splitOn_append_cons_self_of_not_mem hfree,
          keptPieces_cons (List.splitOn_ne_nil c rest)]
        congr 1
        by_cases hkeep : keep || decide (piece ≠ [])
        · simp only [start, if_pos hkeep, List.map_singleton, cString_piece hpiece₀]
        · simp only [start, if_neg hkeep, List.map_nil]
    · have hc₀ := hrest c List.mem_cons_self
      have hpiece' : ∀ x ∈ piece ++ [c], x ≠ delimiter ∧ x ≠ 0 := by
        intro x hx
        rcases List.mem_append.mp hx with hx | hx
        · exact hpiece x hx
        · rw [List.mem_singleton.mp hx]
          exact ⟨hc, hc₀⟩
      obtain ⟨cut, new, hloop, hnew⟩ := @ih hrest' (piece ++ [c]) hpiece' before storage
      have hcut : before ++ (piece ++ [c] ++ cut) = before ++ (piece ++ c :: cut) := by simp
      have hbefore : before ++ (piece ++ [c]) ++ (rest ++ [0]) = before ++ piece ++ c :: (rest ++ [0]) := by simp
      have hlen : (before ++ (piece ++ [c])).length = (before ++ piece).length + 1 := by
        rw [← List.append_assoc, List.length_append, List.length_singleton]
      rw [hcut] at hloop hnew
      rw [hbefore, hlen] at hloop
      refine ⟨c :: cut, new, ?_, ?_⟩
      · rw [if_neg hc, if_neg hc₀, hloop]
      · rw [hnew, List.append_assoc, List.singleton_append]

end Loop

/-- The tokens are the pieces of the view just when the byte behind the view is a NUL;
with any other byte, or none, the loop leaves its copy. -/
theorem tokenizer_iff {src : List UInt8} {delimiter : UInt8} (hsrc : 0 ∉ src) (hd : delimiter ≠ 0)
    (after : List UInt8) (keep : Bool) :
    tokenizer src after delimiter keep = some (keptPieces keep (src.splitOn delimiter)) ↔
      after.head? = some 0 := by
  have hne : ∀ c ∈ src, c ≠ 0 := fun c hc he => hsrc (he ▸ hc)
  unfold tokenizer
  cases hnext : after.head? with
  | none => simp
  | some next =>
    by_cases hzero : next = 0
    · subst hzero
      obtain ⟨cut, new, hloop, hnew⟩ := @tokenizerLoop_pieces delimiter keep hd src hne [] (by simp) [] []
      simp only [List.nil_append, List.append_nil, List.length_nil] at hloop hnew
      simp [hloop, hnew]
    · have hloop := @tokenizerLoop_none delimiter keep (src ++ [next]) 0 0 [] fun i _ hi => by
        rcases List.mem_append.mp (List.mem_of_getElem? hi) with hmem | hmem
        · exact hsrc hmem
        · exact hzero (List.mem_singleton.mp hmem).symm
      simp [hloop, hzero]

theorem tokenizer_two_pieces : tokenizer [97, 59, 59, 98, 59] [0] 59 true = some [[97], [], [98]] :=
  (@tokenizer_iff [97, 59, 59, 98, 59] 59 (by decide) (by decide) [0] true).mpr rfl

/-- A view of the first byte of `ab`. -/
theorem tokenizer_leaves_copy : tokenizer [97] [98] 59 true = none := by
  have hnone := @tokenizerLoop_none 59 true [97, 98] 0 0 [] fun i _ hi => by
    have hmem := List.mem_of_getElem? hi
    revert hmem
    decide
  simp [tokenizer, hnone]

end TyphoonZero.Utils
