import TyphoonZero.XlsxHeader

/-! Headers that the analyst accepts and the proto generator cannot declare. -/
namespace TyphoonZero.Xlsx

def NamesScalar (strv : Text) : Prop := ∃ type, name2Type.lookup strv = some type ∧ type.isScalar = true

section
variable (stray : Char → Bool)

/-- The type without the signs at its end. -/
def typeText (strv : Text) : Text := strv.rdropWhile (isTypeNameComplexDelimiter stray)

/-- The first sign inside a complex type separates its parts, all of which name scalars. -/
def PartsNameScalars (strv : Text) : Prop :=
  ∃ delimiter, (typeText stray strv).find? (isTypeNameComplexDelimiter stray) = some delimiter ∧
    ∀ part ∈ tokenize (typeText stray strv) [delimiter], NamesScalar part

/-- The header has a type, which is a known name or is made of names of scalars. -/
def HeaderDeclarable (header : Text) : Prop :=
  ∃ strv, (tokenize header getFieldDelimiters)[1]? = some strv ∧
    ((name2Type.lookup strv).isSome = true ∨ PartsNameScalars stray strv)

end

section
variable {stray : Char → Bool} {f g : AnalystField}

lemma getTypeByTypeName_known {strv : Text} {type : XlsxDataType} (h : name2Type.lookup strv = some type) :
    getTypeByTypeName stray strv = type := by
  have hne : strv ≠ [] := by
    rintro rfl
    cases h
  unfold getTypeByTypeName
  rw [if_neg hne, h]

lemma getTypeByTypeName_unknown {strv : Text} (h : name2Type.lookup strv = none) :
    getTypeByTypeName stray strv = .none ∨ (getTypeByTypeName stray strv).isComplex = true := by
  unfold getTypeByTypeName
  rw [h]
  dsimp only
  split_ifs
  · exact Or.inl rfl
  · exact Or.inr rfl
  · exact Or.inr rfl
  · exact Or.inl rfl

lemma isScalar_getTypeByTypeName_iff {strv : Text} :
    (getTypeByTypeName stray strv).isScalar = true ↔ NamesScalar strv := by
  unfold NamesScalar
  cases hlookup : name2Type.lookup strv with
  | none =>
    refine iff_of_false ?_ (by simp)
    rcases @getTypeByTypeName_unknown stray strv hlookup with htype | htype
    · rw [htype]
      exact Bool.false_ne_true
    · cases hcases : getTypeByTypeName stray strv with
      | complexObj | complexArr => exact Bool.false_ne_true
      | _ =>
        rw [hcases] at htype
        cases htype
  | some type =>
    rw [getTypeByTypeName_known hlookup]
    simp

lemma name2Type_type {strv : Text} {type : XlsxDataType} (h : name2Type.lookup strv = some type) :
    type ≠ .none ∧ type.isComplex = false := by
  have hall : ∀ entry ∈ name2Type, entry.2 ≠ .none ∧ entry.2.isComplex = false := by decide
  exact hall _ (lookup_mem h)

/-- What the scan from the end leaves: it stops at the first character. -/
lemma take_trailing (p : Char → Bool) (ch : Char) (strv : Text) :
    (ch :: strv).take ((ch :: strv).length - (strv.reverse.takeWhile p).length) = ch :: strv.rdropWhile p := by
  have hsplit := List.rdropWhile_append_rtakeWhile (p := p) (l := strv)
  have hlen := congrArg List.length hsplit
  rw [List.length_append, List.rtakeWhile, List.length_reverse] at hlen
  have htake := congrArg (List.take (strv.rdropWhile p).length) hsplit
  rw [List.take_left] at htake
  have hcount : (ch :: strv).length - (strv.reverse.takeWhile p).length = (strv.rdropWhile p).length + 1 := by
    rw [List.length_cons]
    omega
  rw [hcount, List.take_succ_cons, ← htake]

/-- Unless only one character is left, the scan takes off all signs. -/
lemma take_eq_typeText {strv : Text}
    (h : 1 < (strv.take (strv.length -
      ((strv.drop 1).reverse.takeWhile (isTypeNameComplexDelimiter stray)).length)).length) :
    strv.take (strv.length - ((strv.drop 1).reverse.takeWhile (isTypeNameComplexDelimiter stray)).length) =
      typeText stray strv := by
  cases strv with
  | nil => cases h
  | cons ch strv =>
    rw [List.drop_one, List.tail_cons, take_trailing] at h ⊢
    have hne : strv.reverse.dropWhile (isTypeNameComplexDelimiter stray) ≠ [] := by
      intro hnil
      rw [List.rdropWhile, hnil] at h
      exact absurd h (lt_irrefl 1)
    rw [typeText, List.rdropWhile, List.rdropWhile, List.reverse_cons, List.dropWhile_append,
      if_neg (by rwa [List.isEmpty_iff]), List.reverse_append]
    rfl

namespace AnalystField

lemma analyzeComplexType_parts {strv : Text} (h : f.analyzeComplexType stray strv = some g) :
    ∃ delimiter, (typeText stray strv).find? (isTypeNameComplexDelimiter stray) = some delimiter ∧
      g.type = f.type ∧
      g.complexField.2 = (tokenize (typeText stray strv) [delimiter]).map (getTypeByTypeName stray) := by
  unfold analyzeComplexType at h
  simp only at h
  split at h
  next => cases h
  next hlength =>
    rw [take_eq_typeText (Nat.lt_of_not_le hlength)] at h
    split at h
    next => cases h
    next delimiter hfind =>
      split at h
      next => cases h
      next =>
        obtain rfl := Option.some.inj h
        exact ⟨delimiter, hfind, rfl, rfl⟩

/-- The type of a field can be declared exactly if its text is a known name or made of names of scalars. -/
lemma analyzeType_declarable {strv : Text} (h : f.analyzeType stray strv = some g) :
    g.Declarable ↔ (name2Type.lookup strv).isSome = true ∨ PartsNameScalars stray strv := by
  cases hlookup : name2Type.lookup strv with
  | some type =>
    obtain ⟨hnone, hsimple⟩ := name2Type_type hlookup
    have hg : g = { f with type := type } := by
      unfold analyzeType at h
      rw [getTypeByTypeName_known hlookup] at h
      cases type with
      | none => exact absurd rfl hnone
      | complexObj | complexArr => cases hsimple
      | _ => exact (Option.some.inj h).symm
    refine iff_of_true ⟨?_, ?_⟩ (Or.inl rfl)
    · rw [hg]
      exact hnone
    · rw [hg, hsimple]
      exact fun habs => absurd habs Bool.false_ne_true
  | none =>
    have hcomplex : ∃ type, type.isComplex = true ∧
        analyzeComplexType stray { f with type := type } strv = some g := by
      unfold analyzeType at h
      rcases @getTypeByTypeName_unknown stray strv hlookup with htype | htype
      · rw [htype] at h
        cases h
      · cases hcases : getTypeByTypeName stray strv with
        | complexObj | complexArr =>
          rw [hcases] at h
          exact ⟨_, rfl, h⟩
        | _ =>
          rw [hcases] at htype
          cases htype
    obtain ⟨type, htype, hg⟩ := hcomplex
    obtain ⟨delimiter, hfind, hsame, hparts⟩ := analyzeComplexType_parts hg
    have hsame' : g.type = type := hsame
    have hnone : type ≠ .none := by
      rintro rfl
      cases htype
    unfold Declarable
    rw [hsame', htype, hparts]
    constructor
    · rintro ⟨-, hscalar⟩
      refine Or.inr ⟨delimiter, hfind, fun part hpart => ?_⟩
      exact isScalar_getTypeByTypeName_iff.mp (hscalar rfl _ (List.mem_map_of_mem hpart))
    · rintro (habs | ⟨delimiter', hfind', hscalar⟩)
      · cases habs
      · obtain rfl := Option.some.inj (hfind.symm.trans hfind')
        refine ⟨hnone, fun _ type' htype' => ?_⟩
        obtain ⟨part, hpart, rfl⟩ := List.mem_map.mp htype'
        exact isScalar_getTypeByTypeName_iff.mpr (hscalar part hpart)

/-- The tokens behind the type leave the type as it is. -/
lemma analyzeToken_later {strv : Text} {i : ℕ} (hi : 2 ≤ i) (h : analyzeToken stray f (strv, i) = some g) :
    g.type = f.type ∧ g.complexField = f.complexField := by
  obtain ⟨i, rfl⟩ := Nat.exists_eq_add_of_le' hi
  rcases i with _ | _ | _ | i <;> obtain rfl := Option.some.inj h <;> exact ⟨rfl, rfl⟩

lemma foldlM_later {tokens : List Text} {k : ℕ} (hk : 2 ≤ k)
    (h : (tokens.zipIdx k).foldlM (analyzeToken stray) f = some g) :
    g.type = f.type ∧ g.complexField = f.complexField := by
  induction tokens generalizing f k with
  | nil =>
    obtain rfl := Option.some.inj h
    exact ⟨rfl, rfl⟩
  | cons token tokens ih =>
    rw [List.zipIdx_cons, List.foldlM_cons] at h
    obtain ⟨next, hnext, hrest⟩ := Option.bind_eq_some_iff.mp h
    obtain ⟨htype, hcomplex⟩ := analyzeToken_later hk hnext
    obtain ⟨htype', hcomplex'⟩ := ih (by omega) hrest
    exact ⟨htype'.trans htype, hcomplex'.trans hcomplex⟩

lemma declarable_congr (htype : g.type = f.type) (hcomplex : g.complexField = f.complexField) :
    g.Declarable ↔ f.Declarable := by
  unfold Declarable
  rw [htype, hcomplex]

lemma analyze_declarable_iff {header : Text} (h : analyze stray header = some f) :
    f.Declarable ↔ HeaderDeclarable stray header := by
  unfold analyze at h
  unfold HeaderDeclarable
  obtain ⟨name, tokens, htokens⟩ := List.exists_cons_of_ne_nil (tokenize_ne_nil header getFieldDelimiters)
  rw [htokens, List.zipIdx_cons, List.foldlM_cons] at h
  obtain ⟨named, hnamed, hrest⟩ := Option.bind_eq_some_iff.mp h
  have hnone : named.type = .none := by
    change analyzeName {} name = some named at hnamed
    unfold analyzeName at hnamed
    split_ifs at hnamed
    obtain rfl := Option.some.inj hnamed
    rfl
  rw [htokens]
  cases tokens with
  | nil =>
    obtain rfl := Option.some.inj hrest
    refine iff_of_false (fun hf => hf.1 hnone) ?_
    rintro ⟨strv, hstrv, -⟩
    cases hstrv
  | cons type tokens =>
    rw [List.zipIdx_cons, List.foldlM_cons] at hrest
    obtain ⟨typed, htyped, hlater⟩ := Option.bind_eq_some_iff.mp hrest
    obtain ⟨htype, hcomplex⟩ := foldlM_later le_rfl hlater
    rw [declarable_congr htype hcomplex, analyzeType_declarable (f := named) htyped]
    constructor
    · exact fun hdeclarable => ⟨type, rfl, hdeclarable⟩
    · rintro ⟨strv, hstrv, hdeclarable⟩
      obtain rfl := Option.some.inj hstrv
      exact hdeclarable

/-- No assertion fails, and the delimiters that are not for nested messages can be counted off. -/
structure Completes (f : AnalystField) : Prop where
  returns : ∀ printer index, (f.generateProtoData printer index).isSome = true
  counts : f.type = .complexArr → 2 ≤ f.complexField.1.length

lemma completes_iff (hwf : f.WellFormed) : f.Completes ↔ f.Declarable := by
  constructor
  · intro hcompletes
    by_contra hnot
    have hsome := hcompletes.returns {} 0
    rw [generateProtoData_none hnot] at hsome
    cases hsome
  · intro hdeclarable
    refine ⟨fun printer index => ?_, fun htype => ?_⟩
    · obtain ⟨q, hq, -⟩ := generateProtoData_lines hdeclarable printer index
      rw [hq]
      rfl
    · unfold WellFormed at hwf
      rwa [htype] at hwf

/-- An accepted header may have no type, or parts that are comments or complex themselves. -/
theorem analyze_completes_iff (stray : Char → Bool) (header : Text) (f : AnalystField)
    (h : analyze stray header = some f) : f.Completes ↔ HeaderDeclarable stray header := by
  rw [completes_iff (analyze_wellFormed h), analyze_declarable_iff h]

theorem analyze_completes_pair :
    let f : AnalystField := { name := "pos".toList, type := .complexObj, complexField := ("-".toList, [.i32, .i32]) }
    analyze (fun _ => false) "pos@i32-i32".toList = some f ∧ f.Completes := by
  have haccepted : analyze (fun _ => false) "pos@i32-i32".toList =
      some { name := "pos".toList, type := .complexObj, complexField := ("-".toList, [.i32, .i32]) } := by
    decide
  refine ⟨haccepted, (analyze_completes_iff _ _ _ haccepted).mpr ⟨"i32-i32".toList, by decide, Or.inr ?_⟩⟩
  refine ⟨'-', by decide, fun part hpart => ?_⟩
  have hpart' : part ∈ ["i32".toList, "i32".toList] := hpart
  rw [List.mem_cons, List.mem_singleton, or_self] at hpart'
  exact ⟨.i32, by rw [hpart']; decide, rfl⟩

theorem analyze_name_only : ∃ f, analyze (fun _ => false) "id".toList = some f ∧ ¬f.Completes := by
  refine ⟨{ name := "id".toList }, by decide, fun hcompletes => ?_⟩
  exact absurd (hcompletes.returns {} 0) (by decide)

end AnalystField
end
end TyphoonZero.Xlsx
