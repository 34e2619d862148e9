import TyphoonZero.XlsxMatch
import TyphoonZero.XlsxRender

/-! Headers of complex columns: what the analyst makes of a header that is written as the grammar
says, and that the cells of its column are read back as the trees that they were rendered from. -/
namespace TyphoonZero.Xlsx

def typeName : XlsxDataType → Text
  | .double => "double".toList
  | .float => "float".toList
  | .i32 => "i32".toList
  | .i64 => "i64".toList
  | .u32 => "u32".toList
  | .u64 => "u64".toList
  | .bool => "bool".toList
  | .str => "str".toList
  | _ => []

/-- A complex type of the grammar: `arrays` are the delimiters of its arrays, the outer ones
first. -/
structure ComplexType (stray : Char → Bool) where
  delimiter : Char
  arrays : Text
  types : List XlsxDataType
  scalar : ∀ type ∈ types, type.isScalar = true
  parts : 2 ≤ types.length
  signs : ∀ ch ∈ delimiter :: arrays, isTypeNameComplexDelimiter stray ch = true
  distinct : (delimiter :: arrays).Nodup

namespace ComplexType
variable {stray : Char → Bool} (T : ComplexType stray)

def names : Text := [T.delimiter].intercalate (T.types.map typeName)

/-- The delimiters of the arrays stand at the end, the outer ones last. -/
def text : Text := T.names ++ T.arrays.reverse

/-- A header cell: the name, the type and what comes after them. -/
def header (name : Text) (extra : List Text) : Text :=
  ['@'].intercalate (name :: T.text :: extra)

def delimiters : Text := T.delimiter :: T.arrays

def CellOf {F : Type} (conv : FloatConversion F) (tree : CellTree F) : Prop :=
  HasType conv T.types T.delimiters T.arrays.length tree

def cell {F : Type} (tree : CellTree F) : Text := render T.delimiter T.arrays tree

end ComplexType

section
variable {stray : Char → Bool}

lemma typeName_eq {type : XlsxDataType} (h : type.isScalar = true) :
    typeName type ≠ [] ∧ name2Type.lookup (typeName type) = some type := by
  cases type with
  | none | desc | complexObj | complexArr => cases h
  | _ => decide

/-- There is no sign in the name of a type. -/
lemma sign_name2Type {entry : Text × XlsxDataType} (h : entry ∈ name2Type) {ch : Char}
    (hch : ch ∈ entry.1) : isTypeNameComplexDelimiter stray ch = false := by
  have hall : name2Type.all fun entry => entry.1.all fun ch =>
      ch.toNat < 128 && !(ch ∈ complexSigns : Bool) := by decide
  have hentry := List.all_eq_true.mp hall entry h
  have hletter := List.all_eq_true.mp hentry ch hch
  rw [Bool.and_eq_true, decide_eq_true_eq, Bool.not_eq_true', decide_eq_false_iff_not] at hletter
  unfold isTypeNameComplexDelimiter
  rw [if_pos hletter.1]
  exact decide_eq_false hletter.2

lemma lookup_mem {strv : Text} {type : XlsxDataType} (h : name2Type.lookup strv = some type) :
    (strv, type) ∈ name2Type := by
  obtain ⟨before, after, hsplit, -⟩ := List.lookup_eq_some_iff.mp h
  rw [hsplit]
  simp

lemma sign_typeName {type : XlsxDataType} (h : type.isScalar = true) {ch : Char}
    (hch : ch ∈ typeName type) : isTypeNameComplexDelimiter stray ch = false :=
  sign_name2Type (lookup_mem (typeName_eq h).2) hch

lemma getTypeByTypeName_typeName {type : XlsxDataType} (h : type.isScalar = true) :
    getTypeByTypeName stray (typeName type) = type := by
  obtain ⟨hne, hlookup⟩ := typeName_eq h
  unfold getTypeByTypeName
  rw [if_neg hne, hlookup]

/-- The last character of joined pieces is one of a piece. -/
lemma intercalate_last {d : Char} {pieces : List Text} (hne : pieces ≠ [])
    (h : ∀ piece ∈ pieces, piece ≠ []) :
    ∃ start ch, [d].intercalate pieces = start ++ [ch] ∧ ∃ piece ∈ pieces, ch ∈ piece := by
  induction pieces with
  | nil => exact absurd rfl hne
  | cons piece pieces ih =>
    cases pieces with
    | nil =>
      obtain ⟨start, ch, hpiece⟩ := List.eq_nil_or_concat' piece |>.resolve_left
        (h piece List.mem_cons_self)
      refine ⟨start, ch, by simpa using hpiece, piece, List.mem_cons_self, ?_⟩
      rw [hpiece]
      simp
    | cons piece' pieces =>
      obtain ⟨start, ch, hrest, p, hp, hch⟩ := ih (by simp) fun q hq =>
        h q (List.mem_cons_of_mem _ hq)
      refine ⟨piece ++ [d] ++ start, ch, ?_, p, List.mem_cons_of_mem _ hp, hch⟩
      rw [List.intercalate_cons_cons, hrest]
      simp only [List.append_assoc]

namespace ComplexType
variable (T : ComplexType stray)

lemma typeNames_cons : ∃ first second rest, T.types.map typeName = first :: second :: rest := by
  have hparts := T.parts
  obtain ⟨type, types, htypes⟩ := List.exists_cons_of_length_pos (l := T.types) (by omega)
  rw [htypes, List.length_cons] at hparts
  obtain ⟨type', types', htypes'⟩ := List.exists_cons_of_length_pos (l := types) (by omega)
  exact ⟨_, _, _, by rw [htypes, htypes', List.map_cons, List.map_cons]⟩

lemma sign_piece {piece : Text} (h : piece ∈ T.types.map typeName) :
    piece ≠ [] ∧ ∀ ch ∈ piece, isTypeNameComplexDelimiter stray ch = false := by
  obtain ⟨type, htype, rfl⟩ := List.mem_map.mp h
  exact ⟨(typeName_eq (T.scalar type htype)).1, fun ch hch =>
    sign_typeName (T.scalar type htype) hch⟩

/-- The first sign in the names is the delimiter of the objects. -/
lemma find_names : T.names.find? (isTypeNameComplexDelimiter stray) = some T.delimiter := by
  obtain ⟨first, second, rest, htypes⟩ := T.typeNames_cons
  have hfirst : first.find? (isTypeNameComplexDelimiter stray) = none := by
    apply List.find?_eq_none.mpr
    intro ch hch
    rw [(T.sign_piece (by rw [htypes]; exact List.mem_cons_self)).2 ch hch]
    simp
  unfold names
  rw [htypes, List.intercalate_cons_cons, List.append_assoc, List.find?_append, hfirst,
    Option.none_or, List.singleton_append, List.find?_cons_of_pos]
  exact T.signs _ List.mem_cons_self

lemma tokenize_names : tokenize T.names [T.delimiter] = T.types.map typeName := by
  apply tokenize_intercalate
  · obtain ⟨first, second, rest, htypes⟩ := T.typeNames_cons
    rw [htypes]
    simp
  · intro piece hpiece hmem
    have hsign := (T.sign_piece hpiece).2 _ hmem
    rw [T.signs _ List.mem_cons_self] at hsign
    cases hsign

/-- The names end with a letter, and there is something before it. -/
lemma names_last : ∃ first middle last, T.names = first :: middle ++ [last] ∧
    isTypeNameComplexDelimiter stray last = false := by
  obtain ⟨name, second, rest, htypes⟩ := T.typeNames_cons
  obtain ⟨start, last, hlast, piece, hpiece, hch⟩ := @intercalate_last T.delimiter _
    (by rw [htypes]; simp) fun piece hpiece => (T.sign_piece hpiece).1
  have hsign := (T.sign_piece hpiece).2 _ hch
  have hfind := T.find_names
  unfold names at hfind ⊢
  rw [hlast] at hfind ⊢
  cases start with
  | nil =>
    rw [List.nil_append, List.find?_singleton, hsign] at hfind
    cases hfind
  | cons first middle => exact ⟨first, middle, last, rfl, hsign⟩

lemma getTypeByTypeName_text : getTypeByTypeName stray T.text =
    if T.arrays = [] then .complexObj else .complexArr := by
  obtain ⟨first, middle, last, hnames, hlast⟩ := T.names_last
  have hdelimiter : T.delimiter ∈ T.text :=
    List.mem_append_left _ (List.mem_of_find?_eq_some T.find_names)
  have hsign : isTypeNameComplexDelimiter stray T.delimiter = true := T.signs _ List.mem_cons_self
  have hlookup : name2Type.lookup T.text = none := by
    cases hl : name2Type.lookup T.text with
    | none => rfl
    | some type =>
      have hno := @sign_name2Type stray _ (lookup_mem hl) _ hdelimiter
      rw [hsign] at hno
      cases hno
  have hobj : isTypeNameComplexObj stray T.text = true := List.any_eq_true.mpr ⟨_, hdelimiter, hsign⟩
  have harr : isTypeNameComplexArr stray T.text = !decide (T.arrays = []) := by
    unfold isTypeNameComplexArr text
    cases harrays : T.arrays with
    | nil =>
      rw [List.reverse_nil, List.append_nil, hnames, List.getLast?_concat]
      simpa using hlast
    | cons d arrays =>
      have hd := T.signs d (by rw [harrays]; simp)
      simp [hd]
  have hne : T.text ≠ [] := List.ne_nil_of_mem hdelimiter
  unfold getTypeByTypeName
  simp only [hne, if_false, hlookup, hobj, if_true, harr]
  by_cases harrays : T.arrays = [] <;> simp [harrays]

/-- The signs at the end are those of the arrays. -/
lemma takeWhile_text :
    (T.text.drop 1).reverse.takeWhile (isTypeNameComplexDelimiter stray) = T.arrays := by
  obtain ⟨first, middle, last, hnames, hlast⟩ := T.names_last
  have hsigns : ∀ ch ∈ T.arrays, isTypeNameComplexDelimiter stray ch = true := fun ch hch =>
    T.signs ch (List.mem_cons_of_mem _ hch)
  have hreverse : (T.text.drop 1).reverse = T.arrays ++ last :: middle.reverse := by
    unfold text
    simp [hnames]
  rw [hreverse, List.takeWhile_append_of_pos hsigns, List.takeWhile_cons_of_neg, List.append_nil]
  simp [hlast]

/-- The description that a header of this type makes: the delimiters in the order of the levels, and
the types of the parts. -/
lemma analyzeType_text (f : AnalystField) : f.analyzeType stray T.text =
    some { f with
      type := if T.arrays = [] then .complexObj else .complexArr
      complexField := (T.arrays ++ [T.delimiter], T.types) } := by
  obtain ⟨first, middle, last, hnames, -⟩ := T.names_last
  have htake : T.text.take (T.text.length - T.arrays.length) = T.names := by
    unfold text
    rw [List.length_append, List.length_reverse, Nat.add_sub_cancel, List.take_left]
  have hlength : ¬ T.names.length ≤ 1 := by
    simp [hnames]
  have htypes : (T.types.map typeName).map (getTypeByTypeName stray) = T.types := by
    have hid : ∀ type ∈ T.types, (getTypeByTypeName stray ∘ typeName) type = id type :=
      fun type htype => getTypeByTypeName_typeName (T.scalar type htype)
    rw [List.map_map, List.map_congr_left hid, List.map_id]
  have hnone : XlsxDataType.none ∉ T.types := by
    intro hmem
    have hscalar := T.scalar _ hmem
    cases hscalar
  have hcomplex : ∀ g : AnalystField, g.analyzeComplexType stray T.text =
      some { g with complexField := (T.arrays ++ [T.delimiter], T.types) } := by
    intro g
    unfold AnalystField.analyzeComplexType
    simp only [T.takeWhile_text, htake, hlength, if_false, T.find_names, T.tokenize_names, htypes,
      hnone]
  unfold AnalystField.analyzeType
  rw [T.getTypeByTypeName_text]
  by_cases harrays : T.arrays = []
  · simp only [harrays, if_true, hcomplex]
  · simp only [harrays, if_false, hcomplex]

lemma at_not_mem_text : '@' ∉ T.text := by
  have hsign : isTypeNameComplexDelimiter stray '@' = false := rfl
  have hnot : '@' ∉ T.delimiter :: T.arrays := by
    intro hmem
    rw [T.signs _ hmem] at hsign
    cases hsign
  have hnames : ∀ type, '@' ∉ typeName type := by
    intro type
    cases type <;> decide
  intro hmem
  obtain h | h := List.mem_append.mp hmem
  · obtain h | ⟨piece, hpiece, h⟩ := mem_intercalate h
    · exact hnot (List.mem_cons.mpr (.inl h))
    · obtain ⟨type, -, rfl⟩ := List.mem_map.mp hpiece
      exact hnames type h
  · exact hnot (List.mem_cons_of_mem _ (List.mem_reverse.mp h))

end ComplexType

/-- What comes after the type leaves the name and the type as they are. -/
lemma foldlM_extra (extra : List Text) (start : ℕ) (f : AnalystField) :
    ∃ g, (extra.zipIdx (start + 2)).foldlM (AnalystField.analyzeToken stray) f = some g ∧
      g.name = f.name ∧ g.type = f.type ∧ g.complexField = f.complexField := by
  induction extra generalizing start f with
  | nil => exact ⟨f, rfl, rfl, rfl, rfl⟩
  | cons text extra ih =>
    obtain ⟨g, hg, hname, htype, hcomplex⟩ : ∃ g,
        AnalystField.analyzeToken stray f (text, start + 2) = some g ∧
        g.name = f.name ∧ g.type = f.type ∧ g.complexField = f.complexField := by
      match start with
      | 0 | 1 | 2 | _ + 3 => exact ⟨_, rfl, rfl, rfl, rfl⟩
    obtain ⟨g', hg', hname', htype', hcomplex'⟩ := ih (start + 1) g
    refine ⟨g', ?_, by rw [hname', hname], by rw [htype', htype], by rw [hcomplex', hcomplex]⟩
    rw [List.zipIdx_cons, List.foldlM_cons, hg]
    exact hg'

lemma ComplexType.analyze_header (T : ComplexType stray) {name : Text} {extra : List Text}
    (hname : name ≠ []) (hfields : ∀ field ∈ name :: extra, '@' ∉ field) :
    ∃ f, AnalystField.analyze stray (T.header name extra) = some f ∧ f.name = name ∧
      f.type = (if T.arrays = [] then .complexObj else .complexArr) ∧
      f.complexField = (T.arrays ++ [T.delimiter], T.types) := by
  have htokens : tokenize (T.header name extra) getFieldDelimiters = name :: T.text :: extra := by
    apply tokenize_intercalate
    · simp
    · intro field hfield
      obtain rfl | hfield := List.mem_cons.mp hfield
      · exact hfields _ List.mem_cons_self
      · obtain rfl | hfield := List.mem_cons.mp hfield
        · exact T.at_not_mem_text
        · exact hfields _ (List.mem_cons_of_mem _ hfield)
  have hstart : AnalystField.analyzeToken stray {} (name, 0) = some { name := name } := by
    simp [AnalystField.analyzeToken, AnalystField.analyzeName, hname]
  obtain ⟨f, hf, hfname, hftype, hfcomplex⟩ := foldlM_extra extra 0
    ({ name := name, type := if T.arrays = [] then .complexObj else .complexArr,
       complexField := (T.arrays ++ [T.delimiter], T.types) } : AnalystField)
  refine ⟨f, ?_, hfname, hftype, hfcomplex⟩
  unfold AnalystField.analyze
  rw [htokens, List.zipIdx_cons, List.foldlM_cons, hstart]
  change (((T.text, 1) :: extra.zipIdx 2).foldlM (AnalystField.analyzeToken stray) _) = _
  rw [List.foldlM_cons]
  have htype := T.analyzeType_text { name := name }
  change (AnalystField.analyzeType stray _ _ >>= _) = _
  rw [htype]
  exact hf

variable {F : Type} {conv : FloatConversion F} {T : ComplexType stray} {tree : CellTree F}

/-- A rendered cell has the delimiter of the objects in it. -/
lemma delimiter_mem_cell (h : T.CellOf conv tree) : T.delimiter ∈ T.cell tree := by
  have key : ∀ (arrays : Text) (tree : CellTree F),
      HasType conv T.types T.delimiters arrays.length tree →
      T.delimiter ∈ render T.delimiter arrays tree := by
    intro arrays
    induction arrays with
    | nil =>
      intro tree htree
      cases tree with
      | array elements => cases htree
      | object parts =>
        have hlength : T.types.length = parts.length := List.Forall₂.length_eq htree
        have hparts := T.parts
        match parts with
        | [] | [_] =>
          simp only [List.length_cons, List.length_nil] at hlength
          omega
        | first :: second :: rest => simp [render]
    | cons d arrays ih =>
      intro tree htree
      cases tree with
      | object parts => cases htree
      | array elements =>
        obtain ⟨e, rest, helements⟩ := List.exists_cons_of_ne_nil htree.1
        have he : e ∈ elements := by rw [helements]; exact List.mem_cons_self
        exact mem_intercalate_of_mem (List.mem_map_of_mem he) (ih e (htree.2 e he))
  exact key T.arrays tree h

/-- The description of the type reads the cell as the tree that it was rendered from. -/
lemma generateMember_cell {f : AnalystField}
    (htype : f.type = if T.arrays = [] then .complexObj else .complexArr)
    (hcomplex : f.complexField = (T.arrays ++ [T.delimiter], T.types))
    (htree : T.CellOf conv tree) (depth : ℕ) (rowData : Members F) :
    f.generateMember conv (depth + 2) f.type f.name (T.cell tree) rowData =
      some (rowData ++ [(f.name, toJson tree)], true) := by
  have htypes : f.complexField.2 = T.types := by rw [hcomplex]
  have hscalar : ∀ type ∈ f.complexField.2, type.isScalar = true := by
    rw [htypes]
    exact T.scalar
  have hparts : f.complexField.2 ≠ [] := by
    have hlength := T.parts
    rw [htypes]
    intro hnil
    simp [hnil] at hlength
  have hobj : ∀ parts, HasType conv f.complexField.2 T.delimiters 0 (.object parts) →
      f.generateJsonDataComplexObj (f.generateMember conv (depth + 1))
        (render T.delimiter [] (.object parts)) [T.delimiter] = some (partMembers parts 0) := by
    intro parts h
    exact AnalystField.generateJsonDataComplexObj_render _ h hscalar hparts List.mem_cons_self
  obtain ⟨hnot, hdistinct⟩ := List.nodup_cons.mp T.distinct
  unfold ComplexType.CellOf at htree
  unfold ComplexType.cell
  rw [← htypes] at htree
  cases harrays : T.arrays with
  | nil =>
    rw [harrays] at htree htype hcomplex
    cases tree with
    | array elements => cases htree
    | object parts =>
      rw [htype, if_pos rfl, AnalystField.generateMember, hcomplex, List.nil_append,
        hobj parts htree]
      rfl
  | cons d arrays =>
    rw [harrays] at htree htype hcomplex hdistinct hnot
    cases tree with
    | object parts => cases htree
    | array elements =>
      have hsub : ∀ ch ∈ d :: arrays, ch ∈ T.delimiters := by
        intro ch hch
        unfold ComplexType.delimiters
        rw [harrays]
        exact List.mem_cons_of_mem _ hch
      have hread := AnalystField.generateJsonDataComplexArr_render hobj htree hdistinct hsub hnot 0
      rw [htype, if_neg (by simp), AnalystField.generateMember, hcomplex, hread]
      rfl

/-- A cell that was rendered from a tree is read back as that tree, below every header that declares
its type. -/
theorem generateJsonData_render {name : Text} {extra : List Text} (hname : name ≠ [])
    (hfields : ∀ field ∈ name :: extra, '@' ∉ field) (htree : T.CellOf conv tree) :
    ∃ f, AnalystField.analyze stray (T.header name extra) = some f ∧
      ∀ rowData, f.generateJsonData conv rowData (T.cell tree) =
        some (rowData ++ [(name, toJson tree)], true) := by
  obtain ⟨f, hf, hfname, hftype, hfcomplex⟩ := T.analyze_header hname hfields
  refine ⟨f, hf, ?_⟩
  intro rowData
  have hne : T.cell tree ≠ [] := List.ne_nil_of_mem (delimiter_mem_cell htree)
  have hmember := generateMember_cell hftype hfcomplex htree (T.cell tree).length rowData
  rw [hfname] at hmember
  unfold AnalystField.generateJsonData
  cases f.constraintType <;> simp [hne, hfname, hmember]

end

/-- The type `u32-u32;|` and the cell `1001-800;1002-300|2001-800`. -/
def rewardType : ComplexType fun _ => false where
  delimiter := '-'
  arrays := "|;".toList
  types := [.u32, .u32]
  scalar := by decide
  parts := by decide
  signs := List.all_eq_true.mp (by decide)
  distinct := by decide

def rewardTree : CellTree Unit :=
  .array [.array [.object [("1001".toList, .uint 1001), ("800".toList, .uint 800)],
      .object [("1002".toList, .uint 1002), ("300".toList, .uint 300)]],
    .array [.object [("2001".toList, .uint 2001), ("800".toList, .uint 800)]]]

theorem generateJsonData_render_reward :
    rewardType.header "reward".toList ["*".toList] = "reward@u32-u32;|@*".toList ∧
      rewardType.cell rewardTree = "1001-800;1002-300|2001-800".toList ∧
      ∃ f, AnalystField.analyze (fun _ => false) "reward@u32-u32;|@*".toList = some f ∧
        f.generateJsonData noFloats [] "1001-800;1002-300|2001-800".toList =
          some ([("reward".toList, toJson rewardTree)], true) := by
  have hpart : ∀ (text : Text) (n : ℕ), scalarValue noFloats text .u32 = some (.uint n) →
      (text.all fun ch => ch ∉ rewardType.delimiters) = true →
      scalarValue noFloats text .u32 = some (.uint n) ∧
        ∀ ch ∈ text, ch ∉ rewardType.delimiters := by
    intro text n hvalue hfree
    exact ⟨hvalue, fun ch hch => of_decide_eq_true (List.all_eq_true.mp hfree ch hch)⟩
  have h800 := hpart "800".toList 800 rfl (by decide)
  have hfirst : HasType noFloats rewardType.types rewardType.delimiters 0 (.object
      [("1001".toList, .uint 1001), ("800".toList, .uint 800)]) :=
    .cons (hpart _ _ rfl (by decide)) (.cons h800 .nil)
  have hsecond : HasType noFloats rewardType.types rewardType.delimiters 0 (.object
      [("1002".toList, .uint 1002), ("300".toList, .uint 300)]) :=
    .cons (hpart _ _ rfl (by decide)) (.cons (hpart _ _ rfl (by decide)) .nil)
  have hthird : HasType noFloats rewardType.types rewardType.delimiters 0 (.object
      [("2001".toList, .uint 2001), ("800".toList, .uint 800)]) :=
    .cons (hpart _ _ rfl (by decide)) (.cons h800 .nil)
  have htree : rewardType.CellOf noFloats rewardTree := by
    refine ⟨by simp, List.forall_mem_cons.mpr ⟨⟨by simp, ?_⟩, List.forall_mem_singleton.mpr
      ⟨by simp, ?_⟩⟩⟩
    · exact List.forall_mem_cons.mpr ⟨hfirst, List.forall_mem_singleton.mpr hsecond⟩
    · exact List.forall_mem_singleton.mpr hthird
  have hname : "reward".toList ≠ [] := by decide
  have hfields : ∀ field ∈ ["reward".toList, "*".toList], '@' ∉ field := by decide
  obtain ⟨f, hf, hread⟩ := generateJsonData_render hname hfields htree
  exact ⟨by decide, by decide, f, hf, hread []⟩

end TyphoonZero.Xlsx
