import TyphoonZero.XlsxProto

/-! What the proto generator declares: the lines of a field, the declarations they make and the
braces in them. -/
namespace TyphoonZero.Xlsx

namespace XlsxDataType

/-- The types of a single value. -/
def isScalar : XlsxDataType → Bool
  | .none | .desc | .complexObj | .complexArr => false
  | _ => true

def isComplex : XlsxDataType → Bool
  | .complexObj | .complexArr => true
  | _ => false

def protoName (type : XlsxDataType) : Text := (getProto3TypeByType type).getD []

lemma getProto3TypeByType_isScalar {type : XlsxDataType} (h : type.isScalar = true) :
    getProto3TypeByType type = some type.protoName := by
  cases type with
  | none | desc | complexObj | complexArr => cases h
  | _ => rfl

lemma getProto3TypeByType_none {type : XlsxDataType} (h : type.isScalar = false) :
    getProto3TypeByType type = Option.none := by
  cases type with
  | none | desc | complexObj | complexArr => rfl
  | _ => cases h

/-- The names of the scalar types start with a small letter. -/
lemma protoName_head {type : XlsxDataType} (h : type.isScalar = true) :
    ∃ ch strv, type.protoName = ch :: strv ∧ ch.isLower = true := by
  cases type with
  | none | desc | complexObj | complexArr => cases h
  | _ => exact ⟨_, _, rfl, rfl⟩

lemma braces_protoName (type : XlsxDataType) : braces type.protoName = [] := by
  cases type <;> rfl

end XlsxDataType

lemma Printer.lines_foldl {α : Type} {step : Printer → α → Printer} {g : α → List ProtoLine}
    (h : ∀ p x, (step p x).lines = p.lines ++ g x) (l : List α) (p : Printer) :
    (l.foldl step p).lines = p.lines ++ l.flatMap g := by
  induction l generalizing p with
  | nil => simp
  | cons x l ih => rw [List.foldl_cons, ih, h, List.flatMap_cons, List.append_assoc]

namespace AnalystField
variable (f : AnalystField)

/-- The levels of arrays inside the outer one. -/
def levels : ℕ :=
  match f.type with
  | .complexArr => f.complexField.1.length - 2
  | _ => 0

/-- The type can be declared, and so can the types of its parts. -/
def Declarable : Prop :=
  f.type ≠ .none ∧
    (f.type.isComplex = true → ∀ type ∈ f.complexField.2, type.isScalar = true)

instance : Decidable f.Declarable := inferInstanceAs (Decidable (_ ∧ _))

def memberLines (types : List XlsxDataType) (start : ℕ) : List ProtoLine :=
  (types.zipIdx start).map fun (type, i) => .field false type.protoName (memberName i) (i + 1)

def memberDecls (types : List XlsxDataType) (start : ℕ) : List Decl :=
  (types.zipIdx start).map fun (type, i) => .field false type.protoName (memberName i) (i + 1)

def openLine (name : Text) (i : ℕ) : ProtoLine := .message (nestTypeName name (i + 1))

def closeLines (name : Text) (i : ℕ) : List ProtoLine :=
  [.close, .field true (nestTypeName name (i + 1)) (nestName (i + 1)) 1]

/-- The lines of the nested messages from the level `i` on. -/
def nestLines (name : Text) (inner : List ProtoLine) (i levels : ℕ) : List ProtoLine :=
  (List.range' i levels).map (openLine name) ++ inner ++
    (List.range' i levels).reverse.flatMap (closeLines name)

def nestDecls (name : Text) (inner : List Decl) : ℕ → ℕ → List Decl
  | _, 0 => inner
  | i, levels + 1 =>
    [.message (nestTypeName name (i + 1)) (nestDecls name inner (i + 1) levels),
      .field true (nestTypeName name (i + 1)) (nestName (i + 1)) 1]

def lines (index : ℕ) : List ProtoLine :=
  if f.type = .desc then []
  else if f.type.isComplex then
    .message (capitalizeFirstLetter f.name) ::
      nestLines f.name (memberLines f.complexField.2 0) 0 f.levels ++ [.close] ++
      [.field (f.type = .complexArr) (capitalizeFirstLetter f.name) (lowercaseString f.name) index]
  else [.field false f.type.protoName f.name index]

def decls (index : ℕ) : List Decl :=
  if f.type = .desc then []
  else if f.type.isComplex then
    [.message (capitalizeFirstLetter f.name)
        (nestDecls f.name (memberDecls f.complexField.2 0) 0 f.levels),
      .field (f.type = .complexArr) (capitalizeFirstLetter f.name) (lowercaseString f.name) index]
  else [.field false f.type.protoName f.name index]

/-- The name of the field as often as it is written, with the braces of its messages. -/
def marks : Text :=
  if f.type = .desc then []
  else if f.type.isComplex then
    f.name ++ '{' :: ((List.replicate f.levels (f.name ++ ['{'])).flatten ++
      (List.replicate f.levels ('}' :: f.name)).flatten) ++ '}' :: f.name ++ f.name
  else f.name

variable {f}

lemma generateMembers_fold (types : List XlsxDataType) (start : ℕ) (p : Printer) :
    (∀ type ∈ types, type.isScalar = true) →
    ∃ q, (types.zipIdx start).foldlM (fun printer (type, i) => do
        let typeName ← getProto3TypeByType type
        some (printer.println (.field false typeName (memberName i) (i + 1)))) p = some q ∧
      q.lines = p.lines ++ memberLines types start := by
  induction types generalizing start p with
  | nil =>
    intro _
    exact ⟨p, rfl, by simp [memberLines]⟩
  | cons type types ih =>
    intro hscalar
    have htype := hscalar type List.mem_cons_self
    obtain ⟨q, hq, hlines⟩ := ih (start + 1)
      (p.println (.field false type.protoName (memberName start) (start + 1)))
      fun t ht => hscalar t (List.mem_cons_of_mem _ ht)
    refine ⟨q, ?_, ?_⟩
    · simp only [List.zipIdx_cons, List.foldlM_cons, Option.bind_eq_bind,
        XlsxDataType.getProto3TypeByType_isScalar htype, Option.bind_some]
      exact hq
    · rw [hlines, Printer.lines_println, List.append_assoc]
      rfl

lemma generateMembers_lines (h : ∀ type ∈ f.complexField.2, type.isScalar = true) (p : Printer) :
    ∃ q, f.generateMembers p = some q ∧ q.lines = p.lines ++ memberLines f.complexField.2 0 :=
  generateMembers_fold f.complexField.2 0 p h

lemma generateMembers_none (h : ¬ ∀ type ∈ f.complexField.2, type.isScalar = true)
    (p : Printer) : f.generateMembers p = none := by
  have key : ∀ (types : List XlsxDataType) (start : ℕ) (p : Printer),
      (∃ type ∈ types, type.isScalar = false) →
      (types.zipIdx start).foldlM (fun (printer : Printer) (type, i) => do
        let typeName ← getProto3TypeByType type
        some (printer.println (.field false typeName (memberName i) (i + 1)))) p = none := by
    intro types
    induction types with
    | nil => simp
    | cons type types ih =>
      intro start p hbad
      simp only [List.zipIdx_cons, List.foldlM_cons, Option.bind_eq_bind]
      cases htype : type.isScalar with
      | true =>
        have hrest : ∃ t ∈ types, t.isScalar = false := by simpa [htype] using hbad
        simp only [XlsxDataType.getProto3TypeByType_isScalar htype, Option.bind_some]
        exact ih _ _ hrest
      | false =>
        simp only [XlsxDataType.getProto3TypeByType_none htype, Option.bind_none]
  apply key
  simpa using h

lemma openNests_lines (name : Text) (levels : ℕ) (p : Printer) :
    (openNests name levels p).lines =
      p.lines ++ (List.range' 0 levels).map (openLine name) := by
  unfold openNests
  have hstep : ∀ (p : Printer) (i : ℕ),
      ((p.println (.message (nestTypeName name (i + 1)))).indent).lines =
        p.lines ++ [openLine name i] := by
    intro p i
    simp [openLine]
  rw [Printer.lines_foldl hstep, List.range_eq_range', List.map_eq_flatMap]

lemma closeNests_lines (name : Text) (levels : ℕ) (p : Printer) :
    (closeNests name levels p).lines =
      p.lines ++ (List.range' 0 levels).reverse.flatMap (closeLines name) := by
  unfold closeNests
  have hstep : ∀ (p : Printer) (i : ℕ),
      ((p.outdent.println .close).println
        (.field true (nestTypeName name (levels - i)) (nestName (levels - i)) 1)).lines =
        p.lines ++ [.close,
          .field true (nestTypeName name (levels - i)) (nestName (levels - i)) 1] := by
    intro p i
    simp
  rw [Printer.lines_foldl hstep]
  -- the loop counts up while the levels go down
  have hdown : (List.range levels).map (fun i => levels - i) =
      (List.range' 0 levels).reverse.map (· + 1) := by
    apply List.ext_getElem
    · simp
    · intro i hi hi'
      simp at hi ⊢
      omega
  have hflat : ∀ g : ℕ → List ProtoLine, (List.range levels).flatMap (fun i => g (levels - i)) =
      (List.range' 0 levels).reverse.flatMap (fun i => g (i + 1)) := by
    intro g
    have hmap := congrArg (List.flatMap g) hdown
    simpa only [List.flatMap_map] using hmap
  rw [hflat fun k => [.close, .field true (nestTypeName name k) (nestName k) 1]]
  rfl

lemma generateProtoData_lines (h : f.Declarable) (p : Printer) (index : ℕ) :
    ∃ q, f.generateProtoData p index = some q ∧ q.lines = p.lines ++ f.lines index := by
  obtain ⟨hnone, hparts⟩ := h
  unfold generateProtoData
  cases ht : f.type with
  | none => exact absurd ht hnone
  | desc => exact ⟨p, rfl, by simp [lines, ht]⟩
  | complexObj =>
    have hscalar := hparts (by rw [ht]; rfl)
    obtain ⟨q, hq, hlines⟩ := generateMembers_lines hscalar
      ((p.println (.message (capitalizeFirstLetter f.name))).indent)
    simp only [hq, Option.bind_eq_bind, Option.bind_some]
    refine ⟨_, rfl, ?_⟩
    simp [hlines, lines, ht, XlsxDataType.isComplex, nestLines, levels]
  | complexArr =>
    have hscalar := hparts (by rw [ht]; rfl)
    obtain ⟨q, hq, hlines⟩ := generateMembers_lines hscalar
      (openNests f.name (f.complexField.1.length - 2)
        ((p.println (.message (capitalizeFirstLetter f.name))).indent))
    simp only [hq, Option.bind_eq_bind, Option.bind_some]
    refine ⟨_, rfl, ?_⟩
    simp [closeNests_lines, hlines, openNests_lines, lines, ht, XlsxDataType.isComplex, nestLines,
      levels]
  | _ => exact ⟨_, rfl, by simp [lines, ht, XlsxDataType.isComplex, XlsxDataType.protoName,
      getProto3TypeByType]⟩

lemma generateProtoData_none (h : ¬ f.Declarable) (p : Printer) (index : ℕ) :
    f.generateProtoData p index = none := by
  unfold generateProtoData
  cases ht : f.type with
  | none => rfl
  | complexObj | complexArr =>
    have hparts : ¬ ∀ type ∈ f.complexField.2, type.isScalar = true := by
      intro hall
      exact h ⟨by simp [ht], fun _ => hall⟩
    simp only [generateMembers_none hparts, Option.bind_eq_bind, Option.bind_none]
  | _ => exact absurd ⟨by simp [ht], by simp [ht, XlsxDataType.isComplex]⟩ h

lemma declares_members (types : List XlsxDataType) (start : ℕ) :
    Declares (memberLines types start) (memberDecls types start) := by
  induction types generalizing start with
  | nil => exact Declares.nil
  | cons type types ih => exact Declares.field.append (ih (start + 1))

lemma declares_nests (name : Text) {inner : List ProtoLine} {decls : List Decl}
    (h : Declares inner decls) (levels i : ℕ) :
    Declares (nestLines name inner i levels) (nestDecls name decls i levels) := by
  induction levels generalizing i with
  | zero => simpa [nestLines, nestDecls] using h
  | succ levels ih =>
    have hlines : nestLines name inner i (levels + 1) =
        (.message (nestTypeName name (i + 1)) :: nestLines name inner (i + 1) levels ++ [.close]) ++
          [.field true (nestTypeName name (i + 1)) (nestName (i + 1)) 1] := by
      simp [nestLines, List.range'_succ, openLine, closeLines]
    rw [hlines]
    exact ((ih (i + 1)).message _).append Declares.field

lemma declares_lines (f : AnalystField) (index : ℕ) : Declares (f.lines index) (f.decls index) := by
  unfold lines decls
  split
  next => exact Declares.nil
  next =>
    split
    next =>
      have hnests := declares_nests f.name (declares_members f.complexField.2 0) f.levels 0
      exact (hnests.message (capitalizeFirstLetter f.name)).append Declares.field
    next => exact Declares.field

/-- The braces of printed lines. -/
def lineBraces (lines : List ProtoLine) : Text := lines.flatMap fun line => braces line.text

lemma lineBraces_append (lines lines' : List ProtoLine) :
    lineBraces (lines ++ lines') = lineBraces lines ++ lineBraces lines' := List.flatMap_append

lemma braces_message (name : Text) : braces (ProtoLine.message name).text = braces name ++ ['{'] := by
  unfold ProtoLine.text
  rw [braces_append, braces_append]
  rfl

lemma braces_field (repeated : Bool) (type name : Text) (index : ℕ) :
    braces (ProtoLine.field repeated type name index).text = braces type ++ braces name := by
  have hspace : isBrace ' ' = false := rfl
  have hequal : braces " = ".toList = [] := rfl
  have hend : braces [';'] = [] := rfl
  have hrepeated : braces (if repeated then "repeated ".toList else []) = [] := by
    cases repeated <;> rfl
  unfold ProtoLine.text
  simp only [braces_append, braces_cons, hspace, hequal, hend, hrepeated, braces_digits,
    List.nil_append, List.append_nil, Bool.false_eq_true, if_false]

lemma braces_close : braces ProtoLine.close.text = ['}'] := rfl

lemma braces_memberName (i : ℕ) : braces (memberName i) = [] := by
  unfold memberName
  rw [braces_cons, braces_digits]
  rfl

lemma braces_nestName (i : ℕ) : braces (nestName i) = [] := by
  unfold nestName
  rw [braces_append, braces_digits]
  rfl

lemma braces_nestTypeName (name : Text) (i : ℕ) : braces (nestTypeName name i) = braces name := by
  have hnest : braces "Nest".toList = [] := rfl
  unfold nestTypeName
  rw [braces_append, braces_append, braces_digits, hnest, braces_capitalizeFirstLetter,
    List.append_nil, List.append_nil]

lemma lineBraces_members (types : List XlsxDataType) (start : ℕ) :
    lineBraces (memberLines types start) = [] := by
  induction types generalizing start with
  | nil => rfl
  | cons type types ih =>
    have hcons : memberLines (type :: types) start =
        [.field false type.protoName (memberName start) (start + 1)] ++
          memberLines types (start + 1) := rfl
    rw [hcons, lineBraces_append, ih]
    simp [lineBraces, braces_field, XlsxDataType.braces_protoName, braces_memberName]

lemma flatMap_const {α β : Type} (l : List α) (x : List β) :
    l.flatMap (fun _ => x) = (List.replicate l.length x).flatten := by
  induction l with
  | nil => rfl
  | cons a l ih => rw [List.flatMap_cons, ih, List.length_cons, List.replicate_succ,
      List.flatten_cons]

lemma lineBraces_nests (name : Text) {inner : List ProtoLine} (h : lineBraces inner = [])
    (i levels : ℕ) : lineBraces (nestLines name inner i levels) =
      (List.replicate levels (braces name ++ ['{'])).flatten ++
        (List.replicate levels ('}' :: braces name)).flatten := by
  have hopen : lineBraces ((List.range' i levels).map (openLine name)) =
      (List.replicate levels (braces name ++ ['{'])).flatten := by
    unfold lineBraces
    rw [List.flatMap_map]
    simp only [openLine, braces_message, braces_nestTypeName]
    rw [flatMap_const, List.length_range']
  have hclose : lineBraces ((List.range' i levels).reverse.flatMap (closeLines name)) =
      (List.replicate levels ('}' :: braces name)).flatten := by
    have hline : ∀ j, lineBraces (closeLines name j) = '}' :: braces name := by
      intro j
      simp [lineBraces, closeLines, braces_close, braces_field, braces_nestTypeName,
        braces_nestName]
    unfold lineBraces at hline ⊢
    rw [List.flatMap_assoc]
    simp only [hline]
    rw [flatMap_const, List.length_reverse, List.length_range']
  unfold nestLines
  rw [lineBraces_append, lineBraces_append, hopen, h, hclose, List.append_nil]

lemma braces_flatten_replicate (n : ℕ) (strv : Text) :
    braces (List.replicate n strv).flatten = (List.replicate n (braces strv)).flatten := by
  induction n with
  | zero => rfl
  | succ n ih =>
    rw [List.replicate_succ, List.flatten_cons, braces_append, ih, List.replicate_succ,
      List.flatten_cons]

/-- The braces of the lines of a field are those of its marks. -/
lemma lineBraces_lines (f : AnalystField) (index : ℕ) :
    lineBraces (f.lines index) = braces f.marks := by
  have hopen : isBrace '{' = true := rfl
  have hclose : isBrace '}' = true := rfl
  unfold lines marks
  split
  next => rfl
  next =>
    split
    next =>
      have hmessage : ∀ (name : Text) (rest : List ProtoLine),
          lineBraces (.message name :: rest) = braces name ++ '{' :: lineBraces rest := by
        intro name rest
        simp [lineBraces, braces_message]
      simp only [List.cons_append, hmessage, lineBraces_append,
        lineBraces_nests f.name (lineBraces_members _ 0)]
      simp [lineBraces, braces_field, braces_close, braces_append, braces_cons, braces_nil, hopen,
        hclose, braces_capitalizeFirstLetter, braces_lowercaseString, braces_flatten_replicate]
    next => simp [lineBraces, braces_field, XlsxDataType.braces_protoName]

end AnalystField

def sheetLines (fields : List AnalystField) (start : ℕ) : List ProtoLine :=
  (fields.zipIdx start).flatMap fun (f, i) => f.lines (i + 1)

/-- The declarations of the message of a row. -/
def rowDecls (fields : List AnalystField) (start : ℕ) : List Decl :=
  (fields.zipIdx start).flatMap fun (f, i) => f.decls (i + 1)

/-- The title and the names of the fields as often as they are written, with the braces of the
messages. -/
def sheetMarks (title : Text) (fields : List AnalystField) : Text :=
  title ++ '{' :: title ++ '{' :: fields.flatMap AnalystField.marks ++ '}' :: title ++ ['}']

lemma declares_sheet (fields : List AnalystField) (start : ℕ) :
    Declares (sheetLines fields start) (rowDecls fields start) := by
  induction fields generalizing start with
  | nil => exact Declares.nil
  | cons f fields ih => exact (f.declares_lines (start + 1)).append (ih (start + 1))

lemma lineBraces_sheet (fields : List AnalystField) (start : ℕ) :
    AnalystField.lineBraces (sheetLines fields start) =
      braces (fields.flatMap AnalystField.marks) := by
  induction fields generalizing start with
  | nil => rfl
  | cons f fields ih =>
    have hcons : sheetLines (f :: fields) start =
        f.lines (start + 1) ++ sheetLines fields (start + 1) := rfl
    rw [hcons, AnalystField.lineBraces_append, f.lineBraces_lines, ih, List.flatMap_cons,
      braces_append]

lemma Analyst.generateProtoData_eq (a : Analyst) (printer : Printer) (title : Text) (i : ℕ) :
    a.generateProtoData printer title i =
      ((a.fieldsUnder title)[i]?).bind fun f => f.generateProtoData printer (i + 1) := by
  unfold generateProtoData fieldsUnder
  cases h : a.sheetUmap title with
  | none => simp
  | some s =>
    simp only [AnalystSheet.generateProtoData, Option.map_some, Option.getD_some]
    cases s.fields[i]? <;> rfl

/-- The columns are the fields, one after the other. -/
lemma Analyst.foldlM_generateProtoData (a : Analyst) (title : Text) (p : Printer) :
    (List.range (a.fieldsUnder title).length).foldlM (fun printer i =>
        a.generateProtoData printer title i) p =
      (a.fieldsUnder title).zipIdx.foldlM (fun printer (f, i) =>
        f.generateProtoData printer (i + 1)) p := by
  have key : ∀ (fields : List AnalystField) (k : ℕ) (p : Printer),
      (∀ i, i < fields.length → (a.fieldsUnder title)[k + i]? = fields[i]?) →
      (List.range' k fields.length).foldlM (fun printer i =>
        a.generateProtoData printer title i) p =
      (fields.zipIdx k).foldlM (fun printer (f, i) => f.generateProtoData printer (i + 1)) p := by
    intro fields
    induction fields with
    | nil =>
      intro k p _
      rfl
    | cons f fields ih =>
      intro k p hfields
      have hfirst : (a.fieldsUnder title)[k]? = some f := by simpa using hfields 0 (by simp)
      rw [List.length_cons, List.range'_succ, List.foldlM_cons, List.zipIdx_cons, List.foldlM_cons,
        Analyst.generateProtoData_eq, hfirst]
      simp only [Option.bind_some]
      congr 1
      funext q
      apply ih
      intro i hi
      have hnext := hfields (i + 1) (by simpa using hi)
      rw [List.getElem?_cons_succ] at hnext
      rw [← hnext]
      congr 1
      omega
  rw [List.range_eq_range']
  exact key _ 0 p fun i _ => by rw [Nat.zero_add]

lemma sheet_lines (fields : List AnalystField) (start : ℕ) (p : Printer) :
    (∀ f ∈ fields, f.Declarable) →
    ∃ q, (fields.zipIdx start).foldlM (fun printer (f, i) =>
        f.generateProtoData printer (i + 1)) p = some q ∧
      q.lines = p.lines ++ sheetLines fields start := by
  induction fields generalizing start p with
  | nil =>
    intro _
    exact ⟨p, rfl, by simp [sheetLines]⟩
  | cons f fields ih =>
    intro hdeclarable
    obtain ⟨q, hq, hlines⟩ := AnalystField.generateProtoData_lines
      (hdeclarable f List.mem_cons_self) p (start + 1)
    obtain ⟨r, hr, hrest⟩ := ih (start + 1) q fun g hg => hdeclarable g (List.mem_cons_of_mem _ hg)
    refine ⟨r, ?_, ?_⟩
    · simp only [List.zipIdx_cons, List.foldlM_cons, hq, Option.bind_eq_bind, Option.bind_some]
      exact hr
    · rw [hrest, hlines, List.append_assoc]
      rfl

lemma sheet_none (fields : List AnalystField) (start : ℕ) (p : Printer) :
    (∃ f ∈ fields, ¬ f.Declarable) →
    (fields.zipIdx start).foldlM (fun printer (f, i) =>
        f.generateProtoData printer (i + 1)) p = none := by
  induction fields generalizing start p with
  | nil => simp
  | cons f fields ih =>
    intro hbad
    simp only [List.zipIdx_cons, List.foldlM_cons, Option.bind_eq_bind]
    by_cases hf : f.Declarable
    · obtain ⟨q, hq, -⟩ := AnalystField.generateProtoData_lines hf p (start + 1)
      have hrest : ∃ g ∈ fields, ¬ g.Declarable := by simpa [hf] using hbad
      simp only [hq, Option.bind_some]
      exact ih (start + 1) q hrest
    · simp only [AnalystField.generateProtoData_none hf, Option.bind_none]

/-- The message that a worksheet declares. -/
def sheetDecls (title : Text) (fields : List AnalystField) : List Decl :=
  [.message (getProto3MessageName (capitalizeFirstLetter title))
    [.message (capitalizeFirstLetter title) (rowDecls fields 0),
      .field true (capitalizeFirstLetter title) "datas".toList 1]]

/-- The lines of its text. -/
def sheetText (title : Text) (fields : List AnalystField) : List ProtoLine :=
  ProtoLine.message (getProto3MessageName (capitalizeFirstLetter title)) ::
    (ProtoLine.message (capitalizeFirstLetter title) :: sheetLines fields 0 ++ [ProtoLine.close] ++
      [ProtoLine.field true (capitalizeFirstLetter title) "datas".toList 1]) ++ [ProtoLine.close] ++
    [ProtoLine.blank]

lemma read_sheetText (title : Text) (fields : List AnalystField) :
    readDecls (sheetText title fields) [] [] = some (sheetDecls title fields) := by
  have hrowMessage := (declares_sheet fields 0).message (capitalizeFirstLetter title)
  have hdatas := @Declares.field true (capitalizeFirstLetter title) "datas".toList 1
  have hsheet := (hrowMessage.append hdatas).message
    (getProto3MessageName (capitalizeFirstLetter title))
  exact (hsheet.append Declares.blank).read

/-- The text of a message has the braces of the marks of its worksheet. -/
lemma braces_sheetText (title : Text) (fields : List AnalystField) :
    (sheetText title fields).flatMap (fun line => braces line.text) =
      braces (sheetMarks title fields) := by
  have hname : braces (getProto3MessageName (capitalizeFirstLetter title)) = braces title := by
    have hentry : braces "DataHubEntry".toList = [] := rfl
    unfold getProto3MessageName
    rw [braces_append, hentry, braces_capitalizeFirstLetter, braces_capitalizeFirstLetter,
      List.nil_append]
  have hlast : braces ['}'] = ['}'] := rfl
  have hdatas : braces "datas".toList = [] := rfl
  have hblank : braces ProtoLine.blank.text = [] := rfl
  have hopen : isBrace '{' = true := rfl
  have hclose : isBrace '}' = true := rfl
  have hsheet := lineBraces_sheet fields 0
  unfold AnalystField.lineBraces at hsheet
  unfold sheetText sheetMarks
  simp only [List.flatMap_append, List.flatMap_cons, List.flatMap_nil, List.cons_append,
    List.append_assoc, AnalystField.braces_message, AnalystField.braces_field,
    AnalystField.braces_close, hname, braces_capitalizeFirstLetter, hsheet, hblank, hdatas,
    braces_append, braces_cons, hopen, hclose, if_true, hlast, List.nil_append, List.append_nil]

section
variable {a : Analyst} {ws : Worksheet} {fields : List AnalystField}

/-- Every field can be declared: the worksheet becomes the text of its message. -/
lemma analyze_lines (htitle : getSheetTitle ws.title ≠ []) (hrows : ws.rows ≠ [])
    (hfields : a.fieldsUnder (getSheetTitle ws.title) = fields) (hwidth : fields.length = ws.width)
    (h : ∀ f ∈ fields, f.Declarable) :
    ∃ printer, ProtoGenerator.analyze a ws = some printer ∧
      printer.lines = sheetText (getSheetTitle ws.title) fields := by
  obtain ⟨row, rows, hr⟩ := List.exists_cons_of_ne_nil hrows
  have hrow : row.length = (a.fieldsUnder (getSheetTitle ws.title)).length := by
    rw [hfields, hwidth]
    exact ws.rect row (by simp [hr])
  set title := capitalizeFirstLetter (getSheetTitle ws.title) with hcap
  obtain ⟨q, hq, hlines⟩ := sheet_lines fields 0
    ((({} : Printer).println (.message (getProto3MessageName title))).indent.println
      (.message title)).indent h
  have hfold : (List.range row.length).foldlM (fun printer i =>
      a.generateProtoData printer (getSheetTitle ws.title) i)
      ((({} : Printer).println (.message (getProto3MessageName title))).indent.println
        (.message title)).indent = some q := by
    rw [hrow, Analyst.foldlM_generateProtoData, hfields]
    exact hq
  refine ⟨((((q.outdent.println .close).println (.field true title "datas".toList 1)).outdent).println
    .close).println .blank, ?_, ?_⟩
  · unfold ProtoGenerator.analyze
    simp only [hr, htitle, if_false, ← hcap, hfold]
    rfl
  · have hempty : ({} : Printer).lines = [] := rfl
    unfold sheetText
    simp only [Printer.lines_println, Printer.lines_outdent, Printer.lines_indent, hlines, hempty,
      List.append_assoc, List.cons_append, List.nil_append, ← hcap]

/-- The text makes the message of the worksheet, and has the braces of its marks. -/
lemma analyze_declares (htitle : getSheetTitle ws.title ≠ []) (hrows : ws.rows ≠ [])
    (hfields : a.fieldsUnder (getSheetTitle ws.title) = fields) (hwidth : fields.length = ws.width)
    (h : ∀ f ∈ fields, f.Declarable) :
    ∃ printer, ProtoGenerator.analyze a ws = some printer ∧
      readDecls printer.lines [] [] = some (sheetDecls (getSheetTitle ws.title) fields) ∧
      (Balanced printer.getBuf ↔ Balanced (sheetMarks (getSheetTitle ws.title) fields)) := by
  obtain ⟨printer, hprinter, hlines⟩ := analyze_lines htitle hrows hfields hwidth h
  refine ⟨printer, hprinter, ?_, ?_⟩
  · rw [hlines]
    exact read_sheetText _ _
  · apply balanced_congr
    rw [Printer.braces_getBuf, hlines]
    exact braces_sheetText _ _

/-- A field that cannot be declared ends the generator. -/
lemma analyze_undeclarable (hrows : ws.rows ≠ [])
    (hfields : a.fieldsUnder (getSheetTitle ws.title) = fields) (hwidth : fields.length = ws.width)
    (h : ∃ f ∈ fields, ¬ f.Declarable) : ProtoGenerator.analyze a ws = none := by
  obtain ⟨row, rows, hr⟩ := List.exists_cons_of_ne_nil hrows
  have hrow : row.length = (a.fieldsUnder (getSheetTitle ws.title)).length := by
    rw [hfields, hwidth]
    exact ws.rect row (by simp [hr])
  unfold ProtoGenerator.analyze
  by_cases htitle : getSheetTitle ws.title = []
  · simp only [hr, htitle, if_true]
    rfl
  · have hfold : ∀ p : Printer, (List.range row.length).foldlM (fun printer i =>
        a.generateProtoData printer (getSheetTitle ws.title) i) p = none := by
      intro p
      rw [hrow, Analyst.foldlM_generateProtoData, hfields]
      exact sheet_none fields 0 p h
    simp only [hr, htitle, if_false, hfold]
    rfl

end
end TyphoonZero.Xlsx
