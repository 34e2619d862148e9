import TyphoonZero.XlsxJson
import TyphoonZero.XlsxSchema

/-! Rows and schemas: the object that the JSON generator makes of a row against the message that
the proto generator declares for the worksheet. -/
namespace TyphoonZero.Xlsx

/-- The proto type that a value was set for. -/
def JsonValue.protoType {F : Type} : JsonValue F → Option Text
  | .double _ => some "double".toList
  | .float _ => some "float".toList
  | .int _ => some "sint32".toList
  | .int64 _ => some "sint64".toList
  | .uint _ => some "uint32".toList
  | .uint64 _ => some "uint64".toList
  | .bool _ => some "bool".toList
  | .string _ => some "string".toList
  | .object _ => none
  | .array _ => none

def fieldNames (body : List Decl) : List Text :=
  body.filterMap fun
    | .field _ _ name _ => some name
    | .message .. => none

/-- The member is a field of the message. A nested object has a member for each field of its
message, in order. -/
inductive MemberOk {F : Type} : List Decl → Text × JsonValue F → Prop
  | scalar {body : List Decl} {name type : Text} {index : ℕ} {value : JsonValue F} :
    .field false type name index ∈ body → value.protoType = some type →
    MemberOk body (name, value)
  | object {body inner : List Decl} {name type : Text} {index : ℕ} {members : Members F} :
    .field false type name index ∈ body → .message type inner ∈ body →
    members.map Prod.fst = fieldNames inner → (∀ m ∈ members, MemberOk inner m) →
    MemberOk body (name, .object members)
  | array {body inner : List Decl} {name type : Text} {index : ℕ} {objects : List (Members F)} :
    .field true type name index ∈ body → .message type inner ∈ body →
    (∀ members ∈ objects, members.map Prod.fst = fieldNames inner) →
    (∀ members ∈ objects, ∀ m ∈ members, MemberOk inner m) →
    MemberOk body (name, .array (objects.map .object))

section
variable {F : Type} (conv : FloatConversion F)

/-- The text is a value of the type. -/
def TextOk (type : XlsxDataType) (data : Text) : Prop :=
  type = .desc ∨ (scalarValue conv data type).isSome = true

def ObjOk (types : List XlsxDataType) (delimiter : Char) (data : Text) : Prop :=
  List.Forall₂ (TextOk conv) types (tokenize data [delimiter])

/-- The last delimiter is the one of the objects. -/
def ArrOk (types : List XlsxDataType) : Text → Text → Prop
  | [], _ => False
  | [delimiter], data => ObjOk conv types delimiter data
  | delimiter :: delimiters, data => ∀ piece ∈ tokenize data [delimiter], ArrOk types delimiters piece

/-- The cell conforms to the header. -/
def CellOk (f : AnalystField) (data : Text) : Prop :=
  if data = [] then f.constraintType = .none
  else if f.type.isComplex then ArrOk conv f.complexField.2 f.complexField.1 data
  else TextOk conv f.type data

instance (type : XlsxDataType) (data : Text) : Decidable (TextOk conv type data) :=
  inferInstanceAs (Decidable (_ ∨ _))

instance (types : List XlsxDataType) (delimiter : Char) (data : Text) :
    Decidable (ObjOk conv types delimiter data) :=
  inferInstanceAs (Decidable (List.Forall₂ ..))

def ArrOk.decidable (types : List XlsxDataType) :
    ∀ delimiters data, Decidable (ArrOk conv types delimiters data)
  | [], _ => isFalse id
  | [delimiter], data => inferInstanceAs (Decidable (ObjOk conv types delimiter data))
  | delimiter :: delimiter' :: delimiters, data =>
    let _ := ArrOk.decidable types (delimiter' :: delimiters)
    inferInstanceAs (Decidable (∀ piece ∈ tokenize data [delimiter],
      ArrOk conv types (delimiter' :: delimiters) piece))

instance (types : List XlsxDataType) (delimiters data : Text) :
    Decidable (ArrOk conv types delimiters data) := ArrOk.decidable conv types delimiters data

instance (f : AnalystField) (data : Text) : Decidable (CellOk conv f data) :=
  inferInstanceAs (Decidable (ite ..))

/-- What is demanded of a row: both generators come to an end, the text of the worksheet makes its
message, every member of the row is a field of the message, and the braces of the text balance. -/
def JsonMatchesProto (a : Analyst) (ws : Worksheet) (row : List (Option Text)) : Prop :=
  ∃ (printer : Printer) (rowData : Members F) (body : List Decl),
    ProtoGenerator.analyze a ws = some printer ∧
    JsonGenerator.analyzeRow (AnalystField.readCell conv) a (getSheetTitle ws.title) [] row =
      some rowData ∧
    readDecls printer.lines [] [] =
      some [.message (getProto3MessageName (capitalizeFirstLetter (getSheetTitle ws.title)))
        [.message (capitalizeFirstLetter (getSheetTitle ws.title)) body,
          .field true (capitalizeFirstLetter (getSheetTitle ws.title)) "datas".toList 1]] ∧
    (∀ m ∈ rowData, MemberOk body m) ∧ Balanced printer.getBuf

end

/-- The headers have types, the parts of complex types are scalars, a complex header above a cell
that is not empty has no capital letter in its name, and the braces in the title and the names, if
there are any, balance. -/
structure Conformable (title : Text) (fields : List AnalystField) (row : List Text) : Prop where
  declarable : ∀ f ∈ fields, f.Declarable
  lowercase : ∀ p ∈ fields.zip row, p.1.type.isComplex = true → p.2 ≠ [] →
    ∀ ch ∈ p.1.name, ch.isUpper = false
  braces : Balanced (sheetMarks title fields)

section
variable {F : Type} {conv : FloatConversion F}

namespace AnalystField
variable {f : AnalystField}

lemma generateMember_scalar {type : XlsxDataType} (h : type.isScalar = true) (depth : ℕ)
    (name data : Text) (rowData : Members F) :
    f.generateMember conv (depth + 1) type name data rowData =
      (scalarValue conv data type).map fun val => (rowData ++ [(name, val)], true) := by
  cases type with
  | none | desc | complexObj | complexArr => cases h
  | _ => rfl

/-- Each setter is that of the declared type. -/
lemma scalarValue_protoType {type : XlsxDataType} {data : Text} {value : JsonValue F}
    (h : scalarValue conv data type = some value) : value.protoType = some type.protoName := by
  cases type with
  | none | desc | complexObj | complexArr => cases h
  | bool | str =>
    obtain rfl := Option.some.inj h
    rfl
  | _ =>
    obtain ⟨x, -, rfl⟩ := Option.map_eq_some_iff.mp h
    rfl

/-- The members are those of the message, as far as names and types go. -/
def ObjectOk (body : List Decl) (members : Members F) : Prop :=
  members.map Prod.fst = fieldNames body ∧ ∀ m ∈ members, MemberOk body m

lemma object_fold (f : AnalystField) (depth : ℕ) {types : List XlsxDataType} {texts : List Text}
    (h : List.Forall₂ (TextOk conv) types texts)
    (hscalar : ∀ type ∈ types, type.isScalar = true) (start : ℕ) (obj : Members F) :
    ∃ members, ((texts.zip types).zipIdx start).foldlM (fun obj ((data, type), i) =>
        (f.generateMember conv (depth + 1) type (memberName i) data obj).map Prod.fst) obj =
          some (obj ++ members) ∧
      members.map Prod.fst = fieldNames (memberDecls types start) ∧
      ∀ m ∈ members, ∃ type index, .field false type m.1 index ∈ memberDecls types start ∧
        m.2.protoType = some type := by
  induction h generalizing start obj with
  | nil => exact ⟨[], by simp, rfl, by simp⟩
  | @cons type text types texts htext _ ih =>
    have htype := hscalar type List.mem_cons_self
    obtain ⟨value, hvalue⟩ : ∃ value, scalarValue conv text type = some value := by
      obtain rfl | hsome := htext
      · cases htype
      · exact Option.isSome_iff_exists.mp hsome
    obtain ⟨members, hfold, hnames, hmembers⟩ := ih
      (fun t ht => hscalar t (List.mem_cons_of_mem _ ht)) (start + 1)
      (obj ++ [(memberName start, value)])
    refine ⟨(memberName start, value) :: members, ?_, ?_, ?_⟩
    · simp only [List.zip_cons_cons, List.zipIdx_cons, List.foldlM_cons,
        generateMember_scalar htype, hvalue, Option.map_some, Option.bind_eq_bind,
        Option.bind_some]
      rw [hfold, List.append_assoc]
      rfl
    · rw [List.map_cons, hnames]
      rfl
    · intro m hm
      obtain rfl | hm := List.mem_cons.mp hm
      · exact ⟨type.protoName, start + 1, List.mem_cons_self, scalarValue_protoType hvalue⟩
      · obtain ⟨t, index, hfield, hproto⟩ := hmembers m hm
        exact ⟨t, index, List.mem_cons_of_mem _ hfield, hproto⟩

lemma object_ok (depth : ℕ) {delimiter : Char} {data : Text}
    (h : ObjOk conv f.complexField.2 delimiter data)
    (hscalar : ∀ type ∈ f.complexField.2, type.isScalar = true) :
    ∃ members, f.generateJsonDataComplexObj (f.generateMember conv (depth + 1)) data [delimiter] =
        some members ∧ ObjectOk (memberDecls f.complexField.2 0) members := by
  have hlength := h.length_eq
  obtain ⟨members, hfold, hnames, hmembers⟩ := object_fold f depth h hscalar 0 []
  refine ⟨members, ?_, hnames, ?_⟩
  · unfold generateJsonDataComplexObj
    simp only [List.length_singleton, hlength, true_and, if_true]
    rw [hfold]
    rfl
  · intro m hm
    obtain ⟨type, index, hfield, hproto⟩ := hmembers m hm
    exact MemberOk.scalar hfield hproto

lemma mapM_objects {α : Type} {P : Members F → Prop} {g : α → Option (JsonValue F)} {l : List α}
    (h : ∀ x ∈ l, ∃ members, g x = some (.object members) ∧ P members) :
    ∃ objects : List (Members F), l.mapM g = some (objects.map .object) ∧ ∀ o ∈ objects, P o := by
  induction l with
  | nil => exact ⟨[], rfl, by simp⟩
  | cons x l ih =>
    obtain ⟨members, hx, hmembers⟩ := h x List.mem_cons_self
    obtain ⟨objects, hl, hobjects⟩ := ih fun y hy => h y (List.mem_cons_of_mem _ hy)
    refine ⟨members :: objects, ?_, ?_⟩
    · rw [List.mapM_cons, hx, hl]
      rfl
    · intro o ho
      obtain rfl | ho := List.mem_cons.mp ho
      · exact hmembers
      · exact hobjects o ho

/-- The arrays nest as the messages do, level by level. -/
lemma array_ok (name : Text) {types : List XlsxDataType} {inner : List Decl}
    {obj : Text → Text → Option (Members F)}
    (hobj : ∀ (delimiter : Char) (data : Text), ObjOk conv types delimiter data →
      ∃ members, obj data [delimiter] = some members ∧ ObjectOk inner members)
    {levels : ℕ} {delimiters : Text} (hlength : delimiters.length = levels + 2) (index : ℕ)
    {data : Text} (h : ArrOk conv types delimiters data) :
    ∃ objects : List (Members F),
      generateJsonDataComplexArr obj delimiters index data = some (objects.map .object) ∧
        ∀ o ∈ objects, ObjectOk (nestDecls name inner index levels) o := by
  induction levels generalizing delimiters index data with
  | zero =>
    match delimiters, hlength with
    | [delimiter, delimiterObj], _ =>
      apply mapM_objects
      intro piece hpiece
      obtain ⟨members, hmembers, hok⟩ := hobj delimiterObj piece (h piece hpiece)
      exact ⟨members, by rw [hmembers]; rfl, hok⟩
  | succ levels ih =>
    match delimiters, hlength with
    | delimiter :: delimiter' :: delimiter'' :: rest, hlength =>
      apply mapM_objects
      intro piece hpiece
      have hrest : (delimiter' :: delimiter'' :: rest).length = levels + 2 := by
        simpa using hlength
      obtain ⟨objects, harr, hobjects⟩ := ih hrest (index + 1) (h piece hpiece)
      refine ⟨[(nestName (index + 1), .array (objects.map .object))], ?_, ?_, ?_⟩
      · rw [harr]
        rfl
      · rfl
      · intro m hm
        obtain rfl := List.mem_singleton.mp hm
        apply MemberOk.array (List.mem_cons_of_mem _ List.mem_cons_self) List.mem_cons_self
        · exact fun o ho => (hobjects o ho).1
        · exact fun o ho => (hobjects o ho).2

end AnalystField
end
end TyphoonZero.Xlsx
