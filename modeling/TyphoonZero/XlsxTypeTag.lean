import TyphoonZero.XlsxMatch

/-! The `@type` member of a worksheet in the JSON file and the message of the worksheet in the
proto file: each generator makes the name out of the title in its own way. -/
namespace TyphoonZero.Xlsx

def getArrVarName : Text := "datas".toList

/-- The package that the head of the proto file opens. -/
def proto3Package : Text := "tpn.data".toList

def getDataHubEntryName (name : Text) : Text := "DataHubEntry".toList ++ name

def getJsonTypeName (name : Text) : Text := "type.googleapis.com/tpn.data.".toList ++ name

/-- The member of the root for a worksheet; one without data adds none. -/
def JsonGenerator.analyzeSheet {F : Type} (conv : FloatConversion F) (a : Analyst)
    (ws : Worksheet) : Option (Members F) := do
  let rows ← JsonGenerator.analyze (AnalystField.readCell conv) a [] ws
  if 2 < ws.rows.length then
    let titleRaw := getSheetTitle ws.title
    let typeName := getJsonTypeName (getDataHubEntryName titleRaw)
    some [(lowercaseString titleRaw, .object [("@type".toList, .string typeName),
      (getArrVarName, .array (rows.map .object))])]
  else some []

/-- The type that an object says it has. -/
def JsonValue.typeTag {F : Type} : JsonValue F → Option Text
  | .object members =>
    members.findSome? fun
      | (name, .string strv) => if name = "@type".toList then some strv else none
      | _ => none
  | _ => none

/-- The type name of a message in the package. -/
def messageUrl (name : Text) : Text :=
  "type.googleapis.com/".toList ++ proto3Package ++ '.' :: name

/-- The proto file declares one message for the worksheet, and the member has its type name. -/
def TagNamesMessage {F : Type} (member : Text × JsonValue F) (printer : Printer) : Prop :=
  ∃ name body, readDecls printer.lines [] [] = some [.message name body] ∧
    member.2.typeTag = some (messageUrl name)

lemma capitalizeFirstLetter_idem (strv : Text) :
    capitalizeFirstLetter (capitalizeFirstLetter strv) = capitalizeFirstLetter strv := by
  cases strv with
  | nil => rfl
  | cons ch strv => simp [capitalizeFirstLetter]

lemma capitalizeFirstLetter_eq_iff {strv : Text} :
    capitalizeFirstLetter strv = strv ↔ ∀ ch ∈ strv.head?, ch.isLower = false := by
  cases strv with
  | nil => simp [capitalizeFirstLetter]
  | cons ch strv =>
    simp only [capitalizeFirstLetter, List.head?_cons, Option.mem_def, Option.some.injEq,
      forall_eq', List.cons.injEq, and_true]
    constructor
    · intro h
      rw [← h]
      exact Char.isLower_toUpper_eq_false ch
    · intro h
      apply Char.toUpper_eq_of_not_isLower
      simp [h]

/-- The two names differ in the first letter of the title only. -/
lemma typeName_eq_messageUrl_iff {title : Text} :
    getJsonTypeName (getDataHubEntryName title) = messageUrl (getProto3MessageName title) ↔
      capitalizeFirstLetter title = title := by
  have hurl : getJsonTypeName (getDataHubEntryName title) =
      messageUrl (getDataHubEntryName title) := rfl
  rw [hurl]
  unfold messageUrl getDataHubEntryName getProto3MessageName
  constructor
  · intro h
    simpa using h.symm
  · intro h
    rw [h]

section
variable {a : Analyst} {ws : Worksheet} {printer : Printer}

/-- The columns print whole declarations, however many there are. -/
lemma foldlM_declares {title : Text} {columns : List ℕ} {p q : Printer}
    (h : columns.foldlM (fun printer i => a.generateProtoData printer title i) p = some q) :
    ∃ lines decls, q.lines = p.lines ++ lines ∧ Declares lines decls := by
  induction columns generalizing p with
  | nil =>
    obtain rfl := Option.some.inj h
    exact ⟨[], [], by simp, Declares.nil⟩
  | cons i columns ih =>
    rw [List.foldlM_cons] at h
    obtain ⟨r, hr, hrest⟩ := Option.bind_eq_some_iff.mp h
    rw [Analyst.generateProtoData_eq] at hr
    obtain ⟨f, -, hf⟩ := Option.bind_eq_some_iff.mp hr
    have hdeclarable : f.Declarable := by
      by_contra hbad
      rw [AnalystField.generateProtoData_none hbad] at hf
      cases hf
    obtain ⟨r', hr', hlines⟩ := AnalystField.generateProtoData_lines hdeclarable p (i + 1)
    rw [hf] at hr'
    obtain rfl := Option.some.inj hr'
    obtain ⟨lines, decls, hq, hdecls⟩ := ih hrest
    refine ⟨f.lines (i + 1) ++ lines, f.decls (i + 1) ++ decls, ?_, ?_⟩
    · rw [hq, hlines, List.append_assoc]
    · exact (f.declares_lines (i + 1)).append hdecls

/-- A worksheet with a row declares one message. -/
lemma ProtoGenerator.analyze_message (h : ProtoGenerator.analyze a ws = some printer)
    (hrows : ws.rows ≠ []) :
    ∃ body, readDecls printer.lines [] [] =
      some [.message (getProto3MessageName (getSheetTitle ws.title)) body] := by
  obtain ⟨row, rows, hr⟩ := List.exists_cons_of_ne_nil hrows
  unfold ProtoGenerator.analyze at h
  by_cases htitle : getSheetTitle ws.title = []
  · simp [hr, htitle] at h
  · simp only [hr, htitle, if_false] at h
    obtain ⟨q, hq, hprinter⟩ := Option.bind_eq_some_iff.mp h
    obtain rfl := Option.some.inj hprinter
    obtain ⟨lines, decls, hlines, hdecls⟩ := foldlM_declares hq
    set title := capitalizeFirstLetter (getSheetTitle ws.title) with hcap
    have hname : getProto3MessageName title = getProto3MessageName (getSheetTitle ws.title) := by
      unfold getProto3MessageName
      rw [hcap, capitalizeFirstLetter_idem]
    have hempty : ({} : Printer).lines = [] := rfl
    have hrow := hdecls.message title
    have hdatas := @Declares.field true title "datas".toList 1
    have hsheet := (hrow.append hdatas).message (getProto3MessageName title)
    refine ⟨[.message title decls, .field true title "datas".toList 1], ?_⟩
    rw [← hname]
    have hread := (hsheet.append Declares.blank).read
    simp only [Printer.lines_println, Printer.lines_outdent, Printer.lines_indent, hlines, hempty,
      List.append_assoc, List.cons_append, List.nil_append] at hread ⊢
    exact hread

/-- A member is written for a worksheet with data, and its tag is made of the title as it is. -/
lemma JsonGenerator.analyzeSheet_tag {F : Type} {conv : FloatConversion F}
    {member : Text × JsonValue F} {sheet : Members F}
    (h : JsonGenerator.analyzeSheet conv a ws = some sheet) (hmember : member ∈ sheet) :
    ws.rows ≠ [] ∧ member.2.typeTag =
      some (getJsonTypeName (getDataHubEntryName (getSheetTitle ws.title))) := by
  unfold analyzeSheet at h
  obtain ⟨rows, -, hsheet⟩ := Option.bind_eq_some_iff.mp h
  split at hsheet
  next hlength =>
    obtain rfl := Option.some.inj hsheet
    obtain rfl := List.mem_singleton.mp hmember
    refine ⟨?_, rfl⟩
    intro hnil
    simp [hnil] at hlength
  next =>
    obtain rfl := Option.some.inj hsheet
    cases hmember

end

/-- A worksheet with one column and one row of data. -/
def idSheet (title : Text) : Worksheet where
  title := '@' :: title
  rows := [[some "id@u32@!".toList], [none], [some "7".toList]]
  width := 1
  rect := by simp

def idAnalyst (title : Text) : Analyst :=
  (({} : Analyst).analyze (fun _ => false) (idSheet title)).getD {}

end TyphoonZero.Xlsx
