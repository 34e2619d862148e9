import TyphoonZero.XlsxGenerate

/-! When the row of a worksheet conforms to the message of the worksheet. -/
namespace TyphoonZero.Xlsx

lemma lowercaseString_eq_iff {strv : Text} :
    lowercaseString strv = strv ↔ ∀ ch ∈ strv, ch.isUpper = false := by
  constructor
  · intro h ch hch
    rw [← h] at hch
    obtain ⟨ch', -, rfl⟩ := List.mem_map.mp hch
    exact Char.isUpper_toLower_eq_false ch'
  · intro h
    have hkeep : ∀ ch ∈ strv, ch.toLower = ch := by
      intro ch hch
      apply Char.toLower_eq_of_not_isUpper
      simp [h ch hch]
    unfold lowercaseString
    rw [List.map_congr_left hkeep, List.map_id'']
    exact fun _ => rfl

/-- The name of a nested message is not the name of a scalar type. -/
lemma protoName_ne_capitalizeFirstLetter {type : XlsxDataType} (h : type.isScalar = true)
    (name : Text) : type.protoName ≠ capitalizeFirstLetter name := by
  obtain ⟨ch, strv, hname, hlower⟩ := type.protoName_head h
  intro hsame
  rw [hname] at hsame
  cases name with
  | nil => cases hsame
  | cons ch' strv' =>
    obtain ⟨rfl, -⟩ := List.cons.inj hsame
    simp at hlower

namespace AnalystField
variable {f : AnalystField}

lemma mem_decls_message {type : Text} {inner : List Decl} {index : ℕ}
    (h : .message type inner ∈ f.decls index) : type = capitalizeFirstLetter f.name := by
  unfold decls at h
  split at h
  next => simp at h
  next =>
    split at h
    next =>
      obtain h | h := List.mem_cons.mp h
      · exact (Decl.message.inj h).1
      · cases List.mem_singleton.mp h
    next => simp at h

lemma mem_decls_field {repeated : Bool} {type name : Text} {i index : ℕ} (hf : f.Declarable)
    (h : .field repeated type name i ∈ f.decls index) :
    (f.type.isScalar = true ∧ type = f.type.protoName) ∨ name = lowercaseString f.name := by
  unfold decls at h
  split at h
  next => simp at h
  next hdesc =>
    split at h
    next =>
      right
      obtain h | h := List.mem_cons.mp h
      · cases h
      · exact (Decl.field.inj (List.mem_singleton.mp h)).2.2.1
    next hsimple =>
      left
      refine ⟨?_, (Decl.field.inj (List.mem_singleton.mp h)).2.1⟩
      cases htype : f.type with
      | none => exact absurd htype hf.1
      | desc => exact absurd htype hdesc
      | complexObj | complexArr =>
        rw [htype] at hsimple
        exact absurd rfl hsimple
      | _ => rfl

end AnalystField

section
variable {fields : List AnalystField}

lemma decls_subset_rowDecls {f : AnalystField} (h : f ∈ fields) (start : ℕ) :
    ∃ index, ∀ d ∈ f.decls index, d ∈ rowDecls fields start := by
  induction fields generalizing start with
  | nil => cases h
  | cons g fields ih =>
    have hcons : rowDecls (g :: fields) start = g.decls (start + 1) ++ rowDecls fields (start + 1) :=
      rfl
    rw [hcons]
    obtain rfl | hf := List.mem_cons.mp h
    · exact ⟨start + 1, fun d hd => List.mem_append_left _ hd⟩
    · obtain ⟨index, hindex⟩ := ih hf (start + 1)
      exact ⟨index, fun d hd => List.mem_append_right _ (hindex d hd)⟩

lemma mem_rowDecls {d : Decl} {start : ℕ} (h : d ∈ rowDecls fields start) :
    ∃ f ∈ fields, ∃ index, d ∈ f.decls index := by
  obtain ⟨⟨f, i⟩, hf, hd⟩ := List.mem_flatMap.mp h
  exact ⟨f, List.fst_mem_of_mem_zipIdx hf, i + 1, hd⟩

/-- A nested value names a field whose name was made small. -/
lemma nested_lowercase {F : Type} (hdeclarable : ∀ f ∈ fields, f.Declarable) {start : ℕ}
    {name : Text} {value : JsonValue F} (h : MemberOk (rowDecls fields start) (name, value))
    (hvalue : value.protoType = none) : ∀ ch ∈ name, ch.isUpper = false := by
  have key : ∀ {repeated : Bool} {type : Text} {index : ℕ} {inner : List Decl},
      .field repeated type name index ∈ rowDecls fields start →
      .message type inner ∈ rowDecls fields start → ∀ ch ∈ name, ch.isUpper = false := by
    intro repeated type index inner hfield hmessage
    obtain ⟨f, hf, i, hfield⟩ := mem_rowDecls hfield
    obtain ⟨g, -, j, hmessage⟩ := mem_rowDecls hmessage
    obtain ⟨hscalar, htype⟩ | hname := AnalystField.mem_decls_field (hdeclarable f hf) hfield
    · rw [AnalystField.mem_decls_message hmessage] at htype
      exact absurd htype.symm (protoName_ne_capitalizeFirstLetter hscalar g.name)
    · intro ch hch
      rw [hname] at hch
      obtain ⟨ch', -, rfl⟩ := List.mem_map.mp hch
      exact Char.isUpper_toLower_eq_false ch'
  cases h with
  | scalar hfield hproto =>
    rw [hvalue] at hproto
    cases hproto
  | object hfield hmessage hnames hmembers => exact key hfield hmessage
  | array hfield hmessage hnames hmembers => exact key hfield hmessage

end

section
variable {stray : Char → Bool} {F : Type} {conv : FloatConversion F} {a : Analyst} {ws : Worksheet}
  {fields : List AnalystField} {row : List (Option Text)}

lemma descriptions_wellFormed (hheaders : ws.descriptions stray = fields.map some) :
    ∀ f ∈ fields, f.WellFormed := by
  intro f hf
  have hmem : some f ∈ ws.descriptions stray := by
    rw [hheaders]
    exact List.mem_map_of_mem hf
  obtain ⟨cell, -, hcell⟩ := List.mem_map.mp hmem
  exact AnalystField.analyze_wellFormed hcell

lemma length_fields (hheaders : ws.descriptions stray = fields.map some)
    (hrow : row ∈ ws.rows.drop 2) :
    ws.rows ≠ [] ∧ fields.length = ws.width ∧ row.length = fields.length := by
  have hrows : ws.rows ≠ [] := by
    intro hnil
    simp [hnil] at hrow
  have hlength := congrArg List.length hheaders
  rw [Worksheet.length_descriptions hrows, List.length_map] at hlength
  exact ⟨hrows, hlength.symm, by rw [Worksheet.length_row hrow, hlength]⟩

lemma analyzeRow_fields (hheaders : ws.descriptions stray = fields.map some)
    (hfields : a.fieldsUnder (getSheetTitle ws.title) = fields) (hrow : row ∈ ws.rows.drop 2) :
    JsonGenerator.analyzeRow (AnalystField.readCell conv) a (getSheetTitle ws.title) [] row =
      Worksheet.readRow (AnalystField.readCell conv) [] (fields.map some) row := by
  obtain ⟨-, -, hlength⟩ := length_fields hheaders hrow
  rw [analyzeRow_eq, hfields, hlength, map_getElem?_range le_rfl, List.take_of_length_le]
  rw [List.length_map]

lemma JsonMatchesProto.conformable (h : JsonMatchesProto conv a ws row)
    (htitle : getSheetTitle ws.title ≠ []) (hheaders : ws.descriptions stray = fields.map some)
    (hfields : a.fieldsUnder (getSheetTitle ws.title) = fields) (hrow : row ∈ ws.rows.drop 2)
    (hcells : List.Forall₂ (CellOk conv) fields (row.map toString)) :
    Conformable (getSheetTitle ws.title) fields (row.map toString) := by
  obtain ⟨printer, rowData, body, hproto, hjson, hbody, hmembers, hbalanced⟩ := h
  obtain ⟨hrows, hwidth, -⟩ := length_fields hheaders hrow
  have hdeclarable : ∀ f ∈ fields, f.Declarable := by
    by_contra hbad
    have hsome : ∃ f ∈ fields, ¬ f.Declarable := by simpa using hbad
    rw [analyze_undeclarable hrows hfields hwidth hsome] at hproto
    cases hproto
  obtain ⟨printer', hproto', hdecls, hbraces⟩ :=
    analyze_declares htitle hrows hfields hwidth hdeclarable
  rw [hproto] at hproto'
  obtain rfl := Option.some.inj hproto'
  rw [hbody] at hdecls
  obtain rfl : body = rowDecls fields 0 := by simpa [sheetDecls] using hdecls
  constructor
  · exact hdeclarable
  · obtain ⟨members, hread, -, hto⟩ := readRow_members hcells
      (fun f hf => ⟨hdeclarable f hf, descriptions_wellFormed hheaders f hf⟩) []
    rw [analyzeRow_fields hheaders hfields hrow, hread] at hjson
    obtain rfl := Option.some.inj hjson
    intro p hp hcomplex hne
    obtain ⟨value, hvalue, hfits⟩ := hto p hp hcomplex hne
    exact nested_lowercase hdeclarable (hmembers _ hvalue) (hfits.protoType hcomplex)
  · exact hbraces.mp hbalanced

lemma Conformable.matches
    (h : Conformable (getSheetTitle ws.title) fields (row.map toString))
    (htitle : getSheetTitle ws.title ≠ []) (hheaders : ws.descriptions stray = fields.map some)
    (hfields : a.fieldsUnder (getSheetTitle ws.title) = fields) (hrow : row ∈ ws.rows.drop 2)
    (hcells : List.Forall₂ (CellOk conv) fields (row.map toString)) :
    JsonMatchesProto conv a ws row := by
  obtain ⟨hrows, hwidth, -⟩ := length_fields hheaders hrow
  obtain ⟨printer, hproto, hdecls, hbraces⟩ :=
    analyze_declares htitle hrows hfields hwidth h.declarable
  obtain ⟨members, hread, hfrom, -⟩ := readRow_members hcells
    (fun f hf => ⟨h.declarable f hf, descriptions_wellFormed hheaders f hf⟩) []
  refine ⟨printer, members, rowDecls fields 0, hproto, ?_, hdecls, ?_, hbraces.mpr h.braces⟩
  · rw [analyzeRow_fields hheaders hfields hrow, hread]
    rfl
  · intro m hm
    obtain ⟨p, hp, hne, hdesc, hname, hfits⟩ := hfrom m hm
    have hf : p.1 ∈ fields := (List.of_mem_zip hp).1
    obtain ⟨index, hindex⟩ := decls_subset_rowDecls hf 0
    have hok := hfits.memberOk (h.declarable _ hf) hdesc hindex fun hcomplex =>
      lowercaseString_eq_iff.mpr (h.lowercase p hp hcomplex hne)
    rwa [← hname] at hok

end

/-- One row below the headers of an item and its drops. -/
def dropSheet (name : Text) : Worksheet where
  title := "@item".toList
  rows := [[some "id@u32@!".toList, some (name ++ "@u32-u32;".toList)],
    [none, none],
    [some "7".toList, some "1-2;3-4".toList]]
  width := 2
  rect := by simp

def dropFields (name : Text) : List AnalystField :=
  [{ name := "id".toList, type := .u32, constraintType := .primaryKey },
    { name := name, type := .complexArr, complexField := (";-".toList, [.u32, .u32]) }]

def noFloats : FloatConversion Unit := ⟨fun _ => none, fun _ => none⟩

end TyphoonZero.Xlsx
