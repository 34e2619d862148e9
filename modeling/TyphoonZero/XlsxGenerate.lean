import TyphoonZero.XlsxConform

/-! The two generators agree: what a cell adds to its row, what a row holds, and when the row
conforms to the message. -/
namespace TyphoonZero.Xlsx

namespace AnalystField

/-- An array type has two delimiters at least, an object type has one. -/
def WellFormed (f : AnalystField) : Prop :=
  match f.type with
  | .complexObj => f.complexField.1.length = 1
  | .complexArr => 2 ≤ f.complexField.1.length
  | _ => True

section
variable {stray : Char → Bool} {f g : AnalystField}

lemma analyzeComplexType_eq {strv : Text} (h : f.analyzeComplexType stray strv = some g) :
    ∃ delimiter, g.type = f.type ∧ 2 ≤ strv.length ∧
      g.complexField.1 =
        (strv.drop 1).reverse.takeWhile (isTypeNameComplexDelimiter stray) ++ [delimiter] := by
  unfold analyzeComplexType at h
  simp only at h
  split at h
  next => cases h
  next hlength =>
    split at h
    next => cases h
    next delimiter hfind =>
      split at h
      next => cases h
      next =>
        obtain rfl := Option.some.inj h
        refine ⟨delimiter, rfl, ?_, rfl⟩
        simp only [List.length_take, not_le] at hlength
        omega

lemma lookup_not_complex {strv : Text} {type : XlsxDataType}
    (h : name2Type.lookup strv = some type) : type.isComplex = false := by
  have hall : ∀ entry ∈ name2Type, entry.2.isComplex = false := by decide
  obtain ⟨before, after, hsplit, -⟩ := List.lookup_eq_some_iff.mp h
  have hmem : (strv, type) ∈ name2Type := by
    rw [hsplit]
    simp
  exact hall _ hmem

/-- The sign at the end of the type name tells the two complex types apart. -/
lemma getTypeByTypeName_complex {strv : Text} {type : XlsxDataType}
    (h : getTypeByTypeName stray strv = type) (hcomplex : type.isComplex = true) :
    isTypeNameComplexArr stray strv = decide (type = .complexArr) := by
  unfold getTypeByTypeName at h
  split at h
  next =>
    subst h
    cases hcomplex
  next =>
    split at h
    next type' hlookup =>
      subst h
      rw [lookup_not_complex hlookup] at hcomplex
      cases hcomplex
    next =>
      split at h
      next =>
        split at h
        next harr =>
          subst h
          simpa using harr
        next harr =>
          subst h
          simpa using harr
      next =>
        subst h
        cases hcomplex

/-- The delimiters of an object type are one, those of an array type two or more. -/
lemma analyzeComplexType_length {strv : Text} (h : f.analyzeComplexType stray strv = some g) :
    g.complexField.1.length = 1 ↔ isTypeNameComplexArr stray strv = false := by
  obtain ⟨delimiter, -, hlength, hdelimiters⟩ := analyzeComplexType_eq h
  obtain rfl | ⟨start, last, rfl⟩ := List.eq_nil_or_concat strv
  · simp at hlength
  · obtain ⟨ch, start, rfl⟩ := List.exists_cons_of_ne_nil (l := start) (by
      rintro rfl
      simp at hlength)
    have hlast : ((ch :: start).concat last).getLast? = some last := by
      rw [List.concat_eq_append, List.getLast?_concat]
    rw [hdelimiters]
    unfold isTypeNameComplexArr
    rw [hlast]
    cases hsign : isTypeNameComplexDelimiter stray last <;> simp [hsign]

lemma analyzeType_wellFormed {strv : Text} (h : f.analyzeType stray strv = some g) :
    g.WellFormed := by
  have hcomplex : ∀ type, getTypeByTypeName stray strv = type → type.isComplex = true →
      analyzeComplexType stray { f with type := type } strv = some g → g.WellFormed := by
    intro type htype hc hg
    obtain ⟨delimiter, hsame, -, hdelimiters⟩ := analyzeComplexType_eq hg
    have hlength := analyzeComplexType_length hg
    rw [getTypeByTypeName_complex htype hc] at hlength
    unfold WellFormed
    rw [hsame]
    cases type with
    | complexObj => simpa using hlength
    | complexArr =>
      have htwo : g.complexField.1.length ≠ 1 := by simpa using hlength
      have hone : 1 ≤ g.complexField.1.length := by simp [hdelimiters]
      change 2 ≤ g.complexField.1.length
      omega
    | _ => cases hc
  unfold analyzeType at h
  cases htype : getTypeByTypeName stray strv with
  | none => simp [htype] at h
  | complexObj =>
    simp only [htype] at h
    exact hcomplex _ htype rfl h
  | complexArr =>
    simp only [htype] at h
    exact hcomplex _ htype rfl h
  | _ =>
    simp only [htype] at h
    obtain rfl := Option.some.inj h
    trivial

lemma analyze_wellFormed {field : Text} (h : AnalystField.analyze stray field = some f) :
    f.WellFormed := by
  have key : ∀ (tokens : List (Text × ℕ)) (start : AnalystField), start.WellFormed →
      tokens.foldlM (analyzeToken stray) start = some f → f.WellFormed := by
    intro tokens
    induction tokens with
    | nil =>
      intro start hstart hf
      obtain rfl := Option.some.inj hf
      exact hstart
    | cons token tokens ih =>
      intro start hstart hf
      rw [List.foldlM_cons] at hf
      obtain ⟨next, hnext, hrest⟩ := Option.bind_eq_some_iff.mp hf
      refine ih next ?_ hrest
      obtain ⟨strv, i⟩ := token
      match i with
      | 0 =>
        simp only [analyzeToken, analyzeName] at hnext
        split at hnext
        next => cases hnext
        next =>
          obtain rfl := Option.some.inj hnext
          exact hstart
      | 1 => exact analyzeType_wellFormed hnext
      | 2 | 3 | 4 | _ + 5 =>
        obtain rfl := Option.some.inj hnext
        exact hstart
  exact key _ {} trivial h

end

section
variable {F : Type} {conv : FloatConversion F} {f : AnalystField}

/-- The value is one of the declared type of the field. -/
def Fits (f : AnalystField) (value : JsonValue F) : Prop :=
  match f.type with
  | .complexObj => ∃ members, value = .object members ∧
      ObjectOk (memberDecls f.complexField.2 0) members
  | .complexArr => ∃ objects : List (Members F), value = .array (objects.map .object) ∧
      ∀ o ∈ objects, ObjectOk (nestDecls f.name (memberDecls f.complexField.2 0) 0 f.levels) o
  | type => value.protoType = some type.protoName

/-- A cell that is not empty becomes one member, unless the column is a comment. -/
lemma readCell_eq (hdeclarable : f.Declarable) (hwf : f.WellFormed) {data : Text}
    (h : CellOk conv f data) :
    (∀ rowData, f.readCell conv rowData data = some rowData) ∧
        (f.type.isComplex = true → data = []) ∨
      ∃ value, (∀ rowData, f.readCell conv rowData data = some (rowData ++ [(f.name, value)])) ∧
        f.Fits value ∧ f.type ≠ .desc ∧ data ≠ [] := by
  obtain ⟨hnone, hscalar⟩ := hdeclarable
  unfold CellOk at h
  by_cases hempty : data = []
  · left
    rw [if_pos hempty] at h
    exact ⟨fun rowData => by simp [readCell, generateJsonData, h, hempty], fun _ => hempty⟩
  · rw [if_neg hempty] at h
    have hread : ∀ rowData out, f.generateMember conv (data.length + 2) f.type f.name data rowData =
        some (out, true) → f.readCell conv rowData data = some out := by
      intro rowData out hout
      unfold readCell generateJsonData
      cases f.constraintType <;> simp [hempty, hout]
    unfold WellFormed at hwf
    cases htype : f.type with
    | none => exact absurd htype hnone
    | desc =>
      left
      refine ⟨fun rowData => hread rowData rowData ?_, by simp [XlsxDataType.isComplex]⟩
      rw [htype]
      rfl
    | complexObj =>
      right
      simp only [htype] at h hwf hscalar
      obtain ⟨delimiter, hdelimiter⟩ := List.length_eq_one_iff.mp hwf
      rw [hdelimiter] at h
      obtain ⟨members, hmembers, hok⟩ := object_ok data.length h (hscalar rfl)
      refine ⟨.object members, fun rowData => hread rowData _ ?_, ?_, by simp, hempty⟩
      · rw [htype, generateMember, hdelimiter, hmembers]
        rfl
      · unfold Fits
        rw [htype]
        exact ⟨members, rfl, hok⟩
    | complexArr =>
      right
      simp only [htype] at h hwf hscalar
      have hlength : f.complexField.1.length = f.levels + 2 := by
        simp only [levels, htype]
        omega
      have hobj : ∀ (delimiter : Char) (piece : Text), ObjOk conv f.complexField.2 delimiter piece →
          ∃ members, f.generateJsonDataComplexObj (f.generateMember conv (data.length + 1)) piece
            [delimiter] = some members ∧ ObjectOk (memberDecls f.complexField.2 0) members :=
        fun _ _ hpiece => object_ok data.length hpiece (hscalar rfl)
      obtain ⟨objects, harr, hobjects⟩ := array_ok f.name hobj hlength 0 h
      refine ⟨.array (objects.map .object), fun rowData => hread rowData _ ?_, ?_, by simp, hempty⟩
      · rw [htype, generateMember, harr]
        rfl
      · unfold Fits
        rw [htype]
        exact ⟨objects, rfl, hobjects⟩
    | _ =>
      right
      simp only [htype] at h
      obtain ⟨value, hvalue⟩ : ∃ value, scalarValue conv data f.type = some value := by
        obtain hdesc | hsome := h
        · cases hdesc
        · rw [htype]
          exact Option.isSome_iff_exists.mp hsome
      have hproto := scalarValue_protoType hvalue
      refine ⟨value, fun rowData => hread rowData _ ?_, ?_, by simp, hempty⟩
      · rw [generateMember_scalar (by rw [htype]; rfl), hvalue]
        rfl
      · unfold Fits
        rw [htype] at hproto ⊢
        exact hproto

/-- The member is one of the message that declares its field, when the names are spelled alike. -/
lemma Fits.memberOk {value : JsonValue F} {body : List Decl} {index : ℕ} (h : f.Fits value)
    (hdeclarable : f.Declarable) (hdesc : f.type ≠ .desc) (hbody : ∀ d ∈ f.decls index, d ∈ body)
    (hname : f.type.isComplex = true → lowercaseString f.name = f.name) :
    MemberOk body (f.name, value) := by
  unfold Fits at h
  unfold decls at hbody
  rw [if_neg hdesc] at hbody
  cases htype : f.type with
  | none => exact absurd htype hdeclarable.1
  | desc => exact absurd htype hdesc
  | complexObj =>
    have hcomplex : f.type.isComplex = true := by rw [htype]; rfl
    have hlevels : f.levels = 0 := by simp [levels, htype]
    have hrepeated : decide (f.type = .complexArr) = false := by simp [htype]
    rw [if_pos hcomplex, hlevels, hrepeated, hname hcomplex] at hbody
    rw [htype] at h
    obtain ⟨members, rfl, hnames, hmembers⟩ := h
    exact MemberOk.object (hbody _ (List.mem_cons_of_mem _ List.mem_cons_self))
      (hbody _ List.mem_cons_self) hnames hmembers
  | complexArr =>
    have hcomplex : f.type.isComplex = true := by rw [htype]; rfl
    have hrepeated : decide (f.type = .complexArr) = true := by simp [htype]
    rw [if_pos hcomplex, hrepeated, hname hcomplex] at hbody
    rw [htype] at h
    obtain ⟨objects, rfl, hobjects⟩ := h
    exact MemberOk.array (hbody _ (List.mem_cons_of_mem _ List.mem_cons_self))
      (hbody _ List.mem_cons_self) (fun o ho => (hobjects o ho).1) fun o ho => (hobjects o ho).2
  | _ =>
    have hsimple : ¬ f.type.isComplex = true := by rw [htype]; simp [XlsxDataType.isComplex]
    rw [if_neg hsimple, htype] at hbody
    rw [htype] at h
    exact MemberOk.scalar (hbody _ List.mem_cons_self) h

/-- A nested value is not of a scalar type. -/
lemma Fits.protoType {value : JsonValue F} (h : f.Fits value) (hcomplex : f.type.isComplex = true) :
    value.protoType = none := by
  unfold Fits at h
  cases htype : f.type with
  | complexObj =>
    rw [htype] at h
    obtain ⟨members, rfl, -⟩ := h
    rfl
  | complexArr =>
    rw [htype] at h
    obtain ⟨objects, rfl, -⟩ := h
    rfl
  | _ =>
    rw [htype] at hcomplex
    cases hcomplex

end

end AnalystField

section
variable {F : Type} {conv : FloatConversion F}

/-- A row holds a member for each cell that is not empty and no comment. -/
lemma readRow_members {fields : List AnalystField} {row : List (Option Text)}
    (h : List.Forall₂ (CellOk conv) fields (row.map toString))
    (hfields : ∀ f ∈ fields, f.Declarable ∧ f.WellFormed) (start : Members F) :
    ∃ members, Worksheet.readRow (AnalystField.readCell conv) start (fields.map some) row =
        some (start ++ members) ∧
      (∀ m ∈ members, ∃ p ∈ fields.zip (row.map toString), p.2 ≠ [] ∧ p.1.type ≠ .desc ∧
        m.1 = p.1.name ∧ p.1.Fits m.2) ∧
      ∀ p ∈ fields.zip (row.map toString), p.1.type.isComplex = true → p.2 ≠ [] →
        ∃ value, (p.1.name, value) ∈ members ∧ p.1.Fits value := by
  induction fields generalizing row start with
  | nil => exact ⟨[], by simp [Worksheet.readRow], by simp, by simp⟩
  | cons f fields ih =>
    cases row with
    | nil => cases h
    | cons cell row =>
      rw [List.map_cons] at h
      obtain ⟨hcell, hrest⟩ := List.forall₂_cons.mp h
      have hf := hfields f List.mem_cons_self
      have hrec := fun start => ih hrest (fun g hg => hfields g (List.mem_cons_of_mem _ hg)) start
      have hstep : ∀ out, f.readCell conv start (toString cell) = some out →
          Worksheet.readRow (AnalystField.readCell conv) start (some f :: fields.map some)
            (cell :: row) =
          Worksheet.readRow (AnalystField.readCell conv) out (fields.map some) row := by
        intro out hout
        simp only [Worksheet.readRow, List.zip_cons_cons, List.foldlM_cons, Option.bind_eq_bind,
          Option.bind_some, hout]
      rw [List.map_cons, List.map_cons, List.zip_cons_cons]
      obtain ⟨hread, hempty⟩ | ⟨value, hread, hfits, hdesc, hne⟩ :=
        AnalystField.readCell_eq hf.1 hf.2 hcell
      · obtain ⟨members, hrow, hfrom, hto⟩ := hrec start
        refine ⟨members, ?_, ?_, ?_⟩
        · rw [hstep start (hread start), hrow]
        · intro m hm
          obtain ⟨p, hp, hp'⟩ := hfrom m hm
          exact ⟨p, List.mem_cons_of_mem _ hp, hp'⟩
        · intro p hp hcomplex hne
          obtain rfl | hp := List.mem_cons.mp hp
          · exact absurd (hempty hcomplex) hne
          · exact hto p hp hcomplex hne
      · obtain ⟨members, hrow, hfrom, hto⟩ := hrec (start ++ [(f.name, value)])
        refine ⟨(f.name, value) :: members, ?_, ?_, ?_⟩
        · rw [hstep _ (hread start), hrow, List.append_assoc]
          rfl
        · intro m hm
          obtain rfl | hm := List.mem_cons.mp hm
          · exact ⟨_, List.mem_cons_self, hne, hdesc, rfl, hfits⟩
          · obtain ⟨p, hp, hp'⟩ := hfrom m hm
            exact ⟨p, List.mem_cons_of_mem _ hp, hp'⟩
        · intro p hp hcomplex hne
          obtain rfl | hp := List.mem_cons.mp hp
          · exact ⟨value, List.mem_cons_self, hfits⟩
          · obtain ⟨value', hvalue', hfits'⟩ := hto p hp hcomplex hne
            exact ⟨value', List.mem_cons_of_mem _ hvalue', hfits'⟩

end
end TyphoonZero.Xlsx
