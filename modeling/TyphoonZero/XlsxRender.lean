import TyphoonZero.XlsxConform

/-! Values of complex columns as trees: how a tree is rendered to a cell, and what the generator
makes of the cell. -/
namespace TyphoonZero.Xlsx

/-- A part of an object is a text with the value that it stands for. -/
inductive CellTree (F : Type)
  | object (parts : List (Text × JsonValue F))
  | array (elements : List (CellTree F))

section
variable {F : Type}

/-- Joined with the delimiter of each level; `arrays` are those of the arrays, the outer ones
first. -/
def render (delimiter : Char) : Text → CellTree F → Text
  | _, .object parts => [delimiter].intercalate (parts.map Prod.fst)
  | d :: arrays, .array elements => [d].intercalate (elements.map (render delimiter arrays))
  | [], .array _ => []

def partMembers (parts : List (Text × JsonValue F)) (start : ℕ) : Members F :=
  (parts.zipIdx start).map fun ((_, value), i) => (memberName i, value)

/-- An array inside an array is the one member of an object. -/
def elementsJson (level : ℕ) : List (CellTree F) → List (JsonValue F)
  | [] => []
  | .object parts :: elements => .object (partMembers parts 0) :: elementsJson level elements
  | .array inner :: elements =>
    .object [(nestName (level + 1), .array (elementsJson (level + 1) inner))] ::
      elementsJson level elements

def toJson : CellTree F → JsonValue F
  | .object parts => .object (partMembers parts 0)
  | .array elements => .array (elementsJson 0 elements)

def elementJson (level : ℕ) : CellTree F → JsonValue F
  | .object parts => .object (partMembers parts 0)
  | .array inner => .object [(nestName (level + 1), .array (elementsJson (level + 1) inner))]

lemma elementsJson_eq_map (level : ℕ) (elements : List (CellTree F)) :
    elementsJson level elements = elements.map (elementJson level) := by
  induction elements with
  | nil => simp [elementsJson]
  | cons e elements ih => cases e <;> simp [elementsJson, elementJson, ih]

section
variable (conv : FloatConversion F) (types : List XlsxDataType) (delimiters : Text)

/-- Every object has a part of each type, and no text has a delimiter in it. No array is empty, and
the objects are below `levels` of them. -/
def HasType : ℕ → CellTree F → Prop
  | 0, .object parts => List.Forall₂ (fun type (part : Text × JsonValue F) =>
      scalarValue conv part.1 type = some part.2 ∧ ∀ ch ∈ part.1, ch ∉ delimiters) types parts
  | levels + 1, .array elements => elements ≠ [] ∧ ∀ e ∈ elements, HasType levels e
  | _, _ => False

end

variable {conv : FloatConversion F} {types : List XlsxDataType} {delimiters : Text}
  {delimiter : Char}

lemma mem_intercalate {d ch : Char} {pieces : List Text} (h : ch ∈ [d].intercalate pieces) :
    ch = d ∨ ∃ piece ∈ pieces, ch ∈ piece := by
  induction pieces with
  | nil => cases h
  | cons piece pieces ih =>
    cases pieces with
    | nil => exact .inr ⟨piece, List.mem_cons_self, by simpa using h⟩
    | cons piece' pieces =>
      rw [List.intercalate_cons_cons, List.append_assoc] at h
      obtain h | h := List.mem_append.mp h
      · exact .inr ⟨piece, List.mem_cons_self, h⟩
      · obtain h | h := List.mem_append.mp h
        · exact .inl (List.mem_singleton.mp h)
        · obtain hd | ⟨p, hp, hch⟩ := ih h
          · exact .inl hd
          · exact .inr ⟨p, List.mem_cons_of_mem _ hp, hch⟩

lemma mem_intercalate_of_mem {d ch : Char} {pieces : List Text} {piece : Text}
    (hpiece : piece ∈ pieces) (h : ch ∈ piece) : ch ∈ [d].intercalate pieces := by
  induction pieces with
  | nil => cases hpiece
  | cons first pieces ih =>
    cases pieces with
    | nil =>
      obtain rfl := List.mem_singleton.mp hpiece
      simpa using h
    | cons second pieces =>
      rw [List.intercalate_cons_cons, List.append_assoc]
      obtain rfl | hpiece := List.mem_cons.mp hpiece
      · exact List.mem_append_left _ h
      · exact List.mem_append_right _ (List.mem_append_right _ (ih hpiece))

/-- Splitting gives back the pieces that were joined. -/
lemma tokenize_intercalate {d : Char} {pieces : List Text} (hne : pieces ≠ [])
    (h : ∀ piece ∈ pieces, d ∉ piece) : tokenize ([d].intercalate pieces) [d] = pieces := by
  have hsplit : tokenize ([d].intercalate pieces) [d] = ([d].intercalate pieces).splitOn d := by
    unfold tokenize
    rw [List.splitOn_eq_splitOnP]
    congr 1
    funext ch
    rw [Bool.beq_eq_decide_eq]
    simp
  rw [hsplit]
  exact List.splitOn_intercalate d h hne

lemma Forall₂_mem_right {α β : Type} {r : α → β → Prop} {l : List α} {l' : List β} {y : β}
    (h : List.Forall₂ r l l') (hy : y ∈ l') : ∃ x ∈ l, r x y := by
  induction h with
  | nil => cases hy
  | cons hr _ ih =>
    obtain rfl | hy := List.mem_cons.mp hy
    · exact ⟨_, List.mem_cons_self, hr⟩
    · obtain ⟨x, hx, hxy⟩ := ih hy
      exact ⟨x, List.mem_cons_of_mem _ hx, hxy⟩

/-- What stands in a cell is a delimiter of its levels or no delimiter at all. -/
lemma mem_render {arrays : Text} {tree : CellTree F}
    (htree : HasType conv types delimiters arrays.length tree) {ch : Char}
    (h : ch ∈ render delimiter arrays tree) : ch = delimiter ∨ ch ∈ arrays ∨ ch ∉ delimiters := by
  induction arrays generalizing tree with
  | nil =>
    cases tree with
    | array elements => cases htree
    | object parts =>
      obtain hd | ⟨text, htext, hch⟩ := mem_intercalate h
      · exact .inl hd
      · obtain ⟨part, hpart, rfl⟩ := List.mem_map.mp htext
        obtain ⟨type, -, -, hfree⟩ := Forall₂_mem_right htree hpart
        exact .inr (.inr (hfree ch hch))
  | cons d arrays ih =>
    cases tree with
    | object parts => cases htree
    | array elements =>
      obtain rfl | ⟨piece, hpiece, hch⟩ := mem_intercalate h
      · exact .inr (.inl List.mem_cons_self)
      · obtain ⟨e, he, rfl⟩ := List.mem_map.mp hpiece
        obtain hd | harrays | hfree := ih (htree.2 e he) hch
        · exact .inl hd
        · exact .inr (.inl (List.mem_cons_of_mem _ harrays))
        · exact .inr (.inr hfree)

lemma tokenize_parts {parts : List (Text × JsonValue F)} {arrays : Text}
    (htree : HasType conv types delimiters 0 (.object parts)) (htypes : types ≠ [])
    (hdelimiter : delimiter ∈ delimiters) :
    tokenize (render delimiter arrays (.object parts)) [delimiter] = parts.map Prod.fst := by
  have hlength : types.length = parts.length := List.Forall₂.length_eq htree
  have hrender : render delimiter arrays (.object parts) =
      [delimiter].intercalate (parts.map Prod.fst) := by
    cases arrays <;> rfl
  rw [hrender]
  apply tokenize_intercalate
  · intro hnil
    apply htypes
    rw [List.map_eq_nil_iff] at hnil
    rw [hnil] at hlength
    exact List.length_eq_zero_iff.mp hlength
  · intro text htext hmem
    obtain ⟨part, hpart, rfl⟩ := List.mem_map.mp htext
    obtain ⟨type, -, -, hfree⟩ := Forall₂_mem_right htree hpart
    exact hfree _ hmem hdelimiter

/-- No delimiter of an array stands in its elements, so that they are found again. -/
lemma tokenize_elements {elements : List (CellTree F)} {d : Char} {arrays : Text}
    (htree : HasType conv types delimiters (arrays.length + 1) (.array elements))
    (hd : d ∈ delimiters) (hdelimiter : d ≠ delimiter) (harrays : d ∉ arrays) :
    tokenize (render delimiter (d :: arrays) (.array elements)) [d] =
      elements.map (render delimiter arrays) := by
  obtain ⟨hne, helements⟩ := htree
  apply tokenize_intercalate
  · intro hnil
    exact hne (List.map_eq_nil_iff.mp hnil)
  · intro piece hpiece hmem
    obtain ⟨e, he, rfl⟩ := List.mem_map.mp hpiece
    obtain hsame | hmem | hfree := mem_render (helements e he) hmem
    · exact hdelimiter hsame
    · exact harrays hmem
    · exact hfree hd

namespace AnalystField
variable {f : AnalystField}

lemma foldlM_parts {parts : List (Text × JsonValue F)} (depth : ℕ)
    (h : HasType conv types delimiters 0 (.object parts))
    (hscalar : ∀ type ∈ types, type.isScalar = true) :
    ∀ (start : ℕ) (obj : Members F),
      (((parts.map Prod.fst).zip types).zipIdx start).foldlM (fun obj ((data, type), i) =>
        (f.generateMember conv (depth + 1) type (memberName i) data obj).map Prod.fst) obj =
      some (obj ++ partMembers parts start) := by
  change List.Forall₂ _ types parts at h
  induction h with
  | nil =>
    intro start obj
    simp [partMembers]
  | @cons type part types parts hpart _ ih =>
    intro start obj
    have htype := hscalar type List.mem_cons_self
    have hrest := ih (fun t ht => hscalar t (List.mem_cons_of_mem _ ht)) (start + 1)
      (obj ++ [(memberName start, part.2)])
    simp only [List.map_cons, List.zip_cons_cons, List.zipIdx_cons, List.foldlM_cons,
      generateMember_scalar htype, hpart.1, Option.map_some, Option.bind_eq_bind, Option.bind_some]
    rw [hrest, List.append_assoc]
    rfl

lemma generateJsonDataComplexObj_render {parts : List (Text × JsonValue F)} {arrays : Text}
    (depth : ℕ) (h : HasType conv f.complexField.2 delimiters 0 (.object parts))
    (hscalar : ∀ type ∈ f.complexField.2, type.isScalar = true) (htypes : f.complexField.2 ≠ [])
    (hdelimiter : delimiter ∈ delimiters) :
    f.generateJsonDataComplexObj (f.generateMember conv (depth + 1))
      (render delimiter arrays (.object parts)) [delimiter] = some (partMembers parts 0) := by
  have hlength : f.complexField.2.length = parts.length := List.Forall₂.length_eq h
  unfold generateJsonDataComplexObj
  simp only [tokenize_parts h htypes hdelimiter, List.length_singleton, List.length_map, hlength,
    true_and, if_true]
  exact foldlM_parts depth h hscalar 0 []

lemma mapM_eq_some_map {α β : Type} {g : β → Option α} {h : β → α} {l : List β}
    (hl : ∀ x ∈ l, g x = some (h x)) : l.mapM g = some (l.map h) := by
  induction l with
  | nil => rfl
  | cons x l ih =>
    rw [List.mapM_cons, hl x List.mem_cons_self, ih fun y hy => hl y (List.mem_cons_of_mem _ hy)]
    rfl

/-- One level of an array, the delimiters of the levels below it left. -/
lemma generateJsonDataComplexArr_cons {obj : Text → Text → Option (Members F)}
    (d d' : Char) (arrays : Text) (level : ℕ) (data : Text) :
    generateJsonDataComplexArr obj (d :: d' :: arrays ++ [delimiter]) level data =
      (tokenize data [d]).mapM fun dataStr =>
        (generateJsonDataComplexArr obj (d' :: arrays ++ [delimiter]) (level + 1) dataStr).map
          fun arr => .object [(nestName (level + 1), .array arr)] := by
  cases arrays <;> rfl

/-- The levels one after the other: each finds its elements, and the last one its objects. -/
lemma generateJsonDataComplexArr_render {obj : Text → Text → Option (Members F)}
    (hobj : ∀ parts, HasType conv types delimiters 0 (.object parts) →
      obj (render delimiter [] (.object parts)) [delimiter] = some (partMembers parts 0))
    {d : Char} {arrays : Text} {elements : List (CellTree F)}
    (htree : HasType conv types delimiters (arrays.length + 1) (.array elements))
    (hdistinct : (d :: arrays).Nodup) (hsub : ∀ ch ∈ d :: arrays, ch ∈ delimiters)
    (hdelimiter : delimiter ∉ d :: arrays) (level : ℕ) :
    generateJsonDataComplexArr obj (d :: arrays ++ [delimiter]) level
      (render delimiter (d :: arrays) (.array elements)) = some (elementsJson level elements) := by
  have hne : ∀ ch ∈ d :: arrays, ch ≠ delimiter := by
    intro ch hch hsame
    rw [hsame] at hch
    exact hdelimiter hch
  induction arrays generalizing d elements level with
  | nil =>
    have htokens := tokenize_elements htree (hsub d List.mem_cons_self)
      (hne d List.mem_cons_self) (by simp)
    have hstep : generateJsonDataComplexArr obj ([d] ++ [delimiter]) level
        (render delimiter [d] (.array elements)) =
        (elements.map (render delimiter [])).mapM fun dataStr =>
          (obj dataStr [delimiter]).map .object := by
      rw [← htokens]
      rfl
    rw [hstep, elementsJson_eq_map, List.mapM_map]
    apply mapM_eq_some_map
    intro e he
    have hobject := htree.2 e he
    cases e with
    | array inner => cases hobject
    | object parts => simp only [Function.comp_apply, hobj parts hobject, Option.map_some, elementJson]
  | cons d' arrays ih =>
    obtain ⟨hnot, hrest⟩ := List.nodup_cons.mp hdistinct
    have htokens := tokenize_elements htree (hsub d List.mem_cons_self)
      (hne d List.mem_cons_self) hnot
    rw [generateJsonDataComplexArr_cons, htokens, elementsJson_eq_map, List.mapM_map]
    apply mapM_eq_some_map
    intro e he
    have harray := htree.2 e he
    cases e with
    | object parts => cases harray
    | array inner =>
      have hinner := ih harray hrest (fun ch hch => hsub ch (List.mem_cons_of_mem _ hch))
        (fun hmem => hdelimiter (List.mem_cons_of_mem _ hmem)) (level + 1)
        fun ch hch => hne ch (List.mem_cons_of_mem _ hch)
      simp only [Function.comp_apply, hinner, Option.map_some, elementJson]

end AnalystField
end
end TyphoonZero.Xlsx
