import TyphoonZero.XlsxProto

/-! The JSON generator: a cell becomes a member of the object of its row, complex cells with
nested objects and arrays. -/
namespace TyphoonZero.Xlsx

/-- One constructor for each setter; `F` are the floating-point numbers. -/
inductive JsonValue (F : Type)
  | double (x : F)
  | float (x : F)
  | int (n : ℤ)
  | int64 (n : ℤ)
  | uint (n : ℕ)
  | uint64 (n : ℕ)
  | bool (b : Bool)
  | string (strv : Text)
  | object (members : List (Text × JsonValue F))
  | array (values : List (JsonValue F))

/-- The conversions to floating-point numbers; `none` is an exception. -/
structure FloatConversion (F : Type) where
  stod : Text → Option F
  stof : Text → Option F

def isSpace (ch : Char) : Bool :=
  ch ∈ [' ', '\t', '\n', Char.ofNat 11, Char.ofNat 12, '\r']

/-- The sign and the digits at the start of a text; without digits there is no number. -/
def strtoInteger (data : Text) : Option (Bool × ℕ) :=
  let unspaced := data.dropWhile isSpace
  let signed := unspaced.head? = some '-'
  let digits := (if signed ∨ unspaced.head? = some '+' then unspaced.drop 1
    else unspaced).takeWhile Char.isDigit
  if digits = [] then none
  else some (signed, digits.foldl (fun n ch => n * 10 + (ch.toNat - '0'.toNat)) 0)

/-- `long` and `long long` have 64 bits. -/
def stoll (data : Text) : Option ℤ :=
  (strtoInteger data).bind fun (signed, n) =>
    if signed then if n ≤ 2 ^ 63 then some (-n) else none
    else if n < 2 ^ 63 then some n else none

/-- The negative numbers wrap. -/
def stoull (data : Text) : Option ℕ :=
  (strtoInteger data).bind fun (signed, n) =>
    if n < 2 ^ 64 then some (if signed then (2 ^ 64 - n) % 2 ^ 64 else n) else none

def stringToBool (strv : Text) : Bool :=
  lowercaseString strv ∈ ["1".toList, "true".toList, "yes".toList]

section
variable {F : Type} (conv : FloatConversion F)

abbrev Members (F : Type) := List (Text × JsonValue F)

/-- The value of a cell of a scalar type. The setters of 32 bits narrow what they get. -/
def scalarValue (data : Text) : XlsxDataType → Option (JsonValue F)
  | .double => (conv.stod data).map .double
  | .float => (conv.stof data).map .float
  | .i32 => (stoll data).map fun n => .int (n.bmod (2 ^ 32))
  | .i64 => (stoll data).map .int64
  | .u32 => (stoull data).map fun n => .uint (n % 2 ^ 32)
  | .u64 => (stoull data).map .uint64
  | .bool => some (.bool (stringToBool data))
  | .str => some (.string data)
  | _ => none

namespace AnalystField
variable (f : AnalystField)

/-- `generate` makes one member; what it answers is not looked at. -/
def generateJsonDataComplexObj
    (generate : XlsxDataType → Text → Text → Members F → Option (Members F × Bool))
    (data delimiter : Text) : Option (Members F) :=
  let dataVec := tokenize data delimiter
  if delimiter.length = 1 ∧ dataVec.length = f.complexField.2.length then
    (dataVec.zip f.complexField.2).zipIdx.foldlM (fun obj ((data, type), i) =>
      (generate type (memberName i) data obj).map Prod.fst) []
  else none

/-- The delimiters from `delimiterIndex` on: the last two are for the objects. -/
def generateJsonDataComplexArr (obj : Text → Text → Option (Members F)) :
    Text → ℕ → Text → Option (List (JsonValue F))
  | [], _, _ => none
  | [_], _, _ => none
  | [delimiter, delimiterObj], _, data =>
    (tokenize data [delimiter]).mapM fun dataStr => (obj dataStr [delimiterObj]).map .object
  | delimiter :: delimiters, delimiterIndex, data =>
    (tokenize data [delimiter]).mapM fun dataStr =>
      (generateJsonDataComplexArr obj delimiters (delimiterIndex + 1) dataStr).map fun arr =>
        .object [(nestName (delimiterIndex + 1), .array arr)]

/-- A member for the data, unless it is a comment; `none` is a failed assertion or an exception.
A part of a complex type that is complex itself is read with the delimiters of the whole, and
`depth` bounds how far that goes. -/
def generateMember : ℕ → XlsxDataType → Text → Text → Members F → Option (Members F × Bool)
  | 0, _, _, _, _ => none
  | depth + 1, type, name, data, rowData =>
    match type with
    | .desc => some (rowData, true)
    | .complexObj =>
      (f.generateJsonDataComplexObj (generateMember depth) data f.complexField.1).map
        fun val => (rowData ++ [(name, .object val)], true)
    | .complexArr =>
      (generateJsonDataComplexArr (f.generateJsonDataComplexObj (generateMember depth))
        f.complexField.1 0 data).map fun val => (rowData ++ [(name, .array val)], true)
    | .none => some (rowData, false)
    | type => (scalarValue conv data type).map fun val => (rowData ++ [(name, val)], true)

/-- Constraints are checked first: a cell that may be empty is then no member. -/
def generateJsonData (rowData : Members F) (data : Text) : Option (Members F × Bool) :=
  match f.constraintType with
  | .none => if data = [] then some (rowData, true)
    else f.generateMember conv (data.length + 2) f.type f.name data rowData
  | _ => if data = [] then none
    else f.generateMember conv (data.length + 2) f.type f.name data rowData

/-- The generator of a row goes on only when the answer is yes. -/
def readCell (f : AnalystField) (rowData : Members F) (data : Text) : Option (Members F) :=
  match f.generateJsonData conv rowData data with
  | some (rowData, true) => some rowData
  | _ => none

variable {conv f}

lemma foldlM_eq_none {α β : Type} {step : β → α → Option β} {l : List α} {x : α} (hx : x ∈ l)
    (h : ∀ b, step b x = none) (b : β) : l.foldlM step b = none := by
  induction l generalizing b with
  | nil => cases hx
  | cons y l ih =>
    rw [List.foldlM_cons]
    obtain rfl | hx := List.mem_cons.mp hx
    · rw [h]
      rfl
    · cases step b y with
      | none => rfl
      | some b' => exact ih hx b'

lemma foldlM_congr_mem {α β : Type} {step step' : β → α → Option β} {l : List α}
    (h : ∀ x ∈ l, ∀ b, step b x = step' b x) (b : β) : l.foldlM step b = l.foldlM step' b := by
  induction l generalizing b with
  | nil => rfl
  | cons x l ih =>
    rw [List.foldlM_cons, List.foldlM_cons, h x List.mem_cons_self]
    congr 1
    funext b'
    exact ih (fun y hy => h y (List.mem_cons_of_mem _ hy)) b'

/-- Every level of an array has a piece, so that some object is read. -/
lemma generateJsonDataComplexArr_none {obj : Text → Text → Option (Members F)}
    (h : ∀ data delimiter, obj data delimiter = none) (delimiters : Text) (index : ℕ)
    (data : Text) : generateJsonDataComplexArr obj delimiters index data = none := by
  have hpieces : ∀ (delimiter : Char) (g : Text → Option (JsonValue F)) (data : Text),
      (∀ piece, g piece = none) → (tokenize data [delimiter]).mapM g = none := by
    intro delimiter g data hg
    obtain ⟨piece, pieces, hsplit⟩ := List.exists_cons_of_ne_nil (tokenize_ne_nil data [delimiter])
    rw [hsplit, List.mapM_cons, hg]
    rfl
  induction delimiters generalizing index data with
  | nil => rfl
  | cons delimiter delimiters ih =>
    match delimiters with
    | [] => rfl
    | [delimiterObj] =>
      apply hpieces
      intro piece
      rw [h]
      rfl
    | delimiter' :: delimiter'' :: rest =>
      apply hpieces
      intro piece
      rw [ih]
      rfl

lemma generateJsonDataComplexObj_eq_none {type : XlsxDataType} (htype : type ∈ f.complexField.2)
    {generate : XlsxDataType → Text → Text → Members F → Option (Members F × Bool)}
    (h : ∀ name data obj, generate type name data obj = none) (data delimiter : Text) :
    f.generateJsonDataComplexObj generate data delimiter = none := by
  unfold generateJsonDataComplexObj
  simp only
  split
  next hlength =>
    obtain ⟨i, hi, rfl⟩ := List.getElem_of_mem htype
    have htokens : i < (tokenize data delimiter).length := by omega
    have hmem : (((tokenize data delimiter)[i], f.complexField.2[i]), i) ∈
        ((tokenize data delimiter).zip f.complexField.2).zipIdx := by
      apply List.mem_zipIdx_iff_getElem?.mpr
      simp [htokens, hi]
    apply foldlM_eq_none hmem
    intro obj
    simp only [h, Option.map_none]
  next => rfl

/-- A part that is complex itself makes every cell fail, however deep it is read. -/
lemma generateMember_complex_part {part : XlsxDataType} (hpart : part ∈ f.complexField.2)
    (hcomplex : part = .complexObj ∨ part = .complexArr) (depth : ℕ) {type : XlsxDataType}
    (htype : type = .complexObj ∨ type = .complexArr) (name data : Text) (rowData : Members F) :
    f.generateMember conv depth type name data rowData = none := by
  induction depth generalizing type name data rowData with
  | zero => rfl
  | succ depth ih =>
    have hobj : ∀ data delimiter,
        f.generateJsonDataComplexObj (f.generateMember conv depth) data delimiter = none :=
      generateJsonDataComplexObj_eq_none hpart fun name data obj => ih hcomplex name data obj
    obtain rfl | rfl := htype
    · rw [generateMember, hobj]
      rfl
    · rw [generateMember, generateJsonDataComplexArr_none hobj]
      rfl

/-- The bound on the depth is no bound: two levels are enough. -/
theorem generateMember_depth (depth : ℕ) (type : XlsxDataType) (name data : Text)
    (rowData : Members F) : f.generateMember conv (depth + 2) type name data rowData =
      f.generateMember conv 2 type name data rowData := by
  by_cases hpart : ∃ part ∈ f.complexField.2, part = .complexObj ∨ part = .complexArr
  · obtain ⟨part, hmem, hcomplex⟩ := hpart
    have hnone := fun depth => @generateMember_complex_part F conv f part hmem hcomplex depth
    cases type with
    | complexObj => rw [hnone _ (.inl rfl), hnone _ (.inl rfl)]
    | complexArr => rw [hnone _ (.inr rfl), hnone _ (.inr rfl)]
    | _ => rfl
  · have hparts : ∀ part ∈ f.complexField.2, ∀ name data obj,
        f.generateMember conv (depth + 1) part name data obj =
          f.generateMember conv 1 part name data obj := by
      intro part hmem name data obj
      cases part with
      | complexObj => exact absurd ⟨_, hmem, .inl rfl⟩ hpart
      | complexArr => exact absurd ⟨_, hmem, .inr rfl⟩ hpart
      | _ => rfl
    have hobj : f.generateJsonDataComplexObj (f.generateMember conv (depth + 1)) =
        f.generateJsonDataComplexObj (f.generateMember conv 1) := by
      funext data delimiter
      unfold generateJsonDataComplexObj
      simp only
      congr 1
      apply foldlM_congr_mem
      intro ⟨⟨text, part⟩, i⟩ hx obj
      have hpair : (text, part) ∈ (tokenize data delimiter).zip f.complexField.2 :=
        List.fst_mem_of_mem_zipIdx hx
      simp only [hparts part (List.of_mem_zip hpair).2]
    cases type with
    | complexObj => rw [generateMember, generateMember, hobj]
    | complexArr => rw [generateMember, generateMember, hobj]
    | _ => rfl

end AnalystField
end
end TyphoonZero.Xlsx
