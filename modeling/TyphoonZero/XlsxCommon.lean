import Mathlib.Data.List.Basic

/-! Header words of a worksheet: the type names, the signs of complex types and the
constraint and export marks. A `Char` stands for one `char` of a `std::string`. -/
namespace TyphoonZero.Xlsx

abbrev Text := List Char

inductive XlsxDataType
  | none
  | double
  | float
  | i32
  | i64
  | u32
  | u64
  | bool
  | str
  | desc
  | complexObj
  | complexArr
  deriving DecidableEq

inductive XlsxDataConstraintType
  | none
  | primaryKey
  | notEmpty
  deriving DecidableEq

inductive XlsxDataExportType
  | both
  | client
  | server
  deriving DecidableEq

/-- Empty tokens are kept, so there is always one token. -/
def tokenize (input delimiters : Text) : List Text :=
  input.splitOnP (· ∈ delimiters)

def name2Type : List (Text × XlsxDataType) :=
  [("double".toList, .double), ("float".toList, .float), ("i32".toList, .i32),
    ("i64".toList, .i64), ("u32".toList, .u32), ("u64".toList, .u64), ("bool".toList, .bool),
    ("str".toList, .str), ("#".toList, .desc), ("desc".toList, .desc)]

def complexSigns : Text := "!\"&+-:;=?^|~".toList

def getFieldDelimiters : Text := "@".toList

section
/- The sign table has 128 entries; `stray` is what a read past its end finds. -/
variable (stray : Char → Bool)

def isTypeNameComplexDelimiter (ch : Char) : Bool :=
  if ch.toNat < 128 then ch ∈ complexSigns else stray ch

def isTypeNameComplexObj (typeName : Text) : Bool :=
  typeName.any (isTypeNameComplexDelimiter stray)

def isTypeNameComplexArr (typeName : Text) : Bool :=
  typeName.getLast?.any (isTypeNameComplexDelimiter stray)

def getTypeByTypeName (typeName : Text) : XlsxDataType :=
  if typeName = [] then .none
  else match name2Type.lookup typeName with
    | some t => t
    | Option.none =>
      if isTypeNameComplexObj stray typeName then
        if isTypeNameComplexArr stray typeName then .complexArr else .complexObj
      else .none

end

/-- The primary key mark is looked for first. -/
def getConstraintTypeByTypeName (typeName : Text) : XlsxDataConstraintType :=
  if '!' ∈ typeName then .primaryKey else if '*' ∈ typeName then .notEmpty else .none

def getExportTypeByTypeName (typeName : Text) : XlsxDataExportType :=
  if 'c' ∈ typeName ∧ 's' ∈ typeName then .both
  else if 'c' ∈ typeName then .client
  else if 's' ∈ typeName then .server
  else .both

/-- Worksheets whose title starts with `@` are the ones to output. -/
def sheetTitleIsOutput (title : Text) : Bool := title.head? = some '@'

def getSheetTitle (title : Text) : Text :=
  if sheetTitleIsOutput title then title.drop 1 else []

def capitalizeFirstLetter : Text → Text
  | [] => []
  | ch :: strv => ch.toUpper :: strv

def lowercaseString (strv : Text) : Text := strv.map Char.toLower

def getProto3MessageName (typeName : Text) : Text :=
  "DataHubEntry".toList ++ capitalizeFirstLetter typeName

/-- The types that a primary key may have. -/
def isCppKeyType (type : XlsxDataType) : Bool :=
  type ∈ [.i32, .i64, .u32, .u64, .str]

lemma tokenize_ne_nil (input delimiters : Text) : tokenize input delimiters ≠ [] :=
  List.splitOnP_ne_nil _ _

lemma tokenize_nil (delimiters : Text) : tokenize [] delimiters = [[]] :=
  List.splitOnP_nil

end TyphoonZero.Xlsx
