import Mathlib.Data.List.ReduceOption
import Mathlib.Logic.Function.Basic
import TyphoonZero.XlsxCommon

/-! The analyst: a header cell becomes a field description, the descriptions of a worksheet
are kept in a list under its title. -/
namespace TyphoonZero.Xlsx

/-- `complexField` holds the delimiters of a complex type, the outer ones first, and the types
of its parts. -/
structure AnalystField where
  name : Text := []
  type : XlsxDataType := .none
  constraintType : XlsxDataConstraintType := .none
  exportType : XlsxDataExportType := .both
  complexField : Text × List XlsxDataType := ([], [])
  deriving DecidableEq

section
variable (stray : Char → Bool)

namespace AnalystField

def analyzeName (f : AnalystField) (strv : Text) : Option AnalystField :=
  if strv = [] then none else some { f with name := strv }

/-- The delimiters at the end are taken off one by one, down to the first character. -/
def analyzeComplexType (f : AnalystField) (strv : Text) : Option AnalystField :=
  let delimiters := (strv.drop 1).reverse.takeWhile (isTypeNameComplexDelimiter stray)
  let typeStr := strv.take (strv.length - delimiters.length)
  if typeStr.length ≤ 1 then none
  else match typeStr.find? (isTypeNameComplexDelimiter stray) with
    | none => none
    | some delimiter =>
      let typeVec := (tokenize typeStr [delimiter]).map (getTypeByTypeName stray)
      if .none ∈ typeVec then none
      else some { f with complexField := (delimiters ++ [delimiter], typeVec) }

def analyzeType (f : AnalystField) (strv : Text) : Option AnalystField :=
  match getTypeByTypeName stray strv with
  | .none => none
  | .complexObj => analyzeComplexType stray { f with type := .complexObj } strv
  | .complexArr => analyzeComplexType stray { f with type := .complexArr } strv
  | t => some { f with type := t }

def analyzeConstraintType (f : AnalystField) (strv : Text) : Option AnalystField :=
  some { f with constraintType := getConstraintTypeByTypeName strv }

def analyzeExportType (f : AnalystField) (strv : Text) : Option AnalystField :=
  some { f with exportType := getExportTypeByTypeName strv }

def analyzeCheck (f : AnalystField) (_strv : Text) : Option AnalystField := some f

/-- The tokens of a header: name, type, constraint, export, check; more are not looked at. -/
def analyzeToken (f : AnalystField) : Text × ℕ → Option AnalystField
  | (strv, 0) => f.analyzeName strv
  | (strv, 1) => f.analyzeType stray strv
  | (strv, 2) => f.analyzeConstraintType strv
  | (strv, 3) => f.analyzeExportType strv
  | (strv, 4) => f.analyzeCheck strv
  | _ => some f

def analyze (field : Text) : Option AnalystField :=
  (tokenize field getFieldDelimiters).zipIdx.foldlM (analyzeToken stray) {}

/-- An empty header cell is no field. -/
lemma analyze_nil : analyze stray [] = none := by
  simp [analyze, tokenize_nil, analyzeToken, analyzeName]

end AnalystField

structure AnalystSheet where
  sheetTitle : Text := []
  fields : List AnalystField := []

namespace AnalystSheet

/-- Only a field that can be analysed is appended. -/
def analyze (s : AnalystSheet) (field : Text) : AnalystSheet × Bool :=
  match AnalystField.analyze stray field with
  | some newField => ({ s with fields := s.fields ++ [newField] }, true)
  | none => (s, false)

end AnalystSheet

/-- One row of a range is as wide as the other. A cell that was never written is `none`. -/
structure Worksheet where
  title : Text
  rows : List (List (Option Text))
  width : ℕ
  rect : ∀ row ∈ rows, row.length = width

/-- The text of a cell, which is empty for one that was never written. -/
def toString (cell : Option Text) : Text := cell.getD []

structure Analyst where
  sheetUmap : Text → Option AnalystSheet := fun _ => none

namespace Analyst

def analyzeField (a : Analyst) (sheetTitle field : Text) : Analyst × Bool :=
  let sheet := (a.sheetUmap sheetTitle).getD { sheetTitle := sheetTitle }
  let (sheet, ok) := sheet.analyze stray field
  (⟨Function.update a.sheetUmap sheetTitle (some sheet)⟩, ok)

/-- The cells of the first row, those that were never written left out. What the analysis of a
cell answers is not looked at. -/
def analyze (a : Analyst) (ws : Worksheet) : Option Analyst :=
  match ws.rows with
  | [] => none
  | row :: _ =>
    let titleRaw := getSheetTitle ws.title
    if titleRaw = [] then none
    else some (row.reduceOption.foldl (fun a cell => (a.analyzeField stray titleRaw cell).1) a)

end Analyst
end
end TyphoonZero.Xlsx
