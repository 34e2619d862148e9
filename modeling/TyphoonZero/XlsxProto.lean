import TyphoonZero.ProtoText
import TyphoonZero.XlsxColumns

/-! The proto generator: every header of a worksheet becomes a field of its message, complex
types with nested messages. -/
namespace TyphoonZero.Xlsx

/-- `none` is the failed assertion. -/
def getProto3TypeByType : XlsxDataType → Option Text
  | .double => some "double".toList
  | .float => some "float".toList
  | .i32 => some "sint32".toList
  | .i64 => some "sint64".toList
  | .u32 => some "uint32".toList
  | .u64 => some "uint64".toList
  | .bool => some "bool".toList
  | .str => some "string".toList
  | _ => none

/-- The name of the member at the position `index`. -/
def memberName (index : ℕ) : Text := 'p' :: Nat.toDigits 10 (index + 1)

/-- The name of the array at the level `index`. -/
def nestName (index : ℕ) : Text := "nest".toList ++ Nat.toDigits 10 index

namespace AnalystField
variable (f : AnalystField)

def nestTypeName (name : Text) (index : ℕ) : Text :=
  capitalizeFirstLetter name ++ "Nest".toList ++ Nat.toDigits 10 index

/-- The members of the innermost message. -/
def generateMembers (printer : Printer) : Option Printer :=
  f.complexField.2.zipIdx.foldlM (fun printer (type, i) => do
    let typeName ← getProto3TypeByType type
    some (printer.println (.field false typeName (memberName i) (i + 1)))) printer

def openNests (name : Text) (levels : ℕ) (printer : Printer) : Printer :=
  (List.range levels).foldl (fun printer i =>
    (printer.println (.message (nestTypeName name (i + 1)))).indent) printer

def closeNests (name : Text) (levels : ℕ) (printer : Printer) : Printer :=
  (List.range levels).foldl (fun printer i =>
    (printer.outdent.println .close).println
      (.field true (nestTypeName name (levels - i)) (nestName (levels - i)) 1)) printer

def generateProtoData (printer : Printer) (index : ℕ) : Option Printer :=
  match f.type with
  | .desc => some printer
  | .complexObj => do
    let printer := (printer.println (.message (capitalizeFirstLetter f.name))).indent
    let printer ← f.generateMembers printer
    let printer := printer.outdent.println .close
    some (printer.println
      (.field false (capitalizeFirstLetter f.name) (lowercaseString f.name) index))
  | .complexArr => do
    let printer := (printer.println (.message (capitalizeFirstLetter f.name))).indent
    let printer := openNests f.name (f.complexField.1.length - 2) printer
    let printer ← f.generateMembers printer
    let printer := closeNests f.name (f.complexField.1.length - 2) printer
    let printer := printer.outdent.println .close
    some (printer.println
      (.field true (capitalizeFirstLetter f.name) (lowercaseString f.name) index))
  | type => do
    let typeName ← getProto3TypeByType type
    some (printer.println (.field false typeName f.name index))

end AnalystField

def AnalystSheet.generateProtoData (s : AnalystSheet) (printer : Printer) (index : ℕ) :
    Option Printer :=
  match s.fields[index]? with
  | none => none
  | some f => f.generateProtoData printer (index + 1)

def Analyst.generateProtoData (a : Analyst) (printer : Printer) (sheetTitle : Text) (index : ℕ) :
    Option Printer :=
  match a.sheetUmap sheetTitle with
  | none => none
  | some s => s.generateProtoData printer index

/-- The message of a worksheet that has a row; `columns` is the length of its first row. -/
def ProtoGenerator.analyze (a : Analyst) (ws : Worksheet) : Option Printer :=
  match ws.rows with
  | [] => some {}
  | row :: _ => do
    let titleRaw := getSheetTitle ws.title
    if titleRaw = [] then none
    let title := capitalizeFirstLetter titleRaw
    let printer := (({} : Printer).println (.message (getProto3MessageName title))).indent
    let printer := (printer.println (.message title)).indent
    let printer ← (List.range row.length).foldlM (fun printer i =>
      a.generateProtoData printer titleRaw i) printer
    let printer := printer.outdent.println .close
    let printer := printer.println (.field true title "datas".toList 1)
    let printer := printer.outdent.println .close
    some (printer.println .blank)

end TyphoonZero.Xlsx
