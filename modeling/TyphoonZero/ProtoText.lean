import Mathlib
import TyphoonZero.XlsxCommon

/-! Generated proto text: the braces of a text, the printer with its lines, and the declarations
that nested lines make. -/
namespace TyphoonZero.Xlsx

/-- The depth after a text that starts at depth `d`; a brace that closes too much is an error. -/
def nest : ℕ → Text → Option ℕ
  | d, [] => some d
  | d, ch :: strv =>
    if ch = '{' then nest (d + 1) strv
    else if ch = '}' then
      match d with
      | 0 => none
      | d + 1 => nest d strv
    else nest d strv

def Balanced (strv : Text) : Prop := nest 0 strv = some 0

instance (strv : Text) : Decidable (Balanced strv) :=
  inferInstanceAs (Decidable (_ = _))

def isBrace (ch : Char) : Bool := ch = '{' || ch = '}'

lemma isBrace_iff {ch : Char} : isBrace ch = true ↔ ch = '{' ∨ ch = '}' := by
  simp [isBrace]

/-- The braces of a text. -/
def braces (strv : Text) : Text := strv.filter isBrace

lemma nest_braces (strv : Text) (d : ℕ) : nest d (braces strv) = nest d strv := by
  induction strv generalizing d with
  | nil => rfl
  | cons ch strv ih =>
    by_cases hopen : ch = '{'
    · have hb : braces (ch :: strv) = ch :: braces strv := by simp [braces, isBrace, hopen]
      rw [hb]
      simp only [nest, hopen, if_true]
      exact ih _
    · by_cases hclose : ch = '}'
      · have hb : braces (ch :: strv) = ch :: braces strv := by simp [braces, isBrace, hclose]
        rw [hb]
        cases d with
        | zero => simp [nest, hclose]
        | succ d =>
          simp only [nest, hclose, Char.reduceEq, if_false, if_true]
          exact ih _
      · have hb : braces (ch :: strv) = braces strv := by simp [braces, isBrace, hopen, hclose]
        rw [hb]
        simp only [nest, hopen, hclose, if_false]
        exact ih _

/-- Only the braces of a text count. -/
lemma balanced_congr {a b : Text} (h : braces a = braces b) : Balanced a ↔ Balanced b := by
  unfold Balanced
  rw [← nest_braces a, ← nest_braces b, h]

lemma braces_append (a b : Text) : braces (a ++ b) = braces a ++ braces b := List.filter_append ..

lemma braces_cons (ch : Char) (strv : Text) :
    braces (ch :: strv) = (if isBrace ch then [ch] else []) ++ braces strv := by
  by_cases h : isBrace ch <;> simp [braces, h]

lemma braces_nil : braces [] = [] := rfl

lemma braces_eq_nil {strv : Text} (h : ∀ ch ∈ strv, isBrace ch = false) : braces strv = [] := by
  apply List.filter_eq_nil_iff.mpr
  intro ch hch
  simp [h ch hch]

lemma braces_digits (n : ℕ) : braces (Nat.toDigits 10 n) = [] := by
  apply braces_eq_nil
  intro ch hch
  have hdigit : ch.isDigit := Nat.isDigit_of_mem_toDigits (by decide) (by decide) hch
  by_contra hbrace
  obtain rfl | rfl := isBrace_iff.mp (by simpa using hbrace)
  · cases hdigit
  · cases hdigit

/-- A change of letters only keeps the braces. -/
lemma braces_map {f : Char → Char} (hbrace : ∀ ch, isBrace (f ch) = isBrace ch)
    (hkeep : ∀ ch, isBrace ch → f ch = ch) (strv : Text) : braces (strv.map f) = braces strv := by
  induction strv with
  | nil => rfl
  | cons ch strv ih =>
    rw [List.map_cons, braces_cons, braces_cons, ih, hbrace]
    split
    next h => rw [hkeep ch h]
    next => rfl

lemma isBrace_of_isAlpha {ch : Char} (h : ch.isAlpha = true) : isBrace ch = false := by
  by_contra hbrace
  obtain rfl | rfl := isBrace_iff.mp (by simpa using hbrace)
  · cases h
  · cases h

lemma isBrace_toLower (ch : Char) : isBrace ch.toLower = isBrace ch := by
  by_cases h : ch.isUpper
  · have halpha : ch.isAlpha = true := by simp [Char.isAlpha, h]
    rw [isBrace_of_isAlpha halpha, isBrace_of_isAlpha (by simpa using halpha)]
  · rw [Char.toLower_eq_of_not_isUpper h]

lemma isBrace_toUpper (ch : Char) : isBrace ch.toUpper = isBrace ch := by
  by_cases h : ch.isLower
  · have halpha : ch.isAlpha = true := by simp [Char.isAlpha, h]
    rw [isBrace_of_isAlpha halpha, isBrace_of_isAlpha (by simpa using halpha)]
  · rw [Char.toUpper_eq_of_not_isLower h]

lemma braces_lowercaseString (strv : Text) : braces (lowercaseString strv) = braces strv := by
  apply braces_map isBrace_toLower
  intro ch hch
  obtain rfl | rfl := isBrace_iff.mp hch
  · rfl
  · rfl

lemma braces_capitalizeFirstLetter (strv : Text) :
    braces (capitalizeFirstLetter strv) = braces strv := by
  cases strv with
  | nil => rfl
  | cons ch strv =>
    rw [capitalizeFirstLetter, braces_cons, braces_cons, isBrace_toUpper]
    split
    next h =>
      obtain rfl | rfl := isBrace_iff.mp h
      · rfl
      · rfl
    next => rfl

inductive ProtoLine
  | message (name : Text)
  | close
  | field (repeated : Bool) (type name : Text) (index : ℕ)
  | blank
  deriving DecidableEq

def ProtoLine.text : ProtoLine → Text
  | message name => "message ".toList ++ name ++ [' ', '{']
  | close => ['}']
  | field repeated type name index =>
    (if repeated then "repeated ".toList else []) ++ type ++ ' ' :: name ++ " = ".toList ++
      Nat.toDigits 10 index ++ [';']
  | blank => []

/-- `buf` keeps the lines with the spaces that were before them when they were printed. -/
structure Printer where
  space : ℕ := 0
  buf : List (ℕ × ProtoLine) := []
  deriving DecidableEq

namespace Printer

def indent (p : Printer) : Printer := { p with space := p.space + 2 }

def outdent (p : Printer) : Printer := { p with space := p.space - 2 }

def println (p : Printer) (line : ProtoLine) : Printer :=
  { p with buf := p.buf ++ [(p.space, line)] }

def printed (space : ℕ) (strv : Text) : Text :=
  (if strv = [] then [] else List.replicate space ' ') ++ strv ++ ['\n']

def getBuf (p : Printer) : Text := p.buf.flatMap fun (space, line) => printed space line.text

def lines (p : Printer) : List ProtoLine := p.buf.map Prod.snd

@[simp] lemma lines_indent (p : Printer) : p.indent.lines = p.lines := rfl

@[simp] lemma lines_outdent (p : Printer) : p.outdent.lines = p.lines := rfl

@[simp] lemma lines_println (p : Printer) (line : ProtoLine) :
    (p.println line).lines = p.lines ++ [line] := by
  simp [lines, println]

lemma braces_printed (space : ℕ) (strv : Text) : braces (printed space strv) = braces strv := by
  have hspaces : braces (List.replicate space ' ') = [] := by
    apply braces_eq_nil
    intro ch hch
    rw [List.eq_of_mem_replicate hch]
    rfl
  have hnewline : braces ['\n'] = [] := rfl
  unfold printed
  split
  next h => rw [h, braces_append, hnewline, List.append_nil, List.append_nil]
  next => rw [braces_append, braces_append, hspaces, hnewline, List.nil_append, List.append_nil]

/-- The indentation has no braces. -/
lemma braces_getBuf (p : Printer) :
    braces p.getBuf = p.lines.flatMap fun line => braces line.text := by
  unfold getBuf lines
  induction p.buf with
  | nil => rfl
  | cons entry rest ih =>
    rw [List.flatMap_cons, braces_append, braces_printed, ih, List.map_cons, List.flatMap_cons]

end Printer

/-- What the lines of a proto file declare. -/
inductive Decl
  | message (name : Text) (body : List Decl)
  | field (repeated : Bool) (type name : Text) (index : ℕ)

/-- The declarations are read line by line; `outer` are the messages that are still open, the
innermost first. -/
def readDecls : List ProtoLine → List Decl → List (Text × List Decl) → Option (List Decl)
  | [], decls, [] => some decls
  | [], _, _ :: _ => none
  | .message name :: lines, decls, outer => readDecls lines [] ((name, decls) :: outer)
  | .close :: lines, decls, (name, before) :: outer =>
    readDecls lines (before ++ [.message name decls]) outer
  | .close :: _, _, [] => none
  | .field repeated type name index :: lines, decls, outer =>
    readDecls lines (decls ++ [.field repeated type name index]) outer
  | .blank :: lines, decls, outer => readDecls lines decls outer

/-- These lines make these declarations wherever they stand. -/
def Declares (lines : List ProtoLine) (decls : List Decl) : Prop :=
  ∀ rest before outer, readDecls (lines ++ rest) before outer =
    readDecls rest (before ++ decls) outer

namespace Declares

lemma nil : Declares [] [] := by
  intro rest before outer
  rw [List.nil_append, List.append_nil]

lemma blank : Declares [.blank] [] := by
  intro rest before outer
  rw [List.append_nil]
  rfl

lemma field {repeated : Bool} {type name : Text} {index : ℕ} :
    Declares [.field repeated type name index] [.field repeated type name index] := by
  intro rest before outer
  rfl

lemma append {lines lines' : List ProtoLine} {decls decls' : List Decl}
    (h : Declares lines decls) (h' : Declares lines' decls') :
    Declares (lines ++ lines') (decls ++ decls') := by
  intro rest before outer
  rw [List.append_assoc, h, h', List.append_assoc]

lemma message {lines : List ProtoLine} {decls : List Decl} (name : Text)
    (h : Declares lines decls) :
    Declares (.message name :: lines ++ [.close]) [.message name decls] := by
  intro rest before outer
  rw [List.cons_append, List.cons_append, List.append_assoc, readDecls, h]
  rfl

lemma read {lines : List ProtoLine} {decls : List Decl} (h : Declares lines decls) :
    readDecls lines [] [] = some decls := by
  have hread := h [] [] []
  rwa [List.append_nil] at hread

end Declares

end TyphoonZero.Xlsx
