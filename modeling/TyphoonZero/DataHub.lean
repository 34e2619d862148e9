import Mathlib
import TyphoonZero.KeyedInsert
import TyphoonZero.XlsxAnalyst

/-! The data hub that the C++ generator emits for a set of worksheets: one map for each of them,
filled from a data file by `Load` and again by `Reload`. -/
namespace TyphoonZero.DataHub
open Xlsx KeyedInsert

/-- What the accessor of a primary key answers. -/
inductive KeyValue
  | int (v : ℤ)
  | str (v : Text)
  deriving DecidableEq

namespace KeyValue

def toString : KeyValue → Text
  | .int (.ofNat n) => Nat.toDigits 10 n
  | .int (.negSucc n) => '-' :: Nat.toDigits 10 (n + 1)
  | .str v => v

def HasType : XlsxDataType → KeyValue → Prop
  | .i32, .int v => -2 ^ 31 ≤ v ∧ v < 2 ^ 31
  | .i64, .int v => -2 ^ 63 ≤ v ∧ v < 2 ^ 63
  | .u32, .int v => 0 ≤ v ∧ v < 2 ^ 32
  | .u64, .int v => 0 ≤ v ∧ v < 2 ^ 64
  | .str, .str _ => True
  | _, _ => False

end KeyValue

structure KeyField where
  name : Text
  type : XlsxDataType
  deriving DecidableEq

/-- The code emitted for one worksheet: the getter by its primary keys, and the branch of `Init`
for a message of its type. -/
structure SheetCode where
  message : Text
  map : Text
  keys : List KeyField
  deriving DecidableEq

def isCppFieldKeys (f : AnalystField) : Bool :=
  f.constraintType = .primaryKey

/-- A primary key of another type is an assertion, a worksheet without primary key an error. -/
def generateCppSourceData (sheet : AnalystSheet) : Option SheetCode :=
  let keyFields := sheet.fields.filter isCppFieldKeys
  if keyFields.all (fun f => isCppKeyType f.type) then
    if keyFields = [] then none
    else some {
      message := getProto3MessageName sheet.sheetTitle
      map := lowercaseString sheet.sheetTitle ++ "_map_".toList
      keys := keyFields.map fun f => ⟨f.name, f.type⟩ }
  else none

/-- The emitted code. A member or a message declared twice would be no C++ program. -/
structure Code where
  sheets : List AnalystSheet
  branches : List SheetCode
  emitted : sheets.mapM generateCppSourceData = some branches
  maps_nodup : (branches.map SheetCode.map).Nodup
  messages_nodup : (branches.map SheetCode.message).Nodup

/-- One primary key is the key itself; several are put together as text. -/
def mapKey : List KeyValue → KeyValue
  | [v] => v
  | vs => .str (vs.flatMap KeyValue.toString)

/-- A packed message: its type and the rows. -/
structure AnyMessage (ρ : Type) where
  message : Text
  datas : List ρ

/-- The map of a data file in the order in which it is walked through. -/
abbrev DataHubMap (ρ : Type) := List (Text × AnyMessage ρ)

inductive FileRead (ρ : Type)
  | notFound
  | parseFailed
  | exception (what : Text)
  | parsed (dataMap : DataHubMap ρ)

structure DataHubMgr (ρ : Type) where
  maps : Text → KeyValue → Option ρ := fun _ _ => none
  path : Text := []

section
/- `value` is what the accessor of a field answers for a row. -/
variable {ρ : Type} (code : Code) (value : ρ → Text → KeyValue)

def SheetCode.keyOf (c : SheetCode) (row : ρ) : List KeyValue :=
  c.keys.map fun key => value row key.name

namespace DataHubMgr
variable (h : DataHubMgr ρ)

def getDataHubEntry (c : SheetCode) (args : List KeyValue) : Option ρ :=
  h.maps c.map (mapKey args)

/-- The rows of a message go into the map of the first branch for its type; a repeated key is an
assertion. -/
def initEntry (val : AnyMessage ρ) : Option (DataHubMgr ρ) :=
  match code.branches.find? fun c => c.message = val.message with
  | none => some h
  | some c =>
    (insertAll (fun data => mapKey (c.keyOf value data)) (h.maps c.map) val.datas).map fun table =>
      { h with maps := Function.update h.maps c.map table }

def init (dataMap : DataHubMap ρ) : Option (DataHubMgr ρ) :=
  dataMap.foldlM (fun h entry => h.initEntry code value entry.2) h

def errorText (text path : Text) : Text := text ++ " (".toList ++ path ++ ") ".toList

/-- With the error text when the result is false. `none` is an assertion, or the exception of `absolute`
for the empty path, which nothing catches. -/
def load (files : Text → FileRead ρ) (path : Text) (reload : Bool) :
    Option (DataHubMgr ρ × Option Text) :=
  let h := if reload then h else { h with path := path }
  if h.path = [] then none else
  match files h.path with
  | .notFound => some (h, some (errorText "file not found".toList h.path))
  | .parseFailed => some (h, some (errorText "file parse failed".toList h.path))
  | .exception what => some (h, some (errorText what h.path))
  | .parsed dataMap => (h.init code value dataMap).map fun h => (h, none)

def reload (files : Text → FileRead ρ) : Option (DataHubMgr ρ × Option Text) :=
  h.load code value files [] true

end DataHubMgr

namespace SheetCode
variable (c : SheetCode)

/-- The rows of a data file that belong to a worksheet. -/
def rowsOf (dataMap : DataHubMap ρ) : List ρ :=
  dataMap.flatMap fun entry => if entry.2.message = c.message then entry.2.datas else []

/-- Arguments of the getter. -/
def Typed (args : List KeyValue) : Prop :=
  List.Forall₂ (fun key v => KeyValue.HasType key.type v) c.keys args

/-- No row repeats the keys of another, and the keys have their types. -/
def Valid (rows : List ρ) : Prop :=
  (rows.map (c.keyOf value)).Nodup ∧ ∀ row ∈ rows, c.Typed (c.keyOf value row)

/-- No other arguments are put together to the same text as the keys of a row. -/
def Unambiguous (rows : List ρ) : Prop :=
  ∀ row ∈ rows, ∀ args, c.Typed args → mapKey args = mapKey (c.keyOf value row) →
    args = c.keyOf value row

end SheetCode

def ValidFile (dataMap : DataHubMap ρ) : Prop :=
  ∀ c ∈ code.branches, c.Valid value (c.rowsOf dataMap)

/-- Every lookup of every worksheet answers with the row of the file under that key. -/
def Answers (h : DataHubMgr ρ) (dataMap : DataHubMap ρ) : Prop :=
  ∀ c ∈ code.branches, ∀ args, c.Typed args →
    h.getDataHubEntry c args = (c.rowsOf dataMap).find? fun row => c.keyOf value row = args

/-- No two rows of a worksheet have keys that are put together to the same text. -/
def LoadsFresh (dataMap : DataHubMap ρ) : Prop :=
  ∀ c ∈ code.branches, ((c.rowsOf dataMap).map fun row => mapKey (c.keyOf value row)).Nodup

end

section
variable {ρ : Type} {code : Code} {value : ρ → Text → KeyValue} {c : SheetCode}

lemma branch_unique {c' : SheetCode} (hc : c ∈ code.branches) (hc' : c' ∈ code.branches)
    (h : c.message = c'.message) : c = c' :=
  List.inj_on_of_nodup_map code.messages_nodup hc hc' h

lemma map_unique {c' : SheetCode} (hc : c ∈ code.branches) (hc' : c' ∈ code.branches)
    (h : c.map = c'.map) : c = c' :=
  List.inj_on_of_nodup_map code.maps_nodup hc hc' h

lemma find_branch (hc : c ∈ code.branches) {val : AnyMessage ρ} (h : c.message = val.message) :
    (code.branches.find? fun c => c.message = val.message) = some c := by
  cases hf : code.branches.find? fun c => c.message = val.message with
  | none =>
    have := List.find?_eq_none.mp hf c hc
    simp [h] at this
  | some c' =>
    have hmsg : c'.message = val.message := by simpa using List.find?_some hf
    rw [branch_unique hc (List.mem_of_find?_eq_some hf) (h.trans hmsg.symm)]

namespace DataHubMgr
variable {h h' : DataHubMgr ρ}

/-- What one message does to the map of one worksheet. -/
lemma initEntry_spec {val : AnyMessage ρ} (hstep : h.initEntry code value val = some h')
    (hc : c ∈ code.branches) :
    insertAll (fun row => mapKey (c.keyOf value row)) (h.maps c.map)
      (if val.message = c.message then val.datas else []) = some (h'.maps c.map) := by
  unfold initEntry at hstep
  by_cases hmsg : val.message = c.message
  · rw [find_branch hc hmsg.symm] at hstep
    obtain ⟨table, htable, rfl⟩ := Option.map_eq_some_iff.mp hstep
    simpa [hmsg] using htable
  · rw [if_neg hmsg, insertAll_nil]
    cases hf : code.branches.find? fun c => c.message = val.message with
    | none =>
      rw [hf] at hstep
      rw [Option.some.inj hstep]
    | some c' =>
      rw [hf] at hstep
      obtain ⟨table, -, rfl⟩ := Option.map_eq_some_iff.mp hstep
      have hother : c.map ≠ c'.map := by
        intro heq
        have hc' := map_unique hc (List.mem_of_find?_eq_some hf) heq
        have hmsg' : c'.message = val.message := by simpa using List.find?_some hf
        exact hmsg (by rw [hc', hmsg'])
      simp [Function.update_of_ne hother]

/-- A message goes in when its rows go into the map of each worksheet. -/
lemma initEntry_isSome {val : AnyMessage ρ} (hall : ∀ c ∈ code.branches,
    (insertAll (fun row => mapKey (c.keyOf value row)) (h.maps c.map)
      (if val.message = c.message then val.datas else [])).isSome) :
    (h.initEntry code value val).isSome := by
  unfold initEntry
  cases hf : code.branches.find? fun c => c.message = val.message with
  | none => rfl
  | some c =>
    have hmsg : c.message = val.message := by simpa using List.find?_some hf
    have := hall c (List.mem_of_find?_eq_some hf)
    simpa [hmsg] using this

/-- After `Init` the map of a worksheet holds its rows of the file besides what it held. -/
lemma init_spec {dataMap : DataHubMap ρ} (hinit : h.init code value dataMap = some h')
    (hc : c ∈ code.branches) :
    insertAll (fun row => mapKey (c.keyOf value row)) (h.maps c.map) (c.rowsOf dataMap) =
      some (h'.maps c.map) := by
  induction dataMap generalizing h with
  | nil =>
    obtain rfl := Option.some.inj hinit
    rfl
  | cons entry dataMap ih =>
    obtain ⟨mid, hmid, hrest⟩ := Option.bind_eq_some_iff.mp hinit
    have hrows : c.rowsOf (entry :: dataMap) =
        (if entry.2.message = c.message then entry.2.datas else []) ++ c.rowsOf dataMap := rfl
    rw [hrows, insertAll_append, initEntry_spec hmid hc, Option.bind_some]
    exact ih hrest

/-- `Init` asserts nothing exactly when the rows of each worksheet have new and different keys. -/
lemma init_isSome {dataMap : DataHubMap ρ} : (h.init code value dataMap).isSome ↔
    ∀ c ∈ code.branches, (insertAll (fun row => mapKey (c.keyOf value row)) (h.maps c.map)
      (c.rowsOf dataMap)).isSome := by
  constructor
  · intro hinit c hc
    obtain ⟨h', hh'⟩ := Option.isSome_iff_exists.mp hinit
    exact Option.isSome_of_mem (init_spec hh' hc)
  · intro hall
    induction dataMap generalizing h with
    | nil => rfl
    | cons entry dataMap ih =>
      have hsplit : ∀ c ∈ code.branches,
          ((insertAll (fun row => mapKey (c.keyOf value row)) (h.maps c.map)
            (if entry.2.message = c.message then entry.2.datas else [])).bind fun table =>
              insertAll (fun row => mapKey (c.keyOf value row)) table (c.rowsOf dataMap)).isSome := by
        intro c hc
        rw [← insertAll_append]
        exact hall c hc
      have hentry : (h.initEntry code value entry.2).isSome := by
        apply initEntry_isSome
        intro c hc
        exact Option.isSome_of_isSome_bind (hsplit c hc)
      obtain ⟨mid, hmid⟩ := Option.isSome_iff_exists.mp hentry
      have hcons : h.init code value (entry :: dataMap) =
          (h.initEntry code value entry.2).bind fun h => h.init code value dataMap := rfl
      rw [hcons, hmid, Option.bind_some]
      apply ih
      intro c hc
      have := hsplit c hc
      rwa [initEntry_spec hmid hc, Option.bind_some] at this

/-- A reload that answers false leaves every map as it was. -/
lemma reload_error {files : Text → FileRead ρ} {error : Text}
    (hload : h.reload code value files = some (h', some error)) : h' = h := by
  unfold reload load at hload
  simp only [if_true] at hload
  split at hload
  · cases hload
  cases hfile : files h.path with
  | parsed dataMap =>
    simp only [hfile, Option.map_eq_some_iff] at hload
    obtain ⟨_, _, heq⟩ := hload
    simp at heq
  | notFound | parseFailed | exception =>
    simp only [hfile, Option.some.injEq, Prod.mk.injEq] at hload
    exact hload.1.symm

end DataHubMgr
end
end TyphoonZero.DataHub
