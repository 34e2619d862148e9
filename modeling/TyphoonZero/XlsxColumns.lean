import Mathlib.Data.List.Induction
import TyphoonZero.XlsxAnalyst

/-! Columns of a worksheet and the field descriptions its data cells are read with.

The JSON generator pairs the cells of a row with the descriptions under the title by position.
`read` is how one description reads one cell into the data of a row. -/
namespace TyphoonZero.Xlsx

section
variable (stray : Char → Bool) {ρ : Type} (read : AnalystField → ρ → Text → Option ρ)

def AnalystSheet.generateJsonData (s : AnalystSheet) (rowData : ρ) (index : ℕ) (data : Text) :
    Option ρ :=
  match s.fields[index]? with
  | none => none
  | some f => read f rowData data

def Analyst.generateJsonData (a : Analyst) (rowData : ρ) (sheetTitle : Text) (index : ℕ)
    (data : Text) : Option ρ :=
  match a.sheetUmap sheetTitle with
  | none => none
  | some s => s.generateJsonData read rowData index data

namespace JsonGenerator

def analyzeRow (a : Analyst) (titleRaw : Text) (empty : ρ) (row : List (Option Text)) : Option ρ :=
  row.zipIdx.foldlM (fun rowData (cell, i) =>
    a.generateJsonData read rowData titleRaw i (toString cell)) empty

/-- The first row is the header and the second a comment. -/
def analyze (a : Analyst) (empty : ρ) (ws : Worksheet) : Option (List ρ) :=
  if 2 < ws.rows.length then
    let titleRaw := getSheetTitle ws.title
    if titleRaw = [] then none
    else (ws.rows.drop 2).mapM (analyzeRow read a titleRaw empty)
  else some []

end JsonGenerator

/-- The hub passes over worksheets that are not for output. -/
def generateAnlayst (a : Analyst) (ws : Worksheet) : Option Analyst :=
  if sheetTitleIsOutput ws.title then a.analyze stray ws else some a

namespace Worksheet
variable (ws : Worksheet)

def header : List (Option Text) := ws.rows.headD []

/-- The field description that the header cell of a column gives. -/
def descriptions : List (Option AnalystField) :=
  ws.header.map fun cell => AnalystField.analyze stray (toString cell)

/-- Each cell of a row read with the description of its own column. -/
def readRow (empty : ρ) (descriptions : List (Option AnalystField)) (row : List (Option Text)) :
    Option ρ :=
  (descriptions.zip row).foldlM (fun rowData (description, cell) =>
    description.bind fun f => read f rowData (toString cell)) empty

def readRows (empty : ρ) : Option (List ρ) :=
  (ws.rows.drop 2).mapM (readRow read empty (ws.descriptions stray))

/-- The worksheet has a title and a row, so that its analysis runs. -/
def Titled : Prop := getSheetTitle ws.title ≠ [] ∧ ws.rows ≠ []

end Worksheet

/-- What is demanded of `ws` when it is analysed after `earlier`: no header fails unnoticed, and
each data cell is read with the description of its own header, whatever reading does. -/
def ReadByOwnHeader (earlier : List Worksheet) (ws : Worksheet) : Prop :=
  ∀ a a', earlier.foldlM (generateAnlayst stray) {} = some a → a.analyze stray ws = some a' →
    none ∉ ws.descriptions stray ∧
      ∀ (ρ : Type) (read : AnalystField → ρ → Text → Option ρ) (empty : ρ),
        JsonGenerator.analyze read a' empty ws = ws.readRows stray read empty

/-- The descriptions that the worksheets before gave under a title. -/
def describedUnder (earlier : List Worksheet) (title : Text) : List AnalystField :=
  (earlier.filter fun ws => sheetTitleIsOutput ws.title ∧ getSheetTitle ws.title = title).flatMap
    fun ws => (ws.descriptions stray).reduceOption

/-- Every header can be analysed, and what the title holds already repeats these headers, as far
as they go, when there are data rows. -/
def OwnHeadersFirst (earlier : List Worksheet) (ws : Worksheet) : Prop :=
  none ∉ ws.descriptions stray ∧ (2 < ws.rows.length →
    ((describedUnder stray earlier (getSheetTitle ws.title)).map some ++
      ws.descriptions stray).take ws.width = ws.descriptions stray)

end

section
variable {stray : Char → Bool} {ρ : Type} {read : AnalystField → ρ → Text → Option ρ}

namespace Analyst

/-- The descriptions under a title. -/
def fieldsUnder (a : Analyst) (title : Text) : List AnalystField :=
  ((a.sheetUmap title).map AnalystSheet.fields).getD []

lemma generateJsonData_eq (a : Analyst) (rowData : ρ) (title : Text) (i : ℕ) (data : Text) :
    a.generateJsonData read rowData title i data =
      ((a.fieldsUnder title)[i]?).bind fun f => read f rowData data := by
  unfold generateJsonData fieldsUnder
  cases h : a.sheetUmap title with
  | none => simp
  | some s =>
    simp only [AnalystSheet.generateJsonData, Option.map_some, Option.getD_some]
    cases s.fields[i]? <;> rfl

lemma analyzeField_fields (a : Analyst) (sheetTitle field title : Text) :
    (a.analyzeField stray sheetTitle field).1.fieldsUnder title =
      a.fieldsUnder title ++
        if title = sheetTitle then (AnalystField.analyze stray field).toList else [] := by
  by_cases ht : title = sheetTitle
  · subst ht
    cases hs : a.sheetUmap title <;> cases hf : AnalystField.analyze stray field <;>
      simp [fieldsUnder, analyzeField, AnalystSheet.analyze, hs, hf]
  · simp [fieldsUnder, analyzeField, ht]

/-- The cells of a header, one after the other. -/
lemma foldl_analyzeField (sheetTitle title : Text) (cells : List (Option Text)) (a : Analyst) :
    (cells.reduceOption.foldl (fun a cell => (a.analyzeField stray sheetTitle cell).1)
        a).fieldsUnder title =
      a.fieldsUnder title ++ if title = sheetTitle then
        (cells.map fun cell => AnalystField.analyze stray (toString cell)).reduceOption else [] := by
  induction cells generalizing a with
  | nil => simp
  | cons cell cells ih =>
    cases cell with
    | none =>
      have hnil : AnalystField.analyze stray (toString none) = none := AnalystField.analyze_nil stray
      rw [List.reduceOption_cons_of_none, ih, List.map_cons, hnil, List.reduceOption_cons_of_none]
    | some cell =>
      have htext : toString (some cell) = cell := rfl
      rw [List.reduceOption_cons_of_some, List.foldl_cons, ih, analyzeField_fields, List.map_cons,
        htext, List.append_assoc]
      congr 1
      split
      · cases AnalystField.analyze stray cell <;> simp [List.reduceOption]
      · rfl

lemma analyze_fields {a a' : Analyst} {ws : Worksheet} (h : a.analyze stray ws = some a')
    (title : Text) :
    a'.fieldsUnder title = a.fieldsUnder title ++
      if title = getSheetTitle ws.title then (ws.descriptions stray).reduceOption else [] := by
  unfold analyze at h
  cases hr : ws.rows with
  | nil => simp [hr] at h
  | cons row rows =>
    simp only [hr] at h
    split at h
    · simp at h
    · obtain rfl := Option.some.inj h
      simp [foldl_analyzeField, Worksheet.descriptions, Worksheet.header, hr]

lemma analyze_isSome {a : Analyst} {ws : Worksheet} :
    (a.analyze stray ws).isSome ↔ ws.Titled := by
  unfold analyze Worksheet.Titled
  cases hr : ws.rows with
  | nil => simp
  | cons row rows => by_cases ht : getSheetTitle ws.title = [] <;> simp [ht]

end Analyst

/-- After a run the analyst holds under each title what was described under it. -/
lemma fieldsUnder_run (sheets : List Worksheet) {a : Analyst}
    (h : sheets.foldlM (generateAnlayst stray) {} = some a) (title : Text) :
    a.fieldsUnder title = describedUnder stray sheets title := by
  induction sheets using List.reverseRecOn generalizing a with
  | nil =>
    obtain rfl := Option.some.inj h
    rfl
  | append_singleton sheets ws ih =>
    rw [List.foldlM_append] at h
    obtain ⟨b, hb, hstep⟩ := Option.bind_eq_some_iff.mp h
    have hws : generateAnlayst stray b ws = some a := by simpa using hstep
    have hsplit : describedUnder stray (sheets ++ [ws]) title =
        describedUnder stray sheets title ++ describedUnder stray [ws] title := by
      simp [describedUnder]
    rw [hsplit, ← ih hb]
    unfold generateAnlayst at hws
    split at hws
    next hout =>
      rw [Analyst.analyze_fields hws]
      by_cases ht : title = getSheetTitle ws.title
      · simp [describedUnder, hout, ht]
      · have ht' : getSheetTitle ws.title ≠ title := fun h => ht h.symm
        simp [describedUnder, ht, ht']
    next hout =>
      obtain rfl := Option.some.inj hws
      simp [describedUnder, hout]

/-- The description found for each column of a row. -/
lemma analyzeRow_eq (a : Analyst) (titleRaw : Text) (empty : ρ) (row : List (Option Text)) :
    JsonGenerator.analyzeRow read a titleRaw empty row =
      Worksheet.readRow read empty
        ((List.range row.length).map fun i => (a.fieldsUnder titleRaw)[i]?) row := by
  have key : ∀ (k : ℕ) (rowData : ρ),
      (row.zipIdx k).foldlM (fun rowData (cell, i) =>
        a.generateJsonData read rowData titleRaw i (toString cell)) rowData =
      Worksheet.readRow read rowData
        ((List.range' k row.length).map fun i => (a.fieldsUnder titleRaw)[i]?) row := by
    induction row with
    | nil =>
      intro k rowData
      rfl
    | cons cell row ih =>
      intro k rowData
      simp only [Worksheet.readRow, List.zipIdx_cons, List.foldlM_cons, List.length_cons,
        List.range'_succ, List.map_cons, List.zip_cons_cons, Analyst.generateJsonData_eq]
      congr 1
      funext rowData'
      simpa only [Worksheet.readRow, Analyst.generateJsonData_eq] using ih (k + 1) rowData'
  rw [List.range_eq_range']
  exact key 0 empty

/-- Reading that only takes down the descriptions it is given. -/
def takeDown (f : AnalystField) (rowData : List AnalystField) (_data : Text) :
    Option (List AnalystField) :=
  some (rowData ++ [f])

lemma readRow_takeDown {ds : List (Option AnalystField)} {row : List (Option Text)}
    (hlen : ds.length = row.length) {start out : List AnalystField} :
    Worksheet.readRow takeDown start ds row = some out ↔
      ∃ fs, ds = fs.map some ∧ out = start ++ fs := by
  induction ds generalizing row start with
  | nil =>
    constructor
    · intro h
      exact ⟨[], rfl, by simpa using (Option.some.inj h).symm⟩
    · rintro ⟨fs, hfs, rfl⟩
      obtain rfl : fs = [] := by simpa using hfs.symm
      simp [Worksheet.readRow]
  | cons d ds ih =>
    cases row with
    | nil => simp at hlen
    | cons cell row =>
      have hrest : ds.length = row.length := by simpa using hlen
      cases d with
      | none =>
        simp only [Worksheet.readRow, List.zip_cons_cons, List.foldlM_cons]
        constructor
        · intro h
          simp at h
        · rintro ⟨fs, hfs, -⟩
          cases fs <;> simp at hfs
      | some f =>
        have hcons : Worksheet.readRow takeDown start (some f :: ds) (cell :: row) =
            Worksheet.readRow takeDown (start ++ [f]) ds row := rfl
        rw [hcons, ih hrest]
        constructor
        · rintro ⟨fs, rfl, rfl⟩
          exact ⟨f :: fs, by simp, by simp⟩
        · rintro ⟨fs, hfs, rfl⟩
          cases fs with
          | nil => simp at hfs
          | cons g fs =>
            obtain ⟨hg, htail⟩ := List.cons.inj hfs
            obtain rfl := Option.some.inj hg
            exact ⟨fs, htail, by simp⟩

lemma reduceOption_of_none_not_mem {α : Type} {l : List (Option α)} (h : none ∉ l) :
    l.reduceOption.map some = l := by
  induction l with
  | nil => rfl
  | cons o l ih =>
    have hl : none ∉ l := fun hmem => h (List.mem_cons_of_mem _ hmem)
    cases o with
    | none => exact absurd List.mem_cons_self h
    | some x => simp [List.reduceOption_cons_of_some, ih hl]

/-- A list looked up at every index below `n`. -/
lemma map_getElem?_range {α : Type} {l : List α} {n : ℕ} (h : n ≤ l.length) :
    (List.range n).map (fun i => l[i]?) = (l.map some).take n := by
  apply List.ext_getElem
  · simp [h]
  · intro i hi hi'
    have hlt : i < l.length := by
      have hn : i < n := by simpa using hi
      omega
    simp [hlt]

namespace Worksheet

lemma length_descriptions {ws : Worksheet} (h : ws.rows ≠ []) :
    (ws.descriptions stray).length = ws.width := by
  obtain ⟨row, rows, hr⟩ := List.exists_cons_of_ne_nil h
  have hrow : row.length = ws.width := ws.rect row (by simp [hr])
  simp [descriptions, header, hr, hrow]

lemma length_row {ws : Worksheet} {row : List (Option Text)} (h : row ∈ ws.rows.drop 2) :
    row.length = ws.width :=
  ws.rect row (List.mem_of_mem_drop h)

end Worksheet

lemma mapM_congr {α β : Type} {f g : α → Option β} {l : List α} (h : ∀ x ∈ l, f x = g x) :
    l.mapM f = l.mapM g := by
  induction l with
  | nil => rfl
  | cons x l ih =>
    rw [List.mapM_cons, List.mapM_cons, h x List.mem_cons_self,
      ih fun y hy => h y (List.mem_cons_of_mem _ hy)]

/-- The generator pairs right when the title holds the descriptions column by column. -/
lemma analyze_eq_readRows {a : Analyst} {ws : Worksheet} (hws : ws.Titled)
    (h : 2 < ws.rows.length → (List.range ws.width).map
      (fun i => (a.fieldsUnder (getSheetTitle ws.title))[i]?) = ws.descriptions stray)
    (empty : ρ) : JsonGenerator.analyze read a empty ws = ws.readRows stray read empty := by
  unfold JsonGenerator.analyze Worksheet.readRows
  by_cases hlen : 2 < ws.rows.length
  · simp only [hlen, if_true, hws.1, if_false]
    apply mapM_congr
    intro row hrow
    rw [analyzeRow_eq, Worksheet.length_row hrow, h hlen]
  · have hdrop : ws.rows.drop 2 = [] := List.drop_eq_nil_of_le (by omega)
    simp [hlen, hdrop]

/-- Taking down the descriptions shows which ones the generator used. -/
lemma descriptions_of_takeDown {a : Analyst} {ws : Worksheet} (hws : ws.Titled)
    (hok : none ∉ ws.descriptions stray) (hlen : 2 < ws.rows.length)
    (h : JsonGenerator.analyze takeDown a [] ws = ws.readRows stray takeDown []) :
    (List.range ws.width).map (fun i => (a.fieldsUnder (getSheetTitle ws.title))[i]?) =
      ws.descriptions stray := by
  have hlend : (ws.descriptions stray).length = ws.width := Worksheet.length_descriptions hws.2
  have hown : ∀ row ∈ ws.rows.drop 2, Worksheet.readRow takeDown [] (ws.descriptions stray) row =
      some (ws.descriptions stray).reduceOption := by
    intro row hrow
    apply (readRow_takeDown (by rw [hlend, Worksheet.length_row hrow])).mpr
    exact ⟨_, (reduceOption_of_none_not_mem hok).symm, rfl⟩
  unfold JsonGenerator.analyze Worksheet.readRows at h
  simp only [hlen, if_true, hws.1, if_false] at h
  cases hd : ws.rows.drop 2 with
  | nil =>
    have hle := List.drop_eq_nil_iff.mp hd
    omega
  | cons row rows =>
    have hrow : row ∈ ws.rows.drop 2 := by simp [hd]
    have hrows : rows.mapM (Worksheet.readRow takeDown [] (ws.descriptions stray)) =
        some (rows.map fun _ => (ws.descriptions stray).reduceOption) := by
      have hmem : ∀ r ∈ rows, r ∈ ws.rows.drop 2 := fun r hr => by simp [hd, hr]
      clear h hd
      induction rows with
      | nil => rfl
      | cons r rows ih =>
        rw [List.mapM_cons, hown r (hmem r (by simp)),
          ih fun r' hr' => hmem r' (List.mem_cons_of_mem _ hr')]
        rfl
    rw [hd, List.mapM_cons, List.mapM_cons, hown row hrow, hrows] at h
    obtain ⟨first, hfirst, hrest⟩ := Option.bind_eq_some_iff.mp h
    obtain ⟨others, -, heq⟩ := Option.bind_eq_some_iff.mp hrest
    have hcons := Option.some.inj heq
    obtain rfl : first = (ws.descriptions stray).reduceOption := (List.cons.inj hcons).1
    rw [analyzeRow_eq, Worksheet.length_row hrow] at hfirst
    obtain ⟨fs, hfs, hsame⟩ := (readRow_takeDown (by
      simp [Worksheet.length_row hrow])).mp hfirst
    have hsame' : (ws.descriptions stray).reduceOption = fs := by simpa using hsame
    rw [hfs, ← hsame', reduceOption_of_none_not_mem hok]

/-- One worksheet, after those that were analysed before it. -/
lemma readByOwnHeader_iff (earlier : List Worksheet) (ws : Worksheet) :
    ReadByOwnHeader stray earlier ws ↔
      ((earlier.foldlM (generateAnlayst stray) {}).isSome → ws.Titled →
        OwnHeadersFirst stray earlier ws) := by
  have hfields : ∀ {a a' : Analyst}, earlier.foldlM (generateAnlayst stray) {} = some a →
      a.analyze stray ws = some a' → none ∉ ws.descriptions stray → ws.rows ≠ [] →
      ((List.range ws.width).map (fun i => (a'.fieldsUnder (getSheetTitle ws.title))[i]?) =
          ws.descriptions stray ↔
        ((describedUnder stray earlier (getSheetTitle ws.title)).map some ++
          ws.descriptions stray).take ws.width = ws.descriptions stray) := by
    intro a a' ha ha' hok hrows
    have hf := Analyst.analyze_fields ha' (getSheetTitle ws.title)
    rw [if_pos rfl, fieldsUnder_run earlier ha] at hf
    have hown := reduceOption_of_none_not_mem hok
    have hlen : (ws.descriptions stray).reduceOption.length = ws.width := by
      rw [← Worksheet.length_descriptions hrows, ← congrArg List.length hown, List.length_map]
    have hle : ws.width ≤ (a'.fieldsUnder (getSheetTitle ws.title)).length := by
      rw [hf, List.length_append]
      omega
    rw [map_getElem?_range hle, hf, List.map_append, hown]
  constructor
  · intro h hrun hws
    obtain ⟨a, ha⟩ := Option.isSome_iff_exists.mp hrun
    obtain ⟨a', ha'⟩ := Option.isSome_iff_exists.mp (Analyst.analyze_isSome.mpr hws)
    obtain ⟨hok, hread⟩ := h a a' ha ha'
    refine ⟨hok, fun hlen => ?_⟩
    apply (hfields ha ha' hok hws.2).mp
    exact descriptions_of_takeDown hws hok hlen (hread _ takeDown [])
  · intro h a a' ha ha'
    have hws : ws.Titled := Analyst.analyze_isSome.mp (Option.isSome_of_mem ha')
    obtain ⟨hok, hfirst⟩ := h (Option.isSome_of_mem ha) hws
    refine ⟨hok, fun ρ read empty => ?_⟩
    exact analyze_eq_readRows hws
      (fun hlen => (hfields ha ha' hok hws.2).mpr (hfirst hlen)) empty

/-- The run over worksheets stops only at one for output that is empty or has no title. -/
lemma run_isSome (sheets : List Worksheet) :
    (sheets.foldlM (generateAnlayst stray) {}).isSome ↔
      ∀ ws ∈ sheets, sheetTitleIsOutput ws.title → ws.Titled := by
  induction sheets using List.reverseRecOn with
  | nil => simp
  | append_singleton sheets ws ih =>
    rw [List.foldlM_append]
    have hlast : ∀ a : Analyst, ([ws].foldlM (generateAnlayst stray) a).isSome ↔
        (sheetTitleIsOutput ws.title → ws.Titled) := by
      intro a
      rw [List.foldlM_cons, ← @Analyst.analyze_isSome stray a]
      by_cases hout : sheetTitleIsOutput ws.title = true <;> simp [generateAnlayst, hout]
    cases hrun : sheets.foldlM (generateAnlayst stray) {} with
    | none =>
      rw [hrun] at ih
      simp only [Option.isSome_none, Bool.false_eq_true, false_iff, not_forall] at ih
      obtain ⟨w, hw, hout, hbad⟩ := ih
      simp only [Option.bind_eq_bind, Option.bind_none, Option.isSome_none, Bool.false_eq_true,
        false_iff, not_forall]
      exact ⟨w, by simp [hw], hout, hbad⟩
    | some a =>
      rw [hrun] at ih
      have hall := ih.mp rfl
      simp only [Option.bind_eq_bind, Option.bind_some]
      rw [hlast a]
      constructor
      · intro h w hw
        rcases List.mem_append.mp hw with hw | hw
        · exact hall w hw
        · obtain rfl := List.mem_singleton.mp hw
          exact h
      · intro h
        exact h ws (by simp)

end

/-- Every worksheet of a sequence is read by its own headers exactly when each of them, up to
where the analysis stops, has headers that can be analysed and, if it has data rows, a title whose
earlier headers give the descriptions of its own over again. -/
theorem cells_read_by_own_header_iff (stray : Char → Bool) (sheets : List Worksheet) :
    (∀ pre ws post, sheets = pre ++ ws :: post → ReadByOwnHeader stray pre ws) ↔
      ∀ pre ws post, sheets = pre ++ ws :: post →
        (∀ w ∈ pre, sheetTitleIsOutput w.title → w.Titled) → ws.Titled →
          OwnHeadersFirst stray pre ws := by
  constructor
  · intro h pre ws post hsplit hpre
    have hrun := (@run_isSome stray pre).mpr hpre
    exact (readByOwnHeader_iff pre ws).mp (h pre ws post hsplit) hrun
  · intro h pre ws post hsplit
    apply (readByOwnHeader_iff pre ws).mpr
    intro hrun
    exact h pre ws post hsplit ((run_isSome pre).mp hrun)

/-- The second header cell is empty, and the data below `name` is left without a description. -/
def gapSheet : Worksheet where
  title := "@item".toList
  rows := [[some "id@u32".toList, none, some "name@str".toList],
    [none, none, none],
    [some "7".toList, some "x".toList, some "sword".toList]]
  width := 3
  rect := by decide

/-- The analysis of the worksheet succeeds; the cell `x` is read as `name`, and there is no
description for `sword`. -/
theorem header_gap_shifts_columns :
    (∃ a, ({} : Analyst).analyze (fun _ => false) gapSheet = some a ∧
      a.fieldsUnder "item".toList = [{ name := "id".toList, type := .u32 },
        { name := "name".toList, type := .str }]) ∧
    ¬ ∀ pre ws post, [gapSheet] = pre ++ ws :: post → ReadByOwnHeader (fun _ => false) pre ws := by
  have htitled : gapSheet.Titled := by
    unfold Worksheet.Titled
    decide
  constructor
  · obtain ⟨a, ha⟩ := Option.isSome_iff_exists.mp
      ((@Analyst.analyze_isSome (fun _ => false) {} _).mpr htitled)
    refine ⟨a, ha, ?_⟩
    rw [Analyst.analyze_fields ha]
    decide
  · intro h
    have hown := (readByOwnHeader_iff [] gapSheet).mp (h [] gapSheet [] rfl) rfl htitled
    revert hown
    unfold OwnHeadersFirst
    decide

end TyphoonZero.Xlsx
