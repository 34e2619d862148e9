import Mathlib.Data.List.Find
import TyphoonZero.DataHub

/-! Reloading the data hub: what a second data file does to the maps that the first one
filled. -/
namespace TyphoonZero.DataHub
open Xlsx KeyedInsert

section
variable {ρ : Type} {code : Code} {value : ρ → Text → KeyValue} {c : SheetCode}

/-- After a load of `A`, a reload that reads `B` succeeds, and the hub answers as `B` does. -/
def ReloadReplaces (code : Code) (value : ρ → Text → KeyValue) (A B : DataHubMap ρ) : Prop :=
  ∀ (path : Text) (filesA filesB : Text → FileRead ρ) (h : DataHubMgr ρ),
    filesA path = .parsed A → filesB path = .parsed B →
    ({} : DataHubMgr ρ).load code value filesA path false = some (h, none) →
    ∃ h', h.reload code value filesB = some (h', none) ∧ Answers code value h' B

/-- A reload that fails leaves every lookup as it was. -/
def FailedReloadKeeps (code : Code) (value : ρ → Text → KeyValue) : Prop :=
  ∀ (h h' : DataHubMgr ρ) (files : Text → FileRead ρ) (error : Text),
    h.reload code value files = some (h', some error) →
    ∀ c ∈ code.branches, ∀ args, c.Typed args →
      h'.getDataHubEntry c args = h.getDataHubEntry c args

/-- A load of a file into the empty hub. -/
lemma load_fresh {A : DataHubMap ρ} {path : Text} {files : Text → FileRead ρ} {h : DataHubMgr ρ}
    (hpath : path ≠ []) (hfile : files path = .parsed A) :
    ({} : DataHubMgr ρ).load code value files path false = some (h, none) ↔
      ({ path := path } : DataHubMgr ρ).init code value A = some h := by
  simp [DataHubMgr.load, hpath, hfile]

lemma load_path {files : Text → FileRead ρ} {path : Text} {r : DataHubMgr ρ × Option Text}
    (hload : ({} : DataHubMgr ρ).load code value files path false = some r) : path ≠ [] := by
  rintro rfl
  simp [DataHubMgr.load] at hload

lemma initEntry_path {h h' : DataHubMgr ρ} {val : AnyMessage ρ}
    (hstep : h.initEntry code value val = some h') : h'.path = h.path := by
  unfold DataHubMgr.initEntry at hstep
  split at hstep
  · rw [Option.some.inj hstep]
  · obtain ⟨table, -, rfl⟩ := Option.map_eq_some_iff.mp hstep
    rfl

lemma init_path {h h' : DataHubMgr ρ} {dataMap : DataHubMap ρ}
    (hinit : h.init code value dataMap = some h') : h'.path = h.path := by
  induction dataMap generalizing h with
  | nil =>
    obtain rfl := Option.some.inj hinit
    rfl
  | cons entry dataMap ih =>
    obtain ⟨mid, hmid, hrest⟩ := Option.bind_eq_some_iff.mp hinit
    rw [ih hrest, initEntry_path hmid]

/-- The load gets through when no keys are put together to the same text. -/
lemma init_fresh_isSome {A : DataHubMap ρ} {path : Text} :
    (({ path := path } : DataHubMgr ρ).init code value A).isSome ↔ LoadsFresh code value A := by
  rw [DataHubMgr.init_isSome]
  apply forall₂_congr
  intro c _
  rw [insertAll_isSome]
  exact ⟨fun h => h.1, fun h => ⟨h, fun _ _ => rfl⟩⟩

/-- The reload of `B` in the hub that `A` filled. -/
lemma reload_after_load {A B : DataHubMap ρ} {path : Text} {filesB : Text → FileRead ρ}
    {h : DataHubMgr ρ} (hinit : ({ path := path } : DataHubMgr ρ).init code value A = some h)
    (hne : path ≠ []) (hfile : filesB path = .parsed B) :
    h.reload code value filesB = (h.init code value B).map fun h => (h, none) := by
  have hpath : h.path = path := init_path hinit
  simp [DataHubMgr.reload, DataHubMgr.load, hpath, hne, hfile]

/-- The answer of the hub after both files: the row of the first comes before. -/
lemma answer_after_reload {A B : DataHubMap ρ} {path : Text} {h h' : DataHubMgr ρ}
    (hinit : ({ path := path } : DataHubMgr ρ).init code value A = some h)
    (hinit' : h.init code value B = some h') (hc : c ∈ code.branches) (args : List KeyValue) :
    h'.getDataHubEntry c args =
      ((c.rowsOf A).find? fun row => mapKey (c.keyOf value row) = mapKey args).or
        ((c.rowsOf B).find? fun row => mapKey (c.keyOf value row) = mapKey args) := by
  unfold DataHubMgr.getDataHubEntry
  rw [insertAll_apply (DataHubMgr.init_spec hinit' hc),
    insertAll_apply (DataHubMgr.init_spec hinit hc)]
  simp

/-- A reload that gets through met no key of the first file. -/
lemma no_key_of_first {A B : DataHubMap ρ} {path : Text} {h h' : DataHubMgr ρ}
    (hinit : ({ path := path } : DataHubMgr ρ).init code value A = some h)
    (hinit' : h.init code value B = some h') (hc : c ∈ code.branches) :
    ((c.rowsOf B).map fun row => mapKey (c.keyOf value row)).Nodup ∧
      ∀ row ∈ c.rowsOf B, ∀ old ∈ c.rowsOf A,
        mapKey (c.keyOf value old) ≠ mapKey (c.keyOf value row) := by
  obtain ⟨hnodup, hfree⟩ := insertAll_isSome.mp
    (Option.isSome_of_mem (DataHubMgr.init_spec hinit' hc))
  refine ⟨hnodup, fun row hrow old hold heq => ?_⟩
  have hnone := hfree row hrow
  rw [insertAll_apply (DataHubMgr.init_spec hinit hc)] at hnone
  have hfind := (Option.or_eq_none_iff.mp hnone).2
  have := List.find?_eq_none.mp hfind old hold
  simp [heq] at this

/-- With keys that cannot be mixed up, finding by the text is finding by the keys. -/
lemma find_unambiguous {rows : List ρ} (h : c.Unambiguous value rows) {args : List KeyValue}
    (hargs : c.Typed args) :
    (rows.find? fun row => mapKey (c.keyOf value row) = mapKey args) =
      rows.find? fun row => c.keyOf value row = args := by
  apply List.find?_congr
  intro row hrow
  have hiff : mapKey (c.keyOf value row) = mapKey args ↔ c.keyOf value row = args := by
    constructor
    · intro heq
      exact (h row hrow args hargs heq.symm).symm
    · intro heq
      rw [heq]
  simp [hiff]

lemma nodup_mapKey {rows : List ρ} (hvalid : c.Valid value rows) (h : c.Unambiguous value rows) :
    (rows.map fun row => mapKey (c.keyOf value row)).Nodup := by
  have hmap : (rows.map fun row => mapKey (c.keyOf value row)) =
      (rows.map (c.keyOf value)).map mapKey := by simp
  rw [hmap]
  apply hvalid.1.map_on
  intro x hx y hy heq
  obtain ⟨row, hrow, rfl⟩ := List.mem_map.mp hx
  obtain ⟨row', hrow', rfl⟩ := List.mem_map.mp hy
  exact (h row hrow _ (hvalid.2 row' hrow') heq.symm).symm

/-- A file that got in and is replaced: the second fill succeeds too, and of the rows of both files
those of the second are found. -/
lemma replaced_answers {A B : DataHubMap ρ} (hloads : LoadsFresh code value A)
    (hreplaces : ReloadReplaces code value A B) :
    ∃ h h', ({ path := "data".toList } : DataHubMgr ρ).init code value A = some h ∧
      h.init code value B = some h' ∧ ∀ c ∈ code.branches, ∀ args, c.Typed args →
        ((c.rowsOf A).find? fun row => mapKey (c.keyOf value row) = mapKey args).or
            ((c.rowsOf B).find? fun row => mapKey (c.keyOf value row) = mapKey args) =
          (c.rowsOf B).find? fun row => c.keyOf value row = args := by
  obtain ⟨h, hinit⟩ := Option.isSome_iff_exists.mp
    ((@init_fresh_isSome _ code value A "data".toList).mpr hloads)
  have hne : "data".toList ≠ [] := by decide
  obtain ⟨h', hreload, hanswers⟩ := hreplaces "data".toList (fun _ => .parsed A) (fun _ => .parsed B) h rfl rfl
    ((load_fresh hne rfl).mpr hinit)
  rw [reload_after_load hinit hne rfl] at hreload
  obtain ⟨h'', hinit', heq⟩ := Option.map_eq_some_iff.mp hreload
  obtain rfl : h'' = h' := by simpa using heq
  refine ⟨h, h'', hinit, hinit', fun c hc args hargs => ?_⟩
  rw [← answer_after_reload hinit hinit' hc, hanswers c hc args hargs]

/-- A first file that got in and is replaced had no rows. -/
lemma first_empty {A B : DataHubMap ρ} (hA : ValidFile code value A)
    (hloads : LoadsFresh code value A) (hreplaces : ReloadReplaces code value A B) :
    ∀ c ∈ code.branches, c.rowsOf A = [] := by
  intro c hc
  obtain ⟨h, h', hinit, hinit', hanswers⟩ := replaced_answers hloads hreplaces
  apply List.eq_nil_iff_forall_not_mem.mpr
  intro row hrow
  have hargs := (hA c hc).2 row hrow
  have hanswer := hanswers c hc _ hargs
  cases hold : (c.rowsOf A).find? fun r => mapKey (c.keyOf value r) =
      mapKey (c.keyOf value row) with
  | none =>
    have := List.find?_eq_none.mp hold row hrow
    simp at this
  | some old =>
    rw [hold, Option.some_or] at hanswer
    have hnew : old ∈ c.rowsOf B := List.mem_of_find?_eq_some hanswer.symm
    exact (no_key_of_first hinit hinit' hc).2 old hnew old (List.mem_of_find?_eq_some hold) rfl

/-- A second file that replaces an empty one has keys that cannot be mixed up. -/
lemma second_unambiguous {A B : DataHubMap ρ} (hloads : LoadsFresh code value A)
    (hempty : ∀ c ∈ code.branches, c.rowsOf A = [])
    (hreplaces : ReloadReplaces code value A B) :
    ∀ c ∈ code.branches, c.Unambiguous value (c.rowsOf B) := by
  intro c hc row hrow args hargs hsame
  obtain ⟨h, h', hinit, hinit', hanswers⟩ := replaced_answers hloads hreplaces
  have hanswer := hanswers c hc args hargs
  rw [hempty c hc, List.find?_nil, Option.none_or] at hanswer
  cases hfound : (c.rowsOf B).find? fun r => mapKey (c.keyOf value r) = mapKey args with
  | none =>
    have := List.find?_eq_none.mp hfound row hrow
    simp [hsame] at this
  | some other =>
    rw [hfound] at hanswer
    have hkeys : c.keyOf value other = args := by
      simpa using List.find?_some hanswer.symm
    have hmem : other ∈ c.rowsOf B := List.mem_of_find?_eq_some hfound
    have hother : other = row := by
      apply List.inj_on_of_nodup_map (no_key_of_first hinit hinit' hc).1 hmem hrow
      rw [hkeys, hsame]
    rw [← hkeys, hother]

/-- A file that cannot be mixed up replaces an empty one. -/
lemma replaces_of_empty {A B : DataHubMap ρ} (hB : ValidFile code value B)
    (hempty : ∀ c ∈ code.branches, c.rowsOf A = [])
    (hclear : ∀ c ∈ code.branches, c.Unambiguous value (c.rowsOf B)) :
    ReloadReplaces code value A B := by
  intro path filesA filesB h hA hfileB hload
  have hinit := (load_fresh (load_path hload) hA).mp hload
  have hisSome : (h.init code value B).isSome := by
    rw [DataHubMgr.init_isSome]
    intro c hc
    rw [insertAll_isSome]
    refine ⟨nodup_mapKey (hB c hc) (hclear c hc), fun row _ => ?_⟩
    rw [insertAll_apply (DataHubMgr.init_spec hinit hc), hempty c hc]
    simp
  obtain ⟨h', hinit'⟩ := Option.isSome_iff_exists.mp hisSome
  refine ⟨h', by rw [reload_after_load hinit (load_path hload) hfileB, hinit']; rfl, ?_⟩
  intro c hc args hargs
  rw [answer_after_reload hinit hinit' hc, hempty c hc, List.find?_nil, Option.none_or]
  exact find_unambiguous (hclear c hc) hargs

/-- Reloading replaces the hub exactly when the first file left nothing in it and no lookup of
the second can be mixed up; a failed reload changes no answer. -/
theorem reload_replaces_iff (code : Code) (value : ρ → Text → KeyValue) (A B : DataHubMap ρ)
    (hA : ValidFile code value A) (hB : ValidFile code value B) :
    (ReloadReplaces code value A B ∧ FailedReloadKeeps code value) ↔
      (LoadsFresh code value A → (∀ c ∈ code.branches, c.rowsOf A = []) ∧
        ∀ c ∈ code.branches, c.Unambiguous value (c.rowsOf B)) := by
  have hfailed : FailedReloadKeeps code value := by
    intro h h' files error hload c _ args _
    rw [DataHubMgr.reload_error hload]
  constructor
  · intro ⟨hreplaces, _⟩ hloads
    have hempty := first_empty hA hloads hreplaces
    exact ⟨hempty, second_unambiguous hloads hempty hreplaces⟩
  · intro hcond
    refine ⟨?_, hfailed⟩
    by_cases hloads : LoadsFresh code value A
    · obtain ⟨hempty, hclear⟩ := hcond hloads
      exact replaces_of_empty hB hempty hclear
    · intro path filesA filesB h hfile _ hload
      have hinit := (load_fresh (load_path hload) hfile).mp hload
      exact absurd (init_fresh_isSome.mp (Option.isSome_of_mem hinit)) hloads

end

/-- The worksheets of the data hub of the repository, with the columns of their keys. -/
def hubSheets : List AnalystSheet :=
  let key (name : String) : AnalystField :=
    { name := name.toList, type := .u32, constraintType := .primaryKey }
  [⟨"item".toList, [key "id"]⟩, ⟨"level".toList, [key "level"]⟩, ⟨"pack".toList, [key "id"]⟩,
    ⟨"shop".toList, [key "id"]⟩, ⟨"skill".toList, [key "id", key "level"]⟩]

def hubCode : Code where
  sheets := hubSheets
  branches := (hubSheets.mapM generateCppSourceData).getD []
  emitted := by decide
  maps_nodup := by decide
  messages_nodup := by decide

/-- A row that holds the values of its fields by name. -/
abbrev FieldRow := List (Text × KeyValue)

def fieldValue (row : FieldRow) (name : Text) : KeyValue := (row.lookup name).getD (.int 0)

def itemMessage : Text := "DataHubEntryItem".toList

def itemRow (i : ℕ) : FieldRow := [("id".toList, .int i)]

/-- A data file with the items of the given ids. -/
def itemFile (ids : List ℕ) : DataHubMap FieldRow :=
  [("item".toList, ⟨itemMessage, ids.map itemRow⟩)]

lemma rowsOf_itemFile (c : SheetCode) (ids : List ℕ) :
    c.rowsOf (itemFile ids) = if itemMessage = c.message then ids.map itemRow else [] := by
  simp [SheetCode.rowsOf, itemFile]

lemma item_keys : ∀ c ∈ hubCode.branches, itemMessage = c.message →
    c.keys = [⟨"id".toList, .u32⟩] := by
  decide

lemma keyOf_itemRow {c : SheetCode} (hkeys : c.keys = [⟨"id".toList, .u32⟩]) (i : ℕ) :
    c.keyOf fieldValue (itemRow i) = [.int i] := by
  simp [SheetCode.keyOf, hkeys, fieldValue, itemRow]

lemma itemFile_valid {ids : List ℕ} (hnodup : ids.Nodup) (hlt : ∀ i ∈ ids, i < 2 ^ 32) :
    ValidFile hubCode fieldValue (itemFile ids) := by
  intro c hc
  rw [rowsOf_itemFile]
  by_cases hmsg : itemMessage = c.message
  · have hkeys := item_keys c hc hmsg
    rw [if_pos hmsg]
    constructor
    · rw [List.map_map]
      apply hnodup.map
      intro i j hij
      have hcast : (i : ℤ) = j := by simpa [keyOf_itemRow hkeys] using hij
      omega
    · intro row hrow
      obtain ⟨i, hi, rfl⟩ := List.mem_map.mp hrow
      have hbound := hlt i hi
      rw [keyOf_itemRow hkeys, SheetCode.Typed, hkeys]
      simp only [List.forall₂_cons, List.Forall₂.nil, and_true, KeyValue.HasType]
      omega
  · simp [SheetCode.Valid, hmsg]

lemma itemFile_unambiguous {ids : List ℕ} :
    ∀ c ∈ hubCode.branches, c.Unambiguous fieldValue (c.rowsOf (itemFile ids)) := by
  intro c hc row hrow args hargs hsame
  rw [rowsOf_itemFile] at hrow
  by_cases hmsg : itemMessage = c.message
  · have hkeys := item_keys c hc hmsg
    rw [if_pos hmsg] at hrow
    obtain ⟨i, -, rfl⟩ := List.mem_map.mp hrow
    rw [SheetCode.Typed, hkeys] at hargs
    obtain ⟨v, vs, -, hvs, rfl⟩ := List.forall₂_cons_left_iff.mp hargs
    obtain rfl := List.forall₂_nil_left_iff.mp hvs
    rw [keyOf_itemRow hkeys] at hsame ⊢
    simpa [mapKey] using hsame
  · simp [hmsg] at hrow

theorem reload_replaces_iff_items :
    ReloadReplaces hubCode fieldValue (itemFile []) (itemFile [1, 2]) := by
  have hempty : ∀ c ∈ hubCode.branches, c.rowsOf (itemFile []) = [] := by
    intro c _
    simp [rowsOf_itemFile]
  exact ((reload_replaces_iff hubCode fieldValue (itemFile []) (itemFile [1, 2])
    (itemFile_valid (by decide) (by decide)) (itemFile_valid (by decide) (by decide))).mpr
      fun _ => ⟨hempty, itemFile_unambiguous⟩).1

/-- A reload of the file that was loaded meets its own keys and asserts. -/
theorem reload_same_file_asserts :
    ValidFile hubCode fieldValue (itemFile [1]) ∧
      (∃ h, ({} : DataHubMgr FieldRow).load hubCode fieldValue (fun _ => .parsed (itemFile [1]))
          "data".toList false = some (h, none) ∧
        h.reload hubCode fieldValue (fun _ => .parsed (itemFile [1])) = none) ∧
      ¬ ReloadReplaces hubCode fieldValue (itemFile [1]) (itemFile [1]) := by
  have hvalid : ValidFile hubCode fieldValue (itemFile [1]) :=
    itemFile_valid (by decide) (by decide)
  have hload : ∃ h, ({} : DataHubMgr FieldRow).load hubCode fieldValue
      (fun _ => .parsed (itemFile [1])) "data".toList false = some (h, none) ∧
        h.reload hubCode fieldValue (fun _ => .parsed (itemFile [1])) = none := ⟨_, rfl, rfl⟩
  refine ⟨hvalid, hload, fun hreplaces => ?_⟩
  obtain ⟨h, hh, hassert⟩ := hload
  obtain ⟨h', hreload, -⟩ := hreplaces "data".toList (fun _ => .parsed (itemFile [1]))
    (fun _ => .parsed (itemFile [1])) h rfl rfl hh
  rw [hassert] at hreload
  simp at hreload

end TyphoonZero.DataHub
