import TyphoonZero.DataHubReload

/-! Primary keys of several columns: when the keys of different rows can be told apart. -/
namespace TyphoonZero.DataHub
open Xlsx KeyedInsert

/-- Different arguments are different keys. A table whose rows differ in their primary keys is
loaded, and a lookup answers with the row that has exactly the keys that were asked for. -/
def KeysDiffer (code : Code) (c : SheetCode) : Prop :=
  (∀ args args', c.Typed args → c.Typed args' → args ≠ args' → mapKey args ≠ mapKey args') ∧
  ∀ (ρ : Type) (value : ρ → Text → KeyValue) (dataMap : DataHubMap ρ) (path : Text)
    (files : Text → FileRead ρ), path ≠ [] → files path = .parsed dataMap →
    (∀ other ∈ code.branches, other ≠ c → other.rowsOf dataMap = []) →
    c.Valid value (c.rowsOf dataMap) →
    ∃ h, ({} : DataHubMgr ρ).load code value files path false = some (h, none) ∧
      ∀ args, c.Typed args → h.getDataHubEntry c args =
        (c.rowsOf dataMap).find? fun row => c.keyOf value row = args

namespace KeyValue

/-- A number as a value of a key type. -/
def ofNat (type : XlsxDataType) (n : ℕ) : KeyValue :=
  if type = .str then .str (Nat.toDigits 10 n) else .int n

lemma toString_ofNat (type : XlsxDataType) (n : ℕ) :
    (ofNat type n).toString = Nat.toDigits 10 n := by
  unfold ofNat
  split <;> rfl

lemma hasType_ofNat {type : XlsxDataType} (htype : isCppKeyType type = true) {n : ℕ}
    (hn : n < 2 ^ 31) : HasType type (ofNat type n) := by
  have hint : (n : ℤ) < 2 ^ 31 := by exact_mod_cast hn
  unfold ofNat
  cases type with
  | none | double | float | bool | desc | complexObj | complexArr => cases htype
  | str => trivial
  | i32 | i64 | u32 | u64 =>
    constructor
    · omega
    · omega

end KeyValue

lemma mapM_mem {α β : Type} {f : α → Option β} {l : List α} {l' : List β}
    (h : l.mapM f = some l') {y : β} (hy : y ∈ l') : ∃ x ∈ l, f x = some y := by
  induction l generalizing l' with
  | nil =>
    obtain rfl : [] = l' := Option.some.inj h
    cases hy
  | cons x l ih =>
    rw [List.mapM_cons] at h
    obtain ⟨y', hy', hrest⟩ := Option.bind_eq_some_iff.mp h
    obtain ⟨ys, hys, hcons⟩ := Option.bind_eq_some_iff.mp hrest
    obtain rfl : y' :: ys = l' := Option.some.inj hcons
    obtain rfl | hy := List.mem_cons.mp hy
    · exact ⟨x, List.mem_cons_self, hy'⟩
    · obtain ⟨x', hx', hfx⟩ := ih hys hy
      exact ⟨x', List.mem_cons_of_mem _ hx', hfx⟩

section
variable {code : Code} {c : SheetCode}

/-- Every worksheet with code has a primary key, and its columns are of types for keys. -/
lemma branch_keys (hc : c ∈ code.branches) :
    c.keys ≠ [] ∧ ∀ key ∈ c.keys, isCppKeyType key.type = true := by
  obtain ⟨sheet, -, hsheet⟩ := mapM_mem code.emitted hc
  unfold generateCppSourceData at hsheet
  simp only at hsheet
  split at hsheet
  next hall =>
    split at hsheet
    next => cases hsheet
    next hne =>
      obtain rfl := Option.some.inj hsheet
      refine ⟨?_, ?_⟩
      · intro hnil
        exact hne (List.map_eq_nil_iff.mp hnil)
      · intro key hkey
        obtain ⟨f, hf, rfl⟩ := List.mem_map.mp hkey
        exact List.all_eq_true.mp hall f hf
  next => cases hsheet

/-- Two columns are put together alike when a digit moves from one to the other. -/
lemma keys_collide (hc : c ∈ code.branches) (hlength : 2 ≤ c.keys.length) :
    ∃ args args', c.Typed args ∧ c.Typed args' ∧ args ≠ args' ∧ mapKey args = mapKey args' := by
  obtain ⟨-, htypes⟩ := branch_keys hc
  match hkeys : c.keys with
  | [] | [_] => simp [hkeys] at hlength
  | key :: key' :: rest =>
    rw [hkeys] at htypes
    have hrest : ∀ r ∈ rest, isCppKeyType r.type = true := fun r hr =>
      htypes r (List.mem_cons_of_mem _ (List.mem_cons_of_mem _ hr))
    have htyped : ∀ m n, m < 2 ^ 31 → n < 2 ^ 31 → c.Typed (KeyValue.ofNat key.type m ::
        KeyValue.ofNat key'.type n :: rest.map fun r => KeyValue.ofNat r.type 1) := by
      intro m n hm hn
      unfold SheetCode.Typed
      rw [hkeys]
      refine .cons (KeyValue.hasType_ofNat (htypes key List.mem_cons_self) hm)
        (.cons (KeyValue.hasType_ofNat (htypes key' (by simp)) hn) ?_)
      apply List.forall₂_map_right_iff.mpr
      apply List.forall₂_same.mpr
      intro r hr
      exact KeyValue.hasType_ofNat (hrest r hr) (by decide)
    refine ⟨_, _, htyped 1 23 (by decide) (by decide), htyped 12 3 (by decide) (by decide), ?_, ?_⟩
    · intro hsame
      have htext := congrArg KeyValue.toString (List.cons.inj hsame).1
      rw [KeyValue.toString_ofNat, KeyValue.toString_ofNat] at htext
      exact absurd htext (by decide)
    · have hdigits : Nat.toDigits 10 1 ++ Nat.toDigits 10 23 =
          Nat.toDigits 10 12 ++ Nat.toDigits 10 3 := by decide
      simp only [mapKey, List.flatMap_cons, KeyValue.toString_ofNat, ← List.append_assoc, hdigits]

/-- The key of one column is its value. -/
lemma mapKey_injective (hlength : c.keys.length ≤ 1) (hc : c ∈ code.branches)
    {args args' : List KeyValue} (hargs : c.Typed args) (hargs' : c.Typed args')
    (h : mapKey args = mapKey args') : args = args' := by
  have hne := (branch_keys hc).1
  obtain ⟨key, hkey⟩ : ∃ key, c.keys = [key] := by
    apply List.length_eq_one_iff.mp
    have hpos := List.length_pos_iff.mpr hne
    omega
  unfold SheetCode.Typed at hargs hargs'
  rw [hkey] at hargs hargs'
  obtain ⟨v, hv⟩ := List.length_eq_one_iff.mp hargs.length_eq.symm
  obtain ⟨v', hv'⟩ := List.length_eq_one_iff.mp hargs'.length_eq.symm
  rw [hv, hv'] at h ⊢
  exact congrArg (fun v => [v]) h

lemma loads_of_injective {ρ : Type} {value : ρ → Text → KeyValue} {dataMap : DataHubMap ρ}
    {path : Text} {files : Text → FileRead ρ} (hc : c ∈ code.branches)
    (hinjective : ∀ args args', c.Typed args → c.Typed args' → mapKey args = mapKey args' →
      args = args')
    (hpath : path ≠ []) (hfile : files path = .parsed dataMap)
    (hother : ∀ other ∈ code.branches, other ≠ c → other.rowsOf dataMap = [])
    (hvalid : c.Valid value (c.rowsOf dataMap)) :
    ∃ h, ({} : DataHubMgr ρ).load code value files path false = some (h, none) ∧
      ∀ args, c.Typed args → h.getDataHubEntry c args =
        (c.rowsOf dataMap).find? fun row => c.keyOf value row = args := by
  have hclear : c.Unambiguous value (c.rowsOf dataMap) := by
    intro row hrow args hargs hsame
    exact hinjective _ _ hargs (hvalid.2 row hrow) hsame
  have hloads : LoadsFresh code value dataMap := by
    intro other hmem
    by_cases hsame : other = c
    · rw [hsame]
      exact nodup_mapKey hvalid hclear
    · rw [hother other hmem hsame]
      exact List.nodup_nil
  obtain ⟨h, hinit⟩ := Option.isSome_iff_exists.mp ((@init_fresh_isSome _ code value _ path).mpr hloads)
  refine ⟨h, (load_fresh hpath hfile).mpr hinit, ?_⟩
  intro args hargs
  unfold DataHubMgr.getDataHubEntry
  rw [insertAll_apply (DataHubMgr.init_spec hinit hc), ← find_unambiguous hclear hargs]
  simp

/-- The keys of a worksheet differ just when it has one primary-key column. -/
theorem keys_differ_iff (hc : c ∈ code.branches) : KeysDiffer code c ↔ c.keys.length ≤ 1 := by
  constructor
  · intro h
    by_contra hmany
    obtain ⟨args, args', hargs, hargs', hne, hsame⟩ := keys_collide hc (by omega)
    exact h.1 args args' hargs hargs' hne hsame
  · intro hlength
    have hinjective : ∀ args args', c.Typed args → c.Typed args' → mapKey args = mapKey args' →
        args = args' := fun _ _ hargs hargs' => mapKey_injective hlength hc hargs hargs'
    constructor
    · intro args args' hargs hargs' hne hsame
      exact hne (hinjective args args' hargs hargs' hsame)
    · intro ρ value dataMap path files hpath hfile hother hvalid
      exact loads_of_injective hc hinjective hpath hfile hother hvalid

end

theorem keys_differ_iff_item :
    ∃ c ∈ hubCode.branches, c.message = itemMessage ∧ KeysDiffer hubCode c := by
  have hfind : ∃ c ∈ hubCode.branches, c.message = itemMessage ∧ c.keys.length ≤ 1 := by decide
  obtain ⟨c, hc, hmessage, hlength⟩ := hfind
  exact ⟨c, hc, hmessage, (keys_differ_iff hc).mpr hlength⟩

def skillCode : SheetCode where
  message := "DataHubEntrySkill".toList
  map := "skill_map_".toList
  keys := [⟨"id".toList, .u32⟩, ⟨"level".toList, .u32⟩]

def skillRow (id level : ℕ) : FieldRow := [("id".toList, .int id), ("level".toList, .int level)]

/-- Skill 1 of level 23 and skill 12 of level 3. -/
def skillFile : DataHubMap FieldRow :=
  [("skill".toList, ⟨skillCode.message, [skillRow 1 23, skillRow 12 3]⟩)]

/-- Both skills have the key `123`: the table is valid, and its load asserts. -/
theorem skill_keys_collide :
    skillCode ∈ hubCode.branches ∧ skillCode.Valid fieldValue (skillCode.rowsOf skillFile) ∧
      ({} : DataHubMgr FieldRow).load hubCode fieldValue (fun _ => .parsed skillFile) "data".toList false =
        none ∧
      ¬ KeysDiffer hubCode skillCode := by
  have hc : skillCode ∈ hubCode.branches := by decide
  have hother : ∀ other ∈ hubCode.branches, other ≠ skillCode → other.rowsOf skillFile = [] := by
    decide
  have htyped : ∀ id level : ℕ, id < 2 ^ 32 → level < 2 ^ 32 →
      skillCode.Typed (skillCode.keyOf fieldValue (skillRow id level)) := by
    intro id level hid hlevel
    have hid' : (id : ℤ) < 2 ^ 32 := by exact_mod_cast hid
    have hlevel' : (level : ℤ) < 2 ^ 32 := by exact_mod_cast hlevel
    exact .cons ⟨Int.natCast_nonneg id, hid'⟩ (.cons ⟨Int.natCast_nonneg level, hlevel'⟩ .nil)
  have hvalid : skillCode.Valid fieldValue (skillCode.rowsOf skillFile) := by
    constructor
    · decide
    · intro row hrow
      obtain rfl | rfl : row = skillRow 1 23 ∨ row = skillRow 12 3 := by
        simpa [SheetCode.rowsOf, skillFile] using hrow
      · exact htyped 1 23 (by decide) (by decide)
      · exact htyped 12 3 (by decide) (by decide)
  have hasserts : ({} : DataHubMgr FieldRow).load hubCode fieldValue
      (fun _ => .parsed skillFile) "data".toList false = none := rfl
  refine ⟨hc, hvalid, hasserts, ?_⟩
  intro hdiffer
  have hloads := hdiffer.2
  obtain ⟨h, hload, -⟩ := hloads FieldRow fieldValue skillFile "data".toList (fun _ => .parsed skillFile)
    (by decide) rfl hother hvalid
  rw [hasserts] at hload
  cases hload

end TyphoonZero.DataHub
