import Mathlib.Data.List.Nodup
import Mathlib.Logic.Function.Basic

/-! Inserting rows into a table under keys that must be new. -/
namespace TyphoonZero.KeyedInsert
variable {κ ρ : Type} [DecidableEq κ]

/-- Nothing comes out when a key is in the table already. -/
def insertNew (key : ρ → κ) (table : κ → Option ρ) (row : ρ) : Option (κ → Option ρ) :=
  if (table (key row)).isSome then none else some (Function.update table (key row) (some row))

def insertAll (key : ρ → κ) (table : κ → Option ρ) (rows : List ρ) : Option (κ → Option ρ) :=
  rows.foldlM (insertNew key) table

variable {key : ρ → κ} {table table' : κ → Option ρ} {rows : List ρ}

lemma insertAll_nil : insertAll key table [] = some table := rfl

lemma insertAll_cons {row : ρ} : insertAll key table (row :: rows) =
    (insertNew key table row).bind fun table => insertAll key table rows := rfl

lemma insertAll_append {rows' : List ρ} : insertAll key table (rows ++ rows') =
    (insertAll key table rows).bind fun table => insertAll key table rows' := by
  unfold insertAll
  rw [List.foldlM_append]
  rfl

lemma insertNew_eq_some {row : ρ} : insertNew key table row = some table' ↔
    table (key row) = none ∧ table' = Function.update table (key row) (some row) := by
  unfold insertNew
  cases table (key row) <;> simp [eq_comm]

/-- All rows go in exactly when their keys are new and different. -/
lemma insertAll_isSome : (insertAll key table rows).isSome ↔
    (rows.map key).Nodup ∧ ∀ row ∈ rows, table (key row) = none := by
  induction rows generalizing table with
  | nil => simp [insertAll_nil]
  | cons row rows ih =>
    rw [insertAll_cons]
    cases hnew : table (key row) with
    | some old =>
      have hnone : insertNew key table row = none := by simp [insertNew, hnew]
      simp [hnone, hnew]
    | none =>
      have hins := insertNew_eq_some.mpr ⟨hnew, rfl⟩
      rw [hins, Option.bind_some, ih]
      simp only [List.map_cons, List.nodup_cons, List.mem_map, List.forall_mem_cons, hnew,
        true_and]
      constructor
      · rintro ⟨hnodup, hfree⟩
        have hne : ∀ r ∈ rows, key r ≠ key row := by
          intro r hr heq
          have := hfree r hr
          simp [heq] at this
        refine ⟨⟨fun ⟨r, hr, heq⟩ => hne r hr heq, hnodup⟩, fun r hr => ?_⟩
        have := hfree r hr
        rwa [Function.update_of_ne (hne r hr)] at this
      · rintro ⟨⟨hne, hnodup⟩, hfree⟩
        refine ⟨hnodup, fun r hr => ?_⟩
        rw [Function.update_of_ne (fun heq => hne ⟨r, hr, heq⟩)]
        exact hfree r hr

/-- A key answers with its old row, or else with the row inserted under it. -/
lemma insertAll_apply (h : insertAll key table rows = some table') (k : κ) :
    table' k = (table k).or (rows.find? fun row => key row = k) := by
  induction rows generalizing table with
  | nil =>
    obtain rfl := Option.some.inj h
    simp
  | cons row rows ih =>
    rw [insertAll_cons] at h
    obtain ⟨next, hnext, hrest⟩ := Option.bind_eq_some_iff.mp h
    obtain ⟨hnew, rfl⟩ := insertNew_eq_some.mp hnext
    rw [ih hrest]
    by_cases hk : k = key row
    · subst hk
      simp [hnew]
    · have hk' : key row ≠ k := fun h => hk h.symm
      simp [Function.update_of_ne hk, hk']

end TyphoonZero.KeyedInsert
