import Mathlib.Data.List.Nodup

/-! A map of named values in which the key of an entry is a view of the name of some value, often
but not always the value the entry leads to. -/
namespace ViewMap
variable {ι κ : Type}

structure Entry (ι : Type) where
  view : ι
  value : ι
  deriving DecidableEq

variable (name : ι → κ)

def Entry.key (e : Entry ι) : κ := name e.view

/-- Each value is filed under its name, and no name is there twice. -/
structure Filed (m : List (Entry ι)) : Prop where
  named : ∀ e ∈ m, name e.value = e.key name
  nodup : (m.map (Entry.key name)).Nodup

/-- Each key is a view of the name of the value it leads to. -/
def Own (m : List (Entry ι)) : Prop := ∀ e ∈ m, e.view = e.value

section
variable {name} {name' : ι → κ} {m : List (Entry ι)} {e e' : Entry ι} {i : ι}

lemma Filed.nil : Filed name [] where
  named := by simp
  nodup := by simp

lemma Filed.congr (h : Filed name m)
    (hsame : ∀ e ∈ m, name' e.view = name e.view ∧ name' e.value = name e.value) :
    Filed name' m where
  named e he := by
    have hboth := hsame e he
    have hold := h.named e he
    simp_all [Entry.key]
  nodup := by
    have hkeys : m.map (Entry.key name') = m.map (Entry.key name) :=
      List.map_congr_left fun e he => (hsame e he).1
    rw [hkeys]
    exact h.nodup

lemma Filed.unique (h : Filed name m) (he : e ∈ m) (he' : e' ∈ m)
    (hk : e.key name = e'.key name) : e = e' :=
  List.inj_on_of_nodup_map h.nodup he he' hk

/-- No value is there twice either. -/
lemma Filed.values_nodup (h : Filed name m) : (m.map Entry.value).Nodup := by
  have hnames : (m.map Entry.value).map name = m.map (Entry.key name) := by
    rw [List.map_map]
    exact List.map_congr_left h.named
  exact List.Nodup.of_map name (hnames ▸ h.nodup)

lemma Own.nil : Own ([] : List (Entry ι)) := by
  simp [Own]

lemma own_cons (h : Own m) : Own (⟨i, i⟩ :: m) := by
  intro e he
  rcases List.mem_cons.mp he with rfl | hmem
  · rfl
  · exact h e hmem

lemma key_ite {p : Prop} [Decidable p] :
    (if p then { e with value := i } else e).key name = e.key name := by
  split <;> rfl

end

variable [DecidableEq κ]

def find (m : List (Entry ι)) (k : κ) : Option (Entry ι) := m.find? fun e => e.key name = k

def erase (m : List (Entry ι)) (k : κ) : List (Entry ι) := m.filter fun e => e.key name ≠ k

/-- An entry that is there already keeps its key. -/
def assign (m : List (Entry ι)) (i : ι) : List (Entry ι) :=
  if (find name m (name i)).isSome then
    m.map fun e => if e.key name = name i then { e with value := i } else e
  else ⟨i, i⟩ :: m

variable {name} {m : List (Entry ι)} {e : Entry ι} {k : κ} {i : ι}

lemma find_isSome : (find name m k).isSome ↔ ∃ e ∈ m, e.key name = k := by
  simp [find]

lemma mem_erase : e ∈ erase name m k ↔ e ∈ m ∧ e.key name ≠ k := by
  simp [erase]

lemma mem_assign (h : e ∈ assign name m i) :
    e.value = i ∧ e.key name = name i ∨ e ∈ m ∧ e.key name ≠ name i := by
  unfold assign at h
  split at h
  · obtain ⟨d, hd, rfl⟩ := List.mem_map.mp h
    by_cases hk : d.key name = name i
    · left
      exact ⟨by simp [hk], key_ite.trans hk⟩
    · right
      simpa [hk] using hd
  · rename_i hnew
    rcases List.mem_cons.mp h with rfl | hmem
    · exact Or.inl ⟨rfl, rfl⟩
    · exact Or.inr ⟨hmem, fun hk => hnew (find_isSome.mpr ⟨e, hmem, hk⟩)⟩

/-- A key that is there stays a view of the name it was a view of. -/
lemma assign_of_key (he : e ∈ m) (hk : e.key name = name i) :
    { e with value := i } ∈ assign name m i := by
  have hfound : (find name m (name i)).isSome := find_isSome.mpr ⟨e, he, hk⟩
  simp only [assign, hfound, ↓reduceIte]
  exact List.mem_map.mpr ⟨e, he, by simp [hk]⟩

lemma mem_assign_of_ne (he : e ∈ m) (hk : e.key name ≠ name i) : e ∈ assign name m i := by
  unfold assign
  split
  · exact List.mem_map.mpr ⟨e, he, by simp [hk]⟩
  · exact List.mem_cons_of_mem _ he

lemma view_assign (h : e ∈ assign name m i) : e.view = i ∨ ∃ d ∈ m, e.view = d.view := by
  unfold assign at h
  split at h
  · obtain ⟨d, hd, rfl⟩ := List.mem_map.mp h
    exact Or.inr ⟨d, hd, by split <;> rfl⟩
  · rcases List.mem_cons.mp h with rfl | hmem
    · exact Or.inl rfl
    · exact Or.inr ⟨e, hmem, rfl⟩

lemma exists_assign : ∃ e ∈ assign name m i, e.value = i := by
  by_cases hfound : (find name m (name i)).isSome
  · obtain ⟨e, he, hk⟩ := find_isSome.mp hfound
    exact ⟨_, assign_of_key he hk, rfl⟩
  · exact ⟨⟨i, i⟩, by simp [assign, hfound], rfl⟩

lemma Filed.find (h : Filed name m) (he : e ∈ m) :
    ViewMap.find name m (name e.value) = some e := by
  have hsome : (ViewMap.find name m (name e.value)).isSome :=
    find_isSome.mpr ⟨e, he, (h.named e he).symm⟩
  obtain ⟨d, hd⟩ := Option.isSome_iff_exists.mp hsome
  have hmem : d ∈ m := List.mem_of_find?_eq_some hd
  have hkey : d.key name = name e.value := by simpa using List.find?_some hd
  rw [hd, h.unique hmem he (hkey.trans (h.named e he))]

lemma Filed.erase (h : Filed name m) : Filed name (erase name m k) where
  named e he := h.named e (mem_erase.mp he).1
  nodup := h.nodup.sublist (List.Sublist.map _ List.filter_sublist)

lemma Filed.assign (h : Filed name m) : Filed name (assign name m i) where
  named e he := by
    rcases mem_assign he with ⟨hval, hk⟩ | ⟨hmem, -⟩
    · rw [hval, hk]
    · exact h.named e hmem
  nodup := by
    unfold ViewMap.assign
    split
    · rw [List.map_map]
      have hkeys : ∀ e ∈ m, (Entry.key name ∘ fun e : Entry ι =>
          if e.key name = name i then { e with value := i } else e) e = e.key name := by
        intro e _
        exact key_ite
      rw [List.map_congr_left hkeys]
      exact h.nodup
    · rename_i hnew
      refine List.nodup_cons.mpr ⟨fun hmem => hnew ?_, h.nodup⟩
      obtain ⟨e, he, hk⟩ := List.mem_map.mp hmem
      exact find_isSome.mpr ⟨e, he, hk⟩

lemma Own.erase (h : Own m) : Own (erase name m k) :=
  fun e he => h e (mem_erase.mp he).1

/-- A value whose name is new, or leads to this value already, is filed under its own name. -/
lemma own_assign (h : Own m) :
    Own (assign name m i) ↔ ∀ e ∈ m, e.key name = name i → e.value = i := by
  constructor
  · intro hown e he hk
    have hview := hown _ (assign_of_key he hk)
    exact (h e he).symm.trans hview
  · intro hfree
    unfold assign
    split
    · intro e he
      obtain ⟨d, hd, rfl⟩ := List.mem_map.mp he
      by_cases hk : d.key name = name i
      · simp [hk, h d hd, hfree d hd hk]
      · simp [hk, h d hd]
    · exact own_cons h

end ViewMap
