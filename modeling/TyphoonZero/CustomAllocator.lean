import TyphoonZero.Transition

/-! The memory of a handler: one block of inline storage behind a flag, which is a plain one or an
`atomic_flag`, and the global heap for all other requests. -/
namespace TyphoonZero.CustomAllocator
open Transition

inductive Origin
  | storage
  | heap
  deriving DecidableEq

/-- Memory that is handed out, with the place it came from. -/
structure Block (A : Type*) where
  pointer : A
  origin : Origin

/-- `live` is what was allocated and not yet returned, `heap` what `operator new` gave and
`operator delete` has not got back. -/
structure HandlerMemory (A : Type*) where
  inUse : Bool := false
  live : List (Block A) := []
  heap : List A := []

/-- `new` is the block that `operator new` would give; `none` is `std::bad_alloc`. A block is
returned by its place among the live ones. -/
inductive Op (A : Type*)
  | allocate (size : ℕ) (new : Option A)
  | deallocate (i : ℕ)

namespace HandlerMemory
variable {A : Type*} (isAtomicUse : Bool) (sizeofStorage : ℕ) (storage : A) (m : HandlerMemory A)

/-- The inline storage is handed out and not yet returned. -/
def Taken : Prop := ∃ b ∈ m.live, b.origin = .storage

/-- With an `atomic_flag`, no request that does not fit comes while the storage is free. -/
def FitsWhenFree (op : Op A) : Prop :=
  isAtomicUse = true → ∀ size new, op = .allocate size new → sizeofStorage ≤ size → m.Taken

def operatorNew : Option A → HandlerMemory A
  | none => m
  | some a => { m with heap := m.heap ++ [a], live := m.live ++ [⟨a, .heap⟩] }

def handOutStorage : HandlerMemory A := { m with live := m.live ++ [⟨storage, .storage⟩] }

/-- `test_and_set` comes before the test of the size. -/
def allocate (size : ℕ) (new : Option A) : HandlerMemory A :=
  match isAtomicUse with
  | false =>
    if m.inUse = false ∧ size < sizeofStorage then { m with inUse := true }.handOutStorage storage
    else m.operatorNew new
  | true =>
    let t := { m with inUse := true }
    if m.inUse = false ∧ size < sizeofStorage then t.handOutStorage storage
    else t.operatorNew new

end HandlerMemory

namespace HandlerMemory
variable {A : Type*} [DecidableEq A] (isAtomicUse : Bool) (sizeofStorage : ℕ) (storage : A) (m : HandlerMemory A)

def deallocate (pointer : A) : HandlerMemory A :=
  if pointer = storage then { m with inUse := false } else { m with heap := m.heap.erase pointer }

/-- `operator new` gives memory that nobody holds. -/
def exec : Op A → Option (HandlerMemory A)
  | .allocate size new =>
    if ∀ a ∈ new, a ≠ storage ∧ a ∉ m.heap then some (m.allocate isAtomicUse sizeofStorage storage size new)
    else none
  | .deallocate i =>
    match m.live[i]? with
    | none => none
    | some b => some ({ m with live := m.live.eraseIdx i }.deallocate storage b.pointer)

/-- A request fits if it passes the test of the size. -/
structure Exact (op : Op A) (t : HandlerMemory A) : Prop where
  flag : t.inUse = true ↔ t.Taken
  apart : (t.live.map Block.pointer).Nodup
  oversize : ∀ size new, op = .allocate size new → sizeofStorage ≤ size →
    t.inUse = m.inUse ∧ t.live = m.live ++ new.toList.map fun a => ⟨a, .heap⟩
  fitting : ∀ size new, op = .allocate size new → size < sizeofStorage → ¬m.Taken →
    t.live = m.live ++ [⟨storage, .storage⟩] ∧ t.heap = m.heap
  back : ∀ i b, op = .deallocate i → m.live[i]? = some b →
    (b.origin = .storage → t.inUse = false ∧ t.heap = m.heap) ∧
    (b.origin = .heap → t.inUse = m.inUse ∧ b.pointer ∈ m.heap ∧ t.heap = m.heap.erase b.pointer)

end HandlerMemory

/-- Any number of requests of any sizes, which are returned in any order. -/
def memoryRuns {A : Type*} [DecidableEq A] (isAtomicUse : Bool) (sizeofStorage : ℕ) (storage : A) :
    System (HandlerMemory A) (Op A) where
  init m := m = {}
  step m op t := m.exec isAtomicUse sizeofStorage storage op = some t

namespace HandlerMemory
variable {A : Type*} {isAtomicUse : Bool} {sizeofStorage : ℕ} {storage : A} {m t : HandlerMemory A}

/-- Every live block is where its address says, and the heap knows its own. -/
structure Ok (storage : A) (m : HandlerMemory A) : Prop where
  flag : m.inUse = true ↔ m.Taken
  origin : ∀ b ∈ m.live, b.origin = .storage ↔ b.pointer = storage
  heap : ∀ b ∈ m.live, b.origin = .heap → b.pointer ∈ m.heap
  apart : (m.live.map Block.pointer).Nodup
  storage : storage ∉ m.heap

lemma taken_append {b : Block A} (hlive : t.live = m.live ++ [b]) : t.Taken ↔ m.Taken ∨ b.origin = .storage := by
  unfold Taken
  rw [hlive]
  constructor
  · rintro ⟨c, hc, horigin⟩
    rcases List.mem_append.mp hc with hc | hc
    · exact Or.inl ⟨c, hc, horigin⟩
    · obtain rfl := List.mem_singleton.mp hc
      exact Or.inr horigin
  · rintro (⟨c, hc, horigin⟩ | horigin)
    · exact ⟨c, List.mem_append_left _ hc, horigin⟩
    · exact ⟨b, List.mem_append_right _ List.mem_cons_self, horigin⟩

/-- What `operator new` gives leaves the storage alone. -/
lemma operatorNew_taken (new : Option A) : (m.operatorNew new).Taken ↔ m.Taken := by
  cases new with
  | none => exact Iff.rfl
  | some a =>
    rw [taken_append (m := m) (b := ⟨a, .heap⟩) rfl]
    simp

lemma operatorNew_inUse (new : Option A) : (m.operatorNew new).inUse = m.inUse := by
  cases new with
  | none | some a => rfl

lemma operatorNew_live (new : Option A) :
    (m.operatorNew new).live = m.live ++ new.toList.map fun a => ⟨a, .heap⟩ := by
  cases new with
  | none => exact (List.append_nil _).symm
  | some a => rfl

/-- No other live block has the address of the one that is returned. -/
lemma Ok.pointer_ne (hm : m.Ok storage) {i : ℕ} {b c : Block A} (hb : m.live[i]? = some b)
    (hc : c ∈ m.live.eraseIdx i) : c.pointer ≠ b.pointer := by
  obtain ⟨j, hne, hj⟩ := List.mem_eraseIdx_iff_getElem?.mp hc
  intro heq
  have hi : i < (m.live.map Block.pointer).length := by
    rw [List.length_map]
    exact (List.getElem?_eq_some_iff.mp hb).1
  refine hne ((List.getElem?_inj hi hm.apart).mp ?_).symm
  rw [List.getElem?_map, List.getElem?_map, hb, hj, Option.map_some, Option.map_some, heq]

lemma Ok.apart_eraseIdx (hm : m.Ok storage) (i : ℕ) : ((m.live.eraseIdx i).map Block.pointer).Nodup :=
  hm.apart.sublist ((List.eraseIdx_sublist _ _).map _)

/-- The returned block was the one in the storage. -/
lemma Ok.not_taken (hm : m.Ok storage) {i : ℕ} {b : Block A} (hb : m.live[i]? = some b) (hpointer : b.pointer = storage)
    (hlive : t.live = m.live.eraseIdx i) : ¬t.Taken := by
  rintro ⟨c, hc, horigin⟩
  rw [hlive] at hc
  have hstorage := (hm.origin c (List.mem_of_mem_eraseIdx hc)).mp horigin
  exact hm.pointer_ne hb hc (hstorage.trans hpointer.symm)

lemma Ok.taken_of_delete (hm : m.Ok storage) {i : ℕ} {b : Block A} (hb : m.live[i]? = some b)
    (hpointer : b.pointer ≠ storage) (hlive : t.live = m.live.eraseIdx i) : t.Taken ↔ m.Taken := by
  unfold Taken
  rw [hlive]
  constructor
  · rintro ⟨c, hc, horigin⟩
    exact ⟨c, List.mem_of_mem_eraseIdx hc, horigin⟩
  · rintro ⟨c, hc, horigin⟩
    obtain ⟨j, hj⟩ := List.mem_iff_getElem?.mp hc
    refine ⟨c, List.mem_eraseIdx_iff_getElem?.mpr ⟨j, ?_, hj⟩, horigin⟩
    rintro rfl
    obtain rfl := Option.some.inj (hb.symm.trans hj)
    exact hpointer ((hm.origin b hc).mp horigin)

lemma ok_init : ({} : HandlerMemory A).Ok storage := by
  refine ⟨?_, ?_, ?_, List.nodup_nil, List.not_mem_nil⟩
  · simp [Taken]
  · simp
  · simp

/-- A new block of an address that nobody holds. -/
lemma Ok.apart_append (hm : m.Ok storage) {b : Block A} (hnew : ∀ c ∈ m.live, c.pointer ≠ b.pointer) :
    ((m.live ++ [b]).map Block.pointer).Nodup := by
  rw [List.map_append, List.map_singleton]
  refine hm.apart.append (List.nodup_singleton _) ?_
  rw [List.disjoint_singleton]
  intro hmem
  obtain ⟨c, hc, heq⟩ := List.mem_map.mp hmem
  exact hnew c hc heq

variable [DecidableEq A]

/-- What an operation does. -/
inductive Effect (isAtomicUse : Bool) (sizeofStorage : ℕ) (storage : A) (m : HandlerMemory A) :
    Op A → HandlerMemory A → Prop
  | reserve (size : ℕ) (new : Option A) (hfree : m.inUse = false) (hfits : size < sizeofStorage) :
      Effect isAtomicUse sizeofStorage storage m (.allocate size new)
        { m with inUse := true, live := m.live ++ [⟨storage, .storage⟩] }
  | new (size : ℕ) (new : Option A) (hrefused : m.inUse = true ∨ sizeofStorage ≤ size)
      (hnew : ∀ a ∈ new, a ≠ storage ∧ a ∉ m.heap) :
      Effect isAtomicUse sizeofStorage storage m (.allocate size new)
        ({ m with inUse := m.inUse || isAtomicUse }.operatorNew new)
  | release (i : ℕ) (b : Block A) (hb : m.live[i]? = some b) (hpointer : b.pointer = storage) :
      Effect isAtomicUse sizeofStorage storage m (.deallocate i)
        { m with inUse := false, live := m.live.eraseIdx i }
  | delete (i : ℕ) (b : Block A) (hb : m.live[i]? = some b) (hpointer : b.pointer ≠ storage) :
      Effect isAtomicUse sizeofStorage storage m (.deallocate i)
        { m with live := m.live.eraseIdx i, heap := m.heap.erase b.pointer }

lemma allocate_effect {size : ℕ} {new : Option A} (hnew : ∀ a ∈ new, a ≠ storage ∧ a ∉ m.heap) :
    Effect isAtomicUse sizeofStorage storage m (.allocate size new)
      (m.allocate isAtomicUse sizeofStorage storage size new) := by
  by_cases htest : m.inUse = false ∧ size < sizeofStorage
  · have hserved : m.allocate isAtomicUse sizeofStorage storage size new =
        { m with inUse := true, live := m.live ++ [⟨storage, .storage⟩] } := by
      cases isAtomicUse <;> exact if_pos htest
    rw [hserved]
    exact .reserve size new htest.1 htest.2
  · have hserved : m.allocate isAtomicUse sizeofStorage storage size new =
        { m with inUse := m.inUse || isAtomicUse }.operatorNew new := by
      cases isAtomicUse with
      | false =>
        rw [Bool.or_false]
        exact if_neg htest
      | true =>
        rw [Bool.or_true]
        exact if_neg htest
    rw [hserved]
    refine .new size new ?_ hnew
    rw [not_and_or] at htest
    simpa using htest

lemma exec_effect {op : Op A} (h : m.exec isAtomicUse sizeofStorage storage op = some t) :
    Effect isAtomicUse sizeofStorage storage m op t := by
  cases op with
  | allocate size new =>
    simp only [exec] at h
    split_ifs at h with hnew
    obtain rfl := Option.some.inj h
    exact allocate_effect hnew
  | deallocate i =>
    simp only [exec] at h
    split at h
    · cases h
    next b hb =>
      obtain rfl := Option.some.inj h
      unfold deallocate
      split_ifs with hpointer
      · exact .release i b hb hpointer
      · exact .delete i b hb hpointer

omit [DecidableEq A] in
/-- A request that does not fit leaves the flag alone, unless it is the first to set it. -/
lemma Ok.inUse_or (hm : m.Ok storage) {size : ℕ} {new : Option A} (hrefused : m.inUse = true ∨ sizeofStorage ≤ size) :
    (m.inUse || isAtomicUse) = m.inUse ↔ FitsWhenFree isAtomicUse sizeofStorage m (.allocate size new) := by
  constructor
  · intro hflag hatomic size' new' hop hsize
    rw [hatomic, Bool.or_true] at hflag
    exact hm.flag.mp hflag.symm
  · intro hfits
    cases isAtomicUse with
    | false => exact Bool.or_false _
    | true =>
      have hflag : m.inUse = true := by
        rcases hrefused with hflag | hsize
        · exact hflag
        · exact hm.flag.mpr (hfits rfl size new rfl hsize)
      rw [hflag]
      rfl

lemma Effect.ok {op : Op A} (h : Effect isAtomicUse sizeofStorage storage m op t) (hm : m.Ok storage)
    (hfits : FitsWhenFree isAtomicUse sizeofStorage m op) : t.Ok storage := by
  cases h with
  | reserve size new hfree hsize =>
    have hnone : ¬m.Taken := fun htaken => by simp [hm.flag.mpr htaken] at hfree
    have hne : ∀ c ∈ m.live, c.pointer ≠ storage := fun c hc heq => hnone ⟨c, hc, (hm.origin c hc).mpr heq⟩
    refine ⟨?_, ?_, ?_, hm.apart_append hne, hm.storage⟩
    · exact iff_of_true rfl ⟨_, List.mem_append_right _ List.mem_cons_self, rfl⟩
    · exact List.forall_mem_append.mpr ⟨hm.origin, by simp⟩
    · exact List.forall_mem_append.mpr ⟨hm.heap, by simp⟩
  | new size new hrefused hnew =>
    have hflag : (m.inUse || isAtomicUse) = m.inUse := (hm.inUse_or hrefused).mpr hfits
    rw [hflag]
    cases new with
    | none => exact hm
    | some a =>
      obtain ⟨hstorage, hheap⟩ := hnew a rfl
      have hne : ∀ c ∈ m.live, c.pointer ≠ a := by
        rintro c hc rfl
        by_cases horigin : c.origin = .storage
        · exact hstorage ((hm.origin c hc).mp horigin)
        · exact hheap (hm.heap c hc (by cases hc' : c.origin <;> simp_all))
      refine ⟨?_, ?_, ?_, hm.apart_append (b := ⟨a, .heap⟩) hne, ?_⟩
      · exact hm.flag.trans (operatorNew_taken (some a)).symm
      · exact List.forall_mem_append.mpr ⟨hm.origin, by simpa using hstorage⟩
      · refine List.forall_mem_append.mpr ⟨fun b hb horigin => List.mem_append_left _ (hm.heap b hb horigin), ?_⟩
        simp [operatorNew]
      · simpa [operatorNew, hm.storage] using hstorage.symm
  | release i b hb hpointer =>
    refine ⟨?_, ?_, ?_, hm.apart_eraseIdx i, hm.storage⟩
    · exact iff_of_false (by simp) (hm.not_taken hb hpointer rfl)
    · exact fun c hc => hm.origin c (List.mem_of_mem_eraseIdx hc)
    · exact fun c hc => hm.heap c (List.mem_of_mem_eraseIdx hc)
  | delete i b hb hpointer =>
    refine ⟨?_, ?_, ?_, hm.apart_eraseIdx i, ?_⟩
    · exact hm.flag.trans (hm.taken_of_delete hb hpointer rfl).symm
    · exact fun c hc => hm.origin c (List.mem_of_mem_eraseIdx hc)
    · intro c hc horigin
      exact (List.mem_erase_of_ne (hm.pointer_ne hb hc)).mpr (hm.heap c (List.mem_of_mem_eraseIdx hc) horigin)
    · exact fun hmem => hm.storage (List.mem_of_mem_erase hmem)

lemma Effect.exact {op : Op A} (h : Effect isAtomicUse sizeofStorage storage m op t) (hm : m.Ok storage)
    (hfits : FitsWhenFree isAtomicUse sizeofStorage m op) : Exact sizeofStorage storage m op t := by
  have ht := h.ok hm hfits
  refine ⟨ht.flag, ht.apart, ?_, ?_, ?_⟩
  · rintro size new rfl hsize
    cases h with
    | reserve _ _ _ hsize' => omega
    | new _ _ hrefused _ =>
      have hflag : (m.inUse || isAtomicUse) = m.inUse := (hm.inUse_or hrefused).mpr hfits
      rw [hflag]
      exact ⟨operatorNew_inUse new, operatorNew_live new⟩
  · rintro size new rfl hsize hfree
    cases h with
    | reserve _ _ _ _ => exact ⟨rfl, rfl⟩
    | new _ _ hrefused _ =>
      rcases hrefused with hflag | hsize'
      · exact absurd (hm.flag.mp hflag) hfree
      · omega
  · rintro i b rfl hb
    have hmem := List.mem_of_getElem? hb
    cases h with
    | release _ c hc hpointer =>
      obtain rfl := Option.some.inj (hc.symm.trans hb)
      have horigin := (hm.origin c hmem).mpr hpointer
      exact ⟨fun _ => ⟨rfl, rfl⟩, fun hheap => by simp [horigin] at hheap⟩
    | delete _ c hc hpointer =>
      obtain rfl := Option.some.inj (hc.symm.trans hb)
      exact ⟨fun horigin => absurd ((hm.origin c hmem).mp horigin) hpointer,
        fun hheap => ⟨rfl, hm.heap c hmem hheap, rfl⟩⟩

/-- From a good state an operation is exact only if it fits or finds the storage taken. -/
lemma Exact.fitsWhenFree {op : Op A} (hexact : Exact sizeofStorage storage m op t) (hm : m.Ok storage)
    (h : Effect isAtomicUse sizeofStorage storage m op t) : FitsWhenFree isAtomicUse sizeofStorage m op := by
  rintro hatomic size new rfl hsize
  cases h with
  | reserve _ _ _ hsize' => omega
  | new _ _ hrefused _ =>
    have hflag := (hexact.oversize size new rfl hsize).1
    rw [operatorNew_inUse] at hflag
    exact (hm.inUse_or hrefused).mp hflag hatomic size new rfl hsize

/-- The flag is set, but nobody has the storage. -/
def Lost (storage : A) (m : HandlerMemory A) : Prop := m.inUse = true ∧ ∀ b ∈ m.live, b.pointer ≠ storage

/-- Nothing clears the flag again. -/
lemma Effect.lost {op : Op A} (h : Effect isAtomicUse sizeofStorage storage m op t) (hm : m.Lost storage) :
    t.Lost storage := by
  obtain ⟨hflag, hlive⟩ := hm
  cases h with
  | reserve _ _ hfree _ => simp [hflag] at hfree
  | new _ new _ hnew =>
    refine ⟨?_, ?_⟩
    · rw [operatorNew_inUse, hflag, Bool.true_or]
    · rw [operatorNew_live]
      refine List.forall_mem_append.mpr ⟨hlive, ?_⟩
      simpa using fun a ha => (hnew a ha).1
  | release i b hb hpointer => exact absurd hpointer (hlive b (List.mem_of_getElem? hb))
  | delete i b hb hpointer => exact ⟨hflag, fun c hc => hlive c (List.mem_of_mem_eraseIdx hc)⟩

lemma Lost.run (hm : m.Lost storage) {ops : List (Op A)}
    (h : Run (memoryRuns isAtomicUse sizeofStorage storage) m ops t) : t.Lost storage := by
  induction h with
  | nil => exact hm
  | snoc _ hstep ih => exact (exec_effect hstep).lost ih

end HandlerMemory

section Runs
variable {A : Type*} [DecidableEq A] {isAtomicUse : Bool} {sizeofStorage : ℕ} {storage : A} {ops : List (Op A)}
  {t : HandlerMemory A}

/-- The flag is exact in a run if and only if, with an `atomic_flag`, no request that does not fit
comes while the storage is free. -/
theorem handlerMemory_exact_iff (h : Traces (memoryRuns isAtomicUse sizeofStorage storage) ops t) :
    Along (memoryRuns isAtomicUse sizeofStorage storage) (HandlerMemory.Exact sizeofStorage storage) ops ↔
      Traces ((memoryRuns isAtomicUse sizeofStorage storage).restrict
        (HandlerMemory.FitsWhenFree isAtomicUse sizeofStorage)) ops t := by
  refine Traces.along_iff (I := HandlerMemory.Ok storage) ?_ ?_ ?_ ?_ ?_ h
  · exact fun m m' hm hm' => hm.trans hm'.symm
  · exact fun m op t u ht hu => Option.some.inj (ht.symm.trans hu)
  · rintro m rfl
    exact HandlerMemory.ok_init
  · intro m op t hm hstep
    have heffect := HandlerMemory.exec_effect hstep
    exact ⟨fun hexact => hexact.fitsWhenFree hm heffect, fun hfits => heffect.exact hm hfits⟩
  · exact fun m op t hm hfits hstep => (HandlerMemory.exec_effect hstep).ok hm hfits

end Runs

/-- The storage serves two requests, one after the other, and the heap one that does not fit. -/
theorem handlerMemory_exact_reuse : Along (memoryRuns true 1024 0) (HandlerMemory.Exact 1024 0)
    [.allocate 64 none, .allocate 4096 (some 7), .deallocate 0, .deallocate 0, .allocate 64 none] := by
  have h0 : Traces ((memoryRuns true 1024 0).restrict (HandlerMemory.FitsWhenFree true 1024)) [] {} := .nil rfl
  have h1 := h0.snoc (l := Op.allocate 64 none) ⟨by simp [HandlerMemory.FitsWhenFree], rfl⟩
  have h2 := h1.snoc (l := Op.allocate 4096 (some 7)) ⟨fun _ _ _ _ _ => ⟨_, List.mem_cons_self, rfl⟩, rfl⟩
  have h3 := h2.snoc (l := Op.deallocate 0) ⟨by simp [HandlerMemory.FitsWhenFree], rfl⟩
  have h4 := h3.snoc (l := Op.deallocate 0) ⟨by simp [HandlerMemory.FitsWhenFree], rfl⟩
  have h5 := h4.snoc (l := Op.allocate 64 none) ⟨by simp [HandlerMemory.FitsWhenFree], rfl⟩
  exact (handlerMemory_exact_iff h5.of_restrict).mpr h5

/-- One request that does not fit keeps the storage from everybody, for ever. -/
theorem atomic_flag_left_set : ∃ m : HandlerMemory ℕ,
    Traces (memoryRuns true 1024 0) [.allocate 4096 (some 7), .deallocate 0] m ∧ m.live = [] ∧ m.inUse = true ∧
      (∀ ops t, Run (memoryRuns true 1024 0) m ops t → t.inUse = true ∧ ∀ b ∈ t.live, b.pointer ≠ 0) ∧
      ¬Along (memoryRuns true 1024 0) (HandlerMemory.Exact 1024 0) [.allocate 4096 (some 7), .deallocate 0] := by
  have h0 : Traces (memoryRuns true 1024 0) [] {} := .nil rfl
  have h1 := h0.snoc (l := Op.allocate 4096 (some 7)) rfl
  have h2 := h1.snoc (l := Op.deallocate 0) rfl
  refine ⟨_, h2, rfl, rfl, fun ops t hrun => HandlerMemory.Lost.run ⟨rfl, by decide⟩ hrun, fun halong => ?_⟩
  have hexact := halong [] (.allocate 4096 (some 7)) {} _ ⟨_, rfl⟩ h0 rfl
  exact absurd (hexact.oversize 4096 (some 7) rfl (by decide)).1 (by decide)

end TyphoonZero.CustomAllocator
