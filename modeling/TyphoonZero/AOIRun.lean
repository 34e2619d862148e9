import TyphoonZero.AOIInvariant

/-! The lists of the AOI manager over every run that does not mistake the least
value for a coordinate, and a run that does. -/
namespace TyphoonZero.AOI
open Loop LinkedChain CrossList Transition

variable {α : Type} [LinearOrder α] {w w' : World α} {p : Node}

lemma first_eq_none_iff (h : Inv w) (a : Axis) : (w.axis a).first = none ↔ w.linked = ∅ := by
  obtain ⟨L, hL⟩ := h.axis a
  exact hL.listInv.first_eq_none_iff

lemma isEmpty_iff (h : Inv w) : w.isEmpty = true ↔ w.linked = ∅ := by
  simp only [World.isEmpty, Bool.and_eq_true, Option.isNone_iff_eq_none]
  rw [first_eq_none_iff h, first_eq_none_iff h, first_eq_none_iff h]
  tauto

variable [OrderBot α]

lemma construct_inv (h : Inv w) (hp : w.alive p = false) (v : Axis → α) (flags : UInt32) :
    Inv (w.construct p v flags) := by
  have hdead : ∀ q, w.alive q = true → q ≠ p := by
    intro q hq he
    rw [he, hp] at hq
    exact Bool.noConfusion hq
  have hlinked : (w.construct p v flags).linked = w.linked := by
    ext q
    by_cases hq : q = p
    · subst hq
      have hn : w.aoiMgr q ≠ true := fun hm => hdead q (h.alive q hm) rfl
      simp [World.linked, World.construct, hn]
    · simp [World.linked, World.construct, hq]
  have hflag : ∀ q, q ≠ p → (w.construct p v flags).hasFlag q = w.hasFlag q := by
    intro q hq
    funext f
    simp [World.hasFlag, World.construct, hq]
  have halive : ∀ q, w.alive q = true → (w.construct p v flags).alive q = true := by
    intro q hq
    simp [World.construct, hdead q hq, hq]
  refine ⟨⟨hlinked ▸ h.finite, hlinked ▸ h.size, fun q hq => ?_, h.delsCount, h.delsNodup, fun q hq => ?_,
    fun q hq => ?_⟩, fun a => ?_, fun q hq a => ?_⟩
  · exact halive q (h.alive q (hlinked ▸ hq))
  · obtain ⟨ha, hf⟩ := h.dels q hq
    exact ⟨halive q ha, hflag q (hdead q ha) ▸ hf⟩
  · obtain ⟨hl, ha, hf⟩ := h.releases q hq
    exact ⟨hlinked ▸ hl, halive q ha, hflag q (hdead q ha) ▸ hf⟩
  · obtain ⟨L, hL⟩ := h.axis a
    exact ⟨L, hlinked ▸ hL.reset (fun hm => hdead p (h.alive p hm) rfl) ⊥⟩
  · obtain ⟨hm, hf⟩ := hq
    rw [hlinked] at hm
    have hqp := hdead q (h.alive q hm)
    rw [hflag q hqp] at hf
    have hst := h.stored q ⟨hm, hf⟩ a
    simpa [World.construct, AxisList.setPos, AxisList.resetPtr, hqp] using hst

omit [LinearOrder α] [OrderBot α] in
lemma inserted_base (h : Base w) (halive : w.alive p = true) (hp : p ∉ w.linked)
    (hnew : w.hasFlag p kAOINodeFlagRemoved = false)
    (hrest : w' = { w with
      axis := w'.axis, oldExt := w'.oldExt, aoiMgr := Function.update w.aoiMgr p true,
      size := w.size + 1 }) : Base w' := by
  have hlinked : w'.linked = Set.insert p w.linked := linked_insert (by rw [hrest])
  have hsize : w'.size = w.size + 1 := by rw [hrest]
  have hkeep : w'.alive = w.alive ∧ w'.hasFlag = w.hasFlag ∧ w'.dels = w.dels ∧
      w'.delsCount = w.delsCount ∧ w'.releases = w.releases := by
    rw [hrest]
    exact ⟨rfl, rfl, rfl, rfl, rfl⟩
  obtain ⟨hkalive, hflag, hdels, hcount, hrel⟩ := hkeep
  refine ⟨hlinked ▸ h.finite.insert p, ?_, fun q hq => ?_, ?_, hdels ▸ h.delsNodup, fun q hq => ?_,
    fun q hq => ?_⟩
  · have hcard : (Set.insert p w.linked).ncard = w.linked.ncard + 1 := Set.ncard_insert_of_notMem hp h.finite
    rw [hlinked, hcard, hsize, h.size, UInt64.ofNat_add]
    rfl
  · rw [hkalive]
    rcases hlinked ▸ hq with he | hm
    · exact he ▸ halive
    · exact h.alive q hm
  · rw [hcount, hdels, h.delsCount]
  · rw [hkalive, hflag]
    exact h.dels q (hdels ▸ hq)
  · obtain ⟨hl, ha, hf⟩ := h.releases q (hrel ▸ hq)
    rw [hlinked, hkalive, hflag]
    refine ⟨fun hm => ?_, ha, hf⟩
    rcases hm with he | hm
    · rw [he, hnew] at hf
      exact Bool.noConfusion hf
    · exact hl hm

lemma insert_empty (h : Inv w) (hempty : w.linked = ∅) (halive : w.alive p = true)
    (hnew : w.hasFlag p kAOINodeFlagRemoved = false) (fuel : ℕ) :
    Safe .outOfFuel True (w.insert fuel p) Inv := by
  unfold World.insert
  rw [if_pos ((isEmpty_iff h).mpr hempty)]
  have hp : p ∉ w.linked := by simp [hempty]
  have hsize : (1 : UInt64) = w.size + 1 := by
    rw [h.size, hempty, Set.ncard_empty]
    rfl
  refine ⟨inserted_base h.toBase halive hp hnew ?_, fun a => ?_, fun q hq a => ?_⟩
  · rw [← hsize]
    rfl
  · obtain ⟨L, hL⟩ := h.axis a
    have hnil : L = [] := by
      refine List.eq_nil_iff_forall_not_mem.mpr fun q hq => ?_
      have hq' := (hL.mem q).mp hq
      simp [hempty] at hq'
    subst hnil
    refine ⟨[p], ?_⟩
    rw [linked_insert (w := w) (p := p) rfl]
    exact hL.singleton p (w.ext p a)
  · have hqp : q = p := by
      have hm := hq.1
      rw [linked_insert (w := w) (p := p) rfl, hempty] at hm
      exact hm.resolve_right (Set.notMem_empty q)
    subst hqp
    simp [World.resetOldExtXYZ, World.setOldExt, AxisList.setPos]

lemma insert_front (h : Inv w) (hne : w.linked ≠ ∅) (halive : w.alive p = true) (hp : p ∉ w.linked)
    (hnew : w.hasFlag p kAOINodeFlagRemoved = false) (hop : (Op.insert p).LeastValueUnused w)
    (fuel : ℕ) : Safe .outOfFuel (w.linked.ncard + 1 < fuel) (w.insert fuel p) Inv := by
  unfold World.insert
  rw [if_neg fun he => hne ((isEmpty_iff h).mp he)]
  have hpush : ∀ a, Safe .outOfFuel (w.linked.ncard + 1 < fuel) (((w.setOldExt p fun _ => ⊥).axis a).pushFirst p)
      fun l' => (∃ L, AxisInv l' (Set.insert p w.linked) L) ∧
        ∃ f, (w.axis a).first = some f ∧ l'.pos = Function.update (w.axis a).pos p ((w.axis a).pos f) := by
    intro a
    obtain ⟨L, hL⟩ := h.axis a
    cases L with
    | nil =>
      have hnone : (w.axis a).first = none := hL.linked.first
      exact absurd ((first_eq_none_iff h a).mp hnone) hne
    | cons f L =>
      obtain ⟨l', hl', hinv, hpos⟩ := hL.push hp
      have haxis : (w.setOldExt p fun _ => ⊥).axis a = w.axis a := rfl
      rw [haxis, hl']
      exact ⟨⟨_, hinv⟩, f, hL.linked.first, hpos⟩
  refine (mapAxes_safe hpush).bind fun w₁ hw₁ => ?_
  obtain ⟨hax, hw₁⟩ := hw₁
  let w₂ : World α := { w₁ with aoiMgr := Function.update w₁.aoiMgr p true, size := w₁.size + 1 }
  have hrest : w₂ = { w with
      axis := w₂.axis, oldExt := w₂.oldExt, aoiMgr := Function.update w.aoiMgr p true,
      size := w.size + 1 } := by
    dsimp only [w₂]
    rw [hw₁]
    rfl
  have hlinked : w₂.linked = Set.insert p w.linked := linked_insert (by rw [hrest])
  have hcard : w₂.linked.ncard = w.linked.ncard + 1 := by
    rw [hlinked]
    exact Set.ncard_insert_of_notMem hp h.finite
  have hold : ∀ a, w₂.oldExt a = Function.update (w.oldExt a) p ⊥ := by
    intro a
    dsimp only [w₂]
    rw [hw₁]
    rfl
  have hext : w₂.ext = w.ext := by rw [hrest]
  rw [← hcard]
  have hax₂ : ∀ a, ∃ L, AxisInv (w₂.axis a) w₂.linked L := fun a => hlinked ▸ (hax a).1
  have hne₂ : w₂.linked.Nonempty := by
    rw [hlinked]
    exact ⟨p, Set.mem_insert p _⟩
  refine (axis_update_safe hax₂ hne₂ fuel p).weaken fun w' hu => ?_
  refine hu.inv (inserted_base h.toBase halive hp hnew hrest) (fun q hq hl a => ?_) fun _ a heq => ?_
  · have hlive : w.Live q := by
      obtain ⟨hm, hf⟩ := hl
      rw [hlinked] at hm
      have hflag : w₂.hasFlag = w.hasFlag := by
        rw [hrest]
        rfl
      exact ⟨hm.resolve_left hq, hflag ▸ hf⟩
    obtain ⟨f, -, hpos⟩ := (hax a).2
    have hpos₂ : (w₂.axis a).pos q = (w.axis a).pos q := by
      rw [show (w₂.axis a).pos = _ from hpos, Function.update_of_ne hq]
    rw [hpos₂, hold, h.stored q hlive a, Function.update_of_ne hq]
  · obtain ⟨f, hf, hpos⟩ := (hax a).2
    have hpos₂ : (w₂.axis a).pos p = (w.axis a).pos f := by
      rw [show (w₂.axis a).pos = _ from hpos, Function.update_self]
    rw [hold, Function.update_self] at heq
    rw [hpos₂, heq, hop a (hext ▸ heq) f hf]

theorem insert_safe (h : Inv w) (halive : w.alive p = true) (hmgr : w.aoiMgr p = false)
    (hnew : w.hasFlag p kAOINodeFlagRemoved = false) (hop : (Op.insert p).LeastValueUnused w)
    (fuel : ℕ) : Safe .outOfFuel (w.linked.ncard + 1 < fuel) (w.insert fuel p) Inv := by
  have hp : p ∉ w.linked := by simp [World.linked, hmgr]
  by_cases hempty : w.linked = ∅
  · exact (insert_empty h hempty halive hnew fuel).enough fun _ => trivial
  · exact insert_front h hempty halive hp hnew hop fuel

theorem exec_safe (h : Inv w) {op : Op α} (hop : op.Allowed w) (hleast : op.LeastValueUnused w)
    (hdebug : op.Debuggable w) (fuel : ℕ) :
    Safe .outOfFuel (w.linked.ncard + 1 < fuel) (w.exec fuel op) Inv := by
  cases op with
  | construct p v flags => exact construct_inv h hop v flags
  | setExt p v =>
    exact ⟨⟨h.finite, h.size, h.alive, h.delsCount, h.delsNodup, h.dels, h.releases⟩, h.axis, h.stored⟩
  | insert p => exact insert_safe h hop.1 hop.2.1 hop.2.2 hleast fuel
  | update p => exact ((update_safe h hdebug fuel p).enough fun hf => by omega).weaken fun w' hw' => hw'.1
  | remove p => exact (remove_safe h hop hleast hdebug fuel).enough fun hf => by omega
  | removeDelNodes =>
    exact ((removeDelNodes_safe h).enough fun _ => trivial).weaken fun w' hw' => hw'.1
  | releaseNodes => exact (releaseNodes_safe h).enough fun _ => trivial

/-- Without a linked node an update follows a null pointer. -/
lemma exec_null (h : Inv w) {op : Op α} (hdebug : ¬op.Debuggable w) (fuel : ℕ) :
    ∃ x, w.exec fuel op = .error x ∧ (0 < fuel → x = .nullDeref) := by
  have hlists : ∀ a, ∃ L, ListInv (w.axis a) w.linked L := by
    intro a
    obtain ⟨L, hL⟩ := h.axis a
    exact ⟨L, hL.listInv⟩
  cases op with
  | update p => exact update_null hlists (Set.not_nonempty_iff_eq_empty.mp hdebug) fuel p
  | remove p => exact remove_null hlists (Set.not_nonempty_iff_eq_empty.mp hdebug) fuel p
  | _ => exact absurd trivial hdebug

lemma exec_inv (h : Inv w) {op : Op α} (hop : op.Allowed w) (hleast : op.LeastValueUnused w) {fuel : ℕ}
    (hok : w.exec fuel op = .ok w') : Inv w' := by
  by_cases hdebug : op.Debuggable w
  · exact (exec_safe h hop hleast hdebug fuel).of_eq_ok hok
  · obtain ⟨x, hx, -⟩ := exec_null h hdebug fuel
    cases hok.symm.trans hx

omit [OrderBot α] in
lemma fresh_inv (h : w.Fresh) : Inv w := by
  have hlinked : w.linked = ∅ := by
    ext p
    simp [World.linked, h.aoiMgr]
  refine ⟨⟨?_, ?_, ?_, ?_, ?_, ?_, ?_⟩, fun a => ⟨[], ⟨⟨List.nodup_nil, (h.axis a).1, ?_, ?_⟩, .nil, ?_, ?_⟩⟩, ?_⟩
  · simp [hlinked]
  · simp [hlinked, h.size]
  · simp [hlinked]
  · simp [h.delsCount, h.dels]
  · simp [h.dels]
  · simp [h.dels]
  · simp [h.releases]
  · intro A x B hs
    simp at hs
  · intro A x B hs
    simp at hs
  · simp [hlinked]
  · exact fun p _ => (h.axis a).2 p
  · intro p hp
    have hm := hp.1
    simp [hlinked] at hm

/-- The runs whose steps all keep the least value apart from the coordinates. -/
abbrev leastValueUnusedRuns (α : Type) [LinearOrder α] [OrderBot α] : System (World α) (Op α) :=
  (aoiRuns α).restrict fun w op => op.LeastValueUnused w

theorem reachable_inv (h : Reachable (leastValueUnusedRuns α) w) : Inv w := by
  refine h.invariant (I := Inv) (fun w hw => fresh_inv hw) ?_
  intro w op w' hw hstep
  obtain ⟨hleast, hop, fuel, hex⟩ := hstep
  exact exec_inv hw hop hleast hex

/-- The three lists link the same nodes, those in the manager, in the order of
their stored coordinates, and `size_` counts them. -/
structure CrossLists (w : World α) (X : Axis → List Node) : Prop where
  linked : ∀ a, (w.axis a).Linked (X a)
  sorted : ∀ a, Sorted (w.axis a).pos (X a)
  mem : ∀ a p, p ∈ X a ↔ w.aoiMgr p = true
  size : ∀ a, w.size.toNat = (X a).length

omit [OrderBot α] in
lemma Inv.crossLists (h : Inv w) : ∃ X, CrossLists w X := by
  have hax := h.axis
  choose X hX using hax
  refine ⟨X, fun a => (hX a).linked, fun a => (hX a).sorted, fun a => (hX a).mem, fun a => ?_⟩
  rw [h.size, (hX a).ncard, UInt64.toNat_ofNat', Nat.mod_eq_of_lt (nodes_length_lt (hX a).linked.nodup)]

/-- What the lists promise in a state: they are well formed, and an update stores
a live node at its own coordinates. -/
structure WellFormed (w : World α) : Prop where
  lists : ∃ X, CrossLists w X
  stored : ∀ p, w.Live p → ∀ fuel w', w.update fuel p = .ok w' → ∀ a, (w'.axis a).pos p = w'.ext p a

/-- In every state of every run whose steps keep the least value apart, the lists
are well formed. A step that keeps it apart runs into no assertion and ends; it
follows a null pointer just when it is an update, or a removal, without a linked node. -/
theorem aoi_wellFormed (h : Reachable (leastValueUnusedRuns α) w) :
    WellFormed w ∧ ∀ op : Op α, op.Allowed w → op.LeastValueUnused w →
      (op.Debuggable w → (∀ fuel e, w.exec fuel op = .error e → e = .outOfFuel) ∧
        ∃ n, ∀ fuel, n < fuel → ∃ w', w.exec fuel op = .ok w') ∧
      (¬op.Debuggable w → ∀ fuel, 0 < fuel → w.exec fuel op = .error .nullDeref) := by
  have hinv := reachable_inv h
  refine ⟨⟨hinv.crossLists, fun p hp fuel w' hw' a => ?_⟩, fun op hop hleast =>
    ⟨fun hdebug => ⟨fun fuel e he => ?_, w.linked.ncard + 1, fun fuel hf => ?_⟩, fun hdebug fuel hf => ?_⟩⟩
  · exact ((update_safe hinv ⟨p, hp.1⟩ fuel p).of_eq_ok hw').2 hp a
  · exact (exec_safe hinv hop hleast hdebug fuel).error_eq he
  · obtain ⟨w', hw', -⟩ := (exec_safe hinv hop hleast hdebug fuel).exists_ok hf
    exact ⟨w', hw'⟩
  · obtain ⟨x, hx, hnull⟩ := exec_null hinv hdebug fuel
    rw [hx, hnull hf]

section Examples

def emptyManager : World ℕ where
  axis _ := { pos := fun _ => 0 }
  ext _ _ := 0
  oldExt _ _ := 0
  flags _ := 0
  aoiMgr _ := false
  alive _ := false
  size := 0
  delsCount := 0
  dels := []
  releases := []

lemma emptyManager_fresh : emptyManager.Fresh :=
  ⟨fun _ => ⟨rfl, fun _ => ⟨rfl, rfl⟩⟩, fun _ => rfl, fun _ => rfl, rfl, rfl, rfl, rfl⟩

instance (w : World ℕ) (op : Op ℕ) : Decidable (op.Allowed w) :=
  match op with
  | .construct p _ _ => inferInstanceAs (Decidable (w.alive p = false))
  | .setExt p _ => inferInstanceAs (Decidable (w.alive p = true))
  | .insert p => inferInstanceAs (Decidable
      (w.alive p = true ∧ w.aoiMgr p = false ∧ w.hasFlag p kAOINodeFlagRemoved = false))
  | .update p => inferInstanceAs (Decidable (w.alive p = true))
  | .remove p => inferInstanceAs (Decidable (w.alive p = true))
  | .removeDelNodes => inferInstanceAs (Decidable True)
  | .releaseNodes => inferInstanceAs (Decidable True)

instance : Fintype Axis := ⟨{.x, .y, .z}, fun a => by cases a <;> decide⟩

instance (w : World ℕ) (op : Op ℕ) : Decidable (op.LeastValueUnused w) :=
  match op with
  | .construct .. => inferInstanceAs (Decidable True)
  | .setExt .. => inferInstanceAs (Decidable True)
  | .insert p => inferInstanceAs (Decidable
      (∀ a, w.ext p a = ⊥ → ∀ f ∈ (w.axis a).first, (w.axis a).pos f = ⊥))
  | .update _ => inferInstanceAs (Decidable True)
  | .remove p => inferInstanceAs (Decidable
      (w.ext p .x = (w.axis .x).pos p → ∀ q ∈ (w.axis .x).prev p, (w.axis .x).pos q = ⊥))
  | .removeDelNodes => inferInstanceAs (Decidable True)
  | .releaseNodes => inferInstanceAs (Decidable True)

/-- One operation of a run, with enough fuel for a few nodes. -/
def tryOp (w : World ℕ) (op : Op ℕ) : Option (World ℕ) :=
  if op.Allowed w then (w.exec 8 op).toOption else none

lemma tryOp_step {w w' : World ℕ} {op : Op ℕ} (h : tryOp w op = some w') : (aoiRuns ℕ).step w op w' := by
  unfold tryOp at h
  split_ifs at h with hop
  exact ⟨hop, 8, toOption_eq_some h⟩

def node₁ : Node := ⟨1, by decide⟩

def node₂ : Node := ⟨2, by decide⟩

/-- Two nodes on the diagonal; the second one is removed where it stands. -/
def removeInPlace : List (Op ℕ) :=
  [.construct node₁ (fun _ => 10) 0, .insert node₁, .construct node₂ (fun _ => 20) 0, .insert node₂,
    .remove node₂]

lemma removeInPlace_result :
    (removeInPlace.foldlM tryOp emptyManager).map (fun w =>
      ((w.axis .x).first, (w.axis .x).next node₁, (w.axis .x).pos node₁, (w.axis .x).pos node₂)) =
    some (some node₁, some node₂, 10, 0) := by
  decide +kernel

/-- A node that is removed without having moved is left in its place with the
least value. -/
theorem remove_unsorts : ¬ ∀ w, Reachable (aoiRuns ℕ) w → WellFormed w := by
  intro hall
  have hres := removeInPlace_result
  rw [Option.map_eq_some_iff] at hres
  obtain ⟨w, hrun, hw⟩ := hres
  simp only [Prod.mk.injEq] at hw
  obtain ⟨hfirst, hnext, hpos₁, hpos₂⟩ := hw
  have hreach : Reachable (aoiRuns ℕ) w :=
    (Reachable.init emptyManager_fresh).of_foldlM (fun _ _ _ => tryOp_step) hrun
  obtain ⟨X, hX⟩ := (hall w hreach).lists
  have hhead : (X .x).head? = some node₁ := (hX.linked .x).first ▸ hfirst
  obtain ⟨L, hL⟩ := List.head?_eq_some_iff.mp hhead
  have hnode₂ : node₂ ∈ L := by
    have hsucc := (hX.linked .x).next [] node₁ L hL
    rw [hnext] at hsucc
    exact List.mem_of_head? hsucc.symm
  have hsorted := hX.sorted .x
  rw [hL] at hsorted
  have hle := (List.pairwise_cons.mp hsorted).1 node₂ hnode₂
  rw [hpos₁, hpos₂] at hle
  exact absurd hle (by decide)

/-- The second node moves along the x axis before it is removed and released. -/
def removeAfterMove : List (Op ℕ) :=
  [.construct node₁ (fun _ => 10) 0, .insert node₁, .construct node₂ (fun _ => 20) 0, .insert node₂,
    .setExt node₂ (fun _ => 30), .remove node₂, .releaseNodes]

/-- The same for a run that keeps the least value apart. -/
def tryLeastValueUnused (w : World ℕ) (op : Op ℕ) : Option (World ℕ) :=
  if op.LeastValueUnused w then tryOp w op else none

lemma removeAfterMove_result :
    (removeAfterMove.foldlM tryLeastValueUnused emptyManager).map World.size = some 1 := by
  decide +kernel

theorem aoi_wellFormed_remove_after_move :
    ∃ w, Reachable (leastValueUnusedRuns ℕ) w ∧ w.size = 1 ∧ WellFormed w := by
  have hres := removeAfterMove_result
  rw [Option.map_eq_some_iff] at hres
  obtain ⟨w, hrun, hw⟩ := hres
  have hreach : Reachable (leastValueUnusedRuns ℕ) w := by
    refine Reachable.of_foldlM (S := leastValueUnusedRuns ℕ) (fun v op u h => ?_)
      (.init emptyManager_fresh) hrun
    unfold tryLeastValueUnused at h
    split_ifs at h with hleast
    exact ⟨hleast, tryOp_step h⟩
  exact ⟨w, hreach, hw, (aoi_wellFormed hreach).1⟩

end Examples

end TyphoonZero.AOI
