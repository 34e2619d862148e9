import TyphoonZero.AOIManager
import TyphoonZero.CrossListUpdate

/-! The invariant of the AOI manager and the operations that move, remove and
release nodes. -/
namespace TyphoonZero.AOI
open Loop LinkedChain CrossList Transition

variable {α : Type}

namespace World

/-- The nodes inserted and not yet really removed. -/
def linked (w : World α) : Set Node := {p | w.aoiMgr p = true}

/-- A linked node that was not removed. -/
def Live (w : World α) (p : Node) : Prop :=
  p ∈ w.linked ∧ w.hasFlag p kAOINodeFlagRemoved = false

end World

section Flags
variable {w : World α} {p q : Node} {flag f : UInt32}

lemma addFlag_hasFlag_of_ne (hq : q ≠ p) : (w.addFlag p flag).hasFlag q f = w.hasFlag q f := by
  simp [World.addFlag, World.hasFlag, hq]

lemma addFlag_removed_self : (w.addFlag p kAOINodeFlagRemoved).hasFlag p kAOINodeFlagRemoved = true := by
  simp only [World.addFlag, World.hasFlag, Function.update_self, decide_eq_true_eq]
  intro h
  have hbit := congrArg (fun v => v.toBitVec.getLsbD 4) h
  simp at hbit

lemma addFlag_hasFlag_of_true (h : w.hasFlag q f = true) : (w.addFlag p flag).hasFlag q f = true := by
  by_cases hq : q = p
  · subst hq
    simp only [World.addFlag, World.hasFlag, Function.update_self, decide_eq_true_eq] at h ⊢
    intro hz
    apply h
    rw [← UInt32.toBitVec_inj] at hz ⊢
    rw [UInt32.toBitVec_and, UInt32.toBitVec_or, BitVec.and_or_distrib_right] at hz
    exact (BitVec.or_eq_zero_iff.mp hz).1
  · rwa [addFlag_hasFlag_of_ne hq]

end Flags

/-- There are fewer than 2^64 addresses of nodes. -/
lemma nodes_length_lt {L : List Node} (h : L.Nodup) : L.length < 2 ^ 64 := by
  have hinj : Function.Injective fun p : Node => p.1.toNat := fun p q hpq =>
    Subtype.ext (UInt64.toNat_inj.mp hpq)
  have hsub : (L.map fun p => p.1.toNat).toFinset ⊆ Finset.Ioo 0 (2 ^ 64) := by
    intro n hn
    obtain ⟨p, -, rfl⟩ := List.mem_map.mp (List.mem_toFinset.mp hn)
    have hpos : p.1.toNat ≠ 0 := fun h0 => p.2 (UInt64.toNat_inj.mp h0)
    exact Finset.mem_Ioo.mpr ⟨Nat.pos_of_ne_zero hpos, p.1.toNat_lt⟩
  have hcard := Finset.card_le_card hsub
  rw [List.toFinset_card_of_nodup (h.map hinj), List.length_map, Nat.card_Ioo] at hcard
  omega

lemma ofNat_length_eq_zero {L : List Node} (hnd : L.Nodup) (h : UInt64.ofNat L.length = 0) : L = [] := by
  have hnat := congrArg UInt64.toNat h
  rw [UInt64.toNat_ofNat', Nat.mod_eq_of_lt (nodes_length_lt hnd)] at hnat
  exact List.length_eq_zero_iff.mp hnat

/-- The part of the invariant that is not about coordinates. -/
structure Base (w : World α) : Prop where
  finite : w.linked.Finite
  size : w.size = UInt64.ofNat w.linked.ncard
  alive : ∀ p ∈ w.linked, w.alive p = true
  delsCount : w.delsCount = UInt64.ofNat w.dels.length
  delsNodup : w.dels.Nodup
  dels : ∀ p ∈ w.dels, w.alive p = true ∧ w.hasFlag p kAOINodeFlagRemoved = true
  releases : ∀ p ∈ w.releases, p ∉ w.linked ∧ w.alive p = true ∧ w.hasFlag p kAOINodeFlagRemoved = true

variable [LinearOrder α]

structure Inv (w : World α) : Prop extends Base w where
  axis : ∀ a, ∃ L, AxisInv (w.axis a) w.linked L
  stored : ∀ p, w.Live p → ∀ a, (w.axis a).pos p = w.oldExt a p

/-- What an update of `p` leaves: `p` is stored at its own coordinates, where
these are not the old ones. -/
structure Updated (w : World α) (p : Node) (w' : World α) : Prop where
  axis : ∀ a, ∃ L, AxisInv (w'.axis a) w.linked L
  pos : ∀ a, (w'.axis a).pos =
    if w.ext p a = w.oldExt a p then (w.axis a).pos else Function.update (w.axis a).pos p (w.ext p a)
  rest : w' = { w with
    axis := w'.axis
    oldExt := fun a => Function.update (w.oldExt a) p (w.ext p a) }

section Steps
variable {w w' : World α} {p q : Node} {e : Prop}

omit [LinearOrder α] in
lemma mapAxes_safe {f : Axis → AxisList Node α → Except Fault (AxisList Node α)}
    {Q : Axis → AxisList Node α → Prop} (h : ∀ a, Safe .outOfFuel e (f a (w.axis a)) (Q a)) :
    Safe .outOfFuel e (w.mapAxes f) fun w' =>
      (∀ a, Q a (w'.axis a)) ∧ w' = { w with axis := w'.axis } := by
  refine (eachAxis_safe h).bind fun axis haxis => ?_
  exact ⟨haxis, rfl⟩

omit [LinearOrder α] in
/-- On every axis the walk begins at the first of the linked nodes. -/
lemma debug_safe (haxis : ∀ a, ∃ L, ListInv (w.axis a) w.linked L) (hne : w.linked.Nonempty) (fuel : ℕ) :
    Safe .outOfFuel (w.linked.ncard ≤ fuel) (w.debug fuel) fun _ => True := by
  have hwalk : ∀ a, Safe .outOfFuel (w.linked.ncard ≤ fuel) ((w.axis a).debug fuel (w.axis a).first)
      fun _ => True := by
    intro a
    obtain ⟨L, hL⟩ := haxis a
    obtain ⟨f, rest, rfl⟩ := List.exists_cons_of_ne_nil fun hnil => hne.ne_empty (hL.eq_nil_iff.mp hnil)
    have hfirst : (w.axis a).first = some f := hL.linked.first
    rw [hfirst, hL.ncard]
    exact (CrossList.debug_safe hL.linked fuel f).enough fun hle => ⟨List.mem_cons_self, hle⟩
  exact (hwalk .x).bind fun _ _ => (hwalk .y).bind fun _ _ => hwalk .z

omit [LinearOrder α] in
lemma debug_null (haxis : ∀ a, ∃ L, ListInv (w.axis a) w.linked L) (hempty : w.linked = ∅) (fuel : ℕ) :
    w.debug fuel = .error .nullDeref := by
  obtain ⟨L, hL⟩ := haxis .x
  have hfirst : (w.axis .x).first = none := hL.first_eq_none_iff.mpr hempty
  change ((w.axis .x).debug fuel (w.axis .x).first >>= _) = _
  rw [hfirst]
  rfl

/-- An update that has not come to the walks. -/
lemma update_axes_safe {fuel : ℕ} {Q : Axis → AxisList Node α → Prop}
    (h : ∀ a, Safe .outOfFuel e ((w.axis a).update w.flagView false fuel p (w.ext p a) (w.oldExt a p)) (Q a))
    (hlist : ∀ a l, Q a l → ∃ L, ListInv l w.linked L) (hne : w.linked.Nonempty)
    (hfuel : e → w.linked.ncard ≤ fuel) :
    Safe .outOfFuel e (w.update fuel p) fun w' => (∀ a, Q a (w'.axis a)) ∧
      w' = { w with axis := w'.axis, oldExt := fun a => Function.update (w.oldExt a) p (w.ext p a) } := by
  refine (mapAxes_safe h).bind fun v hv => ?_
  obtain ⟨hQ, hrest⟩ := hv
  have hlinked : (v.resetOldExtXYZ p).linked = w.linked := by
    rw [hrest]
    rfl
  refine ((debug_safe (fun a => ?_) (hlinked ▸ hne) fuel).enough fun he => ?_).bind fun _ _ => ?_
  · rw [hlinked]
    exact hlist a _ (hQ a)
  · rw [hlinked]
    exact hfuel he
  · refine ⟨hQ, ?_⟩
    rw [hrest]
    rfl

/-- Without a linked node the first walk begins at none. -/
lemma update_null (haxis : ∀ a, ∃ L, ListInv (w.axis a) w.linked L) (hempty : w.linked = ∅) (fuel : ℕ) (p : Node) :
    ∃ x, w.update fuel p = .error x ∧ (0 < fuel → x = .nullDeref) := by
  have hlist : ∀ a, Safe .outOfFuel (0 < fuel) ((w.axis a).update w.flagView false fuel p (w.ext p a) (w.oldExt a p))
      fun l' => ∃ L, ListInv l' w.linked L := by
    intro a
    obtain ⟨L, hL⟩ := haxis a
    refine (hL.update w.flagView false fuel p _ _).enough fun hf => ?_
    rw [hL.eq_nil_iff.mpr hempty]
    exact hf
  have haxes : Safe .outOfFuel (0 < fuel) (w.mapAxes fun a l =>
      l.update w.flagView false fuel p (w.ext p a) (w.oldExt a p)) _ := mapAxes_safe hlist
  unfold World.update
  cases hmap : w.mapAxes fun a l => l.update w.flagView false fuel p (w.ext p a) (w.oldExt a p) with
  | error x =>
    refine ⟨x, rfl, fun hf => ?_⟩
    obtain ⟨v, hv, -⟩ := haxes.exists_ok hf
    cases hmap.symm.trans hv
  | ok v =>
    obtain ⟨hlist, hrest⟩ := haxes.of_eq_ok hmap
    have hlinked : (v.resetOldExtXYZ p).linked = w.linked := by
      rw [hrest]
      rfl
    refine ⟨.nullDeref, ?_, fun _ => rfl⟩
    change ((v.resetOldExtXYZ p).debug fuel >>= _) = _
    rw [debug_null (fun a => hlinked ▸ hlist a) (hlinked.trans hempty)]
    rfl

lemma Updated.base (hu : Updated w p w') (h : Base w) : Base w' := by
  rw [hu.rest]
  exact ⟨h.finite, h.size, h.alive, h.delsCount, h.delsNodup, h.dels, h.releases⟩

lemma Updated.linked (hu : Updated w p w') : w'.linked = w.linked := by
  rw [hu.rest]
  rfl

lemma Updated.hasFlag (hu : Updated w p w') : w'.hasFlag = w.hasFlag := by
  rw [hu.rest]
  rfl

lemma Updated.oldExt (hu : Updated w p w') (a : Axis) :
    w'.oldExt a = Function.update (w.oldExt a) p (w.ext p a) := by
  rw [hu.rest]

lemma Updated.ext (hu : Updated w p w') : w'.ext = w.ext := by
  rw [hu.rest]

lemma Updated.pos_of_ne (hu : Updated w p w') (hq : q ≠ p) (a : Axis) :
    (w'.axis a).pos q = (w.axis a).pos q := by
  rw [hu.pos a]
  split_ifs
  · rfl
  · exact Function.update_of_ne hq _ _

lemma Updated.pos_self (hu : Updated w p w') {a : Axis}
    (h : w.ext p a = w.oldExt a p → (w.axis a).pos p = w.ext p a) : (w'.axis a).pos p = w.ext p a := by
  rw [hu.pos a]
  split_ifs with heq
  · exact h heq
  · exact Function.update_self _ _ _

/-- The invariant comes back when it held of the other nodes. -/
lemma Updated.inv (hu : Updated w p w') (h : Base w)
    (hother : ∀ q, q ≠ p → w.Live q → ∀ a, (w.axis a).pos q = w.oldExt a q)
    (hself : w.Live p → ∀ a, w.ext p a = w.oldExt a p → (w.axis a).pos p = w.ext p a) : Inv w' := by
  refine ⟨hu.base h, hu.linked ▸ hu.axis, fun q hq a => ?_⟩
  have hlive : w.Live q := by
    rw [World.Live, hu.linked, hu.hasFlag] at hq
    exact hq
  rw [hu.oldExt a]
  by_cases hqp : q = p
  · subst hqp
    rw [hu.pos_self (hself hlive a), Function.update_self]
  · rw [hu.pos_of_ne hqp, Function.update_of_ne hqp]
    exact hother q hqp hlive a

lemma world_update_safe {fuel : ℕ}
    (h : ∀ a, Safe .outOfFuel (w.linked.ncard < fuel)
      ((w.axis a).update w.flagView false fuel p (w.ext p a) (w.oldExt a p))
      fun l' => (∃ L, AxisInv l' w.linked L) ∧ l'.pos =
        if w.ext p a = w.oldExt a p then (w.axis a).pos
        else Function.update (w.axis a).pos p (w.ext p a)) (hne : w.linked.Nonempty) :
    Safe .outOfFuel (w.linked.ncard < fuel) (w.update fuel p) (Updated w p) := by
  have hlist : ∀ a l, (∃ L, AxisInv l w.linked L) ∧ (l.pos =
      if w.ext p a = w.oldExt a p then (w.axis a).pos
      else Function.update (w.axis a).pos p (w.ext p a)) → ∃ L, ListInv l w.linked L := by
    rintro a l ⟨⟨L, hL⟩, -⟩
    exact ⟨L, hL.listInv⟩
  refine (update_axes_safe h hlist hne fun hlt => hlt.le).weaken fun w' hw' => ?_
  obtain ⟨hax, hrest⟩ := hw'
  exact ⟨fun a => (hax a).1, fun a => (hax a).2, hrest⟩

lemma axis_update_safe (hax : ∀ a, ∃ L, AxisInv (w.axis a) w.linked L) (hne : w.linked.Nonempty) (fuel : ℕ)
    (p : Node) : Safe .outOfFuel (w.linked.ncard < fuel) (w.update fuel p) (Updated w p) := by
  refine world_update_safe (fun a => ?_) hne
  obtain ⟨L, hL⟩ := hax a
  rw [hL.ncard]
  exact hL.update w.flagView false fuel p _ _

theorem update_safe (h : Inv w) (hne : w.linked.Nonempty) (fuel : ℕ) (p : Node) :
    Safe .outOfFuel (w.linked.ncard < fuel) (w.update fuel p) fun w' =>
      Inv w' ∧ (w.Live p → ∀ a, (w'.axis a).pos p = w'.ext p a) := by
  refine (axis_update_safe h.axis hne fuel p).weaken fun w' hu => ?_
  have hself : w.Live p → ∀ a, w.ext p a = w.oldExt a p → (w.axis a).pos p = w.ext p a := by
    intro hl a heq
    rw [h.stored p hl a, heq]
  refine ⟨hu.inv h.toBase (fun q _ => h.stored q) hself, fun hl a => ?_⟩
  rw [hu.ext]
  exact hu.pos_self (hself hl a)

/-- The axes after `OnRemove`: only `p` may be out of order, on the x axis. -/
lemma onRemove_update_safe [OrderBot α] (h : Inv w) (hop : (Op.remove p).LeastValueUnused w)
    (hne : w.linked.Nonempty) (fuel : ℕ) : Safe .outOfFuel (w.linked.ncard < fuel)
      (((w.addFlag p kAOINodeFlagRemoving).onRemove p).update fuel p)
      (Updated ((w.addFlag p kAOINodeFlagRemoving).onRemove p) p) := by
  refine @world_update_safe _ _ ((w.addFlag p kAOINodeFlagRemoving).onRemove p) p fuel (fun a => ?_) hne
  obtain ⟨L, hL⟩ := h.axis a
  have hcard : ((w.addFlag p kAOINodeFlagRemoving).onRemove p).linked.ncard = L.length := hL.ncard
  rw [hcard]
  have hold : ((w.addFlag p kAOINodeFlagRemoving).onRemove p).oldExt a p = (w.axis a).pos p := by
    simp [World.onRemove, World.setOldExt, World.addFlag]
  rw [hold]
  by_cases hx : a = .x
  · subst hx
    have haxis : ((w.addFlag p kAOINodeFlagRemoving).onRemove p).axis .x = (w.axis .x).setPos p ⊥ := by
      simp [World.onRemove, World.setOldExt, World.addFlag]
    rw [haxis]
    exact hL.update_setPos _ _ fuel p _ _ ⊥ fun heq => hL.sorted_setPos_bot (hop heq)
  · have haxis : ((w.addFlag p kAOINodeFlagRemoving).onRemove p).axis a = w.axis a := by
      simp [World.onRemove, World.setOldExt, World.addFlag, hx]
    rw [haxis]
    exact hL.update _ _ fuel p _ _

/-- `OnRemove` moves no node. -/
lemma onRemove_listInv [OrderBot α] (haxis : ∀ a, ∃ L, ListInv (w.axis a) w.linked L) (p : Node) (a : Axis) :
    ∃ L, ListInv (((w.addFlag p kAOINodeFlagRemoving).onRemove p).axis a) w.linked L := by
  obtain ⟨L, hL⟩ := haxis a
  refine ⟨L, ?_⟩
  unfold World.onRemove
  dsimp only
  by_cases hx : a = .x
  · subst hx
    rw [Function.update_self]
    exact ⟨hL.linked, hL.mem, hL.detached⟩
  · rw [Function.update_of_ne hx]
    exact hL

lemma remove_null [OrderBot α] (haxis : ∀ a, ∃ L, ListInv (w.axis a) w.linked L) (hempty : w.linked = ∅)
    (fuel : ℕ) (p : Node) : ∃ x, w.remove fuel p = .error x ∧ (0 < fuel → x = .nullDeref) := by
  have hlists : ∀ a, ∃ L, ListInv (((w.addFlag p kAOINodeFlagRemoving).onRemove p).axis a)
      ((w.addFlag p kAOINodeFlagRemoving).onRemove p).linked L := onRemove_listInv haxis p
  obtain ⟨x, hx, hnull⟩ := update_null hlists hempty fuel p
  refine ⟨x, ?_, hnull⟩
  unfold World.remove
  dsimp only
  rw [hx]
  rfl

lemma addFlag_removed_inv (h : Base w) (hax : ∀ a, ∃ L, AxisInv (w.axis a) w.linked L)
    (hother : ∀ q, q ≠ p → w.Live q → ∀ a, (w.axis a).pos q = w.oldExt a q) :
    Inv (w.addFlag p kAOINodeFlagRemoved) := by
  refine ⟨⟨h.finite, h.size, h.alive, h.delsCount, h.delsNodup, fun q hq => ?_, fun q hq => ?_⟩, hax,
    fun q hq a => ?_⟩
  · exact ⟨(h.dels q hq).1, addFlag_hasFlag_of_true (h.dels q hq).2⟩
  · obtain ⟨hl, ha, hf⟩ := h.releases q hq
    exact ⟨hl, ha, addFlag_hasFlag_of_true hf⟩
  · obtain ⟨hl, hf⟩ := hq
    have hqp : q ≠ p := by
      intro he
      subst he
      rw [addFlag_removed_self] at hf
      exact Bool.noConfusion hf
    rw [addFlag_hasFlag_of_ne hqp] at hf
    exact hother q hqp ⟨hl, hf⟩ a

theorem remove_safe [OrderBot α] (h : Inv w) (hp : w.alive p = true)
    (hop : (Op.remove p).LeastValueUnused w) (hne : w.linked.Nonempty) (fuel : ℕ) :
    Safe .outOfFuel (w.linked.ncard < fuel) (w.remove fuel p) Inv := by
  refine (onRemove_update_safe h hop hne fuel).bind fun w' hu => ?_
  have hbase : Base ((w.addFlag p kAOINodeFlagRemoving).onRemove p) :=
    ⟨h.finite, h.size, h.alive, h.delsCount, h.delsNodup,
      fun q hq => ⟨(h.dels q hq).1, addFlag_hasFlag_of_true (h.dels q hq).2⟩,
      fun q hq => ⟨(h.releases q hq).1, (h.releases q hq).2.1, addFlag_hasFlag_of_true (h.releases q hq).2.2⟩⟩
  have hother : ∀ q, q ≠ p → w'.Live q → ∀ a, (w'.axis a).pos q = w'.oldExt a q := by
    intro q hq hl a
    have hlive : w.Live q := by
      rw [World.Live, hu.linked, hu.hasFlag] at hl
      obtain ⟨hm, hf⟩ := hl
      refine ⟨hm, ?_⟩
      rw [← addFlag_hasFlag_of_ne hq]
      exact hf
    have hpos : (((w.addFlag p kAOINodeFlagRemoving).onRemove p).axis a).pos q = (w.axis a).pos q := by
      by_cases hx : a = .x
      · subst hx
        simp [World.onRemove, World.setOldExt, World.addFlag, AxisList.setPos, hq]
      · simp [World.onRemove, World.setOldExt, World.addFlag, hx]
    rw [hu.pos_of_ne hq, hpos, hu.oldExt a, Function.update_of_ne hq, h.stored q hlive a]
    simp [World.onRemove, World.setOldExt, World.addFlag, hq]
  have hinv := addFlag_removed_inv (p := p) (hu.base hbase) (hu.linked ▸ hu.axis) hother
  have halive : w'.alive p = true := by
    rw [hu.rest]
    exact hp
  dsimp only
  split_ifs with hm
  · exact hinv
  · refine ⟨⟨hinv.finite, hinv.size, hinv.alive, ?_, ?_, fun q hq => ?_, hinv.releases⟩, hinv.axis,
      hinv.stored⟩
    · rw [hinv.delsCount, List.length_append, UInt64.ofNat_add]
      rfl
    · exact List.nodup_append.mpr ⟨hinv.delsNodup, List.nodup_singleton p, fun a ha b hb he =>
        hm (List.mem_singleton.mp hb ▸ he ▸ ha)⟩
    · rcases List.mem_append.mp hq with hq | hq
      · exact hinv.dels q hq
      · rw [List.mem_singleton.mp hq]
        exact ⟨halive, addFlag_removed_self⟩

omit [LinearOrder α] in
lemma linked_insert (h : w'.aoiMgr = Function.update w.aoiMgr p true) :
    w'.linked = Set.insert p w.linked := by
  ext q
  by_cases hq : q = p
  · simp [World.linked, h, hq, Set.insert]
  · simp [World.linked, h, hq, Set.insert]

omit [LinearOrder α] in
lemma linked_erase (h : w'.aoiMgr = Function.update w.aoiMgr p false) : w'.linked = w.linked \ {p} := by
  ext q
  by_cases hq : q = p
  · simp [World.linked, h, hq]
  · simp [World.linked, h, hq]

lemma unlinked_inv (h : Inv w) (hp : p ∈ w.dels) (hlive : p ∈ w.linked) {axis : Axis → AxisList Node α}
    (hax : ∀ a, (∃ L, AxisInv (axis a) (w.linked \ {p}) L) ∧ (axis a).pos = (w.axis a).pos) :
    Inv { w with
      axis := axis, aoiMgr := Function.update w.aoiMgr p false, releases := w.releases ++ [p],
      size := w.size - 1 } := by
  have hlinked : World.linked { w with
      axis := axis, aoiMgr := Function.update w.aoiMgr p false, releases := w.releases ++ [p],
      size := w.size - 1 } = w.linked \ {p} := linked_erase rfl
  refine ⟨⟨?_, ?_, fun q hq => ?_, h.delsCount, h.delsNodup, h.dels, fun q hq => ?_⟩, fun a => ?_,
    fun q hq a => ?_⟩
  · rw [hlinked]
    exact h.finite.sdiff
  · have hcard := Set.ncard_sdiff_singleton_add_one hlive h.finite
    rw [hlinked]
    dsimp only
    rw [h.size, ← hcard, UInt64.ofNat_add]
    simp
  · rw [hlinked] at hq
    exact h.alive q hq.1
  · rw [hlinked]
    rcases List.mem_append.mp hq with hq | hq
    · exact ⟨fun hm => (h.releases q hq).1 hm.1, (h.releases q hq).2⟩
    · rw [List.mem_singleton.mp hq]
      exact ⟨fun hm => hm.2 rfl, h.dels p hp⟩
  · rw [hlinked]
    exact (hax a).1
  · obtain ⟨hm, hf⟩ := hq
    rw [hlinked] at hm
    dsimp only
    rw [(hax a).2]
    exact h.stored q ⟨hm.1, hf⟩ a

theorem removeReal_safe (h : Inv w) (hp : p ∈ w.dels) :
    Safe .outOfFuel True (w.removeReal p) fun w' => Inv w' ∧ w'.dels = w.dels := by
  unfold World.removeReal
  split_ifs with hmgr
  · exact ⟨h, rfl⟩
  have hlive : p ∈ w.linked := Bool.eq_true_of_not_eq_false hmgr
  have hunlink : ∀ a, Safe .outOfFuel True (((w.axis a).unlink p).map fun l => l.resetPtr p)
      fun l' => (∃ L, AxisInv l' (w.linked \ {p}) L) ∧ l'.pos = (w.axis a).pos := by
    intro a
    obtain ⟨L, hL⟩ := h.axis a
    obtain ⟨F, G, rfl⟩ := List.append_of_mem ((hL.mem p).mpr hlive)
    obtain ⟨l', hl', hinv, hpos⟩ := hL.unlink
    rw [hl']
    exact ⟨⟨F ++ G, hinv⟩, hpos⟩
  refine (mapAxes_safe hunlink).bind fun w' hw' => ?_
  obtain ⟨hax, hw'⟩ := hw'
  rw [hw']
  exact ⟨unlinked_inv h hp hlive hax, rfl⟩

theorem removeDelNodes_safe (h : Inv w) :
    Safe .outOfFuel True w.removeDelNodes fun w' => Inv w' ∧ w'.dels = [] := by
  unfold World.removeDelNodes
  split_ifs with hzero
  · exact ⟨h, ofNat_length_eq_zero h.delsNodup (h.delsCount ▸ hzero)⟩
  have hfold : ∀ ds : List Node, ∀ w : World α, Inv w → ds ⊆ w.dels →
      Safe .outOfFuel True (ds.foldlM (fun (w : World α) p => w.removeReal p) w) Inv := by
    intro ds
    induction ds with
    | nil =>
      intro w h _
      exact h
    | cons d ds ih =>
      intro w h hds
      rw [List.foldlM_cons]
      refine (removeReal_safe h (hds (by simp))).bind fun w' hw' => ?_
      obtain ⟨hinv, hdels⟩ := hw'
      refine ih w' hinv ?_
      rw [hdels]
      exact fun q hq => hds (List.mem_cons_of_mem d hq)
  refine (hfold w.dels w h (List.Subset.refl _)).bind fun w' h' => ?_
  exact ⟨⟨⟨h'.finite, h'.size, h'.alive, rfl, List.nodup_nil, by simp, h'.releases⟩, h'.axis, h'.stored⟩, rfl⟩

lemma deleteNode_safe (h : Inv { w with releases := [] }) (hdels : w.dels = []) (hp : p ∉ w.linked) :
    Safe .outOfFuel True (w.deleteNode p) fun w' =>
      Inv { w' with releases := [] } ∧ w'.dels = [] ∧ w'.linked = w.linked := by
  have hdet : ∀ a, (w.axis a).prev p = none ∧ (w.axis a).next p = none := by
    intro a
    obtain ⟨L, hL⟩ := h.axis a
    exact hL.detached p hp
  have hmgr : w.aoiMgr p = false := Bool.eq_false_of_not_eq_true hp
  unfold World.deleteNode
  rw [if_pos ⟨⟨(hdet .x).1, (hdet .x).2, (hdet .y).1, (hdet .y).2, (hdet .z).1, (hdet .z).2⟩, hmgr⟩]
  refine ⟨⟨⟨h.finite, h.size, fun q hq => ?_, h.delsCount, h.delsNodup, ?_, by simp⟩, h.axis, h.stored⟩,
    hdels, rfl⟩
  · have hqp : q ≠ p := fun he => hp (he ▸ hq)
    dsimp only
    rw [Function.update_of_ne hqp]
    exact h.alive q hq
  · simp [hdels]

theorem releaseNodes_safe (h : Inv w) : Safe .outOfFuel True w.releaseNodes Inv := by
  refine (removeDelNodes_safe h).bind fun w' hw' => ?_
  obtain ⟨h', hdels⟩ := hw'
  have hfold : ∀ ds : List Node, ∀ w : World α, Inv { w with releases := [] } → w.dels = [] →
      (∀ p ∈ ds, p ∉ w.linked) →
      Safe .outOfFuel True (ds.foldlM (fun (w : World α) p => w.deleteNode p) w) fun w' =>
        Inv { w' with releases := [] } := by
    intro ds
    induction ds with
    | nil =>
      intro w h _ _
      exact h
    | cons d ds ih =>
      intro w h hdels hds
      rw [List.foldlM_cons]
      refine (deleteNode_safe h hdels (hds d (by simp))).bind fun w' hw' => ?_
      obtain ⟨hinv, hdels', hlinked⟩ := hw'
      exact ih w' hinv hdels' fun p hp => hlinked ▸ hds p (by simp [hp])
  have hempty : Inv { w' with releases := [] } :=
    ⟨⟨h'.finite, h'.size, h'.alive, h'.delsCount, h'.delsNodup, h'.dels, by simp⟩, h'.axis, h'.stored⟩
  exact (hfold w'.releases w' hempty hdels fun p hp => (h'.releases p hp).1).bind fun w'' h'' => h''

end Steps

end TyphoonZero.AOI
