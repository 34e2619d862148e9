import TyphoonZero.CoordinateSystem
import TyphoonZero.CrossListUpdate

/-! The cross lists of the coordinate system stay well formed over every run. -/
namespace TyphoonZero.Coordinate
open Loop LinkedChain CrossList Transition

variable {P E α : Type} [DecidableEq P] [LinearOrder α]

structure Inv (w : World P E α) (live : Set P) (X : Axis → List P) : Prop where
  axis : ∀ a, AxisInv (w.axis a) live (X a)
  attached : ∀ p, w.coordinateSystemPtr p = true ↔ p ∈ live
  size : ∀ a, w.size = UInt32.ofNat (X a).length
  watchers : ∀ p, w.watcherNodes p = []

section Inv
variable {w : World P E α} {live : Set P} {X : Axis → List P} {p : P}

omit [DecidableEq P] in
lemma Inv.length_eq (h : Inv w live X) (a b : Axis) : (X a).length = (X b).length :=
  ((h.axis a).perm (h.axis b)).length_eq

omit [DecidableEq P] in
lemma Inv.not_live (h : Inv w live X) (hp : w.coordinateSystemPtr p = false) : p ∉ live := fun hl => by
  simp [(h.attached p).mpr hl] at hp

omit [DecidableEq P] in
/-- Flags, old coordinates and the pending list are not part of the invariant. -/
lemma Inv.congr {w' : World P E α} (h : Inv w live X) (haxis : w'.axis = w.axis)
    (hptr : w'.coordinateSystemPtr = w.coordinateSystemPtr) (hsize : w'.size = w.size)
    (hwatch : w'.watcherNodes = w.watcherNodes) : Inv w' live X :=
  ⟨haxis ▸ h.axis, hptr ▸ h.attached, hsize ▸ h.size, hwatch ▸ h.watchers⟩

omit [DecidableEq P] [LinearOrder α] in
lemma mapAxes_safe {f : Axis → AxisList P α → Except Fault (AxisList P α)} {e : Prop}
    {Q : Axis → AxisList P α → Prop} (h : ∀ a, Safe .outOfFuel e (f a (w.axis a)) (Q a)) :
    Safe .outOfFuel e (w.mapAxes f) fun w' =>
      (∀ a, Q a (w'.axis a)) ∧ w' = { w with axis := w'.axis } := by
  refine (eachAxis_safe h).bind fun axis haxis => ?_
  exact ⟨haxis, rfl⟩

lemma Inv.onRemove (h : Inv w live X) (flag : UInt16) : Inv ((w.addFlag p flag).onRemove p) live X := by
  refine h.congr rfl rfl rfl (funext fun q => ?_)
  by_cases hq : q = p
  · subst hq
    simp [World.onRemove, World.storeOldRealPosition, World.addFlag, h.watchers]
  · simp [World.onRemove, World.storeOldRealPosition, World.addFlag, hq]

lemma clearDelWatcherNodes_inv (h : Inv w live X) : Inv (w.clearDelWatcherNodes p) live X := by
  unfold World.clearDelWatcherNodes
  split_ifs
  · exact h
  · refine h.congr rfl rfl rfl (funext fun q => ?_)
    by_cases hq : q = p
    · subst hq
      simp [h.watchers, World.eraseDelWatchers]
    · simp [hq]
  · exact h

omit [LinearOrder α] in
lemma clearDelWatcherNodes_dels (w : World P E α) (p : P) :
    (w.clearDelWatcherNodes p).dels = w.dels := by
  unfold World.clearDelWatcherNodes
  split_ifs <;> rfl

omit [LinearOrder α] in
lemma endUpdate_dels (w : World P E α) (p : P) : (w.endUpdate p).dels = w.dels := by
  unfold World.endUpdate
  dsimp only
  split_ifs <;> rfl

theorem removeReal_safe (h : Inv w live X) :
    Safe .outOfFuel True (w.removeReal p) fun w' =>
      (∃ X', Inv w' (live \ {p}) X') ∧ w'.dels = w.dels ∧ w'.delsCount = w.delsCount := by
  unfold World.removeReal
  split_ifs with hp
  · rw [Set.sdiff_singleton_eq_self (h.not_live hp)]
    exact ⟨⟨X, h⟩, rfl, rfl⟩
  · have hlive : p ∈ live := (h.attached p).mp (by simpa using hp)
    have hunlink : ∀ a, Safe .outOfFuel True (((w.axis a).unlink p).map fun l => l.resetPtr p)
        fun l' => ∃ L', AxisInv l' (live \ {p}) L' ∧ L'.length + 1 = (X a).length := by
      intro a
      obtain ⟨F, G, hX⟩ := List.append_of_mem (((h.axis a).mem p).mpr hlive)
      have hax := h.axis a
      rw [hX] at hax ⊢
      obtain ⟨l', hl', hinv, -⟩ := hax.unlink
      rw [hl']
      exact ⟨F ++ G, hinv, by simp only [List.length_append, List.length_cons]; omega⟩
    refine (mapAxes_safe hunlink).bind fun w' hw' => ?_
    obtain ⟨hax, hw'⟩ := hw'
    choose X' hX' hlen using hax
    refine ⟨⟨X', hX', fun q => ?_, fun a => ?_, fun q => ?_⟩, ?_, ?_⟩
    · rw [hw']
      by_cases hq : q = p
      · simp [hq]
      · simp [h.attached, hq]
    · have hsize : w'.size = UInt32.ofNat (X' a).length + 1 := by
        rw [hw', ← UInt32.ofNat_one, ← UInt32.ofNat_add, hlen a]
        exact h.size a
      dsimp only
      rw [hsize, add_sub_cancel_right]
    · rw [hw']
      exact h.watchers q
    · rw [hw']
    · rw [hw']

theorem removeDelNodes_safe (h : Inv w live X) :
    Safe .outOfFuel True w.removeDelNodes fun w' =>
      (∃ X', Inv w' (if w.delsCount = 0 then live else live \ {p | p ∈ w.dels}) X') ∧
        w'.dels ⊆ w.dels := by
  unfold World.removeDelNodes
  split_ifs
  · exact ⟨⟨X, h⟩, List.Subset.refl _⟩
  · have hfold : ∀ ds : List P, ∀ w live X, Inv w live X →
        Safe .outOfFuel True (ds.foldlM (fun (w : World P E α) p => w.removeReal p) w) fun w' =>
          ∃ X', Inv w' (live \ {p | p ∈ ds}) X' := by
      intro ds
      induction ds with
      | nil =>
        intro w live X h
        exact ⟨X, by simpa using h⟩
      | cons d ds ih =>
        intro w live X h
        rw [List.foldlM_cons]
        refine (removeReal_safe h).bind fun w' hw' => ?_
        obtain ⟨⟨X', hX'⟩, -⟩ := hw'
        refine (ih w' _ X' hX').weaken fun w'' hw'' => ?_
        obtain ⟨X'', hX''⟩ := hw''
        refine ⟨X'', ?_⟩
        convert hX'' using 1
        ext q
        simp only [Set.mem_sdiff, Set.mem_ofPred_eq, List.mem_cons, Set.mem_singleton_iff]
        tauto
    refine (hfold w.dels w live X h).bind fun w' hw' => ?_
    obtain ⟨X', hX'⟩ := hw'
    exact ⟨⟨X', hX'.congr rfl rfl rfl rfl⟩, List.nil_subset _⟩

variable [OrderBot α]

/-- The three axes are updated, and the walks have not begun. -/
lemma updateAxes_safe (h : Inv w live X) (fuel : ℕ) (p : P) :
    Safe .outOfFuel ((X .x).length < fuel) (w.mapAxes fun a l =>
        l.update w.flagView true fuel p (w.getReal p a) (w.oldRealPosition a p)) fun w' =>
      (∃ X', Inv w' live X') ∧ w'.dels = w.dels ∧ w'.delsCount = w.delsCount := by
  have hax : ∀ a, Safe .outOfFuel ((X .x).length < fuel)
      ((w.axis a).update w.flagView true fuel p (w.getReal p a) (w.oldRealPosition a p))
      fun l' => ∃ L', AxisInv l' live L' := by
    intro a
    rw [h.length_eq .x a]
    exact ((h.axis a).update w.flagView true fuel p _ _).weaken fun l' hl' => hl'.1
  refine (mapAxes_safe hax).weaken fun w' hw' => ?_
  obtain ⟨hax, hw'⟩ := hw'
  choose X' hX' using hax
  refine ⟨⟨X', hX', fun q => ?_, fun a => ?_, fun q => ?_⟩, ?_, ?_⟩
  · have hptr : w'.coordinateSystemPtr = w.coordinateSystemPtr := by rw [hw']
    exact hptr ▸ h.attached q
  · have hsize : w'.size = w.size := by rw [hw']
    rw [((hX' a).perm (h.axis a)).length_eq, ← h.size a]
    exact hsize
  · have hwatch : w'.watcherNodes = w.watcherNodes := by rw [hw']
    exact hwatch ▸ h.watchers q
  · rw [hw']
  · rw [hw']

omit [DecidableEq P] [LinearOrder α] [OrderBot α] in
/-- The walks begin at the first node of the first list; they come to an end when it is in the other lists, too. -/
lemma debug_safe (hlinked : ∀ a, (w.axis a).Linked (X a)) (hne : X .x ≠ []) (fuel : ℕ) :
    Safe .outOfFuel ((∀ a, ∀ p ∈ X .x, p ∈ X a) ∧ ∀ a, (X a).length ≤ fuel) (w.debug fuel) fun _ => True := by
  obtain ⟨f, rest, hf⟩ := List.exists_cons_of_ne_nil hne
  have hfirst : (w.axis .x).first = some f := by
    rw [(hlinked .x).first, hf]
    rfl
  have hmem : f ∈ X .x := hf ▸ List.mem_cons_self
  have hwalk : ∀ a, Safe .outOfFuel ((∀ a, ∀ p ∈ X .x, p ∈ X a) ∧ ∀ a, (X a).length ≤ fuel)
      ((w.axis a).debug fuel (some f)) fun _ => True := fun a =>
    (CrossList.debug_safe (hlinked a) fuel f).enough fun h => ⟨h.1 a f hmem, h.2 a⟩
  unfold World.debug
  rw [hfirst]
  exact (hwalk .x).bind fun _ _ => (hwalk .y).bind fun _ _ => hwalk .z

omit [DecidableEq P] [OrderBot α] in
lemma Inv.debug_safe (h : Inv w live X) (hne : live.Nonempty) (fuel : ℕ) :
    Safe .outOfFuel ((X .x).length ≤ fuel) (w.debug fuel) fun _ => True := by
  have hx : X .x ≠ [] := fun hnil => hne.ne_empty ((h.axis .x).listInv.eq_nil_iff.mp hnil)
  refine (Coordinate.debug_safe (fun a => (h.axis a).linked) hx fuel).enough fun hle => ⟨fun a p hp => ?_, fun a => ?_⟩
  · exact ((h.axis a).mem p).mpr (((h.axis .x).mem p).mp hp)
  · exact (h.length_eq .x a) ▸ hle

theorem update_safe (h : Inv w live X) (hne : live.Nonempty) (fuel : ℕ) (p : P) :
    Safe .outOfFuel ((X .x).length < fuel) (w.update fuel p) fun w' =>
      (∃ X', Inv w' live X') ∧ w'.dels = w.dels ∧ w'.delsCount = w.delsCount := by
  refine (updateAxes_safe h fuel p).bind fun w' hw' => ?_
  obtain ⟨⟨X', hX'⟩, hdels, hcount⟩ := hw'
  have hreset : Inv (w'.resetOldRealXYZ p) live X' := hX'.congr rfl rfl rfl rfl
  have hlen : (X' .x).length = (X .x).length := ((hX'.axis .x).perm (h.axis .x)).length_eq
  refine ((hreset.debug_safe hne fuel).enough fun hlt => ?_).bind fun _ _ => ?_
  · exact hlen ▸ hlt.le
  · exact ⟨⟨X', hreset⟩, hdels, hcount⟩

/-- Without a node the first walk begins at no node. -/
lemma update_null (h : Inv w ∅ X) (fuel : ℕ) (p : P) :
    ∃ x, w.update fuel p = .error x ∧ (0 < fuel → x = .nullDeref) := by
  unfold World.update
  cases haxes : w.mapAxes fun a l =>
      l.update w.flagView true fuel p (w.getReal p a) (w.oldRealPosition a p) with
  | error x =>
    refine ⟨x, rfl, fun hf => ?_⟩
    obtain ⟨w', hw', -⟩ := (updateAxes_safe h fuel p).exists_ok (by
      rw [(h.axis .x).listInv.eq_nil_iff.mpr rfl]
      exact hf)
    cases haxes.symm.trans hw'
  | ok w' =>
    obtain ⟨⟨X', hX'⟩, -⟩ := (updateAxes_safe h fuel p).of_eq_ok haxes
    have hfirst : (w'.axis .x).first = none := (hX'.axis .x).listInv.first_eq_none_iff.mpr rfl
    have hdebug : (w'.resetOldRealXYZ p).debug fuel = .error .nullDeref := by
      change ((w'.axis .x).debug fuel (w'.axis .x).first >>= _) = _
      rw [hfirst]
      rfl
    refine ⟨.nullDeref, ?_, fun _ => rfl⟩
    change ((w'.resetOldRealXYZ p).debug fuel >>= _) = _
    rw [hdebug]
    rfl

/-- Both removals begin with an update. -/
lemma removing_null (h : Inv w ∅ X) (fuel : ℕ) (p : P) (rest : World P E α → Except Fault (World P E α)) :
    ∃ x, (((w.addFlag p kCoordinateNodeFlagRemoving).onRemove p).update fuel p >>= rest) = .error x ∧
      (0 < fuel → x = .nullDeref) := by
  obtain ⟨x, hx, hnull⟩ := update_null (h.onRemove kCoordinateNodeFlagRemoving) fuel p
  exact ⟨x, by rw [hx]; rfl, hnull⟩

theorem remove_safe (h : Inv w live X) (hne : live.Nonempty) (fuel : ℕ) :
    Safe .outOfFuel ((X .x).length < fuel) (w.remove fuel p) fun w' =>
      (∃ X', Inv w' live X') ∧ w'.dels ⊆ p :: w.dels := by
  refine (update_safe (h.onRemove kCoordinateNodeFlagRemoving) hne fuel p).bind fun w' hw' => ?_
  obtain ⟨⟨X', hX'⟩, hdels, -⟩ := hw'
  have hsame : w'.dels = w.dels := hdels
  dsimp only
  split_ifs
  · refine ⟨⟨X', hX'.congr rfl rfl rfl rfl⟩, fun q hq => ?_⟩
    exact List.mem_cons_of_mem _ (hsame ▸ hq)
  · refine ⟨⟨X', hX'.congr rfl rfl rfl rfl⟩, fun q hq => ?_⟩
    obtain hq | hq := List.mem_append.mp hq
    · exact List.mem_cons_of_mem _ (hsame ▸ hq)
    · rw [List.mem_singleton.mp hq]
      exact List.mem_cons_self

theorem removeImmediately_safe (h : Inv w live X) (hne : live.Nonempty) (fuel : ℕ) :
    Safe .outOfFuel ((X .x).length < fuel) (w.removeImmediately fuel p) fun w' =>
      (∃ X', Inv w' (live \ {p}) X') ∧ w'.dels = w.dels := by
  refine (update_safe (h.onRemove kCoordinateNodeFlagRemoving) hne fuel p).bind fun w' hw' => ?_
  obtain ⟨⟨X', hX'⟩, hdels, -⟩ := hw'
  have hrem : Inv (w'.addFlag p kCoordinateNodeFlagRemoved) live X' := hX'.congr rfl rfl rfl rfl
  refine ((removeReal_safe hrem).enough fun _ => trivial).weaken fun w'' hw'' => ?_
  exact ⟨hw''.1, hw''.2.1.trans hdels⟩

theorem entityUpdate_safe (h : Inv w live X) (fuel : ℕ) :
    Safe .outOfFuel ((X .x).length < fuel) (w.entityUpdate fuel fuel p) fun w' =>
      (∃ X', Inv w' live X') ∧ w'.dels = w.dels := by
  cases fuel with
  | zero => exact ⟨rfl, by omega⟩
  | succ d =>
    unfold World.entityUpdate
    have hstore : Inv (w.storeOldRealPosition p) live X := h.congr rfl rfl rfl rfl
    have hbase : Safe .outOfFuel ((X .x).length < d + 1)
        ((w.storeOldRealPosition p).nodeUpdate (d + 1) p) fun w' =>
          (∃ X', Inv w' live X') ∧ w'.dels = w.dels := by
      unfold World.nodeUpdate
      split_ifs with hptr
      · have hne : live.Nonempty := ⟨p, (hstore.attached p).mp hptr⟩
        exact (update_safe hstore hne (d + 1) p).weaken fun w' hw' => ⟨hw'.1, hw'.2.1⟩
      · exact ⟨⟨X, hstore⟩, rfl⟩
    refine hbase.bind fun w' hw' => ?_
    obtain ⟨⟨X', hX'⟩, hdels⟩ := hw'
    have hbegin : Inv (w'.beginUpdate p) live X' := hX'.congr rfl rfl rfl rfl
    let I : ℕ → ℕ × World P E α → Prop := fun k c => k = 0 ∧ Inv c.2 live X' ∧ c.2.dels = w.dels
    refine ((whileExcept_safe (Q := fun c => Inv c.2 live X' ∧ c.2.dels = w.dels) I (fun k c hc => ?_)
      ⟨rfl, hbegin, hdels⟩).enough fun hf => Nat.succ_pos d).bind fun c hc => ?_
    · -- no node has a watcher, so the loop ends at once
      dsimp only
      rw [hc.2.1.watchers p]
      exact hc.2
    · have hend : Inv (c.2.endUpdate p) live X' := by
        unfold World.endUpdate
        dsimp only
        split_ifs <;> exact hc.1.congr rfl rfl rfl rfl
      refine ⟨⟨X', clearDelWatcherNodes_inv hend⟩, ?_⟩
      rw [clearDelWatcherNodes_dels, endUpdate_dels]
      exact hc.2

lemma insert_empty (h : Inv w live X) (he : w.isEmpty = true) (fuel : ℕ) :
    Safe .outOfFuel True (w.insert fuel p) fun w' =>
      (∃ X', Inv w' (Set.insert p live) X') ∧ w'.dels = w.dels := by
  have hfirst : ∀ a, (w.axis a).first = none := by
    simp only [World.isEmpty, Bool.and_eq_true, Option.isNone_iff_eq_none] at he
    intro a
    cases a
    · exact he.1.1
    · exact he.1.2
    · exact he.2
  have hnil : ∀ a, X a = [] := fun a => by
    have hf := (h.axis a).linked.first
    rw [hfirst a] at hf
    exact List.head?_eq_none_iff.mp hf.symm
  unfold World.insert
  rw [if_pos he]
  refine ⟨⟨fun _ => [p], fun a => ?_, fun q => ?_, fun _ => rfl, h.watchers⟩, rfl⟩
  · have hax := h.axis a
    rw [hnil a] at hax
    exact hax.singleton p (w.getReal p a)
  · by_cases hq : q = p
    · simp [World.resetOldRealXYZ, hq, Set.insert]
    · simp [World.resetOldRealXYZ, hq, Set.insert, h.attached]

theorem insert_safe (h : Inv w live X) (hp : w.coordinateSystemPtr p = false) (fuel : ℕ) :
    Safe .outOfFuel ((X .x).length + 1 < fuel) (w.insert fuel p) fun w' =>
      (∃ X', Inv w' (Set.insert p live) X') ∧ w'.dels = w.dels := by
  by_cases he : w.isEmpty = true
  · exact (insert_empty h he fuel).enough fun _ => trivial
  have hplive := h.not_live hp
  have hcons : ∀ a, ∃ f L, X a = f :: L := by
    have hx : X .x ≠ [] := fun hnil => he ?_
    · intro a
      have hlen := h.length_eq .x a
      exact List.exists_cons_of_ne_nil fun ha => hx (List.length_eq_zero_iff.mp (by rw [hlen, ha]; rfl))
    · have hnil' : ∀ a, (w.axis a).first = none := fun a => by
        have hlen := h.length_eq .x a
        rw [hnil] at hlen
        rw [(h.axis a).linked.first, List.length_eq_zero_iff.mp hlen.symm]
        rfl
      simp [World.isEmpty, hnil']
  unfold World.insert
  rw [if_neg he]
  dsimp only
  have hpush : ∀ a, Safe .outOfFuel ((X .x).length + 1 < fuel) ((w.axis a).pushFirst p) fun l' =>
      AxisInv l' (Set.insert p live) (p :: X a) := by
    intro a
    obtain ⟨f, L, hX⟩ := hcons a
    have hax := h.axis a
    rw [hX] at hax ⊢
    obtain ⟨l', hl', hinv, -⟩ := hax.push hplive
    rw [hl']
    exact hinv
  refine (mapAxes_safe (w := { w with
    oldRealPosition := fun a => Function.update (w.oldRealPosition a) p ⊥ }) hpush).bind fun w' hw' => ?_
  obtain ⟨hax, hw'⟩ := hw'
  have hinv : Inv { w' with
      coordinateSystemPtr := Function.update w'.coordinateSystemPtr p true
      size := w'.size + 1 } (Set.insert p live) (fun a => p :: X a) := by
    refine ⟨hax, fun q => ?_, fun a => ?_, fun q => ?_⟩
    · have hptr : w'.coordinateSystemPtr = w.coordinateSystemPtr := by rw [hw']
      by_cases hq : q = p
      · simp [hq, Set.insert]
      · simp [hptr, hq, h.attached, Set.insert]
    · have hsize : w'.size = w.size := by rw [hw']
      dsimp only
      rw [hsize, h.size a, List.length_cons, UInt32.ofNat_add]
      rfl
    · have hwatch : w'.watcherNodes = w.watcherNodes := by rw [hw']
      exact hwatch ▸ h.watchers q
  refine ((update_safe hinv ⟨p, Set.mem_insert p live⟩ fuel p).enough fun hf => ?_).weaken fun w'' hw'' => ⟨hw''.1, ?_⟩
  · simpa using hf
  · rw [hw''.2.1, hw']

end Inv

section Runs
variable [DecidableEq E] [OrderBot α] {w : World P E α} {live : Set P} {X : Axis → List P}

/-- The nodes that may wait in `dels_` after an operation. -/
def Op.pending (dels : List P) : Op P E α → List P
  | .remove p => p :: dels
  | _ => dels

/-- One operation on a well-formed system never fails otherwise than by fuel. -/
theorem exec_safe (h : Inv w live X) {op : Op P E α} (hop : op.Allowed w) (hdebug : op.Debuggable live) (fuel : ℕ) :
    Safe .outOfFuel ((X .x).length + 1 < fuel) (w.exec fuel op) fun w' =>
      (∃ X', Inv w' (op.live w live) X') ∧ w'.dels ⊆ op.pending w.dels := by
  have hsame : ∀ w' : World P E α, w'.dels = w.dels → w'.dels ⊆ w.dels := fun w' hw' =>
    hw' ▸ List.Subset.refl _
  cases op with
  | insert p => exact (insert_safe h hop fuel).weaken fun w' hw' => ⟨hw'.1, hsame w' hw'.2⟩
  | setPosition e v => exact ⟨⟨X, h.congr rfl rfl rfl rfl⟩, List.Subset.refl _⟩
  | update p =>
    exact ((update_safe h hdebug fuel p).enough fun hf => by omega).weaken fun w' hw' =>
      ⟨hw'.1, hsame w' hw'.2.1⟩
  | entityUpdate p =>
    exact ((entityUpdate_safe h fuel).enough fun hf => by omega).weaken fun w' hw' =>
      ⟨hw'.1, hsame w' hw'.2⟩
  | remove p => exact (remove_safe h hdebug fuel).enough fun hf => by omega
  | removeImmediately p =>
    exact ((removeImmediately_safe h hdebug fuel).enough fun hf => by omega).weaken fun w' hw' =>
      ⟨hw'.1, hsame w' hw'.2⟩
  | removeDelNodes => exact (removeDelNodes_safe h).enough fun _ => trivial

/-- Without a node the three operations that end with the walks follow a null pointer. -/
lemma exec_null (h : Inv w live X) {op : Op P E α} (hdebug : ¬op.Debuggable live) (fuel : ℕ) :
    ∃ x, w.exec fuel op = .error x ∧ (0 < fuel → x = .nullDeref) := by
  cases op with
  | update p =>
    obtain rfl := Set.not_nonempty_iff_eq_empty.mp hdebug
    exact update_null h fuel p
  | remove p | removeImmediately p =>
    obtain rfl := Set.not_nonempty_iff_eq_empty.mp hdebug
    exact removing_null h fuel p _
  | _ => exact absurd trivial hdebug

lemma debuggable_of_ok (h : Inv w live X) {op : Op P E α} {fuel : ℕ} {w' : World P E α}
    (hok : w.exec fuel op = .ok w') : op.Debuggable live := by
  by_contra hdebug
  obtain ⟨x, hx, -⟩ := exec_null h hdebug fuel
  cases hok.symm.trans hx

/-- What an operation that has come to its end keeps. -/
lemma exec_inv (h : Inv w live X) {op : Op P E α} (hop : op.Allowed w) {fuel : ℕ} {w' : World P E α}
    (hok : w.exec fuel op = .ok w') : (∃ X', Inv w' (op.live w live) X') ∧ w'.dels ⊆ op.pending w.dels :=
  (exec_safe h hop (debuggable_of_ok h hok) fuel).of_eq_ok hok

omit [DecidableEq P] [DecidableEq E] [OrderBot α] in
theorem fresh_inv (h : w.Fresh) : Inv w ∅ fun _ => [] where
  axis a := by
    refine ⟨⟨List.nodup_nil, (h.axis a).1, ?_, ?_⟩, .nil, by simp, fun p _ => (h.axis a).2 p⟩
    · intro A x B hs
      simp at hs
    · intro A x B hs
      simp at hs
  attached p := by simp [h.coordinateSystemPtr]
  size a := h.size
  watchers := h.watcherNodes

theorem reachable_inv {s : World P E α × Set P} (h : Reachable (coordinateRuns P E α) s) :
    ∃ X, Inv s.1 s.2 X := by
  refine h.invariant (I := fun s => ∃ X, Inv s.1 s.2 X) ?_ ?_
  · intro s hs
    obtain ⟨hf, he⟩ := hs
    exact ⟨fun _ => [], he ▸ fresh_inv hf⟩
  · intro s op t hX hstep
    obtain ⟨X, hX⟩ := hX
    obtain ⟨hop, ⟨fuel, hex⟩, hlive⟩ := hstep
    obtain ⟨⟨X', hX'⟩, -⟩ := exec_inv hX hop hex
    exact ⟨X', hlive ▸ hX'⟩

/-- The three lists link the same nodes `live`, in the order of their stored
coordinates, and `size_` counts them in its 32 bits. -/
structure CrossLists (w : World P E α) (live : Set P) (X : Axis → List P) : Prop where
  linked : ∀ a, (w.axis a).Linked (X a)
  sorted : ∀ a, Sorted (w.axis a).pos (X a)
  mem : ∀ a p, p ∈ X a ↔ p ∈ live
  size : ∀ a, w.size.toNat = (X a).length % 2 ^ 32

omit [DecidableEq P] [DecidableEq E] [OrderBot α] in
lemma Inv.crossLists (h : Inv w live X) : CrossLists w live X where
  linked a := (h.axis a).linked
  sorted a := (h.axis a).sorted
  mem a := (h.axis a).mem
  size a := by rw [h.size a, UInt32.toNat_ofNat']

/-- In every state of every run the lists are well formed, and no operation runs into an assertion. Each ends with
enough fuel, and follows a null pointer just when the walks at its end begin in a system without nodes. -/
theorem crossLists_wellFormed {s : World P E α × Set P} (h : Reachable (coordinateRuns P E α) s) :
    (∃ X, CrossLists s.1 s.2 X) ∧ ∀ op : Op P E α, op.Allowed s.1 →
      (op.Debuggable s.2 → (∀ fuel e, s.1.exec fuel op = .error e → e = .outOfFuel) ∧
        ∃ n, ∀ fuel, n < fuel → ∃ w', s.1.exec fuel op = .ok w') ∧
      (¬op.Debuggable s.2 → ∀ fuel, 0 < fuel → s.1.exec fuel op = .error .nullDeref) := by
  obtain ⟨X, hX⟩ := reachable_inv h
  refine ⟨⟨X, hX.crossLists⟩, fun op hop => ⟨fun hdebug => ⟨fun fuel e he => ?_, (X .x).length + 1, fun fuel hf => ?_⟩,
    fun hdebug fuel hf => ?_⟩⟩
  · exact (exec_safe hX hop hdebug fuel).error_eq he
  · obtain ⟨w', hw', -⟩ := (exec_safe hX hop hdebug fuel).exists_ok hf
    exact ⟨w', hw'⟩
  · obtain ⟨x, hx, hnull⟩ := exec_null hX hdebug fuel
    rw [hx, hnull hf]

end Runs

section ManyNodes

/-- A system without nodes; all entities stand at the least coordinate. -/
def emptyWorld : World UInt64 Unit ℕ where
  axis _ := { pos := fun _ => 0 }
  oldRealPosition _ _ := 0
  entityPtr _ := some ()
  entityPosition _ _ := 0
  flags _ := kCoordinateNodeFlagEntity
  coordinateSystemPtr _ := false
  watcherNodes _ := []
  deleteWatcherNodeNum _ := 0
  entityNodeUpdating _ := 0
  size := 0
  delsCount := 0
  dels := []

lemma emptyWorld_fresh : emptyWorld.Fresh :=
  ⟨fun _ => ⟨rfl, fun _ => ⟨rfl, rfl⟩⟩, fun _ => rfl, fun _ => rfl, rfl, rfl, rfl⟩

/-- The nodes at the first `n` non-null addresses. -/
def firstNodes (n : ℕ) : Set UInt64 := {p | 1 ≤ p.toNat ∧ p.toNat < 1 + n}

lemma reachable_nodes (n : ℕ) (hn : n < 2 ^ 64) :
    ∃ w, Reachable (coordinateRuns UInt64 Unit ℕ) (w, firstNodes n) := by
  induction n with
  | zero =>
    refine ⟨emptyWorld, .init ⟨emptyWorld_fresh, ?_⟩⟩
    ext p
    simp only [firstNodes, Set.mem_ofPred_eq, Set.mem_empty_iff_false, iff_false]
    omega
  | succ n ih =>
    obtain ⟨w, hw⟩ := ih (by omega)
    obtain ⟨X, hX⟩ := reachable_inv hw
    have hp : (UInt64.ofNat (1 + n)).toNat = 1 + n := by
      rw [UInt64.toNat_ofNat']
      exact Nat.mod_eq_of_lt (by omega)
    have hop : (Op.insert (UInt64.ofNat (1 + n)) : Op UInt64 Unit ℕ).Allowed w := by
      have hnot : UInt64.ofNat (1 + n) ∉ firstNodes n := fun hm => by
        have hlt := hm.2
        omega
      exact Bool.eq_false_iff.mpr fun ht => hnot ((hX.attached _).mp ht)
    obtain ⟨w', hw', -⟩ := (exec_safe hX hop trivial _).exists_ok (Nat.lt_succ_self _)
    refine ⟨w', hw.step ⟨hop, ⟨_, hw'⟩, ?_⟩⟩
    ext p
    simp only [firstNodes, Set.mem_ofPred_eq, Op.live, Set.insert, ← UInt64.toNat_inj, hp]
    omega

lemma length_of_addresses {L : List UInt64} {n : ℕ} (hnd : L.Nodup) (hn : n < 2 ^ 64)
    (hmem : ∀ p, p ∈ L ↔ p ∈ firstNodes n) : L.length = n := by
  have hperm : (L.map UInt64.toNat).Perm (List.range' 1 n) := by
    refine (List.perm_ext_iff_of_nodup ?_ List.nodup_range').mpr fun k => ?_
    · exact hnd.map fun a b hab => UInt64.toNat_inj.mp hab
    · rw [List.mem_map, List.mem_range'_1]
      constructor
      · intro h
        obtain ⟨p, hp, rfl⟩ := h
        exact (hmem p).mp hp
      · intro hk
        have hkn : (UInt64.ofNat k).toNat = k := by
          rw [UInt64.toNat_ofNat']
          exact Nat.mod_eq_of_lt (by omega)
        exact ⟨UInt64.ofNat k, (hmem _).mpr (show _ ∧ _ by rwa [hkn]), hkn⟩
  rw [← List.length_map UInt64.toNat, hperm.length_eq, List.length_range']

/-- With 2^32 nodes the counter has come back to zero. -/
theorem size_wraps : ¬ ∀ s, Reachable (coordinateRuns UInt64 Unit ℕ) s →
    ∃ X : Axis → List UInt64, (∀ a, (s.1.axis a).Linked (X a)) ∧ (∀ a p, p ∈ X a ↔ p ∈ s.2) ∧
      ∀ a, s.1.size.toNat = (X a).length := by
  intro hall
  obtain ⟨w, hw⟩ := reachable_nodes (2 ^ 32) (by norm_num)
  obtain ⟨X, hlinked, hmem, hsize⟩ := hall _ hw
  have hlen := length_of_addresses (hlinked .x).nodup (by norm_num) (hmem .x)
  have hlt := w.size.toNat_lt
  rw [hsize .x, hlen] at hlt
  exact lt_irrefl _ hlt

theorem crossLists_wellFormed_three_nodes :
    ∃ w, Reachable (coordinateRuns UInt64 Unit ℕ) (w, firstNodes 3) ∧
      ∃ X, CrossLists w (firstNodes 3) X := by
  obtain ⟨w, hw⟩ := reachable_nodes 3 (by norm_num)
  exact ⟨w, hw, (crossLists_wellFormed hw).1⟩

end ManyNodes

end TyphoonZero.Coordinate
