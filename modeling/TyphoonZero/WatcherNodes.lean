import TyphoonZero.CoordinateSystem

/-! The watchers of an entity node. A removed watcher leaves a null slot while the node
is updated or removed; what runs inside an update may use the list again. -/
namespace TyphoonZero.Coordinate
open Transition

namespace World
variable {P E α : Type} [DecidableEq P] (w : World P E α)

/-- `AddWatcherNode`, with its result. -/
def addWatcherNode (p q : P) : World P E α × Bool :=
  let w := w.clearDelWatcherNodes p
  if some q ∈ w.watcherNodes p then (w, false)
  else
    ({ w with watcherNodes := Function.update w.watcherNodes p (w.watcherNodes p ++ [some q]) }, true)

/-- `DelWatcherNode`, with its result. A watcher that is not found leaves the iterator at
the end, where the code writes or erases: `none`. -/
def delWatcherNode (p q : P) : Option (World P E α × Bool) :=
  if some q ∈ w.watcherNodes p then some (w, false) else none

/-- The test of `DelWatcherNode` and `ClearDelWatcherNodes`. -/
def keepsSlots (p : P) : Bool :=
  w.hasFlag p (kCoordinateNodeFlagUpdating ||| kCoordinateNodeFlagRemoved ||| kCoordinateNodeFlagRemoving)

end World

/-- An `Update` that is running: the index of its loop, the watchers that it updated, and
those that were there all the time since it began. -/
structure Frame (P : Type) where
  index : ℕ := 0
  visited : Set P := ∅
  present : Set P

/-- The updates of the node are nested, the innermost first; `members` are the watchers
added and not deleted since. -/
structure WatchState (P E α : Type) where
  world : World P E α
  frames : List (Frame P) := []
  members : Set P := ∅

namespace WatchState

inductive Op (P : Type)
  | add (q : P)
  | del (q : P)
  | onRemove
  | beginUpdate
  | turn
  | endUpdate
  | other

section Steps
variable {P E α : Type} [DecidableEq P] (p : P)

/-- What other code leaves as it is: the fields of the list and the flag of an update. -/
structure Keeps (w w' : World P E α) : Prop where
  watcherNodes : w'.watcherNodes p = w.watcherNodes p
  deleteWatcherNodeNum : w'.deleteWatcherNodeNum p = w.deleteWatcherNodeNum p
  entityNodeUpdating : w'.entityNodeUpdating p = w.entityNodeUpdating p
  updating : w'.hasFlag p kCoordinateNodeFlagUpdating = w.hasFlag p kCoordinateNodeFlagUpdating

/-- One turn of the loop of `Update`: the watcher of the slot, if there is one, is updated
by the steps that follow. -/
def Frame.turn (f : Frame P) (slot : Option P) : Frame P :=
  { f with index := f.index + 1, visited := f.visited ∪ {q | slot = some q} }

/-- The steps of a node `p`. Between two turns of the loop of an update any other step can happen. -/
inductive Step : WatchState P E α → Op P → WatchState P E α → Prop
  | add (s : WatchState P E α) (q : P) :
    Step s (.add q) { s with world := (s.world.addWatcherNode p q).1, members := insert q s.members }
  | del (s : WatchState P E α) (q : P) (r : World P E α × Bool) (h : s.world.delWatcherNode p q = some r) :
    Step s (.del q)
      { world := r.1
        frames := s.frames.map fun f => { f with present := f.present \ {q} }
        members := s.members \ {q} }
  | onRemove (s : WatchState P E α) :
    Step s .onRemove
      { world := s.world.onRemove p
        frames := s.frames.map fun f => { f with present := ∅ }
        members := ∅ }
  | beginUpdate (s : WatchState P E α) :
    Step s .beginUpdate
      { s with world := s.world.beginUpdate p, frames := { present := s.members } :: s.frames }
  | turn (s : WatchState P E α) (f : Frame P) (rest : List (Frame P)) (slot : Option P)
    (hf : s.frames = f :: rest) (hslot : (s.world.watcherNodes p)[f.index]? = some slot) :
    Step s .turn { s with frames := Frame.turn f slot :: rest }
  | endUpdate (s : WatchState P E α) (f : Frame P) (rest : List (Frame P)) (hf : s.frames = f :: rest)
    (hend : (s.world.watcherNodes p).length ≤ f.index) :
    Step s .endUpdate { s with world := (s.world.endUpdate p).clearDelWatcherNodes p, frames := rest }
  | other (s : WatchState P E α) (w' : World P E α) (h : Keeps p s.world w') :
    Step s .other { s with world := w' }

/-- A node without watchers that is not updated. -/
structure Fresh (s : WatchState P E α) : Prop where
  watcherNodes : s.world.watcherNodes p = []
  deleteWatcherNodeNum : s.world.deleteWatcherNodeNum p = 0
  entityNodeUpdating : s.world.entityNodeUpdating p = 0
  updating : s.world.hasFlag p kCoordinateNodeFlagUpdating = false
  frames : s.frames = []
  members : s.members = ∅

def watcherRuns (P E α : Type) [DecidableEq P] (p : P) : System (WatchState P E α) (Op P) where
  init s := Fresh p s
  step := Step p

/-- The bookkeeping of the list in one state. -/
structure Kept (s : WatchState P E α) : Prop where
  nulls : s.world.deleteWatcherNodeNum p = (s.world.watcherNodes p).count none
  members : ∀ q, some q ∈ s.world.watcherNodes p ↔ q ∈ s.members
  once : ((s.world.watcherNodes p).filter Option.isSome).Nodup
  deferred : s.world.keepsSlots p = true → s.world.clearDelWatcherNodes p = s.world
  cleared : s.world.keepsSlots p = false →
    (s.world.clearDelWatcherNodes p).watcherNodes p = (s.world.watcherNodes p).filter Option.isSome ∧
      (s.world.clearDelWatcherNodes p).deleteWatcherNodeNum p = 0
  visited : ∀ f rest, s.frames = f :: rest → (s.world.watcherNodes p).length ≤ f.index → f.present ⊆ f.visited

/-- What `DelWatcherNode` should do with a watcher. -/
def Deletes (w : World P E α) (q : P) : Prop :=
  if some q ∈ w.watcherNodes p then ∃ w', w.delWatcherNode p q = some (w', true) ∧ some q ∉ w'.watcherNodes p
  else w.delWatcherNode p q = some (w, false)

def NoDel (op : Op P) : Prop := ∀ q, op ≠ .del q

end Steps

section Lemmas
variable {P E α : Type} [DecidableEq P] {w : World P E α} {p q : P}

lemma and_or_left (x a b : UInt16) : x &&& (a ||| b) = x &&& a ||| x &&& b := by
  rw [← UInt16.toBitVec_inj]
  simp only [UInt16.toBitVec_and, UInt16.toBitVec_or, BitVec.and_or_distrib_left]

omit [DecidableEq P] in
lemma hasFlag_or (w : World P E α) (p : P) (a b : UInt16) :
    w.hasFlag p (a ||| b) = true ↔ w.hasFlag p a = true ∨ w.hasFlag p b = true := by
  simp only [World.hasFlag, decide_eq_true_eq]
  rw [and_or_left, Ne, UInt16.or_eq_zero_iff, not_and_or]

lemma hasFlag_beginUpdate (w : World P E α) (p : P) :
    (w.beginUpdate p).hasFlag p kCoordinateNodeFlagUpdating = true := by
  have hflags : (w.beginUpdate p).flags p = w.flags p ||| kCoordinateNodeFlagUpdating := Function.update_self ..
  rw [World.hasFlag, hflags, decide_eq_true_eq, UInt16.and_comm, and_or_left, Ne, UInt16.or_eq_zero_iff, not_and_or]
  exact .inr (by decide)

omit [DecidableEq P] in
lemma keepsSlots_of_updating (h : w.hasFlag p kCoordinateNodeFlagUpdating = true) : w.keepsSlots p = true :=
  (hasFlag_or w p _ _).mpr (.inl ((hasFlag_or w p _ _).mpr (.inl h)))

lemma clearDelWatcherNodes_deferred (h : w.keepsSlots p = true) : w.clearDelWatcherNodes p = w := if_pos h

lemma filter_isSome_of_count {l : List (Option P)} (h : l.count none = 0) : l.filter Option.isSome = l := by
  refine List.filter_eq_self.mpr fun slot hslot => ?_
  cases slot with
  | none => exact absurd hslot (List.count_eq_zero.mp h)
  | some q => rfl

/-- With the right number of null slots the loop erases them all. -/
lemma eraseDelWatchers_eq {l : List (Option P)} {n : ℤ} (hn : n = l.count none) (hpos : 0 < n) :
    World.eraseDelWatchers l n = (l.filter Option.isSome, 0) := by
  induction l generalizing n with
  | nil =>
    rw [List.count_nil] at hn
    omega
  | cons slot l ih =>
    cases slot with
    | none =>
      rw [List.count_cons_self] at hn
      rw [World.eraseDelWatchers, List.filter_cons_of_neg (by simp)]
      split_ifs with hlast
      · rw [filter_isSome_of_count (by omega), show n - 1 = 0 by omega]
      · exact ih (by omega) (by omega)
    | some q =>
      rw [List.count_cons_of_ne (by simp)] at hn
      rw [World.eraseDelWatchers, ih hn hpos, List.filter_cons_of_pos (by simp)]

/-- What clearing does when the counter is right: nothing while it is deferred, else the
null slots go. -/
lemma clearDelWatcherNodes_fields (hn : w.deleteWatcherNodeNum p = (w.watcherNodes p).count none)
    (h : w.keepsSlots p = false) :
    (w.clearDelWatcherNodes p).watcherNodes p = (w.watcherNodes p).filter Option.isSome ∧
      (w.clearDelWatcherNodes p).deleteWatcherNodeNum p = 0 := by
  rw [World.clearDelWatcherNodes, if_neg (by rw [World.keepsSlots] at h; rw [h]; exact Bool.false_ne_true)]
  split_ifs with hpos
  · simp [eraseDelWatchers_eq hn hpos]
  · have hzero : (w.watcherNodes p).count none = 0 := by omega
    rw [filter_isSome_of_count hzero, hn, hzero]
    exact ⟨rfl, rfl⟩

lemma clearDelWatcherNodes_rest (w : World P E α) (p : P) :
    (w.clearDelWatcherNodes p).flags = w.flags ∧
      (w.clearDelWatcherNodes p).entityNodeUpdating = w.entityNodeUpdating := by
  unfold World.clearDelWatcherNodes
  split_ifs <;> exact ⟨rfl, rfl⟩

/-- The counter and the slots for the watchers `members`. -/
structure Listed (p : P) (w : World P E α) (members : Set P) : Prop where
  nulls : w.deleteWatcherNodeNum p = (w.watcherNodes p).count none
  members : ∀ q, some q ∈ w.watcherNodes p ↔ q ∈ members
  once : ((w.watcherNodes p).filter Option.isSome).Nodup

variable {members : Set P}

lemma Listed.congr {w' : World P E α} (h : Listed p w members) (hnodes : w'.watcherNodes p = w.watcherNodes p)
    (hnum : w'.deleteWatcherNodeNum p = w.deleteWatcherNodeNum p) : Listed p w' members :=
  ⟨by rw [hnum, hnodes, h.nulls], by rw [hnodes]; exact h.members, by rw [hnodes]; exact h.once⟩

lemma count_none_filter (l : List (Option P)) : (l.filter Option.isSome).count none = 0 := by
  refine List.count_eq_zero.mpr fun h => ?_
  simpa using (List.mem_filter.mp h).2

lemma Listed.clear (h : Listed p w members) : Listed p (w.clearDelWatcherNodes p) members := by
  cases hk : w.keepsSlots p with
  | true => rwa [clearDelWatcherNodes_deferred hk]
  | false =>
    obtain ⟨hnodes, hnum⟩ := clearDelWatcherNodes_fields h.nulls hk
    refine ⟨?_, fun q => ?_, ?_⟩
    · rw [hnum, hnodes, count_none_filter]
      rfl
    · rw [hnodes, List.mem_filter, ← h.members q]
      exact and_iff_left rfl
    · rw [hnodes, List.filter_filter]
      simpa using h.once

lemma Listed.add (h : Listed p w members) (q : P) :
    Listed p (w.addWatcherNode p q).1 (insert q members) := by
  have hc := h.clear
  unfold World.addWatcherNode
  dsimp only
  split_ifs with hq
  · rwa [Set.insert_eq_of_mem ((hc.members q).mp hq)]
  · refine ⟨?_, fun q' => ?_, ?_⟩
    · dsimp only
      rw [Function.update_self, List.count_append, hc.nulls]
      simp
    · dsimp only
      rw [Function.update_self, List.mem_append, hc.members, List.mem_singleton, Option.some.injEq,
        Set.mem_insert_iff, or_comm]
    · dsimp only
      rw [Function.update_self, List.filter_append]
      refine List.nodup_append.mpr ⟨hc.once, by simp, ?_⟩
      rintro slot hslot _ hlast rfl
      obtain rfl := List.mem_singleton.mp (List.mem_filter.mp hlast).1
      exact hq (List.mem_filter.mp hslot).1

omit [DecidableEq P] in
lemma filter_map_none (l : List (Option P)) : (l.map fun _ => (none : Option P)).filter Option.isSome = [] := by
  refine List.filter_eq_nil_iff.mpr fun slot hslot => ?_
  obtain ⟨_, _, rfl⟩ := List.mem_map.mp hslot
  exact Bool.false_ne_true

lemma count_add_length (l : List (Option P)) : l.count none + (l.filter Option.isSome).length = l.length := by
  induction l with
  | nil => rfl
  | cons slot l ih =>
    cases slot with
    | none =>
      rw [List.count_cons_self, List.filter_cons_of_neg (by simp), List.length_cons]
      omega
    | some q =>
      rw [List.count_cons_of_ne (by simp), List.filter_cons_of_pos (by simp), List.length_cons, List.length_cons]
      omega

lemma Listed.onRemove (h : Listed p w members) : Listed p (w.onRemove p) ∅ := by
  have hnodes : (w.onRemove p).watcherNodes p = (w.watcherNodes p).map fun _ => none := Function.update_self ..
  have hnum : (w.onRemove p).deleteWatcherNodeNum p =
      w.deleteWatcherNodeNum p + ((w.watcherNodes p).filter Option.isSome).length := Function.update_self ..
  have hcount := count_add_length (w.watcherNodes p)
  refine ⟨?_, fun q => ?_, ?_⟩
  · rw [hnum, hnodes, h.nulls, List.map_const', List.count_replicate_self]
    omega
  · rw [hnodes]
    simp
  · rw [hnodes, filter_map_none]
    exact List.nodup_nil

end Lemmas

/-- What holds between any two steps. While an update runs, the slots keep their places,
and who was there all the time was visited or is still ahead. -/
structure Inv {P E α : Type} [DecidableEq P] (p : P) (s : WatchState P E α) : Prop where
  listed : Listed p s.world s.members
  counted : s.world.entityNodeUpdating p = s.frames.length
  updating : s.frames ≠ [] → s.world.hasFlag p kCoordinateNodeFlagUpdating = true
  ahead : ∀ f ∈ s.frames, ∀ q ∈ f.present, q ∈ f.visited ∨
    ∃ j, f.index ≤ j ∧ (s.world.watcherNodes p)[j]? = some (some q)

section Invariant
variable {P E α : Type} [DecidableEq P] {p q : P} {s : WatchState P E α}

lemma inv_fresh (h : Fresh p s) : Inv p s := by
  refine ⟨⟨?_, fun q => ?_, ?_⟩, ?_, fun hne => absurd h.frames hne, ?_⟩
  · rw [h.deleteWatcherNodeNum, h.watcherNodes]
    rfl
  · rw [h.watcherNodes, h.members]
    simp
  · rw [h.watcherNodes]
    exact List.nodup_nil
  · rw [h.entityNodeUpdating, h.frames]
    rfl
  · rw [h.frames]
    nofun

/-- While an update runs the list only grows. -/
lemma addWatcherNode_get {w : World P E α} (h : w.hasFlag p kCoordinateNodeFlagUpdating = true) {j : ℕ}
    {slot : Option P} (hj : (w.watcherNodes p)[j]? = some slot) :
    ((w.addWatcherNode p q).1.watcherNodes p)[j]? = some slot := by
  unfold World.addWatcherNode
  rw [clearDelWatcherNodes_deferred (keepsSlots_of_updating h)]
  dsimp only
  split_ifs
  · exact hj
  · dsimp only
    rw [Function.update_self, List.getElem?_append_left (List.getElem?_eq_some_iff.mp hj).1, hj]

lemma addWatcherNode_rest (w : World P E α) (p q : P) :
    (w.addWatcherNode p q).1.flags = w.flags ∧ (w.addWatcherNode p q).1.entityNodeUpdating = w.entityNodeUpdating := by
  unfold World.addWatcherNode
  dsimp only
  split_ifs
  · exact clearDelWatcherNodes_rest w p
  · exact clearDelWatcherNodes_rest w p

lemma Inv.add (h : Inv p s) (q : P) :
    Inv p { s with world := (s.world.addWatcherNode p q).1, members := insert q s.members } := by
  obtain ⟨hflags, hcount⟩ := addWatcherNode_rest s.world p q
  refine ⟨h.listed.add q, by rw [hcount]; exact h.counted, fun hne => ?_, fun f hf q' hq' => ?_⟩
  · rw [World.hasFlag, hflags]
    exact h.updating hne
  · refine (h.ahead f hf q' hq').imp_right ?_
    rintro ⟨j, hle, hj⟩
    exact ⟨j, hle, addWatcherNode_get (h.updating (List.ne_nil_of_mem hf)) hj⟩

lemma Inv.onRemove (h : Inv p s) : Inv p
    { world := s.world.onRemove p
      frames := s.frames.map fun f => { f with present := ∅ }
      members := ∅ } := by
  refine ⟨h.listed.onRemove, ?_, fun hne => ?_, fun f hf q hq => ?_⟩
  · rw [List.length_map]
    exact h.counted
  · exact h.updating fun hnil => hne (by rw [hnil]; rfl)
  · obtain ⟨f', -, rfl⟩ := List.mem_map.mp hf
    exact hq.elim

lemma Inv.beginUpdate (h : Inv p s) :
    Inv p { s with world := s.world.beginUpdate p, frames := { present := s.members } :: s.frames } := by
  refine ⟨h.listed.congr rfl rfl, ?_, fun _ => ?_, fun f hf q hq => ?_⟩
  · have hcount : (s.world.beginUpdate p).entityNodeUpdating p = s.world.entityNodeUpdating p + 1 :=
      Function.update_self ..
    rw [hcount, h.counted, List.length_cons]
    rfl
  · exact hasFlag_beginUpdate s.world p
  · rcases List.mem_cons.mp hf with rfl | hf
    · right
      obtain ⟨j, hj⟩ := List.getElem?_of_mem ((h.listed.members q).mpr hq)
      exact ⟨j, Nat.zero_le j, hj⟩
    · exact h.ahead f hf q hq

lemma Inv.turn (h : Inv p s) {f : Frame P} {rest : List (Frame P)} {slot : Option P} (hf : s.frames = f :: rest)
    (hslot : (s.world.watcherNodes p)[f.index]? = some slot) :
    Inv p { s with frames := Frame.turn f slot :: rest } := by
  have hmem : f ∈ s.frames := hf ▸ List.mem_cons_self
  refine ⟨h.listed, ?_, fun _ => h.updating (List.ne_nil_of_mem hmem), fun g hg q hq => ?_⟩
  · have hcount := h.counted
    rwa [hf] at hcount
  · rcases List.mem_cons.mp hg with rfl | hg
    · rcases h.ahead f hmem q hq with hv | ⟨j, hle, hj⟩
      · exact .inl (.inl hv)
      · rcases Nat.eq_or_lt_of_le hle with rfl | hlt
        · rw [hslot] at hj
          exact .inl (.inr (Option.some.inj hj))
        · exact .inr ⟨j, hlt, hj⟩
    · exact h.ahead g (hf ▸ List.mem_cons_of_mem _ hg) q hq

lemma Inv.endUpdate (h : Inv p s) {f : Frame P} {rest : List (Frame P)} (hf : s.frames = f :: rest) :
    Inv p { s with world := (s.world.endUpdate p).clearDelWatcherNodes p, frames := rest } := by
  have hcounted := h.counted
  rw [hf, List.length_cons] at hcounted
  have hkept : (s.world.endUpdate p).watcherNodes = s.world.watcherNodes ∧
      (s.world.endUpdate p).deleteWatcherNodeNum = s.world.deleteWatcherNodeNum ∧
      (s.world.endUpdate p).entityNodeUpdating p = rest.length ∧
      (rest ≠ [] → (s.world.endUpdate p).flags = s.world.flags) := by
    have hminus : s.world.entityNodeUpdating p - 1 = rest.length := by omega
    unfold World.endUpdate
    dsimp only
    split_ifs with h0
    · refine ⟨rfl, rfl, ?_, fun hne => ?_⟩
      · exact (Function.update_self ..).trans hminus
      · rw [Function.update_self, hminus] at h0
        exact absurd (List.length_eq_zero_iff.mp (by exact_mod_cast h0)) hne
    · exact ⟨rfl, rfl, (Function.update_self ..).trans hminus, fun _ => rfl⟩
  obtain ⟨hnodes, hnum, hcount, hflags⟩ := hkept
  obtain ⟨hflags', hcount'⟩ := clearDelWatcherNodes_rest (s.world.endUpdate p) p
  have hlisted : Listed p (s.world.endUpdate p) s.members := h.listed.congr (by rw [hnodes]) (by rw [hnum])
  have hupdating : rest ≠ [] → (s.world.endUpdate p).hasFlag p kCoordinateNodeFlagUpdating = true := by
    intro hne
    rw [World.hasFlag, hflags hne]
    exact h.updating (by rw [hf]; exact List.cons_ne_nil _ _)
  refine ⟨hlisted.clear, by rw [hcount', hcount], fun hne => ?_, fun g hg q hq => ?_⟩
  · rw [World.hasFlag, hflags']
    exact hupdating hne
  · rw [clearDelWatcherNodes_deferred (keepsSlots_of_updating (hupdating (List.ne_nil_of_mem hg))), hnodes]
    exact h.ahead g (hf ▸ List.mem_cons_of_mem _ hg) q hq

lemma Inv.other (h : Inv p s) {w' : World P E α} (hk : Keeps p s.world w') : Inv p { s with world := w' } := by
  refine ⟨h.listed.congr hk.watcherNodes hk.deleteWatcherNodeNum, ?_, fun hne => ?_, fun f hf q hq => ?_⟩
  · rw [hk.entityNodeUpdating]
    exact h.counted
  · rw [hk.updating]
    exact h.updating hne
  · rw [hk.watcherNodes]
    exact h.ahead f hf q hq

/-- One step that is no deletion. -/
lemma Step.inv {op : Op P} {t : WatchState P E α} (hs : Step p s op t) (hop : NoDel op) (h : Inv p s) : Inv p t := by
  cases hs with
  | add q => exact h.add q
  | del q r hr => exact absurd rfl (hop q)
  | onRemove => exact h.onRemove
  | beginUpdate => exact h.beginUpdate
  | turn f rest slot hf hslot => exact h.turn hf hslot
  | endUpdate f rest hf hend => exact h.endUpdate hf
  | other w' hk => exact h.other hk

lemma Inv.kept (h : Inv p s) : Kept p s := by
  refine ⟨h.listed.nulls, h.listed.members, h.listed.once, clearDelWatcherNodes_deferred,
    clearDelWatcherNodes_fields h.listed.nulls, fun f rest hf hend q hq => ?_⟩
  rcases h.ahead f (hf ▸ List.mem_cons_self) q hq with hv | ⟨j, hle, hj⟩
  · exact hv
  · have hlt := (List.getElem?_eq_some_iff.mp hj).1
    omega

/-- `DelWatcherNode` tests the wrong way round: it never does what it should. -/
lemma not_deletes (w : World P E α) (q : P) : ¬ Deletes p w q := by
  unfold Deletes World.delWatcherNode
  split_ifs with hq
  · rintro ⟨w', h, -⟩
    cases h
  · nofun

end Invariant

end WatchState

/-- In every run without `DelWatcherNode` the bookkeeping of the watchers is right in every
state, and no call of `DelWatcherNode` does what it should. -/
theorem watchers_kept {P E α : Type} [DecidableEq P] (p : P) :
    (∀ s : WatchState P E α, Reachable ((WatchState.watcherRuns P E α p).restrict fun _ => WatchState.NoDel) s →
      WatchState.Kept p s) ∧
    ∀ (w : World P E α) (q : P), ¬ WatchState.Deletes p w q := by
  refine ⟨fun s hs => ?_, fun w q => WatchState.not_deletes w q⟩
  refine (hs.invariant (I := WatchState.Inv p) (fun _ h => WatchState.inv_fresh h) ?_).kept
  rintro s op t h ⟨hop, hstep⟩
  exact WatchState.Step.inv hstep hop h

namespace WatchState

/-- Node 0 without watchers. -/
def alone : WatchState ℕ ℕ ℕ where
  world :=
    { axis := fun _ => { pos := fun _ => 0 }
      oldRealPosition := fun _ _ => 0
      entityPtr := fun _ => none
      entityPosition := fun _ _ => 0
      flags := fun _ => kCoordinateNodeFlagEntity
      coordinateSystemPtr := fun _ => false
      watcherNodes := fun _ => []
      deleteWatcherNodeNum := fun _ => 0
      entityNodeUpdating := fun _ => 0
      size := 0
      delsCount := 0
      dels := [] }

lemma alone_fresh : Fresh 0 alone := ⟨rfl, rfl, rfl, rfl, rfl, rfl⟩

/-- Node 1 watches it. -/
def watched : WatchState ℕ ℕ ℕ :=
  { alone with world := (alone.world.addWatcherNode 0 1).1, members := insert 1 alone.members }

theorem watched_kept : Kept 0 watched ∧ ¬ Deletes 0 watched.world 1 := by
  refine ⟨(watchers_kept 0).1 watched ?_, (watchers_kept 0).2 watched.world 1⟩
  have hno : NoDel (Op.add 1) := fun q h => by cases h
  exact (Reachable.init (S := (watcherRuns ℕ ℕ ℕ 0).restrict fun _ => NoDel) alone_fresh).step ⟨hno, Step.add alone 1⟩

/-- `DelWatcherNode` of the only watcher: the answer is `false` and the watcher stays. -/
theorem watcher_stays : watched.world.delWatcherNode 0 1 = some (watched.world, false) ∧
    ∃ s, Reachable (watcherRuns ℕ ℕ ℕ 0) s ∧ some 1 ∈ s.world.watcherNodes 0 ∧ ¬ Kept 0 s := by
  have hdel : watched.world.delWatcherNode 0 1 = some (watched.world, false) := rfl
  have hadd : Reachable (watcherRuns ℕ ℕ ℕ 0) watched := (Reachable.init alone_fresh).step (Step.add alone 1)
  refine ⟨hdel, _, hadd.step (Step.del watched 1 _ hdel), List.mem_singleton.mpr rfl, fun h => ?_⟩
  exact ((h.members 1).mp (List.mem_singleton.mpr rfl)).2 rfl

end WatchState

end TyphoonZero.Coordinate
