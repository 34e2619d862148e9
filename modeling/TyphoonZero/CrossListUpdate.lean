import TyphoonZero.CrossListMove

/-! `Update` on one axis. The other nodes keep their order; the updated node is
carried over them to the place its coordinate belongs to. -/
namespace TyphoonZero.CrossList
open Loop LinkedChain

variable {P α : Type*} [DecidableEq P] [LinearOrder α]

/-- Sorted by stored coordinate. -/
abbrev Sorted (pos : P → α) (L : List P) : Prop := L.Pairwise fun a b => pos a ≤ pos b

section Notify
omit [DecidableEq P] [LinearOrder α]
variable {l : AxisList P α} {flags : FlagView P} {front : Bool} {n c : P}

@[simp] lemma notify_first : (l.notify flags front n c).first = l.first := by
  unfold AxisList.notify; split_ifs <;> rfl

@[simp] lemma notify_prev : (l.notify flags front n c).prev = l.prev := by
  unfold AxisList.notify; split_ifs <;> rfl

@[simp] lemma notify_next : (l.notify flags front n c).next = l.next := by
  unfold AxisList.notify; split_ifs <;> rfl

@[simp] lemma notify_pos : (l.notify flags front n c).pos = l.pos := by
  unfold AxisList.notify; split_ifs <;> rfl

end Notify

/-- During an update `n` stands between `F` and `G` of the other nodes; only its
own coordinate and the pointers of the list have changed since `l₀`. -/
structure Moving (l₀ l : AxisList P α) (n : P) (F G : List P) : Prop where
  linked : l.Linked (F ++ n :: G)
  pos : ∀ x, x ≠ n → l.pos x = l₀.pos x
  outside : ∀ x ∉ F ++ n :: G, l.prev x = l₀.prev x ∧ l.next x = l₀.next x

section Steps
variable {l₀ l : AxisList P α} {flags : FlagView P} {front : Bool} {n c : P} {F G : List P} {x : α}

omit [DecidableEq P] [LinearOrder α] in
lemma Moving.ne (h : Moving l₀ l n F G) {y : P} (hy : y ∈ F ++ G) : y ≠ n := by
  rintro rfl
  have hperm : (F ++ y :: G).Perm (y :: (F ++ G)) := List.perm_middle
  exact (List.nodup_cons.mp (hperm.nodup_iff.mp h.linked.nodup)).1 hy

lemma moveNode_before (h : Moving l₀ l n (F ++ [c]) G) (hx : x ≤ l.pos c) :
    ∃ l', l.moveNode flags front n x c = .ok l' ∧ Moving l₀ l' n F (c :: G) := by
  have hL : F ++ [c] ++ n :: G = F ++ c :: n :: G := by simp
  have hlinked : l.Linked (F ++ c :: n :: G) := hL ▸ h.linked
  have hcn : c ≠ n := h.ne (by simp)
  set l₁ := l.setPos n (l.pos c) with hl₁
  have hlinked₁ : l₁.Linked (F ++ c :: n :: G) := hlinked
  obtain ⟨hmove, hpos, hout⟩ := moveBefore_linked hlinked₁
  have hprev : l₁.prev n = some c := (Linked.neighbours hlinked₁).2.1
  have hc : l₁.pos c = l.pos c := by simp [hl₁, AxisList.setPos, hcn]
  refine ⟨(l₁.moveBefore n c).notify flags front n c, ?_, ⟨?_, fun y hy => ?_, fun y hy => ?_⟩⟩
  · unfold AxisList.moveNode
    dsimp only
    rw [← hl₁, if_pos hprev, if_pos (hc ▸ hx)]
  · simpa [AxisList.Linked] using hmove
  · rw [notify_pos, hpos, ← h.pos y hy]
    simp [hl₁, AxisList.setPos, hy]
  · have hy' : y ∉ F ++ c :: n :: G := by
      simp only [List.mem_append, List.mem_cons, not_or] at hy ⊢
      tauto
    rw [notify_prev, notify_next, (hout y hy').1, (hout y hy').2]
    exact h.outside y (hL ▸ hy')

lemma moveNode_after (h : Moving l₀ l n F (c :: G)) (hx : l.pos c ≤ x) :
    ∃ l', l.moveNode flags front n x c = .ok l' ∧ Moving l₀ l' n (F ++ [c]) G := by
  have hL : F ++ [c] ++ n :: G = F ++ c :: n :: G := by simp
  have hcn : c ≠ n := h.ne (by simp)
  set l₁ := l.setPos n (l.pos c) with hl₁
  have hlinked₁ : l₁.Linked (F ++ n :: c :: G) := h.linked
  obtain ⟨hmove, hpos, hout⟩ := moveAfter_linked hlinked₁
  have hprev : l₁.prev n ≠ some c := by
    rw [(Linked.neighbours hlinked₁).1]
    refine getLast?_ne fun y hy he => ?_
    exact List.disjoint_of_nodup_append h.linked.nodup (he ▸ hy) (by simp)
  have hc : l₁.pos c = l.pos c := by simp [hl₁, AxisList.setPos, hcn]
  refine ⟨(l₁.moveAfter n c).notify flags front n c, ?_, ⟨?_, fun y hy => ?_, fun y hy => ?_⟩⟩
  · unfold AxisList.moveNode
    dsimp only
    rw [← hl₁, if_neg hprev, if_pos (hc ▸ hx)]
  · rw [hL]
    simpa [AxisList.Linked] using hmove
  · rw [notify_pos, hpos, ← h.pos y hy]
    simp [hl₁, AxisList.setPos, hy]
  · have hy' : y ∉ F ++ n :: c :: G := by
      simp only [hL, List.mem_append, List.mem_cons, not_or] at hy ⊢
      tauto
    rw [notify_prev, notify_next, (hout y hy').1, (hout y hy').2]
    exact h.outside y hy'

variable {o : List P} (ho : Sorted l₀.pos o)

/-- The invariant of both loops, with the nodes still ahead as the bound. -/
def PrevInv (l₀ : AxisList P α) (n : P) (o : List P) (k : ℕ) (l : AxisList P α) : Prop :=
  ∃ F G, F ++ G = o ∧ Moving l₀ l n F G ∧ k = F.length

def NextInv (l₀ : AxisList P α) (n : P) (o : List P) (x : α) (k : ℕ) (l : AxisList P α) : Prop :=
  ∃ F G, F ++ G = o ∧ Moving l₀ l n F G ∧ (∀ a ∈ F, l₀.pos a ≤ x) ∧ k = G.length

include ho

lemma prevStep_iterates {k : ℕ} (h : PrevInv l₀ n o k l) :
    Iterates (PrevInv l₀ n o) (fun l => ∃ k, NextInv l₀ n o x k l) k l
      (AxisList.prevStep flags front n x l) := by
  obtain ⟨F, G, rfl, hm, rfl⟩ := h
  have hprev := hm.linked.prev F n G rfl
  unfold AxisList.prevStep
  cases F using List.reverseRecOn with
  | nil =>
    rw [hprev]
    exact ⟨G.length, [], G, rfl, hm, by simp, rfl⟩
  | append_singleton F c =>
    have hc : l.prev n = some c := by rw [hprev]; simp
    have hcn : c ≠ n := hm.ne (by simp)
    rw [hc]
    dsimp only
    by_cases hx : c ≠ n ∧ (l.pos c > x ∨ l.pos c = x ∧ flags.nagativeBoundary c = false)
    · have hle : x ≤ l.pos c := by
        rcases hx.2 with hx | hx
        · exact hx.le
        · exact hx.1.ge
      obtain ⟨l', hl', hm'⟩ := @moveNode_before P α _ _ l₀ l flags front n c F G x hm hle
      rw [if_pos hx, hl']
      exact ⟨F.length, by simp, F, c :: G, by simp, hm', rfl⟩
    · rw [if_neg hx]
      have hcx : l₀.pos c ≤ x := by
        rw [← hm.pos c hcn]
        by_contra hlt
        exact hx ⟨hcn, .inl (not_le.mp hlt)⟩
      refine ⟨G.length, F ++ [c], G, rfl, hm, fun a ha => ?_, rfl⟩
      rcases List.mem_append.mp ha with ha | ha
      · have hsorted := (List.pairwise_append.mp (List.pairwise_append.mp ho).1).2.2
        exact (hsorted a ha c (by simp)).trans hcx
      · rw [List.mem_singleton.mp ha]
        exact hcx

lemma nextStep_iterates {k : ℕ} (h : NextInv l₀ n o x k l) :
    Iterates (NextInv l₀ n o x)
      (fun l => ∃ F G, F ++ G = o ∧ Moving l₀ l n F G ∧ (∀ a ∈ F, l₀.pos a ≤ x) ∧ ∀ b ∈ G, x ≤ l₀.pos b)
      k l (AxisList.nextStep flags front n x l) := by
  obtain ⟨F, G, rfl, hm, hF, rfl⟩ := h
  have hnext := hm.linked.next F n G rfl
  unfold AxisList.nextStep
  cases G with
  | nil =>
    rw [hnext]
    exact ⟨F, [], rfl, hm, hF, by simp⟩
  | cons c G =>
    have hcn : c ≠ n := hm.ne (by simp)
    rw [hnext, List.head?_cons]
    dsimp only
    by_cases hx : c ≠ n ∧ (l.pos c < x ∨ l.pos c = x ∧ flags.positiveBoundary c = false)
    · have hle : l.pos c ≤ x := by
        rcases hx.2 with hx | hx
        · exact hx.le
        · exact hx.1.le
      obtain ⟨l', hl', hm'⟩ := @moveNode_after P α _ _ l₀ l flags front n c F G x hm hle
      rw [if_pos hx, hl']
      refine ⟨G.length, by simp, F ++ [c], G, by simp, hm', fun a ha => ?_, rfl⟩
      rcases List.mem_append.mp ha with ha | ha
      · exact hF a ha
      · rw [List.mem_singleton.mp ha, ← hm.pos c hcn]
        exact hle
    · rw [if_neg hx]
      have hcx : x ≤ l₀.pos c := by
        rw [← hm.pos c hcn]
        by_contra hlt
        exact hx ⟨hcn, .inl (not_le.mp hlt)⟩
      refine ⟨F, c :: G, rfl, hm, hF, fun b hb => ?_⟩
      rcases List.mem_cons.mp hb with rfl | hb
      · exact hcx
      · have hsorted := (List.pairwise_cons.mp (List.pairwise_append.mp ho).2.1).1
        exact hcx.trans (hsorted b hb)

end Steps

section Update
variable {l : AxisList P α} {flags : FlagView P} {front : Bool} {fuel : ℕ} {n : P} {F G : List P}
  {real old : α}

/-- An update of a node in the list, whose other nodes are sorted. -/
theorem update_spec (h : l.Linked (F ++ n :: G)) (hs : Sorted l.pos (F ++ G)) (hne : real ≠ old) :
    Safe .outOfFuel ((F ++ G).length < fuel) (l.update flags front fuel n real old) fun l' =>
      ∃ F' G', F' ++ G' = F ++ G ∧ l'.Linked (F' ++ n :: G') ∧ Sorted l'.pos (F' ++ n :: G') ∧
        l'.pos = Function.update l.pos n real ∧
        ∀ x ∉ F ++ n :: G, l'.prev x = l.prev x ∧ l'.next x = l.next x := by
  have hprev : PrevInv l n (F ++ G) F.length l := ⟨F, G, rfl, ⟨h, fun _ _ => rfl, fun _ _ => ⟨rfl, rfl⟩⟩, rfl⟩
  unfold AxisList.update
  rw [if_pos hne]
  refine ((whileExcept_safe (PrevInv l n (F ++ G)) (fun k l' hl' =>
    prevStep_iterates (x := real) hs hl') hprev).enough fun hf => ?_).bind ?_
  · rw [List.length_append] at hf
    omega
  rintro l₁ ⟨k, hl₁⟩
  have hk : k ≤ (F ++ G).length := by
    obtain ⟨F', G', hFG, -, -, rfl⟩ := hl₁
    rw [← hFG, List.length_append]
    omega
  refine ((whileExcept_safe (NextInv l n (F ++ G) real) (fun k l' hl' =>
    nextStep_iterates hs hl') hl₁).enough fun hf => by omega).bind ?_
  rintro l₂ ⟨F', G', hFG, hm, hF', hG'⟩
  have hn : ∀ y ∈ F' ++ G', y ≠ n := fun y hy => hm.ne hy
  have hpos : (l₂.setPos n real).pos = Function.update l.pos n real := by
    funext y
    by_cases hy : y = n
    · simp [AxisList.setPos, hy]
    · simp [AxisList.setPos, Function.update, hy, hm.pos y hy]
  refine ⟨F', G', hFG, hm.linked, ?_, hpos, fun y hy => ?_⟩
  · have hv : ∀ y ∈ F' ++ G', (l₂.setPos n real).pos y = l.pos y := fun y hy => by
      rw [hpos, Function.update_of_ne (hn y hy)]
    have hvn : (l₂.setPos n real).pos n = real := by rw [hpos, Function.update_self]
    rw [← hFG] at hs
    obtain ⟨hsF, hsG, hsFG⟩ := List.pairwise_append.mp hs
    refine List.pairwise_append.mpr ⟨?_, List.pairwise_cons.mpr ⟨fun b hb => ?_, ?_⟩, fun a ha b hb => ?_⟩
    · refine hsF.imp_of_mem fun {a b} ha hb hab => ?_
      rwa [hv a (by simp [ha]), hv b (by simp [hb])]
    · rw [hvn, hv b (by simp [hb])]
      exact hG' b hb
    · refine hsG.imp_of_mem fun {a b} ha hb hab => ?_
      rwa [hv a (by simp [ha]), hv b (by simp [hb])]
    · rcases List.mem_cons.mp hb with rfl | hb
      · rw [hvn, hv a (by simp [ha])]
        exact hF' a ha
      · rw [hv a (by simp [ha]), hv b (by simp [hb])]
        exact hsFG a ha b hb
  · refine hm.outside y fun hy' => hy ?_
    have hmem : y ∈ n :: (F' ++ G') := by
      simp only [List.mem_append, List.mem_cons] at hy' ⊢
      tauto
    rw [hFG] at hmem
    simp only [List.mem_append, List.mem_cons] at hmem ⊢
    tauto

/-- An update of a node without neighbours only stores its coordinate. -/
lemma update_detached (hp : l.prev n = none) (hn : l.next n = none) (hne : real ≠ old) :
    Safe .outOfFuel (0 < fuel) (l.update flags front fuel n real old) fun l' => l' = l.setPos n real := by
  cases fuel with
  | zero =>
    simp [AxisList.update, hne, whileExcept, Safe, bind, Except.bind]
  | succ m =>
    have h₁ : AxisList.prevStep flags front n real l = .ok none := by simp [AxisList.prevStep, hp]
    have h₂ : AxisList.nextStep flags front n real l = .ok none := by simp [AxisList.nextStep, hn]
    simp [AxisList.update, hne, whileExcept, h₁, h₂, pure, Except.pure, bind, Except.bind, Safe]

end Update

section Unsorted
variable {l₀ l : AxisList P α} {flags : FlagView P} {front : Bool} {fuel : ℕ} {n : P} {o F G L : List P}
  {live : Set P} {real old x : α}

/-- The invariant of the second loop of an update where the nodes are in any order. -/
def NextMoving (l₀ : AxisList P α) (n : P) (o : List P) (k : ℕ) (l : AxisList P α) : Prop :=
  ∃ F G, F ++ G = o ∧ Moving l₀ l n F G ∧ k = G.length

lemma prevStep_moving {k : ℕ} (h : PrevInv l₀ n o k l) :
    Iterates (PrevInv l₀ n o) (fun l => ∃ k, NextMoving l₀ n o k l) k l
      (AxisList.prevStep flags front n x l) := by
  obtain ⟨F, G, rfl, hm, rfl⟩ := h
  have hprev := hm.linked.prev F n G rfl
  unfold AxisList.prevStep
  rw [hprev]
  cases F using List.reverseRecOn with
  | nil => exact ⟨G.length, [], G, rfl, hm, rfl⟩
  | append_singleton F c =>
    rw [List.getLast?_concat]
    dsimp only
    split_ifs with hx
    · have hle : x ≤ l.pos c := hx.2.elim (fun hx => hx.le) fun hx => hx.1.ge
      obtain ⟨l', hl', hm'⟩ := @moveNode_before P α _ _ l₀ l flags front n c F G x hm hle
      rw [hl']
      exact ⟨F.length, by simp, F, c :: G, by simp, hm', rfl⟩
    · exact ⟨G.length, F ++ [c], G, rfl, hm, rfl⟩

lemma nextStep_moving {k : ℕ} (h : NextMoving l₀ n o k l) :
    Iterates (NextMoving l₀ n o) (fun l => ∃ k, NextMoving l₀ n o k l) k l
      (AxisList.nextStep flags front n x l) := by
  obtain ⟨F, G, rfl, hm, rfl⟩ := h
  have hnext := hm.linked.next F n G rfl
  unfold AxisList.nextStep
  rw [hnext]
  cases G with
  | nil => exact ⟨0, F, [], rfl, hm, rfl⟩
  | cons c G =>
    dsimp only [List.head?_cons]
    split_ifs with hx
    · have hle : l.pos c ≤ x := hx.2.elim (fun hx => hx.le) fun hx => hx.1.le
      obtain ⟨l', hl', hm'⟩ := @moveNode_after P α _ _ l₀ l flags front n c F G x hm hle
      rw [hl']
      exact ⟨G.length, by simp, F ++ [c], G, by simp, hm', rfl⟩
    · exact ⟨(c :: G).length, F, c :: G, rfl, hm, rfl⟩

/-- An update moves its node only, whatever the coordinates are. -/
theorem update_linked (h : l.Linked (F ++ n :: G)) :
    Safe .outOfFuel ((F ++ G).length < fuel) (l.update flags front fuel n real old) fun l' =>
      ∃ F' G', F' ++ G' = F ++ G ∧ l'.Linked (F' ++ n :: G') ∧
        ∀ x ∉ F ++ n :: G, l'.prev x = l.prev x ∧ l'.next x = l.next x := by
  unfold AxisList.update
  split_ifs with hne
  · have hprev : PrevInv l n (F ++ G) F.length l :=
      ⟨F, G, rfl, ⟨h, fun _ _ => rfl, fun _ _ => ⟨rfl, rfl⟩⟩, rfl⟩
    refine ((whileExcept_safe (PrevInv l n (F ++ G)) (fun k l' hl' =>
      prevStep_moving hl') hprev).enough fun hf => ?_).bind ?_
    · rw [List.length_append] at hf
      omega
    rintro l₁ ⟨k, hl₁⟩
    have hk : k ≤ (F ++ G).length := by
      obtain ⟨F', G', hFG, -, rfl⟩ := hl₁
      rw [← hFG, List.length_append]
      omega
    refine ((whileExcept_safe (NextMoving l n (F ++ G)) (fun k l' hl' =>
      nextStep_moving hl') hl₁).enough fun hf => by omega).bind ?_
    rintro l₂ ⟨k', F', G', hFG, hm, -⟩
    refine ⟨F', G', hFG, hm.linked, fun y hy => hm.outside y fun hy' => hy ?_⟩
    have hperm : (F' ++ n :: G').Perm (n :: (F' ++ G')) := List.perm_middle
    have hperm' : (F ++ n :: G).Perm (n :: (F ++ G)) := List.perm_middle
    rw [hperm'.mem_iff, ← hFG, ← hperm.mem_iff]
    exact hy'
  · exact ⟨F, G, rfl, h, fun _ _ => ⟨rfl, rfl⟩⟩

lemma ListInv.update (h : ListInv l live L) (flags : FlagView P) (front : Bool) (fuel : ℕ) (p : P)
    (real old : α) : Safe .outOfFuel (L.length < fuel) (l.update flags front fuel p real old)
      fun l' => ∃ L', ListInv l' live L' := by
  by_cases hp : p ∈ live
  · obtain ⟨F, G, rfl⟩ := List.append_of_mem ((h.mem p).mpr hp)
    refine ((update_linked h.linked).enough fun hf => ?_).weaken ?_
    · simp only [List.length_append, List.length_cons] at hf ⊢
      omega
    rintro l' ⟨F', G', hFG, hlinked, hout⟩
    refine ⟨F' ++ p :: G', hlinked, fun q => ?_, fun q hq => ?_⟩
    · have hperm : (F' ++ p :: G').Perm (p :: (F ++ G)) := hFG ▸ List.perm_middle
      have hperm' : (F ++ p :: G).Perm (p :: (F ++ G)) := List.perm_middle
      rw [hperm.mem_iff, ← hperm'.mem_iff, h.mem]
    · have hq' : q ∉ F ++ p :: G := fun hL => hq ((h.mem q).mp hL)
      rw [(hout q hq').1, (hout q hq').2]
      exact h.detached q hq
  · by_cases hne : real ≠ old
    · refine ((update_detached (h.detached p hp).1 (h.detached p hp).2 hne).enough (by omega)).weaken ?_
      rintro _ rfl
      exact ⟨L, h.linked, h.mem, h.detached⟩
    · unfold AxisList.update
      rw [if_neg hne]
      exact ⟨L, h⟩

end Unsorted

/-- One axis holds exactly the nodes `live`, linked and sorted; other nodes have
no neighbours. -/
structure AxisInv (l : AxisList P α) (live : Set P) (L : List P) : Prop where
  linked : l.Linked L
  sorted : Sorted l.pos L
  mem : ∀ p, p ∈ L ↔ p ∈ live
  detached : ∀ p, p ∉ live → l.prev p = none ∧ l.next p = none

lemma eachAxis_safe {P α : Type} {f : Axis → AxisList P α → Except Fault (AxisList P α)}
    {axis : Axis → AxisList P α} {e : Prop} {Q : Axis → AxisList P α → Prop}
    (h : ∀ a, Safe .outOfFuel e (f a (axis a)) (Q a)) :
    Safe .outOfFuel e (eachAxis f axis) fun axis' => ∀ a, Q a (axis' a) := by
  refine (h .x).bind fun x hx => (h .y).bind fun y hy => (h .z).bind fun z hz => ?_
  intro a
  cases a with
  | x => exact hx
  | y => exact hy
  | z => exact hz

lemma eachAxis_ok {P α : Type} {f : Axis → AxisList P α → Except Fault (AxisList P α)}
    {axis axis' : Axis → AxisList P α} (h : eachAxis f axis = .ok axis') (a : Axis) :
    f a (axis a) = .ok (axis' a) := by
  unfold eachAxis at h
  obtain ⟨x, hx, h⟩ := bind_ok h
  obtain ⟨y, hy, h⟩ := bind_ok h
  obtain ⟨z, hz, h⟩ := bind_ok h
  obtain rfl := Except.ok.inj h
  cases a with
  | x => exact hx
  | y => exact hy
  | z => exact hz

section AxisInv
variable {l : AxisList P α} {live : Set P} {L : List P} {p : P}

omit [DecidableEq P] in
lemma AxisInv.perm {l' : AxisList P α} {L' : List P} (h : AxisInv l live L) (h' : AxisInv l' live L') :
    L.Perm L' :=
  (List.perm_ext_iff_of_nodup h.linked.nodup h'.linked.nodup).mpr fun p => (h.mem p).trans (h'.mem p).symm

omit [DecidableEq P] in
lemma sorted_congr {pos pos' : P → α} (h : Sorted pos L) (hp : ∀ x ∈ L, pos' x = pos x) :
    Sorted pos' L :=
  h.imp_of_mem fun {a b} ha hb hab => by rwa [hp a ha, hp b hb]

/-- An update of a node whose own stored coordinate may be out of order. -/
lemma linked_update (hl : l.Linked L) (hmem : ∀ q, q ∈ L ↔ q ∈ live)
    (hdet : ∀ q, q ∉ live → l.prev q = none ∧ l.next q = none) (flags : FlagView P) (front : Bool)
    (fuel : ℕ) {real old : α} (hs : real ≠ old → Sorted l.pos (L.erase p))
    (hsame : real = old → Sorted l.pos L) :
    Safe .outOfFuel (L.length < fuel) (l.update flags front fuel p real old) fun l' =>
      (∃ L', AxisInv l' live L') ∧
        l'.pos = if real = old then l.pos else Function.update l.pos p real := by
  by_cases heq : real = old
  · rw [AxisList.update, if_neg (not_not.mpr heq)]
    exact ⟨⟨L, hl, hsame heq, hmem, hdet⟩, (if_pos heq).symm⟩
  have hs := hs heq
  by_cases hp : p ∈ live
  · obtain ⟨F, G, rfl⟩ := List.append_of_mem ((hmem p).mpr hp)
    have hpF : p ∉ F := fun hF => List.disjoint_of_nodup_append hl.nodup hF (by simp)
    rw [List.erase_append_right _ hpF, List.erase_cons_head] at hs
    refine ((update_spec hl hs heq).enough fun hf => ?_).weaken ?_
    · simp only [List.length_append, List.length_cons] at hf ⊢
      omega
    rintro l' ⟨F', G', hFG, hlinked, hsorted, hpos, hout⟩
    have hmem' : ∀ q, q ∈ F' ++ p :: G' ↔ q ∈ live := by
      intro q
      have hperm : (F' ++ p :: G').Perm (p :: (F ++ G)) := hFG ▸ List.perm_middle
      have hperm' : (F ++ p :: G).Perm (p :: (F ++ G)) := List.perm_middle
      rw [hperm.mem_iff, ← hperm'.mem_iff, hmem]
    refine ⟨⟨F' ++ p :: G', hlinked, hsorted, hmem', fun q hq => ?_⟩, by rw [hpos, if_neg heq]⟩
    have hq' : q ∉ F ++ p :: G := fun hL => hq ((hmem q).mp hL)
    rw [(hout q hq').1, (hout q hq').2]
    exact hdet q hq
  · refine (update_detached (hdet p hp).1 (hdet p hp).2 heq).enough (by omega) |>.weaken ?_
    rintro _ rfl
    have hpL : p ∉ L := fun hL => hp ((hmem p).mp hL)
    rw [List.erase_of_not_mem hpL] at hs
    refine ⟨⟨L, hl, sorted_congr hs fun x hx => ?_, hmem, hdet⟩, by rw [if_neg heq]; rfl⟩
    have hxp : x ≠ p := fun he => hpL (he ▸ hx)
    simp [AxisList.setPos, hxp]

lemma AxisInv.update (h : AxisInv l live L) (flags : FlagView P) (front : Bool) (fuel : ℕ) (p : P)
    (real old : α) : Safe .outOfFuel (L.length < fuel) (l.update flags front fuel p real old)
      fun l' => (∃ L', AxisInv l' live L') ∧
        l'.pos = if real = old then l.pos else Function.update l.pos p real :=
  linked_update h.linked h.mem h.detached flags front fuel
    (fun _ => h.sorted.sublist List.erase_sublist) fun _ => h.sorted

omit [DecidableEq P] in
lemma AxisInv.listInv (h : AxisInv l live L) : ListInv l live L := ⟨h.linked, h.mem, h.detached⟩

lemma AxisInv.push {f : P} (h : AxisInv l live (f :: L)) (hp : p ∉ live) :
    ∃ l', l.pushFirst p = .ok l' ∧ AxisInv l' (Set.insert p live) (p :: f :: L) ∧
      l'.pos = Function.update l.pos p (l.pos f) := by
  obtain ⟨l', hl', hinv, hpos⟩ := h.listInv.push hp
  have hval : ∀ x ∈ f :: L, l'.pos x = l.pos x := by
    intro x hx
    have hxp : x ≠ p := fun he => hp ((h.mem p).mp (he ▸ hx))
    rw [hpos, Function.update_of_ne hxp]
  refine ⟨l', hl', ⟨hinv.linked, List.pairwise_cons.mpr ⟨fun x hx => ?_, sorted_congr h.sorted hval⟩,
    hinv.mem, hinv.detached⟩, hpos⟩
  rw [hval x hx, hpos, Function.update_self]
  rcases List.mem_cons.mp hx with rfl | hx
  · exact le_rfl
  · exact (List.pairwise_cons.mp h.sorted).1 x hx

lemma AxisInv.unlink {F G : List P} (h : AxisInv l live (F ++ p :: G)) :
    ∃ l', l.unlink p = .ok l' ∧ AxisInv (l'.resetPtr p) (live \ {p}) (F ++ G) ∧ l'.pos = l.pos := by
  obtain ⟨l', hl', hinv, hpos⟩ := h.listInv.unlink
  have hs : Sorted l.pos (F ++ G) := h.sorted.sublist (by simp)
  have hsorted : Sorted (l'.resetPtr p).pos (F ++ G) :=
    sorted_congr hs fun x _ => by simp [AxisList.resetPtr, hpos]
  exact ⟨l', hl', ⟨hinv.linked, hsorted, hinv.mem, hinv.detached⟩, hpos⟩

omit [DecidableEq P] in
lemma AxisInv.live_eq (h : AxisInv l live L) : live = {q | q ∈ L} := by
  ext q
  exact (h.mem q).symm

omit [DecidableEq P] in
lemma AxisInv.finite (h : AxisInv l live L) : live.Finite := by
  rw [h.live_eq]
  exact L.finite_toSet

lemma AxisInv.ncard (h : AxisInv l live L) : live.ncard = L.length := h.listInv.ncard

/-- The first node of an empty list. -/
lemma AxisInv.singleton (h : AxisInv l live []) (p : P) (v : α) :
    AxisInv ((AxisList.resetPtr { l with first := some p } p).setPos p v) (Set.insert p live) [p] := by
  have hinv := h.listInv.singleton p v
  exact ⟨hinv.linked, by simp, hinv.mem, hinv.detached⟩

/-- A node outside the list may be given any coordinate. -/
lemma AxisInv.reset (h : AxisInv l live L) (hp : p ∉ live) (v : α) :
    AxisInv ((l.resetPtr p).setPos p v) live L := by
  rw [h.listInv.resetPtr_eq hp]
  refine ⟨h.linked, sorted_congr h.sorted fun x hx => ?_, h.mem, h.detached⟩
  have hxp : x ≠ p := fun he => hp ((h.mem p).mp (he ▸ hx))
  simp [AxisList.setPos, hxp]

/-- An update of a node that was stored at `v`. -/
lemma AxisInv.update_setPos (h : AxisInv l live L) (flags : FlagView P) (front : Bool) (fuel : ℕ) (p : P)
    (real old v : α) (hsame : real = old → Sorted (l.setPos p v).pos L) :
    Safe .outOfFuel (L.length < fuel) ((l.setPos p v).update flags front fuel p real old)
      fun l' => (∃ L', AxisInv l' live L') ∧
        l'.pos = if real = old then (l.setPos p v).pos else Function.update (l.setPos p v).pos p real := by
  have hlinked : (l.setPos p v).Linked L := h.linked
  refine linked_update hlinked h.mem h.detached flags front fuel (fun _ => ?_) hsame
  have hs : Sorted l.pos (L.erase p) := h.sorted.sublist List.erase_sublist
  refine sorted_congr hs fun q hq => ?_
  have hqp : q ≠ p := fun he => List.Nodup.not_mem_erase h.linked.nodup (he ▸ hq)
  simp [AxisList.setPos, hqp]

/-- A node behind least values only may be stored at the least value. -/
lemma AxisInv.sorted_setPos_bot [OrderBot α] (h : AxisInv l live L)
    (hp : ∀ q, l.prev p = some q → l.pos q = ⊥) : Sorted (l.setPos p ⊥).pos L := by
  by_cases hm : p ∈ L
  · obtain ⟨F, G, rfl⟩ := List.append_of_mem hm
    have hnd := List.nodup_append.mp h.linked.nodup
    have hne : ∀ y, y ∈ F ∨ y ∈ G → (l.setPos p ⊥).pos y = l.pos y := by
      intro y hy
      have hyp : y ≠ p := by
        intro he
        subst he
        rcases hy with hF | hG
        · exact hnd.2.2 y hF y (by simp) rfl
        · exact (List.nodup_cons.mp hnd.2.1).1 hG
      simp [AxisList.setPos, hyp]
    have hself : (l.setPos p ⊥).pos p = ⊥ := by simp [AxisList.setPos]
    obtain ⟨hsF, hsG, -⟩ := List.pairwise_append.mp h.sorted
    have hbot : ∀ y ∈ F, l.pos y = ⊥ := by
      intro y hy
      have hprev := h.linked.prev F p G rfl
      rcases List.eq_nil_or_concat F with hnil | hcons
      · simp [hnil] at hy
      · obtain ⟨F', q, rfl⟩ := hcons
        have hq := hp q (by rw [hprev]; simp)
        rw [List.concat_eq_append] at hy hsF
        rcases List.mem_append.mp hy with hy' | hy'
        · exact le_bot_iff.mp (hq ▸ (List.pairwise_append.mp hsF).2.2 y hy' q (by simp))
        · rw [List.mem_singleton.mp hy', hq]
    refine List.pairwise_append.mpr ⟨?_, List.pairwise_cons.mpr ⟨fun b _ => ?_, ?_⟩, fun a ha b _ => ?_⟩
    · exact sorted_congr hsF fun y hy => hne y (.inl hy)
    · rw [hself]
      exact bot_le
    · exact sorted_congr (List.pairwise_cons.mp hsG).2 fun y hy => hne y (.inr hy)
    · rw [hne a (.inl ha), hbot a ha]
      exact bot_le
  · refine sorted_congr h.sorted fun y hy => ?_
    have hyp : y ≠ p := fun he => hm (he ▸ hy)
    simp [AxisList.setPos, hyp]

end AxisInv

end TyphoonZero.CrossList
