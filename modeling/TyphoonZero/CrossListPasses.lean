import TyphoonZero.CrossListUpdate

/-! Which nodes an update carries its node past, where it leaves it, and whom it notifies. -/
namespace TyphoonZero.CrossList
open Loop LinkedChain

variable {P α : Type} [DecidableEq P] [LinearOrder α]

section Definitions
variable (flags : FlagView P) (front : Bool) (pos : P → α) (n : P) (x : α)

/-- A node that the first loop passes on the way to `x`. -/
def goesBefore (c : P) : Bool := decide (x < pos c ∨ pos c = x ∧ flags.nagativeBoundary c = false)

/-- A node that the second loop passes on the way to `x`. -/
def goesBehind (c : P) : Bool := decide (pos c < x ∨ pos c = x ∧ flags.positiveBoundary c = false)

def passedBefore (F : List P) : List P := F.reverse.takeWhile (goesBefore flags pos x)

def staysBefore (F : List P) : List P := (F.reverse.dropWhile (goesBefore flags pos x)).reverse

/-- What stands behind the node after the first loop. -/
def behind (F G : List P) : List P := (passedBefore flags pos x F).reverse ++ G

/-- The nodes that both loops pass, in the order of the calls. -/
def passed (F G : List P) : List P :=
  passedBefore flags pos x F ++ (behind flags pos x F G).takeWhile (goesBehind flags pos x)

/-- The list after the update. -/
def placed (F G : List P) : List P :=
  (staysBefore flags pos x F ++ (behind flags pos x F G).takeWhile (goesBehind flags pos x)) ++
    n :: (behind flags pos x F G).dropWhile (goesBehind flags pos x)

/-- The calls when `n` passes `c`, newest first. -/
def calls (c : P) : List (P × P × Bool) :=
  (if flags.hideOrRemoved c then [] else [(n, c, front)]) ++
    if flags.hideOrRemoved n then [] else [(c, n, true)]

def notifyAll (cs : List P) (passes : List (P × P × Bool)) : List (P × P × Bool) :=
  cs.foldl (fun passes c => calls flags front n c ++ passes) passes

/-- `n` changes places with the nodes of the second list, each next to it in its turn. -/
inductive Swaps {P : Type} (n : P) : List P → List P → List P → Prop
  | nil (L : List P) : Swaps n L [] L
  | before {F G cs L : List P} {c : P} (h : Swaps n (F ++ n :: c :: G) cs L) :
    Swaps n (F ++ c :: n :: G) (c :: cs) L
  | after {F G cs L : List P} {c : P} (h : Swaps n (F ++ c :: n :: G) cs L) :
    Swaps n (F ++ n :: c :: G) (c :: cs) L

end Definitions

section Passes
variable {l : AxisList P α} {flags : FlagView P} {front : Bool} {n c p : P} {q : Option P} {x : α}

omit [LinearOrder α] in
@[simp] lemma setPrev_passes : (l.setPrev p q).passes = l.passes := by
  unfold AxisList.setPrev; split_ifs <;> rfl

omit [LinearOrder α] in
@[simp] lemma setNext_passes : (l.setNext p q).passes = l.passes := by
  unfold AxisList.setNext; split_ifs <;> rfl

omit [LinearOrder α] in
lemma moveBefore_passes : (l.moveBefore n c).passes = l.passes := by
  unfold AxisList.moveBefore
  dsimp only
  split <;> split <;> split <;> (try split) <;> simp

omit [LinearOrder α] in
lemma moveAfter_passes : (l.moveAfter n c).passes = l.passes := by
  unfold AxisList.moveAfter
  dsimp only
  split
  · rfl
  · split <;> split <;> split <;> (try split) <;> simp

omit [DecidableEq P] [LinearOrder α] in
lemma notify_passes : (l.notify flags front n c).passes = calls flags front n c ++ l.passes := by
  unfold AxisList.notify calls
  cases flags.hideOrRemoved n <;> cases flags.hideOrRemoved c <;> rfl

lemma moveNode_passes {l' : AxisList P α} (h : l.moveNode flags front n x c = .ok l') :
    l'.passes = calls flags front n c ++ l.passes := by
  unfold AxisList.moveNode at h
  dsimp only at h
  split_ifs at h
  · obtain rfl := Except.ok.inj h
    rw [notify_passes, moveBefore_passes]
    rfl
  · obtain rfl := Except.ok.inj h
    rw [notify_passes, moveAfter_passes]
    rfl

omit [LinearOrder α] in
lemma pushFirst_passes {l' : AxisList P α} (h : l.pushFirst p = .ok l') : l'.passes = l.passes := by
  unfold AxisList.pushFirst at h
  cases hf : l.first with
  | none =>
    rw [hf] at h
    cases h
  | some f =>
    rw [hf] at h
    obtain rfl := Except.ok.inj h
    simp [AxisList.setPos]

end Passes

section Loops
variable {l₀ l : AxisList P α} {flags : FlagView P} {front : Bool} {n : P} {F G : List P} {x real old : α}

/-- The first loop passes the nodes before `n` that belong behind it. -/
lemma prevRounds (h : Moving l₀ l n F G) :
    ∃ l', Rounds (AxisList.prevStep flags front n x) (fun l => l.prev n) l (passedBefore flags l₀.pos x F) l' ∧
      Moving l₀ l' n (staysBefore flags l₀.pos x F) (behind flags l₀.pos x F G) ∧
      l'.passes = notifyAll flags front n (passedBefore flags l₀.pos x F) l.passes ∧
      Swaps n (F ++ n :: G) (passedBefore flags l₀.pos x F)
        (staysBefore flags l₀.pos x F ++ n :: behind flags l₀.pos x F G) := by
  induction F using List.reverseRecOn generalizing l G with
  | nil =>
    have hprev : l.prev n = none := h.linked.prev [] n G rfl
    exact ⟨l, .stop (by simp [AxisList.prevStep, hprev]), h, rfl, .nil _⟩
  | append_singleton F c ih =>
    have hprev : l.prev n = some c := by
      rw [h.linked.prev (F ++ [c]) n G rfl, List.getLast?_concat]
    have hcn : c ≠ n := h.ne (by simp)
    have hc := h.pos c hcn
    cases hgo : goesBefore flags l₀.pos x c with
    | false =>
      have hstop : AxisList.prevStep flags front n x l = .ok none := by
        have hx := of_decide_eq_false hgo
        rw [← hc] at hx
        unfold AxisList.prevStep
        rw [hprev]
        exact if_neg fun hif => hx hif.2
      have hnone : passedBefore flags l₀.pos x (F ++ [c]) = [] := by
        simp [passedBefore, hgo]
      have hstay : staysBefore flags l₀.pos x (F ++ [c]) = F ++ [c] := by
        simp [staysBefore, hgo]
      rw [behind, hnone, hstay]
      exact ⟨l, .stop hstop, h, rfl, .nil _⟩
    | true =>
      have hx := of_decide_eq_true hgo
      rw [← hc] at hx
      have hle : x ≤ l.pos c := hx.elim (fun hx => hx.le) fun hx => hx.1.ge
      obtain ⟨l', hl', hm⟩ := @moveNode_before P α _ _ l₀ l flags front n c F G x h hle
      have hround : AxisList.prevStep flags front n x l = .ok (some l') := by
        unfold AxisList.prevStep
        rw [hprev]
        dsimp only
        rw [if_pos ⟨hcn, hx⟩, hl']
        rfl
      have hmore : passedBefore flags l₀.pos x (F ++ [c]) = c :: passedBefore flags l₀.pos x F := by
        simp [passedBefore, hgo]
      have hstay : staysBefore flags l₀.pos x (F ++ [c]) = staysBefore flags l₀.pos x F := by
        simp [staysBefore, hgo]
      have hbehind : behind flags l₀.pos x (F ++ [c]) G = behind flags l₀.pos x F (c :: G) := by
        simp [behind, hmore]
      obtain ⟨t, hrounds, hmoving, hpasses, hswaps⟩ := ih hm
      rw [hstay, hbehind, hmore, List.append_assoc]
      refine ⟨t, .turn hround hprev hrounds, hmoving, ?_, .before hswaps⟩
      rw [hpasses, moveNode_passes hl']
      rfl

/-- The second loop passes the nodes behind `n` that belong before it. -/
lemma nextRounds (h : Moving l₀ l n F G) :
    ∃ l', Rounds (AxisList.nextStep flags front n x) (fun l => l.next n) l
        (G.takeWhile (goesBehind flags l₀.pos x)) l' ∧
      Moving l₀ l' n (F ++ G.takeWhile (goesBehind flags l₀.pos x)) (G.dropWhile (goesBehind flags l₀.pos x)) ∧
      l'.passes = notifyAll flags front n (G.takeWhile (goesBehind flags l₀.pos x)) l.passes ∧
      Swaps n (F ++ n :: G) (G.takeWhile (goesBehind flags l₀.pos x))
        ((F ++ G.takeWhile (goesBehind flags l₀.pos x)) ++ n :: G.dropWhile (goesBehind flags l₀.pos x)) := by
  induction G generalizing l F with
  | nil =>
    have hnext : l.next n = none := h.linked.next F n [] rfl
    rw [List.takeWhile_nil, List.append_nil]
    exact ⟨l, .stop (by simp [AxisList.nextStep, hnext]), h, rfl, .nil _⟩
  | cons c G ih =>
    have hnext : l.next n = some c := h.linked.next F n (c :: G) rfl
    have hcn : c ≠ n := h.ne (by simp)
    have hc := h.pos c hcn
    cases hgo : goesBehind flags l₀.pos x c with
    | false =>
      have hstop : AxisList.nextStep flags front n x l = .ok none := by
        have hx := of_decide_eq_false hgo
        rw [← hc] at hx
        unfold AxisList.nextStep
        rw [hnext]
        exact if_neg fun hif => hx hif.2
      rw [List.takeWhile_cons_of_neg (by simp [hgo]), List.dropWhile_cons_of_neg (by simp [hgo]), List.append_nil]
      exact ⟨l, .stop hstop, h, rfl, .nil _⟩
    | true =>
      have hx := of_decide_eq_true hgo
      rw [← hc] at hx
      have hle : l.pos c ≤ x := hx.elim (fun hx => hx.le) fun hx => hx.1.le
      obtain ⟨l', hl', hm⟩ := @moveNode_after P α _ _ l₀ l flags front n c F G x h hle
      have hround : AxisList.nextStep flags front n x l = .ok (some l') := by
        unfold AxisList.nextStep
        rw [hnext]
        dsimp only
        rw [if_pos ⟨hcn, hx⟩, hl']
        rfl
      obtain ⟨t, hrounds, hmoving, hpasses, hswaps⟩ := ih hm
      rw [List.takeWhile_cons_of_pos hgo, List.dropWhile_cons_of_pos hgo, List.append_cons F c]
      refine ⟨t, .turn hround hnext hrounds, hmoving, ?_, .after ?_⟩
      · rw [hpasses, moveNode_passes hl']
        rfl
      · rwa [List.append_assoc] at hswaps

omit [DecidableEq P] in
lemma staysBefore_append (flags : FlagView P) (pos : P → α) (x : α) (F : List P) :
    staysBefore flags pos x F ++ (passedBefore flags pos x F).reverse = F := by
  unfold staysBefore passedBefore
  rw [← List.reverse_append, List.takeWhile_append_dropWhile, List.reverse_reverse]

omit [DecidableEq P] in
/-- An update moves its own node only. -/
lemma placed_perm (flags : FlagView P) (pos : P → α) (n : P) (x : α) (F G : List P) :
    (placed flags pos n x F G).Perm (F ++ n :: G) := by
  have hrest : (staysBefore flags pos x F ++ (behind flags pos x F G).takeWhile (goesBehind flags pos x)) ++
      (behind flags pos x F G).dropWhile (goesBehind flags pos x) = F ++ G := by
    rw [List.append_assoc, List.takeWhile_append_dropWhile, behind, ← List.append_assoc,
      staysBefore_append]
  have hplaced : (placed flags pos n x F G).Perm (n :: (F ++ G)) := hrest ▸ List.perm_middle
  exact hplaced.trans List.perm_middle.symm

/-- The loops of an update, with the nodes that it passes, and the coordinate stored at the end. -/
inductive Crossed (flags : FlagView P) (front : Bool) (n : P) (real old : α) (l : AxisList P α) :
    List P → AxisList P α → Prop
  | skipped (h : real = old) : Crossed flags front n real old l [] l
  | passed {cs ds : List P} {m t : AxisList P α} (h : real ≠ old)
    (hprev : Rounds (AxisList.prevStep flags front n real) (fun l => l.prev n) l cs m)
    (hnext : Rounds (AxisList.nextStep flags front n real) (fun l => l.next n) m ds t) :
    Crossed flags front n real old l (cs ++ ds) (t.setPos n real)

omit [DecidableEq P] in
lemma Swaps.trans {P : Type} {n : P} {L M N cs ds : List P} (h : Swaps n L cs M) (h' : Swaps n M ds N) :
    Swaps n L (cs ++ ds) N := by
  induction h with
  | nil L => exact h'
  | before h ih => exact .before (ih h')
  | after h ih => exact .after (ih h')

/-- What an update does when the coordinate is a new one. -/
lemma update_rounds (h : l.Linked (F ++ n :: G)) (hne : real ≠ old) :
    ∃ l', Crossed flags front n real old l (passed flags l.pos real F G) l' ∧
      l'.Linked (placed flags l.pos n real F G) ∧ l'.pos = Function.update l.pos n real ∧
      l'.passes = notifyAll flags front n (passed flags l.pos real F G) l.passes ∧
      (∀ y ∉ F ++ n :: G, l'.prev y = l.prev y ∧ l'.next y = l.next y) ∧
      Swaps n (F ++ n :: G) (passed flags l.pos real F G) (placed flags l.pos n real F G) := by
  have hstart : Moving l l n F G := ⟨h, fun _ _ => rfl, fun _ _ => ⟨rfl, rfl⟩⟩
  obtain ⟨l₁, hrounds₁, hm₁, hpasses₁, hswaps₁⟩ := @prevRounds _ _ _ _ l l flags front n F G real hstart
  obtain ⟨l₂, hrounds₂, hm₂, hpasses₂, hswaps₂⟩ := @nextRounds _ _ _ _ l l₁ flags front n _ _ real hm₁
  refine ⟨l₂.setPos n real, .passed hne hrounds₁ hrounds₂, hm₂.linked, ?_, ?_,
    fun y hy => hm₂.outside y fun hy' => hy ?_, hswaps₁.trans hswaps₂⟩
  · funext y
    by_cases hy : y = n
    · simp [AxisList.setPos, hy]
    · simp [AxisList.setPos, hy, hm₂.pos y hy]
  · show l₂.passes = _
    rw [hpasses₂, hpasses₁]
    simp [notifyAll, passed]
  · exact (placed_perm flags l.pos n real F G).mem_iff.mp hy'

/-- The function runs the loops when there is fuel for all turns. -/
lemma Crossed.safe {cs : List P} {l' : AxisList P α} (h : Crossed flags front n real old l cs l') (fuel : ℕ) :
    Safe .outOfFuel (cs.length < fuel) (l.update flags front fuel n real old) (· = l') := by
  unfold AxisList.update
  cases h with
  | skipped h =>
    rw [if_neg (not_not.mpr h)]
    rfl
  | passed h hprev hnext =>
    rw [if_pos h]
    refine ((hprev.safe fuel).enough fun hf => ?_).bind fun l₁ hl₁ => ?_
    · rw [List.length_append] at hf
      omega
    subst hl₁
    refine ((hnext.safe fuel).enough fun hf => ?_).bind fun l₂ hl₂ => ?_
    · rw [List.length_append] at hf
      omega
    subst hl₂
    rfl

/-- An update does just this, whatever the coordinates are. -/
theorem update_exact (h : l.Linked (F ++ n :: G)) (hne : real ≠ old) :
    Safe .outOfFuel ((passed flags l.pos real F G).length < fuel) (l.update flags front fuel n real old) fun l' =>
      l'.Linked (placed flags l.pos n real F G) ∧ l'.pos = Function.update l.pos n real ∧
        l'.passes = notifyAll flags front n (passed flags l.pos real F G) l.passes ∧
        ∀ y ∉ F ++ n :: G, l'.prev y = l.prev y ∧ l'.next y = l.next y := by
  obtain ⟨l', hcrossed, hlinked, hpos, hpasses, hout, -⟩ := @update_rounds _ _ _ _ l flags front n F G real old h hne
  refine (hcrossed.safe fuel).weaken fun t ht => ?_
  subst ht
  exact ⟨hlinked, hpos, hpasses, hout⟩

end Loops

section Calls
variable {flags : FlagView P} {n : P}

omit [DecidableEq P] in
lemma notifyAll_eq_iff (cs : List P) {ps ps' : List (P × P × Bool)} (hlen : ps.length = ps'.length) :
    notifyAll flags true n cs ps = notifyAll flags false n cs ps' ↔
      ps = ps' ∧ ∀ c ∈ cs, flags.hideOrRemoved c = true := by
  induction cs generalizing ps ps' with
  | nil => simp [notifyAll]
  | cons c cs ih =>
    have hcalls : (calls flags true n c).length = (calls flags false n c).length := by
      unfold calls
      split_ifs <;> rfl
    have hc : calls flags true n c = calls flags false n c ↔ flags.hideOrRemoved c = true := by
      unfold calls
      cases flags.hideOrRemoved c <;> simp
    have hstep := @ih (calls flags true n c ++ ps) (calls flags false n c ++ ps')
      (by rw [List.length_append, List.length_append, hcalls, hlen])
    have hsplit : calls flags true n c ++ ps = calls flags false n c ++ ps' ↔
        calls flags true n c = calls flags false n c ∧ ps = ps' :=
      ⟨fun he => List.append_inj he hcalls, fun he => by rw [he.1, he.2]⟩
    rw [hsplit, hc] at hstep
    rw [List.forall_mem_cons]
    exact hstep.trans (by tauto)

end Calls

section Two
variable {l l' m m' : AxisList P α} {live : Set P} {L F G : List P} {flags : FlagView P} {n p : P}
  {real old old' : α} {fuel fuel' : ℕ} {pos pos' : P → α}

omit [DecidableEq P] in
lemma takeWhile_congr {f g : P → Bool} (h : ∀ c ∈ L, f c = g c) :
    L.takeWhile f = L.takeWhile g ∧ L.dropWhile f = L.dropWhile g := by
  induction L with
  | nil => exact ⟨rfl, rfl⟩
  | cons c L ih =>
    obtain ⟨hc, hL⟩ := List.forall_mem_cons.mp h
    obtain ⟨htake, hdrop⟩ := ih hL
    rw [List.takeWhile_cons, List.takeWhile_cons, List.dropWhile_cons, List.dropWhile_cons, hc,
      htake, hdrop]
    exact ⟨rfl, rfl⟩

omit [DecidableEq P] in
/-- Only the coordinates of the other nodes matter. -/
lemma passed_congr (h : ∀ c ∈ F ++ G, pos' c = pos c) :
    passed flags pos' real F G = passed flags pos real F G ∧
      placed flags pos' n real F G = placed flags pos n real F G := by
  have hbefore : ∀ c ∈ F.reverse, goesBefore flags pos' real c = goesBefore flags pos real c := by
    intro c hc
    unfold goesBefore
    rw [h c (List.mem_append_left G (List.mem_reverse.mp hc))]
  obtain ⟨htake, hdrop⟩ := takeWhile_congr hbefore
  have hpassed : passedBefore flags pos' real F = passedBefore flags pos real F := htake
  have hstays : staysBefore flags pos' real F = staysBefore flags pos real F := congrArg _ hdrop
  have hmem : ∀ c ∈ behind flags pos real F G, c ∈ F ++ G := by
    intro c hc
    obtain hc | hc := List.mem_append.mp hc
    · apply List.mem_append_left
      exact List.mem_reverse.mp ((List.takeWhile_sublist _).subset (List.mem_reverse.mp hc))
    · exact List.mem_append_right F hc
  have hbehind : ∀ c ∈ behind flags pos real F G,
      goesBehind flags pos' real c = goesBehind flags pos real c := by
    intro c hc
    unfold goesBehind
    rw [h c (hmem c hc)]
  obtain ⟨htake', hdrop'⟩ := takeWhile_congr hbehind
  unfold passed placed
  have hsame : behind flags pos' real F G = behind flags pos real F G := by
    unfold behind
    rw [hpassed]
  rw [hpassed, hstays, hsame, htake', hdrop']
  exact ⟨rfl, rfl⟩

/-- Two lists of the same nodes in the same order, at the same coordinates. -/
structure SameOrder (l l' : AxisList P α) (live : Set P) (L : List P) : Prop where
  left : ListInv l live L
  right : ListInv l' live L
  pos : ∀ p ∈ L, l'.pos p = l.pos p

omit [LinearOrder α] in
lemma SameOrder.push {f : P} (h : SameOrder l l' live (f :: L)) (hp : p ∉ live)
    (hl : l.pushFirst p = .ok m) (hr : l'.pushFirst p = .ok m') :
    SameOrder m m' (Set.insert p live) (p :: f :: L) ∧ m.pos = Function.update l.pos p (l.pos f) := by
  obtain ⟨t, ht, hinv, hpos⟩ := h.left.push hp
  obtain ⟨t', ht', hinv', hpos'⟩ := h.right.push hp
  obtain rfl : t = m := Except.ok.inj (ht.symm.trans hl)
  obtain rfl : t' = m' := Except.ok.inj (ht'.symm.trans hr)
  refine ⟨⟨hinv, hinv', fun q hq => ?_⟩, hpos⟩
  rw [hpos, hpos']
  by_cases hqp : q = p
  · rw [hqp, Function.update_self, Function.update_self, h.pos f List.mem_cons_self]
  · rw [Function.update_of_ne hqp, Function.update_of_ne hqp]
    exact h.pos q ((List.mem_cons.mp hq).resolve_left hqp)

/-- Updates that make the same test leave the same order. They make the same calls just when all
the nodes passed are hidden. -/
theorem SameOrder.update (h : SameOrder l l' live (F ++ n :: G))
    (htest : real = old ↔ real = old')
    (hl : l.update flags false fuel n real old = .ok m)
    (hr : l'.update flags true fuel' n real old' = .ok m') :
    (∃ L, SameOrder m m' live L) ∧ (l.passes = l'.passes → (m.passes = m'.passes ↔
      (real ≠ old → ∀ c ∈ passed flags l.pos real F G, flags.hideOrRemoved c = true))) := by
  by_cases heq : real = old
  · unfold AxisList.update at hl hr
    rw [if_neg (not_not.mpr heq)] at hl
    rw [if_neg (not_not.mpr (htest.mp heq))] at hr
    obtain rfl := Except.ok.inj hl
    obtain rfl := Except.ok.inj hr
    exact ⟨⟨_, h⟩, fun hpasses => ⟨fun _ hne => absurd heq hne, fun _ => hpasses⟩⟩
  · have heq' : real ≠ old' := fun he => heq (htest.mpr he)
    have hnodup := h.left.linked.nodup
    have hother : ∀ c ∈ F ++ G, l'.pos c = l.pos c := by
      intro c hc
      apply h.pos
      have hperm : (F ++ n :: G).Perm (n :: (F ++ G)) := List.perm_middle
      exact hperm.mem_iff.mpr (List.mem_cons_of_mem n hc)
    obtain ⟨hlinked, hpos, hpasses, hout⟩ := (update_exact h.left.linked heq).of_eq_ok hl
    obtain ⟨hlinked', hpos', hpasses', hout'⟩ := (update_exact h.right.linked heq').of_eq_ok hr
    obtain ⟨hsame, hplaced⟩ := @passed_congr _ _ _ F G flags n real _ _ hother
    rw [hplaced] at hlinked'
    rw [hsame] at hpasses'
    have hmem : ∀ q, q ∈ placed flags l.pos n real F G ↔ q ∈ live := fun q =>
      (placed_perm flags l.pos n real F G).mem_iff.trans (h.left.mem q)
    refine ⟨⟨_, ⟨hlinked, hmem, fun q hq => ?_⟩, ⟨hlinked', hmem, fun q hq => ?_⟩, fun q hq => ?_⟩,
      fun hbefore => ?_⟩
    · have hq' : q ∉ F ++ n :: G := fun hm => hq ((h.left.mem q).mp hm)
      rw [(hout q hq').1, (hout q hq').2]
      exact h.left.detached q hq
    · have hq' : q ∉ F ++ n :: G := fun hm => hq ((h.left.mem q).mp hm)
      rw [(hout' q hq').1, (hout' q hq').2]
      exact h.right.detached q hq
    · rw [hpos, hpos']
      by_cases hqn : q = n
      · rw [hqn, Function.update_self, Function.update_self]
      · rw [Function.update_of_ne hqn, Function.update_of_ne hqn]
        exact h.pos q ((h.left.mem q).mpr ((hmem q).mp hq))
    · rw [hpasses, hpasses', hbefore, eq_comm, notifyAll_eq_iff _ rfl]
      exact ⟨fun hall _ => hall.2, fun hall => ⟨rfl, hall heq⟩⟩

end Two
end TyphoonZero.CrossList
