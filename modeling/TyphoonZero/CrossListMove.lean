import TyphoonZero.CrossList

/-! Moving, inserting and unlinking on one axis keep a well-formed list. -/
namespace TyphoonZero.CrossList
open Loop LinkedChain Tower

variable {P α : Type*} [DecidableEq P] {l : AxisList P α}

abbrev AxisList.Linked (l : AxisList P α) (L : List P) : Prop := DLinked l.first l.prev l.next L

section Setters
variable {p x : P} {q : Option P} {v : α}

@[simp] lemma setPrev_prev : (l.setPrev p q).prev x = if x = p ∧ q ≠ some p then q else l.prev x := by
  unfold AxisList.setPrev
  by_cases h : some p = q
  · subst h; simp
  · by_cases hx : x = p <;> simp [h, hx, Ne.symm h]

@[simp] lemma setNext_next : (l.setNext p q).next x = if x = p ∧ q ≠ some p then q else l.next x := by
  unfold AxisList.setNext
  by_cases h : some p = q
  · subst h; simp
  · by_cases hx : x = p <;> simp [h, hx, Ne.symm h]

@[simp] lemma setPrev_next : (l.setPrev p q).next = l.next := by
  unfold AxisList.setPrev; split_ifs <;> rfl

@[simp] lemma setPrev_first : (l.setPrev p q).first = l.first := by
  unfold AxisList.setPrev; split_ifs <;> rfl

@[simp] lemma setPrev_pos : (l.setPrev p q).pos = l.pos := by
  unfold AxisList.setPrev; split_ifs <;> rfl

@[simp] lemma setNext_prev : (l.setNext p q).prev = l.prev := by
  unfold AxisList.setNext; split_ifs <;> rfl

@[simp] lemma setNext_first : (l.setNext p q).first = l.first := by
  unfold AxisList.setNext; split_ifs <;> rfl

@[simp] lemma setNext_pos : (l.setNext p q).pos = l.pos := by
  unfold AxisList.setNext; split_ifs <;> rfl

end Setters

section Moves
variable {a b : Option P} {n c : P}

/-- The pointers after a move in the negative direction past the neighbour `c`. -/
lemma moveBefore_pointers (hca : l.prev c = a) (hnc : l.prev n = some c) (hnb : l.next n = b)
    (hne : n ≠ c) (han : a ≠ some n) (hac : a ≠ some c) (hbn : b ≠ some n) (hbc : b ≠ some c)
    (hab : ∀ x, a = some x → b ≠ some x) (hf : l.first ≠ some n) :
    (l.moveBefore n c).first = (if a = none then some n else l.first) ∧
      (∀ x, (l.moveBefore n c).prev x =
        if x = n then a else if x = c then some n else if b = some x then some c else l.prev x) ∧
      (∀ x, (l.moveBefore n c).next x =
        if x = n then some c else if x = c then b else if a = some x then some n else l.next x) ∧
      (l.moveBefore n c).pos = l.pos := by
  unfold AxisList.moveBefore
  dsimp only
  rw [hca]
  refine ⟨?_, fun x => ?_, fun x => ?_, ?_⟩
  · cases a <;> cases b <;> simp_all
  · cases a <;> cases b <;> simp_all <;> grind
  · cases a <;> cases b <;> simp_all <;> grind
  · cases a <;> cases b <;> simp_all

/-- The pointers after a move in the positive direction past the neighbour `c`. -/
lemma moveAfter_pointers (hcb : l.next c = b) (hnc : l.next n = some c) (hna : l.prev n = a)
    (hne : n ≠ c) (han : a ≠ some n) (hac : a ≠ some c) (hbn : b ≠ some n) (hbc : b ≠ some c)
    (hab : ∀ x, a = some x → b ≠ some x) (hf : l.first = some n ↔ a = none) :
    (l.moveAfter n c).first = (if a = none then some c else l.first) ∧
      (∀ x, (l.moveAfter n c).prev x =
        if x = n then some c else if x = c then a else if b = some x then some n else l.prev x) ∧
      (∀ x, (l.moveAfter n c).next x =
        if x = n then b else if x = c then some n else if a = some x then some c else l.next x) ∧
      (l.moveAfter n c).pos = l.pos := by
  unfold AxisList.moveAfter
  dsimp only
  rw [hcb, if_neg hbn]
  refine ⟨?_, fun x => ?_, fun x => ?_, ?_⟩
  · cases a <;> cases b <;> simp_all
  · cases a <;> cases b <;> simp_all <;> grind
  · cases a <;> cases b <;> simp_all <;> grind
  · cases a <;> cases b <;> simp_all

end Moves

section Linked
variable {A B : List P} {n c : P}

omit [DecidableEq P] in
/-- What a list with the neighbours `c`, `n` says about their pointers. -/
lemma Linked.neighbours (h : l.Linked (A ++ c :: n :: B)) :
    l.prev c = A.getLast? ∧ l.prev n = some c ∧ l.next c = some n ∧ l.next n = B.head? := by
  have hn : A ++ c :: n :: B = (A ++ [c]) ++ n :: B := by simp
  refine ⟨h.prev A c (n :: B) rfl, ?_, h.next A c (n :: B) rfl, h.next (A ++ [c]) n B hn⟩
  rw [h.prev (A ++ [c]) n B hn, List.getLast?_append]
  rfl

omit [DecidableEq P] in
/-- The elements around two neighbours are different from them and each other. -/
lemma Linked.distinct (h : l.Linked (A ++ c :: n :: B)) :
    n ≠ c ∧ (∀ x ∈ A ++ B, x ≠ n ∧ x ≠ c) ∧ ∀ x, A.getLast? = some x → B.head? ≠ some x := by
  have hnd := h.nodup
  refine ⟨?_, fun x hx => ⟨?_, ?_⟩, fun x hA hB => ?_⟩
  · rintro rfl
    simp [List.nodup_append] at hnd
  · rintro rfl
    rcases List.mem_append.mp hx with hx | hx
    · exact List.disjoint_of_nodup_append hnd hx (by simp)
    · simp [List.nodup_append, hx] at hnd
  · rintro rfl
    rcases List.mem_append.mp hx with hx | hx
    · exact List.disjoint_of_nodup_append hnd hx (by simp)
    · simp [List.nodup_append, hx] at hnd
  · have hxA := List.mem_of_getLast? hA
    have hxB := List.mem_of_mem_head? hB
    exact List.disjoint_of_nodup_append hnd hxA (by simp [hxB])

omit [DecidableEq P] in
lemma getLast?_ne {x : P} (h : ∀ y ∈ A, y ≠ x) : A.getLast? ≠ some x :=
  fun hx => h x (List.mem_of_getLast? hx) rfl

omit [DecidableEq P] in
lemma head?_ne {x : P} (h : ∀ y ∈ B, y ≠ x) : B.head? ≠ some x :=
  fun hx => h x (List.mem_of_mem_head? hx) rfl

theorem moveBefore_linked (h : l.Linked (A ++ c :: n :: B)) :
    (l.moveBefore n c).Linked (A ++ n :: c :: B) ∧ (l.moveBefore n c).pos = l.pos ∧
      ∀ x ∉ A ++ c :: n :: B, (l.moveBefore n c).prev x = l.prev x ∧
        (l.moveBefore n c).next x = l.next x := by
  obtain ⟨hca, hnc, -, hnb⟩ := Linked.neighbours h
  obtain ⟨hne, hx, hab⟩ := Linked.distinct h
  have hA : ∀ y ∈ A, y ≠ n ∧ y ≠ c := fun y hy => hx y (by simp [hy])
  have hB : ∀ y ∈ B, y ≠ n ∧ y ≠ c := fun y hy => hx y (by simp [hy])
  have hf : l.first ≠ some n := by
    rw [h.first]
    cases A with
    | nil => simpa using hne.symm
    | cons a A => simpa using (hA a (by simp)).1
  obtain ⟨hfirst, hprev, hnext, hpos⟩ := moveBefore_pointers hca hnc hnb hne
    (getLast?_ne fun y hy => (hA y hy).1) (getLast?_ne fun y hy => (hA y hy).2)
    (head?_ne fun y hy => (hB y hy).1) (head?_ne fun y hy => (hB y hy).2) hab hf
  have hperm : (A ++ n :: c :: B).Perm (A ++ c :: n :: B) := (List.Perm.swap c n B).append_left A
  refine ⟨⟨hperm.nodup_iff.mpr h.nodup, ?_, ?_, ?_⟩, hpos, fun x hxL => ?_⟩
  · rw [hfirst, h.first]
    cases A <;> simp
  · refine h.prev.swap h.nodup ?_ ?_ (fun b hb => ?_) fun b hb hbh => ?_
    · rw [hprev, if_pos rfl]
    · rw [hprev, if_neg hne.symm, if_pos rfl]
    · have hb' := hB b (List.mem_of_mem_head? hb)
      rw [hprev, if_neg hb'.1, if_neg hb'.2, if_pos hb]
    · rw [hprev, if_neg (hx b hb).1, if_neg (hx b hb).2, if_neg hbh]
  · refine h.next.swap h.nodup ?_ ?_ (fun a ha => ?_) fun b hb hbh => ?_
    · rw [hnext, if_neg hne.symm, if_pos rfl]
    · rw [hnext, if_pos rfl]
    · have ha' := hA a (List.mem_of_getLast? ha)
      rw [hnext, if_neg ha'.1, if_neg ha'.2, if_pos ha]
    · rw [hnext, if_neg (hx b hb).1, if_neg (hx b hb).2, if_neg hbh]
  · simp only [List.mem_append, List.mem_cons, not_or] at hxL
    obtain ⟨hxA, hxc, hxn, hxB⟩ := hxL
    have hxa : A.getLast? ≠ some x := getLast?_ne fun y hy he => hxA (he ▸ hy)
    have hxb : B.head? ≠ some x := head?_ne fun y hy he => hxB (he ▸ hy)
    rw [hprev, hnext, if_neg hxn, if_neg hxc, if_neg hxb, if_neg hxn, if_neg hxc, if_neg hxa]
    exact ⟨rfl, rfl⟩

theorem moveAfter_linked (h : l.Linked (A ++ n :: c :: B)) :
    (l.moveAfter n c).Linked (A ++ c :: n :: B) ∧ (l.moveAfter n c).pos = l.pos ∧
      ∀ x ∉ A ++ n :: c :: B, (l.moveAfter n c).prev x = l.prev x ∧
        (l.moveAfter n c).next x = l.next x := by
  obtain ⟨hna, -, hnc, hcb⟩ := Linked.neighbours h
  obtain ⟨hne, hx, hab⟩ := Linked.distinct h
  have hA : ∀ y ∈ A, y ≠ c ∧ y ≠ n := fun y hy => hx y (by simp [hy])
  have hB : ∀ y ∈ B, y ≠ c ∧ y ≠ n := fun y hy => hx y (by simp [hy])
  have hf : l.first = some n ↔ A.getLast? = none := by
    rw [h.first]
    cases A with
    | nil => simp
    | cons a A => simpa using (hA a (by simp)).2
  obtain ⟨hfirst, hprev, hnext, hpos⟩ := moveAfter_pointers hcb hnc hna hne.symm
    (getLast?_ne fun y hy => (hA y hy).2) (getLast?_ne fun y hy => (hA y hy).1)
    (head?_ne fun y hy => (hB y hy).2) (head?_ne fun y hy => (hB y hy).1) hab hf
  have hperm : (A ++ c :: n :: B).Perm (A ++ n :: c :: B) := (List.Perm.swap n c B).append_left A
  refine ⟨⟨hperm.nodup_iff.mpr h.nodup, ?_, ?_, ?_⟩, hpos, fun x hxL => ?_⟩
  · rw [hfirst, h.first]
    cases A <;> simp
  · refine h.prev.swap h.nodup ?_ ?_ (fun b hb => ?_) fun b hb hbh => ?_
    · rw [hprev, if_neg hne, if_pos rfl]
    · rw [hprev, if_pos rfl]
    · have hb' := hB b (List.mem_of_mem_head? hb)
      rw [hprev, if_neg hb'.2, if_neg hb'.1, if_pos hb]
    · rw [hprev, if_neg (hx b hb).2, if_neg (hx b hb).1, if_neg hbh]
  · refine h.next.swap h.nodup ?_ ?_ (fun a ha => ?_) fun b hb hbh => ?_
    · rw [hnext, if_pos rfl]
    · rw [hnext, if_neg hne, if_pos rfl]
    · have ha' := hA a (List.mem_of_getLast? ha)
      rw [hnext, if_neg ha'.2, if_neg ha'.1, if_pos ha]
    · rw [hnext, if_neg (hx b hb).2, if_neg (hx b hb).1, if_neg hbh]
  · simp only [List.mem_append, List.mem_cons, not_or] at hxL
    obtain ⟨hxA, hxn, hxc, hxB⟩ := hxL
    have hxa : A.getLast? ≠ some x := getLast?_ne fun y hy he => hxA (he ▸ hy)
    have hxb : B.head? ≠ some x := head?_ne fun y hy he => hxB (he ▸ hy)
    rw [hprev, hnext, if_neg hxn, if_neg hxc, if_neg hxb, if_neg hxn, if_neg hxc, if_neg hxa]
    exact ⟨rfl, rfl⟩

end Linked

section PushUnlink
variable {n : P} {F G L : List P}

theorem pushFirst_linked {f : P} (h : l.Linked (f :: L)) (hn : n ∉ f :: L) (hp : l.prev n = none) :
    ∃ l', l.pushFirst n = .ok l' ∧ l'.Linked (n :: f :: L) ∧
      l'.pos = Function.update l.pos n (l.pos f) ∧
      ∀ x ∉ n :: f :: L, l'.prev x = l.prev x ∧ l'.next x = l.next x := by
  have hf : l.first = some f := h.first
  have hnf : n ≠ f := fun he => hn (by simp [he])
  refine ⟨_, by unfold AxisList.pushFirst; rw [hf], ⟨List.nodup_cons.mpr ⟨hn, h.nodup⟩, rfl, ?_, ?_⟩,
    ?_, fun x hx => ?_⟩
  · refine Pred.insert (F := []) h.prev (List.nodup_cons.mpr ⟨hn, h.nodup⟩) ?_ (fun y hy => ?_) ?_
    · simp [AxisList.setPos, hnf, hp]
    · simp only [List.head?_cons, Option.some.injEq] at hy
      subst hy
      simp [AxisList.setPos, hnf]
    · intro b _ hb
      have hbf : b ≠ f := fun he => hb (by simp [he])
      simp [AxisList.setPos, hbf]
  · refine Succ.insert (F := []) h.next (List.nodup_cons.mpr ⟨hn, h.nodup⟩) ?_ (by simp) ?_
    · simp [AxisList.setPos, hnf.symm]
    · intro b hb _
      have hbn : b ≠ n := fun he => hn (by simpa [he] using hb)
      simp [AxisList.setPos, hbn]
  · simp [AxisList.setPos]
  · simp only [List.mem_cons, not_or] at hx
    simp [AxisList.setPos, hx.1, hx.2.1]

theorem unlink_linked (h : l.Linked (F ++ n :: G)) :
    ∃ l', l.unlink n = .ok l' ∧ (l'.resetPtr n).Linked (F ++ G) ∧ l'.pos = l.pos ∧
      ∀ x ∉ F ++ n :: G, l'.prev x = l.prev x ∧ l'.next x = l.next x := by
  have hnd := h.nodup
  have hFG : (F ++ G).Nodup := hnd.sublist (by simp)
  have hp := h.prev F n G rfl
  have hs := h.next F n G rfl
  have hnF : ∀ a ∈ F, a ≠ n := fun a ha he =>
    List.disjoint_of_nodup_append hnd (he ▸ ha) (by simp)
  have hnG : ∀ a ∈ G, a ≠ n := fun a ha he => by
    simp [List.nodup_append, ← he, ha] at hnd
  have hn : ∀ a ∈ F ++ G, a ≠ n := fun a ha =>
    (List.mem_append.mp ha).elim (hnF a) (hnG a)
  cases F using List.reverseRecOn with
  | nil =>
    have hf : l.first = some n := h.first
    cases G with
    | nil =>
      refine ⟨{ l with first := none }, by simp [AxisList.unlink, hf, hs], ⟨hFG, rfl, ?_, ?_⟩, rfl,
        fun x hx => ⟨rfl, rfl⟩⟩
      · intro A x B hx
        simp at hx
      · intro A x B hx
        simp at hx
    | cons g G =>
      have hgn := hnG g (by simp)
      refine ⟨AxisList.setPrev { l with first := some g } g none, by simp [AxisList.unlink, hf, hs],
        ⟨hFG, by simp [AxisList.resetPtr], ?_, ?_⟩, by simp, fun x hx => ?_⟩
      · refine Pred.delete h.prev hnd (fun y hy => ?_) fun b hb hbg => ?_
        · simp only [List.head?_cons, Option.some.injEq] at hy
          subst hy
          simp [AxisList.resetPtr, hgn]
        · have hbg' : b ≠ g := fun he => hbg (by simp [he])
          simp [AxisList.resetPtr, hn b hb, hbg']
      · refine Succ.delete h.next hnd (by simp) fun b hb _ => ?_
        simp [AxisList.resetPtr, hn b hb]
      · simp only [List.nil_append, List.mem_cons, not_or] at hx
        simp [hx.2.1]
  | append_singleton F a =>
    have han := hnF a (by simp)
    have hf : l.first ≠ some n := by
      rw [h.first]
      cases F with
      | nil => simpa using han
      | cons b F => simpa using hnF b (by simp)
    have hpa : l.prev n = some a := by rw [hp]; simp
    cases G with
    | nil =>
      have hs' : l.next n = none := hs
      refine ⟨l.setNext a none, by simp [AxisList.unlink, hf, hpa, hs'],
        ⟨hFG, ?_, ?_, ?_⟩, by simp, fun x hx => ?_⟩
      · simp only [AxisList.resetPtr, setNext_first, h.first]
        cases F <;> simp
      · refine Pred.delete h.prev hnd (by simp) fun b hb _ => ?_
        simp [AxisList.resetPtr, hn b hb]
      · refine Succ.delete h.next hnd (fun y hy => ?_) fun b hb hba => ?_
        · simp only [List.getLast?_append, List.getLast?_singleton, Option.some_or,
            Option.some.injEq] at hy
          subst hy
          simp [AxisList.resetPtr, han]
        · have hba' : b ≠ a := fun he => hba (by simp [he])
          simp [AxisList.resetPtr, hn b hb, hba']
      · simp only [List.mem_append, List.mem_cons, not_or] at hx
        simp [hx.1.2.1]
    | cons g G =>
      have hgn := hnG g (by simp)
      have hs' : l.next n = some g := hs
      have hag : a ≠ g := fun he =>
        List.disjoint_of_nodup_append hFG (a := a) (by simp) (by simp [he])
      refine ⟨(l.setNext a (some g)).setPrev g (some a), by
          simp [AxisList.unlink, hf, hpa, hs', han.symm, hag.symm],
        ⟨hFG, ?_, ?_, ?_⟩, by simp, fun x hx => ?_⟩
      · simp only [AxisList.resetPtr, setPrev_first, setNext_first, h.first]
        cases F <;> simp
      · refine Pred.delete h.prev hnd (fun y hy => ?_) fun b hb hbg => ?_
        · simp only [List.head?_cons, Option.some.injEq] at hy
          subst hy
          simp [AxisList.resetPtr, hgn, hag]
        · have hbg' : b ≠ g := fun he => hbg (by simp [he])
          simp [AxisList.resetPtr, hn b hb, hbg']
      · refine Succ.delete h.next hnd (fun y hy => ?_) fun b hb hba => ?_
        · simp only [List.getLast?_append, List.getLast?_singleton, Option.some_or,
            Option.some.injEq] at hy
          subst hy
          simp [AxisList.resetPtr, han, hag.symm]
        · have hba' : b ≠ a := fun he => hba (by simp [he])
          simp [AxisList.resetPtr, hn b hb, hba']
      · simp only [List.mem_append, List.mem_cons, not_or] at hx
        simp [hx.1.2.1, hx.2.2.1]

end PushUnlink

section Debug
omit [DecidableEq P]
variable {L : List P} {p : P} {fuel : ℕ}

/-- From a node of the list the walk comes to the last one. -/
lemma debugFrom_safe {A B : List P} (h : l.Linked (A ++ p :: B)) :
    Safe .outOfFuel (B.length < fuel) (l.debugFrom fuel p) fun _ => True := by
  induction B generalizing A p fuel with
  | nil =>
    cases fuel with
    | zero => exact ⟨rfl, Nat.not_lt_zero _⟩
    | succ fuel =>
      have hnext : l.next p = none := h.next A p [] rfl
      rw [AxisList.debugFrom, hnext]
      trivial
  | cons q B ih =>
    cases fuel with
    | zero => exact ⟨rfl, Nat.not_lt_zero _⟩
    | succ fuel =>
      have hnext : l.next p = some q := h.next A p (q :: B) rfl
      rw [AxisList.debugFrom, hnext]
      have hrest : l.Linked ((A ++ [p]) ++ q :: B) := by rwa [List.append_assoc]
      exact (ih hrest).enough fun hlt => Nat.lt_of_succ_lt_succ hlt

lemma debugFrom_fuel (fuel : ℕ) (p : P) : Safe .outOfFuel False (l.debugFrom fuel p) fun _ => True := by
  induction fuel generalizing p with
  | zero => exact ⟨rfl, id⟩
  | succ fuel ih =>
    rw [AxisList.debugFrom]
    cases l.next p with
    | none => trivial
    | some q => exact ih q

/-- The walk may begin at the first node of another list. -/
lemma debug_safe (h : l.Linked L) (fuel : ℕ) (p : P) :
    Safe .outOfFuel (p ∈ L ∧ L.length ≤ fuel) (l.debug fuel (some p)) fun _ => True := by
  by_cases hp : p ∈ L
  · obtain ⟨A, B, rfl⟩ := List.append_of_mem hp
    refine (debugFrom_safe h).enough fun hle => ?_
    have hlen := hle.2
    rw [List.length_append, List.length_cons] at hlen
    omega
  · exact (debugFrom_fuel fuel p).enough fun hmem => hp hmem.1

end Debug

/-- One axis links exactly the nodes `live`, in any order; other nodes have no neighbours. -/
structure ListInv (l : AxisList P α) (live : Set P) (L : List P) : Prop where
  linked : l.Linked L
  mem : ∀ p, p ∈ L ↔ p ∈ live
  detached : ∀ p, p ∉ live → l.prev p = none ∧ l.next p = none

section ListInv
variable {live : Set P} {L F G : List P} {p : P}

lemma ListInv.push {f : P} (h : ListInv l live (f :: L)) (hp : p ∉ live) :
    ∃ l', l.pushFirst p = .ok l' ∧ ListInv l' (Set.insert p live) (p :: f :: L) ∧
      l'.pos = Function.update l.pos p (l.pos f) := by
  have hpL : p ∉ f :: L := fun hm => hp ((h.mem p).mp hm)
  obtain ⟨l', hl', hlinked, hpos, hout⟩ := pushFirst_linked h.linked hpL (h.detached p hp).1
  refine ⟨l', hl', ⟨hlinked, fun q => ?_, fun q hq => ?_⟩, hpos⟩
  · rw [List.mem_cons, h.mem]
    rfl
  · have hq' : q ≠ p ∧ q ∉ live := ⟨fun he => hq (he ▸ Set.mem_insert q live), fun hl => hq (.inr hl)⟩
    have hqL : q ∉ p :: f :: L := by
      rw [List.mem_cons, h.mem]
      tauto
    rw [(hout q hqL).1, (hout q hqL).2]
    exact h.detached q hq'.2

lemma ListInv.unlink (h : ListInv l live (F ++ p :: G)) :
    ∃ l', l.unlink p = .ok l' ∧ ListInv (l'.resetPtr p) (live \ {p}) (F ++ G) ∧ l'.pos = l.pos := by
  obtain ⟨l', hl', hlinked, hpos, hout⟩ := unlink_linked h.linked
  have hperm : (F ++ p :: G).Perm (p :: (F ++ G)) := List.perm_middle
  have hpn := (List.nodup_cons.mp (hperm.nodup_iff.mp h.linked.nodup)).1
  refine ⟨l', hl', ⟨hlinked, fun q => ?_, fun q hq => ?_⟩, hpos⟩
  · have hq := h.mem q
    rw [hperm.mem_iff, List.mem_cons] at hq
    rw [Set.mem_sdiff, Set.mem_singleton_iff, ← hq]
    constructor
    · exact fun hm => ⟨.inr hm, fun he => hpn (he ▸ hm)⟩
    · rintro ⟨rfl | hm, hne⟩
      · exact absurd rfl hne
      · exact hm
  · by_cases hqp : q = p
    · simp [AxisList.resetPtr, hqp]
    · have hq' : q ∉ live := fun hl => hq ⟨hl, hqp⟩
      have hqL : q ∉ F ++ p :: G := fun hm => hq' ((h.mem q).mp hm)
      simp only [AxisList.resetPtr, Function.update_of_ne hqp, (hout q hqL).1, (hout q hqL).2]
      exact h.detached q hq'

/-- The first node of an empty list. -/
lemma ListInv.singleton (h : ListInv l live []) (p : P) (v : α) :
    ListInv ((AxisList.resetPtr { l with first := some p } p).setPos p v) (Set.insert p live) [p] := by
  refine ⟨⟨by simp, rfl, ?_, ?_⟩, fun q => ?_, fun q hq => ?_⟩
  · intro A x B hs
    obtain ⟨rfl, rfl, rfl⟩ : A = [] ∧ x = p ∧ B = [] := by cases A <;> simp_all
    simp [AxisList.setPos, AxisList.resetPtr]
  · intro A x B hs
    obtain ⟨rfl, rfl, rfl⟩ : A = [] ∧ x = p ∧ B = [] := by cases A <;> simp_all
    simp [AxisList.setPos, AxisList.resetPtr]
  · have hlive : q ∉ live := fun hq => by simpa using (h.mem q).mpr hq
    rw [List.mem_singleton]
    exact ⟨.inl, fun hq => hq.resolve_right hlive⟩
  · have hqp : q ≠ p := fun he => hq (.inl he)
    have hlive : q ∉ live := fun hl => hq (.inr hl)
    simpa [AxisList.setPos, AxisList.resetPtr, hqp] using h.detached q hlive

/-- A node outside the list has nothing to reset. -/
lemma ListInv.resetPtr_eq (h : ListInv l live L) (hp : p ∉ live) : l.resetPtr p = l := by
  obtain ⟨hprev, hnext⟩ := h.detached p hp
  unfold AxisList.resetPtr
  rw [Function.update_eq_self_iff.mpr hprev.symm, Function.update_eq_self_iff.mpr hnext.symm]

omit [DecidableEq P] in
/-- The list leads to its own nodes only. -/
lemma ListInv.unreferenced (h : ListInv l live L) (hp : p ∉ live) :
    l.first ≠ some p ∧ ∀ q, l.prev q ≠ some p ∧ l.next q ≠ some p := by
  have hmem : p ∉ L := fun hm => hp ((h.mem p).mp hm)
  refine ⟨fun hf => ?_, fun q => ⟨fun hq => ?_, fun hq => ?_⟩⟩
  · rw [h.linked.first] at hf
    exact hmem (List.mem_of_head? hf)
  · by_cases hlive : q ∈ live
    · obtain ⟨F, G, hL⟩ := List.append_of_mem ((h.mem q).mpr hlive)
      rw [h.linked.prev F q G hL] at hq
      apply hmem
      rw [hL]
      exact List.mem_append_left _ (List.mem_of_getLast? hq)
    · rw [(h.detached q hlive).1] at hq
      cases hq
  · by_cases hlive : q ∈ live
    · obtain ⟨F, G, hL⟩ := List.append_of_mem ((h.mem q).mpr hlive)
      rw [h.linked.next F q G hL] at hq
      apply hmem
      rw [hL]
      exact List.mem_append_right _ (List.mem_cons_of_mem _ (List.mem_of_head? hq))
    · rw [(h.detached q hlive).2] at hq
      cases hq

omit [DecidableEq P] in
lemma ListInv.eq_nil_iff (h : ListInv l live L) : L = [] ↔ live = ∅ := by
  constructor
  · rintro rfl
    exact Set.eq_empty_of_forall_notMem fun q hq => List.not_mem_nil ((h.mem q).mpr hq)
  · rintro rfl
    exact List.eq_nil_iff_forall_not_mem.mpr fun q hq => (h.mem q).mp hq

omit [DecidableEq P] in
lemma ListInv.first_eq_none_iff (h : ListInv l live L) : l.first = none ↔ live = ∅ := by
  rw [h.linked.first, List.head?_eq_none_iff, h.eq_nil_iff]

lemma ListInv.ncard (h : ListInv l live L) : live.ncard = L.length := by
  have hlive : live = (L.toFinset : Set P) := by
    ext q
    simp [h.mem]
  rw [hlive, Set.ncard_coe_finset, List.toFinset_card_of_nodup h.linked.nodup]

end ListInv

end TyphoonZero.CrossList
