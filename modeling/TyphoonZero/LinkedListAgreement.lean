import TyphoonZero.LinkedList

/-! Every run of the intrusive list keeps its sequences: the pointers of a list lead from
`first_` through the elements to `last_`, and back. -/
namespace TyphoonZero.LinkedList
open LinkedChain

variable {H E : Type} {m : Memory H E} {seq seq' : Sequences H E} {h : H} {e : E} {L : List E}

/-- The nodes of a list with its two sentinels. -/
def chain (h : H) (L : List E) : List (Node H E) := .first h :: (L.map .elem ++ [.last h])

lemma elem_mem_chain : Node.elem e ∈ chain h L ↔ e ∈ L := by
  simp [chain]

lemma first_mem_chain {h' : H} : Node.first h' ∈ chain h L ↔ h' = h := by
  simp [chain]

lemma last_mem_chain {h' : H} : Node.last h' ∈ chain h L ↔ h' = h := by
  simp [chain]

lemma nodup_chain : (chain h L).Nodup ↔ L.Nodup := by
  have hinj : Function.Injective (Node.elem : E → Node H E) := fun _ _ heq => Node.elem.inj heq
  simp [chain, List.nodup_append, List.nodup_map_iff hinj]

structure Linked (m : Memory H E) (seq : Sequences H E) : Prop where
  next : ∀ h, Succ m.next (chain h (seq h))
  prev : ∀ h, Pred m.prev (chain h (seq h))
  nodup : ∀ h, (seq h).Nodup
  apart : ∀ h h' e, e ∈ seq h → e ∈ seq h' → h = h'
  free : ∀ e, Free seq e → m.next (.elem e) = none ∧ m.prev (.elem e) = none
  size : ∀ h, m.size h = 0

lemma linked_init : Linked (Memory.init : Memory H E) fun _ => [] where
  next h A x B hs := by
    rcases A with _ | ⟨a, _ | ⟨a', A⟩⟩ <;> simp_all [chain, Memory.init]
    · rw [← hs.1, ← hs.2]
      rfl
    · rw [← hs.2.1]
  prev h A x B hs := by
    rcases A with _ | ⟨a, _ | ⟨a', A⟩⟩ <;> simp_all [chain, Memory.init]
    · rw [← hs.1]
    · rw [← hs.1, ← hs.2.1]
  nodup h := List.nodup_nil
  apart h h' e he := absurd he List.not_mem_nil
  free e _ := ⟨rfl, rfl⟩
  size h := rfl

/-- A node belongs to one list only. -/
lemma Linked.list_unique (hl : Linked m seq) {h' : H} {x : Node H E} (hx : x ∈ chain h (seq h))
    (hx' : x ∈ chain h' (seq h')) : h = h' := by
  cases x with
  | elem e => exact hl.apart h h' e (elem_mem_chain.mp hx) (elem_mem_chain.mp hx')
  | first i => exact (first_mem_chain.mp hx).symm.trans (first_mem_chain.mp hx')
  | last i => exact (last_mem_chain.mp hx).symm.trans (last_mem_chain.mp hx')

/-- A free element is in no chain. -/
lemma Linked.not_mem_of_free (hfree : Free seq e) : Node.elem e ∉ chain h (seq h) :=
  fun he => hfree h (elem_mem_chain.mp he)

/-- One list gets or loses an element, and the pointers of the others stay. -/
lemma Linked.replace {m' : Memory H E} (hl : Linked m seq) (hother : ∀ h' ≠ h, seq' h' = seq h')
    (hmem : ∀ x, x ≠ e → (x ∈ seq' h ↔ x ∈ seq h)) (halone : ∀ h' ≠ h, e ∉ seq h')
    (hsize : m'.size = m.size) (hnext : ∀ x ∉ chain h (seq h), x ≠ .elem e → m'.next x = m.next x)
    (hprev : ∀ x ∉ chain h (seq h), x ≠ .elem e → m'.prev x = m.prev x)
    (hsucc : Succ m'.next (chain h (seq' h))) (hpred : Pred m'.prev (chain h (seq' h))) (hnd : (seq' h).Nodup)
    (hfree : Free seq' e → m'.next (.elem e) = none ∧ m'.prev (.elem e) = none) : Linked m' seq' := by
  have houtside : ∀ h' ≠ h, ∀ x ∈ chain h' (seq h'), x ∉ chain h (seq h) ∧ x ≠ .elem e := by
    intro h' hh x hx
    refine ⟨fun hx' => hh (hl.list_unique hx hx'), fun hxe => halone h' hh ?_⟩
    rw [hxe] at hx
    exact elem_mem_chain.mp hx
  have honly : ∀ h' x, x ∈ seq' h' → x ∈ seq' h → h' = h := by
    intro h' x hx' hx
    by_contra hh
    rw [hother h' hh] at hx'
    by_cases hxe : x = e
    · exact halone h' hh (hxe ▸ hx')
    · exact hh (hl.apart h' h x hx' ((hmem x hxe).mp hx))
  refine ⟨fun h' => ?_, fun h' => ?_, fun h' => ?_, fun h₁ h₂ x hx₁ hx₂ => ?_, fun x hx => ?_, ?_⟩
  · by_cases hh : h' = h
    · exact hh ▸ hsucc
    · rw [hother h' hh]
      exact (hl.next h').congr fun x hx => hnext x (houtside h' hh x hx).1 (houtside h' hh x hx).2
  · by_cases hh : h' = h
    · exact hh ▸ hpred
    · rw [hother h' hh]
      exact (hl.prev h').congr fun x hx => hprev x (houtside h' hh x hx).1 (houtside h' hh x hx).2
  · by_cases hh : h' = h
    · exact hh ▸ hnd
    · rw [hother h' hh]
      exact hl.nodup h'
  · by_cases hh₁ : h₁ = h
    · subst hh₁
      exact (honly h₂ x hx₂ hx₁).symm
    · by_cases hh₂ : h₂ = h
      · subst hh₂
        exact honly h₁ x hx₁ hx₂
      · rw [hother h₁ hh₁] at hx₁
        rw [hother h₂ hh₂] at hx₂
        exact hl.apart h₁ h₂ x hx₁ hx₂
  · by_cases hxe : x = e
    · subst hxe
      exact hfree hx
    · have hxfree : Free seq x := by
        intro h' hx'
        by_cases hh : h' = h
        · subst hh
          exact hx h' ((hmem x hxe).mpr hx')
        · exact hx h' (by rwa [hother h' hh])
      have hnot : Node.elem x ∉ chain h (seq h) := Linked.not_mem_of_free hxfree
      have hne : Node.elem x ≠ (.elem e : Node H E) := fun heq => hxe (Node.elem.inj heq)
      rw [hnext _ hnot hne, hprev _ hnot hne]
      exact hl.free x hxfree
  · rw [hsize]
    exact hl.size

/-- A list with an element, cut there. -/
lemma Linked.cut (hl : Linked m seq) (he : e ∈ seq h) : ∃ A B, seq h = A ++ e :: B ∧ e ∉ A ∧ e ∉ B ∧
    chain h (seq h) = (Node.first h :: A.map Node.elem) ++ Node.elem e :: (B.map Node.elem ++ [Node.last h]) := by
  obtain ⟨A, B, hs⟩ := List.append_of_mem he
  have hnd := hl.nodup h
  rw [hs, List.nodup_middle, List.nodup_cons, List.mem_append, not_or] at hnd
  exact ⟨A, B, hs, hnd.1.1, hnd.1.2, by simp [chain, hs]⟩

lemma deref_bind {α β : Type} (x : α) (f : α → Except Fault β) : (deref (some x) >>= f) = f x := rfl

section Update
variable [DecidableEq H] [DecidableEq E] {F G : List (Node H E)} {p x n : Node H E}

/-- The pointers after `x` went between `p` and `n`. -/
def Memory.splice (m : Memory H E) (p x n : Node H E) : Memory H E :=
  { m with
    next := Function.update (Function.update m.next x (some n)) p (some x)
    prev := Function.update (Function.update m.prev x (some p)) n (some x) }

/-- The pointers after `x` between `p` and `n` was taken out. -/
def Memory.unsplice (m : Memory H E) (p x n : Node H E) : Memory H E :=
  { m with
    next := Function.update (Function.update m.next p (some n)) x none
    prev := Function.update (Function.update m.prev n (some p)) x none }

@[simp] lemma splice_next : (m.splice p x n).next = Function.update (Function.update m.next x (some n)) p (some x) :=
  rfl

@[simp] lemma splice_prev : (m.splice p x n).prev = Function.update (Function.update m.prev x (some p)) n (some x) :=
  rfl

@[simp] lemma unsplice_next : (m.unsplice p x n).next = Function.update (Function.update m.next p (some n)) x none :=
  rfl

@[simp] lemma unsplice_prev : (m.unsplice p x n).prev = Function.update (Function.update m.prev n (some p)) x none :=
  rfl

omit [DecidableEq H] [DecidableEq E] in
lemma neighbours_mem (hsplit : chain h L = F ++ G) (hp : F.getLast? = some p) (hn : G.head? = some n) :
    p ∈ chain h L ∧ n ∈ chain h L := by
  rw [hsplit]
  exact ⟨List.mem_append_left G (List.mem_of_mem_getLast? hp), List.mem_append_right F (List.mem_of_mem_head? hn)⟩

lemma Linked.splice (hl : Linked m seq) (hsplit : chain h (seq h) = F ++ G) (hp : F.getLast? = some p)
    (hn : G.head? = some n) (hfree : Free seq e) (hseq : chain h (seq' h) = F ++ .elem e :: G)
    (hother : ∀ h' ≠ h, seq' h' = seq h') : Linked (m.splice p (.elem e) n) seq' := by
  obtain ⟨hpmem, hnmem⟩ := neighbours_mem hsplit hp hn
  have henot : Node.elem e ∉ chain h (seq h) := Linked.not_mem_of_free hfree
  have hnd : (F ++ Node.elem e :: G).Nodup := by
    rw [List.nodup_middle, List.nodup_cons, ← hsplit]
    exact ⟨henot, nodup_chain.mpr (hl.nodup h)⟩
  have hpe : Node.elem e ≠ p := fun heq => henot (heq ▸ hpmem)
  have hne : Node.elem e ≠ n := fun heq => henot (heq ▸ hnmem)
  have hnot : ∀ b ∈ F ++ G, b ≠ .elem e := fun b hb heq => henot (by rwa [hsplit, ← heq])
  refine hl.replace (e := e) hother (fun x hx => ?_) (fun h' _ => hfree h') rfl (fun x hx hxe => ?_)
    (fun x hx hxe => ?_) ?_ ?_ ?_ fun he => ?_
  · rw [← @elem_mem_chain H E h x (seq' h), ← @elem_mem_chain H E h x (seq h), hseq, hsplit]
    simp [hx]
  · rw [splice_next, Function.update_of_ne (ne_of_mem_of_not_mem hpmem hx).symm, Function.update_of_ne hxe]
  · rw [splice_prev, Function.update_of_ne (ne_of_mem_of_not_mem hnmem hx).symm, Function.update_of_ne hxe]
  · rw [hseq, splice_next]
    refine (hsplit ▸ hl.next h).insert hnd ?_ (fun y hy => ?_) fun b hb hbF => ?_
    · rw [hn, Function.update_of_ne hpe, Function.update_self]
    · obtain rfl : y = p := Option.some.inj (hy.symm.trans hp)
      rw [Function.update_self]
    · rw [Function.update_of_ne (show b ≠ p from fun heq => hbF (heq ▸ hp)), Function.update_of_ne (hnot b hb)]
  · rw [hseq, splice_prev]
    refine (hsplit ▸ hl.prev h).insert hnd ?_ (fun y hy => ?_) fun b hb hbG => ?_
    · rw [hp, Function.update_of_ne hne, Function.update_self]
    · obtain rfl : y = n := Option.some.inj (hy.symm.trans hn)
      rw [Function.update_self]
    · rw [Function.update_of_ne (show b ≠ n from fun heq => hbG (heq ▸ hn)), Function.update_of_ne (hnot b hb)]
  · rwa [← @nodup_chain H E h, hseq]
  · have hemem : Node.elem e ∈ chain h (seq' h) := by
      rw [hseq]
      simp
    exact absurd (elem_mem_chain.mp hemem) (he h)

lemma Linked.unsplice (hl : Linked m seq) (hsplit : chain h (seq h) = F ++ .elem e :: G) (hp : F.getLast? = some p)
    (hn : G.head? = some n) (hseq : chain h (seq' h) = F ++ G)
    (hother : ∀ h' ≠ h, seq' h' = seq h') : Linked (m.unsplice p (.elem e) n) seq' := by
  have hnd : (chain h (seq h)).Nodup := nodup_chain.mpr (hl.nodup h)
  have hemem : Node.elem e ∈ chain h (seq h) := by
    rw [hsplit]
    simp
  rw [hsplit, List.nodup_middle, List.nodup_cons] at hnd
  obtain ⟨henot, hnd⟩ := hnd
  have hpmem : p ∈ F ++ G := List.mem_append_left G (List.mem_of_mem_getLast? hp)
  have hnmem : n ∈ F ++ G := List.mem_append_right F (List.mem_of_mem_head? hn)
  have hmem : ∀ b ∈ F ++ G, b ∈ chain h (seq h) := by
    intro b hb
    rw [hsplit]
    simp only [List.mem_append, List.mem_cons] at hb ⊢
    tauto
  have hnot : ∀ b ∈ F ++ G, b ≠ .elem e := fun b hb heq => henot (heq ▸ hb)
  refine hl.replace (e := e) hother (fun x hx => ?_) (fun h' hh he => hh ?_) rfl (fun x hx hxe => ?_)
    (fun x hx hxe => ?_) ?_ ?_ ?_ fun he => ?_
  · rw [← @elem_mem_chain H E h x (seq' h), ← @elem_mem_chain H E h x (seq h), hseq, hsplit]
    simp [hx]
  · exact hl.apart h' h e he (elem_mem_chain.mp hemem)
  · rw [unsplice_next, Function.update_of_ne hxe, Function.update_of_ne (ne_of_mem_of_not_mem (hmem p hpmem) hx).symm]
  · rw [unsplice_prev, Function.update_of_ne hxe, Function.update_of_ne (ne_of_mem_of_not_mem (hmem n hnmem) hx).symm]
  · rw [hseq, unsplice_next]
    refine (hsplit ▸ hl.next h).delete (hsplit ▸ nodup_chain.mpr (hl.nodup h)) (fun y hy => ?_) fun b hb hbF => ?_
    · obtain rfl : y = p := Option.some.inj (hy.symm.trans hp)
      rw [Function.update_of_ne (hnot y hpmem), Function.update_self, hn]
    · rw [Function.update_of_ne (hnot b hb), Function.update_of_ne (show b ≠ p from fun heq => hbF (heq ▸ hp))]
  · rw [hseq, unsplice_prev]
    refine (hsplit ▸ hl.prev h).delete (hsplit ▸ nodup_chain.mpr (hl.nodup h)) (fun y hy => ?_) fun b hb hbG => ?_
    · obtain rfl : y = n := Option.some.inj (hy.symm.trans hn)
      rw [Function.update_of_ne (hnot y hnmem), Function.update_self, hp]
    · rw [Function.update_of_ne (hnot b hb), Function.update_of_ne (show b ≠ n from fun heq => hbG (heq ▸ hn))]
  · rwa [← @nodup_chain H E h, hseq]
  · rw [unsplice_next, unsplice_prev, Function.update_self, Function.update_self]
    exact ⟨rfl, rfl⟩

omit [DecidableEq H] [DecidableEq E] in
lemma ne_of_free {this : Node H E} (hfree : Free seq e) (hsplit : chain h (seq h) = F ++ this :: G) :
    this ≠ .elem e := by
  refine fun heq => Linked.not_mem_of_free hfree (h := h) ?_
  rw [hsplit, heq]
  simp

lemma insertBefore_linked {this : Node H E} (hl : Linked m seq) (hsplit : chain h (seq h) = F ++ this :: G)
    (hF : F ≠ []) (hfree : Free seq e) (hseq : chain h (seq' h) = F ++ .elem e :: this :: G)
    (hother : ∀ h' ≠ h, seq' h' = seq h') : ∃ m', m.insertBefore this (.elem e) = .ok m' ∧ Linked m' seq' := by
  have hp := List.getLast?_eq_getLast_of_ne_nil hF
  have hprev : m.prev this = some (F.getLast hF) := (hl.prev h F this G hsplit).trans hp
  have hne := ne_of_free hfree hsplit
  refine ⟨m.splice (F.getLast hF) (.elem e) this, ?_, hl.splice hsplit hp rfl hfree hseq hother⟩
  simp only [Memory.insertBefore, Memory.setNext, Memory.setPrev, Function.update_of_ne hne, hprev, deref_bind]
  rfl

lemma insertAfter_linked {this : Node H E} (hl : Linked m seq) (hsplit : chain h (seq h) = F ++ this :: G)
    (hG : G ≠ []) (hfree : Free seq e) (hseq : chain h (seq' h) = F ++ this :: .elem e :: G)
    (hother : ∀ h' ≠ h, seq' h' = seq h') : ∃ m', m.insertAfter this (.elem e) = .ok m' ∧ Linked m' seq' := by
  have hn := List.head?_eq_some_head hG
  have hnext : m.next this = some (G.head hG) := (hl.next h F this G hsplit).trans hn
  have hne := ne_of_free hfree hsplit
  refine ⟨m.splice this (.elem e) (G.head hG), ?_, ?_⟩
  · simp only [Memory.insertAfter, Memory.setNext, Memory.setPrev, Function.update_of_ne hne, hnext, deref_bind]
    rfl
  · exact hl.splice (F := F ++ [this]) (by rw [hsplit]; simp) (by simp) hn hfree (by rw [hseq]; simp) hother

lemma delink_linked (hl : Linked m seq) (hsplit : chain h (seq h) = F ++ .elem e :: G) (hF : F ≠ []) (hG : G ≠ [])
    (hseq : chain h (seq' h) = F ++ G) (hother : ∀ h' ≠ h, seq' h' = seq h') :
    ∃ m', m.delink (.elem e) = .ok m' ∧ Linked m' seq' := by
  have hp := List.getLast?_eq_getLast_of_ne_nil hF
  have hn := List.head?_eq_some_head hG
  have hprev : m.prev (.elem e) = some (F.getLast hF) := (hl.prev h F _ G hsplit).trans hp
  have hnext : m.next (.elem e) = some (G.head hG) := (hl.next h F _ G hsplit).trans hn
  have hnd : (F ++ Node.elem e :: G).Nodup := hsplit ▸ nodup_chain.mpr (hl.nodup h)
  rw [List.nodup_middle, List.nodup_cons] at hnd
  have hne : Node.elem e ≠ G.head hG := fun heq => hnd.1 (by rw [heq]; simp)
  refine ⟨m.unsplice (F.getLast hF) (.elem e) (G.head hG), ?_, hl.unsplice hsplit hp hn hseq hother⟩
  simp only [Memory.delink, Memory.isInList, Memory.setNext, Memory.setPrev, hprev, hnext, deref_bind,
    Function.update_of_ne hne]
  rfl

lemma delink_free (hl : Linked m seq) (hfree : Free seq e) : m.delink (.elem e) = .ok m := by
  rw [Memory.delink, if_pos]
  · rfl
  · rw [Memory.isInList, (hl.free e hfree).1]
    simp

lemma flatMap_off {t : E} {g : E → List E} (ht : t ∉ L) : L.flatMap (fun x => if x = t then g x else [x]) = L := by
  induction L with
  | nil => rfl
  | cons x L ih =>
    obtain ⟨hx, hL⟩ := not_or.mp (fun h => ht (List.mem_cons.mpr h))
    rw [List.flatMap_cons, if_neg (Ne.symm hx), ih hL]
    rfl

lemma flatMap_at {A B : List E} {t : E} {g : E → List E} (hA : t ∉ A) (hB : t ∉ B) :
    (A ++ t :: B).flatMap (fun x => if x = t then g x else [x]) = A ++ (g t ++ B) := by
  rw [List.flatMap_append, List.flatMap_cons, if_pos rfl, flatMap_off hA, flatMap_off hB]

lemma exec_linked (hl : Linked m seq) {op : Op H E} (hop : op.Allowed seq) :
    ∃ m', exec m op = .ok m' ∧ Linked m' (op.apply seq) := by
  cases op with
  | insertFirst h e =>
    exact insertAfter_linked (F := []) hl rfl (by simp) hop (by simp [chain, Op.apply])
      fun h' hh => Function.update_of_ne hh _ _
  | insertLast h e =>
    exact insertBefore_linked (F := .first h :: (seq h).map .elem) (G := []) hl (by simp [chain]) (by simp) hop
      (by simp [chain, Op.apply]) fun h' hh => Function.update_of_ne hh _ _
  | insertBefore t e =>
    obtain ⟨hfree, h, ht⟩ := hop
    obtain ⟨A, B, hs, hA, hB, hsplit⟩ := hl.cut ht
    have happly : (Op.insertBefore t e).apply seq h = A ++ ([e, t] ++ B) := by
      change (seq h).flatMap _ = _
      rw [hs, flatMap_at hA hB]
    exact insertBefore_linked hl hsplit (by simp) hfree (by rw [happly]; simp [chain]) fun h' hh =>
      flatMap_off fun ht' => hh (hl.apart h' h t ht' ht)
  | insertAfter t e =>
    obtain ⟨hfree, h, ht⟩ := hop
    obtain ⟨A, B, hs, hA, hB, hsplit⟩ := hl.cut ht
    have happly : (Op.insertAfter t e).apply seq h = A ++ ([t, e] ++ B) := by
      change (seq h).flatMap _ = _
      rw [hs, flatMap_at hA hB]
    exact insertAfter_linked hl hsplit (by simp) hfree (by rw [happly]; simp [chain]) fun h' hh =>
      flatMap_off fun ht' => hh (hl.apart h' h t ht' ht)
  | delink e =>
    by_cases hin : ∃ h, e ∈ seq h
    · obtain ⟨h, he⟩ := hin
      obtain ⟨A, B, hs, hA, hB, hsplit⟩ := hl.cut he
      have happly : (Op.delink e).apply seq h = A ++ B := by
        change (seq h).erase e = _
        rw [hs, List.erase_append_right _ hA, List.erase_cons_head]
      exact delink_linked hl hsplit (by simp) (by simp) (by rw [happly]; simp [chain]) fun h' hh =>
        List.erase_of_not_mem fun he' => hh (hl.apart h' h e he' he)
    · have hfree : Free seq e := fun h he => hin ⟨h, he⟩
      have hsame : (Op.delink e).apply seq = seq := funext fun h => List.erase_of_not_mem (hfree h)
      rw [hsame]
      exact ⟨m, delink_free hl hfree, hl⟩

/-- A whole run. -/
lemma foldlM_linked (hl : Linked m seq) {ops : List (Op H E)} (hops : Permitted seq ops) :
    ∃ m', ops.foldlM exec m = .ok m' ∧ Linked m' (ops.foldl (fun s op => op.apply s) seq) := by
  induction ops generalizing m seq with
  | nil => exact ⟨m, rfl, hl⟩
  | cons op ops ih =>
    obtain ⟨m₁, hm₁, hl₁⟩ := exec_linked hl hops.1
    rw [List.foldlM_cons, hm₁]
    exact ih hl₁ hops.2

end Update

section Queries
variable {A B : List (Node H E)} {x : Node H E}

/-- An element of a list, between the sentinels. -/
lemma chain_of_map (hs : L.map .elem = A ++ x :: B) : chain h L = (.first h :: A) ++ x :: (B ++ [.last h]) := by
  rw [chain, hs]
  simp

lemma Linked.last_next (hl : Linked m seq) (h : H) : m.next (.last h) = none :=
  hl.next h (.first h :: (seq h).map .elem) _ [] rfl

lemma Linked.first_prev (hl : Linked m seq) (h : H) : m.prev (.first h) = none := hl.prev h [] _ _ rfl

lemma Linked.hasNext_iff (hl : Linked m seq) (hs : (seq h).map .elem = A ++ x :: B) : m.hasNext x = true ↔ B ≠ [] := by
  have hnext := hl.next h _ x _ (chain_of_map hs)
  cases B with
  | nil =>
    rw [Memory.hasNext, hnext, List.nil_append, List.head?_cons, Option.bind_some, hl.last_next]
    simp
  | cons y B =>
    have hnext' := hl.next h (.first h :: (A ++ [x])) y (B ++ [.last h]) (by rw [chain_of_map hs]; simp)
    rw [Memory.hasNext, hnext, List.cons_append, List.head?_cons, Option.bind_some, hnext']
    simp

lemma Linked.hasPrev_iff (hl : Linked m seq) (hs : (seq h).map .elem = A ++ x :: B) : m.hasPrev x = true ↔ A ≠ [] := by
  have hprev := hl.prev h _ x _ (chain_of_map hs)
  rcases List.eq_nil_or_concat A with rfl | ⟨A, y, rfl⟩
  · rw [Memory.hasPrev, hprev, List.getLast?_singleton, Option.bind_some, hl.first_prev]
    simp
  · have hprev' := hl.prev h (.first h :: A) y (x :: B ++ [.last h]) (by rw [chain_of_map hs]; simp)
    rw [Memory.hasPrev, hprev, List.concat_eq_append, ← List.cons_append, List.getLast?_concat, Option.bind_some,
      hprev']
    simp

lemma Linked.getNext_succ (hl : Linked m seq) (h : H) : Succ m.getNext ((seq h).map .elem) := by
  intro A x B hs
  have hhas := hl.hasNext_iff hs
  have hnext := hl.next h _ x _ (chain_of_map hs)
  cases B with
  | nil => rw [Memory.getNext, if_neg (by simpa using hhas), List.head?_nil]
  | cons y B => rw [Memory.getNext, if_pos (hhas.mpr (by simp)), hnext]; rfl

lemma Linked.getPrev_pred (hl : Linked m seq) (h : H) : Pred m.getPrev ((seq h).map .elem) := by
  intro A x B hs
  have hhas := hl.hasPrev_iff hs
  have hprev := hl.prev h _ x _ (chain_of_map hs)
  rcases List.eq_nil_or_concat A with rfl | ⟨A, y, rfl⟩
  · rw [Memory.getPrev, if_neg (by simpa using hhas), List.getLast?_nil]
  · rw [Memory.getPrev, if_pos (hhas.mpr (by simp)), hprev, List.concat_eq_append,
      ← List.cons_append, List.getLast?_concat, List.getLast?_concat]

lemma Linked.isInList_iff (hl : Linked m seq) (e : E) : m.isInList (.elem e) = true ↔ ∃ h, e ∈ seq h := by
  by_cases hin : ∃ h, e ∈ seq h
  · obtain ⟨h, he⟩ := hin
    obtain ⟨A, B, -, -, -, hsplit⟩ := hl.cut he
    rw [Memory.isInList, hl.prev h _ _ _ hsplit, hl.next h _ _ _ hsplit]
    simp only [List.head?_append, List.getLast?_cons, Option.isSome_some, Bool.true_and]
    refine iff_of_true ?_ ⟨h, he⟩
    cases B <;> rfl
  · rw [Memory.isInList, (hl.free e fun h he => hin ⟨h, he⟩).1]
    simp [hin]

lemma Linked.isEmpty_eq [DecidableEq E] (hl : Linked m seq) (h : H) : m.isEmpty h = .ok (decide (seq h = [])) := by
  have hfirst := hl.next h [] (.first h) _ rfl
  unfold Memory.isEmpty
  cases hs : seq h with
  | nil =>
    rw [hs] at hfirst
    have hout : m.isInList (.last h) = false := by
      rw [Memory.isInList, hl.last_next h, Option.isSome_none, Bool.and_false]
    rw [hfirst]
    change Except.ok (!m.isInList (.last h)) = _
    rw [hout]
    rfl
  | cons e L =>
    rw [hs] at hfirst
    have hin := (hl.isInList_iff e).mpr ⟨h, by simp [hs]⟩
    rw [hfirst]
    change Except.ok (!m.isInList (.elem e)) = _
    rw [hin]
    rfl

lemma Linked.getFirst_eq [DecidableEq E] (hl : Linked m seq) (h : H) :
    m.getFirst h = .ok ((seq h).head?.map .elem) := by
  have hfirst := hl.next h [] (.first h) _ rfl
  rw [Memory.getFirst, hl.isEmpty_eq h]
  cases hs : seq h with
  | nil => rfl
  | cons e L =>
    rw [hs] at hfirst
    change Except.ok (m.next (.first h)) = _
    rw [hfirst]
    rfl

lemma Linked.getLast_eq [DecidableEq E] (hl : Linked m seq) (h : H) :
    m.getLast h = .ok ((seq h).getLast?.map .elem) := by
  have hlast := hl.prev h (.first h :: (seq h).map .elem) (.last h) [] rfl
  rw [Memory.getLast, hl.isEmpty_eq h]
  cases hs : seq h with
  | nil => rfl
  | cons e L =>
    rw [hs] at hlast
    change Except.ok (m.prev (.last h)) = _
    rw [hlast, List.map_cons, List.getLast?_cons_cons, ← List.map_cons, List.getLast?_map]

/-- The loop of `GetSize` counts what an iterator visits. -/
lemma countLoop_eq (m : Memory H E) (fuel : ℕ) (curr : Option (Node H E)) (result : UInt32) :
    m.countLoop fuel curr result =
      (walk m.getNext fuel curr).map fun nodes => result + UInt32.ofNat nodes.length := by
  induction fuel generalizing curr result with
  | zero => cases curr <;> simp [Memory.countLoop, walk]
  | succ fuel ih =>
    cases curr with
    | none => simp [Memory.countLoop, walk]
    | some x =>
      rw [Memory.countLoop, ih, walk, Option.map_map]
      refine congrArg (Option.map · _) (funext fun nodes => ?_)
      rw [Function.comp_apply, List.length_cons, UInt32.ofNat_add, UInt32.add_assoc, UInt32.add_comm 1]
      rfl

lemma map_cut {A B : List E} (hs : L = A ++ e :: B) :
    L.map (Node.elem : E → Node H E) = A.map Node.elem ++ Node.elem e :: B.map Node.elem := by
  rw [hs, List.map_append, List.map_cons]

lemma Linked.hasNext_elem (hl : Linked m seq) (e : E) :
    m.hasNext (.elem e) = true ↔ ∃ h A x B, seq h = A ++ e :: x :: B := by
  constructor
  · intro hnext
    by_cases hin : ∃ h, e ∈ seq h
    · obtain ⟨h, he⟩ := hin
      obtain ⟨A, B, hs, -⟩ := hl.cut he
      have hB := (hl.hasNext_iff (map_cut hs)).mp hnext
      cases B with
      | nil => exact absurd rfl hB
      | cons x B => exact ⟨h, A, x, B, hs⟩
    · rw [Memory.hasNext, (hl.free e fun h he => hin ⟨h, he⟩).1] at hnext
      exact absurd hnext (by simp)
  · rintro ⟨h, A, x, B, hs⟩
    exact (hl.hasNext_iff (map_cut hs)).mpr (by simp)

lemma Linked.hasPrev_elem (hl : Linked m seq) (e : E) :
    m.hasPrev (.elem e) = true ↔ ∃ h A x B, seq h = A ++ x :: e :: B := by
  constructor
  · intro hprev
    by_cases hin : ∃ h, e ∈ seq h
    · obtain ⟨h, he⟩ := hin
      obtain ⟨A, B, hs, -⟩ := hl.cut he
      have hA := (hl.hasPrev_iff (map_cut hs)).mp hprev
      rcases List.eq_nil_or_concat A with rfl | ⟨A, x, rfl⟩
      · exact absurd rfl hA
      · exact ⟨h, A, x, B, by rw [hs]; simp⟩
    · rw [Memory.hasPrev, (hl.free e fun h he => hin ⟨h, he⟩).2] at hprev
      exact absurd hprev (by simp)
  · rintro ⟨h, A, x, B, hs⟩
    rw [List.append_cons] at hs
    exact (hl.hasPrev_iff (map_cut hs)).mpr (by simp)

lemma Linked.agrees [DecidableEq H] [DecidableEq E] (hl : Linked m seq) : Agrees m seq where
  forward h fuel hfuel := by
    rw [Memory.forward, hl.getFirst_eq h, ← List.head?_map]
    exact congrArg Except.ok ((hl.getNext_succ h).walk (by rwa [List.length_map]))
  backward h fuel hfuel := by
    rw [Memory.backward, hl.getLast_eq h, ← List.getLast?_map, List.map_reverse]
    exact congrArg Except.ok ((hl.getPrev_pred h).walk (by rwa [List.length_map]))
  getSize h fuel hfuel := by
    have hwalk : walk m.getNext fuel _ = _ := (hl.getNext_succ h).walk (by rwa [List.length_map])
    rw [Memory.getSize, if_pos (hl.size h), hl.getFirst_eq h, ← List.head?_map]
    change Except.ok (m.countLoop fuel _ 0) = _
    rw [countLoop_eq, hwalk, Option.map_some, List.length_map, UInt32.zero_add]
  isEmpty := hl.isEmpty_eq
  getFirst := hl.getFirst_eq
  getLast := hl.getLast_eq
  hasNext := hl.hasNext_elem
  hasPrev := hl.hasPrev_elem
  isInList := hl.isInList_iff
  delink e hfree := delink_free hl hfree

end Queries

/-- Every run shows the sequences that its operations say, except that the size is counted
in 32 bits. -/
theorem linkedList_agrees [DecidableEq H] [DecidableEq E] {ops : List (Op H E)} (hops : Permitted (fun _ => []) ops) :
    ∃ m, ops.foldlM exec Memory.init = .ok m ∧ Agrees m (ops.foldl (fun s op => op.apply s) fun _ => []) := by
  obtain ⟨m, hm, hl⟩ := foldlM_linked linked_init hops
  exact ⟨m, hm, hl.agrees⟩

/-- Elements of two lists, one of which is taken out twice. -/
theorem linkedList_two_lists : ∃ m : Memory Bool (Fin 4),
    [Op.insertFirst true 0, .insertLast true 1, .insertBefore 1 2, .insertAfter 1 3, .delink 0, .insertLast false 0,
      .delink 2, .delink 2].foldlM exec Memory.init = .ok m ∧
    Agrees m ([Op.insertFirst true 0, .insertLast true 1, .insertBefore 1 2, .insertAfter 1 3, .delink 0,
      .insertLast false 0, .delink 2, .delink 2].foldl (fun s op => op.apply s) fun _ => []) := by
  refine linkedList_agrees ?_
  simp only [Permitted, Op.Allowed, Free]
  decide

/-- The elements below `n`, put into one list. -/
def insertAll (n : ℕ) : List (Op Unit ℕ) := (List.range n).map (.insertLast ())

lemma permitted_concat [DecidableEq H] [DecidableEq E] {ops : List (Op H E)} {op : Op H E} (hops : Permitted seq ops)
    (hop : op.Allowed (ops.foldl (fun s op => op.apply s) seq)) : Permitted seq (ops ++ [op]) := by
  induction ops generalizing seq with
  | nil => exact ⟨hop, trivial⟩
  | cons op' ops ih => exact ⟨hops.1, ih hops.2 hop⟩

lemma insertAll_sequence (n : ℕ) :
    Permitted (fun _ => []) (insertAll n) ∧
      (insertAll n).foldl (fun s op => op.apply s) (fun _ => []) = fun _ => List.range n := by
  induction n with
  | zero => exact ⟨trivial, rfl⟩
  | succ n ih =>
    obtain ⟨hops, hseq⟩ := ih
    have hsucc : insertAll (n + 1) = insertAll n ++ [.insertLast () n] := by
      rw [insertAll, List.range_succ, List.map_append]
      rfl
    rw [hsucc, List.foldl_append, hseq]
    refine ⟨permitted_concat hops ?_, funext fun _ => ?_⟩
    · rw [hseq]
      exact fun _ hn => absurd (List.mem_range.mp hn) (Nat.lt_irrefl n)
    · rw [List.range_succ]
      rfl

lemma insertAll_size (n : ℕ) : ((insertAll n).foldl (fun s op => op.apply s) (fun _ => []) ()).length = n ∧
    ∃ m, (insertAll n).foldlM exec Memory.init = .ok m ∧
      ∀ fuel, n ≤ fuel → m.getSize () fuel = .ok (some (UInt32.ofNat n)) := by
  obtain ⟨hops, hseq⟩ := insertAll_sequence n
  obtain ⟨m, hm, hl⟩ := foldlM_linked linked_init hops
  have hlen : ((insertAll n).foldl (fun s op => op.apply s) (fun _ => []) ()).length = n := by
    rw [hseq, List.length_range]
  refine ⟨hlen, m, hm, fun fuel hfuel => ?_⟩
  rw [hl.agrees.getSize () fuel (hlen.le.trans hfuel), hlen]

/-- A list of 2^32 elements counts as empty. -/
theorem getSize_wraps : ∃ ops : List (Op Unit ℕ), Permitted (fun _ => []) ops ∧
    (ops.foldl (fun s op => op.apply s) (fun _ => []) ()).length = 2 ^ 32 ∧
    ∃ m, ops.foldlM exec Memory.init = .ok m ∧ ∀ fuel, 2 ^ 32 ≤ fuel → m.getSize () fuel = .ok (some 0) := by
  have hzero : UInt32.ofNat (2 ^ 32) = 0 := by decide
  rw [← hzero]
  generalize 2 ^ 32 = n
  exact ⟨insertAll n, (insertAll_sequence n).1, insertAll_size n⟩

end TyphoonZero.LinkedList
