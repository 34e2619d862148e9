import Mathlib

/-! The middle of a list between its outer elements with a property. -/
namespace Strip
variable {α : Type*} (p : α → Bool)

def NotFirst (t : List α) : Prop := ∀ c ∈ t.head?, p c = false

def NotLast (t : List α) : Prop := ∀ c ∈ t.getLast?, p c = false

/-- A contiguous part with the property, of the greatest length there is. -/
structure LongestInfix (P : List α → Prop) (s t : List α) : Prop where
  part : t <:+: s
  holds : P t
  longest : ∀ u, u <:+: s → P u → u.length ≤ t.length

variable {p}

lemma notLast_reverse {t : List α} : NotLast p t.reverse ↔ NotFirst p t := by
  rw [NotLast, List.getLast?_reverse, NotFirst]

/-- Around an element without the property lies a middle that neither begins nor ends with one that has it. -/
lemma exists_middle {s : List α} (h : ∃ c ∈ s, p c = false) :
    ∃ a m b, s = a ++ m ++ b ∧ (∀ c ∈ a, p c = true) ∧ (∀ c ∈ b, p c = true) ∧
      m ≠ [] ∧ NotFirst p m ∧ NotLast p m := by
  obtain ⟨d, hd, hpd⟩ := h
  have hne : s.dropWhile p ≠ [] := by
    intro hnil
    rw [List.dropWhile_eq_nil_iff] at hnil
    exact Bool.false_ne_true (hpd.symm.trans (hnil d hd))
  have hfirst : ∀ c ∈ (s.dropWhile p).head?, p c = false := by
    intro c hc
    have hhead := List.head?_dropWhile_not p s
    rw [Option.mem_def.mp hc] at hhead
    exact hhead
  have hkept : (s.dropWhile p).rdropWhile p ≠ [] := by
    intro hnil
    rw [List.rdropWhile_eq_nil_iff] at hnil
    have hhead := List.head_mem hne
    exact Bool.false_ne_true ((hfirst _ (List.head?_eq_some_head hne)).symm.trans (hnil _ hhead))
  refine ⟨s.takeWhile p, (s.dropWhile p).rdropWhile p, (s.dropWhile p).rtakeWhile p, ?_, ?_, ?_, hkept, ?_, ?_⟩
  · rw [List.append_assoc, List.rdropWhile_append_rtakeWhile, List.takeWhile_append_dropWhile]
  · exact fun c hc => List.mem_takeWhile_imp hc
  · exact fun c hc => List.mem_rtakeWhile_imp hc
  · intro c hc
    obtain ⟨rest, hrest⟩ := List.rdropWhile_prefix p (s.dropWhile p)
    refine hfirst c ?_
    rwa [← hrest, List.head?_append_of_ne_nil _ hkept]
  · intro c hc
    have hlast := List.rdropWhile_last_not p (s.dropWhile p) hkept
    rw [List.getLast?_eq_getLast_of_ne_nil hkept, Option.mem_some_iff] at hc
    rw [← hc]
    exact Bool.eq_false_iff.mpr hlast

/-- A part that does not begin with the property lies behind all elements in front that have it. -/
lemma part_of_notFirst {a r u : List α} (ha : ∀ c ∈ a, p c = true) (hu : u <:+: a ++ r) (hfirst : NotFirst p u) :
    u <:+: r := by
  obtain ⟨x, y, hxy⟩ := hu
  rcases u with _ | ⟨c, u⟩
  · exact List.nil_infix
  · have hlen := congrArg List.length hxy
    simp only [List.length_append] at hlen
    have hx : a.length ≤ x.length := by
      by_contra hlt
      have hget := congrArg (·[x.length]?) hxy
      simp only [List.append_assoc, List.cons_append] at hget
      rw [List.getElem?_append_right le_rfl, Nat.sub_self, List.getElem?_append_left (by omega)] at hget
      have hmem := List.mem_of_getElem? hget.symm
      exact Bool.false_ne_true ((hfirst c rfl).symm.trans (ha c hmem))
    have hdrop := congrArg (List.drop a.length) hxy
    rw [List.drop_left, List.append_assoc, List.drop_append_of_le_length hx, ← List.append_assoc] at hdrop
    exact ⟨x.drop a.length, y, hdrop⟩

lemma part_of_notLast {r b u : List α} (hb : ∀ c ∈ b, p c = true) (hu : u <:+: r ++ b) (hlast : NotLast p u) :
    u <:+: r := by
  have hrev := List.reverse_infix.mpr hu
  rw [List.reverse_append] at hrev
  have hfirst : NotFirst p u.reverse := notLast_reverse.mp (by rwa [List.reverse_reverse])
  exact List.reverse_infix.mp (part_of_notFirst (fun c hc => hb c (List.mem_reverse.mp hc)) hrev hfirst)

end Strip
