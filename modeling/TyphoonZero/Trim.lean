import TyphoonZero.Strip

/-! Strings without the white space at their ends. -/
namespace TyphoonZero.Utils
open Strip

/-- The characters in `" \r\n\t"`. -/
def blanks : List Char := [' ', '\r', '\n', '\t']

def isBlank (c : Char) : Bool := decide (c ∈ blanks)

def findFirstNotOf (src : List Char) : Option ℕ := src.findIdx? fun c => !isBlank c

def findLastNotOf (src : List Char) : Option ℕ :=
  (src.reverse.findIdx? fun c => !isBlank c).map (src.length - 1 - ·)

def trimLeft (src : List Char) : List Char :=
  match findFirstNotOf src with
  | some pos => src.drop pos
  | none => src

def trimRight (src : List Char) : List Char :=
  match findLastNotOf src with
  | some pos => src.take (pos + 1)
  | none => src

def trim (src : List Char) : List Char :=
  if src.isEmpty then src else trimRight (trimLeft src)

lemma trimLeft_of_blank {src : List Char} (h : ∀ c ∈ src, isBlank c = true) : trimLeft src = src := by
  have hnone : findFirstNotOf src = none :=
    List.findIdx?_eq_none_iff.mpr fun c hc => by rw [h c hc, Bool.not_true]
  rw [trimLeft, hnone]

/-- The position of the first element that is no blank. -/
lemma findIdx?_append {a r : List Char} (ha : ∀ c ∈ a, isBlank c = true) (hr : r ≠ [])
    (hfirst : NotFirst isBlank r) : (a ++ r).findIdx? (fun c => !isBlank c) = some a.length := by
  obtain ⟨d, t, rfl⟩ := List.exists_cons_of_ne_nil hr
  have hd : isBlank d = false := hfirst d rfl
  induction a with
  | nil => rw [List.nil_append, List.findIdx?_cons, hd]; rfl
  | cons c a ih =>
    rw [List.cons_append, List.findIdx?_cons, ha c List.mem_cons_self,
      ih fun e he => ha e (List.mem_cons_of_mem c he)]
    rfl

lemma trimLeft_append {a r : List Char} (ha : ∀ c ∈ a, isBlank c = true) (hr : r ≠ [])
    (hfirst : NotFirst isBlank r) : trimLeft (a ++ r) = r := by
  rw [trimLeft, findFirstNotOf, findIdx?_append ha hr hfirst]
  exact List.drop_left

lemma trimRight_append {r b : List Char} (hb : ∀ c ∈ b, isBlank c = true) (hr : r ≠ [])
    (hlast : NotLast isBlank r) : trimRight (r ++ b) = r := by
  have hpos := List.length_pos_iff.mpr hr
  have hidx := findIdx?_append (fun c hc => hb c (List.mem_reverse.mp hc)) (List.reverse_ne_nil_iff.mpr hr)
    (notLast_reverse.mp (by rwa [List.reverse_reverse]))
  rw [← List.reverse_append] at hidx
  rw [trimRight, findLastNotOf, hidx]
  change (r ++ b).take ((r ++ b).length - 1 - b.reverse.length + 1) = r
  rw [List.length_reverse, List.length_append]
  rw [show r.length + b.length - 1 - b.length + 1 = r.length by omega]
  exact List.take_left

lemma trimLeft_of_notFirst {r : List Char} (hr : r ≠ []) (hfirst : NotFirst isBlank r) : trimLeft r = r :=
  trimLeft_append (a := []) (List.forall_mem_nil _) hr hfirst

lemma trimRight_of_notLast {r : List Char} (hr : r ≠ []) (hlast : NotLast isBlank r) : trimRight r = r := by
  have happend := trimRight_append (b := []) (List.forall_mem_nil _) hr hlast
  rwa [List.append_nil] at happend

/-- The stripped middle of a string, its two halves, their order and their repetition. -/
structure TrimsWell (src : List Char) : Prop where
  left : LongestInfix (NotFirst isBlank) src (trimLeft src)
  right : LongestInfix (NotLast isBlank) src (trimRight src)
  both : LongestInfix (fun t => NotFirst isBlank t ∧ NotLast isBlank t) src (trim src)
  leftRight : trim src = trimRight (trimLeft src)
  rightLeft : trim src = trimLeft (trimRight src)
  left_left : trimLeft (trimLeft src) = trimLeft src
  right_right : trimRight (trimRight src) = trimRight src
  trim_trim : trim (trim src) = trim src

lemma trimsWell_nil : TrimsWell [] := by
  have hlongest : ∀ P : List Char → Prop, P [] → LongestInfix P [] [] := fun P hP =>
    ⟨List.infix_rfl, hP, fun u hu _ => hu.length_le⟩
  have hfirst : NotFirst isBlank [] := fun c hc => absurd hc (Option.not_mem_none c)
  have hlast : NotLast isBlank [] := fun c hc => absurd hc (Option.not_mem_none c)
  exact ⟨hlongest _ hfirst, hlongest _ hlast, hlongest _ ⟨hfirst, hlast⟩, rfl, rfl, rfl, rfl, rfl⟩

lemma trim_of_ne_nil {src : List Char} (h : src ≠ []) : trim src = trimRight (trimLeft src) :=
  if_neg (by rwa [List.isEmpty_iff])

lemma trimsWell_of_exists {src : List Char} (h : ∃ c ∈ src, isBlank c = false) : TrimsWell src := by
  obtain ⟨a, m, b, rfl, ha, hb, hm, hfirst, hlast⟩ := exists_middle h
  have hmb : NotFirst isBlank (m ++ b) := by rwa [NotFirst, List.head?_append_of_ne_nil _ hm]
  have ham : NotLast isBlank (a ++ m) := by rwa [NotLast, List.getLast?_append_of_ne_nil _ hm]
  have hmb' : m ++ b ≠ [] := List.append_ne_nil_of_left_ne_nil hm b
  have ham' : a ++ m ≠ [] := List.append_ne_nil_of_right_ne_nil a hm
  have hleft : trimLeft (a ++ m ++ b) = m ++ b := by
    rw [List.append_assoc]
    exact trimLeft_append ha hmb' hmb
  have hright : trimRight (a ++ m ++ b) = a ++ m := trimRight_append hb ham' ham
  have hmiddle : trim (a ++ m ++ b) = m := by
    rw [trim_of_ne_nil (List.append_ne_nil_of_left_ne_nil ham' b), hleft]
    exact trimRight_append hb hm hlast
  constructor
  · rw [hleft]
    refine ⟨⟨a, [], by simp⟩, hmb, fun u hu hu' => (part_of_notFirst ha ?_ hu').length_le⟩
    rwa [← List.append_assoc]
  · rw [hright]
    exact ⟨⟨[], b, by simp⟩, ham, fun u hu hu' => (part_of_notLast hb hu hu').length_le⟩
  · rw [hmiddle]
    refine ⟨⟨a, b, rfl⟩, ⟨hfirst, hlast⟩, fun u hu hu' => ?_⟩
    have hfront := part_of_notLast hb hu hu'.2
    exact (part_of_notFirst ha hfront hu'.1).length_le
  · rw [hmiddle, hleft, trimRight_append hb hm hlast]
  · rw [hmiddle, hright, trimLeft_append ha hm hfirst]
  · rw [hleft, trimLeft_of_notFirst hmb' hmb]
  · rw [hright, trimRight_of_notLast ham' ham]
  · rw [hmiddle, trim_of_ne_nil hm, trimLeft_of_notFirst hm hfirst, trimRight_of_notLast hm hlast]

/-- `find_first_not_of` finds nothing in a string of blanks, which is then left as it is. -/
theorem trimsWell_iff (src : List Char) : TrimsWell src ↔ src = [] ∨ ∃ c ∈ src, isBlank c = false := by
  constructor
  · intro hwell
    by_contra hno
    obtain ⟨hne, hblank⟩ := not_or.mp hno
    have hall : ∀ c ∈ src, isBlank c = true := fun c hc => by
      by_contra hc'
      exact hblank ⟨c, hc, Bool.eq_false_iff.mpr hc'⟩
    have hfirst := hwell.left.holds
    rw [trimLeft_of_blank hall] at hfirst
    have hhead := hfirst _ (List.head?_eq_some_head hne)
    exact Bool.false_ne_true (hhead.symm.trans (hall _ (List.head_mem hne)))
  · rintro (rfl | hsome)
    · exact trimsWell_nil
    · exact trimsWell_of_exists hsome

theorem trim_blank_unchanged : trim [' '] = [' '] ∧ ¬TrimsWell [' '] := by
  refine ⟨by decide, fun hwell => ?_⟩
  have hhead := hwell.left.holds ' ' (by decide)
  exact absurd hhead (by decide)

end TyphoonZero.Utils
