import Mathlib

/-! Storage with cursors: a list with the slice between two positions, writes at a
position and changes of its length. -/
namespace Storage
variable {α : Type*}

/-- The elements from `a` up to `b`. -/
def slice (xs : List α) (a b : ℕ) : List α := (xs.take b).drop a

def resize (d : α) (xs : List α) (k : ℕ) : List α := xs.take k ++ List.replicate (k - xs.length) d

def writeAt (xs : List α) (pos : ℕ) (ys : List α) : List α :=
  xs.take pos ++ ys ++ xs.drop (pos + ys.length)

lemma length_slice {xs : List α} {a b : ℕ} (h : b ≤ xs.length) : (slice xs a b).length = b - a := by
  rw [slice, List.length_drop, List.length_take, Nat.min_eq_left h]

@[simp] lemma length_resize (d : α) (xs : List α) (k : ℕ) : (resize d xs k).length = k := by
  rw [resize, List.length_append, List.length_take, List.length_replicate]
  omega

lemma length_writeAt {xs ys : List α} {pos : ℕ} (h : pos + ys.length ≤ xs.length) :
    (writeAt xs pos ys).length = xs.length := by
  simp only [writeAt, List.length_append, List.length_take, List.length_drop]
  omega

lemma getElem?_writeAt {xs ys : List α} {pos : ℕ} (h : pos + ys.length ≤ xs.length) (i : ℕ) :
    (writeAt xs pos ys)[i]? = if pos ≤ i ∧ i < pos + ys.length then ys[i - pos]? else xs[i]? := by
  have hlen : (xs.take pos).length = pos := by
    rw [List.length_take]
    omega
  rw [writeAt, List.append_assoc]
  split_ifs with hin
  · rw [List.getElem?_append_right (by omega), hlen, List.getElem?_append_left (by omega)]
  · rcases Nat.lt_or_ge i pos with hlt | hge
    · rw [List.getElem?_append_left (by omega), List.getElem?_take_of_lt hlt]
    · rw [List.getElem?_append_right (by omega), hlen, List.getElem?_append_right (by omega), List.getElem?_drop]
      congr 1
      omega

lemma writeAt_writeAt {xs ys zs : List α} {pos : ℕ} (h : pos + ys.length + zs.length ≤ xs.length) :
    writeAt (writeAt xs pos ys) (pos + ys.length) zs = writeAt xs pos (ys ++ zs) := by
  have hlen := @length_writeAt _ xs ys pos (by omega)
  refine List.ext_getElem? fun i => ?_
  rw [getElem?_writeAt (by omega), getElem?_writeAt (by omega), getElem?_writeAt (by rw [List.length_append]; omega),
    List.length_append]
  rcases Nat.lt_or_ge i (pos + ys.length) with hlt | hge
  · rw [if_neg (by omega)]
    by_cases hpos : pos ≤ i
    · rw [if_pos ⟨hpos, hlt⟩, if_pos (by omega), List.getElem?_append_left (by omega)]
    · rw [if_neg (by omega), if_neg (by omega)]
  · by_cases hzs : i < pos + ys.length + zs.length
    · rw [if_pos ⟨hge, hzs⟩, if_pos (by omega), List.getElem?_append_right (by omega), Nat.sub_sub]
    · rw [if_neg (by omega), if_neg (by omega), if_neg (by omega)]

@[simp] lemma slice_self (xs : List α) (a : ℕ) : slice xs a a = [] :=
  List.drop_eq_nil_of_le (by simp)

lemma slice_full (xs : List α) : slice xs 0 xs.length = xs := by
  rw [slice, List.drop_zero, List.take_length]

lemma slice_append {xs : List α} {a b c : ℕ} (hab : a ≤ b) (hbc : b ≤ c) (h : c ≤ xs.length) :
    slice xs a b ++ slice xs b c = slice xs a c := by
  have htake : xs.take c = xs.take b ++ (xs.take c).drop b := by
    have hsplit := List.take_append_drop b (xs.take c)
    rwa [List.take_take, Nat.min_eq_left hbc, eq_comm] at hsplit
  have hlen : a ≤ (xs.take b).length := by
    rw [List.length_take]
    omega
  simp only [slice]
  conv_rhs => rw [htake, List.drop_append_of_le_length hlen]

lemma slice_add (xs : List α) (a b k : ℕ) : slice xs (a + k) b = (slice xs a b).drop k := by
  rw [slice, slice, List.drop_drop]

lemma slice_of_take_eq {xs ys : List α} {a b c : ℕ} (h : xs.take c = ys.take c) (hb : b ≤ c) :
    slice xs a b = slice ys a b := by
  have htake := congrArg (List.take b) h
  rw [List.take_take, List.take_take, Nat.min_eq_left hb] at htake
  rw [slice, slice, htake]

lemma slice_resize (d : α) {xs : List α} {a b k : ℕ} (hk : b ≤ k) (h : b ≤ xs.length) :
    slice (resize d xs k) a b = slice xs a b := by
  apply slice_of_take_eq _ le_rfl
  have hlen : b ≤ (xs.take k).length := by
    rw [List.length_take]
    omega
  rw [resize, List.take_append_of_le_length hlen, List.take_take, Nat.min_eq_left hk]

lemma slice_writeAt_left {xs ys : List α} {a b pos : ℕ} (hb : b ≤ pos) (h : pos ≤ xs.length) :
    slice (writeAt xs pos ys) a b = slice xs a b := by
  apply slice_of_take_eq _ hb
  have hlen : pos = (xs.take pos).length := by
    rw [List.length_take]
    omega
  rw [writeAt, List.append_assoc]
  exact List.take_left' hlen.symm

lemma slice_writeAt_self {xs ys : List α} {pos : ℕ} (h : pos ≤ xs.length) :
    slice (writeAt xs pos ys) pos (pos + ys.length) = ys := by
  have hlen : (xs.take pos).length = pos := by
    rw [List.length_take]
    omega
  have htake : (writeAt xs pos ys).take (pos + ys.length) = xs.take pos ++ ys := by
    apply List.take_left'
    rw [List.length_append, hlen]
  rw [slice, htake]
  exact List.drop_left' hlen

/-- `memmove` of a slice to the front. -/
lemma slice_moveToFront {xs : List α} {a b : ℕ} (h : b ≤ xs.length) :
    slice (writeAt xs 0 (slice xs a b)) 0 (b - a) = slice xs a b := by
  have hself := @slice_writeAt_self α xs (slice xs a b) 0 (Nat.zero_le _)
  rwa [length_slice h, Nat.zero_add] at hself

end Storage
