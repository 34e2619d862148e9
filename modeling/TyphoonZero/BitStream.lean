import Mathlib

/-! Bytes as bits, most significant bit first, and streams of bits that are
padded to whole bytes. -/
namespace BitStream

def byteBits (b : UInt8) : List Bool := List.ofFn fun i : Fin 8 => b.toBitVec.getMsbD i

def bytesBits (bs : List UInt8) : List Bool := bs.flatMap byteBits

/-- The low `n` bits of a number, most significant first. -/
def natBits : ℕ → ℕ → List Bool
  | 0, _ => []
  | n + 1, v => v.testBit n :: natBits n v

/-- A stream padded with zeros to a whole number of bytes. -/
def align (w : List Bool) : List Bool := w ++ List.replicate ((8 - w.length % 8) % 8) false

@[simp] lemma length_byteBits (b : UInt8) : (byteBits b).length = 8 := List.length_ofFn

@[simp] lemma bytesBits_nil : bytesBits [] = [] := rfl

@[simp] lemma bytesBits_cons (b : UInt8) (bs : List UInt8) :
    bytesBits (b :: bs) = byteBits b ++ bytesBits bs := rfl

@[simp] lemma bytesBits_append (bs cs : List UInt8) :
    bytesBits (bs ++ cs) = bytesBits bs ++ bytesBits cs := List.flatMap_append

@[simp] lemma length_bytesBits (bs : List UInt8) : (bytesBits bs).length = 8 * bs.length := by
  induction bs with
  | nil => rfl
  | cons b bs ih =>
    rw [bytesBits_cons, List.length_append, length_byteBits, ih, List.length_cons]
    omega

@[simp] lemma length_natBits (n v : ℕ) : (natBits n v).length = n := by
  induction n with
  | zero => rfl
  | succ n ih => simp [natBits, ih]

lemma length_align (w : List Bool) : (align w).length = 8 * ((w.length + 7) / 8) := by
  simp only [align, List.length_append, List.length_replicate]
  omega

lemma align_of_mod (w : List Bool) (h : w.length % 8 = 0) : align w = w := by
  simp [align, h]

lemma getElem_byteBits (b : UInt8) {i : ℕ} (h : i < 8) : (byteBits b)[i]? = some (b.toBitVec.getMsbD i) := by
  rw [byteBits, List.getElem?_ofFn, dif_pos h]

lemma byteBits_injective {b c : UInt8} (h : byteBits b = byteBits c) : b = c := by
  apply UInt8.toBitVec_inj.mp
  refine BitVec.eq_of_getMsbD_eq fun i hi => ?_
  have hb := getElem_byteBits b hi
  rw [h, getElem_byteBits c hi] at hb
  exact (Option.some.inj hb).symm

/-- A byte is known from its eight bits. -/
lemma byteBits_eq_iff (b : UInt8) (w : List Bool) (hw : w.length = 8) :
    byteBits b = w ↔ ∀ i < 8, b.toBitVec.getMsbD i = w.getD i false := by
  constructor
  · intro h i hi
    have hb := getElem_byteBits b hi
    rw [h] at hb
    rw [List.getD_eq_getElem?_getD, hb]
    rfl
  · intro h
    refine List.ext_getElem? fun i => ?_
    rcases Nat.lt_or_ge i 8 with hi | hi
    · rw [getElem_byteBits b hi, h i hi, List.getD_eq_getElem?_getD]
      rw [List.getElem?_eq_getElem (by omega)]
      rfl
    · rw [List.getElem?_eq_none (by simpa using hi), List.getElem?_eq_none (by omega)]

lemma getElem_bytesBits (bs : List UInt8) (q : ℕ) {i : ℕ} (hi : i < 8) :
    (bytesBits bs)[8 * q + i]? = bs[q]?.map fun b => b.toBitVec.getMsbD i := by
  induction bs generalizing q with
  | nil => simp
  | cons b bs ih =>
    rw [bytesBits_cons]
    cases q with
    | zero =>
      rw [Nat.mul_zero, Nat.zero_add, List.getElem?_append_left (by simpa using hi), getElem_byteBits b hi]
      rfl
    | succ q =>
      rw [List.getElem?_append_right (by simp; omega), length_byteBits]
      rw [show 8 * (q + 1) + i - 8 = 8 * q + i by omega, ih q]
      rfl

lemma bytesBits_take (bs : List UInt8) (q : ℕ) : bytesBits (bs.take q) = (bytesBits bs).take (8 * q) := by
  induction bs generalizing q with
  | nil => simp
  | cons b bs ih =>
    cases q with
    | zero => simp
    | succ q =>
      have hlen : 8 * (q + 1) = (byteBits b).length + 8 * q := by
        rw [length_byteBits]
        omega
      rw [List.take_succ_cons, bytesBits_cons, bytesBits_cons, ih q, hlen, List.take_length_add_append]

lemma bytesBits_drop (bs : List UInt8) (q : ℕ) : bytesBits (bs.drop q) = (bytesBits bs).drop (8 * q) := by
  have happ := congrArg bytesBits (List.take_append_drop q bs)
  rw [bytesBits_append, bytesBits_take] at happ
  exact List.append_cancel_left (happ.trans (List.take_append_drop (8 * q) (bytesBits bs)).symm)

lemma bytesBits_prefix {bs cs : List UInt8} (h : bytesBits bs <+: bytesBits cs) : bs <+: cs := by
  induction bs generalizing cs with
  | nil => exact List.nil_prefix
  | cons b bs ih =>
    cases cs with
    | nil =>
      have hlen := h.length_le
      simp at hlen
    | cons c cs =>
      obtain ⟨t, ht⟩ := h
      rw [bytesBits_cons, bytesBits_cons, List.append_assoc] at ht
      obtain ⟨hb, hbs⟩ := List.append_inj ht (by simp)
      rw [byteBits_injective hb]
      exact List.cons_prefix_cons.mpr ⟨rfl, ih ⟨t, hbs⟩⟩

/-- Bytes that lie in a stream behind a whole number of bytes. -/
lemma bytes_at {w : List Bool} {bs cs : List UInt8} {q : ℕ} (hw : w.length = 8 * q)
    (h : w ++ bytesBits bs <+: bytesBits cs) : bs <+: cs.drop q := by
  apply bytesBits_prefix
  obtain ⟨t, ht⟩ := h
  rw [bytesBits_drop, ← hw, ← ht, List.append_assoc, List.drop_left]
  exact List.prefix_append _ _

end BitStream
