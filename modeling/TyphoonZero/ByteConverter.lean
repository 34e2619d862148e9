import TyphoonZero.ByteOrder

/-! The conversion of numbers in memory to little-endian order. -/
namespace TyphoonZero.ByteConverter
open ByteOrder

/-- `Convert<T>`: the outer bytes are swapped, then the inner ones. -/
def convert : ℕ → List UInt8 → List UInt8
  | 0, val => val
  | 1, val => val
  | _ + 2, [] => []
  | t + 2, a :: val =>
    match val.getLast? with
    | none => [a]
    | some b => b :: convert t val.dropLast ++ [a]

/-- `EndianRefMakeLittle` on the bytes that the machine `native` keeps of a value. -/
def endianRefMakeLittle (native : Endian) (val : List UInt8) : List UInt8 :=
  if native = .big then convert val.length val else val

lemma convert_eq_reverse (val : List UInt8) : convert val.length val = val.reverse := by
  induction hn : val.length using Nat.strong_induction_on generalizing val with
  | _ n ih =>
    match val, hn with
    | [], hn =>
      subst hn
      rfl
    | [a], hn =>
      subst hn
      rfl
    | a :: b :: val, hn =>
      obtain ⟨init, c, hinit⟩ : ∃ init c, b :: val = init ++ [c] :=
        ⟨_, _, (List.dropLast_append_getLast (List.cons_ne_nil b val)).symm⟩
      rw [hinit] at hn ⊢
      have hlen : n = init.length + 2 := by
        rw [← hn]
        simp
      subst hlen
      have hrec := ih init.length (by omega) init rfl
      simp [convert, hrec]

/-- Stored values become little-endian on every machine. -/
lemma endianRefMakeLittle_store (native : Endian) (k n : ℕ) :
    endianRefMakeLittle native (native.store k n) = leBytes k n := by
  cases native with
  | little => rfl
  | big =>
    have hrev := convert_eq_reverse (Endian.big.store k n)
    rw [endianRefMakeLittle, if_pos rfl, hrev, Endian.store, List.reverse_reverse]

lemma load_endianRefMakeLittle (native : Endian) (bs : List UInt8) :
    native.load (endianRefMakeLittle native bs) = ofLeBytes bs := by
  cases native with
  | little => rfl
  | big => rw [endianRefMakeLittle, if_pos rfl, convert_eq_reverse, Endian.load, List.reverse_reverse]

end TyphoonZero.ByteConverter
