import Mathlib

/-! Natural numbers rounded to `p` significant bits, as a binary floating-point format does. -/
namespace Rounding

/-- Rounding to the nearest, and of two to the even one. -/
def roundEven (p n : ℕ) : ℕ :=
  let unit := 2 ^ (n.log2 + 1 - p)
  let q := n / unit
  let r := n % unit
  if 2 * r < unit ∨ 2 * r = unit ∧ q % 2 = 0 then q * unit else (q + 1) * unit

lemma roundEven_exact {p n : ℕ} (h : n < 2 ^ p) : roundEven p n = n := by
  by_cases hn : n = 0
  · subst hn
    simp [roundEven]
  · have hlog := (Nat.log2_lt hn).mpr h
    have hunit : n.log2 + 1 - p = 0 := by omega
    simp [roundEven, hunit, Nat.mod_one]

/-- Less than one unit in the last place is lost. -/
lemma le_roundEven_add {p n : ℕ} (hp : 0 < p) : n ≤ roundEven p n + n / 2 ^ (p - 1) := by
  rcases Nat.lt_or_ge n (2 ^ p) with hsmall | hlarge
  · rw [roundEven_exact hsmall]
    exact Nat.le_add_right n _
  · have hn : n ≠ 0 := by
      have hpos := Nat.two_pow_pos p
      omega
    have hlog : p ≤ n.log2 := (Nat.le_log2 hn).mpr hlarge
    have hunit : 2 ^ (n.log2 + 1 - p) ≤ n / 2 ^ (p - 1) := by
      rw [Nat.le_div_iff_mul_le (Nat.two_pow_pos _), ← Nat.pow_add, show n.log2 + 1 - p + (p - 1) = n.log2 by omega]
      exact Nat.log2_self_le hn
    have hdiv := Nat.div_add_mod' n (2 ^ (n.log2 + 1 - p))
    have hmod := Nat.mod_lt n (Nat.two_pow_pos (n.log2 + 1 - p))
    unfold roundEven
    dsimp only
    split_ifs
    · omega
    · rw [Nat.add_mul]
      omega

end Rounding
