import Mathlib

/-! Fixed-width numbers as bytes, in the two byte orders. -/
namespace ByteOrder

/-- The low `k` bytes of a number, least significant first. -/
def leBytes : ℕ → ℕ → List UInt8
  | 0, _ => []
  | k + 1, n => UInt8.ofNat n :: leBytes k (n / 256)

def ofLeBytes (bs : List UInt8) : ℕ := Nat.ofDigits 256 (bs.map UInt8.toNat)

@[simp] lemma length_leBytes (k n : ℕ) : (leBytes k n).length = k := by
  induction k generalizing n with
  | zero => rfl
  | succ k ih => simp [leBytes, ih]

@[simp] lemma ofLeBytes_nil : ofLeBytes [] = 0 := rfl

lemma ofLeBytes_cons (b : UInt8) (bs : List UInt8) : ofLeBytes (b :: bs) = b.toNat + 256 * ofLeBytes bs := by
  simp [ofLeBytes, Nat.ofDigits_cons]

lemma ofLeBytes_lt (bs : List UInt8) : ofLeBytes bs < 256 ^ bs.length := by
  have hdigits : ∀ x ∈ bs.map UInt8.toNat, x < 256 := by
    intro x hx
    obtain ⟨b, -, rfl⟩ := List.mem_map.mp hx
    exact b.toNat_lt
  have hlt := Nat.ofDigits_lt_base_pow_length (by norm_num) hdigits
  rwa [List.length_map] at hlt

lemma ofLeBytes_leBytes (k n : ℕ) : ofLeBytes (leBytes k n) = n % 256 ^ k := by
  induction k generalizing n with
  | zero => simp [leBytes, Nat.mod_one]
  | succ k ih =>
    have hbyte : (UInt8.ofNat n).toNat = n % 256 := by simp
    rw [leBytes, ofLeBytes_cons, ih, hbyte, pow_succ', Nat.mod_mul]

/-- Disjoint bits add up. -/
lemma or_low {x z k : ℕ} (hx : 2 ^ k ∣ x) (hz : z < 2 ^ k) : x ||| z = x + z := by
  obtain ⟨q, rfl⟩ := hx
  rw [Nat.mul_comm, ← Nat.shiftLeft_eq, Nat.shiftLeft_add_eq_or_of_lt hz]

/-- The order in which a machine keeps the bytes of a number in memory. -/
inductive Endian
  | little | big
  deriving DecidableEq, Repr

def Endian.store (e : Endian) (k n : ℕ) : List UInt8 :=
  match e with
  | .little => leBytes k n
  | .big => (leBytes k n).reverse

def Endian.load (e : Endian) (bs : List UInt8) : ℕ :=
  match e with
  | .little => ofLeBytes bs
  | .big => ofLeBytes bs.reverse

end ByteOrder
