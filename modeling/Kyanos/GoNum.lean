/-
Go's machine numbers, as far as the modelled code computes with them.

A `uint64` is a natural number below `2 ^ 64`; sums and differences are reduced
explicitly, so that a wrap is visible in the definition that has one. The signed
reading `int64(x)` of a 64-bit word and the reading `uint64(i)` of an `int` are
the two conversions the code relies on, and `toInt64_subU64` is the only fact
most proofs need: on words less than `2 ^ 63` apart, Go's `int64(a - b)` is the
integer difference.

The last section is `float64`: a rational rounded to 53 significant bits, ties to
even. The range is not limited, because the values the code converts (64-bit
integers, and these over `10 ^ 6`) neither overflow nor underflow a binary64.
-/
import Mathlib

set_option autoImplicit false

namespace GoNum

/-! ## 64-bit words -/

/-- The value a natural number keeps in a `uint64`. -/
def u64 (n : ℕ) : ℕ := n % 2 ^ 64

/-- Go's `a - b` on two `uint64`s: below zero it wraps to the top. -/
def subU64 (a b : ℕ) : ℕ := (a + (2 ^ 64 - b)) % 2 ^ 64

/-- Go's conversion `int64(n)` of a `uint64`: the same 64 bits, read signed. -/
def toInt64 (n : ℕ) : ℤ := if n < 2 ^ 63 then n else (n : ℤ) - 2 ^ 64

/-- Go's conversion `uint64(i)` of an `int`. -/
def ofInt64 (i : ℤ) : ℕ := if 0 ≤ i then i.toNat else (i + 2 ^ 64).toNat

theorem u64_of_lt {n : ℕ} (h : n < 2 ^ 64) : u64 n = n := Nat.mod_eq_of_lt h

/-- A difference that does not go below zero is the natural difference. -/
theorem subU64_of_le {a b : ℕ} (hab : b ≤ a) (ha : a < 2 ^ 64) : subU64 a b = a - b := by
  rw [subU64, show a + (2 ^ 64 - b) = a - b + 2 ^ 64 by omega, Nat.add_mod_right]
  exact Nat.mod_eq_of_lt (lt_of_le_of_lt (Nat.sub_le a b) ha)

/-- `int64(a - b)` is the integer difference of two words less than `2 ^ 63` apart. -/
theorem toInt64_subU64 {a b : ℕ} (hb : b < 2 ^ 64)
    (hlo : a < b + 2 ^ 63) (hhi : b < a + 2 ^ 63) :
    toInt64 (subU64 a b) = (a : ℤ) - b := by
  unfold toInt64 subU64
  split_ifs <;> omega

theorem ofInt64_of_nonneg {i : ℤ} (h : 0 ≤ i) : ofInt64 i = i.toNat := if_pos h

/-- Go's `a - b` on two `int64`s, which wraps at both ends. -/
def subInt64 (a b : ℤ) : ℤ := Int.bmod (a - b) (2 ^ 64)

/-- `cmp.Compare` on two `uint64`s. -/
def cmpCompare (a b : ℕ) : ℤ := if a < b then -1 else if a > b then 1 else 0

theorem cmpCompare_eq_zero {a b : ℕ} : cmpCompare a b = 0 ↔ a = b := by
  unfold cmpCompare
  split_ifs with h1 h2
  · exact ⟨fun h => absurd h (by decide), fun h => by omega⟩
  · exact ⟨fun h => absurd h (by decide), fun h => by omega⟩
  · exact ⟨fun _ => by omega, fun _ => rfl⟩

theorem cmpCompare_neg {a b : ℕ} : cmpCompare a b < 0 ↔ a < b := by
  unfold cmpCompare
  split_ifs with h1 h2
  · exact ⟨fun _ => h1, fun _ => by decide⟩
  · exact ⟨fun h => absurd h (by decide), fun h => by omega⟩
  · exact ⟨fun h => absurd h (by decide), fun h => by omega⟩

theorem cmpCompare_pos {a b : ℕ} : 0 < cmpCompare a b ↔ b < a := by
  unfold cmpCompare
  split_ifs with h1 h2
  · exact ⟨fun h => absurd h (by decide), fun h => by omega⟩
  · exact ⟨fun _ => h2, fun _ => by decide⟩
  · exact ⟨fun h => absurd h (by decide), fun h => by omega⟩

/-! ## `float64` -/

/-- The integer nearest to `q`, a tie going to the even one. -/
def roundEven (q : ℚ) : ℤ :=
  let f := ⌊q⌋
  if q - f < 1 / 2 then f
  else if 1 / 2 < q - f then f + 1
  else if f % 2 = 0 then f else f + 1

/-- Multiplication by `2 ^ k` for a signed `k`. -/
def scale2 (q : ℚ) (k : ℤ) : ℚ :=
  if 0 ≤ k then q * 2 ^ k.toNat else q / 2 ^ (-k).toNat

/-- The exponent of a positive rational: `2 ^ exponent q ≤ q < 2 ^ (exponent q + 1)`.
The two bit lengths give it up to one, and a comparison settles which. -/
def exponent (q : ℚ) : ℤ :=
  let e : ℤ := (Nat.log2 q.num.natAbs : ℤ) - Nat.log2 q.den
  if q < scale2 1 e then e - 1 else e

/-- The `float64` nearest to `q`: 53 significant bits, ties to even. -/
def float64 (q : ℚ) : ℚ :=
  if q = 0 then 0
  else
    let k := 52 - exponent |q|
    scale2 (roundEven (scale2 q k)) (-k)

/-- Go's conversion `int64(x)` of a `float64`, which cuts towards zero. -/
def truncInt (q : ℚ) : ℤ := if 0 ≤ q then ⌊q⌋ else ⌈q⌉

example : float64 (2 ^ 53 + 1) = 2 ^ 53 := by decide +kernel

end GoNum
