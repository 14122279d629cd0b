/-
Rounding to a `float64`: what it keeps and what it preserves.

A positive number is scaled by a power of two into `[2 ^ 52, 2 ^ 53)` and rounded to an integer
there, a tie going to the even one. So a number that is scaled to an integer is kept
(`float64_of_scaled`), as the integers up to `2 ^ 53` are. Rounding to an integer is monotone, and a
number with a larger exponent is beyond all that one with a smaller exponent is rounded to; so
rounding to a `float64` is monotone too (`float64_le_of_pos`), and it keeps signs.
-/
import Kyanos.GoNum

set_option autoImplicit false

namespace GoNum

/-! ## The nearest integer -/

theorem roundEven_intCast (n : ℤ) : roundEven (n : ℚ) = n := by
  unfold roundEven
  dsimp only
  rw [Int.floor_intCast, sub_self, if_pos (by norm_num)]

theorem floor_le_roundEven (q : ℚ) : ⌊q⌋ ≤ roundEven q := by
  unfold roundEven
  dsimp only
  split_ifs <;> omega

theorem roundEven_le_floor_succ (q : ℚ) : roundEven q ≤ ⌊q⌋ + 1 := by
  unfold roundEven
  dsimp only
  split_ifs <;> omega

/-- A larger number in the same unit interval is not rounded to a smaller integer. -/
theorem roundEven_le_of_floor_eq {x y : ℚ} (h : x ≤ y) (hfloor : ⌊x⌋ = ⌊y⌋) :
    roundEven x ≤ roundEven y := by
  have hfract : x - ⌊x⌋ ≤ y - ⌊y⌋ := by
    rw [hfloor]
    linarith
  by_cases hup : roundEven y = ⌊y⌋ + 1
  · rw [hup, ← hfloor]
    exact roundEven_le_floor_succ x
  · -- If the larger one is rounded down, so is the smaller one.
    have hdown : roundEven x = ⌊x⌋ := by
      revert hup
      unfold roundEven
      rw [← hfloor] at hfract ⊢
      dsimp only
      split_ifs <;> intro hup
      all_goals first | rfl | omega | (exfalso; linarith)
    rw [hdown, hfloor]
    exact floor_le_roundEven y

theorem roundEven_mono : Monotone roundEven := by
  intro x y h
  rcases (Int.floor_le_floor h).eq_or_lt with heq | hlt
  · exact roundEven_le_of_floor_eq h heq
  · exact (roundEven_le_floor_succ x).trans (hlt.trans_le (floor_le_roundEven y))

/-! ## Scaling -/

theorem scale2_eq (q : ℚ) (k : ℤ) : scale2 q k = q * 2 ^ k := by
  unfold scale2
  split_ifs with hk
  · obtain ⟨n, rfl⟩ := Int.eq_ofNat_of_zero_le hk
    rw [Int.toNat_natCast, zpow_natCast]
  · obtain ⟨n, hn⟩ : ∃ n : ℕ, k = -n := ⟨(-k).toNat, by omega⟩
    rw [hn, neg_neg, Int.toNat_natCast, zpow_neg, zpow_natCast, div_eq_mul_inv]

/-- The exponent is that of the power of two below a positive number. -/
theorem exponent_spec {q : ℚ} (hq : 0 < q) :
    (2 : ℚ) ^ exponent q ≤ q ∧ q < (2 : ℚ) ^ (exponent q + 1) := by
  have hnum : q.num.natAbs ≠ 0 := by
    rw [Int.natAbs_ne_zero]
    exact (Rat.num_pos.mpr hq).ne'
  have hden : q.den ≠ 0 := q.den_nz
  have hn₁ : 2 ^ Nat.log2 q.num.natAbs ≤ q.num.natAbs := Nat.log2_self_le hnum
  have hn₂ : q.num.natAbs < 2 ^ (Nat.log2 q.num.natAbs + 1) := Nat.lt_log2_self
  have hd₁ : 2 ^ Nat.log2 q.den ≤ q.den := Nat.log2_self_le hden
  have hd₂ : q.den < 2 ^ (Nat.log2 q.den + 1) := Nat.lt_log2_self
  have hq' : q = (q.num.natAbs : ℚ) / q.den := by
    have habs : ((q.num.natAbs : ℤ) : ℚ) = q.num := by
      rw [Int.natAbs_of_nonneg (Rat.num_pos.mpr hq).le]
    rw [← Int.cast_natCast, habs, Rat.num_div_den]
  have hdpos : (0 : ℚ) < q.den := by exact_mod_cast q.den_pos
  set a := Nat.log2 q.num.natAbs
  set b := Nat.log2 q.den
  -- The bit lengths are off by one at most.
  have hlow : (2 : ℚ) ^ ((a : ℤ) - b - 1) ≤ q := by
    rw [hq', le_div_iff₀ hdpos]
    have hd : (q.den : ℚ) ≤ 2 ^ (b + 1) := by exact_mod_cast hd₂.le
    calc (2 : ℚ) ^ ((a : ℤ) - b - 1) * q.den ≤ 2 ^ ((a : ℤ) - b - 1) * 2 ^ (b + 1) := by gcongr
      _ = 2 ^ a := by
          rw [← zpow_natCast, ← zpow_natCast, ← zpow_add₀ (by norm_num)]
          congr 1
          push_cast
          ring
      _ ≤ q.num.natAbs := by exact_mod_cast hn₁
  have hhigh : q < (2 : ℚ) ^ ((a : ℤ) - b + 1) := by
    rw [hq', div_lt_iff₀ hdpos]
    have hn : (q.num.natAbs : ℚ) < 2 ^ (a + 1) := by exact_mod_cast hn₂
    calc (q.num.natAbs : ℚ) < 2 ^ (a + 1) := hn
      _ = 2 ^ ((a : ℤ) - b + 1) * 2 ^ b := by
          rw [← zpow_natCast, ← zpow_natCast, ← zpow_add₀ (by norm_num)]
          congr 1
          push_cast
          ring
      _ ≤ 2 ^ ((a : ℤ) - b + 1) * q.den := by
          gcongr
          exact_mod_cast hd₁
  unfold exponent
  dsimp only
  rw [scale2_eq, one_mul]
  split_ifs with hlt
  · exact ⟨hlow, by rwa [sub_add_cancel]⟩
  · exact ⟨not_lt.mp hlt, hhigh⟩

theorem exponent_mono {x y : ℚ} (hx : 0 < x) (h : x ≤ y) : exponent x ≤ exponent y := by
  have hlow := (exponent_spec hx).1
  have hhigh := (exponent_spec (hx.trans_le h)).2
  have hpow : (2 : ℚ) ^ exponent x < 2 ^ (exponent y + 1) := hlow.trans_lt (h.trans_lt hhigh)
  have hexp := (zpow_lt_zpow_iff_right₀ (by norm_num : (1 : ℚ) < 2)).mp hpow
  omega

/-! ## Rounding -/

/-- The power of two that scales a number to 53 bits. -/
def shift (q : ℚ) : ℤ := 52 - exponent |q|

theorem float64_eq {q : ℚ} (hq : q ≠ 0) :
    float64 q = (roundEven (q * 2 ^ shift q) : ℚ) * 2 ^ (-shift q) := by
  unfold float64
  rw [if_neg hq]
  dsimp only
  rw [scale2_eq, scale2_eq]
  rfl

/-- A number of 53 bits is kept. -/
theorem float64_of_scaled {q : ℚ} {n : ℤ} (hn : q * 2 ^ shift q = n) : float64 q = q := by
  by_cases hq : q = 0
  · rw [hq, float64, if_pos rfl]
  · rw [float64_eq hq, hn, roundEven_intCast, ← hn, mul_assoc, ← zpow_add₀ (by norm_num),
      add_neg_cancel, zpow_zero, mul_one]

/-- The integers below `2 ^ 53` are kept. -/
theorem float64_intCast {n : ℤ} (hn : |n| < 2 ^ 53) : float64 (n : ℚ) = n := by
  by_cases hzero : n = 0
  · rw [hzero, Int.cast_zero, float64, if_pos rfl]
  · have hpos : (0 : ℚ) < |(n : ℚ)| := abs_pos.mpr (by exact_mod_cast hzero)
    have hbound : |(n : ℚ)| < 2 ^ (53 : ℤ) := by exact_mod_cast hn
    have hexp : exponent |(n : ℚ)| < 53 :=
      (zpow_lt_zpow_iff_right₀ (by norm_num : (1 : ℚ) < 2)).mp
        ((exponent_spec hpos).1.trans_lt hbound)
    obtain ⟨k, hk⟩ : ∃ k : ℕ, shift (n : ℚ) = k := ⟨(shift (n : ℚ)).toNat, by
      unfold shift
      omega⟩
    refine float64_of_scaled (n := n * 2 ^ k) ?_
    rw [hk, zpow_natCast]
    push_cast
    rfl

theorem float64_natCast {n : ℕ} (hn : n < 2 ^ 53) : float64 (n : ℚ) = n := by
  have h := @float64_intCast n (by rw [abs_of_nonneg (Int.natCast_nonneg n)]; exact_mod_cast hn)
  exact_mod_cast h

/-- What a positive number is scaled to. -/
theorem scaled_bounds {q : ℚ} (hq : 0 < q) :
    (2 : ℚ) ^ (52 : ℤ) ≤ q * 2 ^ shift q ∧ q * 2 ^ shift q < 2 ^ (53 : ℤ) := by
  obtain ⟨hlow, hhigh⟩ := exponent_spec hq
  have hscale : (0 : ℚ) < 2 ^ shift q := by positivity
  have habs : exponent q + shift q = 52 := by
    rw [shift, abs_of_pos hq]
    omega
  constructor
  · calc (2 : ℚ) ^ (52 : ℤ) = 2 ^ exponent q * 2 ^ shift q := by
          rw [← zpow_add₀ (by norm_num), habs]
      _ ≤ q * 2 ^ shift q := by gcongr
  · calc q * 2 ^ shift q < 2 ^ (exponent q + 1) * 2 ^ shift q := by gcongr
      _ = 2 ^ (53 : ℤ) := by
          rw [← zpow_add₀ (by norm_num)]
          congr 1
          omega

/-- A positive number is rounded within the powers of two around it. -/
theorem float64_bounds {q : ℚ} (hq : 0 < q) :
    (2 : ℚ) ^ exponent q ≤ float64 q ∧ float64 q ≤ 2 ^ (exponent q + 1) := by
  obtain ⟨hlow, hhigh⟩ := scaled_bounds hq
  have habs : shift q = 52 - exponent q := by rw [shift, abs_of_pos hq]
  have hunscale : (0 : ℚ) < 2 ^ (-shift q) := by positivity
  have hlow' : (2 : ℤ) ^ 52 ≤ roundEven (q * 2 ^ shift q) := by
    have h := roundEven_mono (show (((2 : ℤ) ^ 52 : ℤ) : ℚ) ≤ q * 2 ^ shift q by exact_mod_cast hlow)
    rwa [roundEven_intCast] at h
  have hhigh' : roundEven (q * 2 ^ shift q) ≤ (2 : ℤ) ^ 53 := by
    have h := roundEven_mono
      (show q * 2 ^ shift q ≤ (((2 : ℤ) ^ 53 : ℤ) : ℚ) by exact_mod_cast hhigh.le)
    rwa [roundEven_intCast] at h
  rw [float64_eq hq.ne']
  constructor
  · calc (2 : ℚ) ^ exponent q = 2 ^ (52 : ℤ) * 2 ^ (-shift q) := by
          rw [← zpow_add₀ (by norm_num), habs]
          congr 1
          omega
      _ ≤ (roundEven (q * 2 ^ shift q) : ℚ) * 2 ^ (-shift q) := by
          gcongr
          exact_mod_cast hlow'
  · calc (roundEven (q * 2 ^ shift q) : ℚ) * 2 ^ (-shift q) ≤ 2 ^ (53 : ℤ) * 2 ^ (-shift q) := by
          gcongr
          exact_mod_cast hhigh'
      _ = 2 ^ (exponent q + 1) := by
          rw [← zpow_add₀ (by norm_num), habs]
          congr 1
          omega

theorem float64_pos {q : ℚ} (hq : 0 < q) : 0 < float64 q :=
  lt_of_lt_of_le (by positivity) (float64_bounds hq).1

theorem float64_nonpos {q : ℚ} (hq : q ≤ 0) : float64 q ≤ 0 := by
  rcases hq.eq_or_lt with rfl | hq
  · exact le_of_eq (if_pos rfl)
  · have hround : roundEven (q * 2 ^ shift q) ≤ 0 := by
      have hle : q * 2 ^ shift q ≤ ((0 : ℤ) : ℚ) := by
        rw [Int.cast_zero]
        exact mul_nonpos_of_nonpos_of_nonneg hq.le (by positivity)
      have h := roundEven_mono hle
      rwa [roundEven_intCast] at h
    rw [float64_eq hq.ne]
    exact mul_nonpos_of_nonpos_of_nonneg (by exact_mod_cast hround) (by positivity)

/-- **Rounding is monotone** on positive numbers. -/
theorem float64_le_of_pos {x y : ℚ} (hx : 0 < x) (h : x ≤ y) : float64 x ≤ float64 y := by
  have hy := hx.trans_le h
  rcases (exponent_mono hx h).eq_or_lt with heq | hlt
  · have hshift : shift x = shift y := by rw [shift, shift, abs_of_pos hx, abs_of_pos hy, heq]
    rw [float64_eq hx.ne', float64_eq hy.ne', hshift]
    have hround : roundEven (x * 2 ^ shift y) ≤ roundEven (y * 2 ^ shift y) :=
      roundEven_mono (by gcongr)
    gcongr
  · calc float64 x ≤ 2 ^ (exponent x + 1) := (float64_bounds hx).2
      _ ≤ 2 ^ exponent y := zpow_le_zpow_right₀ (by norm_num) (by omega)
      _ ≤ float64 y := (float64_bounds hy).1

end GoNum
