/-
The first occurrence of a word in a text that ends with it.

A text without the word is put in front of the word. The word then occurs where it was put, and it may
occur earlier, across the seam: if it begins as it ends, some of its end can be the begin of the
word behind it. This is the only way to an earlier occurrence (`early_iff`).
-/
import Mathlib.Data.List.Infix

set_option autoImplicit false

open List

namespace Overlap

variable {α : Type} {w d rest : List α} {j k : ℕ}

/-- The text ends as the word begins, by `k` letters, and what is left of the word is a begin of it. -/
def Overlaps (w d : List α) (k : ℕ) : Prop :=
  0 < k ∧ k < w.length ∧ w.drop k <+: w ∧ w.take k <:+ d

/-- An occurrence that begins in the text reaches across the seam. -/
theorem overlaps_of_early (hfree : ¬w <:+: d) (hj : j < d.length)
    (h : w <+: (d ++ (w ++ rest)).drop j) : Overlaps w d (d.length - j) := by
  rw [drop_append_of_le_length hj.le] at h
  have hlen : (d.drop j).length = d.length - j := length_drop
  have hfront : d.drop j <+: d.drop j ++ (w ++ rest) := prefix_append _ _
  have hlong : d.length - j < w.length := by
    by_contra hshort
    have hin : w <+: d.drop j := prefix_of_prefix_length_le h hfront (by omega)
    exact hfree (hin.isInfix.trans (drop_suffix j d).isInfix)
  obtain ⟨back, rfl⟩ : d.drop j <+: w := prefix_of_prefix_length_le hfront h (by omega)
  have hback : back <+: (d.drop j ++ back) ++ rest := by
    exact (prefix_append_right_inj (d.drop j)).mp h
  refine ⟨by omega, hlong, ?_, ?_⟩
  · rw [← hlen, drop_left]
    exact prefix_of_prefix_length_le hback (prefix_append _ _) (by rw [length_append]; omega)
  · rw [← hlen, take_left]
    exact drop_suffix j d

/-- Where the text overlaps the word, this occurs earlier. -/
theorem Overlaps.early (h : Overlaps w d k) :
    k ≤ d.length ∧ w <+: (d ++ (w ++ rest)).drop (d.length - k) := by
  obtain ⟨-, hlt, hdrop, front, rfl⟩ := h
  have hlen : (w.take k).length = k := by
    rw [length_take]
    omega
  have hfront : (front ++ w.take k).length - k = front.length := by
    rw [length_append, hlen]
    omega
  refine ⟨by rw [length_append, hlen]; omega, ?_⟩
  rw [hfront, append_assoc, drop_left]
  calc w = w.take k ++ w.drop k := (take_append_drop k w).symm
    _ <+: w.take k ++ (w ++ rest) := by
      rw [prefix_append_right_inj]
      exact hdrop.trans (prefix_append w rest)

/-- **The word occurs earlier** than where it was put just if the text overlaps it. -/
theorem early_iff (hfree : ¬w <:+: d) :
    (∃ j < d.length, w <+: (d ++ (w ++ rest)).drop j) ↔ ∃ k, Overlaps w d k := by
  constructor
  · rintro ⟨j, hj, h⟩
    exact ⟨_, overlaps_of_early hfree hj h⟩
  · rintro ⟨k, h⟩
    obtain ⟨hle, hprefix⟩ := @Overlaps.early _ w d rest k h
    exact ⟨d.length - k, by have := h.1; omega, hprefix⟩

end Overlap
