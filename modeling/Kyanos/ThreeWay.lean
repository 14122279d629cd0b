/-
Three-way comparisons, which say by a sign how two elements are ordered.

Such a comparison is one of a total order if the signs of the two directions are opposite and `≤` is
transitive (`TotalOrder`); elements that compare as equal may still be different. There is then a key
in a linear order that says the same (`TotalOrder.exists_key`), so what is known of lists in ascending
order of a key holds of lists that a comparison sorts. In a sorted list the place of a target is its
`rank`, the number of elements below it.
-/
import Kyanos.OrderedIndex
import Kyanos.Pieces

set_option autoImplicit false

universe u v

namespace ThreeWay

variable {α : Type u} {compare : α → α → ℤ}

/-- The comparison is that of a total order. -/
structure TotalOrder (compare : α → α → ℤ) : Prop where
  swap : ∀ a b, compare a b < 0 ↔ 0 < compare b a
  trans : ∀ a b c, compare a b ≤ 0 → compare b c ≤ 0 → compare a c ≤ 0

/-- The list is in strictly ascending order. -/
def Sorted (compare : α → α → ℤ) (l : List α) : Prop := l.Pairwise fun a b => compare a b < 0

/-- How many elements are below the target. -/
def rank (compare : α → α → ℤ) (l : List α) (target : α) : ℕ :=
  l.countP fun a => compare a target < 0

/-! ## The key of a comparison -/

namespace TotalOrder

theorem refl (h : TotalOrder compare) (a : α) : compare a a = 0 := by
  have hswap := h.swap a a
  omega

theorem le_iff_not_lt (h : TotalOrder compare) (a b : α) : compare a b ≤ 0 ↔ ¬ compare b a < 0 := by
  rw [h.swap b a, not_lt]

theorem lt_trans (h : TotalOrder compare) {a b c : α} (hab : compare a b < 0)
    (hbc : compare b c < 0) : compare a c < 0 := by
  by_contra hca
  have hca' := (h.le_iff_not_lt c a).mpr hca
  have hcb := h.trans c a b hca' hab.le
  exact (h.le_iff_not_lt c b).mp hcb hbc

theorem total (h : TotalOrder compare) (a b : α) : compare a b ≤ 0 ∨ compare b a ≤ 0 := by
  rw [h.le_iff_not_lt a b]
  omega

/-- The order of the comparison. -/
@[reducible] def preorder (h : TotalOrder compare) : Preorder α where
  le a b := compare a b ≤ 0
  lt a b := compare a b < 0
  le_refl a := (h.refl a).le
  le_trans := h.trans
  lt_iff_le_not_ge a b := by
    rw [h.le_iff_not_lt b a]
    omega

/-- **A comparison of a total order compares keys.** The keys are the classes of equal elements. -/
theorem exists_key (h : TotalOrder compare) : ∃ (β : Type u) (_ : LinearOrder β) (key : α → β),
    ∀ a b, (compare a b < 0 ↔ key a < key b) ∧ (compare a b = 0 ↔ key a = key b) := by
  classical
  let _ : Preorder α := h.preorder
  have _ : @Std.Total α (· ≤ ·) := ⟨h.total⟩
  let key : α → Antisymmetrization α (· ≤ ·) := toAntisymmetrization (· ≤ ·)
  refine ⟨Antisymmetrization α (· ≤ ·), inferInstance, key, fun a b => ⟨Iff.rfl, ?_⟩⟩
  have hle : key a ≤ key b ↔ compare a b ≤ 0 := Iff.rfl
  have hge : key b ≤ key a ↔ compare b a ≤ 0 := Iff.rfl
  have heq : key a = key b ↔ key a ≤ key b ∧ key b ≤ key a := le_antisymm_iff
  rw [heq, hle, hge, h.le_iff_not_lt b a]
  omega

end TotalOrder

/-- Conversely, keys of a linear order are compared so. -/
theorem totalOrder_of_key {β : Type v} [LinearOrder β] {cmp : β → β → ℤ}
    (hneg : ∀ x y, cmp x y < 0 ↔ x < y) (hpos : ∀ x y, 0 < cmp x y ↔ y < x) (key : α → β) :
    TotalOrder fun a b => cmp (key a) (key b) := by
  have hle : ∀ x y, cmp x y ≤ 0 ↔ x ≤ y := by
    intro x y
    rw [← not_lt, hpos, not_lt]
  refine ⟨fun a b => (hneg _ _).trans (hpos _ _).symm, fun a b c hab hbc => ?_⟩
  exact (hle _ _).mpr (((hle _ _).mp hab).trans ((hle _ _).mp hbc))

/-! ## Sorted lists -/

theorem sorted_iff_ascending {β : Type v} [LinearOrder β] {key : α → β}
    (hkey : ∀ a b, compare a b < 0 ↔ key a < key b) (l : List α) :
    Sorted compare l ↔ OrderedIndex.Ascending key l := by
  simp only [Sorted, OrderedIndex.Ascending, hkey]

theorem rank_le (compare : α → α → ℤ) (l : List α) (target : α) :
    rank compare l target ≤ l.length := List.countP_le_length

/-- A sorted list is cut at a target, and the rank is where. -/
theorem Sorted.exists_cut {l : List α} (h : Sorted compare l) (horder : TotalOrder compare)
    (target : α) : ∃ xs ys, l = xs ++ ys ∧ rank compare l target = xs.length
      ∧ (∀ x ∈ xs, compare x target < 0) ∧ ∀ y ∈ ys, ¬ compare y target < 0 := by
  let below : α → Bool := fun a => compare a target < 0
  have hxs : ∀ x ∈ l.takeWhile below, compare x target < 0 :=
    fun x hx => of_decide_eq_true (List.mem_takeWhile_imp (p := below) hx)
  have hys : ∀ y ∈ l.dropWhile below, ¬ compare y target < 0 := by
    intro y hy hlt
    refine OrderedIndex.not_of_mem_dropWhile (h.imp fun {a b} hab hb => ?_) hy (decide_eq_true hlt)
    exact decide_eq_true (horder.lt_trans hab (of_decide_eq_true hb))
  refine ⟨_, _, List.takeWhile_append_dropWhile.symm, ?_, hxs, hys⟩
  have hbelow : (l.takeWhile below).countP (fun a => compare a target < 0)
      = (l.takeWhile below).length :=
    List.countP_eq_length.mpr (fun x hx => decide_eq_true (hxs x hx))
  have habove : (l.dropWhile below).countP (fun a => compare a target < 0) = 0 :=
    List.countP_eq_zero.mpr (fun y hy hlt => hys y hy (of_decide_eq_true hlt))
  calc rank compare l target
      = (l.takeWhile below ++ l.dropWhile below).countP (fun a => compare a target < 0) := by
        rw [List.takeWhile_append_dropWhile]
        rfl
    _ = (l.takeWhile below).length := by
        rw [List.countP_append, hbelow, habove, Nat.add_zero]

/-- **A new element goes in at its rank.** -/
theorem Sorted.insertIdx_rank {l : List α} (h : Sorted compare l) (horder : TotalOrder compare)
    {target : α} (hnew : ∀ a ∈ l, compare a target ≠ 0) :
    Sorted compare (l.insertIdx (rank compare l target) target) := by
  obtain ⟨xs, ys, rfl, hrank, hxs, hys⟩ := h.exists_cut horder target
  obtain ⟨β, _, key, hkey⟩ := horder.exists_key
  have hlt : ∀ a b, compare a b < 0 ↔ key a < key b := fun a b => (hkey a b).1
  rw [hrank, Pieces.insertIdx_length_append, sorted_iff_ascending hlt]
  refine ((sorted_iff_ascending hlt _).mp h).insert (fun x hx => (hlt x target).mp (hxs x hx)) ?_
  intro y hy
  -- What is neither below the target nor equal to it is above it.
  have hle : key target ≤ key y := not_lt.mp (fun hy' => hys y hy ((hlt y target).mpr hy'))
  have hne : key target ≠ key y :=
    fun heq => hnew y (List.mem_append_right xs hy) ((hkey y target).2.mpr heq.symm)
  exact lt_of_le_of_ne hle hne

end ThreeWay
