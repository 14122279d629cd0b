/-
Entries laid end to end.

Each entry of a list has a size, and takes the positions behind those of the entries before it; the first
position is 1. `Holds` says of a position that it is one of an entry of a kind. `last_iff` says when the
entries of a kind hold just the last positions: their sizes add up, and none of another kind comes after
one of them.
-/
import Mathlib

set_option autoImplicit false

namespace Ledger

variable {α : Type*} (size : α → ℕ)

/-- The size of the entries together. -/
def total (xs : List α) : ℕ := (xs.map size).sum

@[simp] theorem total_nil : total size [] = 0 := rfl

theorem total_append (xs ys : List α) : total size (xs ++ ys) = total size xs + total size ys := by
  unfold total
  rw [List.map_append, List.sum_append]

theorem total_concat (xs : List α) (x : α) : total size (xs ++ [x]) = total size xs + size x := by
  rw [total_append]
  unfold total
  rw [List.map_singleton, List.sum_singleton]

/-- Entries of a kind are together no larger than all. -/
theorem total_filter_le (p : α → Bool) (xs : List α) : total size (xs.filter p) ≤ total size xs := by
  induction xs with
  | nil => exact le_refl _
  | cons x xs ih =>
      unfold total at ih ⊢
      rw [List.filter_cons]
      split_ifs
      · rw [List.map_cons, List.map_cons, List.sum_cons, List.sum_cons]
        omega
      · rw [List.map_cons, List.sum_cons]
        omega

/-- Nothing with a size is missing among the entries of a kind, if they are as large as all. -/
theorem total_filter_eq_iff (p : α → Bool) (xs : List α) :
    total size (xs.filter p) = total size xs ↔ ∀ x ∈ xs, 0 < size x → p x = true := by
  induction xs with
  | nil => exact iff_of_true rfl fun x hx => by cases hx
  | cons x xs ih =>
      have hle := total_filter_le size p xs
      rw [List.forall_mem_cons, ← ih, List.filter_cons]
      unfold total at hle ⊢
      split_ifs with hx
      · rw [List.map_cons, List.map_cons, List.sum_cons, List.sum_cons]
        exact ⟨fun h => ⟨fun _ => hx, by omega⟩, fun h => by omega⟩
      · rw [List.map_cons, List.sum_cons]
        refine ⟨fun h => ⟨fun hpos => ?_, by omega⟩, fun h => ?_⟩
        · omega
        · have hzero : size x = 0 := Nat.eq_zero_of_not_pos fun hpos => hx (h.1 hpos)
          omega

/-- The position is one of an entry of the kind. -/
def Holds (kind : α → Bool) (xs : List α) (position : ℕ) : Prop :=
  ∃ before x after, xs = before ++ x :: after ∧ kind x = true
    ∧ total size before < position ∧ position ≤ total size before + size x

/-- Behind an entry of the kind there are only more of it, those without a position apart. -/
def Closing (kind : α → Bool) (xs : List α) : Prop :=
  xs.Pairwise fun x y => kind x = true → 0 < size x → 0 < size y → kind y = true

variable {size} {kind : α → Bool} {xs : List α}

theorem Holds.le_total {p : ℕ} (h : Holds size kind xs p) : p ≤ total size xs := by
  obtain ⟨before, x, after, rfl, -, -, hle⟩ := h
  rw [List.append_cons, total_append, total_concat]
  omega

theorem holds_concat {x : α} {p : ℕ} :
    Holds size kind (xs ++ [x]) p
      ↔ Holds size kind xs p ∨ kind x = true ∧ total size xs < p ∧ p ≤ total size xs + size x := by
  constructor
  · rintro ⟨before, y, after, heq, hy, hlt, hle⟩
    rcases List.eq_nil_or_concat after with rfl | ⟨after, z, rfl⟩
    · obtain ⟨rfl, hx⟩ := List.append_inj' heq rfl
      cases hx
      exact Or.inr ⟨hy, hlt, hle⟩
    · rw [List.concat_eq_append, ← List.cons_append, ← List.append_assoc] at heq
      obtain ⟨rfl, -⟩ := List.append_inj' heq rfl
      exact Or.inl ⟨before, y, after, rfl, hy, hlt, hle⟩
  · rintro (⟨before, y, after, rfl, hy, hlt, hle⟩ | ⟨hx, hlt, hle⟩)
    · exact ⟨before, y, after ++ [x], by simp, hy, hlt, hle⟩
    · exact ⟨xs, x, [], rfl, hx, hlt, hle⟩

/-- Entries of a kind that have no position together have none at all. -/
theorem not_holds {p : ℕ} (h : total size (xs.filter kind) = 0) : ¬Holds size kind xs p := by
  rintro ⟨before, x, after, rfl, hx, hlt, hle⟩
  rw [List.filter_append, List.filter_cons_of_pos hx, List.append_cons, total_append, total_concat] at h
  omega

theorem total_singleton (x : α) : total size [x] = size x := List.sum_singleton

/-- The entries of a kind hold the last `n` positions and no other. -/
def Last (size : α → ℕ) (kind : α → Bool) (xs : List α) (n : ℕ) : Prop :=
  ∀ p, Holds size kind xs p ↔ total size xs < p + n ∧ p ≤ total size xs

theorem last_concat_kind {x : α} (hx : kind x = true) {n : ℕ} :
    Last size kind (xs ++ [x]) n ↔ size x ≤ n ∧ Last size kind xs (n - size x) := by
  have htotal := total_concat size xs x
  constructor
  · intro hall
    -- The first position of the last entry is one of the last `n`.
    have hge : size x ≤ n := by
      by_contra hlt
      have := (hall (total size xs + 1)).mp (holds_concat.mpr (Or.inr ⟨hx, by omega, by omega⟩))
      omega
    refine ⟨hge, fun p => ⟨fun hp => ?_, fun hp => ?_⟩⟩
    · have hle := hp.le_total
      have := (hall p).mp (holds_concat.mpr (Or.inl hp))
      omega
    · rcases holds_concat.mp ((hall p).mpr ⟨by omega, by omega⟩) with hheld | ⟨-, hlt, -⟩
      · exact hheld
      · omega
  · rintro ⟨hge, hrest⟩ p
    rw [holds_concat, hrest p]
    constructor
    · rintro (hp | hp)
      · omega
      · omega
    · intro hp
      by_cases hle : p ≤ total size xs
      · exact Or.inl ⟨by omega, hle⟩
      · exact Or.inr ⟨hx, by omega, by omega⟩

theorem holds_concat_other {x : α} (hx : ¬kind x = true) {p : ℕ} :
    Holds size kind (xs ++ [x]) p ↔ Holds size kind xs p := by
  rw [holds_concat]
  exact or_iff_left (fun h => hx h.1)

theorem last_concat_other {x : α} (hx : ¬kind x = true) (hpos : 0 < size x) {n : ℕ} :
    Last size kind (xs ++ [x]) n ↔ n = 0 ∧ Last size kind xs 0 := by
  have htotal := total_concat size xs x
  constructor
  · intro hall
    have hzero : n = 0 := by
      by_contra hne
      have hlast := (holds_concat_other hx).mp
        ((hall (total size (xs ++ [x]))).mpr ⟨by omega, le_refl _⟩)
      have := hlast.le_total
      omega
    refine ⟨hzero, fun p => iff_of_false (fun hp => ?_) (by omega)⟩
    have := (hall p).mp ((holds_concat_other hx).mpr hp)
    omega
  · rintro ⟨rfl, hrest⟩ p
    rw [holds_concat_other hx]
    refine iff_of_false (fun hp => ?_) (by omega)
    have := (hrest p).mp hp
    omega

theorem last_concat_empty {x : α} (hx : ¬kind x = true) (hsize : size x = 0) {n : ℕ} :
    Last size kind (xs ++ [x]) n ↔ Last size kind xs n := by
  have htotal := total_concat size xs x
  rw [hsize, Nat.add_zero] at htotal
  unfold Last
  rw [htotal]
  exact forall_congr' fun p => by rw [holds_concat_other hx]

theorem closing_concat {x : α} : Closing size kind (xs ++ [x]) ↔ Closing size kind xs
    ∧ ∀ y ∈ xs, kind y = true → 0 < size y → 0 < size x → kind x = true := by
  unfold Closing
  rw [List.pairwise_append]
  simp

/-- Nothing of the kind has a position, if the entries of it have none together. -/
theorem filter_total_eq_zero_iff :
    total size (xs.filter kind) = 0 ↔ ∀ y ∈ xs, kind y = true → ¬0 < size y := by
  unfold total
  rw [List.sum_eq_zero_iff, List.forall_mem_map]
  refine ⟨fun h y hy hkind hpos => ?_, fun h y hy => ?_⟩
  · rw [h y (List.mem_filter.mpr ⟨hy, hkind⟩)] at hpos
    exact absurd hpos (lt_irrefl 0)
  · obtain ⟨hmem, hkind⟩ := List.mem_filter.mp hy
    exact Nat.eq_zero_of_not_pos (h y hmem hkind)

/-- **The last positions.** The entries of a kind hold just the last `n` positions if and only if these
are as many as they need, and no other entry with a position comes after one of them. -/
theorem last_iff {n : ℕ} (hn : n ≤ total size xs) :
    Last size kind xs n ↔ total size (xs.filter kind) = n ∧ Closing size kind xs := by
  induction xs using List.reverseRecOn generalizing n with
  | nil =>
      have hzero : n = 0 := Nat.le_zero.mp hn
      subst hzero
      refine iff_of_true (fun p => iff_of_false (not_holds rfl) ?_) ⟨rfl, List.Pairwise.nil⟩
      rw [total_nil]
      omega
  | append_singleton xs x ih =>
      have htotal := total_concat size xs x
      have hfilter : total size ((xs ++ [x]).filter kind)
          = total size (xs.filter kind) + total size ([x].filter kind) := by
        rw [List.filter_append, total_append]
      rw [hfilter, closing_concat]
      -- By the last entry: one of the kind takes the last positions, and the rest is as before.
      by_cases hx : kind x = true
      · rw [List.filter_cons_of_pos hx, List.filter_nil, total_singleton, last_concat_kind hx,
          ih (by omega)]
        constructor
        · rintro ⟨hge, hsum, hclose⟩
          exact ⟨by omega, hclose, fun _ _ _ _ _ => hx⟩
        · rintro ⟨hsum, hclose, -⟩
          exact ⟨by omega, by omega, hclose⟩
      · rw [List.filter_cons_of_neg hx, List.filter_nil, total_nil, Nat.add_zero]
        by_cases hpos : 0 < size x
        · -- An entry of another kind is the last: then there is none of the kind.
          rw [last_concat_other hx hpos, ih (Nat.zero_le _)]
          constructor
          · rintro ⟨rfl, hsum, hclose⟩
            refine ⟨hsum, hclose, fun y hy hkind hsize _ => ?_⟩
            exact absurd hsize (filter_total_eq_zero_iff.mp hsum y hy hkind)
          · rintro ⟨rfl, hclose, hnone⟩
            have hzero : total size (xs.filter kind) = 0 :=
              filter_total_eq_zero_iff.mpr fun y hy hkind hsize => hx (hnone y hy hkind hsize hpos)
            exact ⟨hzero, hzero, hclose⟩
        · have hsize : size x = 0 := Nat.eq_zero_of_not_pos hpos
          rw [last_concat_empty hx hsize, ih (by omega)]
          exact and_congr_right fun _ =>
            ⟨fun hclose => ⟨hclose, fun _ _ _ _ hlt => absurd hlt hpos⟩, fun h => h.1⟩

end Ledger
