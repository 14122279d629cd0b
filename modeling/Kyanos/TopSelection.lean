/-
Keeping the largest elements of a sequence, one element at a time.

What is kept is a list in ascending order of a key, of a fixed length at most. `Selects` says that
it is a selection of the largest of all elements so far: what was dropped is nowhere above what is
kept, and nothing is dropped before the list is full. A new element is refused, goes in at its place,
or takes the place of the smallest (`refuse`, `insert`, `replace`), and each of these keeps `Selects`.
The keys of a selection are then the end of all keys in order (`Selects.map_eq`), whatever the order of
the elements and however many are equal.
-/
import Mathlib.Data.List.Sort

set_option autoImplicit false

universe u v

namespace TopSelection

variable {α : Type u} {β : Type v} [LinearOrder β] {key : α → β} {k : ℕ}

/-- The `k` largest of the values, in ascending order. -/
def largest (k : ℕ) (values : List β) : List β :=
  (values.insertionSort (· ≤ ·)).drop (values.length - k)

/-- The list keeps `k` largest elements of all of them. -/
structure Selects (key : α → β) (k : ℕ) (all kept : List α) : Prop where
  ascending : kept.Pairwise fun a b => key a ≤ key b
  length_le : kept.length ≤ k
  dropped : ∃ dropped, (dropped ++ kept).Perm all ∧ (∀ d ∈ dropped, ∀ a ∈ kept, key d ≤ key a)
    ∧ (dropped ≠ [] → kept.length = k)

namespace Selects

theorem nil (key : α → β) (k : ℕ) : Selects key k [] [] :=
  ⟨List.Pairwise.nil, Nat.zero_le _, [], List.Perm.refl _, by simp, fun h => absurd rfl h⟩

section Step

variable {all xs ys : List α} {x a : α}

/-- A list in order that is cut where the element belongs. -/
theorem ascending_insert (h : (xs ++ ys).Pairwise fun a b => key a ≤ key b)
    (hxs : ∀ x ∈ xs, key x < key a) (hys : ∀ y ∈ ys, key a ≤ key y) :
    (xs ++ a :: ys).Pairwise fun a b => key a ≤ key b := by
  obtain ⟨h₁, h₂, h₃⟩ := List.pairwise_append.mp h
  refine List.pairwise_append.mpr ⟨h₁, List.pairwise_cons.mpr ⟨hys, h₂⟩, ?_⟩
  intro x hx y hy
  rcases List.mem_cons.mp hy with rfl | hy
  · exact (hxs x hx).le
  · exact h₃ x hx y hy

/-- There is room for the element. -/
theorem insert (h : Selects key k all (xs ++ ys)) (hroom : (xs ++ ys).length < k)
    (hxs : ∀ x ∈ xs, key x < key a) (hys : ∀ y ∈ ys, key a ≤ key y) :
    Selects key k (all ++ [a]) (xs ++ a :: ys) := by
  obtain ⟨dropped, hperm, -, hfull⟩ := h.dropped
  have hnone : dropped = [] := by
    by_contra hne
    exact absurd (hfull hne) hroom.ne
  rw [hnone, List.nil_append] at hperm
  refine ⟨ascending_insert h.ascending hxs hys, ?_, [], ?_, by simp, fun h => absurd rfl h⟩
  · rw [List.length_append] at hroom ⊢
    rw [List.length_cons]
    omega
  · exact List.perm_middle.trans ((hperm.cons a).trans (List.perm_append_singleton a all).symm)

/-- The element takes the place of the smallest. -/
theorem replace (h : Selects key k all (x :: xs ++ ys)) (hfull : (x :: xs ++ ys).length = k)
    (hx : key x < key a) (hxs : ∀ x ∈ xs, key x < key a) (hys : ∀ y ∈ ys, key a ≤ key y) :
    Selects key k (all ++ [a]) (xs ++ a :: ys) := by
  obtain ⟨dropped, hperm, hbelow, -⟩ := h.dropped
  rw [List.cons_append] at h hperm hbelow hfull
  obtain ⟨hleast, hrest⟩ := List.pairwise_cons.mp h.ascending
  have hlength : (xs ++ a :: ys).length = k := by
    rw [← hfull]
    simp only [List.length_append, List.length_cons]
    omega
  -- What is kept now is nowhere below the element that goes.
  have hkept : ∀ b ∈ xs ++ a :: ys, key x ≤ key b := by
    intro b hb
    rcases List.mem_append.mp hb with hb | hb
    · exact hleast b (List.mem_append_left ys hb)
    · rcases List.mem_cons.mp hb with rfl | hb
      · exact hx.le
      · exact hleast b (List.mem_append_right xs hb)
  refine ⟨ascending_insert hrest hxs hys, hlength.le, dropped ++ [x], ?_, ?_, fun _ => hlength⟩
  · rw [List.append_assoc, List.singleton_append]
    have hcons : (x :: (xs ++ a :: ys)).Perm (a :: x :: (xs ++ ys)) :=
      (List.perm_middle.cons x).trans (List.Perm.swap a x _)
    refine (hcons.append_left dropped).trans ?_
    exact List.perm_middle.trans ((hperm.cons a).trans (List.perm_append_singleton a all).symm)
  · intro d hd b hb
    rcases List.mem_append.mp hd with hd | hd
    · exact (hbelow d hd x List.mem_cons_self).trans (hkept b hb)
    · rw [List.mem_singleton.mp hd]
      exact hkept b hb

/-- The list is full, and the element is nowhere above it. -/
theorem refuse (h : Selects key k all xs) (hfull : xs.length = k) (hxs : ∀ x ∈ xs, key a ≤ key x) :
    Selects key k (all ++ [a]) xs := by
  obtain ⟨dropped, hperm, hbelow, -⟩ := h.dropped
  refine ⟨h.ascending, hfull.le, a :: dropped, ?_, ?_, fun _ => hfull⟩
  · exact (hperm.cons a).trans (List.perm_append_singleton a all).symm
  · intro d hd b hb
    rcases List.mem_cons.mp hd with rfl | hd
    · exact hxs b hb
    · exact hbelow d hd b hb

end Step

variable {all kept : List α}

theorem length_eq (h : Selects key k all kept) : kept.length = min all.length k := by
  obtain ⟨dropped, hperm, -, hfull⟩ := h.dropped
  have hlength := hperm.length_eq
  rw [List.length_append] at hlength
  have hle := h.length_le
  rcases List.eq_nil_or_concat dropped with rfl | ⟨front, last, rfl⟩
  · rw [List.length_nil] at hlength
    omega
  · have heq := hfull (by simp)
    omega

/-- Each occurrence of an element is kept once at most. -/
theorem subperm (h : Selects key k all kept) : kept.Subperm all := by
  obtain ⟨dropped, hperm, -⟩ := h.dropped
  exact (List.sublist_append_right dropped kept).subperm.trans hperm.subperm

/-- **The keys of a selection** are the largest of all keys. -/
theorem map_eq (h : Selects key k all kept) : kept.map key = largest k (all.map key) := by
  obtain ⟨dropped, hperm, hbelow, -⟩ := h.dropped
  have hlength := h.length_eq
  have hall := hperm.length_eq
  rw [List.length_append] at hall
  have hsorted : ((dropped.map key).insertionSort (· ≤ ·) ++ kept.map key).Pairwise (· ≤ ·) := by
    refine List.pairwise_append.mpr
      ⟨List.pairwise_insertionSort _ _, List.pairwise_map.mpr h.ascending, ?_⟩
    intro y hy z hz
    obtain ⟨d, hd, rfl⟩ := List.mem_map.mp ((List.perm_insertionSort _ _).subset hy)
    obtain ⟨a, ha, rfl⟩ := List.mem_map.mp hz
    exact hbelow d hd a ha
  -- In order, what was dropped comes before what is kept.
  have heq : (all.map key).insertionSort (· ≤ ·)
      = (dropped.map key).insertionSort (· ≤ ·) ++ kept.map key := by
    refine List.Perm.eq_of_pairwise' (List.pairwise_insertionSort _ _) hsorted ?_
    refine (List.perm_insertionSort _ _).trans ((hperm.map key).symm.trans ?_)
    rw [List.map_append]
    exact (List.perm_insertionSort _ _).symm.append_right _
  unfold largest
  rw [heq, List.length_map, List.drop_left']
  rw [List.length_insertionSort, List.length_map]
  omega

end Selects

end TopSelection
