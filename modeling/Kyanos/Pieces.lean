/-
Pieces of a stream: a start position and the elements from there on.

Three things about them are general enough to stand alone. What a list of pieces
stores at a position (`Stores`) and how that splits over the ways pieces are
combined; the pieces that are cut from one stream (`cut`), whose prefixes,
suffixes and concatenations are again cut from it; and the canonical form of a
set of stored positions, the maximal contiguous runs in ascending order. That
form is unique: two canonical lists storing the same are the same list
(`Canonical.ext`), which is what makes a result independent of the order in which
the pieces arrived.
-/
import Mathlib

set_option autoImplicit false

universe u

namespace Pieces

variable {α : Type u}

/-! ## What is stored where -/

/-- The piece has the element `a` at position `p`. -/
def Holds (x : ℕ × List α) (p : ℕ) (a : α) : Prop := x.1 ≤ p ∧ x.2[p - x.1]? = some a

/-- Some piece of the list has the element `a` at position `p`. -/
def Stores (l : List (ℕ × List α)) (p : ℕ) (a : α) : Prop := ∃ x ∈ l, Holds x p a

theorem Holds.lt {x : ℕ × List α} {p : ℕ} {a : α} (h : Holds x p a) :
    x.1 ≤ p ∧ p < x.1 + x.2.length := by
  obtain ⟨hle, hget⟩ := h
  have hlt : p - x.1 < x.2.length := (List.getElem?_eq_some_iff.mp hget).1
  exact ⟨hle, by omega⟩

/-- Every position in the range of a piece holds something. -/
theorem exists_holds {x : ℕ × List α} {p : ℕ} (hle : x.1 ≤ p) (hlt : p < x.1 + x.2.length) :
    ∃ a, Holds x p a := by
  have hb : p - x.1 < x.2.length := by omega
  exact ⟨x.2[p - x.1], hle, List.getElem?_eq_getElem hb⟩

/-- A concatenation holds what its two parts hold, the second one further on. -/
theorem holds_append {s : ℕ} {l₁ l₂ : List α} {p : ℕ} {a : α} :
    Holds (s, l₁ ++ l₂) p a ↔ Holds (s, l₁) p a ∨ Holds (s + l₁.length, l₂) p a := by
  simp only [Holds]
  by_cases hp : p - s < l₁.length
  · rw [List.getElem?_append_left hp]
    constructor
    · exact Or.inl
    · rintro (h | ⟨h, -⟩)
      · exact h
      · omega
  · rw [List.getElem?_append_right (by omega)]
    constructor
    · rintro ⟨hle, hget⟩
      refine Or.inr ⟨by omega, ?_⟩
      rwa [show p - (s + l₁.length) = p - s - l₁.length by omega]
    · rintro (⟨-, hget⟩ | ⟨hle, hget⟩)
      · exact absurd (List.getElem?_eq_some_iff.mp hget).1 hp
      · refine ⟨by omega, ?_⟩
        rwa [show p - s - l₁.length = p - (s + l₁.length) by omega]

theorem stores_cons {x : ℕ × List α} {l : List (ℕ × List α)} {p : ℕ} {a : α} :
    Stores (x :: l) p a ↔ Holds x p a ∨ Stores l p a := by
  simp [Stores]

theorem stores_append {l l' : List (ℕ × List α)} {p : ℕ} {a : α} :
    Stores (l ++ l') p a ↔ Stores l p a ∨ Stores l' p a := by
  simp [Stores, or_and_right, exists_or]

/-! ## Cutting a piece out of a stream -/

/-- The `n` elements of the stream `S` from position `s` on. -/
def cut (S : ℕ → α) (s n : ℕ) : List α := (List.range n).map (fun i => S (s + i))

theorem getElem?_cut (S : ℕ → α) (s n i : ℕ) :
    (cut S s n)[i]? = if i < n then some (S (s + i)) else none := by
  unfold cut
  split_ifs with h
  · simp [h]
  · simp [h]

/-- Two adjacent cuts make one. -/
theorem cut_append (S : ℕ → α) (s m n : ℕ) : cut S s m ++ cut S (s + m) n = cut S s (m + n) := by
  simp [cut, List.range_add, Nat.add_assoc]

theorem drop_cut (S : ℕ → α) (s n k : ℕ) : (cut S s n).drop k = cut S (s + k) (n - k) := by
  apply List.ext_getElem?
  intro i
  rw [List.getElem?_drop, getElem?_cut, getElem?_cut, Nat.add_assoc]
  by_cases h : k + i < n
  · rw [if_pos h, if_pos (by omega)]
  · rw [if_neg h, if_neg (by omega)]

theorem take_cut (S : ℕ → α) (s n k : ℕ) : (cut S s n).take k = cut S s (min k n) := by
  apply List.ext_getElem?
  intro i
  rw [List.getElem?_take, getElem?_cut, getElem?_cut]
  by_cases h : i < k
  · rw [if_pos h]
    by_cases h' : i < n
    · rw [if_pos h', if_pos (by omega)]
    · rw [if_neg h', if_neg (by omega)]
  · rw [if_neg h, if_neg (by omega)]

/-! ## The canonical form -/

/-- Non-empty pieces in ascending order, a gap between each and the next. -/
structure Canonical (l : List (ℕ × List α)) : Prop where
  nonempty : ∀ x ∈ l, x.2 ≠ []
  gaps : l.Pairwise (fun x y => x.1 + x.2.length < y.1)

theorem Canonical.tail {x : ℕ × List α} {l : List (ℕ × List α)} (h : Canonical (x :: l)) :
    Canonical l :=
  ⟨fun y hy => h.nonempty y (List.mem_cons_of_mem _ hy), (List.pairwise_cons.mp h.gaps).2⟩

/-- In a canonical list the first piece starts first. -/
theorem Canonical.head_le {x : ℕ × List α} {l : List (ℕ × List α)} (h : Canonical (x :: l))
    {p : ℕ} {a : α} (hp : Stores (x :: l) p a) : x.1 ≤ p := by
  rcases stores_cons.mp hp with hx | ⟨y, hy, hyp⟩
  · exact hx.1
  · have hgap := (List.pairwise_cons.mp h.gaps).1 y hy
    have := hyp.1
    omega

/-- What the tail of a canonical list stores lies beyond the end of the first piece. -/
theorem Canonical.stores_tail_iff {x : ℕ × List α} {l : List (ℕ × List α)}
    (h : Canonical (x :: l)) {p : ℕ} {a : α} :
    Stores l p a ↔ Stores (x :: l) p a ∧ x.1 + x.2.length < p := by
  constructor
  · rintro ⟨y, hy, hyp⟩
    have hgap := (List.pairwise_cons.mp h.gaps).1 y hy
    refine ⟨⟨y, List.mem_cons_of_mem _ hy, hyp⟩, ?_⟩
    have := hyp.1
    omega
  · rintro ⟨hp, hlt⟩
    rcases stores_cons.mp hp with hx | hl
    · have := hx.lt
      omega
    · exact hl

/-- Inside the range of the first piece a canonical list stores what that piece holds. -/
theorem Canonical.stores_head_iff {x : ℕ × List α} {l : List (ℕ × List α)}
    (h : Canonical (x :: l)) {p : ℕ} {a : α} (hp : p ≤ x.1 + x.2.length) :
    Stores (x :: l) p a ↔ Holds x p a := by
  rw [stores_cons]
  constructor
  · rintro (hx | hl)
    · exact hx
    · have := (h.stores_tail_iff.mp hl).2
      omega
  · exact Or.inl

/-- The start of the first piece is stored. -/
theorem Canonical.exists_stores_head {x : ℕ × List α} {l : List (ℕ × List α)}
    (h : Canonical (x :: l)) : ∃ a, Stores (x :: l) x.1 a := by
  have hlen : 0 < x.2.length := List.length_pos_iff.mpr (h.nonempty x List.mem_cons_self)
  obtain ⟨a, ha⟩ := exists_holds (x := x) (le_refl _) (by omega)
  exact ⟨a, stores_cons.mpr (Or.inl ha)⟩

/-- The first piece of a canonical list is no shorter than a first piece with the
same start in a list that stores the same: the position after its end is free. -/
theorem Canonical.length_le {x y : ℕ × List α} {l l' : List (ℕ × List α)}
    (h' : Canonical (y :: l')) (hstart : x.1 = y.1)
    (heq : ∀ p a, Stores (x :: l) p a ↔ Stores (y :: l') p a) :
    x.2.length ≤ y.2.length := by
  by_contra hlt
  obtain ⟨a, ha⟩ := exists_holds (x := x) (p := y.1 + y.2.length) (by omega) (by omega)
  have hs : Stores (y :: l') (y.1 + y.2.length) a :=
    (heq _ _).mp (stores_cons.mpr (Or.inl ha))
  have := ((h'.stores_head_iff (le_refl _)).mp hs).lt
  omega

/-- **Uniqueness of the canonical form.** Two canonical lists that store the same
elements at the same positions are equal. -/
theorem Canonical.ext {l l' : List (ℕ × List α)} (h : Canonical l) (h' : Canonical l')
    (heq : ∀ p a, Stores l p a ↔ Stores l' p a) : l = l' := by
  induction l generalizing l' with
  | nil =>
      cases l' with
      | nil => rfl
      | cons y ys =>
          obtain ⟨a, ha⟩ := h'.exists_stores_head
          obtain ⟨z, hz, -⟩ := (heq _ _).mpr ha
          simp at hz
  | cons x xs ih =>
      cases l' with
      | nil =>
          obtain ⟨a, ha⟩ := h.exists_stores_head
          obtain ⟨z, hz, -⟩ := (heq _ _).mp ha
          simp at hz
      | cons y ys =>
          obtain ⟨a, ha⟩ := h.exists_stores_head
          obtain ⟨b, hb⟩ := h'.exists_stores_head
          have hyx : y.1 ≤ x.1 := h'.head_le ((heq _ _).mp ha)
          have hxy : x.1 ≤ y.1 := h.head_le ((heq _ _).mpr hb)
          have hstart : x.1 = y.1 := le_antisymm hxy hyx
          have hlen : x.2.length = y.2.length :=
            le_antisymm (h'.length_le hstart heq)
              (h.length_le hstart.symm (fun p a => (heq p a).symm))
          -- The heads agree element by element: both lists store their own head there.
          have helems : x.2 = y.2 := by
            apply List.ext_getElem hlen
            intro i hi hi'
            have hx : Holds x (x.1 + i) x.2[i] :=
              ⟨by omega, by rw [Nat.add_sub_cancel_left, List.getElem?_eq_getElem hi]⟩
            have hy := (h'.stores_head_iff (by omega)).mp
              ((heq _ _).mp (stores_cons.mpr (Or.inl hx)))
            have hget := hy.2
            rw [hstart, Nat.add_sub_cancel_left, List.getElem?_eq_getElem hi'] at hget
            exact (Option.some.inj hget).symm
          have hhead : x = y := Prod.ext hstart helems
          subst hhead
          have htail : xs = ys := by
            refine ih h.tail h'.tail (fun p a => ?_)
            rw [h.stores_tail_iff, h'.stores_tail_iff, heq]
          rw [htail]

/-! ## Lists of pieces -/

/-- Inserting behind the first part of a list. -/
theorem insertIdx_length_append (xs ys : List α) (a : α) :
    (xs ++ ys).insertIdx xs.length a = xs ++ a :: ys := by
  induction xs with
  | nil => simp
  | cons x xs ih => simp [ih]

end Pieces
