/-
Lists in strictly ascending order of a key, and the sets they index.

Such a list is what a binary search works on: `binarySearchFunc` is the loop of
`slices.BinarySearchFunc`, and on a list that is cut at the target it finds the cut
(`binarySearchFunc_eq`). The list is determined by its elements, so it can be compared with a
finite set: an insertion at the cut is `insertAbsent`, and dropping from the front what is too
much is `greatest`. Nothing here knows what the elements are.
-/
import Mathlib

set_option autoImplicit false

universe u v

namespace OrderedIndex

variable {α : Type u} {β : Type v} [LinearOrder β]

/-! ## Binary search -/

/-- `for i < j` of the search, with at most `n` rounds; every round makes the interval
smaller. -/
def searchLoop (x : List α) (cmp : α → ℤ) : ℕ → ℕ → ℕ → ℕ
  | 0, i, _ => i
  | n + 1, i, j =>
      if i < j then
        let h := (i + j) / 2
        match x[h]? with
        | none => i
        | some each =>
            if cmp each < 0 then searchLoop x cmp n (h + 1) j else searchLoop x cmp n i h
      else i

/-- `slices.BinarySearchFunc`: the place of the target, and whether it is there. -/
def binarySearchFunc (x : List α) (cmp : α → ℤ) : ℕ × Bool :=
  let i := searchLoop x cmp x.length 0 x.length
  (i, x[i]?.any (fun each => cmp each = 0))

/-- The search only compares what is in the list. -/
theorem searchLoop_congr {x : List α} {cmp cmp' : α → ℤ} (h : ∀ a ∈ x, cmp a = cmp' a) (n i j : ℕ) :
    searchLoop x cmp n i j = searchLoop x cmp' n i j := by
  induction n generalizing i j with
  | zero => rfl
  | succ n ih =>
      unfold searchLoop
      split_ifs with hlt
      · dsimp only
        rcases hmid : x[(i + j) / 2]? with _ | each
        · rfl
        · dsimp only
          rw [h each (List.mem_of_getElem? hmid), ih, ih]
      · rfl

/-- The cut stays between `i` and `j`. -/
theorem searchLoop_eq {xs ys : List α} {cmp : α → ℤ} (hbelow : ∀ a ∈ xs, cmp a < 0)
    (habove : ∀ a ∈ ys, ¬ cmp a < 0) {n i j : ℕ} (hi : i ≤ xs.length) (hj : xs.length ≤ j)
    (hbound : j ≤ (xs ++ ys).length) (hn : j - i ≤ n) :
    searchLoop (xs ++ ys) cmp n i j = xs.length := by
  induction n generalizing i j with
  | zero =>
      rw [searchLoop]
      omega
  | succ n ih =>
      rw [searchLoop]
      by_cases hlt : i < j
      · have hmid : (i + j) / 2 < (xs ++ ys).length := by omega
        rw [if_pos hlt]
        dsimp only
        rw [List.getElem?_eq_getElem hmid]
        dsimp only
        by_cases hleft : (i + j) / 2 < xs.length
        · have hneg : cmp (xs ++ ys)[(i + j) / 2] < 0 := by
            rw [List.getElem_append_left hleft]
            exact hbelow _ (List.getElem_mem _)
          rw [if_pos hneg]
          exact ih (by omega) hj hbound (by omega)
        · have hnonneg : ¬ cmp (xs ++ ys)[(i + j) / 2] < 0 := by
            rw [List.getElem_append_right (by omega)]
            exact habove _ (List.getElem_mem _)
          rw [if_neg hnonneg]
          exact ih hi (by omega) (by omega) (by omega)
      · rw [if_neg hlt]
        omega

/-- **The binary search finds the cut.** -/
theorem binarySearchFunc_eq {xs ys : List α} {cmp : α → ℤ} (hbelow : ∀ a ∈ xs, cmp a < 0)
    (habove : ∀ a ∈ ys, ¬ cmp a < 0) :
    binarySearchFunc (xs ++ ys) cmp = (xs.length, ys.head?.any (fun a => cmp a = 0)) := by
  unfold binarySearchFunc
  rw [searchLoop_eq hbelow habove (Nat.zero_le _) (by simp) le_rfl (by simp)]
  dsimp only
  rw [List.getElem?_append_right le_rfl, Nat.sub_self, List.head?_eq_getElem?]

/-- Behind the place where `p` ends it never comes back. -/
theorem not_of_mem_dropWhile {p : α → Bool} {l : List α}
    (h : l.Pairwise fun a b => p b = true → p a = true) {y : α} (hy : y ∈ l.dropWhile p) :
    ¬ p y = true := by
  induction l with
  | nil => cases hy
  | cons a l ih =>
      obtain ⟨hfirst, hrest⟩ := List.pairwise_cons.mp h
      by_cases ha : p a = true
      · rw [List.dropWhile_cons_of_pos ha] at hy
        exact ih hrest hy
      · rw [List.dropWhile_cons_of_neg ha] at hy
        rcases List.mem_cons.mp hy with rfl | hy
        · exact ha
        · exact fun hpy => ha (hfirst y hy hpy)

/-! ## The order of a list -/

variable (key : α → β)

/-- The list is in strictly ascending order of the keys. -/
def Ascending (l : List α) : Prop := l.Pairwise (fun a b => key a < key b)

variable {key}

theorem Ascending.nodup {l : List α} (h : Ascending key l) : l.Nodup :=
  List.Pairwise.imp (fun hlt heq => absurd (congrArg key heq) hlt.ne) h

theorem Ascending.sublist {l l' : List α} (h : Ascending key l) (hsub : l'.Sublist l) :
    Ascending key l' := List.Pairwise.sublist hsub h

/-- A new element goes between the smaller and the greater ones. -/
theorem Ascending.insert {xs ys : List α} {a : α} (h : Ascending key (xs ++ ys))
    (hxs : ∀ x ∈ xs, key x < key a) (hys : ∀ y ∈ ys, key a < key y) :
    Ascending key (xs ++ a :: ys) := by
  obtain ⟨h1, h2, h3⟩ := List.pairwise_append.mp h
  refine List.pairwise_append.mpr ⟨h1, List.pairwise_cons.mpr ⟨hys, h2⟩, ?_⟩
  intro x hx y hy
  rcases List.mem_cons.mp hy with rfl | hy
  · exact hxs x hx
  · exact h3 x hx y hy

/-! ## The set of a list -/

variable (key)

/-- The elements with fewer than `n` greater ones. -/
def greatest (n : ℕ) (S : Finset α) : Finset α :=
  S.filter (fun a => (S.filter (fun b => key a < key b)).card < n)

variable [DecidableEq α]

/-- The element is added unless its key is there. -/
def insertAbsent (a : α) (S : Finset α) : Finset α :=
  if ∃ b ∈ S, key b = key a then S else insert a S

variable {key}

theorem insertAbsent_of_exists {a : α} {S : Finset α} (h : ∃ b ∈ S, key b = key a) :
    insertAbsent key a S = S := if_pos h

theorem insertAbsent_of_not_exists {a : α} {S : Finset α} (h : ¬ ∃ b ∈ S, key b = key a) :
    insertAbsent key a S = insert a S := if_neg h

/-- **The back of an ascending list.** The last `n` elements are the `n` greatest. -/
theorem toFinset_drop {l : List α} (h : Ascending key l) (n : ℕ) :
    (l.drop (l.length - n)).toFinset = greatest key n l.toFinset := by
  obtain ⟨pre, suf, hl, hpre⟩ : ∃ pre suf, l = pre ++ suf ∧ pre.length = l.length - n :=
    ⟨l.take (l.length - n), l.drop (l.length - n), (List.take_append_drop _ l).symm,
      List.length_take_of_le (Nat.sub_le _ _)⟩
  have hdrop : l.drop (l.length - n) = suf := by
    rw [← hpre, hl, List.drop_left]
  have hlen : l.length = pre.length + suf.length := by rw [hl, List.length_append]
  obtain ⟨-, hsuf, hcross⟩ := List.pairwise_append.mp (hl ▸ h)
  have hnodup : suf.Nodup := Ascending.nodup hsuf
  rw [hdrop]
  ext a
  rw [List.mem_toFinset, greatest, Finset.mem_filter, List.mem_toFinset]
  constructor
  · intro ha
    refine ⟨by rw [hl]; exact List.mem_append_right _ ha, ?_⟩
    -- What is greater is behind the cut, and is not the element itself.
    have hsub : l.toFinset.filter (fun b => key a < key b) ⊆ suf.toFinset.erase a := by
      intro b hb
      obtain ⟨hb, hlt⟩ := Finset.mem_filter.mp hb
      rw [List.mem_toFinset, hl, List.mem_append] at hb
      rw [Finset.mem_erase, List.mem_toFinset]
      refine ⟨fun heq => absurd (congrArg key heq) hlt.ne', hb.resolve_left ?_⟩
      exact fun hb => absurd (hcross b hb a ha) (not_lt.mpr hlt.le)
    have hcard := Finset.card_le_card hsub
    rw [Finset.card_erase_of_mem (List.mem_toFinset.mpr ha),
      List.toFinset_card_of_nodup hnodup] at hcard
    have hpos := List.length_pos_of_mem ha
    omega
  · rintro ⟨ha, hcard⟩
    rw [hl, List.mem_append] at ha
    refine ha.resolve_left (fun ha => ?_)
    -- In front of the cut everything behind it is greater.
    have hsub : suf.toFinset ⊆ l.toFinset.filter (fun b => key a < key b) := by
      intro b hb
      rw [List.mem_toFinset] at hb
      rw [Finset.mem_filter, List.mem_toFinset]
      exact ⟨by rw [hl]; exact List.mem_append_right _ hb, hcross a ha b hb⟩
    have hle := Finset.card_le_card hsub
    rw [List.toFinset_card_of_nodup hnodup] at hle
    have hpos := List.length_pos_of_mem ha
    omega

end OrderedIndex
