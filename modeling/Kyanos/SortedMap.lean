/-
A finite map over a linear order, kept as its list of entries in key order.

This is the model of a tree map: `get?`, `put`, `remove`, `floor`, the number of
entries and the iteration over the keys in ascending order. The order of the
entries is a field of the structure, so a map out of order cannot be built and
two maps with the same lookups are equal (`ext_get?`).

Every operation is described by what it does to lookups (`get?_put`,
`get?_remove`, `get?_removeAll`), and `floor` by `floor_eq_some` and
`floor_isSome`; the entry list itself is not mentioned outside this file.
-/
import Mathlib

set_option autoImplicit false

universe u v

/-- A map with its entries in strictly ascending key order. -/
structure SortedMap (κ : Type u) (ν : Type v) [LinearOrder κ] where
  entries : List (κ × ν)
  sorted : entries.Pairwise (fun a b => a.1 < b.1)
deriving DecidableEq

namespace SortedMap

variable {κ : Type u} {ν : Type v} [LinearOrder κ]

/-! ## The operations -/

/-- The map without entries. -/
def empty : SortedMap κ ν := ⟨[], List.Pairwise.nil⟩

/-- The keys in ascending order, which is the order of iteration. -/
def keys (m : SortedMap κ ν) : List κ := m.entries.map Prod.fst

/-- The number of entries. -/
def size (m : SortedMap κ ν) : ℕ := m.entries.length

/-- The value stored under a key. -/
def get? (m : SortedMap κ ν) (k : κ) : Option ν := m.entries.lookup k

/-- Insertion into an entry list at the place of the key, replacing its old value. -/
def putEntry (k : κ) (v : ν) : List (κ × ν) → List (κ × ν)
  | [] => [(k, v)]
  | (k', v') :: rest =>
      if k < k' then (k, v) :: (k', v') :: rest
      else if k = k' then (k, v) :: rest
      else (k', v') :: putEntry k v rest

theorem mem_putEntry {k : κ} {v : ν} {e : κ × ν} {l : List (κ × ν)}
    (h : e ∈ putEntry k v l) : e = (k, v) ∨ e ∈ l := by
  induction l with
  | nil => simpa [putEntry] using h
  | cons hd tl ih =>
      obtain ⟨k', v'⟩ := hd
      rw [putEntry] at h
      split_ifs at h with h1 h2
      · simpa using h
      · rcases List.mem_cons.mp h with h | h
        · exact Or.inl h
        · exact Or.inr (List.mem_cons_of_mem _ h)
      · rcases List.mem_cons.mp h with h | h
        · exact Or.inr (h ▸ List.mem_cons_self)
        · exact (ih h).imp_right (List.mem_cons_of_mem _)

theorem putEntry_sorted (k : κ) (v : ν) {l : List (κ × ν)}
    (h : l.Pairwise (fun a b => a.1 < b.1)) :
    (putEntry k v l).Pairwise (fun a b => a.1 < b.1) := by
  induction l with
  | nil => simp [putEntry]
  | cons hd tl ih =>
      obtain ⟨k', v'⟩ := hd
      obtain ⟨hlt, htl⟩ := List.pairwise_cons.mp h
      rw [putEntry]
      split_ifs with h1 h2
      · refine List.pairwise_cons.mpr ⟨?_, h⟩
        intro e he
        rcases List.mem_cons.mp he with rfl | he
        · exact h1
        · exact h1.trans (hlt e he)
      · subst h2
        exact List.pairwise_cons.mpr ⟨hlt, htl⟩
      · refine List.pairwise_cons.mpr ⟨?_, ih htl⟩
        intro e he
        rcases mem_putEntry he with rfl | he
        · exact lt_of_le_of_ne (not_lt.mp h1) (Ne.symm h2)
        · exact hlt e he

/-- Store a value under a key. -/
def put (m : SortedMap κ ν) (k : κ) (v : ν) : SortedMap κ ν :=
  ⟨putEntry k v m.entries, putEntry_sorted k v m.sorted⟩

/-- Drop the entry of a key. -/
def remove (m : SortedMap κ ν) (k : κ) : SortedMap κ ν :=
  ⟨m.entries.filter (fun e => e.1 ≠ k), m.sorted.filter _⟩

/-- Drop the entries of several keys, one after the other. -/
def removeAll (m : SortedMap κ ν) (ks : List κ) : SortedMap κ ν := ks.foldl remove m

/-- The entry with the greatest key not above `k`. -/
def floor (m : SortedMap κ ν) (k : κ) : Option (κ × ν) :=
  (m.entries.filter (fun e => e.1 ≤ k)).getLast?

/-! ## Lookups -/

/-- In an entry list in key order, a key is found with the value it is stored with. -/
theorem lookup_eq_some_iff {k : κ} {v : ν} {l : List (κ × ν)}
    (h : l.Pairwise (fun a b => a.1 < b.1)) : l.lookup k = some v ↔ (k, v) ∈ l := by
  induction l with
  | nil => simp
  | cons hd tl ih =>
      obtain ⟨k', v'⟩ := hd
      obtain ⟨hlt, htl⟩ := List.pairwise_cons.mp h
      by_cases hk : k = k'
      · subst hk
        have hnot : (k, v) ∉ tl := fun hm => lt_irrefl k (hlt (k, v) hm)
        simp [hnot, eq_comm]
      · have hne : (k == k') = false := by simpa using hk
        simp [List.lookup_cons, hne, ih htl, hk]

theorem mem_entries {m : SortedMap κ ν} {k : κ} {v : ν} :
    (k, v) ∈ m.entries ↔ m.get? k = some v := (lookup_eq_some_iff m.sorted).symm

theorem mem_keys {m : SortedMap κ ν} {k : κ} : k ∈ m.keys ↔ (m.get? k).isSome := by
  rw [keys, List.mem_map, Option.isSome_iff_exists]
  constructor
  · rintro ⟨⟨k', v⟩, hm, rfl⟩
    exact ⟨v, mem_entries.mp hm⟩
  · rintro ⟨v, hv⟩
    exact ⟨(k, v), mem_entries.mpr hv, rfl⟩

theorem keys_sorted (m : SortedMap κ ν) : m.keys.Pairwise (· < ·) := by
  rw [keys, List.pairwise_map]
  exact m.sorted

theorem mem_takeWhile_lt {l : List κ} (hs : l.Pairwise (· < ·)) {t j : κ} :
    j ∈ l.takeWhile (fun k => k < t) ↔ j ∈ l ∧ j < t := by
  induction l with
  | nil => simp
  | cons k ks ih =>
      obtain ⟨hlt, hks⟩ := List.pairwise_cons.mp hs
      by_cases hk : k < t
      · rw [List.takeWhile_cons_of_pos (by simpa using hk), List.mem_cons, List.mem_cons, ih hks]
        constructor
        · rintro (rfl | ⟨hj, hjt⟩)
          · exact ⟨Or.inl rfl, hk⟩
          · exact ⟨Or.inr hj, hjt⟩
        · rintro ⟨rfl | hj, hjt⟩
          · exact Or.inl rfl
          · exact Or.inr ⟨hj, hjt⟩
      · rw [List.takeWhile_cons_of_neg (by simpa using hk)]
        constructor
        · intro hj
          simp at hj
        · rintro ⟨hj, hjt⟩
          -- Every later key is above `k`, which is already not below `t`.
          rcases List.mem_cons.mp hj with rfl | hj
          · exact absurd hjt hk
          · exact absurd ((hlt j hj).trans hjt) hk

/-- The keys visited up to the first one that is not below `t` are all the keys
below `t`. -/
theorem mem_takeWhile_keys {m : SortedMap κ ν} {t j : κ} :
    j ∈ m.keys.takeWhile (fun k => k < t) ↔ j ∈ m.keys ∧ j < t :=
  mem_takeWhile_lt m.keys_sorted

@[simp] theorem get?_empty (k : κ) : (empty : SortedMap κ ν).get? k = none := rfl

/-- Two maps that agree on every lookup have the same entries. -/
theorem ext_get? {m m' : SortedMap κ ν} (h : ∀ k, m.get? k = m'.get? k) : m = m' := by
  have hmem : ∀ e, e ∈ m.entries ↔ e ∈ m'.entries := by
    rintro ⟨k, v⟩
    rw [mem_entries, mem_entries, h k]
  have hnd : ∀ n : SortedMap κ ν, n.entries.Nodup := fun n =>
    n.sorted.imp (fun {a b} hab => fun heq => lt_irrefl a.1 (heq ▸ hab))
  have hperm : m.entries.Perm m'.entries :=
    (List.perm_ext_iff_of_nodup (hnd m) (hnd m')).mpr hmem
  have heq : m.entries = m'.entries :=
    hperm.eq_of_pairwise (fun _ _ _ _ hab hba => (lt_asymm hab hba).elim) m.sorted m'.sorted
  cases m
  cases m'
  simpa using heq

theorem lookup_putEntry (k : κ) (v : ν) (j : κ) (l : List (κ × ν)) :
    (putEntry k v l).lookup j = if j = k then some v else l.lookup j := by
  by_cases hj : j = k
  · subst hj
    rw [if_pos rfl]
    induction l with
    | nil => simp [putEntry]
    | cons hd tl ih =>
        obtain ⟨k', v'⟩ := hd
        rw [putEntry]
        split_ifs with h1 h2
        · simp
        · simp
        · have hne : (j == k') = false := by simpa using h2
          rw [List.lookup_cons, hne]
          exact ih
  · have hne : (j == k) = false := by simpa using hj
    rw [if_neg hj]
    induction l with
    | nil => simp [putEntry, List.lookup_cons, hne]
    | cons hd tl ih =>
        obtain ⟨k', v'⟩ := hd
        rw [putEntry]
        split_ifs with h1 h2
        · rw [List.lookup_cons, hne]
        · rw [List.lookup_cons, hne, List.lookup_cons, ← h2, hne]
        · rw [List.lookup_cons, List.lookup_cons, ih]

theorem get?_put (m : SortedMap κ ν) (k : κ) (v : ν) (j : κ) :
    (m.put k v).get? j = if j = k then some v else m.get? j :=
  lookup_putEntry k v j m.entries

theorem get?_remove (m : SortedMap κ ν) (k j : κ) :
    (m.remove k).get? j = if j = k then none else m.get? j := by
  apply Option.ext
  intro v
  rw [← mem_entries, remove, List.mem_filter]
  by_cases hj : j = k
  · simp [hj]
  · simp [hj, mem_entries]

theorem get?_removeAll (m : SortedMap κ ν) (ks : List κ) (j : κ) :
    (m.removeAll ks).get? j = if j ∈ ks then none else m.get? j := by
  unfold removeAll
  induction ks generalizing m with
  | nil => simp
  | cons k ks ih =>
      rw [List.foldl_cons, ih, get?_remove]
      by_cases h1 : j ∈ ks
      · simp [h1]
      · by_cases h2 : j = k
        · simp [h2]
        · simp [h1, h2]

/-- A new key adds one entry. -/
theorem size_put_of_get?_eq_none {m : SortedMap κ ν} {k : κ} (v : ν) (h : m.get? k = none) :
    (m.put k v).size = m.size + 1 := by
  unfold put size
  unfold get? at h
  dsimp only
  generalize m.entries = l at h
  induction l with
  | nil => rfl
  | cons hd tl ih =>
      obtain ⟨k', v'⟩ := hd
      have hne : k ≠ k' := by
        rintro rfl
        simp at h
      have hbeq : (k == k') = false := by simpa using hne
      rw [List.lookup_cons, hbeq] at h
      rw [putEntry]
      split_ifs with h1
      · simp
      · simp [ih h]

/-- A key adds one entry or none. -/
theorem size_put_le (m : SortedMap κ ν) (k : κ) (v : ν) : (m.put k v).size ≤ m.size + 1 := by
  unfold put size
  dsimp only
  generalize m.entries = l
  induction l with
  | nil => exact le_rfl
  | cons e l ih =>
      rw [putEntry]
      split_ifs
      · exact le_rfl
      · exact Nat.le_succ _
      · simpa using ih

theorem size_removeAll_le (m : SortedMap κ ν) (ks : List κ) : (m.removeAll ks).size ≤ m.size := by
  unfold removeAll
  induction ks generalizing m with
  | nil => exact le_rfl
  | cons k ks ih =>
      rw [List.foldl_cons]
      apply (ih (m.remove k)).trans
      exact List.length_filter_le _ _

/-- What is left after several removals. -/
theorem removeAll_entries (m : SortedMap κ ν) (ks : List κ) :
    (m.removeAll ks).entries = m.entries.filter (fun e => e.1 ∉ ks) := by
  unfold removeAll
  induction ks generalizing m with
  | nil => simp
  | cons k ks ih =>
      rw [List.foldl_cons, ih, remove, List.filter_filter]
      congr 1
      funext e
      by_cases hk : e.1 = k <;> simp [hk]

/-- Dropping the first `n` keys of the iteration makes the map smaller by `n`. -/
theorem size_removeAll_take_le (m : SortedMap κ ν) (n : ℕ) :
    (m.removeAll (m.keys.take n)).size ≤ m.size - n := by
  have hgone : (m.entries.take n).filter (fun e => e.1 ∉ m.keys.take n) = [] := by
    rw [List.filter_eq_nil_iff]
    intro e he
    have hmem : e.1 ∈ m.keys.take n := by
      rw [keys, ← List.map_take]
      exact List.mem_map_of_mem he
    simp [hmem]
  have hsplit := List.filter_append (p := fun e : κ × ν => e.1 ∉ m.keys.take n)
    (m.entries.take n) (m.entries.drop n)
  rw [List.take_append_drop, hgone, List.nil_append] at hsplit
  rw [size, removeAll_entries, hsplit, size]
  exact (List.length_filter_le _ _).trans (List.length_drop).le

/-- The least key comes first in the iteration. -/
theorem mem_take_keys {m : SortedMap κ ν} {k : κ} (hk : (m.get? k).isSome)
    (hleast : ∀ j, (m.get? j).isSome → k ≤ j) {n : ℕ} (hn : 0 < n) : k ∈ m.keys.take n := by
  have hmem := mem_keys.mpr hk
  have hsorted := m.keys_sorted
  cases hks : m.keys with
  | nil => simp [hks] at hmem
  | cons j js =>
      have hj : k ≤ j := hleast j (mem_keys.mp (by simp [hks]))
      rw [hks] at hmem hsorted
      rcases List.mem_cons.mp hmem with rfl | hmem
      · obtain ⟨n, rfl⟩ := Nat.exists_eq_succ_of_ne_zero hn.ne'
        simp
      · exact absurd ((List.pairwise_cons.mp hsorted).1 k hmem) (not_lt.mpr hj)

/-! ## `floor` -/

/-- The last entry of a list in key order has the greatest key. -/
theorem le_getLast {l : List (κ × ν)} (h : l.Pairwise (fun a b => a.1 < b.1)) {e x : κ × ν}
    (hlast : l.getLast? = some e) (hx : x ∈ l) : x.1 ≤ e.1 := by
  obtain ⟨pre, rfl⟩ : ∃ pre, l = pre ++ [e] := by
    rw [List.getLast?_eq_some_iff] at hlast
    exact hlast
  rw [List.pairwise_append] at h
  rcases List.mem_append.mp hx with hx | hx
  · exact (h.2.2 x hx e (List.mem_singleton.mpr rfl)).le
  · rw [List.mem_singleton.mp hx]

/-- `floor k` is the stored entry with the greatest key not above `k`. -/
theorem floor_eq_some {m : SortedMap κ ν} {k k' : κ} {v : ν} (h : m.floor k = some (k', v)) :
    m.get? k' = some v ∧ k' ≤ k ∧ ∀ j, (m.get? j).isSome → j ≤ k → j ≤ k' := by
  unfold floor at h
  have hmem : (k', v) ∈ m.entries.filter (fun e => e.1 ≤ k) := List.mem_of_getLast? h
  rw [List.mem_filter] at hmem
  refine ⟨mem_entries.mp hmem.1, by simpa using hmem.2, ?_⟩
  intro j hj hjk
  obtain ⟨w, hw⟩ := Option.isSome_iff_exists.mp hj
  refine le_getLast (m.sorted.filter _) h (x := (j, w)) ?_
  rw [List.mem_filter]
  exact ⟨mem_entries.mpr hw, by simpa using hjk⟩

/-- `floor k` finds an entry as soon as some key is not above `k`. -/
theorem floor_isSome {m : SortedMap κ ν} {k j : κ} (hj : (m.get? j).isSome) (hjk : j ≤ k) :
    ∃ k' v, m.floor k = some (k', v) := by
  obtain ⟨w, hw⟩ := Option.isSome_iff_exists.mp hj
  have hmem : (j, w) ∈ m.entries.filter (fun e => e.1 ≤ k) := by
    rw [List.mem_filter]
    exact ⟨mem_entries.mpr hw, by simpa using hjk⟩
  cases hlast : (m.entries.filter (fun e => e.1 ≤ k)).getLast? with
  | none =>
      rw [List.getLast?_eq_none_iff] at hlast
      rw [hlast] at hmem
      simp at hmem
  | some e => exact ⟨e.1, e.2, hlast⟩

/-- `floor k` is the one entry that is stored, is not above `k`, and has none between. -/
theorem floor_eq_some_iff {m : SortedMap κ ν} {k k' : κ} {v : ν} :
    m.floor k = some (k', v)
      ↔ m.get? k' = some v ∧ k' ≤ k ∧ ∀ j, (m.get? j).isSome → j ≤ k → j ≤ k' := by
  refine ⟨floor_eq_some, ?_⟩
  rintro ⟨hget, hle, hleast⟩
  have hsome : (m.get? k').isSome := by rw [hget]; rfl
  obtain ⟨j, w, hfloor⟩ := floor_isSome hsome hle
  obtain ⟨hj, hjk, hbest⟩ := floor_eq_some hfloor
  have heq : j = k' := le_antisymm (hleast j (by rw [hj]; rfl) hjk) (hbest k' hsome hle)
  subst heq
  rw [hget] at hj
  rw [hfloor, Option.some.inj hj]

/-- A key is not among the first `n` when too few are above it. -/
theorem not_mem_take_keys {m : SortedMap κ ν} {k : κ} {n : ℕ}
    (h : (m.keys.filter (fun j => k < j)).length < m.size - n) : k ∉ m.keys.take n := by
  intro hk
  have hsorted := m.keys_sorted
  rw [← List.take_append_drop n m.keys, List.pairwise_append] at hsorted
  have habove : (m.keys.drop n).filter (fun j => k < j) = m.keys.drop n :=
    List.filter_eq_self.mpr fun j hj => by simpa using hsorted.2.2 k hk j hj
  have hlen : (m.keys.drop n).length ≤ (m.keys.filter (fun j => k < j)).length := by
    rw [← habove]
    exact ((List.drop_sublist n m.keys).filter _).length_le
  rw [List.length_drop, keys, List.length_map] at hlen
  exact absurd h (Nat.not_lt.mpr hlen)

end SortedMap
