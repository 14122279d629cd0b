/-
Tables that group what is delivered to them by a key.

A delivery goes to the value under its key, which is made when the first one comes
(`deliver`). `lookup_deliverAll` says what the table holds after a list of deliveries: under each
key the value that exactly the deliveries with that key make of a new one, in their order. So what
holds of a value by induction on its deliveries holds of every value of the table
(`grouped_induction`), and where the values count, the counts of some keys are the count of the
deliveries to them (`sum_countP`).
-/
import Mathlib

set_option autoImplicit false

universe u v w

namespace Grouping

variable {κ : Type u} {ν : Type v} {δ : Type w} [DecidableEq κ]

/-- A table with one value for a key. -/
abbrev Table (κ : Type u) (ν : Type v) := AList (fun _ : κ => ν)

section Deliver

variable (key : δ → κ) (fresh : δ → ν) (receive : ν → δ → ν)

/-- The value under the key of the delivery receives it. -/
def deliver (t : Table κ ν) (d : δ) : Table κ ν :=
  t.insert (key d) (receive ((t.lookup (key d)).getD (fresh d)) d)

def deliverAll (t : Table κ ν) (ds : List δ) : Table κ ν := ds.foldl (deliver key fresh receive) t

/-- What the deliveries to one key make. -/
def grouped : List δ → Option ν
  | [] => none
  | d :: ds => some ((d :: ds).foldl receive (fresh d))

variable {fresh receive}

theorem grouped_concat (ds : List δ) (d : δ) :
    grouped fresh receive (ds ++ [d])
      = some (receive ((grouped fresh receive ds).getD (fresh d)) d) := by
  rcases ds with _ | ⟨first, ds⟩
  · rfl
  · change some ((first :: (ds ++ [d])).foldl receive (fresh first)) = _
    rw [← List.cons_append, List.foldl_append]
    rfl

theorem grouped_eq_none {ds : List δ} : grouped fresh receive ds = none ↔ ds = [] := by
  rcases ds with _ | ⟨first, ds⟩
  · exact iff_of_true rfl rfl
  · exact iff_of_false (Option.some_ne_none _) (List.cons_ne_nil _ _)

/-- **A value by its deliveries**: what a new value has after its first delivery, and what a further
one keeps. -/
theorem grouped_induction {P : List δ → ν → Prop} (hfirst : ∀ d, P [d] (receive (fresh d) d))
    (hnext : ∀ ds v d, P ds v → P (ds ++ [d]) (receive v d)) {ds : List δ} {v : ν}
    (h : grouped fresh receive ds = some v) : P ds v := by
  induction ds using List.reverseRecOn generalizing v with
  | nil => cases h
  | append_singleton ds d ih =>
      rw [grouped_concat] at h
      cases h
      rcases hprev : grouped fresh receive ds with _ | v
      · rw [grouped_eq_none.mp hprev]
        exact hfirst d
      · exact hnext ds v d (ih hprev)

/-- **What the table holds**: under each key, what its deliveries make. -/
theorem lookup_deliverAll (ds : List δ) (k : κ) :
    (deliverAll key fresh receive ∅ ds).lookup k
      = grouped fresh receive (ds.filter fun d => key d = k) := by
  induction ds using List.reverseRecOn with
  | nil => rfl
  | append_singleton ds d ih =>
      have hlast : deliverAll key fresh receive ∅ (ds ++ [d])
          = deliver key fresh receive (deliverAll key fresh receive ∅ ds) d := List.foldl_concat ..
      rw [hlast, List.filter_append, deliver]
      by_cases hkey : key d = k
      · subst hkey
        have hsingle : [d].filter (fun d' => key d' = key d) = [d] := by simp
        rw [AList.lookup_insert, hsingle, grouped_concat, ih]
      · have hsingle : [d].filter (fun d' => key d' = k) = [] := by simp [hkey]
        rw [AList.lookup_insert_ne (Ne.symm hkey), ih, hsingle, List.append_nil]

end Deliver

theorem sum_indicator (ks : List κ) (k₀ : κ) :
    (ks.map fun k => if k₀ = k then 1 else 0).sum = ks.count k₀ := by
  induction ks with
  | nil => rfl
  | cons k ks ih =>
      rw [List.map_cons, List.sum_cons, ih, List.count_cons, Nat.add_comm]
      by_cases hk : k₀ = k
      · simp [hk]
      · simp [hk, Ne.symm hk]

/-- **Counts by key add up**: over keys that are all different, to the count of what has one of
them. -/
theorem sum_countP (f : δ → Option κ) (ds : List δ) {ks : List κ} (hnodup : ks.Nodup) :
    (ks.map fun k => ds.countP fun d => f d = some k).sum
      = ds.countP fun d => (f d).any fun k => k ∈ ks := by
  induction ds with
  | nil => simp
  | cons d ds ih =>
      have hone : (ks.map fun k => if f d = some k then 1 else 0).sum
          = if (f d).any (fun k => k ∈ ks) then 1 else 0 := by
        rcases f d with _ | k₀
        · simp
        · have hcount := sum_indicator ks k₀
          rw [hnodup.count] at hcount
          simpa using hcount
      simp only [List.countP_cons, List.sum_map_add, decide_eq_true_eq]
      rw [ih, hone]

/-- Where no fewer have the stronger property, all that have the weaker one have it. -/
theorem of_length_filter_le {p q : δ → Bool} (hpq : ∀ d, p d = true → q d = true) {ds : List δ}
    (hlen : (ds.filter q).length ≤ (ds.filter p).length) {d : δ} (hd : d ∈ ds) (hq : q d = true) :
    p d = true := by
  have hsub : (ds.filter p).Sublist (ds.filter q) := List.monotone_filter_right ds hpq
  have heq := hsub.eq_of_length_le hlen
  have hmem : d ∈ ds.filter p := by
    rw [heq]
    exact List.mem_filter.mpr ⟨hd, hq⟩
  exact (List.mem_filter.mp hmem).2

end Grouping
