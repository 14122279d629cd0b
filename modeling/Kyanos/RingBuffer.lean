/-
`common/ringbuffer.go`: a ring of fixed size over slots that hold `any`.

The ring is a slice of slots with a start, an end and a flag that tells a full
ring from an empty one; a slot without a value is `nil`, here `none`. Its
operations work on slots modulo the size. `Insert` shifts the elements behind the
index one slot to the right, back to front, and `DiscardBeforeIndex` empties the
slots from the start on.

`Refines rb l` says that the ring represents the list `l`: the slots from the start
on hold its elements in order. Each operation then has one equation in terms of the
list, an insertion into it, a prefix dropped from it, an iteration over it, and a
binary search is the position at which the sorted list splits at the target
(`binarySearch_eq`). The files on top use these equations and never look at a slot.
-/
import Kyanos.Common
import Kyanos.OrderedIndex

set_option autoImplicit false

open OrderedIndex (not_of_mem_dropWhile)

namespace Kyanos

/-- The errors of the ring. -/
inductive RingError
  | full
  | empty
  | indexOutOfRange
deriving DecidableEq, Repr

def RingError.message : RingError → String
  | .full => "ring buffer is full"
  | .empty => "ring buffer is empty"
  | .indexOutOfRange => "index out of range"

/-- The source's `end` is `stop` here. -/
structure RingBuffer (α : Type) where
  data : List (Option α)
  size : ℕ
  start : ℕ
  stop : ℕ
  isFull : Bool
deriving DecidableEq, Repr

namespace RingBuffer

variable {α : Type}

/-! ## The operations -/

def new (size : ℕ) : RingBuffer α :=
  { data := List.replicate size none, size := size, start := 0, stop := 0, isFull := false }

def isEmpty (rb : RingBuffer α) : Bool := !rb.isFull && rb.start == rb.stop

def write (rb : RingBuffer α) (value : α) : Except RingError (RingBuffer α) :=
  if rb.isFull then .error .full
  else
    let stop := (rb.stop + 1) % rb.size
    .ok { rb with
      data := rb.data.set rb.stop (some value)
      stop := stop
      isFull := if stop = rb.start then true else rb.isFull }

def peek (rb : RingBuffer α) : Except RingError (Option α) :=
  if rb.isEmpty then .error .empty else .ok (rb.data.getD rb.start none)

def read (rb : RingBuffer α) : Except RingError (Option α × RingBuffer α) :=
  if rb.isEmpty then .error .empty
  else .ok (rb.data.getD rb.start none,
    { rb with
      data := rb.data.set rb.start none
      start := (rb.start + 1) % rb.size
      isFull := false })

/-- `Size`, the number of elements. -/
def count (rb : RingBuffer α) : ℕ :=
  if rb.isFull then rb.size
  else if rb.stop ≥ rb.start then rb.stop - rb.start
  else rb.size - rb.start + rb.stop

/-- The slot of the element at an index. -/
def slot (rb : RingBuffer α) (index : ℕ) : ℕ := (rb.start + index) % rb.size

/-- What is in the slot of an index. -/
def valueAt (rb : RingBuffer α) (index : ℕ) : Option α := rb.data.getD (rb.slot index) none

def readIndex (rb : RingBuffer α) (index : ℤ) : Except RingError (Option α) :=
  if index < 0 ∨ index ≥ rb.count then .error .indexOutOfRange
  else .ok (rb.valueAt index.toNat)

/-- The loop of `Insert` that makes room at `index`, with `n` elements left to move:
the next one is at `index + n - 1`. -/
def shiftLoop (rb : RingBuffer α) (index : ℕ) : ℕ → List (Option α) → List (Option α)
  | 0, data => data
  | n + 1, data =>
      shiftLoop rb index n
        (data.set (rb.slot (index + n + 1)) (data.getD (rb.slot (index + n)) none))

def insert (rb : RingBuffer α) (index : ℤ) (value : α) : Except RingError (RingBuffer α) :=
  if index < 0 ∨ index > rb.count then .error .indexOutOfRange
  else if rb.isFull then .error .full
  else
    let index := index.toNat
    let data := shiftLoop rb index (rb.count - index) rb.data
    let stop := (rb.stop + 1) % rb.size
    .ok { rb with
      data := data.set (rb.slot index) (some value)
      stop := stop
      isFull := if stop = rb.start then true else rb.isFull }

/-- The loop of `BinarySearch` between `low` and `high`. Every iteration shrinks the
interval, so its length bounds their number. The comparison asserts the type of
its arguments and panics on `nil`. -/
def searchLoop (rb : RingBuffer α) (target : Option α)
    (compare : Option α → Option α → Except Panic ℤ) : ℕ → ℤ → ℤ → Except Panic (ℤ × Bool)
  | 0, low, _ => .ok (low, false)
  | n + 1, low, high =>
      if low ≤ high then do
        let mid := (low + high) / 2
        let comp ← compare (rb.valueAt mid.toNat) target
        if comp = 0 then .ok (mid, true)
        else if comp < 0 then searchLoop rb target compare n (mid + 1) high
        else searchLoop rb target compare n low (mid - 1)
      else .ok (low, false)

def binarySearch (rb : RingBuffer α) (target : Option α)
    (compare : Option α → Option α → Except Panic ℤ) : Except Panic (ℤ × Bool) :=
  if rb.isEmpty then .ok (0, false)
  else searchLoop rb target compare rb.count 0 (rb.count - 1)

/-- The loop of `ForEach` over the indices still to visit. The action keeps its
results in `σ` and says whether to go on. -/
def forEachLoop {σ : Type} (rb : RingBuffer α)
    (action : σ → Option α → Except Panic (σ × Bool)) : List ℕ → σ → Except Panic σ
  | [], s => .ok s
  | i :: is, s => do
      let (s, goOn) ← action s (rb.valueAt i)
      if goOn then forEachLoop rb action is s else .ok s

def forEach {σ : Type} (rb : RingBuffer α)
    (action : σ → Option α → Except Panic (σ × Bool)) (s : σ) : Except Panic σ :=
  if rb.isEmpty then .ok s else forEachLoop rb action (List.range rb.count) s

/-- The loop of `DiscardBeforeIndex`. The start runs through the slots in turn, so it
meets any of them within `size` steps. -/
def discardLoop (actualIndex : ℕ) : ℕ → RingBuffer α → RingBuffer α
  | 0, rb => rb
  | n + 1, rb =>
      if rb.start = actualIndex then rb
      else discardLoop actualIndex n
        { rb with
          data := rb.data.set rb.start none
          start := (rb.start + 1) % rb.size
          isFull := false }

def discardBeforeIndex (rb : RingBuffer α) (index : ℤ) : Except RingError (RingBuffer α) :=
  if index < 0 ∨ index ≥ rb.count then .error .indexOutOfRange
  else .ok (discardLoop (rb.slot index.toNat) rb.size rb)

/-- A write through a reference that the element at an index shares with its copies. -/
def modifyAt (rb : RingBuffer α) (index : ℕ) (f : α → α) : RingBuffer α :=
  { rb with data := rb.data.set (rb.slot index) ((rb.valueAt index).map f) }

/-- The elements, from the start on. -/
def contents (rb : RingBuffer α) : List α := (List.range rb.count).filterMap rb.valueAt

/-! ## The list a ring represents -/

/-- The ring represents the list. -/
structure Refines (rb : RingBuffer α) (l : List α) : Prop where
  start_lt : rb.start < rb.size
  length_data : rb.data.length = rb.size
  length_le : l.length ≤ rb.size
  stop_eq : rb.stop = (rb.start + l.length) % rb.size
  full : rb.isFull = true ↔ l.length = rb.size
  value : ∀ i (h : i < l.length), rb.valueAt i = some l[i]

theorem slot_lt {rb : RingBuffer α} (h : rb.start < rb.size) (i : ℕ) : rb.slot i < rb.size :=
  Nat.mod_lt _ (by omega)

/-- Two indices less than a round apart have different slots. -/
theorem slot_ne {rb : RingBuffer α} {i j : ℕ} (hij : i < j) (hj : j < i + rb.size) :
    rb.slot i ≠ rb.slot j := by
  unfold slot
  intro heq
  have hdvd := (Nat.modEq_iff_dvd' (show rb.start + i ≤ rb.start + j by omega)).mp heq
  rw [show rb.start + j - (rb.start + i) = j - i by omega] at hdvd
  have hle := Nat.le_of_dvd (by omega) hdvd
  omega

theorem new_refines {size : ℕ} (h : 0 < size) : Refines (new size : RingBuffer α) [] where
  start_lt := h
  length_data := List.length_replicate
  length_le := Nat.zero_le _
  stop_eq := by simp [new]
  full := by simp [new]; omega
  value := by simp

namespace Refines

variable {rb : RingBuffer α} {l : List α}

theorem count_eq (h : Refines rb l) : rb.count = l.length := by
  have hs := h.start_lt
  have hl := h.length_le
  have hstop := h.stop_eq
  unfold count
  by_cases hfull : l.length = rb.size
  · rw [if_pos (h.full.mpr hfull), hfull]
  · rw [if_neg (fun hf => hfull (h.full.mp hf))]
    -- The end is at most one round ahead of the start.
    by_cases hwrap : rb.start + l.length < rb.size
    · rw [Nat.mod_eq_of_lt hwrap] at hstop
      rw [if_pos (by omega)]
      omega
    · rw [Nat.mod_eq_sub_mod (by omega), Nat.mod_eq_of_lt (by omega)] at hstop
      rw [if_neg (by omega)]
      omega

theorem isEmpty_iff (h : Refines rb l) : rb.isEmpty = true ↔ l = [] := by
  have hs := h.start_lt
  have hcount := h.count_eq
  unfold count at hcount
  unfold isEmpty
  rw [← List.length_eq_zero_iff]
  cases hfull : rb.isFull with
  | true =>
      have := h.full.mp hfull
      simp only [Bool.not_true, Bool.false_and, Bool.false_eq_true, false_iff]
      omega
  | false =>
      rw [hfull] at hcount
      simp only [Bool.not_false, Bool.true_and, beq_iff_eq]
      rw [if_neg (by simp)] at hcount
      split_ifs at hcount <;> omega

theorem map_valueAt (h : Refines rb l) : (List.range l.length).map rb.valueAt = l.map some := by
  refine List.ext_getElem (by simp) ?_
  intro i h1 h2
  simp only [List.length_map] at h2
  simpa using h.value i h2

/-- The ring has one list. -/
theorem contents_eq (h : Refines rb l) : rb.contents = l := by
  unfold contents
  calc (List.range rb.count).filterMap rb.valueAt
      = ((List.range l.length).map rb.valueAt).filterMap id := by
        rw [h.count_eq, List.filterMap_map]
        rfl
    _ = (l.map some).filterMap id := by rw [h.map_valueAt]
    _ = l := by rw [List.filterMap_map]; exact List.filterMap_some

theorem readIndex_eq (h : Refines rb l) {i : ℕ} (hi : i < l.length) :
    rb.readIndex i = .ok (some l[i]) := by
  unfold readIndex
  rw [h.count_eq, if_neg (by omega), Int.toNat_natCast, h.value i hi]

/-! ## Insertion -/

/-- Reading a slot after another or the same one was set. -/
theorem getD_set (data : List (Option α)) (i j : ℕ) (v : Option α) (hi : i < data.length) :
    (data.set i v).getD j none = if j = i then v else data.getD j none := by
  by_cases hij : j = i
  · subst hij
    simp [List.getD_eq_getElem?_getD, hi]
  · rw [if_neg hij]
    simp [List.getD_eq_getElem?_getD, List.getElem?_set_ne (Ne.symm hij)]

theorem length_shiftLoop (rb : RingBuffer α) (index n : ℕ) (data : List (Option α)) :
    (shiftLoop rb index n data).length = data.length := by
  induction n generalizing data with
  | zero => rfl
  | succ n ih =>
      unfold shiftLoop
      rw [ih, List.length_set]

/-- Setting the slot of one index leaves the other indices of the round. -/
theorem getD_set_slot (hs : rb.start < rb.size) {data : List (Option α)}
    (hdata : data.length = rb.size) {i j : ℕ} (hi : i < rb.size) (hj : j < rb.size)
    (v : Option α) : (data.set (rb.slot i) v).getD (rb.slot j) none
      = if j = i then v else data.getD (rb.slot j) none := by
  have hlt : rb.slot i < data.length := by
    rw [hdata]
    exact slot_lt hs i
  rw [getD_set data _ _ v hlt]
  by_cases hij : j = i
  · rw [if_pos (by rw [hij]), if_pos hij]
  · have hne : rb.slot j ≠ rb.slot i := by
      rcases Nat.lt_or_gt_of_ne hij with h | h
      · exact slot_ne h (by omega)
      · exact (slot_ne h (by omega)).symm
    rw [if_neg hne, if_neg hij]

/-- The shift moves the `n` values from `index` on by one slot and leaves the others. -/
theorem shiftLoop_value (hs : rb.start < rb.size) {index n : ℕ} (hn : index + n < rb.size)
    {data : List (Option α)} (hdata : data.length = rb.size) {i : ℕ} (hi : i < rb.size) :
    (shiftLoop rb index n data).getD (rb.slot i) none
      = if index < i ∧ i ≤ index + n then data.getD (rb.slot (i - 1)) none
        else data.getD (rb.slot i) none := by
  induction n generalizing data with
  | zero => rw [if_neg (by omega), shiftLoop]
  | succ n ih =>
      -- The last value moves first; the rest of the loop does not touch its new slot.
      have hset : ∀ j, j < rb.size →
          (data.set (rb.slot (index + n + 1)) (data.getD (rb.slot (index + n)) none)).getD
            (rb.slot j) none
          = if j = index + n + 1 then data.getD (rb.slot (index + n)) none
            else data.getD (rb.slot j) none :=
        fun j hj => getD_set_slot hs hdata (by omega) hj _
      unfold shiftLoop
      rw [ih (by omega) (by rw [List.length_set, hdata]), hset i hi]
      by_cases hmoved : index < i ∧ i ≤ index + n
      · -- A value the rest of the loop moves was not touched by this round.
        rw [if_pos hmoved, hset (i - 1) (by omega), if_neg (by omega), if_pos (by omega)]
      · rw [if_neg hmoved]
        by_cases hlast : i = index + n + 1
        · rw [if_pos hlast, if_pos (by omega), hlast]
          rfl
        · rw [if_neg hlast, if_neg (by omega)]

/-- The end after one more element, and whether it meets the start. -/
theorem next_stop (h : Refines rb l) (hroom : l.length < rb.size) :
    (rb.stop + 1) % rb.size = (rb.start + (l.length + 1)) % rb.size
      ∧ ((rb.stop + 1) % rb.size = rb.start ↔ l.length + 1 = rb.size) := by
  have hs := h.start_lt
  have hstop : (rb.stop + 1) % rb.size = (rb.start + (l.length + 1)) % rb.size := by
    rw [h.stop_eq, Nat.mod_add_mod, Nat.add_assoc]
  refine ⟨hstop, ?_⟩
  rw [hstop]
  constructor
  · intro heq
    by_contra hne
    -- One more element is still less than a round, wherever the start is.
    by_cases hwrap : rb.start + (l.length + 1) < rb.size
    · rw [Nat.mod_eq_of_lt hwrap] at heq
      omega
    · rw [Nat.mod_eq_sub_mod (by omega), Nat.mod_eq_of_lt (by omega)] at heq
      omega
  · intro heq
    rw [heq, Nat.add_mod_right, Nat.mod_eq_of_lt hs]

/-- **Insertion into a ring with room is insertion into its list.** -/
theorem insert_ok (h : Refines rb l) {i : ℕ} (hi : i ≤ l.length) (hroom : l.length < rb.size)
    (v : α) : ∃ rb', rb.insert i v = .ok rb' ∧ Refines rb' (l.insertIdx i v)
      ∧ rb'.size = rb.size := by
  have hs := h.start_lt
  have hnot : rb.isFull = false := Bool.eq_false_iff.mpr (fun hf => by
    have := h.full.mp hf
    omega)
  have hlen : (l.insertIdx i v).length = l.length + 1 := List.length_insertIdx_of_le_length hi v
  obtain ⟨hstop, hmeets⟩ := h.next_stop hroom
  unfold RingBuffer.insert
  -- The index is in range and the ring is not full, so both error returns are passed.
  rw [h.count_eq, if_neg (by omega), if_neg (by simp [hnot]), Int.toNat_natCast]
  refine ⟨_, rfl, ⟨hs, ?_, by dsimp only; omega, by rw [hlen]; exact hstop, ?_, ?_⟩, rfl⟩
  · dsimp only
    rw [List.length_set, length_shiftLoop, h.length_data]
  · dsimp only
    rw [hlen, ← hmeets]
    split_ifs with heq
    · simp [heq]
    · simp [hnot, heq]
  · intro j hj
    rw [hlen] at hj
    have hold : ∀ k (hk : k < l.length), rb.data.getD (rb.slot k) none = some l[k] := h.value
    have hshift : j ≠ i → (shiftLoop rb i (l.length - i) rb.data).getD (rb.slot j) none
        = if i < j ∧ j ≤ i + (l.length - i) then rb.data.getD (rb.slot (j - 1)) none
          else rb.data.getD (rb.slot j) none :=
      fun _ => shiftLoop_value hs (by omega) h.length_data (by omega)
    have hset := getD_set_slot hs
      (show (shiftLoop rb i (l.length - i) rb.data).length = rb.size by
        rw [length_shiftLoop, h.length_data])
      (show i < rb.size by omega) (show j < rb.size by omega) (some v)
    change (List.set _ (rb.slot i) (some v)).getD (rb.slot j) none = _
    rw [hset, List.getElem_insertIdx]
    -- Before the index the list is as it was, at it the new value, behind it one further.
    by_cases hlt : j < i
    · rw [if_neg (by omega), hshift (by omega), if_neg (by omega), dif_pos hlt]
      exact hold j (by omega)
    · by_cases heq : j = i
      · rw [if_pos heq, dif_neg hlt, dif_pos heq]
      · rw [if_neg heq, hshift heq, if_pos (by omega), dif_neg hlt, dif_neg heq]
        exact hold (j - 1) (by omega)

theorem insert_full (h : Refines rb l) {i : ℕ} (hi : i ≤ l.length) (hfull : l.length = rb.size)
    (v : α) : rb.insert i v = .error .full := by
  unfold RingBuffer.insert
  rw [h.count_eq, if_neg (by omega), if_pos (h.full.mpr hfull)]

end Refines

/-! ## Binary search -/

section Search

variable {β : Type} [LinearOrder β]

/-- The list splits at the target: smaller keys before, the others behind. -/
structure CutAt (key : α → β) (t : β) (xs ys : List α) : Prop where
  below : ∀ x ∈ xs, key x < t
  above : ∀ y ∈ ys, t ≤ key y

/-- The target is the first key behind the cut. -/
def hits (key : α → β) (t : β) (ys : List α) : Bool := ys.head?.any (fun y => key y = t)

variable {key : α → β} {t : β}

theorem exists_cut {l : List α} (hsorted : l.Pairwise (fun a b => key a < key b)) (t : β) :
    ∃ xs ys, l = xs ++ ys ∧ CutAt key t xs ys := by
  refine ⟨l.takeWhile (fun a => key a < t), l.dropWhile (fun a => key a < t),
    List.takeWhile_append_dropWhile.symm, ?_, ?_⟩
  · intro x hx
    simpa using List.mem_takeWhile_imp hx
  · intro y hy
    refine not_lt.mp (fun hlt => ?_)
    refine not_of_mem_dropWhile (hsorted.imp fun {a b} hab hb => ?_) hy (decide_eq_true hlt)
    exact decide_eq_true (hab.trans (of_decide_eq_true hb))

section Cut

variable {xs ys : List α}

/-- The indices before the cut are those with a smaller key. -/
theorem CutAt.lt_iff (hcut : CutAt key t xs ys) {j : ℕ} (hj : j < (xs ++ ys).length) :
    key (xs ++ ys)[j] < t ↔ j < xs.length := by
  constructor
  · intro hlt
    by_contra hge
    rw [List.getElem_append_right (by omega)] at hlt
    exact absurd (hcut.above _ (List.getElem_mem _)) (not_le.mpr hlt)
  · intro hlt
    rw [List.getElem_append_left hlt]
    exact hcut.below _ (List.getElem_mem _)

/-- The target itself, if it is there, is right behind the cut. -/
theorem CutAt.eq_iff (hcut : CutAt key t xs ys)
    (hsorted : (xs ++ ys).Pairwise (fun a b => key a < key b)) {j : ℕ}
    (hj : j < (xs ++ ys).length) :
    key (xs ++ ys)[j] = t ↔ j = xs.length ∧ hits key t ys = true := by
  unfold hits
  cases ys with
  | nil =>
      simp only [List.append_nil] at hj ⊢
      simp only [List.head?_nil, Option.any_none, Bool.false_eq_true, and_false, iff_false]
      exact (hcut.below _ (List.getElem_mem hj)).ne
  | cons y ys =>
      simp only [List.head?_cons, Option.any_some, decide_eq_true_eq]
      constructor
      · intro heq
        have hge : ¬ j < xs.length := by
          intro hlt
          exact absurd ((hcut.lt_iff hj).mpr hlt) (by rw [heq]; exact lt_irrefl t)
        have hy : t ≤ key y := hcut.above y List.mem_cons_self
        have hjx : j = xs.length := by
          by_contra hne
          have hlt := (List.pairwise_iff_getElem.mp hsorted) xs.length j (by simp) hj (by omega)
          rw [heq] at hlt
          simp only [List.getElem_append_right (le_refl xs.length), Nat.sub_self,
            List.getElem_cons_zero] at hlt
          exact absurd hlt (not_lt.mpr hy)
        subst hjx
        refine ⟨rfl, ?_⟩
        simpa using heq
      · rintro ⟨rfl, heq⟩
        simpa using heq

/-- The comparison orders the elements against the target by their keys. -/
def Compares (compare : Option α → Option α → Except Panic ℤ) (key : α → β) (t : β)
    (target : Option α) : Prop :=
  ∀ a, ∃ c, compare (some a) target = .ok c ∧ (c = 0 ↔ key a = t) ∧ (c < 0 ↔ key a < t)

variable {rb : RingBuffer α} {target : Option α} {compare : Option α → Option α → Except Panic ℤ}

/-- An empty interval leaves only the cut, and then the target is not there. -/
theorem search_exit {low high : ℤ} (hlow : low ≤ xs.length) (hhigh : (xs.length : ℤ) ≤ high + 1)
    (hhit : hits key t ys = true → (xs.length : ℤ) ≤ high) (hempty : high < low) :
    low = xs.length ∧ hits key t ys = false := by
  refine ⟨by omega, ?_⟩
  rw [Bool.eq_false_iff]
  intro hit
  have := hhit hit
  omega

/-- The invariant of the search: the cut lies between `low` and `high + 1`, and at or
before `high` when the target is there. -/
theorem searchLoop_eq (h : Refines rb (xs ++ ys)) (hcut : CutAt key t xs ys)
    (hsorted : (xs ++ ys).Pairwise (fun a b => key a < key b))
    (hcmp : Compares compare key t target) {n : ℕ} {low high : ℤ} (h0 : 0 ≤ low)
    (hlow : low ≤ xs.length) (hhigh : (xs.length : ℤ) ≤ high + 1)
    (hbound : high < (xs ++ ys).length) (hhit : hits key t ys = true → (xs.length : ℤ) ≤ high)
    (hn : high + 1 - low ≤ n) :
    searchLoop rb target compare n low high = .ok ((xs.length : ℤ), hits key t ys) := by
  induction n generalizing low high with
  | zero =>
      obtain ⟨heq, hmiss⟩ := search_exit hlow hhigh hhit (by omega)
      rw [searchLoop, heq, hmiss]
  | succ n ih =>
      unfold searchLoop
      by_cases hle : low ≤ high
      · rw [if_pos hle]
        dsimp only
        have hmid : ((low + high) / 2).toNat < (xs ++ ys).length := by omega
        have hcast : (((low + high) / 2).toNat : ℤ) = (low + high) / 2 := by omega
        obtain ⟨c, hc, hzero, hneg⟩ := hcmp (xs ++ ys)[((low + high) / 2).toNat]
        rw [h.value _ hmid, hc]
        rw [hcut.eq_iff hsorted hmid] at hzero
        rw [hcut.lt_iff hmid] at hneg
        change (if c = 0 then _ else if c < 0 then _ else _) = _
        split_ifs with h1 h2
        · obtain ⟨heq, hit⟩ := hzero.mp h1
          rw [hit, ← heq, hcast]
        · -- The middle is before the cut, and so is everything up to it.
          have hlt := hneg.mp h2
          exact ih (by omega) (by omega) hhigh hbound hhit (by omega)
        · -- The middle is behind the cut, or at it without being the target.
          have hge : ¬ ((low + high) / 2).toNat < xs.length := fun hlt => h2 (hneg.mpr hlt)
          refine ih h0 hlow (by omega) (by omega) (fun hit => ?_) (by omega)
          have hne : ((low + high) / 2).toNat ≠ xs.length := fun heq => h1 (hzero.mpr ⟨heq, hit⟩)
          omega
      · obtain ⟨heq, hmiss⟩ := search_exit hlow hhigh hhit (by omega)
        rw [if_neg hle, heq, hmiss]

/-- **The binary search finds the cut.** On a ring in strictly ascending order it returns
the number of elements below the target, and whether the target comes next. -/
theorem binarySearch_eq (h : Refines rb (xs ++ ys)) (hcut : CutAt key t xs ys)
    (hsorted : (xs ++ ys).Pairwise (fun a b => key a < key b))
    (hcmp : Compares compare key t target) :
    rb.binarySearch target compare = .ok ((xs.length : ℤ), hits key t ys) := by
  unfold binarySearch
  by_cases hempty : rb.isEmpty = true
  · have hnil := h.isEmpty_iff.mp hempty
    obtain ⟨rfl, rfl⟩ := List.append_eq_nil_iff.mp hnil
    rw [if_pos hempty]
    rfl
  · have hlen : (xs ++ ys).length = xs.length + ys.length := List.length_append
    rw [if_neg hempty, h.count_eq]
    refine searchLoop_eq h hcut hsorted hcmp le_rfl (by omega) (by omega) (by omega) ?_ (by omega)
    intro hit
    -- The target comes next, so something comes next.
    have hpos : 0 < ys.length := by
      rw [List.length_pos_iff]
      rintro rfl
      simp [hits] at hit
    omega

end Cut

end Search

/-! ## Iteration and discarding -/

/-- An iteration over a list that stops when the action says so. -/
def iterate {σ : Type} (action : σ → Option α → Except Panic (σ × Bool)) :
    List α → σ → Except Panic σ
  | [], s => .ok s
  | a :: as, s => do
      let (s, goOn) ← action s (some a)
      if goOn then iterate action as s else .ok s

namespace Refines

variable {rb : RingBuffer α} {l : List α}

theorem forEachLoop_eq {σ : Type} (action : σ → Option α → Except Panic (σ × Bool))
    (is : List ℕ) (as : List α) (hval : is.map rb.valueAt = as.map some) (s : σ) :
    forEachLoop rb action is s = iterate action as s := by
  induction is generalizing as s with
  | nil =>
      cases as with
      | nil => rfl
      | cons a as => simp at hval
  | cons i is ih =>
      cases as with
      | nil => simp at hval
      | cons a as =>
          obtain ⟨hi, hrest⟩ := List.cons_eq_cons.mp hval
          unfold forEachLoop iterate
          rw [hi]
          refine congrArg (bind _) (funext fun p => ?_)
          obtain ⟨s', goOn⟩ := p
          dsimp only
          rw [ih as hrest s']

/-- **Iteration over the ring is iteration over its list.** -/
theorem forEach_eq (h : Refines rb l) {σ : Type}
    (action : σ → Option α → Except Panic (σ × Bool)) (s : σ) :
    rb.forEach action s = iterate action l s := by
  unfold forEach
  split_ifs with hempty
  · rw [h.isEmpty_iff.mp hempty, iterate]
  · rw [h.count_eq]
    exact forEachLoop_eq action _ l h.map_valueAt s

end Refines

/-- The state after one step of the discarding loop. -/
def dropFirst (rb : RingBuffer α) : RingBuffer α :=
  { rb with data := rb.data.set rb.start none, start := (rb.start + 1) % rb.size, isFull := false }

/-- The slots from the new start on are those behind the old one. -/
theorem slot_dropFirst (rb : RingBuffer α) (i : ℕ) : rb.dropFirst.slot i = rb.slot (i + 1) := by
  unfold slot dropFirst
  dsimp only
  rw [Nat.mod_add_mod]
  congr 1
  omega

namespace Refines

variable {rb : RingBuffer α} {l : List α}

/-- One step of the discarding loop drops the first element. -/
theorem tail {a : α} (h : Refines rb (a :: l)) : Refines rb.dropFirst l := by
  have hs := h.start_lt
  have hle := h.length_le
  rw [List.length_cons] at hle
  have hsize : rb.dropFirst.size = rb.size := rfl
  refine ⟨Nat.mod_lt _ (by omega), by simpa [dropFirst] using h.length_data, by omega, ?_, ?_, ?_⟩
  · unfold dropFirst
    dsimp only
    rw [h.stop_eq, List.length_cons, Nat.mod_add_mod]
    congr 1
    omega
  · constructor
    · intro hf
      cases hf
    · intro heq
      omega
  · intro i hi
    have hzero : rb.slot 0 = rb.start := Nat.mod_eq_of_lt hs
    have hset := getD_set_slot hs h.length_data (show 0 < rb.size by omega)
      (show i + 1 < rb.size by omega) none
    rw [hzero, if_neg (by omega)] at hset
    have hval := h.value (i + 1) (by simpa using hi)
    change (List.set _ rb.start none).getD (rb.dropFirst.slot i) none = _
    rw [slot_dropFirst, hset]
    rw [List.getElem_cons_succ] at hval
    exact hval

theorem discardLoop_eq (h : Refines rb l) {i n : ℕ} (hi : i < l.length) (hn : i ≤ n) :
    Refines (discardLoop (rb.slot i) n rb) (l.drop i)
      ∧ (discardLoop (rb.slot i) n rb).size = rb.size := by
  have hs := h.start_lt
  have hzero : rb.slot 0 = rb.start := Nat.mod_eq_of_lt hs
  induction i generalizing rb l n with
  | zero =>
      cases n with
      | zero => exact ⟨h, rfl⟩
      | succ n =>
          unfold discardLoop
          rw [if_pos hzero.symm]
          exact ⟨h, rfl⟩
  | succ i ih =>
      cases n with
      | zero => omega
      | succ n =>
          cases l with
          | nil => simp at hi
          | cons a l =>
              have hle := h.length_le
              have hne : rb.start ≠ rb.slot (i + 1) := by
                rw [← hzero]
                exact slot_ne (by omega) (by simp only [List.length_cons] at hi hle; omega)
              unfold discardLoop
              rw [if_neg hne, List.drop_succ_cons, ← slot_dropFirst]
              have hstart : rb.dropFirst.start < rb.dropFirst.size := h.tail.start_lt
              exact ih h.tail (by simpa using hi) (by omega) hstart (Nat.mod_eq_of_lt hstart)

/-- **Discarding drops the elements before the index**, for an index of an element. -/
theorem discardBeforeIndex_ok (h : Refines rb l) {i : ℕ} (hi : i < l.length) :
    ∃ rb', rb.discardBeforeIndex i = .ok rb' ∧ Refines rb' (l.drop i) ∧ rb'.size = rb.size := by
  have hle := h.length_le
  unfold discardBeforeIndex
  rw [h.count_eq, if_neg (by omega), Int.toNat_natCast]
  have hloop := h.discardLoop_eq hi (show i ≤ rb.size by omega)
  exact ⟨_, rfl, hloop.1, hloop.2⟩

/-- One past the last element is out of range: nothing is discarded. -/
theorem discardBeforeIndex_length (h : Refines rb l) :
    rb.discardBeforeIndex l.length = .error .indexOutOfRange := by
  unfold discardBeforeIndex
  rw [h.count_eq, if_pos (Or.inr le_rfl)]

theorem modifyAt_refines (h : Refines rb l) (i : ℕ) (hi : i < l.length) (f : α → α) :
    Refines (rb.modifyAt i f) (l.modify i f) := by
  have hs := h.start_lt
  have hle := h.length_le
  refine ⟨hs, by simpa [modifyAt] using h.length_data, ?_, ?_, ?_, ?_⟩
  · rw [List.length_modify]
    exact hle
  · rw [List.length_modify]
    exact h.stop_eq
  · rw [List.length_modify]
    exact h.full
  · intro j hj
    rw [List.length_modify] at hj
    have hset := getD_set_slot hs h.length_data (show i < rb.size by omega)
      (show j < rb.size by omega) ((rb.valueAt i).map f)
    change (List.set _ (rb.slot i) _).getD (rb.slot j) none = _
    rw [hset, List.getElem_modify, h.value i hi]
    split_ifs with h1 h2 h2
    · subst h1
      rfl
    · exact absurd h1.symm h2
    · exact absurd h2.symm h1
    · exact h.value j hj

/-! ## The ring as a queue -/

/-- The slot behind the last element is the end. -/
theorem slot_length (h : Refines rb l) : rb.slot l.length = rb.stop := h.stop_eq.symm

/-- A write is an insertion behind the last element. -/
theorem write_eq_insert (h : Refines rb l) (v : α) : rb.write v = rb.insert l.length v := by
  unfold write RingBuffer.insert
  rw [h.count_eq, if_neg (show ¬ ((l.length : ℤ) < 0 ∨ (l.length : ℤ) > l.length) by omega)]
  simp only [Int.toNat_natCast, Nat.sub_self, shiftLoop, h.slot_length]

/-- **A write appends**, when there is room. -/
theorem write_ok (h : Refines rb l) (hroom : l.length < rb.size) (v : α) :
    ∃ rb', rb.write v = .ok rb' ∧ Refines rb' (l ++ [v]) ∧ rb'.size = rb.size := by
  have hinsert := h.insert_ok le_rfl hroom v
  rw [List.insertIdx_length_self] at hinsert
  rw [h.write_eq_insert v]
  exact hinsert

theorem write_full (h : Refines rb l) (hfull : l.length = rb.size) (v : α) :
    rb.write v = .error .full := if_pos (h.full.mpr hfull)

/-- **The oldest element** is at the start, and reading takes it. -/
theorem read_eq {a : α} (h : Refines rb (a :: l)) :
    rb.peek = .ok (some a) ∧ rb.read = .ok (some a, rb.dropFirst) := by
  have hne : ¬ rb.isEmpty = true := by
    rw [h.isEmpty_iff]
    exact List.cons_ne_nil a l
  have hzero : rb.slot 0 = rb.start := Nat.mod_eq_of_lt h.start_lt
  have hval : rb.data.getD rb.start none = some a := by
    rw [← hzero]
    exact h.value 0 (Nat.zero_lt_succ _)
  unfold peek read
  rw [if_neg hne, if_neg hne, hval]
  exact ⟨rfl, rfl⟩

end Refines

end RingBuffer

end Kyanos
