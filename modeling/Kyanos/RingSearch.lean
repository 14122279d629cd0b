/-
`BinarySearch` of `common/ringbuffer.go`, for any order that its caller compares by.

That the search finds the cut of a sorted ring is known for keys (`RingBuffer.binarySearch_eq`). A
caller does not give keys but a comparison, which may call different values equal, as that of the
kernel events does. A comparison of a total order is one of keys (`ThreeWay`), so for every ring,
wherever it starts and however full it is, the search returns the rank of the target and whether an
equal element is there; and where there is none and there is room, `Insert` at that place keeps the
ring sorted (`binarySearch_lowerBound`). The rings of an event stream are sorted in every state that
it goes through, so its searches find the rank of a sequence number (`Reaches.search_finds`).

The search comes to its end on any ring, sorted or not, and with any comparison: `searchRounds` is
the loop with a bound on how often it looks at its condition. Each round halves the interval, so one
more round than the bits of the number of elements is enough (`binarySearch_ends`).
-/
import Kyanos.KernEventRuns
import Kyanos.RingCalls
import Kyanos.ThreeWay

set_option autoImplicit false

open GoNum ThreeWay

namespace Kyanos

namespace RingBuffer

variable {α : Type}

/-! ## The rounds of the search -/

/-- The loop of `BinarySearch` where it looks at its condition at most `n` times; `none` when these
are used up. -/
def searchRounds (rb : RingBuffer α) (target : Option α)
    (compare : Option α → Option α → Except Panic ℤ) : ℕ → ℤ → ℤ → Option (Except Panic (ℤ × Bool))
  | 0, _, _ => none
  | n + 1, low, high =>
      if low ≤ high then
        let mid := (low + high) / 2
        match compare (rb.valueAt mid.toNat) target with
        | .error e => some (.error e)
        | .ok comp =>
            if comp = 0 then some (.ok (mid, true))
            else if comp < 0 then searchRounds rb target compare n (mid + 1) high
            else searchRounds rb target compare n low (mid - 1)
      else some (.ok (low, false))

/-- `BinarySearch` in so many rounds. -/
def binarySearchIn (rb : RingBuffer α) (target : Option α)
    (compare : Option α → Option α → Except Panic ℤ) (n : ℕ) : Option (Except Panic (ℤ × Bool)) :=
  if rb.isEmpty then some (.ok (0, false)) else searchRounds rb target compare n 0 (rb.count - 1)

section Rounds

variable {rb : RingBuffer α} {target : Option α} {compare : Option α → Option α → Except Panic ℤ}

/-- An interval of less than `2 ^ n` elements is searched in `n` rounds and a look at what is left. -/
theorem searchRounds_eq {n m : ℕ} {low high : ℤ} (hn : high + 1 - low < 2 ^ n)
    (hm : high + 1 - low ≤ m) :
    searchRounds rb target compare (n + 1) low high
      = some (searchLoop rb target compare m low high) := by
  induction n generalizing m low high with
  | zero =>
      have hempty : ¬ low ≤ high := by
        rw [pow_zero] at hn
        omega
      rw [searchRounds, if_neg hempty]
      cases m with
      | zero => rfl
      | succ m => rw [searchLoop, if_neg hempty]
  | succ n ih =>
      rw [searchRounds]
      by_cases hle : low ≤ high
      · obtain ⟨m, rfl⟩ : ∃ k, m = k + 1 := ⟨m - 1, by omega⟩
        have hhalf : (2 : ℤ) ^ (n + 1) = 2 * 2 ^ n := pow_succ' 2 n
        rw [if_pos hle, searchLoop, if_pos hle]
        dsimp only
        rcases compare (rb.valueAt ((low + high) / 2).toNat) target with e | comp
        · rfl
        · change (if comp = 0 then _ else if comp < 0 then _ else _)
            = some (if comp = 0 then _ else if comp < 0 then _ else _)
          -- Either side of the middle is at most half of the interval.
          split_ifs
          · rfl
          · exact ih (by omega) (by omega)
          · exact ih (by omega) (by omega)
      · rw [if_neg hle]
        cases m with
        | zero => rfl
        | succ m => rw [searchLoop, if_neg hle]

/-- **The search ends**, on any ring and with any comparison. -/
theorem binarySearch_ends (rb : RingBuffer α) (target : Option α)
    (compare : Option α → Option α → Except Panic ℤ) {n : ℕ} (hn : rb.count < 2 ^ n) :
    rb.binarySearchIn target compare (n + 1) = some (rb.binarySearch target compare) := by
  unfold binarySearchIn binarySearch
  split_ifs
  · rfl
  · have hn' : (rb.count : ℤ) < 2 ^ n := by exact_mod_cast hn
    exact searchRounds_eq (by omega) (by omega)

end Rounds

/-! ## What the search finds -/

/-- What a search of a sorted list is to return: the rank of the target, and whether an element equal
to it is there, which then has this rank as its index. -/
structure LowerBound (order : α → α → ℤ) (l : List α) (target : α) (i : ℕ) (found : Bool) : Prop where
  index : i = rank order l target
  found_iff : found = true ↔ ∃ a ∈ l, order a target = 0
  element : found = true → ∃ a ∈ l[i]?, order a target = 0

section LowerBound

variable {rb : RingBuffer α} {l : List α} {order : α → α → ℤ} {target : α}
  {compare : Option α → Option α → Except Panic ℤ}

/-- The search of a sorted ring finds the place of the target. -/
theorem Refines.binarySearch_finds (h : rb.Refines l) (horder : TotalOrder order)
    (hsorted : Sorted order l) (hcompare : ∀ a, compare (some a) (some target) = .ok (order a target)) :
    ∃ (i : ℕ) (found : Bool), rb.binarySearch (some target) compare = .ok ((i : ℤ), found)
      ∧ LowerBound order l target i found := by
  obtain ⟨xs, ys, rfl, hrank, hxs, hys⟩ := hsorted.exists_cut horder target
  obtain ⟨β, _, key, hkey⟩ := horder.exists_key
  have hlt : ∀ a b, order a b < 0 ↔ key a < key b := fun a b => (hkey a b).1
  have hascending : (xs ++ ys).Pairwise fun a b => key a < key b :=
    (sorted_iff_ascending hlt (xs ++ ys)).mp hsorted
  have hcut : CutAt key (key target) xs ys := by
    refine ⟨fun x hx => (hlt x target).mp (hxs x hx), fun y hy => not_lt.mp fun hy' => ?_⟩
    exact hys y hy ((hlt y target).mpr hy')
  have hcompares : Compares compare key (key target) (some target) :=
    fun a => ⟨order a target, hcompare a, (hkey a target).2, hlt a target⟩
  -- An equal element is the one right behind the cut, whichever index it was found at.
  have hequal : ∀ {j : ℕ} (hj : j < (xs ++ ys).length), order (xs ++ ys)[j] target = 0
      ↔ j = xs.length ∧ hits key (key target) ys = true :=
    fun hj => ((hkey _ target).2).trans (hcut.eq_iff hascending hj)
  have hbehind : hits key (key target) ys = true → ∃ hj : xs.length < (xs ++ ys).length,
      order (xs ++ ys)[xs.length] target = 0 := by
    intro hit
    have hsome : ys ≠ [] := by
      rintro rfl
      cases hit
    have hj : xs.length < (xs ++ ys).length := by
      have hpos := List.length_pos_iff.mpr hsome
      rw [List.length_append]
      omega
    exact ⟨hj, (hequal hj).mpr ⟨rfl, hit⟩⟩
  refine ⟨xs.length, hits key (key target) ys, binarySearch_eq h hcut hascending hcompares,
    hrank.symm, ⟨fun hit => ?_, ?_⟩, fun hit => ?_⟩
  · obtain ⟨hj, heq⟩ := hbehind hit
    exact ⟨_, List.getElem_mem hj, heq⟩
  · rintro ⟨a, ha, heq⟩
    obtain ⟨j, hj, rfl⟩ := List.getElem_of_mem ha
    exact ((hequal hj).mp heq).2
  · obtain ⟨hj, heq⟩ := hbehind hit
    exact ⟨_, List.getElem?_eq_getElem hj, heq⟩

/-- An element that was not found goes in where the search ended. -/
theorem Refines.insert_notFound (h : rb.Refines l) (horder : TotalOrder order)
    (hsorted : Sorted order l) {i : ℕ} (hi : LowerBound order l target i false)
    (hroom : rb.isFull = false) : ∃ rb', rb.insert i target = .ok rb'
      ∧ rb'.Refines (l.insertIdx i target) ∧ Sorted order (l.insertIdx i target) := by
  have hrank : i ≤ l.length := by
    rw [hi.index]
    exact rank_le order l target
  have hlt : l.length < rb.size := by
    refine lt_of_le_of_ne h.length_le fun hfull => ?_
    rw [h.full.mpr hfull] at hroom
    cases hroom
  have hnew : ∀ a ∈ l, order a target ≠ 0 :=
    fun a ha heq => Bool.false_ne_true (hi.found_iff.mpr ⟨a, ha, heq⟩)
  obtain ⟨rb', hinsert, hrefines, -⟩ := h.insert_ok hrank hlt target
  refine ⟨rb', hinsert, hrefines, ?_⟩
  rw [hi.index]
  exact hsorted.insertIdx_rank horder hnew

end LowerBound

/-- **The search of a ring is a lower bound.** For every ring, wherever it starts, whose content is
strictly sorted by a comparison of a total order, and for every target: the search ends and returns the
number of elements below the target, and whether an element equal to it is there, which then has this
index; and if there is none and the ring is not full, an insertion of the target at this index
succeeds and leaves the content strictly sorted. All rings that calls can make represent their content
(`represents_final`). -/
theorem binarySearch_lowerBound {rb : RingBuffer α} {l : List α} (h : rb.Refines l)
    {order : α → α → ℤ} (horder : TotalOrder order) (hsorted : Sorted order l)
    {compare : Option α → Option α → Except Panic ℤ}
    (hcompare : ∀ a b, compare (some a) (some b) = .ok (order a b)) (target : α) :
    ∃ (i : ℕ) (found : Bool),
      (∀ n, rb.count < 2 ^ n →
        rb.binarySearchIn (some target) compare (n + 1) = some (.ok ((i : ℤ), found)))
      ∧ rb.binarySearch (some target) compare = .ok ((i : ℤ), found)
      ∧ i ≤ rb.count ∧ LowerBound order l target i found
      ∧ (found = false → rb.isFull = false → ∃ rb', rb.insert i target = .ok rb'
          ∧ rb'.Refines (l.insertIdx i target) ∧ Sorted order (l.insertIdx i target)) := by
  obtain ⟨i, found, hsearch, hfinds⟩ :=
    h.binarySearch_finds horder hsorted (fun a => hcompare a target)
  refine ⟨i, found, fun n hn => ?_, hsearch, ?_, hfinds, ?_⟩
  · rw [binarySearch_ends rb _ _ hn, hsearch]
  · rw [h.count_eq, hfinds.index]
    exact rank_le order l target
  · rintro rfl hroom
    exact h.insert_notFound horder hsorted hfinds hroom

end RingBuffer

/-! ## The rings of kernel events -/

namespace KernEvent

/-- The order that the searches compare kernel events by, in which those of one sequence number are
equal. -/
def seqOrder (i j : KernEvent) : ℤ := cmpCompare i.seq j.seq

theorem seqOrder_totalOrder : TotalOrder seqOrder :=
  totalOrder_of_key (fun _ _ => cmpCompare_neg) (fun _ _ => cmpCompare_pos) KernEvent.seq

theorem sorted_of_ascending {l : List KernEvent} (h : KernEventStream.Ascending l) :
    Sorted seqOrder l :=
  h.imp cmpCompare_neg.mpr

/-- A ring of four with three events, which goes around the end of its slots. -/
def wrappedCalls : List (RingCall KernEvent Unit) :=
  [.write (atSeq 1), .write (atSeq 2), .write (atSeq 5), .read, .read, .write (atSeq 8),
    .write (atSeq 9)]

def wrappedRing : RingBuffer KernEvent := Calls.final RingCall.onRing wrappedCalls (RingBuffer.new 4)

/-- An event that is not there is to go in at index one, and is then between its neighbours. -/
theorem binarySearch_lowerBound_wrapped :
    wrappedRing.binarySearch (some (atSeq 6)) compareSeq = .ok (1, false)
      ∧ ∃ rb', wrappedRing.insert 1 (atSeq 6) = .ok rb'
        ∧ rb'.contents.map KernEvent.seq = [5, 6, 8, 9] := by
  have hring : wrappedRing.Refines [atSeq 5, atSeq 8, atSeq 9] :=
    (represents_final (by decide) wrappedCalls).refines
  have hsorted : Sorted seqOrder [atSeq 5, atSeq 8, atSeq 9] := by
    unfold Sorted
    decide
  obtain ⟨i, found, -, hsearch, -, hlower, hinsert⟩ :=
    RingBuffer.binarySearch_lowerBound hring seqOrder_totalOrder hsorted
      (fun _ _ => rfl : ∀ a b, compareSeq (some a) (some b) = .ok (seqOrder a b)) (atSeq 6)
  obtain rfl : i = 1 := hlower.index.trans (by decide)
  obtain rfl : found = false := by
    rw [Bool.eq_false_iff, Ne, hlower.found_iff]
    decide
  obtain ⟨rb', hok, hrefines, -⟩ := hinsert rfl (by decide)
  refine ⟨hsearch, rb', hok, ?_⟩
  rw [hrefines.contents_eq]
  rfl

end KernEvent

namespace KernEventStream

/-- **What a search in an event stream finds.** In every state of every run, the search of the ring of
a step returns how many of its events start below the sequence number, and whether one starts there. -/
theorem Reaches.search_finds {maxLen : ℕ} {hpos : 0 < maxLen} {ops : List Op} {s : KernEventStream}
    (hrun : Reaches maxLen hpos ops s) {step : AgentStepT} {ring : RingBuffer KernEvent}
    (hget : s.kernEvents.get? step = some ring) (seq : ℕ) :
    ∃ found, ring.binarySearch (some (KernEvent.atSeq seq)) KernEvent.compareSeq
        = .ok (((s.stored step).countP fun e => e.seq < seq : ℕ), found)
      ∧ (found = true ↔ ∃ e ∈ s.stored step, e.seq = seq) := by
  have hring := hrun.indexed step ring hget
  have hcompare : ∀ e, KernEvent.compareSeq (some e) (some (KernEvent.atSeq seq))
      = .ok (KernEvent.seqOrder e (KernEvent.atSeq seq)) := fun _ => rfl
  obtain ⟨i, found, hsearch, hfinds⟩ := hring.refines.binarySearch_finds
    KernEvent.seqOrder_totalOrder (KernEvent.sorted_of_ascending hring.sorted) hcompare
  have hrank : i = (s.stored step).countP fun e => e.seq < seq := by
    refine hfinds.index.trans (List.countP_congr fun e _ => ?_)
    rw [decide_eq_true_iff, decide_eq_true_iff]
    exact cmpCompare_neg
  refine ⟨found, hrank ▸ hsearch, hfinds.found_iff.trans ?_⟩
  simp only [KernEvent.seqOrder, cmpCompare_eq_zero, KernEvent.atSeq]

end KernEventStream

end Kyanos
