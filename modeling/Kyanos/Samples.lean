/-
`AddToSamples`: the slowest records of a class, by some metric.

The list of samples is in ascending order of the metric. A new record is looked up in it by binary
search and put in front of those that are not below it, and what is too much goes from the front. So
the list is a selection of the largest (`TopSelection`), and after any records it has the largest
values of the metric among them (`addToSamples_largest`). An aggregator keeps such a list for each of
its metrics (`receive_samples`).
-/
import Kyanos.Aggregation
import Kyanos.Pieces
import Kyanos.TopSelection

set_option autoImplicit false

open OrderedIndex TopSelection

namespace Kyanos.Analysis

variable {ρ F : Type}

/-- `cmp.Compare` is that of a total order. -/
def FloatOps.InOrder [LinearOrder F] (ops : FloatOps F) : Prop :=
  ∀ x y, ops.compare x y < 0 ↔ x < y

section Selection

variable [LinearOrder F] {ops : FloatOps F} {extractMetric : AnnotatedRecord ρ F → F}
  {maxSamplesNum : ℕ} {records samples : List (AnnotatedRecord ρ F)} {newSample : AnnotatedRecord ρ F}

/-- Samples in order are cut where the record belongs, and the search finds the cut. -/
theorem samples_cut (hcompare : ops.InOrder)
    (h : samples.Pairwise fun a b => extractMetric a ≤ extractMetric b) : ∃ xs ys, samples = xs ++ ys
      ∧ (∀ x ∈ xs, extractMetric x < extractMetric newSample)
      ∧ (∀ y ∈ ys, extractMetric newSample ≤ extractMetric y)
      ∧ (binarySearchFunc samples fun o1 =>
          ops.compare (extractMetric o1) (extractMetric newSample)).1 = xs.length := by
  let below : AnnotatedRecord ρ F → Bool := fun a => extractMetric a < extractMetric newSample
  have hsplit : samples.takeWhile below ++ samples.dropWhile below = samples :=
    List.takeWhile_append_dropWhile
  have hxs : ∀ x ∈ samples.takeWhile below, extractMetric x < extractMetric newSample :=
    fun x hx => of_decide_eq_true (List.mem_takeWhile_imp (p := below) hx)
  have hys : ∀ y ∈ samples.dropWhile below, extractMetric newSample ≤ extractMetric y := by
    intro y hy
    refine not_lt.mp (fun hlt => ?_)
    -- By the order, what is in front of a record below the new one is below it too.
    refine not_of_mem_dropWhile (h.imp fun {a b} hab hb => ?_) hy (decide_eq_true hlt)
    exact decide_eq_true (hab.trans_lt (of_decide_eq_true hb))
  refine ⟨_, _, hsplit.symm, hxs, hys, ?_⟩
  have hsearch := @binarySearchFunc_eq _ (samples.takeWhile below) (samples.dropWhile below)
    (fun o1 => ops.compare (extractMetric o1) (extractMetric newSample))
    (fun x hx => (hcompare _ _).mpr (hxs x hx))
    (fun y hy hlt => not_lt.mpr (hys y hy) ((hcompare _ _).mp hlt))
  rw [hsplit] at hsearch
  rw [hsearch]

/-- A record that is added keeps the samples a selection. -/
theorem addToSamples_selects (hcompare : ops.InOrder)
    (h : Selects extractMetric maxSamplesNum records samples) :
    Selects extractMetric maxSamplesNum (records ++ [newSample])
      (addToSamples ops samples newSample extractMetric maxSamplesNum) := by
  obtain ⟨xs, ys, rfl, hxs, hys, hidx⟩ := @samples_cut ρ F _ ops extractMetric samples newSample
    hcompare h.ascending
  have hlength : (xs ++ newSample :: ys).length = (xs ++ ys).length + 1 := by
    simp only [List.length_append, List.length_cons]
    omega
  unfold addToSamples
  rw [hidx]
  dsimp only
  rw [Pieces.insertIdx_length_append, hlength]
  -- A list with room grows; a full one refuses the record, or gives its smallest away for it.
  rcases Nat.lt_or_eq_of_le h.length_le with hroom | hfull
  · rw [if_neg (fun hmin => hroom.ne hmin.1), Nat.sub_eq_zero_of_le hroom, List.drop_zero]
    exact h.insert hroom hxs hys
  rcases xs with _ | ⟨x, xs⟩
  · rw [if_pos ⟨hfull, rfl⟩]
    exact h.refuse hfull hys
  · rw [if_neg (fun hmin => Nat.succ_ne_zero _ hmin.2), hfull, Nat.add_sub_cancel_left]
    exact h.replace hfull (hxs x List.mem_cons_self) (fun a ha => hxs a (List.mem_cons_of_mem x ha)) hys

theorem foldl_addToSamples_selects (hcompare : ops.InOrder)
    (extractMetric : AnnotatedRecord ρ F → F) (maxSamplesNum : ℕ)
    (records : List (AnnotatedRecord ρ F)) :
    Selects extractMetric maxSamplesNum records (records.foldl (fun samples newSample =>
      addToSamples ops samples newSample extractMetric maxSamplesNum) []) := by
  induction records using List.reverseRecOn with
  | nil => exact Selects.nil _ _
  | append_singleton records newSample ih =>
      rw [List.foldl_append]
      exact addToSamples_selects hcompare ih

end Selection

/-- **Sampling keeps the slowest.** After any records the samples are in ascending order of the metric;
they are as many as there are records, up to the limit; each is an occurrence of a record; and their
values of the metric are the largest of all. -/
theorem addToSamples_largest [LinearOrder F] (ops : FloatOps F) (hcompare : ops.InOrder)
    (extractMetric : AnnotatedRecord ρ F → F) (maxSamplesNum : ℕ)
    (records : List (AnnotatedRecord ρ F)) :
    let samples := records.foldl (fun samples newSample =>
      addToSamples ops samples newSample extractMetric maxSamplesNum) []
    samples.Pairwise (fun a b => extractMetric a ≤ extractMetric b)
      ∧ samples.length = min records.length maxSamplesNum
      ∧ samples.Subperm records
      ∧ samples.map extractMetric = largest maxSamplesNum (records.map extractMetric) := by
  have h := foldl_addToSamples_selects hcompare extractMetric maxSamplesNum records
  exact ⟨h.ascending, h.length_eq, h.subperm, h.map_eq⟩

/-- A request that took some milliseconds. -/
def tookMillis (millis : ℤ) : AnnotatedRecord Unit ℤ :=
  { desc := (), side := .serverSide, status := some .successStatus, reqSize := 20, respSize := 40
    totalDuration := millis * 1000000, blackBoxDuration := 0, readFromSocketBufferDuration := 0 }

/-- Of five requests, two of which took as long, the three slowest. -/
theorem addToSamples_largest_three :
    (([5, 9, 2, 9, 7].map tookMillis).foldl (fun samples newSample =>
      addToSamples wholeNumbers samples newSample (·.metric wholeNumbers .totalDuration) 3) []).map
        (·.metric wholeNumbers .totalDuration) = [7, 9, 9] := by
  refine (addToSamples_largest wholeNumbers (fun x y => ?_) _ 3 _).2.2.2.trans (by decide)
  dsimp only [wholeNumbers]
  split_ifs <;> omega

/-! ## The samples of an aggregator -/

/-- How many samples an aggregator keeps of a metric. -/
def sampleLimitOf (opts : AnalysisOptions) (isSub : Bool) : ℕ :=
  if isSub ∨ opts.subClassfierType = .none then opts.sampleLimit else 1

/-- An aggregator that receives records adds each of them to the samples of every metric that is
enabled. -/
theorem receive_samples (ops : FloatOps F) (opts : AnalysisOptions) (a : Aggregator ρ F)
    (records : List (AnnotatedRecord ρ F)) {m : MetricType} (hm : opts.enabledMetricTypeSet m = true) :
    (records.foldl (fun a record => a.receive ops opts record) a).samplesMap m
      = records.foldl (fun samples newSample => addToSamples ops samples newSample
          (·.metric ops m) (sampleLimitOf opts a.isSub)) (a.samplesMap m) := by
  induction records generalizing a with
  | nil => rfl
  | cons record records ih =>
      rw [List.foldl_cons, List.foldl_cons, ih]
      have hsamples : (a.receive ops opts record).samplesMap m = addToSamples ops (a.samplesMap m) record
          (·.metric ops m) (sampleLimitOf opts a.isSub) := if_pos hm
      rw [hsamples]
      rfl

end Kyanos.Analysis
