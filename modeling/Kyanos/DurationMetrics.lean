/-
`agent/analysis/common/types.go`: the metrics of durations, which pass through an `int32`.

A duration is a `float64` of nanoseconds. `GetTotalDurationMills` and its two siblings convert it to
an `int32` before they divide it by `10 ^ 6`, so from `2 ^ 31` nanoseconds on, a little more than two
seconds, the metric is another one: a request of three seconds counts as negative. Below that it is
the duration in milliseconds, and whatever an aggregator makes of the records is what it would make of
the durations themselves (`stats_eq`). `metrics_faithful_iff` says both, for exact division and for
one that is rounded to a `float64`.
-/
import Kyanos.Float64
import Kyanos.Percentiles
import Kyanos.Samples

set_option autoImplicit false

open GoNum OrderedIndex

namespace Kyanos.Analysis

variable {ρ F : Type}

/-! ## Durations and their metrics -/

def durationMetrics : List MetricType :=
  [.totalDuration, .blackBoxDuration, .readFromSocketBufferDuration]

/-- The duration that a metric is made from. -/
def AnnotatedRecord.duration (ar : AnnotatedRecord ρ F) : MetricType → F
  | .blackBoxDuration => ar.blackBoxDuration
  | .readFromSocketBufferDuration => ar.readFromSocketBufferDuration
  | _ => ar.totalDuration

/-- The duration in milliseconds, without a conversion. -/
def trueNumbers : FloatOps ℚ := { exactNumbers with nanoToMills := fun x => x / 1000000 }

/-- `NanoToMills` as it rounds. -/
def roundedNumbers : FloatOps ℚ :=
  { exactNumbers with nanoToMills := fun x => nanoToMills (intOf 32 (truncInt x)) }

/-- The durations of the record are whole numbers of nanoseconds. -/
def WholeNanos (r : AnnotatedRecord ρ ℚ) : Prop :=
  ∀ m ∈ durationMetrics, ∃ d : ℕ, d < 2 ^ 53 ∧ r.duration m = d

/-- The aggregator that received the records. -/
def aggregated (ops : FloatOps F) (opts : AnalysisOptions) (humanReadableClassId : GoString)
    (classId : ClassId) (isSub : Bool) (records : List (AnnotatedRecord ρ F)) : Aggregator ρ F :=
  records.foldl (fun a record => a.receive ops opts record)
    (createAggregator ops opts humanReadableClassId classId isSub)

/-- Two aggregators have the same statistics of a metric. -/
structure SameStats (m : MetricType) (o o' : Aggregator ρ F) : Prop where
  maxMap : o.maxMap m = o'.maxMap m
  sumMap : o.sumMap m = o'.sumMap m
  percentileCalculators : o.percentileCalculators m = o'.percentileCalculators m
  samplesMap : o.samplesMap m = o'.samplesMap m

/-- The metrics of the records are their durations in milliseconds: they are not negative, they are
in the order of the durations, and so is all that an aggregator makes of them. -/
structure Faithful (records : List (AnnotatedRecord ρ ℚ)) : Prop where
  metric : ∀ r ∈ records, ∀ m ∈ durationMetrics,
    r.metric exactNumbers m = r.duration m / 1000000
  nonneg : ∀ r ∈ records, ∀ m ∈ durationMetrics, 0 ≤ r.metric exactNumbers m
  order : ∀ r ∈ records, ∀ r' ∈ records, ∀ m ∈ durationMetrics,
    r.metric exactNumbers m ≤ r'.metric exactNumbers m ↔ r.duration m ≤ r'.duration m
  stats : ∀ opts humanReadableClassId classId isSub, ∀ m ∈ durationMetrics,
    SameStats m (aggregated exactNumbers opts humanReadableClassId classId isSub records)
      (aggregated trueNumbers opts humanReadableClassId classId isSub records)

/-- The same where the division rounds: the metrics are the nearest numbers to the durations in
milliseconds. -/
def RoundedFaithful (records : List (AnnotatedRecord ρ ℚ)) : Prop :=
  ∀ r ∈ records, ∀ m ∈ durationMetrics,
    r.metric roundedNumbers m = float64 (r.duration m / 1000000)

theorem metric_duration (ops : FloatOps F) (r : AnnotatedRecord ρ F) {m : MetricType}
    (hm : m ∈ durationMetrics) : r.metric ops m = ops.nanoToMills (r.duration m) := by
  simp only [durationMetrics, List.mem_cons, List.not_mem_nil, or_false] at hm
  obtain rfl | rfl | rfl := hm <;> rfl

/-! ## The conversion -/

theorem truncInt_natCast (d : ℕ) : truncInt (d : ℚ) = d := by
  rw [truncInt, if_pos (Nat.cast_nonneg d), Int.floor_natCast]

theorem intOf_32_of_lt {d : ℕ} (h : d < 2 ^ 31) : intOf 32 d = d :=
  intOf_of_lt (by omega) (by omega)

theorem intOf_32_lt (d : ℕ) : intOf 32 d < 2 ^ 31 := by
  have h := (intOf_bounds (by decide : 0 < 32) (d : ℤ)).2
  omega

/-- Exactly divided, a duration is kept just if an `int32` can have it. -/
theorem exact_millis_iff (d : ℕ) :
    exactNumbers.nanoToMills (d : ℚ) = (d : ℚ) / 1000000 ↔ d < 2 ^ 31 := by
  have hmillis : exactNumbers.nanoToMills (d : ℚ) = (intOf 32 d : ℚ) / 1000000 := by
    change ((intOf 32 (truncInt (d : ℚ)) : ℤ) : ℚ) / 1000000 = _
    rw [truncInt_natCast]
  rw [hmillis]
  constructor
  · intro h
    have heq : (intOf 32 d : ℚ) = d := by linarith
    have heq' : intOf 32 d = d := by exact_mod_cast heq
    have hlt := intOf_32_lt d
    omega
  · intro h
    rw [intOf_32_of_lt h, Int.cast_natCast]

/-- The largest number of an `int32` and the next one are apart, also when they are rounded. -/
theorem float64_limit : float64 (2147483647 / 1000000) < float64 (2147483648 / 1000000) := by
  decide +kernel

/-- Rounded as well. -/
theorem rounded_millis_iff {d : ℕ} (hd : d < 2 ^ 53) :
    roundedNumbers.nanoToMills (d : ℚ) = float64 ((d : ℚ) / 1000000) ↔ d < 2 ^ 31 := by
  have hmillis : roundedNumbers.nanoToMills (d : ℚ) = float64 ((intOf 32 d : ℚ) / 1000000) := by
    have hlow := (intOf_bounds (by decide : 0 < 32) (d : ℤ)).1
    have hhigh := intOf_32_lt d
    have hsmall : |intOf 32 d| < 2 ^ 53 := by
      rw [abs_lt]
      omega
    have hkept := float64_intCast hsmall
    change float64 (float64 ((intOf 32 (truncInt (d : ℚ)) : ℤ) : ℚ) / 1000000) = _
    rw [truncInt_natCast, hkept]
  rw [hmillis]
  constructor
  · intro h
    by_contra hlarge
    -- What is converted is below the limit and the duration is not, so they are rounded apart.
    have hbelow : float64 ((intOf 32 d : ℚ) / 1000000) ≤ float64 (2147483647 / 1000000) := by
      have hle : (intOf 32 d : ℚ) ≤ 2147483647 := by
        have h := intOf_32_lt d
        have h' : intOf 32 d ≤ 2147483647 := by omega
        exact_mod_cast h'
      -- A wrapped duration may be negative, and is then rounded to something not above zero.
      rcases lt_or_ge 0 (intOf 32 d : ℚ) with hpos | hneg
      · exact float64_le_of_pos (div_pos hpos (by norm_num))
          (div_le_div_of_nonneg_right hle (by norm_num))
      · refine (float64_nonpos ?_).trans (float64_pos (by norm_num)).le
        exact div_nonpos_of_nonpos_of_nonneg hneg (by norm_num)
    have habove : float64 (2147483648 / 1000000) ≤ float64 ((d : ℚ) / 1000000) := by
      have hge : (2147483648 : ℚ) ≤ d := by
        have h' : 2147483648 ≤ d := by omega
        exact_mod_cast h'
      exact float64_le_of_pos (by norm_num) (div_le_div_of_nonneg_right hge (by norm_num))
    have hlimit := float64_limit
    rw [h] at hbelow
    exact absurd (hlimit.trans_le habove) (not_lt.mpr hbelow)
  · intro h
    rw [intOf_32_of_lt h, Int.cast_natCast]

/-! ## What an aggregator makes of the metrics -/

section Congruence

variable {ops : FloatOps F} {millis : F → F} {m : MetricType}

/-- A sample is added where the metrics it is compared by put it. -/
theorem addToSamples_congr {samples : List (AnnotatedRecord ρ F)} {newSample : AnnotatedRecord ρ F}
    {f g : AnnotatedRecord ρ F → F} (hnew : f newSample = g newSample)
    (h : ∀ r ∈ samples, f r = g r) (maxSamplesNum : ℕ) :
    addToSamples ops samples newSample f maxSamplesNum
      = addToSamples ops samples newSample g maxSamplesNum := by
  have hsearch : (binarySearchFunc samples fun o1 => ops.compare (f o1) (f newSample)).1
      = (binarySearchFunc samples fun o1 => ops.compare (g o1) (g newSample)).1 :=
    searchLoop_congr (fun r hr => by rw [h r hr, hnew]) _ _ _
  unfold addToSamples
  rw [hsearch]

theorem mem_of_addToSamples {samples : List (AnnotatedRecord ρ F)}
    {newSample r : AnnotatedRecord ρ F} {f : AnnotatedRecord ρ F → F} {maxSamplesNum : ℕ}
    (hr : r ∈ addToSamples ops samples newSample f maxSamplesNum) : r = newSample ∨ r ∈ samples := by
  unfold addToSamples at hr
  dsimp only at hr
  split_ifs at hr with hmin
  · exact Or.inr hr
  · exact List.eq_or_mem_of_mem_insertIdx (List.mem_of_mem_drop hr)

/-- Aggregators that agree, over samples of which the metrics agree. -/
structure Agrees (ops : FloatOps F) (millis : F → F) (m : MetricType) (o o' : Aggregator ρ F) : Prop
    extends SameStats m o o' where
  isSub : o.isSub = o'.isSub
  samples : ∀ r ∈ o.samplesMap m,
    r.metric ops m = r.metric { ops with nanoToMills := millis } m

theorem Agrees.receive {o o' : Aggregator ρ F} {opts : AnalysisOptions} {r : AnnotatedRecord ρ F}
    (h : Agrees ops millis m o o')
    (hr : r.metric ops m = r.metric { ops with nanoToMills := millis } m) :
    Agrees ops millis m (o.receive ops opts r)
      (o'.receive { ops with nanoToMills := millis } opts r) := by
  unfold ConnStat.receive
  rcases hm : opts.enabledMetricTypeSet m with _ | _
  · refine ⟨⟨?_, ?_, ?_, ?_⟩, h.isSub, ?_⟩
    all_goals dsimp only; rw [hm]
    · exact h.maxMap
    · exact h.sumMap
    · exact h.percentileCalculators
    · exact h.samplesMap
    · exact h.samples
  · refine ⟨⟨?_, ?_, ?_, ?_⟩, h.isSub, ?_⟩
    all_goals dsimp only; rw [hm]
    · rw [if_pos rfl, if_pos rfl, h.maxMap, hr]
    · rw [if_pos rfl, if_pos rfl, h.sumMap, hr]
    · rw [if_pos rfl, if_pos rfl, h.percentileCalculators, hr]
      rfl
    · rw [if_pos rfl, if_pos rfl, ← h.samplesMap, ← h.isSub]
      exact addToSamples_congr hr h.samples _
    · rw [if_pos rfl]
      intro r' hr'
      -- The samples that are compared later are old ones and the new record.
      rcases mem_of_addToSamples hr' with rfl | hr'
      · exact hr
      · exact h.samples r' hr'

/-- Over a whole run. -/
theorem agrees_of_metrics (opts : AnalysisOptions) (humanReadableClassId : GoString)
    (classId : ClassId) (isSub : Bool) {records : List (AnnotatedRecord ρ F)}
    (h : ∀ r ∈ records, r.metric ops m = r.metric { ops with nanoToMills := millis } m) :
    Agrees ops millis m (aggregated ops opts humanReadableClassId classId isSub records)
      (aggregated { ops with nanoToMills := millis } opts humanReadableClassId classId isSub
        records) := by
  induction records using List.reverseRecOn with
  | nil => exact ⟨⟨rfl, rfl, rfl, rfl⟩, rfl, fun r hr => by cases hr⟩
  | append_singleton records r ih =>
      unfold aggregated at ih ⊢
      rw [List.foldl_append, List.foldl_append]
      have hrecords := List.forall_mem_append.mp h
      exact (ih hrecords.1).receive (hrecords.2 r (List.mem_singleton_self r))

end Congruence

theorem stats_eq {m : MetricType} {records : List (AnnotatedRecord ρ ℚ)}
    (h : ∀ r ∈ records, r.metric exactNumbers m = r.metric trueNumbers m) (opts : AnalysisOptions)
    (humanReadableClassId : GoString) (classId : ClassId) (isSub : Bool) :
    SameStats m (aggregated exactNumbers opts humanReadableClassId classId isSub records)
      (aggregated trueNumbers opts humanReadableClassId classId isSub records) :=
  (agrees_of_metrics opts humanReadableClassId classId isSub h).toSameStats

/-! ## Short durations -/

/-- All durations are below `2 ^ 31` nanoseconds. -/
def Short (records : List (AnnotatedRecord ρ ℚ)) : Prop :=
  ∀ r ∈ records, ∀ m ∈ durationMetrics, r.duration m < 2 ^ 31

theorem faithful_of_metric {records : List (AnnotatedRecord ρ ℚ)}
    (hwhole : ∀ r ∈ records, WholeNanos r)
    (h : ∀ r ∈ records, ∀ m ∈ durationMetrics,
      r.metric exactNumbers m = r.duration m / 1000000) : Faithful records := by
  refine ⟨h, ?_, ?_, ?_⟩
  · intro r hr m hm
    obtain ⟨d, -, hd⟩ := hwhole r hr m hm
    rw [h r hr m hm, hd]
    positivity
  · intro r hr r' hr' m hm
    rw [h r hr m hm, h r' hr' m hm]
    exact div_le_div_iff_of_pos_right (by norm_num)
  · intro opts humanReadableClassId classId isSub m hm
    refine stats_eq (fun r hr => ?_) opts humanReadableClassId classId isSub
    rw [h r hr m hm, metric_duration trueNumbers r hm]
    rfl

/-- **The metrics of durations are faithful** just as far as an `int32` goes. For records whose
durations are whole numbers of nanoseconds below `2 ^ 53`: the metrics are the durations in
milliseconds, with all that follows for the statistics, if and only if every duration is below
`2 ^ 31` nanoseconds; and where the division rounds, they are the nearest numbers to them under the
same condition. -/
theorem metrics_faithful_iff (records : List (AnnotatedRecord ρ ℚ))
    (hwhole : ∀ r ∈ records, WholeNanos r) :
    (Faithful records ↔ Short records) ∧ (RoundedFaithful records ↔ Short records) := by
  have hexact : ∀ r ∈ records, ∀ m ∈ durationMetrics,
      r.metric exactNumbers m = r.duration m / 1000000 ↔ r.duration m < 2 ^ 31 := by
    intro r hr m hm
    obtain ⟨d, -, hd⟩ := hwhole r hr m hm
    rw [metric_duration exactNumbers r hm, hd, exact_millis_iff]
    norm_cast
  have hrounded : ∀ r ∈ records, ∀ m ∈ durationMetrics,
      r.metric roundedNumbers m = float64 (r.duration m / 1000000) ↔ r.duration m < 2 ^ 31 := by
    intro r hr m hm
    obtain ⟨d, hlt, hd⟩ := hwhole r hr m hm
    rw [metric_duration roundedNumbers r hm, hd, rounded_millis_iff hlt]
    norm_cast
  refine ⟨⟨fun h r hr m hm => ?_, fun h => ?_⟩, ⟨fun h r hr m hm => ?_, fun h r hr m hm => ?_⟩⟩
  · exact (hexact r hr m hm).mp (h.metric r hr m hm)
  · exact faithful_of_metric hwhole (fun r hr m hm => (hexact r hr m hm).mpr (h r hr m hm))
  · exact (hrounded r hr m hm).mp (h r hr m hm)
  · exact (hrounded r hr m hm).mpr (h r hr m hm)

/-- A request that took some nanoseconds. -/
def tookNanos (nanos : ℚ) : AnnotatedRecord Unit ℚ :=
  { desc := (), side := .clientSide, status := some .successStatus, reqSize := 20, respSize := 40
    totalDuration := nanos, blackBoxDuration := 0, readFromSocketBufferDuration := 0 }

theorem tookNanos_whole {nanos : ℕ} (h : nanos < 2 ^ 53) : WholeNanos (tookNanos nanos) := by
  intro m hm
  simp only [durationMetrics, List.mem_cons, List.not_mem_nil, or_false] at hm
  obtain rfl | rfl | rfl := hm
  · exact ⟨nanos, h, rfl⟩
  · exact ⟨0, by norm_num, rfl⟩
  · exact ⟨0, by norm_num, rfl⟩

/-- Half a second and two seconds are in milliseconds what they are. -/
theorem metrics_faithful_iff_two :
    Faithful [tookNanos (500000000 : ℕ), tookNanos (2000000000 : ℕ)] := by
  have hwhole : ∀ r ∈ [tookNanos (500000000 : ℕ), tookNanos (2000000000 : ℕ)], WholeNanos r := by
    simp only [List.forall_mem_cons]
    exact ⟨tookNanos_whole (by norm_num), tookNanos_whole (by norm_num), by simp⟩
  refine (metrics_faithful_iff _ hwhole).1.mpr ?_
  intro r hr m hm
  simp only [List.mem_cons, List.not_mem_nil, or_false, durationMetrics] at hr hm
  obtain rfl | rfl := hr <;> obtain rfl | rfl | rfl := hm <;>
    norm_num [tookNanos, AnnotatedRecord.duration]

/-- Three seconds count as less than nothing. -/
theorem three_seconds_negative :
    ¬ Faithful [tookNanos (3000000000 : ℕ)] := by
  intro h
  have hmetric := h.nonneg _ (List.mem_singleton_self _) .totalDuration (by decide)
  revert hmetric
  decide +kernel

end Kyanos.Analysis
