/-
`agent/analysis/analysis.go`: records are classified, and an aggregator for each class counts them.

One map holds two kinds of aggregators. A class has one under its id; and where there is a
sub-classifier, each of its sub-classes has one under the id of the class, two bars and the id of
the sub-class. The user interface (`agent/render/stat/stat.go`) shows the first kind, and for a
chosen class those of the second kind whose id starts with that of the class and two bars.

Ids are any strings, so one id can be that of a class and of a sub-class, or of sub-classes of two
classes, or start as those of another class do. `conserved_iff` says which records the aggregators
count right: those whose ids do none of this, and no class of them is the empty string, which the
interface takes for no choice, and has a sub-class.

Go's floating point is a parameter (`FloatOps`), of which nothing is assumed.
-/
import Kyanos.Decoder
import Kyanos.Grouping
import Kyanos.MatchByTimestamp
import Kyanos.OrderedIndex

set_option autoImplicit false

open Grouping OrderedIndex

namespace Kyanos.Analysis

/-! ## Records -/

abbrev ClassId := GoString

inductive SideEnum
  | allSide
  | serverSide
  | clientSide
deriving DecidableEq

inductive ClassfierType
  | default
  | none
  | conn
  | remotePort
  | localPort
  | remoteIp
  | protocol
  | httpPath
  | redisCommand
  | protocolAdaptive
deriving DecidableEq

inductive MetricType
  | start
  | responseSize
  | requestSize
  | totalDuration
  | blackBoxDuration
  | readFromSocketBufferDuration
  | noneType
deriving DecidableEq

/-- What the aggregation does with values of type `float64`. -/
structure FloatOps (F : Type) where
  zero : F
  add : F → F → F
  max : F → F → F
  le : F → F → Bool
  /-- `cmp.Compare`. -/
  compare : F → F → ℤ
  ofInt : ℤ → F
  /-- Rounded to a `float32` and back. -/
  toFloat32 : F → F
  /-- `NanoToMills` of the value as an `int32`. -/
  nanoToMills : F → F

/-- `AnnotatedRecord`. The classifiers read what is in `desc`; the status is that of the response, if
it is a `StatefulMessage`. -/
structure AnnotatedRecord (ρ F : Type) where
  desc : ρ
  side : SideEnum
  status : Option ResponseStatus
  reqSize : ℤ
  respSize : ℤ
  totalDuration : F
  blackBoxDuration : F
  readFromSocketBufferDuration : F

variable {ρ F : Type}

/-- `GetMetricExtractFunc`. -/
def AnnotatedRecord.metric (ops : FloatOps F) (ar : AnnotatedRecord ρ F) : MetricType → F
  | .responseSize => ops.ofInt ar.respSize
  | .requestSize => ops.ofInt ar.reqSize
  | .totalDuration => ops.nanoToMills ar.totalDuration
  | .blackBoxDuration => ops.nanoToMills ar.blackBoxDuration
  | .readFromSocketBufferDuration => ops.nanoToMills ar.readFromSocketBufferDuration
  | _ => ops.nanoToMills ar.totalDuration

/-- The record counts as failed. -/
def AnnotatedRecord.failed (ar : AnnotatedRecord ρ F) : Bool :=
  ar.status.any fun status => status ≠ .successStatus

/-! ## Percentiles and samples -/

/-- `PercentileCalculator`, whose boundaries are always these. -/
structure PercentileCalculator where
  buckets : List ℕ
  totalValues : ℕ

def boundaries : List ℤ := [1, 2, 4, 8, 16, 32, 64, 128, 256, 512, 1024, 2048, 4096]

def newPercentileCalculator : PercentileCalculator :=
  { buckets := List.replicate (boundaries.length + 1) 0, totalValues := 0 }

/-- `findBucket`: beyond all boundaries it is the last one. -/
def findBucket (ops : FloatOps F) (val : F) : ℕ :=
  boundaries.findIdx fun boundary => ops.le val (ops.ofInt boundary)

def PercentileCalculator.addValue (ops : FloatOps F) (p : PercentileCalculator) (val : F) :
    PercentileCalculator :=
  { buckets := p.buckets.modify (findBucket ops val) (· + 1), totalValues := p.totalValues + 1 }

/-- `AddToSamples`. -/
def addToSamples (ops : FloatOps F) (samples : List (AnnotatedRecord ρ F))
    (newSample : AnnotatedRecord ρ F) (extractMetric : AnnotatedRecord ρ F → F)
    (maxSamplesNum : ℕ) : List (AnnotatedRecord ρ F) :=
  let isFull := samples.length = maxSamplesNum
  let idx := (binarySearchFunc samples fun o1 =>
    ops.compare (extractMetric o1) (extractMetric newSample)).1
  if isFull ∧ idx = 0 then samples
  else
    let result := samples.insertIdx idx newSample
    result.drop (result.length - maxSamplesNum)

/-! ## Aggregators -/

/-- `AnalysisOptions`, as far as an aggregator reads it. -/
structure AnalysisOptions where
  enabledMetricTypeSet : MetricType → Bool
  sampleLimit : ℕ
  classfierType : ClassfierType
  subClassfierType : ClassfierType

/-- `ConnStat`. A metric that is not in a map is zero there, or empty. -/
structure ConnStat (ρ F : Type) where
  count : ℕ
  failedCount : ℕ
  samplesMap : MetricType → List (AnnotatedRecord ρ F)
  percentileCalculators : MetricType → PercentileCalculator
  maxMap : MetricType → F
  sumMap : MetricType → F
  side : SideEnum
  classId : ClassId
  humanReadbleClassId : GoString
  classfierType : ClassfierType
  isSub : Bool

/-- `aggregator`, whose `isSub` is that of its `ConnStat`. -/
abbrev Aggregator := ConnStat

/-- `createAggregatorWithHumanReadableClassId`, and `createAggregator` with an empty one. -/
def createAggregator (ops : FloatOps F) (opts : AnalysisOptions) (humanReadableClassId : GoString)
    (classId : ClassId) (isSub : Bool) : Aggregator ρ F :=
  { count := 0, failedCount := 0, samplesMap := fun _ => []
    percentileCalculators := fun _ => newPercentileCalculator
    maxMap := fun _ => ops.zero, sumMap := fun _ => ops.zero
    side := .allSide, classId := classId, humanReadbleClassId := humanReadableClassId
    classfierType := if isSub then opts.subClassfierType else opts.classfierType
    isSub := isSub }

/-- `receive`. -/
def ConnStat.receive (ops : FloatOps F) (opts : AnalysisOptions) (a : Aggregator ρ F)
    (record : AnnotatedRecord ρ F) : Aggregator ρ F :=
  let sampleLimit := if a.isSub ∨ opts.subClassfierType = .none then opts.sampleLimit else 1
  let value := record.metric ops
  let enabled := opts.enabledMetricTypeSet
  { a with
    count := a.count + 1
    failedCount := if record.failed then a.failedCount + 1 else a.failedCount
    side := record.side
    samplesMap := fun m =>
      if enabled m then addToSamples ops (a.samplesMap m) record (·.metric ops m) sampleLimit
      else a.samplesMap m
    percentileCalculators := fun m =>
      if enabled m then (a.percentileCalculators m).addValue ops (value m)
      else a.percentileCalculators m
    maxMap := fun m =>
      if enabled m then ops.toFloat32 (ops.max (a.maxMap m) (value m)) else a.maxMap m
    sumMap := fun m => if enabled m then ops.add (a.sumMap m) (value m) else a.sumMap m }

/-! ## The analyzer -/

/-- `Analyzer`: its classifiers, which fail or give an id, and the texts for people, where the kind of
classifier has one. -/
structure Analyzer (ρ F : Type) where
  opts : AnalysisOptions
  classfier : AnnotatedRecord ρ F → Option ClassId
  subClassfier : Option (AnnotatedRecord ρ F → Option ClassId)
  humanReadable : Option (AnnotatedRecord ρ F → GoString)
  subHumanReadable : Option (AnnotatedRecord ρ F → GoString)

/-- `class + "||" + subClassId`. -/
def fullClassId (classId subClassId : ClassId) : ClassId := classId ++ text "||" ++ subClassId

namespace Analyzer

variable (ops : FloatOps F) (a : Analyzer ρ F)

/-- A new aggregator for the record. -/
def create (classId : ClassId) (isSub : Bool) (record : AnnotatedRecord ρ F) : Aggregator ρ F :=
  let humanReadable := if isSub then a.subHumanReadable else a.humanReadable
  createAggregator ops a.opts ((humanReadable.map fun f => f record).getD []) classId isSub

/-- The aggregator under an id receives the record; where there is none it is made before. -/
def receiveUnder (aggregators : Table ClassId (Aggregator ρ F)) (classId : ClassId) (isSub : Bool)
    (record : AnnotatedRecord ρ F) : Table ClassId (Aggregator ρ F) :=
  let aggregator :=
    match aggregators.lookup classId with
    | some aggregator => aggregator
    | none => a.create ops classId isSub record
  aggregators.insert classId (aggregator.receive ops a.opts record)

/-- `analyze`. -/
def analyze (aggregators : Table ClassId (Aggregator ρ F)) (record : AnnotatedRecord ρ F) :
    Table ClassId (Aggregator ρ F) :=
  match a.classfier record with
  | none => aggregators
  | some classId =>
      let aggregators := a.receiveUnder ops aggregators classId false record
      match a.subClassfier with
      | none => aggregators
      | some subClassfier =>
          match subClassfier record with
          | none => aggregators
          | some subClassId =>
              a.receiveUnder ops aggregators (fullClassId classId subClassId) true record

/-- The aggregators after the records, from none. -/
def analyzeAll (records : List (AnnotatedRecord ρ F)) : Table ClassId (Aggregator ρ F) :=
  records.foldl (a.analyze ops) ∅

end Analyzer

/-- `harvest`, in some order. -/
def harvest (aggregators : Table ClassId (Aggregator ρ F)) : List (ConnStat ρ F) :=
  aggregators.entries.map Sigma.snd

/-- `updateConnStats` before it sorts: what is shown of all classes, and of the chosen one, where the
empty id is no choice. -/
def updateConnStats (connstats : List (ConnStat ρ F)) (curClassId : ClassId) :
    List (ConnStat ρ F) × List (ConnStat ρ F) :=
  connstats.foldl
    (fun (topStats, subStats) each =>
      if each.isSub ∧ curClassId ≠ [] then
        if curClassId ++ text "||" <+: each.classId then (topStats, subStats ++ [each])
        else (topStats, subStats)
      else if !each.isSub then (topStats ++ [each], subStats)
      else (topStats, subStats))
    ([], [])

/-! ## What is owed -/

section Owed

variable (ops : FloatOps F) (a : Analyzer ρ F)

/-- The aggregator has the counts and the sums of the records. -/
structure Tallies (opts : AnalysisOptions) (o : ConnStat ρ F) (records : List (AnnotatedRecord ρ F)) :
    Prop where
  count : o.count = records.length
  failedCount : o.failedCount = records.countP AnnotatedRecord.failed
  sumMap : ∀ m, o.sumMap m
    = if opts.enabledMetricTypeSet m then
        records.foldl (fun sum record => ops.add sum (record.metric ops m)) ops.zero
      else ops.zero

/-- The sub-class of a record, if its class has one. -/
def Analyzer.subClass (r : AnnotatedRecord ρ F) : Option ClassId := a.subClassfier.bind (· r)

/-- The record is in the sub-class of the class. -/
def Analyzer.InSub (classId subClassId : ClassId) (r : AnnotatedRecord ρ F) : Prop :=
  a.classfier r = some classId ∧ a.subClass r = some subClassId

instance (classId subClassId : ClassId) (r : AnnotatedRecord ρ F) :
    Decidable (a.InSub classId subClassId r) :=
  inferInstanceAs (Decidable (_ ∧ _))

/-- The aggregators shown for a class partition its records by sub-class. -/
structure Partitions (records : List (AnnotatedRecord ρ F)) (classId : ClassId)
    (shown : List (ConnStat ρ F)) : Prop where
  sound : ∀ o ∈ shown, ∃ subClassId, o.classId = fullClassId classId subClassId
    ∧ (∃ r ∈ records, a.InSub classId subClassId r)
    ∧ Tallies ops a.opts o (records.filter fun r => a.InSub classId subClassId r)
  complete : ∀ subClassId, (∃ r ∈ records, a.InSub classId subClassId r) →
    ∃ o ∈ shown, o.classId = fullClassId classId subClassId
  once : (shown.map ConnStat.classId).Nodup

/-- The aggregators conserve the records: those of the classes, all of them together, and those shown
for each class. -/
structure Conserved (records : List (AnnotatedRecord ρ F)) (stats : List (ConnStat ρ F)) : Prop where
  classes : ∀ o ∈ stats, o.isSub = false →
    Tallies ops a.opts o (records.filter fun r => a.classfier r = some o.classId)
  total : ((stats.filter fun o => !o.isSub).map ConnStat.count).sum
    = records.countP fun r => (a.classfier r).isSome
  subs : ∀ classId, (∃ r ∈ records, a.classfier r = some classId) →
    Partitions ops a records classId (updateConnStats stats classId).2

/-- The ids are apart. With a class and a sub-class of the records, perhaps of another class: the id
of the one is not the full id of the other; an empty class has no sub-class; and what starts with the
one is of it. -/
def Apart (records : List (AnnotatedRecord ρ F)) : Prop :=
  ∀ r ∈ records, ∀ classId, a.classfier r = some classId →
    ∀ r' ∈ records, ∀ classId' subClassId', a.InSub classId' subClassId' r' →
      fullClassId classId' subClassId' ≠ classId ∧ (classId = [] → classId' ≠ [])
        ∧ (classId ≠ [] → classId ++ text "||" <+: fullClassId classId' subClassId' →
          classId' = classId)

end Owed

/-! ## Deliveries -/

/-- A record on its way to the aggregator under an id. -/
structure Delivery (ρ F : Type) where
  classId : ClassId
  isSub : Bool
  record : AnnotatedRecord ρ F

namespace Analyzer

variable (ops : FloatOps F) (a : Analyzer ρ F)

/-- The full id of the sub-class of a record. -/
def fullId (r : AnnotatedRecord ρ F) : Option ClassId :=
  (a.classfier r).bind fun classId => (a.subClass r).map (fullClassId classId)

/-- A record is delivered to its class, and to its sub-class. -/
def deliveries (r : AnnotatedRecord ρ F) : List (Delivery ρ F) :=
  ((a.classfier r).toList.map fun classId => ⟨classId, false, r⟩)
    ++ (a.fullId r).toList.map fun classId => ⟨classId, true, r⟩

def fresh (d : Delivery ρ F) : Aggregator ρ F := a.create ops d.classId d.isSub d.record

def accept (o : Aggregator ρ F) (d : Delivery ρ F) : Aggregator ρ F :=
  o.receive ops a.opts d.record

theorem receiveUnder_eq (aggregators : Table ClassId (Aggregator ρ F)) (d : Delivery ρ F) :
    a.receiveUnder ops aggregators d.classId d.isSub d.record
      = deliver Delivery.classId (a.fresh ops) (a.accept ops) aggregators d := by
  unfold receiveUnder deliver
  rcases aggregators.lookup d.classId with _ | o <;> rfl

theorem analyze_eq (aggregators : Table ClassId (Aggregator ρ F)) (r : AnnotatedRecord ρ F) :
    a.analyze ops aggregators r
      = deliverAll Delivery.classId (a.fresh ops) (a.accept ops) aggregators (a.deliveries r) := by
  unfold analyze deliveries fullId subClass
  rcases a.classfier r with _ | classId
  · rfl
  · have htop := a.receiveUnder_eq ops aggregators ⟨classId, false, r⟩
    dsimp only at htop ⊢
    rw [htop]
    rcases a.subClassfier with _ | subClassfier
    · rfl
    · dsimp only [Option.bind_some]
      rcases subClassfier r with _ | subClassId
      · rfl
      · exact a.receiveUnder_eq ops _ ⟨fullClassId classId subClassId, true, r⟩

theorem analyzeAll_eq (records : List (AnnotatedRecord ρ F)) :
    a.analyzeAll ops records
      = deliverAll Delivery.classId (a.fresh ops) (a.accept ops) ∅
          (records.flatMap a.deliveries) := by
  unfold analyzeAll deliverAll
  rw [List.foldl_flatMap]
  congr 1
  funext aggregators r
  exact a.analyze_eq ops aggregators r

/-- What is delivered to an id. -/
def delivered (records : List (AnnotatedRecord ρ F)) (classId : ClassId) : List (Delivery ρ F) :=
  (records.flatMap a.deliveries).filter fun d => d.classId = classId

theorem delivery_records (dest : Option ClassId) (r : AnnotatedRecord ρ F) (classId : ClassId)
    (isSub kind : Bool) :
    (((dest.toList.map fun classId => (⟨classId, isSub, r⟩ : Delivery ρ F)).filter
        fun d => d.classId = classId).filter fun d => d.isSub = kind).map Delivery.record
      = if isSub = kind ∧ dest = some classId then [r] else [] := by
  rcases dest with _ | id
  · simp
  · by_cases hid : id = classId
    · by_cases hkind : isSub = kind
      · simp [hid, hkind]
      · simp [hid, hkind]
    · simp [hid]

/-- The id a record is delivered to, as one of a class or of a sub-class. -/
def idOf (kind : Bool) (r : AnnotatedRecord ρ F) : Option ClassId :=
  if kind then a.fullId r else a.classfier r

/-- The records of the deliveries, by their kind. -/
theorem delivered_records (records : List (AnnotatedRecord ρ F)) (classId : ClassId) (kind : Bool) :
    ((a.delivered records classId).filter fun d => d.isSub = kind).map Delivery.record
      = records.filter fun r => a.idOf kind r = some classId := by
  unfold delivered
  induction records with
  | nil => rfl
  | cons r records ih =>
      have hone : (((a.deliveries r).filter fun d => d.classId = classId).filter
          fun d => d.isSub = kind).map Delivery.record
          = if a.idOf kind r = some classId then [r] else [] := by
        unfold deliveries idOf
        rw [List.filter_append, List.filter_append, List.map_append, delivery_records,
          delivery_records]
        rcases kind with _ | _ <;> simp
      rw [List.flatMap_cons, List.filter_append, List.filter_append, List.map_append, ih, hone]
      by_cases hid : a.idOf kind r = some classId
      · simp [hid]
      · simp [hid]

end Analyzer

/-! ## The aggregators of a run -/

section Run

variable {ops : FloatOps F} {a : Analyzer ρ F} {records : List (AnnotatedRecord ρ F)}
  {classId : ClassId} {o : ConnStat ρ F}

theorem Tallies.create (isSub : Bool) (r : AnnotatedRecord ρ F) :
    Tallies ops a.opts (a.create ops classId isSub r) [] := by
  refine ⟨rfl, rfl, ?_⟩
  intro m
  exact (ite_self _).symm

/-- **One step**: an aggregator that receives a record has it in its counts. -/
theorem Tallies.receive (h : Tallies ops a.opts o records) (r : AnnotatedRecord ρ F) :
    Tallies ops a.opts (o.receive ops a.opts r) (records ++ [r]) := by
  refine ⟨?_, ?_, ?_⟩
  · rw [List.length_append, ← h.count]
    rfl
  · rw [List.countP_append, ← h.failedCount, List.countP_singleton]
    unfold ConnStat.receive
    dsimp only
    split <;> rfl
  · intro m
    have hsum := h.sumMap m
    unfold ConnStat.receive
    dsimp only
    rw [List.foldl_append]
    split
    · rename_i henabled
      rw [if_pos henabled] at hsum
      rw [hsum]
      rfl
    · rename_i hdisabled
      rw [if_neg hdisabled] at hsum
      exact hsum

/-- The aggregators of some records, and what was delivered to them. -/
theorem lookup_analyzeAll :
    (a.analyzeAll ops records).lookup classId
      = grouped (a.fresh ops) (a.accept ops) (a.delivered records classId) := by
  rw [a.analyzeAll_eq, lookup_deliverAll]
  rfl

/-- **An aggregator** has its id, is of the kind of the first delivery, and counts the records of
all of them. -/
theorem aggregator_spec (h : (a.analyzeAll ops records).lookup classId = some o) :
    o.classId = classId
      ∧ (∃ first ∈ a.delivered records classId, first.isSub = o.isSub)
      ∧ Tallies ops a.opts o ((a.delivered records classId).map Delivery.record) := by
  rw [lookup_analyzeAll] at h
  have hdelivered : (∃ first ∈ a.delivered records classId,
        first.classId = o.classId ∧ first.isSub = o.isSub)
      ∧ Tallies ops a.opts o ((a.delivered records classId).map Delivery.record) := by
    refine grouped_induction (P := fun ds (o : Aggregator ρ F) =>
      (∃ first ∈ ds, first.classId = o.classId ∧ first.isSub = o.isSub)
        ∧ Tallies ops a.opts o (ds.map Delivery.record)) ?_ ?_ h
    · intro d
      exact ⟨⟨d, List.mem_singleton_self d, rfl, rfl⟩, (Tallies.create d.isSub d.record).receive _⟩
    · rintro ds o d ⟨⟨first, hmem, hfirst⟩, htallies⟩
      refine ⟨⟨first, List.mem_append_left _ hmem, hfirst⟩, ?_⟩
      rw [List.map_append]
      exact htallies.receive _
  obtain ⟨⟨first, hmem, hid, hkind⟩, htallies⟩ := hdelivered
  have hfirst := of_decide_eq_true (List.mem_filter.mp hmem).2
  exact ⟨hid.symm.trans hfirst, ⟨first, hmem, hkind⟩, htallies⟩

/-- An id has an aggregator if something was delivered to it. -/
theorem aggregator_exists {kind : Bool} {r : AnnotatedRecord ρ F} (hr : r ∈ records)
    (hid : a.idOf kind r = some classId) :
    ∃ o, (a.analyzeAll ops records).lookup classId = some o := by
  rw [← Option.isSome_iff_exists, Option.isSome_iff_ne_none, lookup_analyzeAll, ne_eq,
    grouped_eq_none]
  intro hnone
  have hmem : r ∈ records.filter fun r => a.idOf kind r = some classId :=
    List.mem_filter.mpr ⟨hr, decide_eq_true hid⟩
  rw [← a.delivered_records, hnone] at hmem
  exact absurd hmem List.not_mem_nil

/-- The kind of an aggregator is one that records were delivered as. -/
theorem aggregator_kind (h : (a.analyzeAll ops records).lookup classId = some o) :
    ∃ r ∈ records, a.idOf o.isSub r = some classId := by
  obtain ⟨-, ⟨first, hmem, hkind⟩, -⟩ := aggregator_spec h
  have hrecord : first.record ∈ records.filter fun r => a.idOf o.isSub r = some classId := by
    rw [← a.delivered_records]
    exact List.mem_map_of_mem (List.mem_filter.mpr ⟨hmem, decide_eq_true hkind⟩)
  obtain ⟨hr, hid⟩ := List.mem_filter.mp hrecord
  exact ⟨first.record, hr, of_decide_eq_true hid⟩

/-- The records of an id that is of one kind only. -/
theorem delivered_of_kind {kind : Bool} (hother : ∀ r ∈ records, a.idOf (!kind) r ≠ some classId) :
    (a.delivered records classId).map Delivery.record
      = records.filter fun r => a.idOf kind r = some classId := by
  rw [← a.delivered_records, List.filter_eq_self.mpr]
  intro d hd
  by_contra hkind
  have hnot : d.isSub = !kind := by
    rcases hsub : d.isSub with _ | _ <;> rcases kind with _ | _ <;> simp_all
  have hrecord : d.record ∈ records.filter fun r => a.idOf (!kind) r = some classId := by
    rw [← a.delivered_records]
    exact List.mem_map_of_mem (List.mem_filter.mpr ⟨hd, decide_eq_true hnot⟩)
  obtain ⟨hr, hid⟩ := List.mem_filter.mp hrecord
  exact hother _ hr (of_decide_eq_true hid)

/-- How many were delivered to an id. -/
theorem delivered_length (kind : Bool) :
    (a.delivered records classId).length
      = (records.filter fun r => a.idOf kind r = some classId).length
        + (records.filter fun r => a.idOf (!kind) r = some classId).length := by
  rw [← a.delivered_records, ← a.delivered_records, List.length_map, List.length_map,
    ← List.countP_eq_length_filter, ← List.countP_eq_length_filter,
    List.length_eq_countP_add_countP (fun d => decide (d.isSub = kind))]
  congr 1
  refine List.countP_congr ?_
  intro d _
  rcases d.isSub with _ | _ <;> rcases kind with _ | _ <;> decide

/-! ## What is shown -/

/-- What is shown, as two filters. -/
theorem updateConnStats_eq (stats : List (ConnStat ρ F)) (curClassId : ClassId) :
    updateConnStats stats curClassId
      = (stats.filter fun o => !o.isSub,
        stats.filter fun o =>
          o.isSub ∧ curClassId ≠ [] ∧ curClassId ++ text "||" <+: o.classId) := by
  unfold updateConnStats
  induction stats using List.reverseRecOn with
  | nil => rfl
  | append_singleton stats o ih =>
      rw [List.foldl_concat, ih, List.filter_append, List.filter_append]
      dsimp only
      by_cases hsub : o.isSub = true
      · by_cases hcur : curClassId = []
        · simp [hsub, hcur]
        · by_cases hprefix : curClassId ++ text "||" <+: o.classId
          · simp [hsub, hcur, hprefix]
          · simp [hsub, hcur, hprefix]
      · simp [hsub]

theorem mem_shown {stats : List (ConnStat ρ F)} {curClassId : ClassId} :
    o ∈ (updateConnStats stats curClassId).2
      ↔ o ∈ stats ∧ o.isSub = true ∧ curClassId ≠ []
        ∧ curClassId ++ text "||" <+: o.classId := by
  rw [updateConnStats_eq, List.mem_filter, decide_eq_true_eq]

theorem mem_harvest : o ∈ harvest (a.analyzeAll ops records)
    ↔ (a.analyzeAll ops records).lookup o.classId = some o := by
  unfold harvest
  rw [List.mem_map]
  constructor
  · rintro ⟨⟨id, o⟩, hmem, rfl⟩
    have hlookup := AList.mem_lookup_iff.mpr hmem
    rw [(aggregator_spec hlookup).1]
    exact hlookup
  · intro hlookup
    exact ⟨⟨o.classId, o⟩, AList.mem_lookup_iff.mp hlookup, rfl⟩

/-- The ids are all different. -/
theorem harvest_nodup : ((harvest (a.analyzeAll ops records)).map ConnStat.classId).Nodup := by
  have hids : (harvest (a.analyzeAll ops records)).map ConnStat.classId
      = (a.analyzeAll ops records).keys := by
    unfold harvest AList.keys List.keys
    rw [List.map_map]
    refine List.map_congr_left ?_
    rintro ⟨id, o⟩ hmem
    exact (aggregator_spec (AList.mem_lookup_iff.mpr hmem)).1
  rw [hids]
  exact AList.keys_nodup _

/-- The full id of a record is that of its class and its sub-class. -/
theorem idOf_true_iff {r : AnnotatedRecord ρ F} :
    a.idOf true r = some classId
      ↔ ∃ id subId, a.InSub id subId r ∧ fullClassId id subId = classId := by
  unfold Analyzer.idOf Analyzer.fullId Analyzer.InSub
  rcases a.classfier r with _ | id <;> rcases a.subClass r with _ | subId <;> simp

/-- The class of an id is what it starts with. -/
theorem prefix_fullClassId (id subId : ClassId) : id ++ text "||" <+: fullClassId id subId :=
  List.prefix_append _ _

theorem fullClassId_inj {id subId subId' : ClassId}
    (h : fullClassId id subId = fullClassId id subId') : subId = subId' := List.append_cancel_left h

/-! ## Conservation -/

/-- No class of the records has the full id of a record. -/
def NoClash (a : Analyzer ρ F) (records : List (AnnotatedRecord ρ F)) : Prop :=
  ∀ classId, (∃ r ∈ records, a.idOf false r = some classId) →
    ∀ r ∈ records, a.idOf true r ≠ some classId

theorem Apart.noClash (h : Apart a records) : NoClash a records := by
  rintro classId ⟨r, hr, hclass⟩ r' hr' hfull
  obtain ⟨id, subId, hin, hid⟩ := idOf_true_iff.mp hfull
  exact (h r hr classId hclass r' hr' id subId hin).1 hid

/-- Without a clash an aggregator has one kind of records, and it counts them. -/
theorem NoClash.tallies (h : NoClash a records)
    (hlookup : (a.analyzeAll ops records).lookup classId = some o) :
    Tallies ops a.opts o (records.filter fun r => a.idOf o.isSub r = some classId) := by
  obtain ⟨r, hr, hid⟩ := aggregator_kind hlookup
  have hother : ∀ r ∈ records, a.idOf (!o.isSub) r ≠ some classId := by
    intro r' hr' hid'
    rcases hkind : o.isSub with _ | _
    · rw [hkind] at hid hid'
      exact h classId ⟨r, hr, hid⟩ r' hr' hid'
    · rw [hkind] at hid hid'
      exact h classId ⟨r', hr', hid'⟩ r hr hid
  rw [← delivered_of_kind hother]
  exact (aggregator_spec hlookup).2.2

/-- Without a clash the aggregator of an id is of the kind that its records are. -/
theorem NoClash.kind (h : NoClash a records) (ops : FloatOps F) (kind : Bool)
    {r : AnnotatedRecord ρ F} (hr : r ∈ records) (hid : a.idOf kind r = some classId) :
    ∃ o ∈ harvest (a.analyzeAll ops records), o.classId = classId ∧ o.isSub = kind := by
  obtain ⟨o, hlookup⟩ : ∃ o, (a.analyzeAll ops records).lookup classId = some o :=
    aggregator_exists hr hid
  have hclassId := (aggregator_spec hlookup).1
  refine ⟨o, mem_harvest.mpr (by rw [hclassId]; exact hlookup), hclassId, ?_⟩
  obtain ⟨r', hr', hid'⟩ := aggregator_kind hlookup
  rcases hkind : o.isSub with _ | _ <;> rcases kind with _ | _
  · rfl
  · rw [hkind] at hid'
    exact absurd hid (h classId ⟨r', hr', hid'⟩ r hr)
  · rw [hkind] at hid'
    exact absurd hid' (h classId ⟨r, hr, hid⟩ r' hr')
  · rfl

/-- The counts of all classes add up to the records that have one of them. -/
theorem sum_count_eq
    (hclasses : ∀ o ∈ harvest (a.analyzeAll ops records), o.isSub = false →
      Tallies ops a.opts o (records.filter fun r => a.classfier r = some o.classId)) :
    (((harvest (a.analyzeAll ops records)).filter fun o => !o.isSub).map ConnStat.count).sum
      = records.countP fun r => (a.classfier r).any fun id =>
          id ∈ ((harvest (a.analyzeAll ops records)).filter fun o => !o.isSub).map
            ConnStat.classId := by
  have hnodup : (((harvest (a.analyzeAll ops records)).filter fun o => !o.isSub).map
      ConnStat.classId).Nodup :=
    harvest_nodup.sublist (List.filter_sublist.map ConnStat.classId)
  have hcounts : ((harvest (a.analyzeAll ops records)).filter fun o => !o.isSub).map ConnStat.count
      = (((harvest (a.analyzeAll ops records)).filter fun o => !o.isSub).map ConnStat.classId).map
          fun id => records.countP fun r => a.classfier r = some id := by
    rw [List.map_map]
    refine List.map_congr_left ?_
    intro o ho
    obtain ⟨hmem, hkind⟩ := List.mem_filter.mp ho
    rw [(hclasses o hmem (by simpa using hkind)).count, ← List.countP_eq_length_filter]
    rfl
  rw [hcounts, sum_countP a.classfier records hnodup]
  refine List.countP_congr ?_
  intro r _
  rcases a.classfier r with _ | id
  · simp
  · simp

theorem conserved_of_apart (h : Apart a records) :
    Conserved ops a records (harvest (a.analyzeAll ops records)) := by
  have hclash := h.noClash
  have hclasses : ∀ o ∈ harvest (a.analyzeAll ops records), o.isSub = false →
      Tallies ops a.opts o (records.filter fun r => a.classfier r = some o.classId) := by
    intro o ho hkind
    have htallies := hclash.tallies (mem_harvest.mp ho)
    rw [hkind] at htallies
    exact htallies
  refine ⟨hclasses, ?_, ?_⟩
  · rw [sum_count_eq hclasses]
    refine List.countP_congr ?_
    intro r hr
    rcases hclass : a.classfier r with _ | id
    · simp
    · obtain ⟨o, ho, hid, hkind⟩ := hclash.kind ops false hr hclass
      refine iff_of_true (decide_eq_true ?_) rfl
      exact List.mem_map.mpr ⟨o, List.mem_filter.mpr ⟨ho, by simp [hkind]⟩, hid⟩
  · rintro classId ⟨r, hr, hclass⟩
    have hempty := h r hr classId hclass
    refine ⟨?_, ?_, ?_⟩
    · intro o ho
      obtain ⟨hmem, hkind, hne, hprefix⟩ := mem_shown.mp ho
      have hlookup := mem_harvest.mp hmem
      obtain ⟨r', hr', hid'⟩ := aggregator_kind hlookup
      rw [hkind] at hid'
      obtain ⟨id, subId, hin, hfull⟩ := idOf_true_iff.mp hid'
      rw [← hfull] at hprefix
      obtain rfl := (hempty r' hr' id subId hin).2.2 hne hprefix
      refine ⟨subId, hfull.symm, ⟨r', hr', hin⟩, ?_⟩
      have htallies := hclash.tallies hlookup
      rw [hkind, ← hfull] at htallies
      have hsame : (records.filter fun r => a.idOf true r = some (fullClassId id subId))
          = records.filter fun r => a.InSub id subId r := by
        refine List.filter_congr ?_
        intro r₁ hr₁
        refine decide_eq_decide.mpr ?_
        rw [idOf_true_iff]
        constructor
        · rintro ⟨id₁, subId₁, hin₁, hfull₁⟩
          have hprefix₁ : id ++ text "||" <+: fullClassId id₁ subId₁ := by
            rw [hfull₁]
            exact prefix_fullClassId id subId
          obtain rfl := (hempty r₁ hr₁ id₁ subId₁ hin₁).2.2 hne hprefix₁
          rw [fullClassId_inj hfull₁] at hin₁
          exact hin₁
        · intro hin₁
          exact ⟨id, subId, hin₁, rfl⟩
      rw [hsame] at htallies
      exact htallies
    · rintro subId ⟨r', hr', hin⟩
      have hfull := idOf_true_iff.mpr ⟨classId, subId, hin, rfl⟩
      obtain ⟨o, ho, hid, hkind⟩ := hclash.kind ops true hr' hfull
      have hne : classId ≠ [] := fun hnil => (hempty r' hr' classId subId hin).2.1 hnil hnil
      refine ⟨o, mem_shown.mpr ⟨ho, hkind, hne, ?_⟩, hid⟩
      rw [hid]
      exact prefix_fullClassId classId subId
    · rw [updateConnStats_eq]
      exact harvest_nodup.sublist (List.filter_sublist.map ConnStat.classId)

/-- Where the classes are right and add up, each class of the records is one of theirs. -/
theorem Conserved.class_shown (h : Conserved ops a records (harvest (a.analyzeAll ops records)))
    {r : AnnotatedRecord ρ F} (hr : r ∈ records) (hclass : a.classfier r = some classId) :
    ∃ o ∈ harvest (a.analyzeAll ops records), o.isSub = false ∧ o.classId = classId := by
  have htotal := h.total
  rw [sum_count_eq h.classes, List.countP_eq_length_filter, List.countP_eq_length_filter] at htotal
  have hshown := of_length_filter_le (by
    intro r' hany
    rcases hclass' : a.classfier r' with _ | id
    · rw [hclass'] at hany
      cases hany
    · rfl) (le_of_eq htotal.symm) hr (by rw [hclass]; rfl)
  rw [hclass, Option.any_some, decide_eq_true_eq, List.mem_map] at hshown
  obtain ⟨o, ho, hid⟩ := hshown
  obtain ⟨hmem, hkind⟩ := List.mem_filter.mp ho
  exact ⟨o, hmem, by simpa using hkind, hid⟩

/-- A class that clashes is counted with the records of the sub-class. -/
theorem Conserved.noClash (h : Conserved ops a records (harvest (a.analyzeAll ops records))) :
    NoClash a records := by
  rintro classId ⟨r, hr, hclass⟩ r' hr' hfull
  obtain ⟨o, ho, hkind, hid⟩ := h.class_shown hr hclass
  have hcount := (h.classes o ho hkind).count
  have hdelivered := (aggregator_spec (mem_harvest.mp ho)).2.2.count
  rw [List.length_map, delivered_length false, hid] at hdelivered
  rw [hid] at hcount
  have hsub : r' ∈ records.filter fun r => a.idOf true r = some classId :=
    List.mem_filter.mpr ⟨hr', decide_eq_true hfull⟩
  have hpos := List.length_pos_of_mem hsub
  have htop : (records.filter fun r => a.classfier r = some classId).length
      = (records.filter fun r => a.idOf false r = some classId).length := rfl
  change _ = _ + (records.filter fun r => a.idOf true r = some classId).length at hdelivered
  omega

theorem apart_of_conserved (h : Conserved ops a records (harvest (a.analyzeAll ops records))) :
    Apart a records := by
  have hclash := h.noClash
  intro r hr classId hclass r' hr' classId' subClassId' hin
  have hfull := idOf_true_iff.mpr ⟨classId', subClassId', hin, rfl⟩
  have hshown := h.subs classId ⟨r, hr, hclass⟩
  refine ⟨?_, ?_, ?_⟩
  · rintro rfl
    exact hclash _ ⟨r, hr, hclass⟩ r' hr' hfull
  · rintro rfl rfl
    -- For the empty class nothing is shown.
    obtain ⟨o, ho, -⟩ := hshown.complete subClassId' ⟨r', hr', hin⟩
    exact (mem_shown.mp ho).2.2.1 rfl
  · intro hne hprefix
    -- The aggregator of the sub-class is shown for the class, so it is one of its sub-classes, and
    -- all of its records are in that.
    obtain ⟨o, ho, hid, hkind⟩ := hclash.kind ops true hr' hfull
    rw [← hid] at hprefix
    obtain ⟨subClassId, hid', -, htallies⟩ :=
      hshown.sound o (mem_shown.mpr ⟨ho, hkind, hne, hprefix⟩)
    have hcount := (hclash.tallies (mem_harvest.mp ho)).count
    rw [htallies.count, hkind, hid'] at hcount
    rw [hid'] at hid
    have hmem : decide (a.InSub classId subClassId r') = true := by
      refine of_length_filter_le ?_ (le_of_eq hcount.symm) hr' ?_
      · intro r₁ hin₁
        exact decide_eq_true (idOf_true_iff.mpr ⟨classId, subClassId, of_decide_eq_true hin₁, rfl⟩)
      · rw [hid]
        exact decide_eq_true hfull
    have hclass' := (of_decide_eq_true hmem).1
    rw [hin.1] at hclass'
    exact Option.some.inj hclass'

end Run

/-- **Aggregation conserves records** just if their ids are apart. -/
theorem conserved_iff (ops : FloatOps F) (a : Analyzer ρ F)
    (records : List (AnnotatedRecord ρ F)) :
    Conserved ops a records (harvest (a.analyzeAll ops records)) ↔ Apart a records :=
  ⟨apart_of_conserved, conserved_of_apart⟩

/-! ## Two paths that clash -/

/-- Whole numbers, in place of floating point. -/
def wholeNumbers : FloatOps ℤ :=
  { zero := 0, add := (· + ·), max := max, le := fun x y => x ≤ y
    compare := fun x y => if x < y then -1 else if y < x then 1 else 0
    ofInt := id, toFloat32 := id, nanoToMills := fun x => x / 1000000 }

/-- Requests by their path, and within it by the remote address. -/
def byPathAndAddress : Analyzer (GoString × GoString) ℤ :=
  { opts := { enabledMetricTypeSet := fun m => m = .totalDuration, sampleLimit := 10
              classfierType := .httpPath, subClassfierType := .remoteIp }
    classfier := fun r => some r.desc.1
    subClassfier := some fun r => some r.desc.2
    humanReadable := some fun r => r.desc.1
    subHumanReadable := some fun r => r.desc.2 }

def requestOf (path address : String) : AnnotatedRecord (GoString × GoString) ℤ :=
  { desc := (text path, text address), side := .serverSide, status := some .successStatus
    reqSize := 20, respSize := 40, totalDuration := 3000000, blackBoxDuration := 2000000
    readFromSocketBufferDuration := 1000000 }

/-- The path of the second request is that of the first, two bars and its address: the aggregator of
the sub-class receives it, and there is none for its class. -/
theorem clashing_path_uncounted :
    ¬Conserved wholeNumbers byPathAndAddress
        [requestOf "/a" "10.0.0.1", requestOf "/a||10.0.0.1" "10.0.0.2"]
        (harvest (byPathAndAddress.analyzeAll wholeNumbers
          [requestOf "/a" "10.0.0.1", requestOf "/a||10.0.0.1" "10.0.0.2"])) := by
  intro h
  have htotal := h.total
  revert htotal
  decide +kernel

end Kyanos.Analysis
