/-
`agent/conn/record_processor.go`: the queue that holds finished records back for a
second before they are submitted.

A tick sorts the queue by the time of the *request*, submits every record whose
*response* is old enough, and then cuts the queue behind the last record it
submitted. The two orders need not agree. A request that came first and was answered
late stands before the submitted ones and is cut off with them, without having been
submitted: it is lost.

The history of the queue is kept beside it, what was received and what was submitted
at which tick. `onTick_eq` says what one tick does to a sorted queue, and
`records_conserved_iff` that nothing is ever lost exactly when no tick meets a young
record in front of an old one.
-/
import Kyanos.Common

set_option autoImplicit false

open GoNum

namespace Kyanos

/-- A finished record with its connection. The processor reads the two times; `payload`
is the rest. -/
structure RecordWithConn (π : Type) where
  requestTimestampNs : ℕ
  responseTimestampNs : ℕ
  payload : π
deriving DecidableEq, Repr

variable {π : Type}

/-- `slices.SortFunc` by the time of the request. The sort is not stable, so all that is
known of its result is that it is in order and has the same records. -/
structure SortFunc (π : Type) where
  sort : List (RecordWithConn π) → List (RecordWithConn π)
  perm : ∀ l, (sort l).Perm l
  sorted : ∀ l, (sort l).Pairwise (fun a b => a.requestTimestampNs ≤ b.requestTimestampNs)

namespace RecordsProcessor

/-! ## The loop -/

/-- The test of a tick: the response is at least a second old. -/
def isOld (now : ℤ) (record : RecordWithConn π) : Bool :=
  float64 (float64 now - nanoToMills record.responseTimestampNs) ≥ 1000

/-- The loop of a tick over the sorted queue: the last index submitted, and what was
passed to `submitRecord`. -/
def processLoop (now : ℤ) : List (RecordWithConn π) → ℤ → ℤ → List (RecordWithConn π) →
    ℤ × List (RecordWithConn π)
  | [], _, lastProcessIdx, submitted => (lastProcessIdx, submitted)
  | record :: rest, idx, lastProcessIdx, submitted =>
      if isOld now record then processLoop now rest (idx + 1) idx (submitted ++ [record])
      else processLoop now rest (idx + 1) lastProcessIdx submitted

/-- One tick: the queue it leaves, and the records it submits. -/
def onTick (srt : SortFunc π) (now : ℤ) (records : List (RecordWithConn π)) :
    List (RecordWithConn π) × List (RecordWithConn π) :=
  if records.length = 0 then (records, [])
  else
    let records := srt.sort records
    let (lastProcessIdx, submitted) := processLoop now records 0 (-1) []
    if lastProcessIdx ≥ 0 then (records.drop (lastProcessIdx + 1).toNat, submitted)
    else (records, submitted)

/-- The two channels `Run` selects from. -/
inductive Event (π : Type)
  | receive (record : RecordWithConn π)
  | tick (now : ℤ)

/-- The queue with its history: the records received, and those submitted with the time
of the tick that did it. -/
structure State (π : Type) where
  records : List (RecordWithConn π)
  received : List (RecordWithConn π)
  submitted : List (RecordWithConn π × ℤ)

/-- One round of the loop of `Run`. -/
def step (srt : SortFunc π) (s : State π) : Event π → State π
  | .receive r => { s with records := s.records ++ [r], received := s.received ++ [r] }
  | .tick now =>
      let (records, submitted) := onTick srt now s.records
      { s with
        records := records
        submitted := s.submitted ++ submitted.map (fun r => (r, now)) }

/-- The state after a list of events. -/
def after (srt : SortFunc π) (es : List (Event π)) : State π :=
  es.foldl (step srt) { records := [], received := [], submitted := [] }

theorem after_snoc (srt : SortFunc π) (es : List (Event π)) (e : Event π) :
    after srt (es ++ [e]) = step srt (after srt es) e := by
  unfold after
  rw [List.foldl_append]
  rfl

/-! ## What one tick does -/

/-- The queue up to the last old record, and the rest. -/
structure LastOld (now : ℤ) (xs ys : List (RecordWithConn π)) : Prop where
  last : ∀ x ∈ xs.getLast?, isOld now x = true
  rest : ∀ y ∈ ys, isOld now y = false

/-- A record in front does not change which one is the last old. -/
theorem LastOld.cons {now : ℤ} {xs ys : List (RecordWithConn π)} (h : LastOld now xs ys)
    (hxs : xs ≠ []) (r : RecordWithConn π) : LastOld now (r :: xs) ys := by
  refine ⟨?_, h.rest⟩
  intro x hx
  apply h.last x
  rw [List.getLast?_cons] at hx
  cases hlast : xs.getLast? with
  | none => exact absurd (List.getLast?_eq_none_iff.mp hlast) hxs
  | some y =>
      rw [hlast] at hx
      exact hx

theorem LastOld.young {now : ℤ} {ys : List (RecordWithConn π)} (h : LastOld now [] ys)
    {r : RecordWithConn π} (hr : isOld now r = false) : LastOld now [] (r :: ys) := by
  refine ⟨by simp, ?_⟩
  intro y hy
  rcases List.mem_cons.mp hy with rfl | hy
  · exact hr
  · exact h.rest y hy

/-- The loop submits the old records and returns the index of the last one. -/
theorem processLoop_eq (now : ℤ) (l : List (RecordWithConn π)) :
    ∃ xs ys, l = xs ++ ys ∧ LastOld now xs ys ∧ ∀ idx lastProcessIdx submitted,
      processLoop now l idx lastProcessIdx submitted
        = (if xs = [] then lastProcessIdx else idx + xs.length - 1,
          submitted ++ xs.filter (isOld now)) := by
  induction l with
  | nil => exact ⟨[], [], rfl, ⟨by simp, by simp⟩, fun idx last sub => by simp [processLoop]⟩
  | cons r l ih =>
      obtain ⟨xs, ys, rfl, hsplit, hloop⟩ := ih
      by_cases hxs : xs = []
      · subst hxs
        by_cases hr : isOld now r = true
        · -- The first record is the last old one.
          refine ⟨[r], ys, rfl, ⟨by simpa using hr, hsplit.rest⟩, ?_⟩
          intro idx last sub
          unfold processLoop
          rw [if_pos hr, hloop]
          simp [hr]
        · refine ⟨[], r :: ys, rfl, hsplit.young (Bool.eq_false_iff.mpr hr), ?_⟩
          intro idx last sub
          unfold processLoop
          rw [if_neg hr, hloop]
          simp
      · -- An old record comes later, so this one stands before the cut, old or not.
        refine ⟨r :: xs, ys, rfl, hsplit.cons hxs r, ?_⟩
        intro idx last sub
        have hidx : idx + 1 + (xs.length : ℤ) - 1 = idx + (r :: xs).length - 1 := by
          rw [List.length_cons]
          push_cast
          ring
        unfold processLoop
        rw [if_neg (List.cons_ne_nil r xs), ← hidx]
        by_cases hr : isOld now r = true
        · rw [if_pos hr, hloop, if_neg hxs, List.filter_cons_of_pos hr, List.append_assoc]
          rfl
        · rw [if_neg hr, hloop, if_neg hxs, List.filter_cons_of_neg hr]

/-- **One tick.** The sorted queue is cut behind its last old record; of the part before
the cut only the old records are submitted. -/
theorem onTick_eq (srt : SortFunc π) (now : ℤ) (records : List (RecordWithConn π)) :
    ∃ xs ys, srt.sort records = xs ++ ys ∧ LastOld now xs ys
      ∧ onTick srt now records = (ys, xs.filter (isOld now)) := by
  unfold onTick
  by_cases hempty : records.length = 0
  · have hnil := List.length_eq_zero_iff.mp hempty
    have hsort : srt.sort records = [] := by
      rw [hnil]
      exact (srt.perm []).eq_nil
    refine ⟨[], [], hsort, ⟨by simp, by simp⟩, ?_⟩
    rw [if_pos hempty, hnil]
    rfl
  · obtain ⟨xs, ys, hsort, hsplit, hloop⟩ := processLoop_eq now (srt.sort records)
    refine ⟨xs, ys, hsort, hsplit, ?_⟩
    rw [if_neg hempty]
    dsimp only
    rw [hloop]
    by_cases hxs : xs = []
    · subst hxs
      have hnone : ¬ ((-1 : ℤ) ≥ 0) := by decide
      rw [if_pos rfl, if_neg hnone, hsort]
      rfl
    · have hpos := List.length_pos_iff.mpr hxs
      rw [if_neg hxs, if_pos (by omega), hsort]
      rw [show (0 + (xs.length : ℤ) - 1 + 1).toNat = xs.length by omega, List.drop_left]
      rfl

/-! ## Records are not lost -/

/-- Of the sorted queue, no record that is young at the tick stands before an old one. -/
def Orderly (srt : SortFunc π) (now : ℤ) (records : List (RecordWithConn π)) : Prop :=
  (srt.sort records).Pairwise (fun a b => isOld now b = true → isOld now a = true)

/-- The order is right exactly when everything before the cut is submitted. -/
theorem orderly_iff {srt : SortFunc π} {now : ℤ} {records xs ys : List (RecordWithConn π)}
    (hsort : srt.sort records = xs ++ ys) (hsplit : LastOld now xs ys) :
    Orderly srt now records ↔ ∀ x ∈ xs, isOld now x = true := by
  unfold Orderly
  rw [hsort]
  constructor
  · intro hord x hx
    rcases List.eq_nil_or_concat xs with rfl | ⟨pre, r, rfl⟩
    · simp at hx
    · rw [List.concat_eq_append] at hord hx hsplit
      have hr := hsplit.last r (by simp)
      rcases List.mem_append.mp hx with hx | hx
      · exact (List.pairwise_append.mp (List.pairwise_append.mp hord).1).2.2 x hx r (by simp) hr
      · rw [List.mem_singleton.mp hx]
        exact hr
  · intro hall
    refine List.pairwise_append.mpr ⟨?_, ?_, fun x hx _ _ _ => hall x hx⟩
    · exact List.pairwise_of_forall_mem_list (fun x hx _ _ _ => hall x hx)
    · -- Behind the cut there is no old record.
      refine List.pairwise_of_forall_mem_list (fun _ _ y hy hold => ?_)
      rw [hsplit.rest y hy] at hold
      cases hold

/-- Every record received is queued or was submitted once, and it was old when it was. -/
structure Conserved (s : State π) : Prop where
  perm : s.received.Perm (s.submitted.map Prod.fst ++ s.records)
  old : ∀ x ∈ s.submitted, isOld x.2 x.1 = true

theorem Conserved.receive {srt : SortFunc π} {s : State π} (h : Conserved s)
    (r : RecordWithConn π) : Conserved (step srt s (.receive r)) := by
  refine ⟨?_, h.old⟩
  simp only [step]
  rw [← List.append_assoc]
  exact h.perm.append_right [r]

/-- **A tick loses nothing exactly when the queue is in order.** -/
theorem Conserved.tick_iff {srt : SortFunc π} {s : State π} (h : Conserved s) (now : ℤ) :
    Conserved (step srt s (.tick now)) ↔ Orderly srt now s.records := by
  obtain ⟨xs, ys, hsort, hsplit, htick⟩ := onTick_eq srt now s.records
  have hqueue : s.records.Perm (xs ++ ys) := hsort ▸ (srt.perm s.records).symm
  have hstep : step srt s (.tick now)
      = { s with
          records := ys
          submitted := s.submitted ++ (xs.filter (isOld now)).map (fun r => (r, now)) } := by
    simp only [step]
    rw [htick]
  have hnames : ((xs.filter (isOld now)).map (fun r => (r, now))).map Prod.fst
      = xs.filter (isOld now) := by
    rw [List.map_map]
    exact List.map_id _
  -- Both sides say that the records before the cut are all submitted.
  rw [orderly_iff hsort hsplit, hstep]
  constructor
  · intro hcons
    -- Counting: as many records are submitted as stand before the cut.
    have hlen := hcons.perm.length_eq
    have hlen' := h.perm.length_eq
    have hlenq := hqueue.length_eq
    simp only [List.map_append, hnames, List.length_append] at hlen hlen' hlenq
    have hall : (xs.filter (isOld now)).length = xs.length := by omega
    rw [List.length_filter_eq_length_iff] at hall
    exact hall
  · intro hall
    have hfilter : xs.filter (isOld now) = xs := List.filter_eq_self.mpr hall
    refine ⟨?_, ?_⟩
    · dsimp only
      rw [List.map_append, hnames, hfilter, List.append_assoc]
      exact h.perm.trans (hqueue.append_left _)
    · intro x hx
      rcases List.mem_append.mp hx with hx | hx
      · exact h.old x hx
      · obtain ⟨r, hr, rfl⟩ := List.mem_map.mp hx
        exact (List.mem_filter.mp hr).2

/-- After a tick no record that was old at it is queued, in order or not. -/
theorem none_old_after_tick (srt : SortFunc π) (s : State π) (now : ℤ) :
    ∀ r ∈ (step srt s (.tick now)).records, isOld now r = false := by
  obtain ⟨xs, ys, -, hsplit, htick⟩ := onTick_eq srt now s.records
  simp only [step]
  rw [htick]
  exact hsplit.rest

/-- **When no record is ever lost.** For every list of events: in every state on the way
every record received is queued or was submitted once, at a tick at which it was old, and
no tick leaves an old record queued, exactly when no tick meets, in the queue sorted by
request, a record younger than a second in front of one that is at least that old. -/
theorem records_conserved_iff (srt : SortFunc π) (es : List (Event π)) :
    ((∀ pre, pre <+: es → Conserved (after srt pre))
        ∧ ∀ pre now, pre ++ [.tick now] <+: es →
          ∀ r ∈ (after srt (pre ++ [.tick now])).records, isOld now r = false)
      ↔ ∀ pre now, pre ++ [.tick now] <+: es → Orderly srt now (after srt pre).records := by
  constructor
  · rintro ⟨hcons, -⟩ pre now hpre
    have hbefore := hcons pre ((List.prefix_append pre _).trans hpre)
    have hafter := hcons _ hpre
    rw [after_snoc] at hafter
    exact (hbefore.tick_iff now).mp hafter
  · intro hord
    refine ⟨?_, ?_⟩
    · -- Induction over the events so far, each tick by its own order.
      intro pre
      induction pre using List.reverseRecOn with
      | nil => exact fun _ => ⟨List.Perm.refl _, by simp [after]⟩
      | append_singleton pre e ih =>
          intro hpre
          have h := ih ((List.prefix_append pre _).trans hpre)
          rw [after_snoc]
          cases e with
          | receive r => exact h.receive r
          | tick now => exact (h.tick_iff now).mpr (hord pre now hpre)
    · intro pre now _
      rw [after_snoc]
      exact none_old_after_tick srt (after srt pre) now

/-- A stable sort by request. -/
def insertionSort : SortFunc ℕ where
  sort := List.insertionSort (fun a b => a.requestTimestampNs ≤ b.requestTimestampNs)
  perm := List.perm_insertionSort _
  sorted := List.pairwise_insertionSort _

/-- A request at 0 ms answered after 2000 ms. -/
def sampleSlow : RecordWithConn ℕ := ⟨0, 2000000000, 0⟩

/-- A request at 1 ms answered after 1000 ms. -/
def sampleFast : RecordWithConn ℕ := ⟨1000000, 1001000000, 1⟩

/-- At 2500 ms the second record is old and the first is not; the first is gone. -/
theorem slow_record_lost :
    (after insertionSort [.receive sampleSlow, .receive sampleFast, .tick 2500]).records = []
      ∧ (after insertionSort [.receive sampleSlow, .receive sampleFast, .tick 2500]).submitted
        = [(sampleFast, 2500)]
      ∧ ¬ Conserved (after insertionSort
        [.receive sampleSlow, .receive sampleFast, .tick 2500]) := by
  have hrecords : (after insertionSort
      [.receive sampleSlow, .receive sampleFast, .tick 2500]).records = [] := by decide +kernel
  have hsubmitted : (after insertionSort
      [.receive sampleSlow, .receive sampleFast, .tick 2500]).submitted
        = [(sampleFast, 2500)] := by decide +kernel
  refine ⟨hrecords, hsubmitted, ?_⟩
  intro hcons
  have hlen := hcons.perm.length_eq
  rw [hrecords, hsubmitted] at hlen
  exact absurd hlen (by decide)

end RecordsProcessor

end Kyanos
