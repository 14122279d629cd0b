/-
`agent/protocol/common.go`: `matchByTimestamp`, by which the HTTP and the Redis parser pair
requests with responses.

The loop looks at the two queues from the front. A request older than the response at the
front is remembered, in place of any other one remembered before, and taken off its queue;
otherwise the response is taken off, with the remembered request if there is one. So
between two responses only the last request survives, and the loop never remembers
anything across a response (`matchLoop_cons`): a response takes all requests before it off
the queue and is paired with the last of them. Everything below follows from that
equation.

`matchByTimestamp_pairs` is the declarative pairing, by positions in the two queues, and
`matchSchedule_records` says that nothing depends on when the matcher is called: a request
that arrives later is not older than a response that is already there, so a pair that can
be formed is final.
-/
import Kyanos.Common

set_option autoImplicit false

namespace Kyanos

/-- The method of `protocol.ParsedMessage` the matchers read. -/
class TimestampNs (μ : Type) where
  timestampNs : μ → ℕ

export TimestampNs (timestampNs)

/-- `protocol.FrameBase`, which the messages of every protocol embed. -/
structure FrameBase where
  timestampNs : ℕ
  byteSize : ℤ
  seq : ℕ
deriving DecidableEq, Repr

instance : TimestampNs FrameBase := ⟨FrameBase.timestampNs⟩

/-- `protocol.ResponseStatus`. -/
inductive ResponseStatus
  | noneStatus
  | successStatus
  | failStatus
  | unknownStatus
deriving DecidableEq, Repr

/-- `protocol.Record`; a side that is not set is `nil`. -/
structure Record (μ : Type) where
  req : Option μ
  resp : Option μ
  responseStatus : ResponseStatus
deriving DecidableEq, Repr

/-- `Record{}`. -/
def Record.zero {μ : Type} : Record μ :=
  { req := none, resp := none, responseStatus := .noneStatus }

section

variable {μ : Type} [TimestampNs μ]

/-! ## The loop -/

/-- The loop of `matchByTimestamp`: the records and what is left of the requests. It runs
until there is no response left. -/
def matchLoop (record : Record μ) (records : List (Record μ)) :
    List μ → List μ → List (Record μ) × List μ
  | reqStream, [] => (records, reqStream)
  | req :: reqStream, resp :: respStream =>
      if timestampNs req < timestampNs resp then
        matchLoop { record with req := some req } records reqStream (resp :: respStream)
      else if record.req.isSome then
        matchLoop Record.zero (records ++ [{ record with resp := some resp }])
          (req :: reqStream) respStream
      else matchLoop record records (req :: reqStream) respStream
  | [], resp :: respStream =>
      if record.req.isSome then
        matchLoop Record.zero (records ++ [{ record with resp := some resp }]) [] respStream
      else matchLoop record records [] respStream
termination_by reqStream respStream => reqStream.length + respStream.length

/-- What a call of the matcher leaves: its records and the two queues. -/
structure Matched (μ : Type) where
  records : List (Record μ)
  reqStream : List μ
  respStream : List μ
deriving DecidableEq, Repr

def matchByTimestamp (reqStream respStream : List μ) : Matched μ :=
  if reqStream.length = 0 ∨ respStream.length = 0 then ⟨[], reqStream, respStream⟩
  else
    let (records, reqStream) := matchLoop Record.zero [] reqStream respStream
    ⟨records, reqStream, []⟩

/-! ## One response -/

/-- The record of a pair. -/
def recordOf (req resp : μ) : Record μ :=
  { req := some req, resp := some resp, responseStatus := .noneStatus }

/-- The request is older than the response. -/
def older (resp req : μ) : Bool := timestampNs req < timestampNs resp

/-- The request the loop remembers. -/
def remembered (pending : Option μ) : Record μ :=
  { req := pending, resp := none, responseStatus := .noneStatus }

/-- **One response.** It takes the requests older than it off the queue and is paired with
the last of them, or with the one remembered when there are none. -/
theorem matchLoop_step (pending : Option μ) (records : List (Record μ)) (reqs resps : List μ)
    (resp : μ) :
    matchLoop (remembered pending) records reqs (resp :: resps)
      = matchLoop Record.zero
          (records ++ (((reqs.takeWhile (older resp)).getLast?.or pending).map
            (recordOf · resp)).toList)
          (reqs.dropWhile (older resp)) resps := by
  induction reqs generalizing pending with
  | nil =>
      rw [matchLoop]
      rcases pending with _ | q
      · simp [remembered, Record.zero]
      · simp [remembered, recordOf]
  | cons req reqs ih =>
      rw [matchLoop]
      by_cases hlt : timestampNs req < timestampNs resp
      · have hold : older resp req = true := decide_eq_true hlt
        rw [if_pos hlt]
        refine (ih (some req)).trans ?_
        rw [List.takeWhile_cons_of_pos hold, List.dropWhile_cons_of_pos hold, List.getLast?_cons]
        rcases (reqs.takeWhile (older resp)).getLast? with _ | q <;> simp
      · have hnot : ¬ older resp req = true := by simpa [older] using hlt
        rw [if_neg hlt, List.takeWhile_cons_of_neg hnot, List.dropWhile_cons_of_neg hnot]
        rcases pending with _ | q
        · simp [remembered, Record.zero]
        · simp [remembered, recordOf]

/-- The loop adds its records to the ones it is given. -/
theorem matchLoop_records (records : List (Record μ)) (reqs resps : List μ) :
    matchLoop Record.zero records reqs resps
      = (records ++ (matchLoop Record.zero [] reqs resps).1,
        (matchLoop Record.zero [] reqs resps).2) := by
  induction resps generalizing records reqs with
  | nil => simp [matchLoop]
  | cons resp resps ih =>
      have hzero : (Record.zero : Record μ) = remembered none := rfl
      rw [hzero, matchLoop_step, matchLoop_step, ih]
      rw [ih ([] ++ _)]
      simp only [List.nil_append, List.append_assoc]

/-- The records of a run of the loop. -/
def matchedRecords (reqs resps : List μ) : List (Record μ) :=
  (matchLoop Record.zero [] reqs resps).1

/-- The requests a run of the loop leaves. -/
def unmatched (reqs resps : List μ) : List μ := (matchLoop Record.zero [] reqs resps).2

@[simp] theorem matchedRecords_nil (reqs : List μ) : matchedRecords reqs [] = [] := by
  simp [matchedRecords, matchLoop]

@[simp] theorem unmatched_nil (reqs : List μ) : unmatched reqs [] = reqs := by
  simp [unmatched, matchLoop]

/-- **The equation of the matcher.** -/
theorem matchLoop_cons (reqs resps : List μ) (resp : μ) :
    matchedRecords reqs (resp :: resps)
        = ((reqs.takeWhile (older resp)).getLast?.map (recordOf · resp)).toList
          ++ matchedRecords (reqs.dropWhile (older resp)) resps
      ∧ unmatched reqs (resp :: resps) = unmatched (reqs.dropWhile (older resp)) resps := by
  have hzero : (Record.zero : Record μ) = remembered none := rfl
  unfold matchedRecords unmatched
  rw [hzero, matchLoop_step, ← hzero, matchLoop_records]
  simp

theorem matchByTimestamp_eq {reqs resps : List μ} (hreqs : reqs ≠ []) (hresps : resps ≠ []) :
    matchByTimestamp reqs resps = ⟨matchedRecords reqs resps, unmatched reqs resps, []⟩ := by
  unfold matchByTimestamp
  rw [if_neg]
  · rfl
  · simp [hreqs, hresps]

/-! ## The pairing -/

/-- The queue is in order of the timestamps. -/
def Chronological (l : List μ) : Prop := l.Pairwise (fun a b => timestampNs a ≤ timestampNs b)

/-- The request at `i` is the last one older than the response at `j`, and no response
before that one is younger than the request. -/
def Paired (reqs resps : List μ) (i j : ℕ) : Prop :=
  ∃ q r, reqs[i]? = some q ∧ resps[j]? = some r ∧ timestampNs q < timestampNs r
    ∧ (∀ i' q', i < i' → reqs[i']? = some q' → ¬ timestampNs q' < timestampNs r)
    ∧ ∀ j' r', j' < j → resps[j']? = some r' → ¬ timestampNs r' > timestampNs q

/-- The queue behind the requests older than the response. -/
theorem getElem?_dropWhile (reqs : List μ) (resp : μ) (i : ℕ) :
    (reqs.dropWhile (older resp))[i]? = reqs[(reqs.takeWhile (older resp)).length + i]? := by
  have h : (reqs.takeWhile (older resp) ++ reqs.dropWhile (older resp))[
      (reqs.takeWhile (older resp)).length + i]? = (reqs.dropWhile (older resp))[
        (reqs.takeWhile (older resp)).length + i - (reqs.takeWhile (older resp)).length]? :=
    List.getElem?_append_right (Nat.le_add_right _ _)
  rw [List.takeWhile_append_dropWhile, Nat.add_sub_cancel_left] at h
  exact h.symm

theorem getElem?_takeWhile {reqs : List μ} {resp : μ} {i : ℕ}
    (hi : i < (reqs.takeWhile (older resp)).length) :
    reqs[i]? = (reqs.takeWhile (older resp))[i]? := by
  conv_lhs => rw [← List.takeWhile_append_dropWhile (p := older resp) (l := reqs)]
  exact List.getElem?_append_left hi

theorem Chronological.dropWhile {reqs : List μ} (h : Chronological reqs) (resp : μ) :
    Chronological (reqs.dropWhile (older resp)) := h.sublist (List.dropWhile_sublist _)

/-- Behind the first request that is not older than the response, none is. -/
theorem Chronological.not_older {reqs : List μ} (h : Chronological reqs) (resp : μ) :
    ∀ q ∈ reqs.dropWhile (older resp), ¬ timestampNs q < timestampNs resp := by
  intro q hq
  have hfirst := List.head?_dropWhile_not (older resp) reqs
  have hrest := h.dropWhile resp
  rcases hdw : reqs.dropWhile (older resp) with _ | ⟨x, xs⟩
  · rw [hdw] at hq
    simp at hq
  · rw [hdw] at hq hfirst hrest
    have hx : ¬ timestampNs x < timestampNs resp := by simpa [older] using hfirst
    rcases List.mem_cons.mp hq with rfl | hq
    · exact hx
    · have hle := (List.pairwise_cons.mp hrest).1 q hq
      omega

/-- In a queue in order, the requests older than the response are those before the cut. -/
theorem Chronological.older_iff {reqs : List μ} (h : Chronological reqs) {resp q : μ} {i : ℕ}
    (hq : reqs[i]? = some q) :
    timestampNs q < timestampNs resp ↔ i < (reqs.takeWhile (older resp)).length := by
  constructor
  · intro hlt
    by_contra hge
    obtain ⟨k, rfl⟩ := Nat.exists_eq_add_of_le (not_lt.mp hge)
    rw [← getElem?_dropWhile] at hq
    exact h.not_older resp q (List.mem_of_getElem? hq) hlt
  · intro hi
    rw [getElem?_takeWhile hi] at hq
    have hold := List.mem_takeWhile_imp (List.mem_of_getElem? hq)
    simpa [older] using hold

/-- The pairs of a response in front: its own, and those of the rest of the queues. -/
theorem paired_cons {reqs : List μ} (h : Chronological reqs) (resp : μ) (resps : List μ)
    (i j : ℕ) :
    Paired reqs (resp :: resps) i j
      ↔ (j = 0 ∧ i + 1 = (reqs.takeWhile (older resp)).length)
        ∨ ∃ i' j', i = (reqs.takeWhile (older resp)).length + i' ∧ j = j' + 1
          ∧ Paired (reqs.dropWhile (older resp)) resps i' j' := by
  constructor
  · rintro ⟨q, r, hq, hr, hlt, hlast, hfirst⟩
    rcases j with _ | j
    · left
      obtain rfl : resp = r := by simpa using hr
      have hi := (h.older_iff hq).mp hlt
      refine ⟨rfl, ?_⟩
      -- The request behind it, if there is one, stands behind the cut.
      by_contra hne
      have hnext : i + 1 < (reqs.takeWhile (older resp)).length := by omega
      have hget := List.getElem?_eq_getElem hnext
      rw [← getElem?_takeWhile hnext] at hget
      exact hlast (i + 1) _ (by omega) hget ((h.older_iff hget).mpr hnext)
    · right
      have hcut : ¬ timestampNs q < timestampNs resp := hfirst 0 resp (by omega) (by simp)
      rw [h.older_iff hq] at hcut
      obtain ⟨i', rfl⟩ := Nat.exists_eq_add_of_le (not_lt.mp hcut)
      refine ⟨i', j, rfl, rfl, q, r, ?_, by simpa using hr, hlt, ?_, ?_⟩
      · rw [getElem?_dropWhile]
        exact hq
      · intro k q' hk hq'
        rw [getElem?_dropWhile] at hq'
        exact hlast _ q' (by omega) hq'
      · intro k r' hk hr'
        exact hfirst (k + 1) r' (by omega) (by simpa using hr')
  · rintro (⟨rfl, hi⟩ | ⟨i', j', rfl, rfl, q, r, hq, hr, hlt, hlast, hfirst⟩)
    · have hget := List.getElem?_eq_getElem (show i < (reqs.takeWhile (older resp)).length by omega)
      rw [← getElem?_takeWhile (by omega)] at hget
      refine ⟨_, resp, hget, rfl, (h.older_iff hget).mpr (by omega), ?_, ?_⟩
      · intro k q' hk hq'
        rw [h.older_iff hq']
        omega
      · intro k _ hk
        omega
    · rw [getElem?_dropWhile] at hq
      have hcut : ¬ timestampNs q < timestampNs resp := by
        rw [h.older_iff hq]
        omega
      refine ⟨q, r, hq, by simpa using hr, hlt, ?_, ?_⟩
      · intro k q' hk hq'
        obtain ⟨k', rfl⟩ := Nat.exists_eq_add_of_le
          (show (reqs.takeWhile (older resp)).length ≤ k by omega)
        rw [← getElem?_dropWhile] at hq'
        exact hlast k' q' (by omega) hq'
      · intro k r' hk hr'
        rcases k with _ | k
        · obtain rfl : resp = r' := by simpa using hr'
          exact hcut
        · exact hfirst k r' (by omega) (by simpa using hr')

/-- The record of the messages at two positions. -/
def recordAt (reqs resps : List μ) (p : ℕ × ℕ) : Record μ :=
  { req := reqs[p.1]?, resp := resps[p.2]?, responseStatus := .noneStatus }

/-- **The records are the pairs**, in the order of both queues. -/
theorem matchedRecords_pairs {reqs : List μ} (h : Chronological reqs) (resps : List μ) :
    ∃ ps : List (ℕ × ℕ), (∀ i j, (i, j) ∈ ps ↔ Paired reqs resps i j)
      ∧ ps.Pairwise (fun a b => a.1 < b.1 ∧ a.2 < b.2)
      ∧ matchedRecords reqs resps = ps.map (recordAt reqs resps) := by
  induction resps generalizing reqs with
  | nil => exact ⟨[], by simp [Paired], List.Pairwise.nil, by simp⟩
  | cons resp resps ih =>
      obtain ⟨ps, hmem, hsorted, hrecords⟩ := ih (h.dropWhile resp)
      -- The pairs of the rest stand behind the cut, one response further.
      have hshift : ∀ p : ℕ × ℕ, recordAt (reqs.dropWhile (older resp)) resps p
          = recordAt reqs (resp :: resps)
            ((reqs.takeWhile (older resp)).length + p.1, p.2 + 1) := by
        intro p
        simp only [recordAt, getElem?_dropWhile, List.getElem?_cons_succ]
      have hmap : (ps.map fun p : ℕ × ℕ =>
          ((reqs.takeWhile (older resp)).length + p.1, p.2 + 1)).Pairwise
            (fun a b => a.1 < b.1 ∧ a.2 < b.2) := by
        rw [List.pairwise_map]
        refine hsorted.imp ?_
        intro a b hab
        exact ⟨by omega, by omega⟩
      rw [(matchLoop_cons reqs resps resp).1, hrecords]
      rcases List.eq_nil_or_concat (reqs.takeWhile (older resp)) with hnil | ⟨pre, q, hcat⟩
      · -- No request is older, so the response has no pair.
        refine ⟨ps.map fun p => ((reqs.takeWhile (older resp)).length + p.1, p.2 + 1), ?_, hmap, ?_⟩
        · intro i j
          rw [paired_cons h, hnil]
          simp only [List.mem_map, Prod.exists, Prod.mk.injEq, hmem, List.length_nil]
          constructor
          · rintro ⟨i', j', hp, rfl, rfl⟩
            exact Or.inr ⟨i', j', rfl, rfl, hp⟩
          · rintro (⟨-, hi⟩ | ⟨i', j', rfl, rfl, hp⟩)
            · omega
            · exact ⟨i', j', hp, rfl, rfl⟩
        · rw [hnil, List.map_map]
          simp only [List.getLast?_nil, Option.map_none, Option.toList_none, List.nil_append]
          rw [← hnil]
          exact List.map_congr_left (fun p _ => hshift p)
      · rw [List.concat_eq_append] at hcat
        have hlen : (reqs.takeWhile (older resp)).length = pre.length + 1 := by
          rw [hcat, List.length_append, List.length_singleton]
        have hq : reqs[pre.length]? = some q := by
          rw [getElem?_takeWhile (show pre.length < (reqs.takeWhile (older resp)).length by omega),
            hcat]
          simp
        refine ⟨(pre.length, 0)
          :: ps.map fun p => ((reqs.takeWhile (older resp)).length + p.1, p.2 + 1), ?_, ?_, ?_⟩
        · intro i j
          rw [paired_cons h, hlen]
          simp only [List.mem_cons, Prod.mk.injEq, List.mem_map, Prod.exists, hmem]
          constructor
          · rintro (⟨rfl, rfl⟩ | ⟨i', j', hp, rfl, rfl⟩)
            · exact Or.inl ⟨rfl, rfl⟩
            · exact Or.inr ⟨i', j', rfl, rfl, hp⟩
          · rintro (⟨rfl, hi⟩ | ⟨i', j', rfl, rfl, hp⟩)
            · exact Or.inl ⟨by omega, rfl⟩
            · exact Or.inr ⟨i', j', hp, rfl, rfl⟩
        · refine List.pairwise_cons.mpr ⟨?_, hmap⟩
          intro p hp
          obtain ⟨p', -, rfl⟩ := List.mem_map.mp hp
          exact ⟨by dsimp only; omega, by dsimp only; omega⟩
        · rw [List.map_cons, List.map_map, hcat]
          simp only [List.getLast?_append, List.getLast?_singleton, Option.some_or, Option.map_some,
            Option.toList_some, List.singleton_append]
          rw [← hcat]
          refine congrArg₂ List.cons ?_ (List.map_congr_left (fun p _ => hshift p))
          simp [recordAt, recordOf, hq]

/-! ## What holds of queues in any order -/

/-- The request of a record is older than its response. -/
def Record.InOrder (record : Record μ) : Prop :=
  ∃ q r, record.req = some q ∧ record.resp = some r ∧ timestampNs q < timestampNs r

/-- The sides of the records are subsequences of the queues, in order or not. -/
theorem matchedRecords_sublist (reqs resps : List μ) :
    ((matchedRecords reqs resps).filterMap Record.req).Sublist reqs
      ∧ ((matchedRecords reqs resps).filterMap Record.resp).Sublist resps
      ∧ ∀ record ∈ matchedRecords reqs resps, record.InOrder := by
  induction resps generalizing reqs with
  | nil => simp
  | cons resp resps ih =>
      obtain ⟨hreqs, hresps, horder⟩ := ih (reqs.dropWhile (older resp))
      rw [(matchLoop_cons reqs resps resp).1]
      rcases hlast : (reqs.takeWhile (older resp)).getLast? with _ | q
      · simp only [Option.map_none, Option.toList_none, List.nil_append]
        exact ⟨hreqs.trans (List.dropWhile_sublist _), hresps.cons resp, horder⟩
      · have hmem : q ∈ reqs.takeWhile (older resp) := List.mem_of_getLast? hlast
        simp only [Option.map_some, Option.toList_some, List.singleton_append, List.filterMap_cons,
          recordOf]
        refine ⟨?_, hresps.cons_cons resp, ?_⟩
        · conv_rhs => rw [← List.takeWhile_append_dropWhile (p := older resp) (l := reqs)]
          exact (List.singleton_sublist.mpr hmem).append hreqs
        · intro record hrecord
          rcases List.mem_cons.mp hrecord with rfl | hrecord
          · refine ⟨q, resp, rfl, rfl, ?_⟩
            have hold := List.mem_takeWhile_imp hmem
            simpa [older] using hold
          · exact horder record hrecord

/-- With both queues in order, the requests left are those not older than the last
response. -/
theorem unmatched_eq {reqs resps : List μ} (hreqs : Chronological reqs)
    (hresps : Chronological resps) {last : μ} (hlast : resps.getLast? = some last) :
    unmatched reqs resps = reqs.filter (fun q => timestampNs last ≤ timestampNs q) := by
  induction resps generalizing reqs with
  | nil => simp at hlast
  | cons resp resps ih =>
      obtain ⟨hfirst, hrest⟩ := List.pairwise_cons.mp hresps
      rw [(matchLoop_cons reqs resps resp).2]
      have hle : timestampNs resp ≤ timestampNs last := by
        rcases List.mem_cons.mp (List.mem_of_getLast? hlast) with rfl | hmem
        · exact le_rfl
        · exact hfirst last hmem
      -- The requests the first response takes are older than the last one too.
      have hcut : reqs.filter (fun q => timestampNs last ≤ timestampNs q)
          = (reqs.dropWhile (older resp)).filter (fun q => timestampNs last ≤ timestampNs q) := by
        conv_lhs => rw [← List.takeWhile_append_dropWhile (p := older resp) (l := reqs)]
        rw [List.filter_append, List.filter_eq_nil_iff.mpr, List.nil_append]
        intro q hq
        have hold := List.mem_takeWhile_imp hq
        simp only [older, decide_eq_true_eq] at hold
        simp only [decide_eq_true_eq]
        omega
      rw [hcut]
      rcases resps with _ | ⟨next, resps⟩
      · obtain rfl : resp = last := by simpa using hlast
        rw [unmatched_nil]
        refine (List.filter_eq_self.mpr ?_).symm
        intro q hq
        have hnot := hreqs.not_older resp q hq
        simp only [decide_eq_true_eq]
        omega
      · exact ih (hreqs.dropWhile resp) hrest (by simpa using hlast)

/-- The records do not depend on the early return. -/
theorem matchByTimestamp_records (reqs resps : List μ) :
    (matchByTimestamp reqs resps).records = matchedRecords reqs resps := by
  by_cases hreqs : reqs = []
  · -- Without requests there is nothing to pair, however many responses there are.
    subst hreqs
    have hnone : matchedRecords ([] : List μ) resps = [] := by
      have hsub := (matchedRecords_sublist ([] : List μ) resps).1
      have horder := (matchedRecords_sublist ([] : List μ) resps).2.2
      rcases hrec : matchedRecords ([] : List μ) resps with _ | ⟨record, records⟩
      · rfl
      · rw [hrec] at hsub horder
        obtain ⟨q, r, hq, -⟩ := horder record List.mem_cons_self
        simp [hq] at hsub
    rw [hnone]
    simp [matchByTimestamp]
  · by_cases hresps : resps = []
    · subst hresps
      simp [matchByTimestamp]
    · rw [matchByTimestamp_eq hreqs hresps]

/-- **The matcher is the last-request-before-response pairing.** On two queues in order
that are not empty, the records are exactly the pairs, each side in the order of its queue
and no message used twice; no response is left, and of the requests those not older than
the last response. On queues in any order the sides of the records are still subsequences
of the queues, and every request is older than its response. -/
theorem matchByTimestamp_pairs (reqs resps : List μ) :
    (Chronological reqs → Chronological resps → reqs ≠ [] → resps ≠ [] →
      (∃ ps : List (ℕ × ℕ), (∀ i j, (i, j) ∈ ps ↔ Paired reqs resps i j)
        ∧ ps.Pairwise (fun a b => a.1 < b.1 ∧ a.2 < b.2)
        ∧ (matchByTimestamp reqs resps).records = ps.map (recordAt reqs resps))
      ∧ (matchByTimestamp reqs resps).respStream = []
      ∧ ∀ last, resps.getLast? = some last → (matchByTimestamp reqs resps).reqStream
          = reqs.filter (fun q => timestampNs q ≥ timestampNs last))
    ∧ ((matchByTimestamp reqs resps).records.filterMap Record.req).Sublist reqs
    ∧ ((matchByTimestamp reqs resps).records.filterMap Record.resp).Sublist resps
    ∧ ∀ record ∈ (matchByTimestamp reqs resps).records, record.InOrder := by
  refine ⟨?_, ?_⟩
  · intro hreqs hresps hne hne'
    rw [matchByTimestamp_eq hne hne']
    refine ⟨matchedRecords_pairs hreqs resps, rfl, ?_⟩
    intro last hlast
    exact unmatched_eq hreqs hresps hlast
  · rw [matchByTimestamp_records]
    exact matchedRecords_sublist reqs resps

/-- A message of a given time. -/
def sampleFrame (timestampNs : ℕ) : FrameBase := ⟨timestampNs, 0, 0⟩

/-- Two pipelined requests, an orphan response and a request as late as the last response. -/
theorem matchByTimestamp_pairs_sample :
    (matchByTimestamp [sampleFrame 1, sampleFrame 2, sampleFrame 5]
        [sampleFrame 3, sampleFrame 4, sampleFrame 5]).reqStream = [sampleFrame 5]
      ∧ ∃ record ∈ (matchByTimestamp [sampleFrame 1, sampleFrame 2, sampleFrame 5]
        [sampleFrame 3, sampleFrame 4, sampleFrame 5]).records,
          record = recordOf (sampleFrame 2) (sampleFrame 3) := by
  obtain ⟨⟨ps, hmem, -, hrecords⟩, -, hleft⟩ := (matchByTimestamp_pairs
    [sampleFrame 1, sampleFrame 2, sampleFrame 5]
    [sampleFrame 3, sampleFrame 4, sampleFrame 5]).1
    (by unfold Chronological; decide) (by unfold Chronological; decide) (by simp) (by simp)
  refine ⟨(hleft (sampleFrame 5) rfl).trans (by decide), _, ?_, rfl⟩
  -- The second request and the first response are a pair.
  rw [hrecords]
  refine List.mem_map.mpr ⟨(1, 0), (hmem 1 0).mpr ?_, rfl⟩
  refine ⟨sampleFrame 2, sampleFrame 3, rfl, rfl, by decide, ?_, by simp⟩
  intro i q hi hq
  rcases i with _ | _ | _ | i
  · omega
  · omega
  · cases hq
    decide
  · simp at hq

/-! ## Calling the matcher in between -/

/-- A message parsed from one of the two streams. -/
inductive Arrival (μ : Type)
  | request (message : μ)
  | response (message : μ)

namespace Arrival

def message : Arrival μ → μ
  | request m => m
  | response m => m

instance : TimestampNs (Arrival μ) := ⟨fun a => timestampNs a.message⟩

/-- The requests among the arrivals. -/
def requests (as : List (Arrival μ)) : List μ :=
  as.filterMap fun
    | request m => some m
    | response _ => none

/-- The responses among the arrivals. -/
def responses (as : List (Arrival μ)) : List μ :=
  as.filterMap fun
    | request _ => none
    | response m => some m

omit [TimestampNs μ] in
theorem mem_requests {as : List (Arrival μ)} {q : μ} (h : q ∈ requests as) :
    Arrival.request q ∈ as := by
  obtain ⟨a, ha, heq⟩ := List.mem_filterMap.mp h
  rcases a with m | m
  · cases heq
    exact ha
  · cases heq

end Arrival

open Arrival

/-- A message goes to the end of its queue. -/
def arrive (s : Matched μ) : Arrival μ → Matched μ
  | .request m => { s with reqStream := s.reqStream ++ [m] }
  | .response m => { s with respStream := s.respStream ++ [m] }

/-- A call of the matcher; its records are sent behind the earlier ones. -/
def callMatch (s : Matched μ) : Matched μ :=
  let m := matchByTimestamp s.reqStream s.respStream
  { m with records := s.records ++ m.records }

/-- The arrivals in turn, each with the choice to call the matcher behind it. -/
def matchSchedule (s : Matched μ) : List (Arrival μ × Bool) → Matched μ
  | [] => s
  | (a, called) :: as =>
      matchSchedule (if called then callMatch (arrive s a) else arrive s a) as

/-- Later requests are not older than what is queued, so they do not move the cut. -/
theorem takeWhile_older_append {resp : μ} (reqs : List μ) {later : List μ}
    (h : ∀ q ∈ later, timestampNs resp ≤ timestampNs q) :
    (reqs ++ later).takeWhile (older resp) = reqs.takeWhile (older resp)
      ∧ (reqs ++ later).dropWhile (older resp) = reqs.dropWhile (older resp) ++ later := by
  induction reqs with
  | nil =>
      rcases later with _ | ⟨q, later⟩
      · simp
      · have hq : ¬ older resp q = true := by simpa [older] using h q List.mem_cons_self
        rw [List.nil_append, List.takeWhile_cons_of_neg hq, List.dropWhile_cons_of_neg hq]
        simp
  | cons q reqs ih =>
      rw [List.cons_append]
      by_cases hq : older resp q = true
      · rw [List.takeWhile_cons_of_pos hq, List.takeWhile_cons_of_pos hq,
          List.dropWhile_cons_of_pos hq, List.dropWhile_cons_of_pos hq, ih.1, ih.2]
        exact ⟨rfl, rfl⟩
      · rw [List.takeWhile_cons_of_neg hq, List.takeWhile_cons_of_neg hq,
          List.dropWhile_cons_of_neg hq, List.dropWhile_cons_of_neg hq]
        exact ⟨rfl, rfl⟩

/-- **A call in between changes nothing**: its records come first, and a call at the end
finds in the queues what is still needed. -/
theorem matchedRecords_append (reqs resps : List μ) {later : List μ} (resps' : List μ)
    (h : ∀ r ∈ resps, ∀ q ∈ later, timestampNs r ≤ timestampNs q) :
    matchedRecords (reqs ++ later) (resps ++ resps')
      = matchedRecords reqs resps ++ matchedRecords (unmatched reqs resps ++ later) resps' := by
  induction resps generalizing reqs with
  | nil => simp
  | cons resp resps ih =>
      obtain ⟨htake, hdrop⟩ := takeWhile_older_append reqs (h resp List.mem_cons_self)
      have hrest := ih (reqs.dropWhile (older resp)) (fun r hr => h r (List.mem_cons_of_mem _ hr))
      rw [List.cons_append, (matchLoop_cons _ _ resp).1, htake, hdrop, hrest,
        (matchLoop_cons reqs resps resp).1, (matchLoop_cons reqs resps resp).2, List.append_assoc]

/-- What the records will be in the end, if the matcher is only called then. -/
def finalRecords (s : Matched μ) (as : List (Arrival μ)) : List (Record μ) :=
  s.records ++ matchedRecords (s.reqStream ++ requests as) (s.respStream ++ responses as)

/-- No request still to come is older than a queued response. -/
def Settled (s : Matched μ) (as : List (Arrival μ)) : Prop :=
  ∀ r ∈ s.respStream, ∀ q ∈ requests as, timestampNs r ≤ timestampNs q

theorem finalRecords_arrive (s : Matched μ) (a : Arrival μ) (as : List (Arrival μ)) :
    finalRecords (arrive s a) as = finalRecords s (a :: as) := by
  unfold finalRecords
  rcases a with m | m <;> simp [arrive, requests, responses]

theorem Settled.arrive {s : Matched μ} {a : Arrival μ} {as : List (Arrival μ)}
    (h : Settled s (a :: as)) (ha : ∀ b ∈ as, timestampNs a ≤ timestampNs b) :
    Settled (arrive s a) as := by
  have hold : Settled s as := by
    intro r hr q hq
    apply h r hr q
    unfold requests at hq ⊢
    rw [List.filterMap_cons]
    rcases a with m | m
    · exact List.mem_cons_of_mem _ hq
    · exact hq
  rcases a with m | m
  · exact hold
  · intro r hr q hq
    rcases List.mem_append.mp hr with hr | hr
    · exact hold r hr q hq
    · rw [List.mem_singleton.mp hr]
      exact ha _ (mem_requests hq)

theorem finalRecords_callMatch {s : Matched μ} {as : List (Arrival μ)} (h : Settled s as) :
    finalRecords (callMatch s) as = finalRecords s as := by
  unfold finalRecords callMatch
  by_cases hempty : s.reqStream.length = 0 ∨ s.respStream.length = 0
  · -- The early return leaves the queues, so the responses wait for the next call.
    have hsame : matchByTimestamp s.reqStream s.respStream = ⟨[], s.reqStream, s.respStream⟩ :=
      if_pos hempty
    rw [hsame]
    simp
  · rw [not_or, List.length_eq_zero_iff, List.length_eq_zero_iff] at hempty
    rw [matchByTimestamp_eq hempty.1 hempty.2, matchedRecords_append _ _ _ h]
    simp

theorem Settled.callMatch {s : Matched μ} {as : List (Arrival μ)} (h : Settled s as) :
    Settled (callMatch s) as := by
  unfold Settled Kyanos.callMatch matchByTimestamp
  split_ifs
  · exact h
  · simp

/-- The run over the arrivals keeps what the records will be. -/
theorem matchSchedule_final {s : Matched μ} {as : List (Arrival μ × Bool)}
    (hs : Settled s (as.map Prod.fst)) (has : Chronological (as.map Prod.fst)) :
    finalRecords (matchSchedule s as) [] = finalRecords s (as.map Prod.fst) := by
  induction as generalizing s with
  | nil => rfl
  | cons p as ih =>
      obtain ⟨a, called⟩ := p
      obtain ⟨hfirst, hrest⟩ := List.pairwise_cons.mp has
      have harrive := Settled.arrive hs hfirst
      rw [matchSchedule, List.map_cons, ← finalRecords_arrive]
      rcases called with _ | _
      · exact ih harrive hrest
      · rw [if_pos rfl, ih harrive.callMatch hrest, finalRecords_callMatch harrive]

/-- **Incremental matching is confluent.** For arrivals in order of their timestamps, calls
of the matcher behind any of them, and one at the end, give together the records of a
single call behind all of them. -/
theorem matchSchedule_records (as : List (Arrival μ × Bool))
    (has : Chronological (as.map Prod.fst)) :
    (callMatch (matchSchedule ⟨[], [], []⟩ as)).records
      = (matchByTimestamp (requests (as.map Prod.fst)) (responses (as.map Prod.fst))).records := by
  have hsettled : Settled (⟨[], [], []⟩ : Matched μ) (as.map Prod.fst) := by
    intro r hr
    simp at hr
  have hfinal := matchSchedule_final hsettled has
  simp only [finalRecords, requests, responses, List.filterMap_nil, List.append_nil,
    List.nil_append] at hfinal
  simp only [callMatch, matchByTimestamp_records]
  exact hfinal

/-- The matcher is called behind the first response, and that one's request is gone when
the others arrive. -/
theorem matchSchedule_records_sample :
    (callMatch (matchSchedule ⟨[], [], []⟩
        [(.request (sampleFrame 1), false), (.response (sampleFrame 2), true),
          (.request (sampleFrame 2), false), (.response (sampleFrame 3), false)])).records
      = (matchByTimestamp [sampleFrame 1, sampleFrame 2]
        [sampleFrame 2, sampleFrame 3]).records :=
  matchSchedule_records
    [(.request (sampleFrame 1), false), (.response (sampleFrame 2), true),
      (.request (sampleFrame 2), false), (.response (sampleFrame 3), false)]
    (by unfold Chronological; decide)

end

end Kyanos
