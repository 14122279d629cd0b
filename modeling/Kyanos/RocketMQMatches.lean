/-
Where the messages of a `Match` of the RocketMQ parser go.

The requests are put into a map by opaque id, where a later one replaces an earlier one of its id.
What answers and timeouts leave in the map decides which requests stay in the queue, but it is asked
for the id and not for the request. So a request that was replaced shares the fate of the last one of
its id: when that is answered, or has waited too long, all of them leave the queue.

Every request is therefore in a record, in the queue or dropped for its age just when each replaced
request either stays along with the last one of its id or is old itself
(`matchStreams_accounted_iff`).
-/
import Kyanos.RocketMQ

set_option autoImplicit false

namespace Kyanos.RocketMQ

variable {reqStream respStream : List RocketMQMessage} {req resp : RocketMQMessage} {now : ℤ}

/-! ## What is owed -/

/-- Every request is in a record, in the queue in its order, or dropped for its age, and in only one
of these; and every response is in one record at most, with a request of its opaque id. -/
def Accounted (now : ℤ) (reqStream respStream : List RocketMQMessage) (records : List (Record Message))
    (waiting : List RocketMQMessage) : Prop :=
  ∃ (pairs : List (RocketMQMessage × RocketMQMessage)) (dropped : List RocketMQMessage),
    records = pairs.map (fun p => recordOf p.1 p.2)
      ∧ (pairs.map Prod.snd).Sublist respStream
      ∧ (∀ p ∈ pairs, p.1.opaqueId = p.2.opaqueId)
      ∧ waiting.Sublist reqStream
      ∧ (∀ req ∈ dropped, timedOut now req = true)
      ∧ (pairs.map Prod.fst ++ (waiting ++ dropped)).Perm reqStream

/-- The last request of an opaque id. -/
def lastOf (reqStream : List RocketMQMessage) (opaqueId : ℤ) : Option RocketMQMessage :=
  reqStream.reverse.find? fun req => req.opaqueId = opaqueId

/-- A request of the opaque id is in the queue. -/
def occurs (opaqueId : ℤ) (reqStream : List RocketMQMessage) : Bool :=
  reqStream.any fun req => req.opaqueId = opaqueId

/-- The requests that have a later one of their opaque id. -/
def replaced : List RocketMQMessage → List RocketMQMessage
  | [] => []
  | req :: reqStream =>
      if occurs req.opaqueId reqStream then req :: replaced reqStream else replaced reqStream

/-- The other requests. -/
def lasts : List RocketMQMessage → List RocketMQMessage
  | [] => []
  | req :: reqStream =>
      if occurs req.opaqueId reqStream then lasts reqStream else req :: lasts reqStream

/-- The requests of an opaque id stay: there is no response to it, and the last of them is not old. -/
def stays (now : ℤ) (reqStream respStream : List RocketMQMessage) (opaqueId : ℤ) : Bool :=
  !occurs opaqueId respStream && (lastOf reqStream opaqueId).any fun last => !timedOut now last

/-! ## The map of requests -/

theorem lastOf_cons (k : ℤ) : lastOf (req :: reqStream) k
    = (lastOf reqStream k).or (if req.opaqueId = k then some req else none) := by
  unfold lastOf
  rw [List.reverse_cons, List.find?_append]
  congr 1
  by_cases hk : req.opaqueId = k
  · rw [if_pos hk, List.find?_cons_of_pos (by simpa using hk)]
  · rw [if_neg hk, List.find?_cons_of_neg (by simpa using hk), List.find?_nil]

theorem occurs_iff {k : ℤ} : occurs k reqStream = true ↔ ∃ req ∈ reqStream, req.opaqueId = k := by
  simp [occurs]

theorem lastOf_isSome (k : ℤ) : (lastOf reqStream k).isSome = occurs k reqStream := by
  rw [Bool.eq_iff_iff, occurs_iff]
  simp [lastOf, List.find?_isSome]

/-- The map holds the last request of each opaque id. -/
theorem requestMap_get? (reqStream : List RocketMQMessage) (k : ℤ) :
    (requestMap reqStream).get? k = lastOf reqStream k := by
  induction reqStream using List.reverseRecOn with
  | nil => rfl
  | append_singleton reqStream last ih =>
      rw [requestMap_append, SortedMap.get?_put, ih]
      unfold lastOf
      rw [List.reverse_append, List.reverse_singleton, List.singleton_append]
      by_cases hk : k = last.opaqueId
      · rw [if_pos hk, List.find?_cons_of_pos (by simpa using hk.symm)]
      · rw [if_neg hk, List.find?_cons_of_neg (by simpa using Ne.symm hk)]

/-- A request is the last of its opaque id just when it is among the last ones. -/
theorem mem_lasts_iff : req ∈ lasts reqStream ↔ lastOf reqStream req.opaqueId = some req := by
  induction reqStream with
  | nil => simp [lasts, lastOf]
  | cons first reqStream ih =>
      rw [lasts, lastOf_cons]
      by_cases hid : first.opaqueId = req.opaqueId
      · rw [hid, if_pos rfl]
        rcases hlast : lastOf reqStream req.opaqueId with _ | last
        · have hnone : occurs req.opaqueId reqStream = false := by
            rw [← lastOf_isSome, hlast]
            rfl
          rw [if_neg (by simp [hnone]), List.mem_cons, ih, hlast]
          simp [eq_comm]
        · have hsome : occurs req.opaqueId reqStream = true := by
            rw [← lastOf_isSome, hlast]
            rfl
          rw [if_pos hsome, ih, hlast]
          rfl
      · have hne : req ≠ first := fun h => hid (by rw [h])
        rw [if_neg hid, Option.or_none, ← ih]
        split_ifs
        · rfl
        · rw [List.mem_cons, or_iff_right hne]

theorem lasts_sublist (reqStream : List RocketMQMessage) : (lasts reqStream).Sublist reqStream := by
  induction reqStream with
  | nil => exact List.Sublist.refl _
  | cons first reqStream ih =>
      rw [lasts]
      split_ifs
      · exact ih.cons first
      · exact ih.cons_cons first

theorem lasts_nodup (reqStream : List RocketMQMessage) : (lasts reqStream).Nodup := by
  induction reqStream with
  | nil => exact List.nodup_nil
  | cons first reqStream ih =>
      rw [lasts]
      split_ifs with hlater
      · exact ih
      · refine List.nodup_cons.mpr ⟨fun hmem => hlater ?_, ih⟩
        exact occurs_iff.mpr ⟨first, (lasts_sublist reqStream).subset hmem, rfl⟩

theorem lasts_append_replaced (reqStream : List RocketMQMessage) :
    (lasts reqStream ++ replaced reqStream).Perm reqStream := by
  induction reqStream with
  | nil => exact List.Perm.refl _
  | cons first reqStream ih =>
      rw [lasts, replaced]
      split_ifs
      · exact List.perm_middle.trans (ih.cons first)
      · exact ih.cons first

/-! ## The responses -/

theorem recordOf_injective {p q : RocketMQMessage × RocketMQMessage}
    (h : recordOf p.1 p.2 = recordOf q.1 q.2) : p = q := by
  unfold recordOf at h
  injection h with hreq hresp
  injection hreq with hreq
  injection hreq with hreq
  injection hresp with hresp
  injection hresp with hresp
  exact Prod.ext hreq hresp

/-- What the loop over the responses does with a map that has each request under its own id: the
requests that are answered go from the map into records, each with its first response. -/
structure Answers (reqMap reqMap' : SortedMap ℤ RocketMQMessage) (respStream : List RocketMQMessage)
    (pairs : List (RocketMQMessage × RocketMQMessage)) : Prop where
  responses : (pairs.map Prod.snd).Sublist respStream
  ids : ∀ p ∈ pairs, p.1.opaqueId = p.2.opaqueId
  requests : ∀ req, req ∈ pairs.map Prod.fst
    ↔ reqMap.get? req.opaqueId = some req ∧ occurs req.opaqueId respStream = true
  nodup : (pairs.map Prod.fst).Nodup
  left : ∀ k, reqMap'.get? k = if occurs k respStream then none else reqMap.get? k

theorem occurs_cons (k : ℤ) : occurs k (req :: reqStream)
    = (decide (req.opaqueId = k) || occurs k reqStream) := rfl

section OneResponse

variable {reqMap reqMap' : SortedMap ℤ RocketMQMessage}
  {pairs : List (RocketMQMessage × RocketMQMessage)}

/-- A response without a request changes nothing. -/
theorem Answers.skip (h : Answers reqMap reqMap' respStream pairs)
    (hnone : reqMap.get? resp.opaqueId = none) : Answers reqMap reqMap' (resp :: respStream) pairs := by
  refine ⟨h.responses.cons resp, h.ids, ?_, h.nodup, ?_⟩
  · intro req
    rw [h.requests, occurs_cons]
    refine and_congr_right fun hreq => ?_
    have hne : resp.opaqueId ≠ req.opaqueId := by
      intro heq
      rw [← heq, hnone] at hreq
      cases hreq
    simp [hne]
  · intro k
    rw [h.left, occurs_cons]
    by_cases hk : resp.opaqueId = k
    · subst hk
      simp [hnone]
    · simp [hk]

/-- A response takes its request out of the map, so that no later one finds it there. -/
theorem Answers.take (hreq : reqMap.get? resp.opaqueId = some req) (hid : req.opaqueId = resp.opaqueId)
    (h : Answers (reqMap.remove req.opaqueId) reqMap' respStream pairs) :
    Answers reqMap reqMap' (resp :: respStream) ((req, resp) :: pairs) := by
  have hget : ∀ k, (reqMap.remove req.opaqueId).get? k
      = if k = resp.opaqueId then none else reqMap.get? k := by
    intro k
    rw [SortedMap.get?_remove, hid]
  refine ⟨h.responses.cons_cons resp, List.forall_mem_cons.mpr ⟨hid, h.ids⟩, ?_, ?_, ?_⟩
  · intro q
    rw [List.map_cons, List.mem_cons, h.requests, hget, occurs_cons]
    constructor
    · rintro (rfl | ⟨hq, hoccurs⟩)
      · rw [hid]
        exact ⟨hreq, by simp⟩
      · split_ifs at hq
        exact ⟨hq, by simp [hoccurs]⟩
    · rintro ⟨hq, hoccurs⟩
      by_cases heq : q.opaqueId = resp.opaqueId
      · rw [heq, hreq] at hq
        cases hq
        exact Or.inl rfl
      · right
        rw [if_neg heq]
        refine ⟨hq, ?_⟩
        simpa [Ne.symm heq] using hoccurs
  · rw [List.map_cons, List.nodup_cons]
    refine ⟨fun hmem => ?_, h.nodup⟩
    have hgone := ((h.requests req).mp hmem).1
    rw [hget, if_pos hid] at hgone
    cases hgone
  · intro k
    rw [h.left, hget, occurs_cons]
    by_cases hk : resp.opaqueId = k
    · subst hk
      simp
    · simp [hk, Ne.symm hk]

end OneResponse

theorem matchLoop_answers {r : State} {reqMap : SortedMap ℤ RocketMQMessage}
    {records : List (Record Message)}
    (hids : ∀ k req, reqMap.get? k = some req → req.opaqueId = k) :
    ∃ pairs, (matchLoop r reqMap records respStream).2.2
        = records ++ pairs.map (fun p => recordOf p.1 p.2)
      ∧ Answers reqMap (matchLoop r reqMap records respStream).2.1 respStream pairs := by
  induction respStream generalizing r reqMap records with
  | nil =>
      refine ⟨[], (List.append_nil _).symm, List.Sublist.refl _, by simp, ?_, List.nodup_nil, ?_⟩
      · intro req
        simp [occurs]
      · intro k
        rfl
  | cons resp respStream ih =>
      rw [matchLoop]
      rcases hreq : reqMap.get? resp.opaqueId with _ | req
      · obtain ⟨pairs, hrecords, hanswers⟩ := @ih r reqMap records hids
        exact ⟨pairs, hrecords, hanswers.skip hreq⟩
      · have hids' : ∀ k q, (reqMap.remove req.opaqueId).get? k = some q → q.opaqueId = k := by
          intro k q hq
          rw [SortedMap.get?_remove] at hq
          split_ifs at hq
          exact hids k q hq
        obtain ⟨pairs, hrecords, hanswers⟩ :=
          @ih { r with requestOpaqueMap := r.requestOpaqueMap.remove req.opaqueId }
            (reqMap.remove req.opaqueId) (records ++ [recordOf req resp]) hids'
        refine ⟨(req, resp) :: pairs, ?_, hanswers.take hreq (hids _ _ hreq)⟩
        dsimp only
        rw [hrecords, List.append_assoc]
        rfl

/-! ## The queue -/

/-- The queue after a `Match` holds the requests whose opaque id stays. -/
theorem waiting_eq {pairs : List (RocketMQMessage × RocketMQMessage)}
    {reqMap' : SortedMap ℤ RocketMQMessage}
    (h : Answers (requestMap reqStream) reqMap' respStream pairs) :
    (reqStream.filter fun req => (reqMap'.get? req.opaqueId).any fun last => !timedOut now last)
      = reqStream.filter fun req => stays now reqStream respStream req.opaqueId := by
  refine List.filter_congr fun req _ => ?_
  rw [h.left, requestMap_get?]
  unfold stays
  rcases occurs req.opaqueId respStream with _ | _
  · rfl
  · rfl

/-- The requests that leave the queue without a record. -/
def lost (now : ℤ) (reqStream respStream : List RocketMQMessage) : List RocketMQMessage :=
  ((lasts reqStream).filter fun req => !occurs req.opaqueId respStream
      && !stays now reqStream respStream req.opaqueId)
    ++ (replaced reqStream).filter fun req => !stays now reqStream respStream req.opaqueId

/-- Each request is answered, stays in the queue or is lost. -/
theorem requests_perm {pairs : List (RocketMQMessage × RocketMQMessage)}
    {reqMap' : SortedMap ℤ RocketMQMessage}
    (h : Answers (requestMap reqStream) reqMap' respStream pairs) :
    (pairs.map Prod.fst ++ ((reqStream.filter fun req => stays now reqStream respStream req.opaqueId)
      ++ lost now reqStream respStream)).Perm reqStream := by
  -- The answered requests are the last ones of the ids that have a response.
  have hanswered : (pairs.map Prod.fst).Perm
      ((lasts reqStream).filter fun req => occurs req.opaqueId respStream) := by
    refine (List.perm_ext_iff_of_nodup h.nodup ((lasts_nodup reqStream).filter _)).mpr fun req => ?_
    rw [h.requests, requestMap_get?, List.mem_filter, mem_lasts_iff]
  have hunanswered : (((lasts reqStream).filter fun req => stays now reqStream respStream req.opaqueId)
      ++ (lasts reqStream).filter fun req => !occurs req.opaqueId respStream
        && !stays now reqStream respStream req.opaqueId).Perm
      ((lasts reqStream).filter fun req => !occurs req.opaqueId respStream) := by
    have hsplit := List.filter_append_perm (fun req => stays now reqStream respStream req.opaqueId)
      ((lasts reqStream).filter fun req => !occurs req.opaqueId respStream)
    rw [List.filter_filter, List.filter_filter] at hsplit
    have hstays : ((lasts reqStream).filter fun req => stays now reqStream respStream req.opaqueId
        && !occurs req.opaqueId respStream)
        = (lasts reqStream).filter fun req => stays now reqStream respStream req.opaqueId := by
      refine List.filter_congr fun req _ => ?_
      unfold stays
      rcases occurs req.opaqueId respStream with _ | _ <;> simp
    rw [hstays] at hsplit
    simpa only [Bool.and_comm] using hsplit
  have hlasts := List.filter_append_perm (fun req => occurs req.opaqueId respStream) (lasts reqStream)
  have hreplaced := List.filter_append_perm
    (fun req => stays now reqStream respStream req.opaqueId) (replaced reqStream)
  have hqueue := ((lasts_append_replaced reqStream).filter
    fun req => stays now reqStream respStream req.opaqueId)
  rw [List.filter_append] at hqueue
  -- As multisets the parts are added up.
  rw [← Multiset.coe_eq_coe] at hanswered hunanswered hlasts hreplaced hqueue ⊢
  have hall := Multiset.coe_eq_coe.mpr (lasts_append_replaced reqStream)
  unfold lost
  simp only [← Multiset.coe_add] at hanswered hunanswered hlasts hreplaced hqueue hall ⊢
  rw [← hall, ← hlasts, ← hreplaced, ← hunanswered, hanswered, ← hqueue]
  abel

/-- A last request that is lost has waited too long. -/
theorem timedOut_of_lost (hlast : req ∈ lasts reqStream)
    (hlost : (!occurs req.opaqueId respStream && !stays now reqStream respStream req.opaqueId) = true) :
    timedOut now req = true := by
  unfold stays at hlost
  rw [mem_lasts_iff.mp hlast] at hlost
  rcases hoccurs : occurs req.opaqueId respStream with _ | _
  · simpa [hoccurs] using hlost
  · simp [hoccurs] at hlost

theorem lost_timedOut_iff : (∀ req ∈ lost now reqStream respStream, timedOut now req = true)
    ↔ ∀ req ∈ replaced reqStream,
      stays now reqStream respStream req.opaqueId = true ∨ timedOut now req = true := by
  unfold lost
  rw [List.forall_mem_append]
  constructor
  · rintro ⟨-, hreplaced⟩ req hmem
    rcases hstays : stays now reqStream respStream req.opaqueId with _ | _
    · exact Or.inr (hreplaced req (List.mem_filter.mpr ⟨hmem, by rw [hstays]; rfl⟩))
    · exact Or.inl rfl
  · intro hreplaced
    refine ⟨fun req hmem => ?_, fun req hmem => ?_⟩
    · obtain ⟨hlast, hlost⟩ := List.mem_filter.mp hmem
      exact timedOut_of_lost hlast hlost
    · obtain ⟨hmem, hgone⟩ := List.mem_filter.mp hmem
      rcases hreplaced req hmem with hstays | hold
      · rw [hstays] at hgone
        cases hgone
      · exact hold

/-- The messages are accounted for just when the requests that are lost are old. -/
theorem accounted_iff_lost (r : State) :
    Accounted now reqStream respStream (matchStreams now r reqStream respStream).2.1
        (matchStreams now r reqStream respStream).2.2.1
      ↔ ∀ req ∈ lost now reqStream respStream, timedOut now req = true := by
  obtain ⟨pairs, hrecords, hanswers⟩ := @matchLoop_answers respStream r (requestMap reqStream) []
    (fun k req h => opaqueId_of_requestMap h)
  have hperm := @requests_perm reqStream respStream now pairs _ hanswers
  unfold matchStreams
  dsimp only
  rw [waiting_eq hanswers, hrecords, List.nil_append]
  constructor
  · rintro ⟨pairs', dropped, hpairs, -, -, -, hold, hperm'⟩
    obtain rfl : pairs = pairs' :=
      List.map_injective_iff.mpr (fun _ _ h => recordOf_injective h) hpairs
    -- What is neither in a record nor in the queue is what is dropped.
    have hdropped := (List.perm_append_left_iff _).mp
      ((List.perm_append_left_iff _).mp (hperm.trans hperm'.symm))
    intro req hmem
    exact hold req (hdropped.subset hmem)
  · intro hold
    exact ⟨pairs, _, rfl, hanswers.responses, hanswers.ids, List.filter_sublist, hold, hperm⟩

/-- **Where the messages of a `Match` go.** They are all accounted for just when each request that a
later one of its opaque id has replaced stays along with the last of them, or is old itself. -/
theorem matchStreams_accounted_iff (now : ℤ) (r : State) (reqStream respStream : List RocketMQMessage) :
    Accounted now reqStream respStream (matchStreams now r reqStream respStream).2.1
        (matchStreams now r reqStream respStream).2.2.1
      ↔ ∀ req ∈ replaced reqStream,
        stays now reqStream respStream req.opaqueId = true ∨ timedOut now req = true :=
  (accounted_iff_lost r).trans lost_timedOut_iff

/-! Two requests of one opaque id and a response to it. -/

/-- A message of opaque id 7 at a time. -/
def messageAt (timestampNs : ℕ) (isReq : Bool) : RocketMQMessage :=
  { base := ⟨timestampNs, 0, 0⟩, requestCode := 10, languageCode := 0, versionFlag := 300
    opaqueId := 7, requestFlag := 0, isReq := isReq }

theorem replaced_request_lost : ¬ ∀ (now : ℤ) (r : State) (reqStream respStream : List RocketMQMessage),
    Accounted now reqStream respStream (matchStreams now r reqStream respStream).2.1
      (matchStreams now r reqStream respStream).2.2.1 := by
  intro h
  have hold := (accounted_iff_lost _).mp
    (h 3 ⟨SortedMap.empty⟩ [messageAt 0 true, messageAt 1 true] [messageAt 2 false])
  revert hold
  decide

end Kyanos.RocketMQ
