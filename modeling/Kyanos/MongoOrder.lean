/-
Whether the entries of `StreamOrder` go, over any run of `ParseStream` and `Match`.

A `Session` is the parser with its two maps of queues, to which the frames of a parse that
ends in `Success` are delivered. An entry is made by `ParseStream` and taken out by the `Match`
that gives it its turn, which takes a queue of responses and a queue of requests under its id.
Without a queue of requests there is no turn, so the entry stays for good. That happens in two ways.
No request with the id of the entry is there when `Match` comes: its parse ended in `Invalid`, or
it names another message, and is delivered under that one's id. Or an entry repeats an id, and the
turn of the one before it leaves no request (`Outlasts`). In a run without either no entry is
left over, and in any other some is (`run_noLeaks_iff`).
-/
import Kyanos.MongoStitcher
import Kyanos.Trace

set_option autoImplicit false

open Trace

namespace Kyanos.Mongo

/-! ## Sessions -/

/-- The parser with the queues of its connection. -/
structure Session where
  parser : State
  streams : Streams

/-- `NewMongoDBStreamParser`, without queues. -/
def Session.new : Session := ⟨⟨[]⟩, ⟨SortedMap.empty, SortedMap.empty⟩⟩

inductive Call
  | parseStream (sb : StreamBuffer) (messageType : MessageType)
  | matchStreams

/-- A parsed message goes to the queue of its stream, which is made for the first one. -/
def deliver (queues : FrameQueues) (parsedMessage : ParsedMessage MongoDBFrame) : FrameQueues :=
  queues.put parsedMessage.streamId
    ((queues.get? parsedMessage.streamId).getD [] ++ [parsedMessage.payload])

/-- The queues after a parse. -/
def Streams.deliver (s : Streams) (messageType : MessageType) (r : ParseResult MongoDBFrame) :
    Streams :=
  if r.parseState ≠ .success then s
  else if messageType = .request then
    { s with reqStreams := r.parsedMessages.foldl Mongo.deliver s.reqStreams }
  else { s with respStreams := r.parsedMessages.foldl Mongo.deliver s.respStreams }

def Session.step (bson : GoString → Option Document) (rounds : ℕ) (s : Session) :
    Call → Except Abort Session
  | .parseStream sb messageType => do
      let (r, m) ← parseStream bson rounds s.parser sb messageType
      .ok ⟨m, s.streams.deliver messageType r⟩
  | .matchStreams =>
      let (m, _, streams) := matchStreams s.parser s.streams
      .ok ⟨m, streams⟩

/-- Every entry of `StreamOrder` has a request with its id that waits. -/
def Session.NoLeak (s : Session) : Prop :=
  ∀ pair ∈ s.parser.streamOrder, ∃ reqDeque,
    s.streams.reqStreams.get? pair.streamId = some reqDeque
      ∧ ∃ req ∈ reqDeque, streamId req = pair.streamId

/-- No entry is left over after any `Match` of a run. -/
def NoLeaks (bson : GoString → Option Document) (rounds : ℕ) (calls : List Call) : Prop :=
  ∀ front s, front ++ [.matchStreams] <+: calls →
    Run (Session.step bson rounds) (fun _ _ => True) Session.new (front ++ [.matchStreams]) s →
    s.NoLeak

/-! ## The condition -/

/-- The request that is answered at the turn of a stream, by its place in the queue. -/
def answeredAt (reqDeque respDeque : List MongoDBFrame) : Option ℕ := do
  let (respFrame, _) ← firstResponse respDeque
  let (_, j) ← lastRequest reqDeque respFrame.base.timestampNs
  some j

/-- The time of the last response of the answer; zero without one. -/
def answerTime (respStreams : FrameQueues) (reqDeque respDeque : List MongoDBFrame) : ℕ :=
  match firstResponse respDeque with
  | none => 0
  | some (respFrame, _) =>
      match lastRequest reqDeque respFrame.base.timestampNs with
      | none => respFrame.base.timestampNs
      | some _ => (chase respStreams respFrame respFrame.base.timestampNs).2

/-- A request of the stream is not answered at its turn or before, and is not older than the
answer. -/
def Outlasts (s : Streams) (streamId : ℤ) : Prop :=
  match s.respStreams.get? streamId, s.reqStreams.get? streamId with
  | some respDeque, some reqDeque => ∃ x ∈ reqDeque.zipIdx, x.1.consumed = false
      ∧ answeredAt reqDeque respDeque ≠ some x.2
      ∧ answerTime s.respStreams reqDeque respDeque ≤ x.1.base.timestampNs
  | _, _ => True

/-- The queues behind the turn of a stream. -/
def behind (s : Streams) (streamId : ℤ) : Streams :=
  match matchStream s streamId with
  | none => s
  | some (s, _) => s

/-- The requests of an id outlast each turn but the last. -/
def RepeatsOutlast (s : Streams) : List ℤ → Prop
  | [] => True
  | streamId :: streamIds =>
      (streamId ∈ streamIds → Outlasts s streamId) ∧ RepeatsOutlast (behind s streamId) streamIds

/-- The condition on a call: when `Match` comes, the id of every entry has a request that waits, and
if `Match` goes through the entries, one waits at each of them. -/
def Session.Meets (s : Session) : Call → Prop
  | .parseStream _ _ => True
  | .matchStreams =>
      (∀ pair ∈ s.parser.streamOrder, (s.streams.reqStreams.get? pair.streamId).isSome)
        ∧ (s.streams.reqStreams.size = 0 ∨ s.streams.respStreams.size = 0
          ∨ RepeatsOutlast s.streams (s.parser.streamOrder.map StreamOrderPair.streamId))

/-! ## One turn -/

variable {s s' : Streams} {id : ℤ} {record : Option (Record Message)}

theorem get?_modifyAt_isSome (queues : FrameQueues) (key : ℤ) (i : ℕ)
    (f : MongoDBFrame → MongoDBFrame) (j : ℤ) :
    ((modifyAt queues key i f).get? j).isSome = (queues.get? j).isSome := by
  unfold modifyAt
  rcases hkey : queues.get? key with _ | deque
  · rfl
  · dsimp only
    rw [SortedMap.get?_put]
    split_ifs with hj
    · rw [hj, hkey]
      rfl
    · rfl

theorem get?_foldl_modifyAt_isSome (extension : List (ℤ × ℕ × MongoDBFrame)) (queues : FrameQueues)
    (j : ℤ) : ((extension.foldl (fun resps (key, i, _) => modifyAt resps key i consume)
      queues).get? j).isSome = (queues.get? j).isSome := by
  induction extension generalizing queues with
  | nil => rfl
  | cons x extension ih =>
      rw [List.foldl_cons, ih]
      exact get?_modifyAt_isSome _ _ _ _ _

/-- What the answer to a stream leaves: the same streams have responses, and of the requests one
at most is changed. -/
structure Leaves (respStreams : FrameQueues) (reqDeque respDeque : List MongoDBFrame)
    (a : Answered) : Prop where
  resps : ∀ key, (a.respStreams.get? key).isSome = (respStreams.get? key).isSome
  time : a.latestRespTs = answerTime respStreams reqDeque respDeque
  reqs : ∃ f : MongoDBFrame → MongoDBFrame, (∀ req, (f req).consumed = true
      ∧ streamId (f req) = streamId req)
    ∧ a.reqDeque = match answeredAt reqDeque respDeque with
      | none => reqDeque
      | some j => reqDeque.modify j f

theorem lastRequest_getElem? {reqDeque : List MongoDBFrame} {t j : ℕ} {reqFrame : MongoDBFrame}
    (h : lastRequest reqDeque t = some (reqFrame, j)) : reqDeque[j]? = some reqFrame := by
  have hmem := List.mem_of_find?_eq_some h
  rw [List.mem_reverse] at hmem
  exact List.mem_zipIdx_iff_getElem?.mp hmem

theorem answer_leaves (respStreams : FrameQueues) (id : ℤ) (reqDeque respDeque : List MongoDBFrame) :
    Leaves respStreams reqDeque respDeque (answer respStreams id reqDeque respDeque) := by
  have hflatten : ∀ req, (flattenSections (consume req)).consumed = true
      ∧ streamId (flattenSections (consume req)) = streamId req := fun req => ⟨rfl, rfl⟩
  rcases hresp : firstResponse respDeque with _ | ⟨respFrame, i⟩
  · have hnone : answeredAt reqDeque respDeque = none := by
      rw [answeredAt, hresp]
      rfl
    refine ⟨?_, ?_, _, hflatten, ?_⟩
    · intro key
      rw [answer, hresp]
    · rw [answer, answerTime, hresp]
    · rw [answer, hresp, hnone]
  · rcases hreq : lastRequest reqDeque respFrame.base.timestampNs with _ | ⟨reqFrame, j⟩
    · have hnone : answeredAt reqDeque respDeque = none := by
        simp [answeredAt, hresp, hreq]
      refine ⟨?_, ?_, _, hflatten, ?_⟩
      · intro key
        rw [answer, hresp]
        dsimp only
        rw [hreq]
        exact get?_modifyAt_isSome _ _ _ _ _
      · rw [answer, answerTime, hresp]
        dsimp only
        rw [hreq]
      · rw [answer, hresp, hnone]
        dsimp only
        rw [hreq]
    · have hsome : answeredAt reqDeque respDeque = some j := by
        simp [answeredAt, hresp, hreq]
      refine ⟨?_, ?_, _, hflatten, ?_⟩
      · intro key
        rw [answer, hresp]
        dsimp only
        rw [hreq]
        dsimp only
        rw [get?_modifyAt_isSome, get?_foldl_modifyAt_isSome]
      · rw [answer, answerTime, hresp]
        dsimp only
        rw [hreq]
      · rw [answer, hresp, hsome]
        dsimp only
        rw [hreq]
        dsimp only
        -- the request that is put back is the one at its place
        obtain ⟨hlt, hget⟩ := List.getElem?_eq_some_iff.mp (lastRequest_getElem? hreq)
        rw [List.modify_eq_set_get _ hlt, List.get_eq_getElem, hget]

/-- The requests of every stream are of that stream, and there is one at least. -/
def Queued (queues : FrameQueues) : Prop :=
  ∀ key deque, queues.get? key = some deque → deque ≠ [] ∧ ∀ req ∈ deque, streamId req = key

theorem Queued.waits {queues : FrameQueues} (h : Queued queues) (key : ℤ) :
    (∃ deque, queues.get? key = some deque ∧ ∃ req ∈ deque, streamId req = key)
      ↔ (queues.get? key).isSome := by
  constructor
  · rintro ⟨deque, hget, -⟩
    rw [hget]
    rfl
  · intro hsome
    obtain ⟨deque, hget⟩ := Option.isSome_iff_exists.mp hsome
    obtain ⟨hne, hids⟩ := h key deque hget
    obtain ⟨req, hreq⟩ := List.exists_mem_of_ne_nil deque hne
    exact ⟨deque, hget, req, hreq, hids req hreq⟩

/-- A turn: only the requests of its own stream change, and they stay a queue just when one of
them outlasts it. -/
structure Turned (s s' : Streams) (id : ℤ) : Prop where
  resps : ∀ key, (s'.respStreams.get? key).isSome = (s.respStreams.get? key).isSome
  others : ∀ key, key ≠ id → s'.reqStreams.get? key = s.reqStreams.get? key
  own : (s'.reqStreams.get? id).isSome ↔ Outlasts s id
  queued : Queued s.reqStreams → Queued s'.reqStreams

theorem dropWhile_length_eq_zero_iff {α : Type} (p : α → Bool) (l : List α) :
    (l.dropWhile p).length = 0 ↔ ∀ a ∈ l, p a = true := by
  rw [List.length_eq_zero_iff, List.dropWhile_eq_nil_iff]

/-- What is left of the requests by the loop that cleans up. -/
theorem left_iff {respStreams : FrameQueues} {reqDeque respDeque : List MongoDBFrame} {a : Answered}
    (h : Leaves respStreams reqDeque respDeque a) :
    (a.reqDeque.dropWhile
        (fun frame => frame.consumed || frame.base.timestampNs < a.latestRespTs)).length ≠ 0
      ↔ ∃ x ∈ reqDeque.zipIdx, x.1.consumed = false ∧ answeredAt reqDeque respDeque ≠ some x.2
        ∧ answerTime respStreams reqDeque respDeque ≤ x.1.base.timestampNs := by
  obtain ⟨f, hf, hreqs⟩ := h.reqs
  have hplace : ∀ k frame, a.reqDeque[k]? = some frame ∧ frame.consumed = false
      ↔ reqDeque[k]? = some frame ∧ frame.consumed = false
        ∧ answeredAt reqDeque respDeque ≠ some k := by
    intro k frame
    rcases hanswered : answeredAt reqDeque respDeque with _ | j
    · rw [hanswered] at hreqs
      rw [hreqs]
      simp
    · rw [hanswered] at hreqs
      dsimp only at hreqs
      rw [hreqs, List.getElem?_modify]
      by_cases hj : j = k
      · subst hj
        constructor
        · rintro ⟨hget, hconsumed⟩
          obtain ⟨req, -, rfl⟩ := Option.map_eq_some_iff.mp hget
          rw [if_pos rfl, (hf req).1] at hconsumed
          cases hconsumed
        · rintro ⟨-, -, hne⟩
          exact absurd rfl hne
      · simp [hj]
  rw [Ne, dropWhile_length_eq_zero_iff, h.time]
  push Not
  constructor
  · rintro ⟨frame, hmem, hkept⟩
    obtain ⟨k, hget⟩ := List.getElem?_of_mem hmem
    rw [Ne, Bool.or_eq_true, not_or, Bool.not_eq_true, decide_eq_true_eq, not_lt] at hkept
    obtain ⟨hget, hconsumed, hne⟩ := (hplace k frame).mp ⟨hget, hkept.1⟩
    exact ⟨(frame, k), List.mem_zipIdx_iff_getElem?.mpr hget, hconsumed, hne, hkept.2⟩
  · rintro ⟨⟨frame, k⟩, hmem, hconsumed, hne, htime⟩
    obtain ⟨hget, hconsumed⟩ := (hplace k frame).mpr
      ⟨List.mem_zipIdx_iff_getElem?.mp hmem, hconsumed, hne⟩
    refine ⟨frame, List.mem_of_getElem? hget, ?_⟩
    rw [Ne, Bool.or_eq_true, not_or, Bool.not_eq_true, decide_eq_true_eq, not_lt]
    exact ⟨hconsumed, htime⟩

theorem Leaves.queued {respStreams : FrameQueues} {reqDeque respDeque : List MongoDBFrame}
    {a : Answered} {key : ℤ} (h : Leaves respStreams reqDeque respDeque a)
    (hids : ∀ req ∈ reqDeque, streamId req = key) : ∀ req ∈ a.reqDeque, streamId req = key := by
  obtain ⟨f, hf, hreqs⟩ := h.reqs
  rw [hreqs]
  rcases answeredAt reqDeque respDeque with _ | j
  · exact hids
  · intro req hreq
    obtain ⟨k, hget⟩ := List.getElem?_of_mem hreq
    rw [List.getElem?_modify] at hget
    obtain ⟨req₀, hget₀, heq⟩ := Option.map_eq_some_iff.mp hget
    have hid := hids req₀ (List.mem_of_getElem? hget₀)
    rw [← heq]
    split_ifs
    · rw [(hf req₀).2, hid]
    · exact hid

/-- **The turn of a stream**: there is one when it has both queues. -/
theorem matchStream_cases (s : Streams) (id : ℤ) :
    (matchStream s id = none ∧ (s.respStreams.get? id = none ∨ s.reqStreams.get? id = none))
      ∨ ∃ s' record, matchStream s id = some (s', record)
        ∧ (s.respStreams.get? id).isSome ∧ (s.reqStreams.get? id).isSome ∧ Turned s s' id := by
  rcases hresp : s.respStreams.get? id with _ | respDeque
  · refine Or.inl ⟨?_, Or.inl rfl⟩
    rw [matchStream, hresp]
  rcases hreq : s.reqStreams.get? id with _ | reqDeque
  · refine Or.inl ⟨?_, Or.inr rfl⟩
    rw [matchStream, hresp, hreq]
  refine Or.inr ⟨_, _, by rw [matchStream, hresp, hreq], rfl, rfl, ?_⟩
  have hleaves := answer_leaves s.respStreams id reqDeque respDeque
  have hleft := left_iff hleaves
  have hids := fun key => @Leaves.queued _ _ _ _ key hleaves
  have houtlasts : Outlasts s id ↔ ∃ x ∈ reqDeque.zipIdx, x.1.consumed = false
      ∧ answeredAt reqDeque respDeque ≠ some x.2
      ∧ answerTime s.respStreams reqDeque respDeque ≤ x.1.base.timestampNs := by
    rw [Outlasts, hresp, hreq]
  generalize answer s.respStreams id reqDeque respDeque = a at hleaves hleft hids ⊢
  refine ⟨hleaves.resps, ?_, ?_, ?_⟩
  · intro key hne
    dsimp only
    split_ifs
    · rw [SortedMap.get?_remove, if_neg hne]
    · rw [SortedMap.get?_put, if_neg hne]
  · rw [houtlasts, ← hleft]
    dsimp only
    split_ifs with hempty
    · rw [SortedMap.get?_remove, if_pos rfl]
      exact iff_of_false (by simp) (not_not.mpr hempty)
    · rw [SortedMap.get?_put, if_pos rfl]
      exact iff_of_true rfl hempty
  · intro hqueued key deque hget
    dsimp only at hget
    split_ifs at hget with hempty
    · rw [SortedMap.get?_remove] at hget
      split_ifs at hget
      exact hqueued key deque hget
    · rw [SortedMap.get?_put] at hget
      split_ifs at hget with hkey
      · cases hget
        refine ⟨fun hnil => hempty (by rw [hnil]; rfl), ?_⟩
        intro req hmem
        refine hids key ?_ req ((List.dropWhile_sublist _).subset hmem)
        rw [hkey]
        exact (hqueued id reqDeque hreq).2
      · exact hqueued key deque hget

/-! ## One `Match` -/

/-- A stream without responses keeps its requests through the loop. -/
theorem matchLoop_keeps {records : List (Record Message)} {streamOrder : List StreamOrderPair}
    {key : ℤ} (h : s.respStreams.get? key = none) :
    (matchLoop s records streamOrder).2.1.reqStreams.get? key = s.reqStreams.get? key := by
  induction streamOrder generalizing s records with
  | nil => rfl
  | cons pair streamOrder ih =>
      rw [matchLoop]
      rcases matchStream_cases s pair.streamId with ⟨hnone, -⟩ | ⟨s', record, hsome, hresp, -, hturn⟩
      · rw [hnone]
        exact ih h
      · rw [hsome]
        have hne : key ≠ pair.streamId := by
          rintro rfl
          rw [h] at hresp
          cases hresp
        have hnone : s'.respStreams.get? key = none := by
          rw [← Option.isNone_iff_eq_none, ← Option.not_isSome, hturn.resps, h]
          rfl
        exact (ih hnone).trans (hturn.others key hne)

/-- Streams of requests only go. -/
theorem matchLoop_shrinks {records : List (Record Message)} {streamOrder : List StreamOrderPair}
    {key : ℤ} (h : s.reqStreams.get? key = none) :
    (matchLoop s records streamOrder).2.1.reqStreams.get? key = none := by
  induction streamOrder generalizing s records with
  | nil => exact h
  | cons pair streamOrder ih =>
      rw [matchLoop]
      rcases matchStream_cases s pair.streamId with ⟨hnone, -⟩ | ⟨s', record, hsome, -, hreq, hturn⟩
      · rw [hnone]
        exact ih h
      · rw [hsome]
        refine ih ?_
        rw [hturn.others key, h]
        rintro rfl
        rw [h] at hreq
        cases hreq

/-- The queues stay queues through the loop, and so the entries stay entries. -/
theorem matchLoop_queued {records : List (Record Message)} {streamOrder : List StreamOrderPair}
    (h : Queued s.reqStreams) :
    Queued (matchLoop s records streamOrder).2.1.reqStreams := by
  induction streamOrder generalizing s records with
  | nil => exact h
  | cons pair streamOrder ih =>
      rw [matchLoop]
      rcases matchStream_cases s pair.streamId with ⟨hnone, -⟩ | ⟨s', record, hsome, -, -, hturn⟩
      · rw [hnone]
        exact ih h
      · rw [hsome]
        exact ih (hturn.queued h)

/-- Every entry that is left by the loop has requests. -/
def LeftWait (streamOrder : List StreamOrderPair) (s : Streams) : Prop :=
  ∀ pair ∈ streamOrder, pair.processed = false → (s.reqStreams.get? pair.streamId).isSome

/-- **The loop over the entries.** Those it leaves have requests just when all of them had some at
first, and where an id is repeated some outlast its turns. -/
theorem matchLoop_leftWait_iff {records : List (Record Message)}
    {streamOrder : List StreamOrderPair} (hfresh : ∀ pair ∈ streamOrder, pair.processed = false) :
    LeftWait (matchLoop s records streamOrder).1 (matchLoop s records streamOrder).2.1
      ↔ (∀ pair ∈ streamOrder, (s.reqStreams.get? pair.streamId).isSome)
        ∧ RepeatsOutlast s (streamOrder.map StreamOrderPair.streamId) := by
  induction streamOrder generalizing s records with
  | nil => simp [LeftWait, matchLoop, RepeatsOutlast]
  | cons pair streamOrder ih =>
      obtain ⟨hpair, hfresh⟩ := List.forall_mem_cons.mp hfresh
      rw [List.map_cons, RepeatsOutlast, List.forall_mem_cons, matchLoop]
      rcases matchStream_cases s pair.streamId with
        ⟨hnone, hmissing⟩ | ⟨s', record, hsome, -, hreq, hturn⟩
      · -- No turn: the entry stays, and needs requests.
        have hbehind : behind s pair.streamId = s := by
          rw [behind, hnone]
        have ih := @ih s records hfresh
        rw [hnone, hbehind]
        dsimp only
        rw [LeftWait, List.forall_mem_cons]
        change _ ∧ LeftWait _ _ ↔ _
        rw [ih]
        rcases hreq : s.reqStreams.get? pair.streamId with _ | reqDeque
        · rw [matchLoop_shrinks hreq]
          simp [hpair]
        · have hresp : s.respStreams.get? pair.streamId = none := by
            refine hmissing.resolve_right ?_
            rw [hreq]
            simp
          have houtlasts : Outlasts s pair.streamId := by
            rw [Outlasts, hresp]
            trivial
          rw [matchLoop_keeps hresp, hreq]
          simp [houtlasts]
      · -- A turn: the entry goes, and its requests if none outlasts it.
        have hbehind : behind s pair.streamId = s' := by
          rw [behind, hsome]
        have ih := @ih s' (records ++ record.toList) hfresh
        rw [hsome, hbehind]
        dsimp only
        rw [LeftWait, List.forall_mem_cons]
        change _ ∧ LeftWait _ _ ↔ _
        rw [ih]
        have hwait : (∀ p ∈ streamOrder, (s'.reqStreams.get? p.streamId).isSome)
            ↔ (∀ p ∈ streamOrder, (s.reqStreams.get? p.streamId).isSome)
              ∧ (pair.streamId ∈ streamOrder.map StreamOrderPair.streamId →
                Outlasts s pair.streamId) := by
          have hone : ∀ p : StreamOrderPair, (s'.reqStreams.get? p.streamId).isSome
              ↔ (s.reqStreams.get? p.streamId).isSome
                ∧ (p.streamId = pair.streamId → Outlasts s pair.streamId) := by
            intro p
            by_cases hid : p.streamId = pair.streamId
            · rw [hid, hturn.own]
              simp [hreq]
            · rw [hturn.others _ hid]
              simp [hid]
          constructor
          · intro hall
            refine ⟨fun p hp => ((hone p).mp (hall p hp)).1, ?_⟩
            intro hmem
            obtain ⟨p, hp, hid⟩ := List.mem_map.mp hmem
            exact ((hone p).mp (hall p hp)).2 hid
          · rintro ⟨hall, hrepeat⟩ p hp
            refine (hone p).mpr ⟨hall p hp, ?_⟩
            intro hid
            rw [← hid] at hrepeat ⊢
            exact hrepeat (List.mem_map_of_mem hp)
        rw [hwait]
        simp only [hreq, true_and, false_implies, Bool.true_eq_false, and_assoc]

/-! ## Runs -/

/-- What every run keeps: no entry had its turn yet, and the requests are in their queues. -/
structure Session.Inv (s : Session) : Prop where
  fresh : ∀ pair ∈ s.parser.streamOrder, pair.processed = false
  queued : Queued s.streams.reqStreams

/-- What a parse gives: nothing, or a frame, whose request id has a new entry if it is a
request. -/
inductive Parsed (m m' : State) (messageType : MessageType) (r : ParseResult MongoDBFrame) : Prop
  | nothing (messages : r.parsedMessages = []) (same : m' = m) : Parsed m m' messageType r
  | frame (frame : MongoDBFrame)
      (messages : r.parsedMessages = [⟨frame.isReq, streamId frame, frame⟩])
      (order : m'.streamOrder = if messageType = .request
        then m.streamOrder ++ [⟨frame.requestId, false⟩] else m.streamOrder) :
      Parsed m m' messageType r

section Steps

variable {bson : GoString → Option Document} {rounds : ℕ} {s s' : Session}

theorem finishFrame_parsed (m : State) (sb : StreamBuffer) (head : Buffer)
    (messageType : MessageType) (state : ParseState) (frame : MongoDBFrame) (d : BinaryDecoder) :
    Parsed m (finishFrame m sb head messageType state frame d).2 messageType
      (finishFrame m sb head messageType state frame d).1 := by
  unfold finishFrame
  rcases createFrameBase sb head d.readBytes with _ | fb
  · exact .nothing rfl rfl
  · refine .frame { frame with base := fb } rfl ?_
    dsimp only
    split_ifs
    · rfl
    · rfl

theorem parseStream_parsed {m m' : State} {sb : StreamBuffer} {messageType : MessageType}
    {r : ParseResult MongoDBFrame} (h : parseStream bson rounds m sb messageType = .ok (r, m')) :
    Parsed m m' messageType r := by
  unfold parseStream at h
  split at h
  · cases h
    exact .nothing rfl rfl
  rcases hhead : sb.head with _ | head
  · rw [hhead] at h
    cases h
  rw [hhead] at h
  dsimp only at h
  split at h
  · cases h
    exact .nothing rfl rfl
  split at h
  · cases h
    exact .nothing rfl rfl
  split at h
  · cases h
    exact .nothing rfl rfl
  split at h
  · cases h
    exact .nothing rfl rfl
  split at h
  · split at h
    · cases h
    · cases h
      exact .nothing rfl rfl
  · split at h
    · cases h
    · rename_i frame d _
      have hfinish := finishFrame_parsed m sb head messageType .invalid frame d
      rw [Except.ok.inj h] at hfinish
      exact hfinish
    · rename_i frame d _
      have hfinish := finishFrame_parsed m sb head messageType .success frame d
      rw [Except.ok.inj h] at hfinish
      exact hfinish

theorem Queued.deliver {queues : FrameQueues} (h : Queued queues) (frame : MongoDBFrame) :
    Queued (deliver queues ⟨frame.isReq, streamId frame, frame⟩) := by
  intro key deque hget
  rw [Mongo.deliver, SortedMap.get?_put] at hget
  split_ifs at hget with hkey
  · cases hget
    refine ⟨by simp, List.forall_mem_append.mpr ⟨?_, by simp [hkey]⟩⟩
    rcases hold : queues.get? (streamId frame) with _ | deque
    · simp
    · rw [hkey]
      exact (h _ _ hold).2
  · exact h key deque hget

theorem Session.inv_new : Session.new.Inv := by
  refine ⟨by simp [Session.new], ?_⟩
  intro key deque hget
  cases hget

/-- **One parse** keeps the invariant. -/
theorem Session.Inv.parsed {m : State} {messageType : MessageType} {r : ParseResult MongoDBFrame}
    (h : s.Inv) (hparsed : Parsed s.parser m messageType r) :
    Session.Inv ⟨m, s.streams.deliver messageType r⟩ := by
  cases hparsed with
  | nothing hmessages hsame =>
      have hstreams : s.streams.deliver messageType r = s.streams := by
        rw [Streams.deliver, hmessages]
        split_ifs <;> rfl
      rw [hstreams, hsame]
      exact h
  | frame frame hmessages horder =>
      constructor
      · dsimp only
        rw [horder]
        split_ifs
        · exact List.forall_mem_append.mpr ⟨h.fresh, by simp⟩
        · exact h.fresh
      · dsimp only
        rw [Streams.deliver, hmessages]
        split_ifs
        · exact h.queued
        · exact h.queued.deliver frame
        · exact h.queued

/-- **One match** keeps the invariant, and leaves no entry over just when it meets the
condition. -/
theorem Session.Inv.matched (h : s.Inv)
    (hstep : s.step bson rounds .matchStreams = .ok s') :
    s'.Inv ∧ (s'.NoLeak ↔ s.Meets .matchStreams) := by
  rw [Session.step, matchStreams] at hstep
  split_ifs at hstep with hidle
  · -- nothing to match, so no entry has its turn
    cases hstep
    refine ⟨h, ?_⟩
    have hall : s.NoLeak ↔ ∀ pair ∈ s.parser.streamOrder,
        (s.streams.reqStreams.get? pair.streamId).isSome :=
      forall₂_congr (fun pair _ => h.queued.waits pair.streamId)
    rw [Session.Meets, ← or_assoc]
    exact ⟨fun hno => ⟨hall.mp hno, Or.inl hidle⟩, fun hmeets => hall.mpr hmeets.1⟩
  · cases hstep
    have hqueued := @matchLoop_queued s.streams [] s.parser.streamOrder h.queued
    have hiff := @matchLoop_leftWait_iff s.streams [] _ h.fresh
    generalize matchLoop s.streams [] s.parser.streamOrder = loop at hqueued hiff ⊢
    refine ⟨⟨?_, hqueued⟩, ?_⟩
    · intro pair hpair
      simpa using (List.mem_filter.mp hpair).2
    · have hleft : Session.NoLeak ⟨⟨loop.1.filter (fun pair => !pair.processed)⟩,
          ⟨loop.2.1.reqStreams, SortedMap.empty⟩⟩ ↔ LeftWait loop.1 loop.2.1 := by
        unfold Session.NoLeak LeftWait
        dsimp only
        simp only [hqueued.waits, List.mem_filter, Bool.not_eq_true', and_imp]
      refine hleft.trans (hiff.trans ?_)
      rw [Session.Meets, ← or_assoc, or_iff_right hidle]

theorem Session.Inv.stepped {call : Call} (h : s.Inv)
    (hstep : s.step bson rounds call = .ok s') : s'.Inv := by
  rcases call with ⟨sb, messageType⟩ | _
  · obtain ⟨⟨r, m⟩, hparse, hstep⟩ := bind_eq_ok.mp hstep
    cases hstep
    exact h.parsed (parseStream_parsed hparse)
  · exact (h.matched hstep).1

end Steps

theorem run_inv {bson : GoString → Option Document} {rounds : ℕ} {pre : Session → Call → Prop}
    {calls : List Call} {s : Session}
    (hrun : Run (Session.step bson rounds) pre Session.new calls s) : s.Inv :=
  hrun.invariant Session.inv_new (fun _ _ _ h _ hstep => h.stepped hstep)

/-- **Runs of the parser and the matcher.** No `Match` of a run leaves an entry of `StreamOrder`
without a request just when, at each of them, every id in `StreamOrder` has a request that
waits, and where an id is repeated some outlast its turns. -/
theorem run_noLeaks_iff {bson : GoString → Option Document} {rounds : ℕ} {calls : List Call}
    {s : Session} (hrun : Run (Session.step bson rounds) (fun _ _ => True) Session.new calls s) :
    NoLeaks bson rounds calls
      ↔ Run (Session.step bson rounds) Session.Meets Session.new calls s := by
  -- A call of `ParseStream` is asked nothing.
  have hcalls : NoLeaks bson rounds calls ↔ ∀ front call s', front ++ [call] <+: calls →
      Run (Session.step bson rounds) (fun _ _ => True) Session.new (front ++ [call]) s' →
      call = .matchStreams → s'.NoLeak := by
    constructor
    · rintro hno front call s' hfront hfrontRun rfl
      exact hno front s' hfront hfrontRun
    · intro hall front s' hfront hfrontRun
      exact hall front .matchStreams s' hfront hfrontRun rfl
  rw [hcalls, Run.steps_iff _ hrun]
  · exact ⟨Run.mono fun _ _ => And.right, Run.mono fun _ _ => And.intro trivial⟩
  · intro front s₁ call s' hfrontRun _ hstep
    rcases call with _ | _
    · exact iff_of_true nofun trivial
    · rw [forall_prop_of_true rfl]
      exact ((run_inv hfrontRun).matched hstep).2

instance (s : Streams) (streamId : ℤ) : Decidable (Outlasts s streamId) := by
  unfold Outlasts
  split <;> infer_instance

def decideRepeats (s : Streams) : (streamIds : List ℤ) → Decidable (RepeatsOutlast s streamIds)
  | [] => isTrue trivial
  | streamId :: streamIds =>
      have := decideRepeats (behind s streamId) streamIds
      inferInstanceAs (Decidable (_ ∧ _))

instance (s : Streams) (streamIds : List ℤ) : Decidable (RepeatsOutlast s streamIds) :=
  decideRepeats s streamIds

instance (s : Session) (call : Call) : Decidable (s.Meets call) :=
  match call with
  | .parseStream _ _ => isTrue trivial
  | .matchStreams => inferInstanceAs (Decidable (_ ∧ _))

/-! ## An entry that stays -/

/-- A stream buffer whose head came in at a time. -/
def headAt (time : ℕ) (buf : GoString) : StreamBuffer :=
  { buffers := [⟨buf, 0⟩], timestamps := SortedMap.empty.put 0 time, capacity := 1024 }

/-- A message without sections. -/
def message (requestId responseTo flagBits : UInt8) : GoString :=
  [20, 0, 0, 0, requestId, 0, 0, 0, responseTo, 0, 0, 0, 221, 7, 0, 0, flagBits, 0, 0, 0]

/-- A request with a flag that must not be set, and one that is answered. -/
def invalidCalls : List Call :=
  [.parseStream (headAt 1 (message 1 0 4)) .request,
    .parseStream (headAt 2 (message 2 0 0)) .request,
    .parseStream (headAt 3 (message 3 2 0)) .response,
    .matchStreams]

/-- The request that is not valid has an entry, and no queue to go with. -/
theorem invalid_request_leaks :
    ¬ ∀ bson rounds calls s,
      Run (Session.step bson rounds) (fun _ _ => True) Session.new calls s →
      NoLeaks bson rounds calls := by
  intro h
  have horder : (exec (Session.step (fun _ => none) 8) (fun _ _ => True) Session.new
      invalidCalls).map (fun s => (s.parser.streamOrder.map StreamOrderPair.streamId,
        s.streams.reqStreams.keys)) = some ([1], []) := by decide +kernel
  obtain ⟨s, hexec, hleft⟩ := Option.map_eq_some_iff.mp horder
  have hrun := Run.of_exec hexec
  have hno := h _ 8 invalidCalls s hrun (invalidCalls.take 3) s (List.prefix_refl _) hrun
  obtain ⟨horder, hkeys⟩ := Prod.mk.inj hleft
  have hmem : (1 : ℤ) ∈ s.parser.streamOrder.map StreamOrderPair.streamId := by
    rw [horder]
    exact List.mem_cons_self
  obtain ⟨pair, hpair, hid⟩ := List.mem_map.mp hmem
  obtain ⟨reqDeque, hget, -⟩ := hno pair hpair
  -- no stream has requests
  have hkey : pair.streamId ∈ s.streams.reqStreams.keys :=
    SortedMap.mem_keys.mpr (by rw [hget]; rfl)
  rw [hkeys] at hkey
  cases hkey

/-- Two requests of which one is answered, and the id of the other once more, behind its answer. -/
def repeatedCalls : List Call :=
  [.parseStream (headAt 1 (message 1 0 0)) .request,
    .parseStream (headAt 2 (message 2 0 0)) .request,
    .parseStream (headAt 3 (message 3 2 0)) .response,
    .matchStreams,
    .parseStream (headAt 5 (message 1 0 0)) .request,
    .parseStream (headAt 4 (message 4 1 0)) .response,
    .matchStreams]

theorem run_noLeaks_repeated : ∃ s,
    Run (Session.step (fun _ => none) 8) (fun _ _ => True) Session.new repeatedCalls s
      ∧ NoLeaks (fun _ => none) 8 repeatedCalls := by
  have hsome : (exec (Session.step (fun _ => none) 8) Session.Meets Session.new
      repeatedCalls).isSome := by decide +kernel
  obtain ⟨s, hexec⟩ := Option.isSome_iff_exists.mp hsome
  have hmeets := Run.of_exec hexec
  have hrun := @Run.mono _ _ _ _ _ _ (fun _ _ => True) (fun _ _ _ => trivial) _ _ hmeets
  exact ⟨s, hrun, (run_noLeaks_iff hrun).mpr hmeets⟩

end Kyanos.Mongo
