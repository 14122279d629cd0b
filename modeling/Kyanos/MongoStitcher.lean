/-
`agent/protocol/mongodb/mongodb.go` and `stitcher.go`: the MongoDB matcher.

The requests are answered in the order they were parsed. A response that has more to come is
extended by the responses that name it, each later than the one before, so looking for them
ends (`nextResponse_later`, which is what `chase` recurses on). A response is paired with the
last request that is not later than it, and nothing that is done to the two frames afterwards
touches their times.

The frames are pointers in the source. Here a frame that is changed is put back at its place
in its queue.
-/
import Kyanos.Mongo

set_option autoImplicit false

namespace Kyanos.Mongo

/-! ## The queues -/

/-- `map[StreamId]*ParsedMessageQueue`, of frames. -/
abbrev FrameQueues := SortedMap ℤ (List MongoDBFrame)

/-- The two arguments of `Match`. -/
structure Streams where
  reqStreams : FrameQueues
  respStreams : FrameQueues

/-- The frame at a place of the queues is changed. -/
def modifyAt (queues : FrameQueues) (key : ℤ) (i : ℕ) (f : MongoDBFrame → MongoDBFrame) :
    FrameQueues :=
  match queues.get? key with
  | none => queues
  | some deque => queues.put key (deque.modify i f)

def consume (frame : MongoDBFrame) : MongoDBFrame := { frame with consumed := true }

/-- `FlattenSections`. -/
def flattenSections (frame : MongoDBFrame) : MongoDBFrame :=
  { frame with
    frameBody := frame.frameBody
      ++ (frame.sections.flatMap MongoSection.documents).flatMap (fun doc => doc ++ text " ")
    sections := [] }

/-! ## More to come -/

/-- The halving loop of `sort.Search`. -/
def searchLoop (f : ℕ → Bool) (i j : ℕ) : ℕ :=
  if i < j then
    let h := (i + j) / 2
    if f h then searchLoop f i h else searchLoop f (h + 1) j
  else i
termination_by j - i

/-- `sort.Search`. -/
def search (n : ℕ) (f : ℕ → Bool) : ℕ := searchLoop f 0 n

/-- What is found below `j` has the property, in order or not. -/
theorem searchLoop_found (f : ℕ → Bool) {i j : ℕ} (h : i ≤ j) :
    searchLoop f i j = j ∨ f (searchLoop f i j) = true := by
  induction i, j using searchLoop.induct f with
  | case1 i j hlt m hm ih =>
      rw [searchLoop, if_pos hlt, if_pos hm]
      rcases ih (by omega) with heq | hfound
      · right
        rw [heq]
        exact hm
      · exact Or.inr hfound
  | case2 i j hlt m hm ih =>
      rw [searchLoop, if_pos hlt, if_neg hm]
      exact ih (by omega)
  | case3 i j hge =>
      rw [searchLoop, if_neg hge]
      left
      omega

/-- The frame is later than a time. -/
def later (t : ℕ) (frame : MongoDBFrame) : Bool := t < frame.base.timestampNs

/-- The response that goes on behind `cur`, and its place in the queues. -/
def nextResponse (resps : FrameQueues) (cur : MongoDBFrame) (latestRespTs : ℕ) :
    Option (ℤ × ℕ × MongoDBFrame) :=
  match resps.get? cur.requestId with
  | none => none
  | some nextRespDeque =>
      let nextRespIndex := search nextRespDeque.length
        (fun i => nextRespDeque[i]?.any (later latestRespTs))
      match nextRespDeque[nextRespIndex]? with
      | none => none
      | some nextResp =>
          if nextResp.base.timestampNs < latestRespTs then none
          else some (cur.requestId, nextRespIndex, nextResp)

/-- All frames of the queues. -/
def frames (queues : FrameQueues) : List MongoDBFrame := queues.entries.flatMap Prod.snd

theorem nextResponse_later {resps : FrameQueues} {cur nextResp : MongoDBFrame} {t : ℕ} {key : ℤ}
    {i : ℕ} (h : nextResponse resps cur t = some (key, i, nextResp)) :
    nextResp ∈ frames resps ∧ t < nextResp.base.timestampNs := by
  unfold nextResponse at h
  rcases hdeque : resps.get? cur.requestId with _ | deque
  · rw [hdeque] at h
    cases h
  rw [hdeque] at h
  dsimp only at h
  split at h
  · cases h
  rename_i found hfound
  split_ifs at h
  cases h
  refine ⟨List.mem_flatMap.mpr ⟨_, SortedMap.mem_entries.mpr hdeque, List.mem_of_getElem? hfound⟩, ?_⟩
  rcases searchLoop_found (fun i => deque[i]?.any (later t)) (Nat.zero_le deque.length)
    with hend | hlater
  · -- Behind the queue there is no frame.
    have hnone : deque[search deque.length (fun i => deque[i]?.any (later t))]? = none :=
      List.getElem?_eq_none hend.ge
    rw [hnone] at hfound
    cases hfound
  · change deque[search deque.length (fun i => deque[i]?.any (later t))]?.any (later t) = true
      at hlater
    rw [hfound] at hlater
    exact of_decide_eq_true hlater

/-- How many frames are later than a time. -/
def laterCount (queues : FrameQueues) (t : ℕ) : ℕ := ((frames queues).filter (later t)).length

theorem laterCount_lt {queues : FrameQueues} {frame : MongoDBFrame} {t : ℕ}
    (hmem : frame ∈ frames queues) (ht : t < frame.base.timestampNs) :
    laterCount queues frame.base.timestampNs < laterCount queues t := by
  -- The frames later than the frame are among those later than the time.
  have hsub : (frames queues).filter (later frame.base.timestampNs)
      = ((frames queues).filter (later t)).filter (later frame.base.timestampNs) := by
    rw [List.filter_filter]
    apply List.filter_congr
    intro g _
    by_cases hg : frame.base.timestampNs < g.base.timestampNs
    · simp [later, hg, ht.trans hg]
    · simp [later, hg]
  unfold laterCount
  rw [hsub]
  apply List.length_filter_lt_length_iff_exists.mpr
  exact ⟨frame, List.mem_filter.mpr ⟨hmem, by simpa [later] using ht⟩, by simp [later]⟩

/-- The loop of `FindMoreToComeResponses`: the responses that go on behind `cur`, in order, and
the time of the last one. -/
def chase (resps : FrameQueues) (cur : MongoDBFrame) (latestRespTs : ℕ) :
    List (ℤ × ℕ × MongoDBFrame) × ℕ :=
  if cur.moreToCome then
    match _hnext : nextResponse resps cur latestRespTs with
    | none => ([], latestRespTs)
    | some (key, i, nextResp) =>
        let (rest, last) := chase resps nextResp nextResp.base.timestampNs
        ((key, i, nextResp) :: rest, last)
  else ([], latestRespTs)
termination_by laterCount resps latestRespTs
decreasing_by
  obtain ⟨hmem, hlater⟩ := nextResponse_later _hnext
  exact laterCount_lt hmem hlater

/-- The sections of a response that goes on are added to it, and its sizes. -/
def extend (respFrame nextResp : MongoDBFrame) : MongoDBFrame :=
  { respFrame with
    sections := respFrame.sections ++ nextResp.sections
    length := intOf 32 (respFrame.length + nextResp.length)
    base := { respFrame.base with byteSize := respFrame.base.byteSize + nextResp.base.byteSize } }

/-! ## `Match` -/

def recordOf (reqFrame respFrame : MongoDBFrame) : Record Message :=
  { req := some (.mongo reqFrame), resp := some (.mongo respFrame), responseStatus := .successStatus }

/-- The first response that is not consumed, and its place. -/
def firstResponse (respDeque : List MongoDBFrame) : Option (MongoDBFrame × ℕ) :=
  respDeque.zipIdx.find? (fun (frame, _) => !frame.consumed)

/-- The last request that is not later than a response, and its place. -/
def lastRequest (reqDeque : List MongoDBFrame) (latestRespTs : ℕ) : Option (MongoDBFrame × ℕ) :=
  reqDeque.zipIdx.reverse.find? (fun (frame, _) => frame.base.timestampNs ≤ latestRespTs)

/-- What the loop over the responses of a stream leaves. -/
structure Answered where
  reqDeque : List MongoDBFrame
  respStreams : FrameQueues
  latestRespTs : ℕ
  record : Option (Record Message)

/-- The loop over the responses of a stream, which ends behind the first one that is not
consumed. -/
def answer (respStreams : FrameQueues) (streamId : ℤ) (reqDeque respDeque : List MongoDBFrame) :
    Answered :=
  match firstResponse respDeque with
  | none => ⟨reqDeque, respStreams, 0, none⟩
  | some (respFrame, i) =>
      match lastRequest reqDeque respFrame.base.timestampNs with
      | none =>
          ⟨reqDeque, modifyAt respStreams streamId i consume, respFrame.base.timestampNs, none⟩
      | some (reqFrame, j) =>
          let (extension, latestRespTs) := chase respStreams respFrame respFrame.base.timestampNs
          -- The extension is read before any frame is changed; it does not hold `respFrame`,
          -- which is earlier than all of it.
          let extended := extension.foldl (fun resp (_, _, nextResp) => extend resp nextResp) respFrame
          let consumed := extension.foldl (fun resps (key, i, _) => modifyAt resps key i consume)
            respStreams
          let reqFrame := flattenSections (consume reqFrame)
          let respFrame := flattenSections (consume extended)
          ⟨reqDeque.set j reqFrame, modifyAt consumed streamId i (fun _ => respFrame), latestRespTs,
            some (recordOf reqFrame respFrame)⟩

/-- The body of the loop over `StreamOrder`; `none` when one of the two queues is missing. -/
def matchStream (s : Streams) (streamId : ℤ) : Option (Streams × Option (Record Message)) :=
  match s.respStreams.get? streamId, s.reqStreams.get? streamId with
  | some respDeque, some reqDeque =>
      let a := answer s.respStreams streamId reqDeque respDeque
      -- Requests that are answered, or older than the last response, go from the front.
      let left := a.reqDeque.dropWhile
        (fun frame => frame.consumed || frame.base.timestampNs < a.latestRespTs)
      let reqStreams :=
        if left.length = 0 then s.reqStreams.remove streamId else s.reqStreams.put streamId left
      some (⟨reqStreams, a.respStreams⟩, a.record)
  | _, _ => none

/-- The loop over `StreamOrder`. -/
def matchLoop (s : Streams) (records : List (Record Message)) :
    List StreamOrderPair → List StreamOrderPair × Streams × List (Record Message)
  | [] => ([], s, records)
  | pair :: streamOrder =>
      match matchStream s pair.streamId with
      | none =>
          let (streamOrder, s, records) := matchLoop s records streamOrder
          (pair :: streamOrder, s, records)
      | some (s, record) =>
          let (streamOrder, s, records) := matchLoop s (records ++ record.toList) streamOrder
          ({ pair with processed := true } :: streamOrder, s, records)

/-- `Match`. The responses are cleared in the end, and the requests that had their turn. -/
def matchStreams (m : State) (s : Streams) : State × List (Record Message) × Streams :=
  if s.reqStreams.size = 0 ∨ s.respStreams.size = 0 then (m, [], s)
  else
    let (streamOrder, s, records) := matchLoop s [] m.streamOrder
    (⟨streamOrder.filter (fun pair => !pair.processed)⟩, records, ⟨s.reqStreams, SortedMap.empty⟩)

/-! ## The records -/

theorem foldl_extend_base (extension : List (ℤ × ℕ × MongoDBFrame)) (respFrame : MongoDBFrame) :
    (extension.foldl (fun resp (_, _, nextResp) => extend resp nextResp) respFrame).base.timestampNs
      = respFrame.base.timestampNs := by
  induction extension generalizing respFrame with
  | nil => rfl
  | cons next extension ih => exact ih _

/-- A response is answered with a request that is not later. -/
theorem answer_forward {respStreams : FrameQueues} {streamId : ℤ}
    {reqDeque respDeque : List MongoDBFrame} {record : Record Message}
    (h : (answer respStreams streamId reqDeque respDeque).record = some record) :
    record.Forward := by
  unfold answer at h
  split at h
  · cases h
  rename_i respFrame i _
  split at h
  · cases h
  rename_i reqFrame j hreq
  have hle : reqFrame.base.timestampNs ≤ respFrame.base.timestampNs := by
    have hfound := List.find?_some hreq
    simpa using hfound
  cases h
  refine ⟨_, _, rfl, rfl, ?_⟩
  change reqFrame.base.timestampNs ≤ (List.foldl _ respFrame _).base.timestampNs
  rw [foldl_extend_base]
  exact hle

theorem matchLoop_forward {s : Streams} {records : List (Record Message)}
    {streamOrder : List StreamOrderPair} (h : ∀ record ∈ records, record.Forward) :
    ∀ record ∈ (matchLoop s records streamOrder).2.2, record.Forward := by
  induction streamOrder generalizing s records with
  | nil => exact h
  | cons pair streamOrder ih =>
      rw [matchLoop]
      rcases hstream : matchStream s pair.streamId with _ | ⟨s', record⟩
      · exact ih h
      · refine ih (List.forall_mem_append.mpr ⟨h, ?_⟩)
        intro r hnew
        rw [Option.mem_toList] at hnew
        unfold matchStream at hstream
        split at hstream
        · cases hstream
          exact answer_forward hnew
        · cases hstream

/-- **The records of the MongoDB matcher run forward**, in whatever order the queues are. -/
theorem matchStreams_forward (m : State) (s : Streams) :
    ∀ record ∈ (matchStreams m s).2.1, record.Forward := by
  unfold matchStreams
  split_ifs
  · simp
  · exact matchLoop_forward (by simp)

end Kyanos.Mongo
