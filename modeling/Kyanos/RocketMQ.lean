/-
`agent/protocol/rocketmq/rocketmq.go`: the RocketMQ parser.

A frame is a length and as many bytes, and the header in it is JSON or a binary form. The
decoder for JSON is a parameter. A slice of the head can reach into the spare capacity behind
it, and whether the properties of a message do is not checked, so that capacity is a
parameter too.

`Match` pairs a response with the last request of its opaque id, whatever their times. So its
records run forward in time just when no response in the queue is earlier than a request of
its opaque id (`matchStreams_forward_iff`).
-/
import Kyanos.Decoder

set_option autoImplicit false

open GoNum Trace

namespace Kyanos.RocketMQ

/-- `RocketMQStreamParser`: the opaque ids in `requestOpaqueMap`. -/
structure State where
  requestOpaqueMap : SortedMap ℤ Unit

/-- `binary.BigEndian.Uint32` at a position. -/
def uint32At (s : List UInt8) (i : ℤ) : Except Panic ℕ := do
  let bytes ← slice s i (i + 4)
  .ok (bigEndian bytes)

/-- `binary.BigEndian.Uint16` at a position. -/
def uint16At (s : List UInt8) (i : ℤ) : Except Panic ℕ := do
  let bytes ← slice s i (i + 2)
  .ok (bigEndian bytes)

/-! ## Headers -/

/-- `ConvertToLanguageCode`. -/
def convertToLanguageCode (language : GoString) : ℕ :=
  match ["JAVA", "CPP", "DOTNET", "PYTHON", "DELPHI", "ERLANG", "RUBY", "OTHER", "HTTP", "GO", "PHP",
    "OMS", "RUST", "NODE_JS"].findIdx? (fun name => text name == language) with
  | some code => code
  | none => 13

/-- `convertToLanguageCodeFromByte`. -/
def convertToLanguageCodeFromByte (flag : UInt8) : ℕ := if flag > 13 then 0 else flag.toNat

/-- The fields of a JSON header that the message keeps. -/
structure JsonHeader where
  code : ℤ
  language : GoString
  version : ℤ
  opaqueId : ℤ
  flag : ℤ
  remark : GoString := []

/-- The remark and the properties of a binary header. The remark must lie in the header; the
properties are cut from what lies behind it, `cap` bytes in all. Of these the ones in the head are
`behind`, and what the properties have beyond them is left out. `none` is an error. -/
def binaryTail (headerBody behind : List UInt8) (cap : ℤ) :
    Except Panic (Option (GoString × GoString)) := do
  let remark ← uint32At headerBody 13
  let remarkLength := intOf 32 remark
  -- A remark of a length below zero passes, and fails at the slice.
  if remarkLength > (headerBody.length : ℤ) - 17 then .ok none
  else
    let remarkBuf ← slice headerBody 17 (17 + remarkLength)
    let propertiesStart := 17 + remarkLength
    let properties ← slice headerBody propertiesStart headerBody.length
    if properties.length < 4 then .ok none
    else
      let propertiesLen ← uint32At headerBody propertiesStart
      let lo := propertiesStart + 4
      -- Only the memory behind the header bounds this slice.
      let hi := intOf 32 (lo + intOf 32 propertiesLen)
      if 0 ≤ lo ∧ lo ≤ hi ∧ hi ≤ cap then
        .ok (some (remarkBuf, ((headerBody ++ behind).drop lo.toNat).take (hi - lo).toNat))
      else .error .sliceOutOfRange

/-- `parseHeader`, for a header with `behind` behind it in the head, and `cap` bytes from its start
to the end of its memory. -/
def parseHeader (jsonHeader : GoString → Option JsonHeader) (headerBody behind : List UInt8)
    (cap : ℤ) (serializedType : ℕ) : Except Panic (Option RocketMQMessage) := do
  if serializedType = 0 then
    match jsonHeader headerBody with
    | none => .ok none
    | some temp =>
        .ok (some
          { base := ⟨0, 0, 0⟩, requestCode := temp.code
            languageCode := convertToLanguageCode temp.language, versionFlag := temp.version
            opaqueId := temp.opaqueId, requestFlag := temp.flag, remarkBuf := temp.remark
            isReq := false })
  else if serializedType = 1 then
    if headerBody.length < 18 then .ok none
    else
      let requestCode ← uint16At headerBody 0
      let language ← byteAt headerBody 2
      let versionFlag ← uint16At headerBody 3
      let opaqueId ← uint32At headerBody 5
      let requestFlag ← uint32At headerBody 9
      match ← binaryTail headerBody behind cap with
      | none => .ok none
      | some (remarkBuf, propertiesBuf) =>
          .ok (some
            { base := ⟨0, 0, 0⟩, requestCode := intOf 16 requestCode
              languageCode := convertToLanguageCodeFromByte language
              versionFlag := intOf 16 versionFlag, opaqueId := intOf 32 opaqueId
              requestFlag := intOf 32 requestFlag, remarkBuf := remarkBuf
              propertiesBuf := propertiesBuf, isReq := false })
  else .ok none

/-! ## Frames -/

/-- The body is cut from the frame, but the end of the cut forgets the four bytes of the
length. -/
def cutBody (buf : List UInt8) (headerDataLen frameSize : ℤ) : Except Panic GoString :=
  if frameSize > 4 + headerDataLen then slice buf (8 + headerDataLen) frameSize else .ok []

/-- The end of `ParseStream`, when the header is parsed. -/
def finishFrame (sb : StreamBuffer) (head : Buffer) (messageType : MessageType)
    (headerDataLen frameSize : ℤ) :
    Option RocketMQMessage → Except Panic (ParseResult RocketMQMessage)
  | none => .ok ⟨.invalid, [], frameSize⟩
  | some message => do
      let body ← cutBody head.buf headerDataLen frameSize
      match createFrameBase sb head frameSize with
      -- Without a time for the head the frame is read and thrown away.
      | none => .ok ⟨.ignore, [], frameSize⟩
      | some fb =>
          let message := { message with base := fb, bodyBuf := body, isReq := messageType = .request }
          .ok ⟨.success, [⟨message.isReq, 0, message⟩], frameSize⟩

/-- Whatever becomes of the frame, the size it gives itself is reported as read. -/
theorem finishFrame_readBytes {sb : StreamBuffer} {head : Buffer} {messageType : MessageType}
    {headerDataLen frameSize : ℤ} {message : Option RocketMQMessage} {r : ParseResult RocketMQMessage}
    (h : finishFrame sb head messageType headerDataLen frameSize message = .ok r) :
    r.readBytes = frameSize := by
  rcases message with _ | message
  · cases h
    rfl
  · obtain ⟨body, -, h⟩ := bind_eq_ok.mp h
    split at h
    · cases h
      rfl
    · cases h
      rfl

/-- `ParseStream`, on the head of the stream buffer, whose memory has `spare` bytes more. -/
def parseStream (jsonHeader : GoString → Option JsonHeader) (spare : ℕ) (sb : StreamBuffer)
    (messageType : MessageType) : Except Panic (ParseResult RocketMQMessage) :=
  match sb.head with
  | none => .error .nilDereference
  | some head =>
      let buf := head.buf
      if buf.length < 8 then .ok ⟨.needsMoreData, [], 0⟩
      else do
        let frame ← uint32At buf 0
        let frameSize : ℤ := frame
        -- The size is unsigned, so this is an empty frame.
        if frameSize ≤ 0 then .ok ⟨.invalid, [], 4⟩
        else if frameSize + 4 > buf.length then .ok ⟨.needsMoreData, [], 0⟩
        else
          let headerLength ← uint32At buf 4
          let headerDataLen : ℤ := (headerLength % 2 ^ 24 : ℕ)
          let serializedType := headerLength / 2 ^ 24 % 256
          if 4 + headerDataLen > frameSize ∨ (buf.length : ℤ) < 8 + headerDataLen then
            .ok ⟨.needsMoreData, [], 0⟩
          else
            let headerBody ← slice buf 8 (8 + headerDataLen)
            let behind := buf.drop (8 + headerDataLen).toNat
            let message ← parseHeader jsonHeader headerBody behind (buf.length - 8 + spare)
              serializedType
            finishFrame sb head messageType headerDataLen frameSize message

/-- A frame that is cut out lies in the head, and is not empty. -/
theorem parseStream_read {jsonHeader : GoString → Option JsonHeader} {spare : ℕ} {sb : StreamBuffer}
    {head : Buffer} {messageType : MessageType} {r : ParseResult RocketMQMessage}
    (hhead : sb.head = some head) (h : parseStream jsonHeader spare sb messageType = .ok r)
    (hstate : r.parseState = .success ∨ r.parseState = .ignore) :
    1 ≤ r.readBytes ∧ r.readBytes ≤ head.len := by
  unfold parseStream at h
  rw [hhead] at h
  dsimp only at h
  split at h
  · cases h
    simp at hstate
  obtain ⟨frame, -, h⟩ := bind_eq_ok.mp h
  split at h
  · cases h
    simp at hstate
  rename_i hpos
  split at h
  · cases h
    simp at hstate
  rename_i hfits
  obtain ⟨headerLength, -, h⟩ := bind_eq_ok.mp h
  split at h
  · cases h
    simp at hstate
  obtain ⟨headerBody, -, h⟩ := bind_eq_ok.mp h
  obtain ⟨message, -, h⟩ := bind_eq_ok.mp h
  rw [finishFrame_readBytes h, Buffer.len]
  omega

/-! ## Boundaries -/

/-- What a header at a boundary starts with: the first key of the JSON object, or a request
code and a language the binary form knows. -/
def acceptsHeader (buf : List UInt8) (i : ℤ) (serializedType : ℕ) : Except Panic Bool := do
  if serializedType = 0 then
    let key ← slice buf (i + 8) (i + 16)
    .ok (key == [123, 34, 99, 111, 100, 101, 34, 58])
  else
    let requestCode ← uint16At buf (i + 8)
    let language ← byteAt buf (i + 10)
    .ok (!(requestCode < 10 || language ≥ 14))

/-- The body of the loop of `FindBoundary`. -/
def probe (r : State) (messageType : MessageType) (buf : List UInt8) (i : ℤ) :
    Except Panic Probe := do
  let frameSize ← uint32At buf i
  if frameSize = 0 then .ok .next
  else if i + frameSize + 4 > buf.length then .ok .stop
  else
    let headerLength ← uint32At buf (i + 4)
    let serializedType := headerLength / 2 ^ 24 % 256
    let headerDataLen : ℤ := (headerLength % 2 ^ 24 : ℕ)
    if serializedType ≠ 0 ∧ serializedType ≠ 1 then .ok .next
    else if headerDataLen ≤ 0 ∨ headerDataLen ≠ (frameSize : ℤ) - 4 then .ok .next
    else
      let accepted ← acceptsHeader buf i serializedType
      if !accepted then .ok .next
      else if messageType = .response then
        -- The opaque id of a response lies at a fixed place, also in a JSON header.
        if i + 20 > buf.length then .ok .next
        else
          let opaqueId ← uint32At buf (i + 16)
          .ok (if (r.requestOpaqueMap.get? (intOf 32 opaqueId)).isSome then .found else .next)
      else .ok .found

def findBoundary (r : State) (sb : StreamBuffer) (messageType : MessageType) (startPos : ℤ) :
    Except Panic ℤ :=
  match sb.head with
  | none => .error .nilDereference
  | some head => scan (probe r messageType head.buf) startPos (head.buf.length - 16 + 1)

theorem findBoundary_bounds {r : State} {sb : StreamBuffer} {head : Buffer}
    {messageType : MessageType} {startPos pos : ℤ} (hhead : sb.head = some head)
    (h : findBoundary r sb messageType startPos = .ok pos) :
    pos = -1 ∨ startPos ≤ pos ∧ pos ≤ head.len := by
  unfold findBoundary at h
  rw [hhead] at h
  rw [Buffer.len]
  rcases scan_bounds h with hnone | hbounds
  · exact Or.inl hnone
  · right
    omega

/-! ## Matching -/

/-- `requestTimeoutDuration`, in nanoseconds. -/
def requestTimeoutDuration : ℤ := 5 * 60 * 1000000000

def recordOf (req resp : RocketMQMessage) : Record Message :=
  { req := some (.rocketMQ req), resp := some (.rocketMQ resp), responseStatus := .noneStatus }

/-- The loop of `Match` over the responses, with the requests by opaque id. -/
def matchLoop (r : State) (reqMap : SortedMap ℤ RocketMQMessage) (records : List (Record Message)) :
    List RocketMQMessage → State × SortedMap ℤ RocketMQMessage × List (Record Message)
  | [] => (r, reqMap, records)
  | resp :: respStream =>
      match reqMap.get? resp.opaqueId with
      | none => matchLoop r reqMap records respStream
      | some req =>
          matchLoop { r with requestOpaqueMap := r.requestOpaqueMap.remove req.opaqueId }
            (reqMap.remove req.opaqueId) (records ++ [recordOf req resp]) respStream

/-- `reqMap`: the last request of each opaque id. -/
def requestMap (reqStream : List RocketMQMessage) : SortedMap ℤ RocketMQMessage :=
  reqStream.foldl (fun m req => m.put req.opaqueId req) SortedMap.empty

/-- The request has waited too long. -/
def timedOut (now : ℤ) (req : RocketMQMessage) : Bool :=
  now - toInt64 req.base.timestampNs > requestTimeoutDuration

/-- `Match`, on the queues of stream 0 and at a time in nanoseconds. -/
def matchStreams (now : ℤ) (r : State) (reqStream respStream : List RocketMQMessage) :
    State × List (Record Message) × List RocketMQMessage × List RocketMQMessage :=
  let (r, reqMap, records) := matchLoop r (requestMap reqStream) [] respStream
  -- A request stays as long as its opaque id is in the map, so an older one of the same id
  -- stays or goes with the last one.
  let waiting := reqStream.filter fun req =>
    (reqMap.get? req.opaqueId).any (fun last => !timedOut now last)
  (r, records, waiting, [])

/-- A queue in the order of its times. -/
def Ordered (queue : List RocketMQMessage) : Prop :=
  queue.Pairwise (fun a b => a.base.timestampNs ≤ b.base.timestampNs)

/-- No response is earlier than a request of its opaque id. -/
def NoneEarly (reqStream respStream : List RocketMQMessage) : Prop :=
  ∀ req ∈ reqStream, ∀ resp ∈ respStream, req.opaqueId = resp.opaqueId →
    req.base.timestampNs ≤ resp.base.timestampNs

instance (reqStream respStream : List RocketMQMessage) : Decidable (NoneEarly reqStream respStream) :=
  inferInstanceAs (Decidable (∀ req ∈ reqStream, ∀ resp ∈ respStream, _ → _))

theorem requestMap_append (reqStream : List RocketMQMessage) (req : RocketMQMessage) :
    requestMap (reqStream ++ [req]) = (requestMap reqStream).put req.opaqueId req := by
  unfold requestMap
  rw [List.foldl_append]
  rfl

theorem opaqueId_of_requestMap {reqStream : List RocketMQMessage} {k : ℤ} {req : RocketMQMessage}
    (h : (requestMap reqStream).get? k = some req) : req.opaqueId = k := by
  induction reqStream using List.reverseRecOn with
  | nil => cases h
  | append_singleton reqStream last ih =>
      rw [requestMap_append, SortedMap.get?_put] at h
      split_ifs at h with hk
      · cases h
        exact hk.symm
      · exact ih h

/-- The request in the map is the latest one of its opaque id. -/
theorem requestMap_le_iff {reqStream : List RocketMQMessage} (h : Ordered reqStream) (k : ℤ) (t : ℕ) :
    (∀ req, (requestMap reqStream).get? k = some req → req.base.timestampNs ≤ t)
      ↔ ∀ req ∈ reqStream, req.opaqueId = k → req.base.timestampNs ≤ t := by
  induction reqStream using List.reverseRecOn with
  | nil =>
      constructor
      · intro _ req hreq
        cases hreq
      · intro _ req hreq
        cases hreq
  | append_singleton reqStream last ih =>
      obtain ⟨hinit, -, hlast⟩ := List.pairwise_append.mp h
      have hle : ∀ req ∈ reqStream, req.base.timestampNs ≤ last.base.timestampNs :=
        fun req hreq => hlast req hreq last List.mem_cons_self
      rw [requestMap_append]
      simp only [SortedMap.get?_put, List.mem_append, List.mem_singleton]
      -- In order, a request that is put last is the latest of its id.
      by_cases hk : k = last.opaqueId
      · rw [if_pos hk]
        constructor
        · rintro hget req (hmem | rfl) _
          · exact (hle req hmem).trans (hget last rfl)
          · exact hget req rfl
        · intro hall req hreq
          cases hreq
          exact hall last (Or.inr rfl) hk.symm
      · rw [if_neg hk, ih hinit]
        constructor
        · rintro hget req (hmem | rfl) hid
          · exact hget req hmem hid
          · exact absurd hid.symm hk
        · intro hall req hmem
          exact hall req (Or.inl hmem)

/-- Over responses in order, the records the loop adds run forward just when every response
finds an earlier request. -/
theorem matchLoop_forward_iff {r : State} {reqMap : SortedMap ℤ RocketMQMessage}
    {records : List (Record Message)} {respStream : List RocketMQMessage}
    (hids : ∀ k req, reqMap.get? k = some req → req.opaqueId = k) (hordered : Ordered respStream) :
    (∀ record ∈ (matchLoop r reqMap records respStream).2.2, record.Forward)
      ↔ (∀ record ∈ records, record.Forward)
        ∧ ∀ resp ∈ respStream, ∀ req, reqMap.get? resp.opaqueId = some req →
          req.base.timestampNs ≤ resp.base.timestampNs := by
  induction respStream generalizing r reqMap records with
  | nil => simp [matchLoop]
  | cons resp respStream ih =>
      obtain ⟨hfirst, hrest⟩ := List.pairwise_cons.mp hordered
      rw [matchLoop]
      rcases hreq : reqMap.get? resp.opaqueId with _ | req
      · dsimp only
        rw [ih hids hrest]
        simp [hreq]
      · have hid : req.opaqueId = resp.opaqueId := hids _ _ hreq
        -- Taking a request off the map leaves every other one under its own id.
        have hids' : ∀ k q, (reqMap.remove req.opaqueId).get? k = some q → q.opaqueId = k := by
          intro k q hq
          rw [SortedMap.get?_remove] at hq
          split_ifs at hq
          exact hids k q hq
        have hforward : (recordOf req resp).Forward ↔ req.base.timestampNs ≤ resp.base.timestampNs := by
          constructor
          · rintro ⟨q, p, hq, hp, hle⟩
            cases hq
            cases hp
            exact hle
          · intro hle
            exact ⟨_, _, rfl, rfl, hle⟩
        dsimp only
        rw [ih hids' hrest]
        constructor
        · rintro ⟨hrecords, hlater⟩
          have hle : req.base.timestampNs ≤ resp.base.timestampNs :=
            hforward.mp (hrecords _ (List.mem_append_right _ List.mem_cons_self))
          refine ⟨fun record hmem => hrecords record (List.mem_append_left _ hmem), ?_⟩
          intro resp' hresp' q hq
          rcases List.mem_cons.mp hresp' with rfl | hmem
          · rw [hreq] at hq
            cases hq
            exact hle
          · by_cases hsame : resp'.opaqueId = req.opaqueId
            · -- A later response of the same id: the request is gone, but also earlier than it.
              rw [hsame, hid, hreq] at hq
              cases hq
              exact hle.trans (hfirst resp' hmem)
            · apply hlater resp' hmem q
              rw [SortedMap.get?_remove, if_neg hsame]
              exact hq
        · rintro ⟨hrecords, hall⟩
          refine ⟨?_, ?_⟩
          · intro record hmem
            rcases List.mem_append.mp hmem with hold | hnew
            · exact hrecords record hold
            · cases List.mem_singleton.mp hnew
              exact hforward.mpr (hall resp List.mem_cons_self req hreq)
          · intro resp' hmem q hq
            rw [SortedMap.get?_remove] at hq
            split_ifs at hq
            exact hall resp' (List.mem_cons_of_mem _ hmem) q hq

/-- **The records of the RocketMQ matcher run forward** just when no response in the queue is
earlier than a request of its opaque id. -/
theorem matchStreams_forward_iff (now : ℤ) (r : State) {reqStream respStream : List RocketMQMessage}
    (hreqs : Ordered reqStream) (hresps : Ordered respStream) :
    (∀ record ∈ (matchStreams now r reqStream respStream).2.1, record.Forward)
      ↔ NoneEarly reqStream respStream := by
  have hloop := @matchLoop_forward_iff r (requestMap reqStream) [] respStream
    (fun k req h => opaqueId_of_requestMap h) hresps
  change (∀ record ∈ (matchLoop r (requestMap reqStream) [] respStream).2.2, record.Forward) ↔ _
  rw [hloop]
  constructor
  · rintro ⟨-, hall⟩ req hreq resp hresp hid
    exact (requestMap_le_iff hreqs _ _).mp (hall resp hresp) req hreq hid
  · intro hearly
    refine ⟨by simp, ?_⟩
    intro resp hresp
    apply (requestMap_le_iff hreqs _ _).mpr
    intro req hreq hid
    exact hearly req hreq resp hresp hid

end Kyanos.RocketMQ
