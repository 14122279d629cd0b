/-
`agent/protocol/kafka/kafka.go`: the Kafka parser.

A packet is a length and as many bytes, and a request names its API and a correlation id. The
lengths are 32-bit numbers, and the code adds to them before it compares them; where such a
sum leaves the range of the type it is reduced here too.

Requests and responses are paired by correlation id. The decoders of the packet bodies are a
parameter: `Match` keeps the time of the packets whatever they make of the bytes, and it
refuses a pair that would run backward in time.
-/
import Kyanos.Decoder

set_option autoImplicit false

open Trace

namespace Kyanos.Kafka

/-- `common.Packet`. -/
structure Packet where
  base : FrameBase
  correlationId : ℤ
  msg : GoString
  consumed : Bool
  isReq : Bool
deriving DecidableEq

/-- `KafkaStreamParser`. -/
structure State where
  correlationIdMap : SortedMap ℤ Unit
  clientId : GoString

def kMessageLengthBytes : ℤ := 4
def kMinReqPacketLength : ℤ := 12
def kMinRespPacketLength : ℤ := 8
def kMaxAPIVersion : ℤ := 17

def minPacketLength (messageType : MessageType) : ℤ :=
  if messageType = .request then kMinReqPacketLength else kMinRespPacketLength

/-- `IsValidAPIKey`: the keys of `APIVersionMap`. -/
def isValidAPIKey (apiKey : ℤ) : Bool :=
  (0 ≤ apiKey && apiKey ≤ 51) || [56, 57, 60, 61].contains apiKey

/-- The `MinVersion` of a key in `APIVersionMap`, which is raised for a produce request. -/
def minVersion (apiKey : ℤ) : ℤ := if apiKey = 0 then 1 else 0

def isSupportedAPIVersion (apiKey apiVersion : ℤ) : Bool :=
  isValidAPIKey apiKey && (minVersion apiKey ≤ apiVersion && apiVersion ≤ kMaxAPIVersion)

/-! ## Boundaries -/

/-- The client id of a request at a boundary. -/
def probeClientId (k : State) (d : BinaryDecoder) : Except Panic Probe :=
  match d.extractBEInt 2 with
  | .error _ => .ok .next
  | .ok (clientIdLength, d) =>
      if clientIdLength > 0 then
        match d.extractString clientIdLength with
        | .error (.panic p) => .error p
        | .error (.err _) => .ok .next
        | .ok (clientId, _) =>
            -- Once a client id is known, a boundary must carry the same one.
            if k.clientId ≠ [] ∧ k.clientId ≠ clientId then .ok .next else .ok .found
      else .ok .next

/-- The correlation id at a boundary, and what is checked behind it. -/
def probeCorrelation (k : State) (messageType : MessageType) (d : BinaryDecoder) :
    Except Panic Probe :=
  match d.extractBEInt 4 with
  | .error _ => .ok .stop
  | .ok (correlationId, d) =>
      if correlationId < 0 then .ok .next
      else if messageType = .response then
        -- A response is only recognised by a request that was parsed before it.
        if (k.correlationIdMap.get? correlationId).isSome then .ok .found else .ok .next
      else probeClientId k d

/-- The body of the loop of `FindBoundary`. -/
def probe (k : State) (messageType : MessageType) (buf : List UInt8) (i : ℤ) :
    Except Panic Probe := do
  let curBuf ← slice buf i buf.length
  match (BinaryDecoder.new curBuf).extractBEInt 4 with
  | .error _ => .ok .stop
  | .ok (payloadLength, d) =>
      if payloadLength ≤ 0
          -- Both sides are cut to 32 bits, so the sum can wrap.
          ∨ intOf 32 (payloadLength + kMessageLengthBytes) > intOf 32 curBuf.length then .ok .next
      else if messageType = .request then
        match d.extractBEInt 2 with
        | .error _ => .ok .stop
        | .ok (requestApiKey, d) =>
            if !isValidAPIKey requestApiKey then .ok .next
            else
              match d.extractBEInt 2 with
              | .error _ => .ok .stop
              | .ok (requestApiVersion, d) =>
                  if !isSupportedAPIVersion requestApiKey requestApiVersion then .ok .next
                  else probeCorrelation k messageType d
      else probeCorrelation k messageType d

def findBoundary (k : State) (sb : StreamBuffer) (messageType : MessageType) (startPos : ℤ) :
    Except Panic ℤ :=
  match sb.head with
  | none => .error .nilDereference
  | some head =>
      if (head.buf.length : ℤ) < minPacketLength messageType then .ok (-1)
      else scan (probe k messageType head.buf) startPos
        (head.buf.length - minPacketLength messageType)

theorem findBoundary_bounds {k : State} {sb : StreamBuffer} {head : Buffer}
    {messageType : MessageType} {startPos pos : ℤ} (hhead : sb.head = some head)
    (h : findBoundary k sb messageType startPos = .ok pos) :
    pos = -1 ∨ startPos ≤ pos ∧ pos ≤ head.len := by
  unfold findBoundary at h
  rw [hhead] at h
  dsimp only at h
  split_ifs at h
  · cases h
    exact Or.inl rfl
  · have hmin : 0 ≤ minPacketLength messageType := by
      unfold minPacketLength kMinReqPacketLength kMinRespPacketLength
      split_ifs <;> decide
    rw [Buffer.len]
    rcases scan_bounds h with hnone | hbounds
    · exact Or.inl hnone
    · right
      omega

/-! ## Packets -/

/-- The API of a request, which must be known; nothing is read of a response. -/
def extractApi (messageType : MessageType) (d : BinaryDecoder) : Option BinaryDecoder :=
  if messageType = .request then
    match d.extractBEInt 2 with
    | .error _ => none
    | .ok (requestApiKey, d) =>
        if !isValidAPIKey requestApiKey then none
        else
          match d.extractBEInt 2 with
          | .error _ => none
          | .ok (requestApiVersion, d) =>
              if !isSupportedAPIVersion requestApiKey requestApiVersion then none else some d
  else some d

/-- `ParseStream`, on the head of the stream buffer. -/
def parseStream (k : State) (sb : StreamBuffer) (messageType : MessageType) :
    Except Panic (ParseResult Packet × State) :=
  match sb.head with
  | none => .error .nilDereference
  | some head =>
      let buf := head.buf
      if (buf.length : ℤ) < minPacketLength messageType then .ok (⟨.needsMoreData, [], 0⟩, k)
      else
        match (BinaryDecoder.new buf).extractBEInt 4 with
        | .error _ => .ok (⟨.invalid, [], 0⟩, k)
        | .ok (payloadLength, d) =>
            if intOf 32 (payloadLength + kMessageLengthBytes) ≤ minPacketLength messageType then
              .ok (⟨.invalid, [], 0⟩, k)
            else
              match extractApi messageType d with
              | none => .ok (⟨.invalid, [], 0⟩, k)
              | some d =>
                  match d.extractBEInt 4 with
                  | .error _ => .ok (⟨.invalid, [], 0⟩, k)
                  | .ok (correlationId, _) =>
                      if correlationId < 0 then .ok (⟨.invalid, [], 0⟩, k)
                      else if (buf.length : ℤ) - kMessageLengthBytes < payloadLength then
                        .ok (⟨.needsMoreData, [], 0⟩, k)
                      else do
                        let k :=
                          if messageType = .request then
                            -- The request is remembered even if its packet is invalid below.
                            { k with correlationIdMap := k.correlationIdMap.put correlationId () }
                          else k
                        -- The sum of 32 bits is what the packet is cut by, and what is reported.
                        let readBytes := intOf 32 (kMessageLengthBytes + payloadLength)
                        let msg ← slice buf kMessageLengthBytes readBytes
                        match createFrameBase sb head readBytes with
                        | none => .ok (⟨.invalid, [], 0⟩, k)
                        | some fb =>
                            let packet : Packet :=
                              { base := fb, correlationId := correlationId, msg := msg
                                consumed := false, isReq := messageType = .request }
                            .ok (⟨.success, [⟨packet.isReq, 0, packet⟩], readBytes⟩, k)

/-- A parse returns: without a packet, or with one that is not consumed, cut out of the head. -/
theorem parseStream_returns (k : State) {sb : StreamBuffer} {head : Buffer}
    (messageType : MessageType) (hhead : sb.head = some head) :
    ∃ r k', parseStream k sb messageType = .ok (r, k')
      ∧ ((r.parseState = .needsMoreData ∨ r.parseState = .invalid) ∧ r.parsedMessages = []
        ∨ r.parseState = .success ∧ 1 ≤ r.readBytes ∧ r.readBytes ≤ head.len
          ∧ ∃ packet : Packet, packet.consumed = false
            ∧ r.parsedMessages = [⟨packet.isReq, 0, packet⟩]) := by
  unfold parseStream
  rw [hhead]
  dsimp only
  by_cases hshort : (head.buf.length : ℤ) < minPacketLength messageType
  · rw [if_pos hshort]
    exact ⟨_, _, rfl, Or.inl ⟨Or.inl rfl, rfl⟩⟩
  rw [if_neg hshort]
  rcases hlength : (BinaryDecoder.new head.buf).extractBEInt 4 with e | ⟨payloadLength, d⟩
  · exact ⟨_, _, rfl, Or.inl ⟨Or.inr rfl, rfl⟩⟩
  dsimp only
  by_cases hmin : intOf 32 (payloadLength + kMessageLengthBytes) ≤ minPacketLength messageType
  · rw [if_pos hmin]
    exact ⟨_, _, rfl, Or.inl ⟨Or.inr rfl, rfl⟩⟩
  rw [if_neg hmin]
  rcases extractApi messageType d with _ | d
  · exact ⟨_, _, rfl, Or.inl ⟨Or.inr rfl, rfl⟩⟩
  dsimp only
  rcases d.extractBEInt 4 with e | ⟨correlationId, d⟩
  · exact ⟨_, _, rfl, Or.inl ⟨Or.inr rfl, rfl⟩⟩
  dsimp only
  by_cases hneg : correlationId < 0
  · rw [if_pos hneg]
    exact ⟨_, _, rfl, Or.inl ⟨Or.inr rfl, rfl⟩⟩
  rw [if_neg hneg]
  by_cases hcut : (head.buf.length : ℤ) - kMessageLengthBytes < payloadLength
  · rw [if_pos hcut]
    exact ⟨_, _, rfl, Or.inl ⟨Or.inl rfl, rfl⟩⟩
  rw [if_neg hcut]
  -- The length and the four bytes before it fit 32 bits, or the sum would not be positive.
  have hbounds := BinaryDecoder.extractBEInt_bounds (by decide) hlength
  have hshortest : 8 ≤ minPacketLength messageType := by
    unfold minPacketLength kMinReqPacketLength kMinRespPacketLength
    split_ifs <;> decide
  have hsum : intOf 32 (kMessageLengthBytes + payloadLength) = kMessageLengthBytes + payloadLength
      ∧ 4 ≤ kMessageLengthBytes + payloadLength
      ∧ kMessageLengthBytes + payloadLength ≤ head.buf.length := by
    have hcomm : kMessageLengthBytes + payloadLength = payloadLength + kMessageLengthBytes :=
      add_comm _ _
    have hfour : kMessageLengthBytes = 4 := rfl
    rw [hcomm]
    rw [hfour] at hmin hcut ⊢
    by_cases hfits : payloadLength + 4 < 2 ^ 31
    · have hsame : intOf 32 (payloadLength + 4) = payloadLength + 4 :=
        intOf_of_lt (by omega) (by omega)
      rw [hsame] at hmin ⊢
      exact ⟨rfl, by omega, by omega⟩
    · have hwraps : intOf 32 (payloadLength + 4) = payloadLength + 4 - 2 ^ 32 := by
        have hmod : (payloadLength + 4) % ((2 ^ 32 : ℕ) : ℤ) = payloadLength + 4 :=
          Int.emod_eq_of_lt (by omega) (by omega)
        rw [intOf, Int.bmod_def, hmod, if_neg (by omega)]
        omega
      omega
  obtain ⟨hread, hlow, hhigh⟩ := hsum
  rw [hread]
  have hslice : slice head.buf kMessageLengthBytes (kMessageLengthBytes + payloadLength)
      = .ok ((head.buf.drop kMessageLengthBytes.toNat).take
          (kMessageLengthBytes + payloadLength - kMessageLengthBytes).toNat) := by
    rw [slice, if_pos ⟨by decide, hlow, hhigh⟩]
  rw [hslice, ok_bind]
  rcases createFrameBase sb head (kMessageLengthBytes + payloadLength) with _ | fb
  · exact ⟨_, _, rfl, Or.inl ⟨Or.inr rfl, rfl⟩⟩
  · refine ⟨_, _, rfl, Or.inr ⟨rfl, ?_, hhigh, ⟨fb, correlationId, _, false, _⟩, rfl, rfl⟩⟩
    dsimp only
    omega

/-- A packet that is cut out lies in the head, and is longer than the shortest one. -/
theorem parseStream_read {k k' : State} {sb : StreamBuffer} {head : Buffer}
    {messageType : MessageType} {r : ParseResult Packet} (hhead : sb.head = some head)
    (h : parseStream k sb messageType = .ok (r, k'))
    (hstate : r.parseState = .success ∨ r.parseState = .ignore) :
    1 ≤ r.readBytes ∧ r.readBytes ≤ head.len := by
  obtain ⟨r₁, k₁, hparse, hcases⟩ := parseStream_returns k messageType hhead
  rw [hparse] at h
  cases h
  rcases hcases with ⟨hnone, -⟩ | ⟨-, hlo, hhi, -⟩
  · rcases hstate with hstate | hstate <;> rcases hnone with hnone | hnone <;>
      rw [hnone] at hstate <;> cases hstate
  · exact ⟨hlo, hhi⟩

/-! ## Matching -/

/-- What the package `decoder` makes of the bytes of a packet. A header that cannot be read
is `none`; a body that cannot be read leaves the message without it. -/
structure Decoders where
  reqHeader : GoString → Except Panic (Option (ℤ × ℤ × GoString))
  reqBody : GoString → Except Panic (Option OriginReq)
  respHeader : GoString → ℤ → ℤ → Except Panic Bool
  respBody : GoString → ℤ → ℤ → Except Panic (Option OriginResp)

/-- `ProcessReq`; without a header there is no request. -/
def processReq (decoders : Decoders) (reqPacket : Packet) : Except Panic (Option KafkaRequest) := do
  match ← decoders.reqHeader reqPacket.msg with
  | none => .ok none
  | some (apikey, apiVersion, clientId) =>
      let originReq ← decoders.reqBody reqPacket.msg
      .ok (some { base := reqPacket.base, apikey := apikey, apiVersion := apiVersion
                  clientId := clientId, originReq := originReq })

/-- `ProcessResp`. -/
def processResp (decoders : Decoders) (respPacket : Packet) (apikey apiVersion : ℤ) :
    Except Panic (Option KafkaResponse) := do
  let header ← decoders.respHeader respPacket.msg apikey apiVersion
  if !header then .ok none
  else
    let originResp ← decoders.respBody respPacket.msg apikey apiVersion
    .ok (some { base := respPacket.base, originResp := originResp })

/-- `processReqRespPair`; `none` is its error. A message that is `nil` is written to. -/
def processReqRespPair (decoders : Decoders) (req resp : Packet) :
    Except Panic (Option (KafkaRequest × KafkaResponse)) :=
  if req.base.timestampNs > resp.base.timestampNs then .ok none
  else do
    match ← processReq decoders req with
    | none => .error .nilDereference
    | some reqMsg =>
        match ← processResp decoders resp reqMsg.apikey reqMsg.apiVersion with
        | none => .error .nilDereference
        | some respMsg => .ok (some (reqMsg, respMsg))

def recordOf (reqMsg : KafkaRequest) (respMsg : KafkaResponse) : Record Message :=
  { req := some (.kafkaRequest reqMsg), resp := some (.kafkaResponse respMsg)
    responseStatus := .noneStatus }

/-- The request is answered: it is consumed and its correlation id is forgotten. A record may
bring the client id along. -/
def answered (k : State) (req : Packet) (pair : Option (KafkaRequest × KafkaResponse)) : State :=
  { correlationIdMap := k.correlationIdMap.remove req.correlationId
    clientId :=
      match pair with
      | some (reqMsg, _) => if k.clientId = [] then reqMsg.clientId else k.clientId
      | none => k.clientId }

/-- The loop of `Match` over the requests, with the responses by correlation id. -/
def matchLoop (decoders : Decoders) (k : State) (correlationIdMap : SortedMap ℤ Packet)
    (records : List (Record Message)) : List Packet →
    Except Panic (State × List (Record Message) × List Packet)
  | [] => .ok (k, records, [])
  | req :: reqStream =>
      match correlationIdMap.get? req.correlationId with
      | none => do
          let (k, records, reqStream) ← matchLoop decoders k correlationIdMap records reqStream
          .ok (k, records, req :: reqStream)
      | some resp => do
          let pair ← processReqRespPair decoders req resp
          let (k, records, reqStream) ← matchLoop decoders (answered k req pair)
            -- A response answers one request, also when the pair was refused.
            (correlationIdMap.remove req.correlationId)
            (records ++ (pair.map (fun (reqMsg, respMsg) => recordOf reqMsg respMsg)).toList)
            reqStream
          .ok (k, records, { req with consumed := true } :: reqStream)

/-- `Match`, on the queues of stream 0. -/
def matchStreams (decoders : Decoders) (k : State) (reqStream respStream : List Packet) :
    Except Panic (State × List (Record Message) × List Packet × List Packet) :=
  if reqStream.length = 0 ∨ respStream.length = 0 then .ok (k, [], reqStream, respStream)
  else do
    let correlationIdMap := respStream.foldl (fun m resp => m.put resp.correlationId resp)
      SortedMap.empty
    let (k, records, reqStream) ← matchLoop decoders k correlationIdMap [] reqStream
    .ok (k, records, reqStream.dropWhile Packet.consumed, [])

/-- A pair that is accepted runs forward in time. -/
theorem processReqRespPair_forward {decoders : Decoders} {req resp : Packet}
    {reqMsg : KafkaRequest} {respMsg : KafkaResponse}
    (h : processReqRespPair decoders req resp = .ok (some (reqMsg, respMsg))) :
    (recordOf reqMsg respMsg).Forward := by
  unfold processReqRespPair at h
  split_ifs at h with hlater
  · cases h
  · obtain ⟨reqMsg', hreq, h⟩ := bind_eq_ok.mp h
    rcases reqMsg' with _ | reqMsg'
    · cases h
    obtain ⟨respMsg', hresp, h⟩ := bind_eq_ok.mp h
    rcases respMsg' with _ | respMsg'
    · cases h
    cases h
    refine ⟨_, _, rfl, rfl, ?_⟩
    -- Both messages keep the frame of their packet.
    have hreqBase : reqMsg.base = req.base := by
      obtain ⟨header, -, hreq⟩ := bind_eq_ok.mp hreq
      rcases header with _ | ⟨apikey, apiVersion, clientId⟩
      · cases hreq
      · obtain ⟨originReq, -, hreq⟩ := bind_eq_ok.mp hreq
        cases hreq
        rfl
    have hrespBase : respMsg.base = resp.base := by
      obtain ⟨header, -, hresp⟩ := bind_eq_ok.mp hresp
      split_ifs at hresp
      · cases hresp
      · obtain ⟨originResp, -, hresp⟩ := bind_eq_ok.mp hresp
        cases hresp
        rfl
    change reqMsg.base.timestampNs ≤ respMsg.base.timestampNs
    rw [hreqBase, hrespBase]
    exact Nat.le_of_not_lt hlater

theorem matchLoop_forward {decoders : Decoders} {k k' : State} {m : SortedMap ℤ Packet}
    {records records' : List (Record Message)} {reqStream reqStream' : List Packet}
    (hrecords : ∀ r ∈ records, r.Forward)
    (h : matchLoop decoders k m records reqStream = .ok (k', records', reqStream')) :
    ∀ r ∈ records', r.Forward := by
  induction reqStream generalizing k m records reqStream' with
  | nil =>
      cases h
      exact hrecords
  | cons req reqStream ih =>
      rw [matchLoop] at h
      split at h
      · obtain ⟨⟨k₁, records₁, reqStream₁⟩, hloop, h⟩ := bind_eq_ok.mp h
        cases h
        exact ih hrecords hloop
      · obtain ⟨pair, hpair, h⟩ := bind_eq_ok.mp h
        obtain ⟨⟨k₁, records₁, reqStream₁⟩, hloop, h⟩ := bind_eq_ok.mp h
        cases h
        refine ih (List.forall_mem_append.mpr ⟨hrecords, ?_⟩) hloop
        intro r hnew
        rcases pair with _ | ⟨reqMsg, respMsg⟩
        · cases hnew
        · cases List.mem_singleton.mp hnew
          exact processReqRespPair_forward hpair

/-- **The records of the Kafka matcher run forward**, in whatever order the queues are. -/
theorem matchStreams_forward {decoders : Decoders} {k k' : State}
    {reqStream reqStream' respStream respStream' : List Packet} {records : List (Record Message)}
    (h : matchStreams decoders k reqStream respStream = .ok (k', records, reqStream', respStream')) :
    ∀ r ∈ records, r.Forward := by
  unfold matchStreams at h
  split_ifs at h
  · cases h
    simp
  · obtain ⟨⟨k₁, records₁, reqStream₁⟩, hloop, h⟩ := bind_eq_ok.mp h
    cases h
    exact matchLoop_forward (by simp) hloop

end Kyanos.Kafka
