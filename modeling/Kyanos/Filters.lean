/-
The message filters of the protocols, and `submitRecord` of
`agent/conn/record_processor.go`, which asks them.

A filter says with `FilterByRequest` and `FilterByResponse` which sides of a record it wants
to see. `submitRecord` passes `nil` for a side it does not want, and does not call `Filter`
at all when it wants neither. For that to change nothing, `Filter` must not look at a side it
did not ask for, and must accept everything when it asks for none.

Eight of the nine filters keep to that with all their settings. The ninth does not:
`KafkaFilter.FilterByRequest` tests `len(k.apiKey) == 0` where its siblings test for a length
above zero, so that a filter *with* API keys does not ask for the request they are compared
with. `submitRecord_agrees_iff` says which of its settings and records escape this.
-/
import Kyanos.Messages

set_option autoImplicit false

open GoNum

namespace Kyanos

/-! ## HTTP -/

/-- `HttpFilter`. A compiled regular expression is the set of strings it matches. The pointer
`needFilter` is meant as a cache, but `FilterByRequest` has a value receiver and writes to its
own copy, so it stays `nil`. -/
structure HttpFilter where
  targetPath : GoString
  targetPathReg : Option (GoString → Bool)
  targetPathPrefix : GoString
  targetHostName : GoString
  targetMethods : List GoString
  needFilter : Option Bool
  unset : needFilter = none

namespace HttpFilter

def filterByRequest (filter : HttpFilter) : Bool :=
  match filter.needFilter with
  | some needed => needed
  | none =>
      filter.targetPath.length > 0 || filter.targetPathReg.isSome ||
        filter.targetPathPrefix.length > 0 || filter.targetMethods.length > 0 ||
        filter.targetHostName.length > 0

def filterByResponse (_ : HttpFilter) : Bool := false

def filter (filter : HttpFilter) (parsedReq _parsedResp : Option Message) :
    Except Panic Bool :=
  match parsedReq with
  | some (.httpRequest req) =>
      if filter.targetPath.length > 0 && filter.targetPath ≠ req.path then .ok false
      else if filter.targetPathPrefix.length > 0 &&
          !filter.targetPathPrefix.isPrefixOf req.path then .ok false
      else if filter.targetPathReg.any (fun matchString => !matchString req.path) then .ok false
      else if filter.targetMethods.length > 0 && !filter.targetMethods.contains req.method then
        .ok false
      else if filter.targetHostName ≠ [] && filter.targetHostName ≠ req.host then .ok false
      else .ok true
  | _ => .ok false

end HttpFilter

/-! ## Redis -/

/-- `RedisFilter`. -/
structure RedisFilter where
  targetCommands : List GoString
  targetKeys : List GoString
  keyPrefix : GoString

/-- `extractKeyFromPayLoad`: the payload up to its first space. -/
def extractKeyFromPayLoad (redisMessage : RedisMessage) : GoString :=
  redisMessage.payload.takeWhile (· ≠ 32)

namespace RedisFilter

def filterByRequest (r : RedisFilter) : Bool :=
  r.targetCommands.length > 0 || r.targetKeys.length > 0 || r.keyPrefix ≠ []

def filterByResponse (_ : RedisFilter) : Bool := false

def filter (r : RedisFilter) (req _resp : Option Message) : Except Panic Bool :=
  match req with
  | some (.redis redisReq) =>
      let firstKey := extractKeyFromPayLoad redisReq
      .ok ((r.targetCommands.length == 0 || r.targetCommands.contains redisReq.command) &&
        (r.targetKeys.length == 0 || r.targetKeys.contains firstKey) &&
        (r.keyPrefix == [] || r.keyPrefix.isPrefixOf firstKey))
  | _ => .ok false

end RedisFilter

/-! ## RocketMQ -/

/-- `rocketmq.Filter`. -/
structure RocketMQFilter where
  targetRequestCodes : List ℤ
  targetLanguageCodes : List ℕ

namespace RocketMQFilter

def filterByRequest (m : RocketMQFilter) : Bool :=
  m.targetRequestCodes.length > 0 || m.targetLanguageCodes.length > 0

def filterByResponse (m : RocketMQFilter) : Bool :=
  m.targetRequestCodes.length > 0 || m.targetLanguageCodes.length > 0

def filter (m : RocketMQFilter) (req _resp : Option Message) : Except Panic Bool :=
  match req with
  | some (.rocketMQ rocketMQReq) =>
      .ok ((m.targetRequestCodes.length == 0 ||
          m.targetRequestCodes.contains rocketMQReq.requestCode) &&
        (m.targetLanguageCodes.length == 0 ||
          m.targetLanguageCodes.contains rocketMQReq.languageCode))
  | _ => .ok false

end RocketMQFilter

/-! ## DNS -/

/-- `DnsFilter`. -/
structure DnsFilter where
  targetHost : GoString

namespace DnsFilter

def filterByRequest (_ : DnsFilter) : Bool := true

def filterByResponse (_ : DnsFilter) : Bool := false

/-- The type assertion comes first, so a `nil` request is a panic for every setting. -/
def filter (d : DnsFilter) (req _resp : Option Message) : Except Panic Bool :=
  match req with
  | some (.dns reqFrame) =>
      if d.targetHost = [] then .ok true
      else .ok (reqFrame.records.any (fun record => d.targetHost.isPrefixOf record.name))
  | _ => .error .interfaceConversion

end DnsFilter

/-! ## Kafka -/

/-- `KafkaFilter`. -/
structure KafkaFilter where
  apiKey : List ℤ
  topic : GoString
  producer : Bool
  consumer : Bool

def kProduce : ℤ := 0

def kFetch : ℤ := 1

namespace KafkaFilter

def filterByRequest (k : KafkaFilter) : Bool :=
  k.apiKey.length == 0 || (k.producer && k.topic ≠ [])

def filterByResponse (k : KafkaFilter) : Bool := k.consumer && k.topic ≠ []

/-- The test of a produce request's topics. -/
def filterProduce (k : KafkaFilter) (kafkaReq : KafkaRequest) : Except Panic Bool :=
  if k.producer then
    match kafkaReq.originReq with
    | none => .ok false
    | some (.produceReq topics) => .ok (topics.any (· == k.topic))
    | some _ => .error .interfaceConversion
  else .ok false

/-- The test of a fetch response's topics. -/
def filterFetch (k : KafkaFilter) (resp : Option Message) : Except Panic Bool :=
  match resp with
  | some (.kafkaResponse kafkaResp) =>
      if k.consumer then
        match kafkaResp.originResp with
        | none => .ok false
        | some (.fetchResp topics) => .ok (topics.any (· == k.topic))
        | some _ => .error .interfaceConversion
      else .ok false
  | _ => .ok false

/-- `Filter`: the API keys are tested with an unchecked type assertion. -/
def filter (k : KafkaFilter) (req resp : Option Message) : Except Panic Bool := do
  let pass ←
    if k.apiKey.length = 0 then pure true
    else
      match req with
      | some (.kafkaRequest kafkaReq) => pure (k.apiKey.contains kafkaReq.apikey)
      | _ => .error .interfaceConversion
  if k.topic ≠ [] ∧ pass = true then
    match req with
    | some (.kafkaRequest kafkaReq) =>
        if kafkaReq.apikey = kProduce then k.filterProduce kafkaReq
        else if kafkaReq.apikey = kFetch then k.filterFetch resp
        else .ok false
    | _ => .ok false
  else .ok pass

end KafkaFilter

/-! ## The interface -/

/-- The implementations of `protocol.ProtocolFilter`. `MysqlFilter`, `MongoDBFilter`,
`NoopFilter` and `BaseFilter` have no settings. -/
inductive MessageFilter
  | http (f : HttpFilter)
  | redis (f : RedisFilter)
  | mysql
  | kafka (f : KafkaFilter)
  | mongodb
  | rocketMQ (f : RocketMQFilter)
  | dns (f : DnsFilter)
  | noop
  | base

namespace MessageFilter

def filterByProtocol : MessageFilter → TrafficProtocol → Bool
  | http _, p => p = .http
  | redis _, p => p = .redis
  | mysql, p => p = .mysql
  | kafka _, p => p = .kafka
  | mongodb, p => p = .mongo
  | rocketMQ _, p => p = .rocketMQ
  | dns _, p => p = .dns
  | noop, _ => true
  | base, p => p ≠ .unknown

def filterByRequest : MessageFilter → Bool
  | http f => f.filterByRequest
  | redis f => f.filterByRequest
  | mysql => false
  | kafka f => f.filterByRequest
  | mongodb => true
  | rocketMQ f => f.filterByRequest
  | dns f => f.filterByRequest
  | noop => false
  | base => false

def filterByResponse : MessageFilter → Bool
  | http f => f.filterByResponse
  | redis f => f.filterByResponse
  | mysql => false
  | kafka f => f.filterByResponse
  | mongodb => true
  | rocketMQ f => f.filterByResponse
  | dns f => f.filterByResponse
  | noop => false
  | base => false

def filter : MessageFilter → Option Message → Option Message → Except Panic Bool
  | http f, req, resp => f.filter req resp
  | redis f, req, resp => f.filter req resp
  | mysql, _, _ => .ok true
  | kafka f, req, resp => f.filter req resp
  | mongodb, _, _ => .ok true
  | rocketMQ f, req, resp => f.filter req resp
  | dns f, req, resp => f.filter req resp
  | noop, _, _ => .ok true
  | base, _, _ => .ok true

end MessageFilter

/-! ## `submitRecord` -/

/-- `LatencyFilter.Filter`. -/
def filterByLatency (minLatency latency : ℚ) : Bool := minLatency ≤ 0 || latency ≥ minLatency

/-- `SizeFilter.FilterByReqSize` and `SizeFilter.FilterByRespSize`. -/
def filterBySize (minSize size : ℤ) : Bool := minSize ≤ 0 || size ≥ minSize

/-- The protocols that `ParsersMap` has a parser for. -/
def hasParser : TrafficProtocol → Bool
  | .http | .redis | .mysql | .kafka | .mongo | .rocketMQ | .dns => true
  | _ => false

/-- What `submitRecord` reads of a connection. -/
structure FilteredConn where
  protocol : TrafficProtocol
  messageFilter : MessageFilter
  minLatency : ℚ
  minReqSize : ℤ
  minRespSize : ℤ

namespace FilteredConn

/-- The protocol, latency and size tests. -/
def passesTests (c : FilteredConn) (req resp : Message) : Bool :=
  c.messageFilter.filterByProtocol c.protocol &&
    filterByLatency c.minLatency
      (float64 (float64 (subU64 (timestampNs resp) (timestampNs req)) / 1000000)) &&
    filterBySize c.minReqSize req.byteSize && filterBySize c.minRespSize resp.byteSize

/-- A side of the record as the filter gets to see it. -/
def shown (wanted : Bool) (m : Message) : Option Message := if wanted then some m else none

/-- `submitRecord`: whether `RecordFunc` is called. -/
def submitRecord (record : Record Message) (c : FilteredConn) : Except Panic Bool :=
  match record.req, record.resp with
  | some req, some resp =>
      if c.passesTests req resp && hasParser c.protocol then
        let parsedRequest := shown c.messageFilter.filterByRequest req
        let parsedResponse := shown c.messageFilter.filterByResponse resp
        if parsedRequest.isSome || parsedResponse.isSome then
          c.messageFilter.filter parsedRequest parsedResponse
        else .ok true
      else .ok false
  -- `TimestampNs` of a side that is `nil`
  | _, _ => .error .nilDereference

end FilteredConn

/-- The records of a protocol: the types of the two sides, and for Kafka what the decoder
leaves in them, which is `nil` or the request or response the API key stands for. -/
inductive RecordOf : TrafficProtocol → Message → Message → Prop
  | http (req : ParsedHttpRequest) (resp : ParsedHttpResponse) :
      RecordOf .http (.httpRequest req) (.httpResponse resp)
  | redis (req resp : RedisMessage) : RecordOf .redis (.redis req) (.redis resp)
  | mysql (req : MysqlPacket) (resp : MysqlResponse) :
      RecordOf .mysql (.mysqlPacket req) (.mysqlResponse resp)
  | kafka (req : KafkaRequest) (resp : KafkaResponse)
      (produce : req.apikey = kProduce → ∀ origin ∈ req.originReq,
        ∃ topics, origin = .produceReq topics)
      (fetch : req.apikey = kFetch → ∀ origin ∈ resp.originResp,
        ∃ topics, origin = .fetchResp topics) :
      RecordOf .kafka (.kafkaRequest req) (.kafkaResponse resp)
  | mongo (req resp : MongoDBFrame) : RecordOf .mongo (.mongo req) (.mongo resp)
  | rocketMQ (req resp : RocketMQMessage) : RecordOf .rocketMQ (.rocketMQ req) (.rocketMQ resp)
  | dns (req resp : DnsFrame) : RecordOf .dns (.dns req) (.dns resp)

/-! ## Sides that were not asked for -/

theorem hasParser_of_recordOf {p : TrafficProtocol} {req resp : Message}
    (h : RecordOf p req resp) : hasParser p = true := by
  rcases h <;> rfl

/-- The decision once the other tests have passed. -/
def shownDecision (f : MessageFilter) (req resp : Message) : Except Panic Bool :=
  if f.filterByRequest = false ∧ f.filterByResponse = false then .ok true
  else
    f.filter (FilteredConn.shown f.filterByRequest req)
      (FilteredConn.shown f.filterByResponse resp)

theorem shownDecision_of_neither {f : MessageFilter} (hreq : f.filterByRequest = false)
    (hresp : f.filterByResponse = false) (req resp : Message) :
    shownDecision f req resp = .ok true := if_pos ⟨hreq, hresp⟩

theorem shownDecision_of_some {f : MessageFilter}
    (h : f.filterByRequest = true ∨ f.filterByResponse = true) (req resp : Message) :
    shownDecision f req resp = f.filter (FilteredConn.shown f.filterByRequest req)
      (FilteredConn.shown f.filterByResponse resp) :=
  if_neg (by rcases h with h | h <;> simp [h])

theorem submitRecord_eq {c : FilteredConn} {req resp : Message} (status : ResponseStatus)
    (hrec : RecordOf c.protocol req resp) (htests : c.passesTests req resp = true) :
    c.submitRecord ⟨some req, some resp, status⟩ = shownDecision c.messageFilter req resp := by
  unfold FilteredConn.submitRecord shownDecision
  simp only [htests, hasParser_of_recordOf hrec, Bool.and_self, if_true]
  rcases c.messageFilter.filterByRequest <;> rcases c.messageFilter.filterByResponse <;>
    simp [FilteredConn.shown]

/-- What `submitRecord` should decide: what the filter says of both sides. -/
def Agrees (f : MessageFilter) (req resp : Message) (decision : Except Panic Bool) : Prop :=
  ∃ b, f.filter (some req) (some resp) = .ok b ∧ decision = .ok b

/-- A filter that reads only the request, and accepts it when it does not ask for it. -/
theorem agrees_of_request_only {f : MessageFilter} {req resp : Message}
    (hreturns : ∃ b, ∀ resp', f.filter (some req) resp' = .ok b)
    (hskips : f.filterByRequest = false → f.filterByResponse = false ∧
      f.filter (some req) (some resp) = .ok true) :
    Agrees f req resp (shownDecision f req resp) := by
  obtain ⟨b, hb⟩ := hreturns
  refine ⟨b, hb _, ?_⟩
  by_cases hreq : f.filterByRequest = true
  · rw [shownDecision_of_some (Or.inl hreq), hreq]
    exact hb _
  · rw [Bool.not_eq_true] at hreq
    obtain ⟨hresp, hpass⟩ := hskips hreq
    rw [shownDecision_of_neither hreq hresp, ← hpass, hb]

theorem HttpFilter.filter_returns (f : HttpFilter) (req : ParsedHttpRequest) :
    ∃ b, ∀ resp, f.filter (some (.httpRequest req)) resp = .ok b := by
  unfold filter
  dsimp only
  split_ifs
  all_goals exact ⟨_, fun _ => rfl⟩

/-- An HTTP filter that does not ask for the request has no criterion. -/
theorem HttpFilter.filter_of_not_needed {f : HttpFilter} (h : f.filterByRequest = false)
    (req : ParsedHttpRequest) (resp : Option Message) :
    f.filter (some (.httpRequest req)) resp = .ok true := by
  simp only [filterByRequest, f.unset, Bool.or_eq_false_iff, decide_eq_false_iff_not,
    not_lt, Nat.le_zero, List.length_eq_zero_iff, Option.isSome_eq_false_iff,
    Option.isNone_iff_eq_none] at h
  obtain ⟨⟨⟨⟨hpath, hreg⟩, hprefix⟩, hmethods⟩, hhost⟩ := h
  simp [filter, hpath, hreg, hprefix, hmethods, hhost]

theorem RedisFilter.filter_of_not_needed {r : RedisFilter} (h : r.filterByRequest = false)
    (req : RedisMessage) (resp : Option Message) :
    r.filter (some (.redis req)) resp = .ok true := by
  simp only [filterByRequest, Bool.or_eq_false_iff, decide_eq_false_iff_not, not_lt,
    Nat.le_zero, List.length_eq_zero_iff, not_not] at h
  obtain ⟨⟨hcommands, hkeys⟩, hprefix⟩ := h
  simp [filter, hcommands, hkeys, hprefix]

theorem RocketMQFilter.filter_of_not_needed {m : RocketMQFilter} (h : m.filterByRequest = false)
    (req : RocketMQMessage) (resp : Option Message) :
    m.filter (some (.rocketMQ req)) resp = .ok true := by
  simp only [filterByRequest, Bool.or_eq_false_iff, decide_eq_false_iff_not, not_lt,
    Nat.le_zero, List.length_eq_zero_iff] at h
  simp [filter, h.1, h.2]

/-! ## The Kafka filter -/

namespace KafkaFilter

variable {k : KafkaFilter} {req : KafkaRequest} {resp : KafkaResponse}

/-- `Filter` on a request: the API key test, then the topic test. -/
theorem filter_request (k : KafkaFilter) (req : KafkaRequest) (resp : Option Message) :
    k.filter (some (.kafkaRequest req)) resp =
      if k.apiKey ≠ [] ∧ req.apikey ∉ k.apiKey then .ok false
      else if k.topic = [] then .ok true
      else if req.apikey = kProduce then k.filterProduce req
      else if req.apikey = kFetch then k.filterFetch resp
      else .ok false := by
  unfold filter
  by_cases hempty : k.apiKey = []
  · by_cases htopic : k.topic = []
    · simp [hempty, htopic]
    · simp [hempty, htopic]
  · by_cases hkey : req.apikey ∈ k.apiKey
    · by_cases htopic : k.topic = []
      · simp [hempty, hkey, htopic]
      · simp [hempty, hkey, htopic]
    · simp [hempty, hkey]

/-- On a record of the decoder, `Filter` does not panic. -/
theorem filter_returns (h : RecordOf .kafka (.kafkaRequest req) (.kafkaResponse resp)) :
    ∃ b, k.filter (some (.kafkaRequest req)) (some (.kafkaResponse resp)) = .ok b := by
  rcases h with _ | _ | _ | ⟨_, _, hproduce, hfetch⟩
  rw [filter_request]
  split_ifs with h1 h2 h3 h4
  · exact ⟨false, rfl⟩
  · exact ⟨true, rfl⟩
  · unfold filterProduce
    split_ifs
    · rcases horigin : req.originReq with _ | origin
      · exact ⟨false, rfl⟩
      · obtain ⟨topics, rfl⟩ := hproduce h3 origin horigin
        exact ⟨_, rfl⟩
    · exact ⟨false, rfl⟩
  · unfold filterFetch
    dsimp only
    split_ifs
    · rcases horigin : resp.originResp with _ | origin
      · exact ⟨false, rfl⟩
      · obtain ⟨topics, rfl⟩ := hfetch h4 origin horigin
        exact ⟨_, rfl⟩
    · exact ⟨false, rfl⟩
  · exact ⟨false, rfl⟩

/-- A filter that is not for a consumer's topic makes nothing of the response. -/
theorem filter_ignores_response (h : k.filterByResponse = false) (resp : KafkaResponse) :
    k.filter (some (.kafkaRequest req)) none =
      k.filter (some (.kafkaRequest req)) (some (.kafkaResponse resp)) := by
  rw [filter_request, filter_request]
  by_cases htopic : k.topic = []
  · simp [htopic]
  · have hconsumer : k.consumer = false := by simpa [filterByResponse, htopic] using h
    simp [filterFetch, hconsumer]

/-- Without the request the API keys cannot be compared. -/
theorem filter_nil_panics (h : k.apiKey ≠ []) (resp : Option Message) :
    k.filter none resp = .error .interfaceConversion := by
  unfold filter
  simp [h]
  rfl

/-- A topic filter that is neither for producers nor for consumers passes nothing. -/
theorem filter_topic_of_no_side (htopic : k.topic ≠ []) (hp : k.producer = false)
    (hc : k.consumer = false) :
    k.filter (some (.kafkaRequest req)) (some (.kafkaResponse resp)) = .ok false := by
  rw [filter_request]
  simp [htopic, filterProduce, hp, filterFetch, hc]

end KafkaFilter

/-- The Kafka filter has no API keys, or asks for the request because of a producer's topic,
or has API keys only and the request's is among them. -/
def KafkaFilter.Compares (k : KafkaFilter) (req : KafkaRequest) : Prop :=
  k.apiKey = [] ∨ (k.producer = true ∧ k.topic ≠ []) ∨ (k.topic = [] ∧ req.apikey ∈ k.apiKey)

theorem kafka_agrees_iff {k : KafkaFilter} {req : KafkaRequest} {resp : KafkaResponse}
    (h : RecordOf .kafka (.kafkaRequest req) (.kafkaResponse resp)) :
    Agrees (.kafka k) (.kafkaRequest req) (.kafkaResponse resp)
      (shownDecision (.kafka k) (.kafkaRequest req) (.kafkaResponse resp)) ↔ k.Compares req := by
  obtain ⟨b, hb⟩ := k.filter_returns h
  have hagrees : ∀ d, Agrees (.kafka k) (.kafkaRequest req) (.kafkaResponse resp) d ↔
      d = .ok b := by
    intro d
    simp only [Agrees, MessageFilter.filter, hb, Except.ok.injEq, exists_eq_left']
  rw [hagrees]
  by_cases hreq : k.filterByRequest = true
  -- the request is shown, and the response as far as the filter makes anything of it
  · have hcond : k.apiKey = [] ∨ (k.producer = true ∧ k.topic ≠ []) := by
      simpa [KafkaFilter.filterByRequest] using hreq
    refine iff_of_true ?_ (hcond.imp_right Or.inl)
    have hshown := @shownDecision_of_some (.kafka k) (Or.inl hreq) (.kafkaRequest req)
      (.kafkaResponse resp)
    simp only [MessageFilter.filter, MessageFilter.filterByRequest,
      MessageFilter.filterByResponse, hreq] at hshown
    rw [hshown]
    by_cases hresp : k.filterByResponse = true
    · rw [hresp]
      exact hb
    · rw [Bool.not_eq_true] at hresp
      rw [hresp]
      exact (KafkaFilter.filter_ignores_response hresp resp).trans hb
  · rw [Bool.not_eq_true] at hreq
    -- the request is not asked for, so there are API keys and no producer's topic
    obtain ⟨hkeys, htopic⟩ : k.apiKey ≠ [] ∧ ¬ (k.producer = true ∧ k.topic ≠ []) := by
      simpa [KafkaFilter.filterByRequest] using hreq
    by_cases hresp : k.filterByResponse = true
    · -- `Filter` is called without the request
      have ht : k.topic ≠ [] := by
        intro ht
        simp [KafkaFilter.filterByResponse, ht] at hresp
      have hp : k.producer = false := by simpa [ht] using htopic
      have hshown := @shownDecision_of_some (.kafka k) (Or.inr hresp) (.kafkaRequest req)
        (.kafkaResponse resp)
      simp only [MessageFilter.filter, MessageFilter.filterByRequest, hreq,
        FilteredConn.shown, Bool.false_eq_true, if_false,
        KafkaFilter.filter_nil_panics hkeys] at hshown
      rw [hshown]
      simp [KafkaFilter.Compares, hkeys, ht, hp]
    · rw [Bool.not_eq_true] at hresp
      -- `Filter` is skipped
      rw [@shownDecision_of_neither (.kafka k) hreq hresp]
      unfold KafkaFilter.Compares
      by_cases ht : k.topic = []
      -- API keys only: the record passes as if they had been compared
      · have hfilter := k.filter_request req (some (.kafkaResponse resp))
        rw [hb] at hfilter
        by_cases hmem : req.apikey ∈ k.apiKey
        · simp [ht, hmem] at hfilter
          simp [ht, hmem, hfilter]
        · simp [hkeys, hmem] at hfilter
          simp [hkeys, ht, hmem, hfilter]
      -- a topic for neither side, which `Filter` would reject
      · have hp : k.producer = false := by simpa [ht] using htopic
        have hc : k.consumer = false := by simpa [KafkaFilter.filterByResponse, ht] using hresp
        rw [KafkaFilter.filter_topic_of_no_side ht hp hc, Except.ok.injEq] at hb
        simp [hkeys, ht, hp, ← hb]

/-! ## All filters -/

/-- The settings and requests for which asking for sides does no harm. -/
def AsksEnough : MessageFilter → Message → Prop
  | .kafka k, .kafkaRequest req => k.Compares req
  | _, _ => True

/-- A filter that accepts everything. -/
theorem agrees_of_accepts {f : MessageFilter} {req resp : Message}
    (h : ∀ req' resp', f.filter req' resp' = .ok true) :
    Agrees f req resp (shownDecision f req resp) := by
  refine ⟨true, h _ _, ?_⟩
  unfold shownDecision
  split_ifs
  · rfl
  · exact h _ _

theorem agrees_iff {f : MessageFilter} {p : TrafficProtocol} {req resp : Message}
    (hrec : RecordOf p req resp) (hproto : f.filterByProtocol p = true) :
    Agrees f req resp (shownDecision f req resp) ↔ AsksEnough f req := by
  rcases f with f | f | _ | k | _ | f | f | _ | _
  · -- HTTP
    rcases hrec <;> simp [MessageFilter.filterByProtocol] at hproto
    rename_i req resp
    exact iff_of_true (agrees_of_request_only (f.filter_returns req)
      (fun h => ⟨rfl, f.filter_of_not_needed h req (some (.httpResponse resp))⟩)) trivial
  · -- Redis
    rcases hrec <;> simp [MessageFilter.filterByProtocol] at hproto
    rename_i req resp
    exact iff_of_true (agrees_of_request_only ⟨_, fun _ => rfl⟩
      (fun h => ⟨rfl, f.filter_of_not_needed h req (some (.redis resp))⟩)) trivial
  · exact iff_of_true (agrees_of_accepts (fun _ _ => rfl)) trivial
  · -- Kafka
    rcases hrec <;> simp [MessageFilter.filterByProtocol] at hproto
    exact kafka_agrees_iff (.kafka _ _ ‹_› ‹_›)
  · exact iff_of_true (agrees_of_accepts (fun _ _ => rfl)) trivial
  · -- RocketMQ, which asks for both sides or none
    rcases hrec <;> simp [MessageFilter.filterByProtocol] at hproto
    rename_i req resp
    exact iff_of_true (agrees_of_request_only ⟨_, fun _ => rfl⟩
      (fun h => ⟨h, f.filter_of_not_needed h req (some (.rocketMQ resp))⟩)) trivial
  · -- DNS
    rcases hrec <;> simp [MessageFilter.filterByProtocol] at hproto
    refine iff_of_true (agrees_of_request_only ?_ (fun h => by cases h)) trivial
    simp only [MessageFilter.filter, DnsFilter.filter]
    split_ifs
    all_goals exact ⟨_, fun _ => rfl⟩
  · exact iff_of_true (agrees_of_accepts (fun _ _ => rfl)) trivial
  · exact iff_of_true (agrees_of_accepts (fun _ _ => rfl)) trivial

/-- **Filtering by sides.** For a record of its protocol that has passed the other tests,
`submitRecord` decides as the filter does on the whole record, and without a panic, exactly
when the filter is not a Kafka filter whose API keys go uncompared. -/
theorem submitRecord_agrees_iff (c : FilteredConn) (req resp : Message) (status : ResponseStatus)
    (hrec : RecordOf c.protocol req resp) (htests : c.passesTests req resp = true) :
    Agrees c.messageFilter req resp (c.submitRecord ⟨some req, some resp, status⟩) ↔
      AsksEnough c.messageFilter req := by
  have hproto : c.messageFilter.filterByProtocol c.protocol = true := by
    simp only [FilteredConn.passesTests, Bool.and_eq_true] at htests
    exact htests.1.1.1
  rw [submitRecord_eq status hrec htests]
  exact agrees_iff hrec hproto

/-- A fetch request without a client id. -/
def sampleFetch : KafkaRequest :=
  { base := ⟨10, 20, 0⟩, apikey := kFetch, apiVersion := 4, clientId := [], originReq := none }

def sampleFetchResp : KafkaResponse :=
  { base := ⟨15, 30, 0⟩, originResp := some (.fetchResp [[97]]) }

/-- A connection with a Kafka filter and no latency or size limits. -/
def sampleKafkaConn (apiKey : List ℤ) (topic : GoString) (producer consumer : Bool) :
    FilteredConn :=
  { protocol := .kafka
    messageFilter := .kafka ⟨apiKey, topic, producer, consumer⟩
    minLatency := 0, minReqSize := 0, minRespSize := 0 }

theorem recordOf_sampleFetch :
    RecordOf .kafka (.kafkaRequest sampleFetch) (.kafkaResponse sampleFetchResp) := by
  refine .kafka _ _ (fun h => absurd h (by decide)) ?_
  intro _ origin horigin
  have heq : some (OriginResp.fetchResp [[97]]) = some origin := horigin
  rw [Option.some.injEq] at heq
  exact ⟨[[97]], heq.symm⟩

/-- The tests of a connection without limits. -/
theorem passesTests_sampleKafkaConn (apiKey : List ℤ) (topic : GoString)
    (producer consumer : Bool) (req resp : Message) :
    (sampleKafkaConn apiKey topic producer consumer).passesTests req resp = true := by
  simp [FilteredConn.passesTests, sampleKafkaConn, MessageFilter.filterByProtocol,
    filterByLatency, filterBySize]

/-- Without API keys, a consumer's topic filter is asked about both sides. -/
theorem submitRecord_topic_agrees :
    Agrees (.kafka ⟨[], [97], false, true⟩) (.kafkaRequest sampleFetch)
      (.kafkaResponse sampleFetchResp)
      ((sampleKafkaConn [] [97] false true).submitRecord
        ⟨some (.kafkaRequest sampleFetch), some (.kafkaResponse sampleFetchResp), .noneStatus⟩) :=
  (submitRecord_agrees_iff (sampleKafkaConn [] [97] false true) _ _ _ recordOf_sampleFetch
    (passesTests_sampleKafkaConn _ _ _ _ _ _)).mpr (Or.inl rfl)

/-- A filter for produce requests submits a fetch request, which it would refuse. -/
theorem submitRecord_ignores_api_keys :
    ¬ ∀ (c : FilteredConn) (req resp : Message) (status : ResponseStatus),
      RecordOf c.protocol req resp → c.passesTests req resp = true →
      Agrees c.messageFilter req resp (c.submitRecord ⟨some req, some resp, status⟩) := by
  intro h
  obtain ⟨b, hfilter, hsubmit⟩ := h (sampleKafkaConn [kProduce] [] false false) _ _ .noneStatus
    recordOf_sampleFetch (passesTests_sampleKafkaConn _ _ _ _ _ _)
  rw [submitRecord_eq _ recordOf_sampleFetch (passesTests_sampleKafkaConn _ _ _ _ _ _)] at hsubmit
  have hb : Except.ok false = (Except.ok b : Except Panic Bool) := hfilter
  have hb' : Except.ok true = (Except.ok b : Except Panic Bool) := hsubmit
  rw [← hb] at hb'
  cases hb'

end Kyanos
