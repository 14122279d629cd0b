/-
The records that reach `submitRecord`, over runs of the seven matchers.

A connection holds a parser, with its state, and two maps of queues. Messages are parsed into
the queues, and `Match` is called on them at any time. `submitRecord` subtracts the time of
the request from the time of the response, so a record must hold both, and the request must
not be the later one (`Record.Forward`).

Five matchers see to that by themselves. RocketMQ looks at opaque ids and never at times, so
a response that is earlier than the request of its id is still paired with it. MySQL submits
a query whose error packet is too short to be read, and then the response is `nil`. `Safe`
says that neither is in the queues.
-/
import Kyanos.Http
import Kyanos.Redis
import Kyanos.MysqlRecords
import Kyanos.Kafka
import Kyanos.MongoStitcher
import Kyanos.Dns
import Kyanos.RocketMQ

set_option autoImplicit false

open GoNum Trace

namespace Kyanos

/-! ## Matchers -/

/-- `map[StreamId]*ParsedMessageQueue`, of the messages of one protocol. -/
abbrev MessageQueues (μ : Type) := SortedMap ℤ (List μ)

/-- A parser as far as matching goes: its state, its messages and `Match`, which is given the
time. -/
structure Matcher where
  State : Type
  Msg : Type
  timestampNs : Msg → ℕ
  matchStreams : ℤ → State → MessageQueues Msg → MessageQueues Msg →
    Except Panic (State × List (Record Message) × MessageQueues Msg × MessageQueues Msg)

/-- The frame of the matchers that only look at stream 0. -/
def onStreamZero {σ μ : Type}
    (f : σ → List μ → List μ → Except Panic (σ × List (Record Message) × List μ × List μ))
    (state : σ) (reqStreams respStreams : MessageQueues μ) :
    Except Panic (σ × List (Record Message) × MessageQueues μ × MessageQueues μ) :=
  match reqStreams.get? 0, respStreams.get? 0 with
  | some reqStream, some respStream => do
      let (state, records, reqStream, respStream) ← f state reqStream respStream
      .ok (state, records, reqStreams.put 0 reqStream, respStreams.put 0 respStream)
  | _, _ => .ok (state, [], reqStreams, respStreams)

/-- A matcher that cannot panic. -/
def total {σ μ : Type}
    (f : σ → List μ → List μ → σ × List (Record Message) × List μ × List μ) (state : σ)
    (reqStream respStream : List μ) :
    Except Panic (σ × List (Record Message) × List μ × List μ) :=
  .ok (f state reqStream respStream)

/-- A matcher without a state. -/
def stateless {μ : Type} (f : List μ → List μ → List (Record Message) × List μ × List μ)
    (state : Unit) (reqStream respStream : List μ) :
    Unit × List (Record Message) × List μ × List μ :=
  (state, f reqStream respStream)

/-- What a matcher by timestamp leaves. -/
def Matched.parts {μ : Type} (m : Matched μ) : List (Record μ) × List μ × List μ :=
  (m.records, m.reqStream, m.respStream)

def httpMatcher : Matcher where
  State := Unit
  Msg := Message
  timestampNs m := m.base.timestampNs
  matchStreams _ := onStreamZero (total (stateless fun reqStream respStream =>
    (Http.matchStreams reqStream respStream).parts))

def redisMatcher : Matcher where
  State := Unit
  Msg := Message
  timestampNs m := m.base.timestampNs
  matchStreams _ := onStreamZero (total (stateless fun reqStream respStream =>
    (Redis.matchStreams reqStream respStream).parts))

def mysqlMatcher (floatText : GoString → GoString) : Matcher where
  State := Mysql.State
  Msg := MysqlPacket
  timestampNs m := m.base.timestampNs
  matchStreams _ := onStreamZero (Mysql.matchStreams floatText)

def kafkaMatcher (decoders : Kafka.Decoders) : Matcher where
  State := Kafka.State
  Msg := Kafka.Packet
  timestampNs m := m.base.timestampNs
  matchStreams _ := onStreamZero (Kafka.matchStreams decoders)

def mongoMatcher : Matcher where
  State := Mongo.State
  Msg := MongoDBFrame
  timestampNs m := m.base.timestampNs
  matchStreams _ state reqStreams respStreams :=
    let (state, records, s) := Mongo.matchStreams state ⟨reqStreams, respStreams⟩
    .ok (state, records, s.reqStreams, s.respStreams)

def dnsMatcher : Matcher where
  State := Unit
  Msg := DnsFrame
  timestampNs m := m.base.timestampNs
  matchStreams _ := onStreamZero (total (stateless Dns.matchStreams))

def rocketMQMatcher : Matcher where
  State := RocketMQ.State
  Msg := RocketMQMessage
  timestampNs m := m.base.timestampNs
  matchStreams now := onStreamZero (total (RocketMQ.matchStreams now))

/-- The protocols with a matcher. -/
inductive MatchedProtocol
  | http
  | redis
  | mysql
  | kafka
  | mongo
  | dns
  | rocketMQ
deriving DecidableEq, Repr

/-- The decoders of other packages that two of the matchers call. -/
structure MatchDecoders where
  floatText : GoString → GoString
  kafka : Kafka.Decoders

/-- The matcher of a protocol. -/
def matcherOf (d : MatchDecoders) : MatchedProtocol → Matcher
  | .http => httpMatcher
  | .redis => redisMatcher
  | .mysql => mysqlMatcher d.floatText
  | .kafka => kafkaMatcher d.kafka
  | .mongo => mongoMatcher
  | .dns => dnsMatcher
  | .rocketMQ => rocketMQMatcher

/-! ## Runs -/

/-- A connection as far as matching goes, and the records so far. -/
structure Matching (m : Matcher) where
  state : m.State
  reqQueue : MessageQueues m.Msg
  respQueue : MessageQueues m.Msg
  records : List (Record Message)

/-- A connection with nothing in its queues. -/
def Matching.new {m : Matcher} (state : m.State) : Matching m :=
  { state := state, reqQueue := SortedMap.empty, respQueue := SortedMap.empty, records := [] }

/-- What happens to the queues: a message is parsed, and the parser may have another state
behind it; or `Match` is called, at a time. -/
inductive MatchInput (m : Matcher)
  | parsed (isReq : Bool) (streamId : ℤ) (message : m.Msg) (state : m.State)
  | called (now : ℤ)

/-- A message goes to the end of the queue of its stream. -/
def enqueue {μ : Type} (queues : MessageQueues μ) (streamId : ℤ) (message : μ) : MessageQueues μ :=
  queues.put streamId ((queues.get? streamId).getD [] ++ [message])

def Matching.step {m : Matcher} (s : Matching m) : MatchInput m → Except Panic (Matching m)
  | .parsed isReq streamId message state =>
      .ok (if isReq then
          { s with reqQueue := enqueue s.reqQueue streamId message, state := state }
        else { s with respQueue := enqueue s.respQueue streamId message, state := state })
  | .called now => do
      let (state, records, reqQueue, respQueue) ← m.matchStreams now s.state s.reqQueue s.respQueue
      .ok ⟨state, reqQueue, respQueue, s.records ++ records⟩

/-- Every queue is in the order of its times. -/
def QueuesInOrder (m : Matcher) (queues : MessageQueues m.Msg) : Prop :=
  ∀ e ∈ queues.entries, e.2.Pairwise (fun a b => m.timestampNs a ≤ m.timestampNs b)

/-- Both queues of stream 0 are there, and so related. -/
def StreamZero {μ : Type} (P : List μ → List μ → Prop) (reqs resps : MessageQueues μ) : Prop :=
  ∀ reqStream ∈ reqs.get? 0, ∀ respStream ∈ resps.get? 0, P reqStream respStream

/-- The queues hold nothing that the matcher makes a wrong record of. -/
def Safe (d : MatchDecoders) : (p : MatchedProtocol) → MessageQueues (matcherOf d p).Msg →
    MessageQueues (matcherOf d p).Msg → Prop
  | .mysql => StreamZero Mysql.NoShortError
  | .rocketMQ => StreamZero RocketMQ.NoneEarly
  | .http | .redis | .kafka | .mongo | .dns => fun _ _ => True

/-- The queues are in order wherever `Match` is called. -/
def InOrder {m : Matcher} (s : Matching m) : MatchInput m → Prop
  | .parsed .. => True
  | .called _ => QueuesInOrder m s.reqQueue ∧ QueuesInOrder m s.respQueue

/-- They are in order, and safe. -/
def InOrderAndSafe (d : MatchDecoders) (p : MatchedProtocol) (s : Matching (matcherOf d p)) :
    MatchInput (matcherOf d p) → Prop
  | .parsed .. => True
  | .called now => InOrder s (.called now) ∧ Safe d p s.reqQueue s.respQueue

/-- The difference that `submitRecord` takes is the time between the two. -/
def Record.Unwrapped (record : Record Message) : Prop :=
  ∀ req ∈ record.req, ∀ resp ∈ record.resp, timestampNs resp < 2 ^ 64 →
    subU64 (timestampNs resp) (timestampNs req) = timestampNs resp - timestampNs req

theorem Record.Forward.unwrapped {record : Record Message} (h : record.Forward) :
    record.Unwrapped := by
  obtain ⟨req, resp, hreq, hresp, hle⟩ := h
  intro req' hreq' resp' hresp' hlt
  rw [hreq] at hreq'
  rw [hresp] at hresp'
  cases hreq'
  cases hresp'
  exact subU64_of_le hle hlt

/-! ## One call -/

section

variable {d : MatchDecoders} {now : ℤ} {records : List (Record Message)}

/-- What a matcher of stream 0 returns comes from the two queues of that stream. -/
theorem onStreamZero_records {σ μ : Type}
    {f : σ → List μ → List μ → Except Panic (σ × List (Record Message) × List μ × List μ)}
    {state state' : σ} {reqs resps reqs' resps' : MessageQueues μ} {P : Record Message → Prop}
    (hf : ∀ reqStream ∈ reqs.get? 0, ∀ respStream ∈ resps.get? 0,
      ∀ a, f state reqStream respStream = .ok a → ∀ record ∈ a.2.1, P record)
    (h : onStreamZero f state reqs resps = .ok (state', records, reqs', resps')) :
    ∀ record ∈ records, P record := by
  unfold onStreamZero at h
  split at h
  · rename_i reqStream respStream hreqs hresps
    obtain ⟨⟨state₁, records₁, reqStream₁, respStream₁⟩, hcall, h⟩ := bind_eq_ok.mp h
    cases h
    exact hf reqStream hreqs respStream hresps _ hcall
  · cases h
    simp

/-- A queue of a stream is one of the queues in order. -/
theorem QueuesInOrder.get {m : Matcher} {queues : MessageQueues m.Msg} (h : QueuesInOrder m queues)
    {k : ℤ} {queue : List m.Msg} (hqueue : queue ∈ queues.get? k) :
    queue.Pairwise (fun a b => m.timestampNs a ≤ m.timestampNs b) :=
  h (k, queue) (SortedMap.mem_entries.mpr hqueue)

/-- **One call**: over queues that are in order and safe, the records run forward. -/
theorem matchStreams_forward {p : MatchedProtocol} {s : Matching (matcherOf d p)}
    (hpre : InOrderAndSafe d p s (.called now)) {state' : (matcherOf d p).State}
    {reqs' resps' : MessageQueues (matcherOf d p).Msg}
    (h : (matcherOf d p).matchStreams now s.state s.reqQueue s.respQueue
      = .ok (state', records, reqs', resps')) : ∀ record ∈ records, record.Forward := by
  obtain ⟨⟨hreqs, hresps⟩, hsafe⟩ := hpre
  -- Only MySQL and RocketMQ need the order, and the condition.
  rcases p with _ | _ | _ | _ | _ | _ | _
  · refine onStreamZero_records ?_ h
    intro reqStream _ respStream _ a ha
    cases ha
    exact matchByTimestamp_forward reqStream respStream
  · refine onStreamZero_records ?_ h
    intro reqStream _ respStream _ a ha
    cases ha
    exact matchByTimestamp_forward reqStream respStream
  · refine onStreamZero_records ?_ h
    intro reqStream hreq respStream hresp a ha
    exact Mysql.matchStreams_forward (hreqs.get hreq) (hresps.get hresp)
      (hsafe reqStream hreq respStream hresp) ha
  · refine onStreamZero_records ?_ h
    intro reqStream _ respStream _ a ha
    exact Kafka.matchStreams_forward ha
  · cases h
    exact Mongo.matchStreams_forward s.state ⟨s.reqQueue, s.respQueue⟩
  · refine onStreamZero_records ?_ h
    intro reqStream _ respStream _ a ha
    cases ha
    exact Dns.matchStreams_forward reqStream respStream
  · refine onStreamZero_records ?_ h
    intro reqStream hreq respStream hresp a ha
    cases ha
    exact (RocketMQ.matchStreams_forward_iff now s.state (hreqs.get hreq) (hresps.get hresp)).mpr
      (hsafe reqStream hreq respStream hresp)

/-! ## Runs -/

/-- **No negative latency.** In every run whose calls of `Match` find queues that are in order
and safe, every record has both sides, the request no later than the response, and the
difference of their times does not wrap. -/
theorem records_forward {p : MatchedProtocol} {state : (matcherOf d p).State}
    {is : List (MatchInput (matcherOf d p))} {s : Matching (matcherOf d p)}
    (h : Run Matching.step (InOrderAndSafe d p) (Matching.new state) is s) :
    ∀ record ∈ s.records, record.Forward ∧ record.Unwrapped := by
  have hforward : ∀ record ∈ s.records, record.Forward := by
    -- Parsing adds no record, and a call adds those of `matchStreams_forward`.
    refine Run.invariant (I := fun s => ∀ record ∈ s.records, record.Forward) ?_ ?_ h
    · intro record hrecord
      cases hrecord
    · intro s i s' ih hpre hstep
      rcases i with ⟨isReq, streamId, message, state⟩ | now
      · cases hstep
        split_ifs
        · exact ih
        · exact ih
      · obtain ⟨⟨state', records, reqs', resps'⟩, hcall, hstep⟩ := bind_eq_ok.mp hstep
        cases hstep
        exact List.forall_mem_append.mpr ⟨ih, matchStreams_forward hpre hcall⟩
  intro record hrecord
  exact ⟨hforward record hrecord, (hforward record hrecord).unwrapped⟩

end

/-- Decoders that make nothing of a message. -/
def sampleDecoders : MatchDecoders where
  floatText := id
  kafka :=
    { reqHeader := fun _ => .ok none, reqBody := fun _ => .ok none
      respHeader := fun _ _ _ => .ok false, respBody := fun _ _ _ => .ok none }

/-- A request and a response are parsed, and `Match` is called. -/
def pairInputs {m : Matcher} (state : m.State) (req resp : m.Msg) : List (MatchInput m) :=
  [.parsed true 0 req state, .parsed false 0 resp state, .called 0]

/-- The connection before the call. -/
def onePair {m : Matcher} (state : m.State) (req resp : m.Msg) : Matching m :=
  { state := state, reqQueue := SortedMap.empty.put 0 [req]
    respQueue := SortedMap.empty.put 0 [resp], records := [] }

/-- One message is in order. -/
theorem onePair_inOrder {m : Matcher} (state : m.State) (req resp : m.Msg) :
    InOrder (onePair state req resp) (.called 0) := by
  have hone : ∀ message : m.Msg, QueuesInOrder m (SortedMap.empty.put 0 [message]) := by
    intro message e he
    cases List.mem_singleton.mp he
    exact List.pairwise_singleton _ _
  exact ⟨hone req, hone resp⟩

theorem run_onePair {m : Matcher} {pre : Matching m → MatchInput m → Prop} {state : m.State}
    {req resp : m.Msg} {s : Matching m}
    (hparsed : ∀ s isReq streamId message state, pre s (.parsed isReq streamId message state))
    (hcalled : pre (onePair state req resp) (.called 0))
    (hstep : (onePair state req resp).step (.called 0) = .ok s) :
    Run Matching.step pre (Matching.new state) (pairInputs state req resp) s :=
  ((Run.nil.snoc (hparsed ..) rfl).snoc (hparsed ..) rfl).snoc hcalled hstep

/-- A message of opaque id 7. -/
def sampleRocketMQ (timestampNs : ℕ) (isReq : Bool) : RocketMQMessage :=
  { base := ⟨timestampNs, 40, 0⟩, requestCode := 10, languageCode := 0, versionFlag := 0
    opaqueId := 7, requestFlag := 0, isReq := isReq }

/-- What a call leaves of a request and a response of that id. -/
def sampleMatching (reqNs respNs : ℕ) : Matching rocketMQMatcher :=
  { state := ⟨SortedMap.empty⟩
    reqQueue := SortedMap.empty.put 0 []
    respQueue := SortedMap.empty.put 0 []
    records := [RocketMQ.recordOf (sampleRocketMQ reqNs true) (sampleRocketMQ respNs false)] }

/-- The response comes after the request. -/
theorem records_forward_sample :
    (RocketMQ.recordOf (sampleRocketMQ 5 true) (sampleRocketMQ 10 false)).Forward
      ∧ (RocketMQ.recordOf (sampleRocketMQ 5 true) (sampleRocketMQ 10 false)).Unwrapped := by
  have hearly : RocketMQ.NoneEarly [sampleRocketMQ 5 true] [sampleRocketMQ 10 false] := by decide
  have hrun : Run Matching.step (InOrderAndSafe sampleDecoders .rocketMQ)
      (Matching.new (RocketMQ.State.mk SortedMap.empty))
      (pairInputs (RocketMQ.State.mk SortedMap.empty) (sampleRocketMQ 5 true)
        (sampleRocketMQ 10 false)) (sampleMatching 5 10) := by
    refine run_onePair (fun _ _ _ _ _ => trivial) ⟨onePair_inOrder _ _ _, ?_⟩ rfl
    intro reqStream hreq respStream hresp
    cases hreq
    cases hresp
    exact hearly
  exact records_forward (d := sampleDecoders) (p := .rocketMQ) hrun _ List.mem_cons_self

/-- Every record of every run over queues in order has both sides in order. -/
def RunsForward (d : MatchDecoders) (p : MatchedProtocol) : Prop :=
  ∀ (state : (matcherOf d p).State) (is : List (MatchInput (matcherOf d p)))
    (s : Matching (matcherOf d p)), Run Matching.step InOrder (Matching.new state) is s →
    ∀ record ∈ s.records, record.Forward ∧ record.Unwrapped

/-- `SELECT 1`. -/
def sampleQuery : MysqlPacket :=
  { base := ⟨5, 13, 0⟩, seqId := 0, msg := 3 :: text "SELECT 1", cmd := 0, isReq := true }

/-- An error packet of four bytes. -/
def sampleShortError : MysqlPacket :=
  { base := ⟨10, 8, 0⟩, seqId := 1, msg := [255, 21, 4, 35], cmd := 0, isReq := false }

/-- A RocketMQ response that is earlier than the request of its opaque id, and a MySQL query
answered by a short error packet. -/
theorem records_not_forward :
    ¬ RunsForward sampleDecoders .rocketMQ ∧ ¬ RunsForward sampleDecoders .mysql := by
  refine ⟨?_, ?_⟩
  · intro h
    have hrun : Run Matching.step InOrder
        (Matching.new (m := rocketMQMatcher) (RocketMQ.State.mk SortedMap.empty))
        (pairInputs (RocketMQ.State.mk SortedMap.empty) (sampleRocketMQ 10 true)
          (sampleRocketMQ 5 false)) (sampleMatching 10 5) :=
      run_onePair (fun _ _ _ _ _ => trivial) (onePair_inOrder _ _ _) rfl
    obtain ⟨⟨req, resp, hreq, hresp, hle⟩, -⟩ := h _ _ _ hrun _ List.mem_cons_self
    cases hreq
    cases hresp
    exact absurd hle (by decide)
  · intro h
    have hrun : ∃ s : Matching (mysqlMatcher sampleDecoders.floatText),
        Run Matching.step InOrder (Matching.new (Mysql.State.mk SortedMap.empty false))
          (pairInputs (Mysql.State.mk SortedMap.empty false) sampleQuery sampleShortError) s
        ∧ ∃ record ∈ s.records, record.resp = none :=
      ⟨_, run_onePair (fun _ _ _ _ _ => trivial) (onePair_inOrder _ _ _) rfl, _,
        List.mem_cons_self, rfl⟩
    obtain ⟨s, hrun, record, hrecord, hnone⟩ := hrun
    obtain ⟨⟨req, resp, -, hresp, -⟩, -⟩ := h _ _ _ hrun record hrecord
    rw [hnone] at hresp
    cases hresp

end Kyanos
