/-
`agent/protocol/redis..go`, on a connection: commands and replies that arrive in pieces.

What `ParseMessage` makes of a frame depends on the frame alone. A line, a string or an error gives its
text; an array gives the command its first elements name and the texts of the rest
(`parseMessage_shows`). So the Redis parser knows its frames in the sense of `Framed`, and what the
connection makes of a stream of commands, and of the stream of the replies, does not depend on the
pieces they come in.
-/
import Kyanos.RedisFrames
import Kyanos.Conversations

set_option autoImplicit false

open GoNum Trace Framing

namespace Kyanos.Redis

open BinaryDecoder

/-! ## What a frame shows -/

/-- A message of which only the payload counts. -/
def ofPayload (payload : GoString) : RedisMessage :=
  { base := ⟨0, 0, 0⟩, payload := payload, command := [], isReq := false, status := .noneStatus }

/-- `getCmdAndArgs` looks at the payloads only. -/
def cmdAndArgs (payloads : List GoString) : GoString × GoString := getCmdAndArgs (payloads.map ofPayload)

theorem joinPayloads_eq (ms : List RedisMessage) :
    joinPayloads ms = joinPayloads ((ms.map RedisMessage.payload).map ofPayload) := by
  unfold joinPayloads
  rw [List.map_map, List.flatMap_map]
  rfl

theorem getCmdAndArgs_eq (ms : List RedisMessage) :
    getCmdAndArgs ms = cmdAndArgs (ms.map RedisMessage.payload) := by
  have hsingle : ∀ ms : List RedisMessage, getCmdAndArgsSingle ms
      = getCmdAndArgsSingle ((ms.map RedisMessage.payload).map ofPayload) := by
    rintro (_ | ⟨first, rest⟩)
    · rfl
    · rw [getCmdAndArgsSingle, joinPayloads_eq rest]
      rfl
  unfold cmdAndArgs
  rcases ms with _ | ⟨first, _ | ⟨second, rest⟩⟩
  · rfl
  · exact hsingle [first]
  · rw [getCmdAndArgs, joinPayloads_eq rest, hsingle]
    rfl

mutual

/-- The payload of the message a frame becomes. -/
def Frame.payload : Frame → GoString
  | .simple str => str
  | .error str => 45 :: str
  | .integer str => str
  | .bulk _ payload _ => payload
  | .nullBulk _ => text "<NULL>"
  | .array _ elements => (cmdAndArgs (Frame.payloads elements)).2
  | .nullArray _ => text "[NULL]"

def Frame.payloads : List Frame → List GoString
  | [] => []
  | f :: fs => f.payload :: Frame.payloads fs

end

/-- Its command, which only an array has. -/
def Frame.command : Frame → GoString
  | .array _ elements => (cmdAndArgs (Frame.payloads elements)).1
  | _ => []

def Frame.status : Frame → ResponseStatus
  | .error _ => .failStatus
  | .array _ _ => .noneStatus
  | .nullArray _ => .noneStatus
  | _ => .successStatus

/-- The message is that of the frame. -/
structure Frame.Shows (f : Frame) (timestamp : ℕ) (m : RedisMessage) : Prop where
  payload : m.payload = f.payload
  command : m.command = f.command
  status : m.status = f.status
  timestamp : m.base.timestampNs = timestamp

variable {d d' : BinaryDecoder} {timestamp seq : ℕ} {m : RedisMessage} {rest : GoString}

theorem plainMessage_shows {f : Frame} {payload : GoString} {status : ResponseStatus}
    (hpayload : payload = f.payload) (hcommand : f.command = []) (hstatus : status = f.status) :
    f.Shows timestamp (plainMessage timestamp seq d payload status) :=
  ⟨hpayload, hcommand.symm, hstatus, rfl⟩

/-- The elements of an array, one after the other. -/
theorem parseElements_shows
    {parse : BinaryDecoder → Except Failure (RedisMessage × BinaryDecoder)} {k : ℕ} {fs : List Frame}
    (hreads : ∀ f ∈ fs, ReadsFrame parse k f)
    (hshows : ∀ f ∈ fs, ∀ {d d' : BinaryDecoder} {m : RedisMessage} {rest : GoString},
      d.str = f.bytes ++ rest → d.str.length ≤ k → parse d = .ok (m, d') → f.Shows timestamp m)
    {ms : List RedisMessage} (h : d.str = Frame.bytesAll fs ++ rest) (hk : d.str.length ≤ k)
    (hparse : parseElements parse fs.length d = .ok (ms, d')) :
    ms.map RedisMessage.payload = Frame.payloads fs := by
  induction fs generalizing d ms with
  | nil =>
      cases hparse
      rfl
  | cons f fs ih =>
      obtain ⟨hreadf, hreadfs⟩ := List.forall_mem_cons.mp hreads
      rw [Frame.bytesAll, List.append_assoc] at h
      obtain ⟨m, d₁, hm, hrest⟩ := hreadf d _ h hk
      have hk₁ : d₁.str.length ≤ k := by
        rw [h, List.length_append, ← hrest] at hk
        omega
      rw [List.length_cons, parseElements, hm, ok_bind] at hparse
      obtain ⟨⟨ms', d₂⟩, hms, hparse⟩ := bind_eq_ok.mp hparse
      cases hparse
      have hshowf := (hshows f List.mem_cons_self h hk hm).payload
      rw [List.map_cons, hshowf, Frame.payloads,
        ih hreadfs (fun g hg => hshows g (List.mem_cons_of_mem f hg)) hrest hk₁ hms]

/-- **What a frame is read as** depends on nothing but the frame. By induction on the frame; for an
array, its elements are what is claimed. -/
theorem parseMessage_shows {f : Frame} (hf : f.Taken) {n : ℕ} (h : d.str = f.bytes ++ rest)
    (hn : d.str.length ≤ n) (hparse : parseMessage timestamp seq n d = .ok (m, d')) :
    f.Shows timestamp m := by
  induction f using Frame.induction generalizing d d' m rest n with
  | simple str =>
      rcases n with _ | n
      · cases hparse
      rw [Frame.bytes, lineBytes_append] at h
      obtain ⟨d₁, hd₁, heq⟩ := parseMessage_marker h n
      obtain ⟨d₂, hread, -⟩ := extractLine_eq hf hd₁
      rw [heq, if_pos rfl, hread] at hparse
      obtain ⟨rfl, -⟩ := Prod.mk.inj (Except.ok.inj hparse)
      exact plainMessage_shows rfl rfl rfl
  | error str =>
      rcases n with _ | n
      · cases hparse
      rw [Frame.bytes, lineBytes_append] at h
      obtain ⟨d₁, hd₁, heq⟩ := parseMessage_marker h n
      obtain ⟨d₂, hread, -⟩ := extractLine_eq hf hd₁
      rw [heq, if_neg (by decide), if_neg (by decide), if_pos rfl, hread] at hparse
      obtain ⟨rfl, -⟩ := Prod.mk.inj (Except.ok.inj hparse)
      exact plainMessage_shows rfl rfl rfl
  | integer str =>
      rcases n with _ | n
      · cases hparse
      rw [Frame.bytes, lineBytes_append] at h
      obtain ⟨d₁, hd₁, heq⟩ := parseMessage_marker h n
      obtain ⟨d₂, hread, -⟩ := extractLine_eq hf hd₁
      rw [heq, if_neg (by decide), if_neg (by decide), if_neg (by decide), if_pos rfl, hread] at hparse
      obtain ⟨rfl, -⟩ := Prod.mk.inj (Except.ok.inj hparse)
      exact plainMessage_shows rfl rfl rfl
  | bulk size payload terminal =>
      rcases n with _ | n
      · cases hparse
      obtain ⟨hsize, hmax, hterminal⟩ := hf
      rw [Frame.bytes, List.append_assoc, lineBytes_append] at h
      obtain ⟨d₁, hd₁, heq⟩ := parseMessage_marker h n
      rw [List.append_assoc] at hd₁
      obtain ⟨d₂, hread, -⟩ := parseBulkString_eq hsize hmax hterminal hd₁
      rw [heq, if_neg (by decide), if_pos rfl, hread] at hparse
      obtain ⟨rfl, -⟩ := Prod.mk.inj (Except.ok.inj hparse)
      exact plainMessage_shows rfl rfl rfl
  | nullBulk size =>
      rcases n with _ | n
      · cases hparse
      rw [Frame.bytes, lineBytes_append] at h
      obtain ⟨d₁, hd₁, heq⟩ := parseMessage_marker h n
      obtain ⟨d₂, hread, -⟩ := parseBulkString_null hf hd₁
      rw [heq, if_neg (by decide), if_pos rfl, hread] at hparse
      obtain ⟨rfl, -⟩ := Prod.mk.inj (Except.ok.inj hparse)
      exact plainMessage_shows rfl rfl rfl
  | array size elements ih =>
      rcases n with _ | n
      · cases hparse
      obtain ⟨hsize, helements⟩ := hf
      have htaken := Frame.takenAll_iff.mp helements
      rw [Frame.bytes, List.append_assoc, lineBytes_append] at h
      obtain ⟨d₁, hd₁, heq⟩ := parseMessage_marker h n
      -- The elements are read with the fuel that the marker left, and they are no longer than it.
      have hn₁ : d₁.str.length ≤ n := by
        rw [h, ← hd₁, List.length_cons] at hn
        omega
      obtain ⟨d₂, hread, hrest⟩ := parseSize_eq hsize (by unfold kNullSize; omega) hd₁
      have hn₂ : d₂.str.length ≤ n := by
        rw [hd₁, ← hrest, List.length_append, List.length_append] at hn₁
        omega
      -- An array with elements is not the null array, which has a size of its own.
      have hnull : ¬(elements.length : ℤ) = kNullSize := by
        unfold kNullSize
        omega
      rw [heq, if_neg (by decide), if_neg (by decide), if_neg (by decide), if_neg (by decide),
        if_pos rfl]
        at hparse
      unfold parseArray at hparse
      rw [hread, ok_bind] at hparse
      dsimp only at hparse
      rw [if_neg hnull, Int.toNat_natCast] at hparse
      obtain ⟨⟨ms, d₃⟩, hms, hparse⟩ := bind_eq_ok.mp hparse
      obtain ⟨rfl, -⟩ := Prod.mk.inj (Except.ok.inj hparse)
      have hshows : ∀ f ∈ elements, ∀ {d d' : BinaryDecoder} {m : RedisMessage} {rest : GoString},
          d.str = f.bytes ++ rest → d.str.length ≤ n →
            parseMessage timestamp seq n d = .ok (m, d') → f.Shows timestamp m := by
        intro f hf d d' m rest h hk hm
        exact ih f hf (htaken f hf) h hk hm
      have hpayloads := parseElements_shows (fun f hf => parseMessage_frame (htaken f hf) n) hshows
        hrest hn₂ hms
      -- `getCmdAndArgs` looks at nothing of the elements but their payloads.
      have hargs : getCmdAndArgs ms = cmdAndArgs (Frame.payloads elements) := by
        rw [getCmdAndArgs_eq, hpayloads]
      refine ⟨?_, ?_, rfl, rfl⟩
      · exact congrArg Prod.snd hargs
      · exact congrArg Prod.fst hargs
  | nullArray size =>
      rcases n with _ | n
      · cases hparse
      rw [Frame.bytes, lineBytes_append] at h
      obtain ⟨d₁, hd₁, heq⟩ := parseMessage_marker h n
      obtain ⟨d₂, hread, -⟩ := parseSize_eq hf le_rfl hd₁
      rw [heq, if_neg (by decide), if_neg (by decide), if_neg (by decide), if_neg (by decide),
        if_pos rfl]
        at hparse
      unfold parseArray at hparse
      rw [hread, ok_bind] at hparse
      obtain ⟨rfl, -⟩ := Prod.mk.inj (Except.ok.inj hparse)
      exact plainMessage_shows rfl rfl rfl

/-! ## The parser of a connection -/

/-- The parser as the connection calls it. A panic ends the agent; it stands for a parse state without
a name, which does, too. -/
def streamParser : ProtocolStreamParser RedisMessage Unit where
  parseStream st sb messageType :=
    (match parseStream sb messageType with
      | .ok r => r
      | .error _ => ⟨.other 0, [], 0⟩, st)
  findBoundary st sb _ startPos :=
    (match findBoundary sb startPos with
      | .ok pos => pos
      | .error _ => -1, st)

/-- A frame that the parser reads. -/
abbrev TakenFrame := { f : Frame // f.Taken }

def layout : Layout UInt8 TakenFrame where
  bytes f := f.val.bytes
  nonempty f := f.val.bytes_ne_nil

/-- The message of a frame at a position, on a side. -/
def TakenFrame.message (side : Side) (f : TakenFrame) (pos ts : ℕ) : ParsedMessage RedisMessage where
  isReq := side.messageType == .request
  streamId := 0
  payload :=
    { base := ⟨ts, layout.len f, pos⟩, payload := f.val.payload, command := f.val.command
      isReq := side.messageType == .request, status := f.val.status }

theorem markRequest_side (side : Side) (m : RedisMessage) :
    markRequest side.messageType m = (side.messageType == .request) := by
  rcases side with _ | _ <;> rfl

/-- The message the parser hands on, with its own position put in. -/
theorem message_eq {f : TakenFrame} {side : Side} {pos ts : ℕ} {m : RedisMessage}
    (hshows : f.val.Shows ts m) (hsize : m.base.byteSize = layout.len f) :
    ({ m with
        isReq := side.messageType == .request
        base := { m.base with seq := pos } } : RedisMessage) = (f.message side pos ts).payload := by
  rcases m with ⟨⟨timestampNs, byteSize, seq⟩, payload, command, isReq, status⟩
  obtain ⟨hpayload, hcommand, hstatus, htimestamp⟩ := hshows
  dsimp only at hpayload hcommand hstatus htimestamp hsize
  rw [hpayload, hcommand, hstatus, htimestamp, hsize]
  rfl

variable {sb : StreamBuffer} {side : Side}

/-- A frame at the head is read as its message. -/
theorem streamParser_reads (st : Unit) (sb : StreamBuffer) (f : TakenFrame) (rest : List UInt8)
    (pos ts : ℕ) (hbuffers : sb.buffers = [⟨layout.bytes f ++ rest, pos⟩])
    (hfind : sb.findTimestampBySeq pos = some ts) :
    streamParser.parseStream st sb side.messageType
      = (⟨.success, [TakenFrame.message side f pos ts], layout.len f⟩, st) := by
  have hhead : sb.head = some ⟨layout.bytes f ++ rest, pos⟩ := by
    rw [StreamBuffer.head, hbuffers]
    rfl
  obtain ⟨m, d', hparse, hrest⟩ := @parseMessage_frame ts pos _ f.property
    (layout.bytes f ++ rest).length (BinaryDecoder.new (layout.bytes f ++ rest)) rest rfl le_rfl
  have hshows :=
    parseMessage_shows f.property (d := BinaryDecoder.new (layout.bytes f ++ rest)) rfl le_rfl
    hparse
  obtain ⟨hadv, hsize⟩ := parseMessage_counts hparse
  have hcounted := hadv.counted
  have hlen : m.base.byteSize = layout.len f := by
    have hstr : (BinaryDecoder.new (layout.bytes f ++ rest)).str.length
        = (layout.bytes f).length + rest.length := List.length_append
    have hzero : (BinaryDecoder.new (layout.bytes f ++ rest)).readBytes = 0 := rfl
    rw [hrest, hstr, hzero] at hcounted
    rw [hsize, Layout.len]
    push_cast at hcounted
    omega
  unfold streamParser parseStream
  dsimp only
  rw [hhead]
  dsimp only
  rw [Buffer.leftBoundary, hfind, Option.getD_some, hparse]
  dsimp only
  rw [markRequest_side, message_eq hshows hlen, hlen]
  rfl

/-- A frame that is cut is waited for. -/
theorem streamParser_waits (st : Unit) (sb : StreamBuffer) (f : TakenFrame) (cut : List UInt8) (pos : ℕ)
    (hbuffers : sb.buffers = [⟨cut, pos⟩]) (_ : cut ≠ []) (hfront : cut <+: layout.bytes f)
    (hlt : cut.length < layout.len f) :
    (streamParser.parseStream st sb side.messageType).1.parseState = .needsMoreData
      ∧ (streamParser.parseStream st sb side.messageType).2 = st := by
  refine ⟨?_, rfl⟩
  have hhead : sb.head = some ⟨cut, pos⟩ := by
    rw [StreamBuffer.head, hbuffers]
    rfl
  obtain ⟨e, herror, hincomplete⟩ := @parseMessage_cut ((sb.findTimestampBySeq pos).getD 0) pos _
    f.property cut.length (BinaryDecoder.new cut) ⟨hfront, hlt⟩ le_rfl
  unfold streamParser parseStream
  dsimp only
  rw [hhead]
  dsimp only
  rw [Buffer.leftBoundary, herror]
  rcases hincomplete with rfl | rfl <;> rfl

/-- Every frame begins with a marker. -/
theorem bytes_marker (f : Frame) : ∃ marker rest, f.bytes = marker :: rest
    ∧ (marker == kSimpleStringMarker || marker == kErrorMarker || marker == kIntegerMarker
      || marker == kBulkStringsMarker || marker == kArrayMarker) = true := by
  rcases f with str | str | str | ⟨size, payload, terminal⟩ | size | ⟨size, elements⟩ | size
  · exact ⟨kSimpleStringMarker, _, rfl, by decide⟩
  · exact ⟨kErrorMarker, _, rfl, by decide⟩
  · exact ⟨kIntegerMarker, _, rfl, by decide⟩
  · exact ⟨kBulkStringsMarker, _, rfl, by decide⟩
  · exact ⟨kBulkStringsMarker, _, rfl, by decide⟩
  · exact ⟨kArrayMarker, _, rfl, by decide⟩
  · exact ⟨kArrayMarker, _, rfl, by decide⟩

/-- At the start of a frame there is nothing to skip. -/
theorem streamParser_aligned (st : Unit) (sb : StreamBuffer) (fs : List TakenFrame) (front : List UInt8)
    (pos : ℕ) (hbuffers : sb.buffers = [⟨front, pos⟩]) (hsome : front ≠ [])
    (hfront : front <+: layout.stream fs) :
    (streamParser.findBoundary st sb side.messageType 0).1 ≤ 0
      ∧ (streamParser.findBoundary st sb side.messageType 0).2 = st := by
  refine ⟨?_, rfl⟩
  have hhead : sb.head = some ⟨front, pos⟩ := by
    rw [StreamBuffer.head, hbuffers]
    rfl
  rcases front with _ | ⟨b, front⟩
  · exact absurd rfl hsome
  rcases fs with _ | ⟨f, fs⟩
  · exact absurd (List.prefix_nil.mp hfront) (List.cons_ne_nil b front)
  obtain ⟨marker, rest, hbytes, hmarker⟩ := bytes_marker f.val
  have hb : b = marker := by
    have hstream : layout.stream (f :: fs) = marker :: (rest ++ layout.stream fs) := by
      rw [Layout.stream_cons]
      exact congrArg (· ++ layout.stream fs) hbytes
    rw [hstream, List.cons_prefix_cons] at hfront
    exact hfront.1
  unfold streamParser findBoundary
  dsimp only
  rw [hhead]
  dsimp only
  rw [if_neg (lt_irrefl 0), Int.toNat_zero, List.drop_zero, List.findIdx?_cons, hb, hmarker]
  exact le_rfl

theorem message_kind (side : Side) (f : TakenFrame) (pos ts : ℕ) :
    (TakenFrame.message side f pos ts).isReq = (side.messageType == .request) := rfl

/-- **The Redis parser knows its frames.** -/
def framed (side : Side) : Framed streamParser side where
  Frame := TakenFrame
  layout := layout
  message := TakenFrame.message side
  kind := message_kind side
  reads := streamParser_reads
  waits := streamParser_waits
  aligned := streamParser_aligned

/-! ## A connection -/

instance : TimestampNs RedisMessage := ⟨fun m => m.base.timestampNs⟩

/-- What is sent on the two sides, and where it starts. -/
structure Streams where
  frames : Side → List TakenFrame
  base : Side → ℕ
  base_lt : ∀ side, base side < 2 ^ 32

def Streams.sent (s : Streams) (side : Side) : Sent streamParser side where
  framed := framed side
  frames := s.frames side
  base := s.base side
  base_lt := s.base_lt side

theorem framed_timed (side : Side) : (framed side).Timed := ⟨fun _ _ _ => rfl, fun _ _ _ => rfl⟩

/-- The bytes of the frame that is cut after the events. -/
def Streams.cutBytes (s : Streams) (c₀ : Connection4 RedisMessage Unit)
    (as : List (Incoming RedisMessage Unit)) (side : Side) : List UInt8 :=
  (layout.stream (layout.pending (s.frames side) (c₀.fed side as))).take
    (layout.left (s.frames side) (c₀.fed side as))

/-- **Commands and replies are read as they were sent**, whatever the pieces they arrive in: after every
run of events, the queue of a side has got one message for each frame that is whole, in their order, with
the position and the time of its first byte; and the stream buffer has what is there of the next one. -/
theorem pieces_do_not_matter (s : Streams) {c₀ : Connection4 RedisMessage Unit}
    (hrole : c₀.role ≠ .unknown)
    (hnew : ∀ side, c₀.streamBuffer side = StreamBuffer.new streamBufferCapacity)
    {as : List (Incoming RedisMessage Unit)} (h : Arriving s.sent c₀ as) {fuel : ℕ}
    (hfuel : ∀ side, (s.frames side).length < fuel) :
    ∃ c, c₀.receiveAll fuel as = some (.ok c)
      ∧ ∀ side,
        c.resultQueue side
            = ((layout.placed (s.base side) (layout.whole (s.frames side) (c₀.fed side as))).map
                fun q => q.2.message side q.1 ((stampAt (c₀.starts side as) q.1).getD 0)).foldl
              Connection4.enqueue (c₀.resultQueue side)
          ∧ (c.streamBuffer side).buffers
            = if s.cutBytes c₀ as side = [] then []
              else [⟨s.cutBytes c₀ as side, (s.sent side).position (c₀.fed side as)⟩] := by
  obtain ⟨c, hall, hreceives, hqueue⟩ := receiveAll_delivers hrole hnew h hfuel
  exact ⟨c, hall, fun side => ⟨hqueue side, (hreceives.holds side).run.buffers⟩⟩

/-- **The records are the exchanges.** When every command is answered before the next one is sent, the
records of a run are the commands with their replies, in their order, each one as soon as its reply is
whole, however the bytes are cut. -/
theorem exchanges_are_recorded (s : Streams) {c₀ : Connection4 RedisMessage Unit} (hfresh : Unused c₀)
    {as : List (Incoming RedisMessage Unit)} (h : Talking s.sent c₀ as) {fuel : ℕ}
    (hfuel : ∀ side, (s.frames side).length < fuel) :
    ∃ c, c₀.onAll fuel as = some (.ok
      (List.zipWith recordOf ((s.sent .req).sofar c₀ as) ((s.sent .resp).sofar c₀ as), c)) := by
  obtain ⟨records, c, hall, htalk⟩ := talk_records hfresh framed_timed h hfuel
  rw [htalk.records] at hall
  exact ⟨c, hall⟩

/-! ## A ping -/

theorem ping_taken : (Frame.array [49] [.bulk [52] [80, 73, 78, 71] [13, 10]]).Taken :=
  ⟨⟨by unfold OneLine; decide, by decide, by decide⟩,
    ⟨⟨by unfold OneLine; decide, by decide, by decide⟩, by decide, by decide⟩, trivial⟩

theorem pong_taken : (Frame.simple [80, 79, 78, 71]).Taken := by
  change OneLine [80, 79, 78, 71]
  unfold OneLine
  decide

/-- `*1\r\n$4\r\nPING\r\n` and `+PONG\r\n`. -/
def pingPong : Streams where
  frames
    | .req => [⟨_, ping_taken⟩]
    | .resp => [⟨_, pong_taken⟩]
  base _ := 1
  base_lt _ := by decide

/-- A client that has not sent anything yet. -/
def idleClient : Connection4 RedisMessage Unit :=
  { role := .client
    reqStreamBuffer := StreamBuffer.new streamBufferCapacity
    respStreamBuffer := StreamBuffer.new streamBufferCapacity
    reqQueue := SortedMap.empty, respQueue := SortedMap.empty
    lastReqMadeProgressTime := 0, lastRespMadeProgressTime := 0
    parserState := (), clockReads := 0 }

theorem idleClient_unused : Unused idleClient := by
  refine ⟨by decide, ?_, rfl, rfl⟩
  rintro (_ | _) <;> rfl

/-- Nothing is ever too old. -/
def patient : Surroundings RedisMessage Unit :=
  { parser := some streamParser, clock := fun _ => 0, maxAllowStuckTimeMills := 2 ^ 63 }

theorem patient_notStuck (ts : ℕ) : NotStuck patient ts := by
  intro k
  have hle := Int.bmod_le (x := patient.clock k - truncInt (nanoToMills ts)) (m := 2 ^ 64) (by decide)
  change Int.bmod _ _ ≤ (2 : ℤ) ^ 63
  omega

/-- The data of a system call at a time. -/
def dataAt (step : AgentStepT) (seq : Fin (2 ^ 32)) (ts : ℕ) (data : List UInt8) :
    Incoming RedisMessage Unit where
  env := patient
  event :=
    { ke :=
        { ts := ts, tsDelta := 0, seq := seq, len := data.length % 2 ^ 32, ifindex := 0, tgidFd := 0
          step := step, seq_lt := seq.isLt, len_lt := Nat.mod_lt _ (by decide) }
      prependLengthHeader := false, lengthHeader := 0, data := data }

/-- The command in two pieces, and the reply. -/
def pingPieces : List (Incoming RedisMessage Unit) :=
  [dataAt 1 1 10 [42, 49, 13], dataAt 1 4 20 [10, 36, 52, 13, 10, 80, 73, 78, 71, 13, 10],
    dataAt 9 1 30 [43, 80, 79, 78, 71, 13, 10]]

theorem pingPieces_talking : Talking pingPong.sent idleClient pingPieces := by
  have hfirst : Talking pingPong.sent idleClient (pingPieces.take 1) := by
    refine @Talking.next _ _ _ _ _ [] _ .start
      ⟨rfl, rfl, by decide, ?_, ?_, ?_, fun _ _ ts _ => patient_notStuck ts⟩
      ⟨by simp, ?_, by decide, by decide⟩
    · rintro (_ | _) hside
      · exact ⟨by decide, by decide⟩
      · exact absurd hside (by decide)
    · rintro (_ | _) hside
      · decide
      · exact absurd hside (by decide)
    · rintro (_ | _) hside
      · decide
      · exact absurd hside (by decide)
    · rintro (_ | _) hside f hf
      · cases hf
        decide
      · exact absurd hside (by decide)
  have hsecond : Talking pingPong.sent idleClient (pingPieces.take 2) := by
    refine @Talking.next _ _ _ _ _ (pingPieces.take 1) _ hfirst
      ⟨rfl, rfl, by decide, ?_, ?_, ?_, fun _ _ ts _ => patient_notStuck ts⟩
      ⟨?_, ?_, by decide, by decide⟩
    · rintro (_ | _) hside
      · exact ⟨by decide, by decide⟩
      · exact absurd hside (by decide)
    · rintro (_ | _) hside
      · decide
      · exact absurd hside (by decide)
    · rintro (_ | _) hside
      · decide
      · exact absurd hside (by decide)
    · intro b hb
      cases List.mem_singleton.mp hb
      decide
    · rintro (_ | _) hside f hf
      · cases hf
        decide
      · exact absurd hside (by decide)
  refine @Talking.next _ _ _ _ _ (pingPieces.take 2) _ hsecond
    ⟨rfl, rfl, by decide, ?_, ?_, ?_, fun _ _ ts _ => patient_notStuck ts⟩
    ⟨?_, ?_, by decide, by decide⟩
  · rintro (_ | _) hside
    · exact absurd hside (by decide)
    · exact ⟨by decide, by decide⟩
  · rintro (_ | _) hside
    · exact absurd hside (by decide)
    · decide
  · rintro (_ | _) hside
    · exact absurd hside (by decide)
    · decide
  · intro b hb
    rcases List.mem_cons.mp hb with rfl | hb
    · decide
    · cases List.mem_singleton.mp hb
      decide
  · rintro (_ | _) hside f hf
    · exact absurd hside (by decide)
    · cases hf
      decide

theorem pieces_do_not_matter_ping :
    ∃ c, idleClient.receiveAll 2 pingPieces = some (.ok c)
      ∧ (zeroStream c.reqQueue).map (fun m => (m.payload.base.timestampNs, m.payload.base.byteSize))
        = [(10, 14)]
      ∧ c.reqStreamBuffer.buffers = [] := by
  obtain ⟨c, hall, hsides⟩ := @pieces_do_not_matter pingPong idleClient (by decide)
    idleClient_unused.buffers pingPieces pingPieces_talking.arriving 2 (by rintro (_ | _) <;> decide)
  obtain ⟨hqueue, hbuffers⟩ := hsides .req
  refine ⟨c, hall, ?_, hbuffers.trans (if_pos (by decide))⟩
  have hreq : c.reqQueue = _ := hqueue
  rw [hreq]
  decide

theorem exchanges_are_recorded_ping :
    ∃ c record, idleClient.onAll 2 pingPieces = some (.ok ([record], c))
      ∧ record.req.map timestampNs = some 10 ∧ record.resp.map timestampNs = some 30 := by
  obtain ⟨c, hall⟩ := @exchanges_are_recorded pingPong idleClient idleClient_unused pingPieces
    pingPieces_talking 2 (by rintro (_ | _) <;> decide)
  exact ⟨c, _, hall, by decide, by decide⟩

end Kyanos.Redis
