/-
`bpf/protocol_inference.h`: the protocol of a connection, guessed from the bytes of one read.

The kernel side has a pointer and a count, and reads where it likes: a recogniser may look at
bytes behind the count. So the memory is a function of the offset, and the count is given beside
it. A header of four bytes that was read alone is kept in the connection, and two of the
recognisers join it with the next read.

The test for RocketMQ is written a second time in `FindBoundary`. The two differ on the binary
form alone: the kernel swaps the bytes of a request code of 16 bits as if it had 32, and is left
with zero (`isRocketmqProtocol_agrees_iff`).
-/
import Kyanos.Boundary
import Kyanos.RocketMQ

set_option autoImplicit false

open GoNum Trace

namespace Kyanos.Bpf

/-! ## Memory -/

/-- The bytes from a pointer on. -/
abbrev Memory := ℕ → UInt8

/-- `bpf_probe_read_user` and `bpf_probe_read`: `n` bytes from an offset on. -/
def Memory.read (m : Memory) (offset n : ℕ) : List UInt8 := (List.range n).map fun j => m (offset + j)

/-- `bpf_ntohl`, on a machine that has the lowest byte first. -/
def ntohl (x : ℕ) : ℕ := bigEndian (leBytes 4 x)

/-- `read_big_endian_int32`. -/
def readBigEndianInt32 (m : Memory) (offset : ℕ) : ℤ := intOf 32 (bigEndian (m.read offset 4))

/-- `read_big_endian_int16`. -/
def readBigEndianInt16 (m : Memory) (offset : ℕ) : ℤ := intOf 16 (bigEndian (m.read offset 2))

/-! ## The connection -/

/-- `conn_trace_state_t`. -/
inductive TraceState
  | unset
  | traceable
  | protocolNotMatched
  | protocolUnknown
  | other
deriving DecidableEq

/-- `conn_info_t`, without the identifier and the addresses, which are copied as they are. -/
structure ConnInfo where
  readBytes : ℕ
  writeBytes : ℕ
  sslReadBytes : ℕ
  sslWriteBytes : ℕ
  protocol : TrafficProtocol
  role : Role
  prevCount : ℕ
  prevBuf : Vector UInt8 4
  prependLengthHeader : Bool
  noTrace : TraceState
  ssl : Bool
deriving DecidableEq

/-- `protocol_message_t`. The values of `message_type_t` are those of `protocol.MessageType`. -/
structure ProtocolMessage where
  protocol : TrafficProtocol
  type : MessageType
deriving DecidableEq

/-! ## Recognisers -/

/-- `infer_kafka_request`, at an offset. -/
def inferKafkaRequest (buf : Memory) (offset : ℕ) : MessageType :=
  let requestApiKey := readBigEndianInt16 buf offset
  if requestApiKey < 0 ∨ requestApiKey > 62 then .unknown
  else
    let requestApiVersion := readBigEndianInt16 buf (offset + 2)
    if requestApiVersion < 0 ∨ requestApiVersion > 17 then .unknown
    else
      let correlationId := readBigEndianInt32 buf (offset + 4)
      if correlationId < 0 then .unknown else .request

/-- `use_prev_buf` of `is_kafka_protocol`: the header kept is the length of this read, or of all
that was read. -/
def kafkaUsesPrevBuf (count totalCount : ℕ) (c : ConnInfo) : Bool :=
  -- A length below zero becomes a `size_t`.
  let countInPrevBuf := ofInt64 (intOf 32 (bigEndian c.prevBuf.toList))
  c.prevCount = 4 && (countInPrevBuf = count || countInPrevBuf = totalCount)

/-- What `is_kafka_protocol` returns. It is a `bool` there: the one answer besides `kUnknown` is
`kRequest`. -/
def kafkaResult (buf : Memory) (count totalCount : ℕ) (usePrevBuf : Bool) : MessageType :=
  let count := if usePrevBuf then u64 (count + 4) else count
  if count < 12 then .unknown
  else
    let messageSize :=
      intOf 32 (if usePrevBuf then (count : ℤ) else readBigEndianInt32 buf 0 + 4)
    if messageSize < 0 ∨ ((count : ℤ) ≠ messageSize ∧ (totalCount : ℤ) ≠ messageSize) then .unknown
    else inferKafkaRequest buf (if usePrevBuf then 0 else 4)

/-- `is_kafka_protocol`, with the connection as it leaves it. -/
def isKafkaProtocol (buf : Memory) (count totalCount : ℕ) (c : ConnInfo) : MessageType × ConnInfo :=
  let usePrevBuf := kafkaUsesPrevBuf count totalCount c
  let result := kafkaResult buf count totalCount usePrevBuf
  (result,
    if usePrevBuf && result = .request && c.protocol = .unknown then
      { c with prependLengthHeader := true }
    else c)

/-- `use_prev_buf` of `is_mysql_protocol`. -/
def mysqlUsesPrevBuf (count : ℕ) (c : ConnInfo) : Bool :=
  c.prevCount = 4 && littleEndian c.prevBuf.toList = count

def isMysqlProtocol (oldBuf : Memory) (count : ℕ) (c : ConnInfo) : MessageType :=
  let usePrevBuf := mysqlUsesPrevBuf count c
  let count := if usePrevBuf then u64 (count + 4) else count
  if count < 5 then .unknown
  else
    let header := if usePrevBuf then c.prevBuf.toList else oldBuf.read 0 4
    let len := littleEndian header % 2 ^ 24
    let seq := littleEndian header / 2 ^ 24
    let com := if usePrevBuf then oldBuf 0 else oldBuf 4
    if seq ≠ 0 then .unknown
    else if len = 0 then .unknown
    else if len > 10000 then .unknown
    else if com = 0x0b ∨ com = 0x03 ∨ com = 0x16 ∨ com = 0x17 ∨ com = 0x19 then .request
    else .unknown

def isRedisProtocol (oldBuf : Memory) (count : ℕ) : Bool :=
  if count < 3 then false
  else if oldBuf 0 ∉ text "+-:$*" then false
  else oldBuf.read (count - 2) 2 == [0x0d, 0x0a]

def isHttpProtocol (oldBuf : Memory) (count : ℕ) : MessageType :=
  if count < 5 then .unknown
  else if oldBuf.read 0 4 = text "HTTP" then .response
  -- Three letters are enough for this one, whatever stands behind them.
  else if oldBuf.read 0 3 = text "GET" then .request
  else if oldBuf.read 0 4 = text "HEAD" then .request
  else if oldBuf.read 0 4 = text "POST" then .request
  else .unknown

def isMongoProtocol (oldBuf : Memory) (count : ℕ) : MessageType :=
  if count < 16 then .unknown
  else
    let messageLength := intOf 32 (littleEndian (oldBuf.read 0 4))
    if messageLength < 16 then .unknown
    else
      let requestId := intOf 32 (littleEndian (oldBuf.read 4 4))
      if requestId < 0 then .unknown
      else
        let responseTo := intOf 32 (littleEndian (oldBuf.read 8 4))
        let opcode := intOf 32 (littleEndian (oldBuf.read 12 4))
        if opcode ∈ ([2001, 2002, 2003, 2004, 2005, 2006, 2007, 2012, 2013] : List ℤ)
            ∧ responseTo = 0 then .request
        else .unknown

def isRocketmqProtocol (oldBuf : Memory) (count : ℕ) : MessageType :=
  if count < 16 then .unknown
  else
    let frameSize := intOf 32 (bigEndian (oldBuf.read 0 4))
    if frameSize ≤ 0 ∨ frameSize > (count : ℤ) - 4 then .unknown
    else
      let headerLength := bigEndian (oldBuf.read 4 4)
      let serializedType := headerLength / 2 ^ 24 % 256
      let headerDataLen : ℤ := (headerLength % 2 ^ 24 : ℕ)
      if headerDataLen ≤ 0 ∨ headerDataLen ≠ frameSize - 4 then .unknown
      else if serializedType = 0 then
        if oldBuf.read 8 8 = [123, 34, 99, 111, 100, 101, 34, 58] then .request else .unknown
      else if serializedType = 1 then
        -- The code has two bytes, and is swapped as a word of four.
        let requestCode := ntohl (littleEndian (oldBuf.read 8 2)) % 2 ^ 16
        let lFlag := oldBuf 10
        if requestCode < 10 then .unknown
        else if lFlag > 13 then .unknown
        else .request
      else .unknown

def isDnsProtocol (buf : Memory) (count : ℕ) : MessageType :=
  if count < 12 ∨ count > 512 then .unknown
  else
    let flags := bigEndian (buf.read 2 2)
    let numQuestions := bigEndian (buf.read 4 2)
    let numAnswers := bigEndian (buf.read 6 2)
    let numAuth := bigEndian (buf.read 8 2)
    let numAddl := bigEndian (buf.read 10 2)
    let qr := flags / 2 ^ 15 % 2
    let opcode := flags / 2 ^ 11 % 2 ^ 4
    let reserved := flags / 2 ^ 6 % 2
    if reserved ≠ 0 then .unknown
    else if opcode ≠ 0 then .unknown
    else if numQuestions = 0 ∨ numQuestions > 10 then .unknown
    else if numQuestions + numAnswers + numAuth + numAddl > 25 then .unknown
    else if qr = 0 then .request
    else .response

/-! ## Inference -/

/-- `traffic_protocol_t`, as a number. -/
def protocolCode : TrafficProtocol → ℕ
  | .unset => 0
  | .unknown => 1
  | .http => 2
  | .http2 => 3
  | .mysql => 4
  | .cql => 5
  | .pgsql => 6
  | .dns => 7
  | .redis => 8
  | .nats => 9
  | .mongo => 10
  | .kafka => 11
  | .mux => 12
  | .amqp => 13
  | .rocketMQ => 14

/-- `TRACE_PROTOCOL`. -/
def traceProtocolIs (traceProtocol : ℕ) (p : TrafficProtocol) : Bool :=
  traceProtocol = 0 || traceProtocol = protocolCode p

/-- The cascade of `infer_protocol`. The recogniser of Kafka is the one that changes the
connection. -/
def recognise (buf : Memory) (count totalCount : ℕ) (c : ConnInfo) (traceProtocol : ℕ) :
    ProtocolMessage × ConnInfo :=
  let kafka := isKafkaProtocol buf count totalCount c
  if traceProtocolIs traceProtocol .http && isHttpProtocol buf count != .unknown then
    (⟨.http, isHttpProtocol buf count⟩, c)
  else if traceProtocolIs traceProtocol .mongo && isMongoProtocol buf count != .unknown then
    (⟨.mongo, isMongoProtocol buf count⟩, c)
  else if traceProtocolIs traceProtocol .mysql && isMysqlProtocol buf count c != .unknown then
    (⟨.mysql, isMysqlProtocol buf count c⟩, c)
  else if traceProtocolIs traceProtocol .rocketMQ && isRocketmqProtocol buf count != .unknown then
    (⟨.rocketMQ, isRocketmqProtocol buf count⟩, c)
  else if traceProtocolIs traceProtocol .kafka && kafka.1 != .unknown then
    (⟨.kafka, kafka.1⟩, kafka.2)
  else if traceProtocolIs traceProtocol .dns && isDnsProtocol buf count != .unknown then
    (⟨.dns, isDnsProtocol buf count⟩, c)
  else if traceProtocolIs traceProtocol .redis && isRedisProtocol buf count then
    (⟨.redis, .unknown⟩, c)
  else (⟨.unknown, .unknown⟩, c)

/-- `infer_protocol`. -/
def inferProtocol (buf : Memory) (count totalCount : ℕ) (c : ConnInfo) (traceProtocol : ℕ) :
    ProtocolMessage × ConnInfo :=
  let (protocolMessage, c) :=
    recognise buf count totalCount { c with prependLengthHeader := false } traceProtocol
  (protocolMessage,
    { c with
      prevCount := count
      prevBuf := if count = 4 then Vector.ofFn fun j => buf j else c.prevBuf })

/-! ## The test for RocketMQ, twice -/

open RocketMQ

@[simp] theorem Memory.read_length (m : Memory) (offset n : ℕ) : (m.read offset n).length = n := by
  rw [Memory.read, List.length_map, List.length_range]

section Recognisers

variable {m : Memory} {buf : List UInt8} {r : RocketMQ.State} {sb : StreamBuffer} {head : Buffer}

theorem getElem_read (hmem : m.read 0 buf.length = buf) {j : ℕ} (hj : j < buf.length) :
    buf[j] = m j := by
  rw [List.getElem_of_eq hmem.symm hj]
  simp [Memory.read]

/-- What Go cuts out of a buffer is what the kernel reads there. -/
theorem slice_read (hmem : m.read 0 buf.length = buf) {i n : ℕ} (h : i + n ≤ buf.length) :
    slice buf (i : ℤ) ((i + n : ℕ) : ℤ) = .ok (m.read i n) := by
  have hcount : (((i + n : ℕ) : ℤ) - i).toNat = n := by omega
  rw [slice, if_pos ⟨by omega, by omega, by omega⟩, Int.toNat_natCast, hcount]
  congr 1
  refine List.ext_getElem ?_ ?_
  · rw [List.length_take, List.length_drop, Memory.read_length]
    omega
  · intro j hj _
    rw [List.getElem_take, List.getElem_drop, getElem_read hmem]
    simp [Memory.read]

theorem uint32At_read (hmem : m.read 0 buf.length = buf) {i : ℕ} (h : i + 4 ≤ buf.length) :
    uint32At buf i = .ok (bigEndian (m.read i 4)) := by
  have hcut : slice buf (i : ℤ) ((i : ℤ) + 4) = .ok (m.read i 4) := slice_read hmem h
  rw [uint32At, hcut]
  rfl

theorem uint16At_read (hmem : m.read 0 buf.length = buf) {i : ℕ} (h : i + 2 ≤ buf.length) :
    uint16At buf i = .ok (bigEndian (m.read i 2)) := by
  have hcut : slice buf (i : ℤ) ((i : ℤ) + 2) = .ok (m.read i 2) := slice_read hmem h
  rw [uint16At, hcut]
  rfl

theorem byteAt_read (hmem : m.read 0 buf.length = buf) {i : ℕ} (h : i < buf.length) :
    byteAt buf i = .ok (m i) := by
  rw [byteAt, if_pos (by omega), Int.toNat_natCast, List.getElem?_eq_getElem h,
    getElem_read hmem h]

/-- A header that reaches to the end of the frame, of one of the two kinds. -/
def HeaderFills (m : Memory) (count kind : ℕ) : Prop :=
  bigEndian (m.read 4 4) / 2 ^ 24 % 256 = kind ∧ bigEndian (m.read 4 4) % 2 ^ 24 + 8 = count

/-- What both tests ask of a JSON frame of `count` bytes. -/
def JsonRequest (m : Memory) (count : ℕ) : Prop :=
  HeaderFills m count 0 ∧ m.read 8 8 = [123, 34, 99, 111, 100, 101, 34, 58]

/-- What `FindBoundary` asks of a binary frame. -/
def BinaryRequest (m : Memory) (count : ℕ) : Prop :=
  HeaderFills m count 1 ∧ 10 ≤ bigEndian (m.read 8 2) ∧ m 10 ≤ 13

/-- The two bytes of a code end up in the half of the word that is cut off. -/
theorem ntohl_code {x : ℕ} (h : x < 2 ^ 16) : ntohl x % 2 ^ 16 = 0 := by
  have hthird : UInt8.ofNat (x / 256 / 256) = 0 := by
    rw [show x / 256 / 256 = 0 by omega]
    rfl
  have hfourth : UInt8.ofNat (x / 256 / 256 / 256) = 0 := by
    rw [show x / 256 / 256 / 256 = 0 by omega]
    rfl
  simp only [ntohl, bigEndian, leBytes, hthird, hfourth, List.reverse_cons, List.reverse_nil,
    List.nil_append, List.cons_append, littleEndian, List.foldr_cons, List.foldr_nil]
  have hzero : (0 : UInt8).toNat = 0 := rfl
  rw [hzero]
  omega

/-- **What the kernel takes for a request**: a JSON frame, and no binary one. -/
theorem isRocketmqProtocol_iff {count : ℕ} (hcount : 16 ≤ count)
    (hframe : bigEndian (m.read 0 4) + 4 = count) (hsize : bigEndian (m.read 0 4) < 2 ^ 31) :
    isRocketmqProtocol m count = .request ↔ JsonRequest m count := by
  have hsigned : intOf 32 (bigEndian (m.read 0 4)) = bigEndian (m.read 0 4) :=
    intOf_of_lt (by omega) (by omega)
  have hcode : littleEndian (m.read 8 2) < 2 ^ 16 := by
    have hlt := littleEndian_lt (m.read 8 2)
    rw [Memory.read_length] at hlt
    omega
  unfold isRocketmqProtocol JsonRequest HeaderFills
  rw [if_neg (by omega), hsigned]
  dsimp only
  rw [if_neg (by omega)]
  split
  · rename_i hlen
    constructor
    · intro h
      cases h
    · rintro ⟨⟨-, hfills⟩, -⟩
      omega
  rename_i hlen
  split
  · rename_i hkind
    constructor
    · intro h
      split at h
      · rename_i hkey
        exact ⟨⟨hkind, by omega⟩, hkey⟩
      · cases h
    · rintro ⟨-, hkey⟩
      rw [if_pos hkey]
  rename_i hkind
  -- Of the binary form nothing is left to accept: the code is zero.
  have hnot : ¬((bigEndian (m.read 4 4) / 2 ^ 24 % 256 = 0
      ∧ bigEndian (m.read 4 4) % 2 ^ 24 + 8 = count)
      ∧ m.read 8 8 = [123, 34, 99, 111, 100, 101, 34, 58]) := fun h => hkind h.1.1
  refine iff_of_false ?_ hnot
  split
  · rw [ntohl_code hcode, if_pos (by decide)]
    decide
  · decide

/-- What `FindBoundary` asks of a header at the start. -/
theorem acceptsHeader_start (hmem : m.read 0 buf.length = buf) (hlen : 16 ≤ buf.length) (kind : ℕ) :
    acceptsHeader buf 0 kind = .ok (if kind = 0 then
      m.read 8 8 == [123, 34, 99, 111, 100, 101, 34, 58]
    else !(bigEndian (m.read 8 2) < 10 || m 10 ≥ 14)) := by
  have hkey : slice buf (0 + 8) (0 + 16) = .ok (m.read 8 8) :=
    slice_read (i := 8) (n := 8) hmem (by omega)
  have hcode : uint16At buf (0 + 8) = .ok (bigEndian (m.read 8 2)) :=
    uint16At_read (i := 8) hmem (by omega)
  have hlanguage : byteAt buf (0 + 10) = .ok (m 10) := byteAt_read (i := 10) hmem (by omega)
  unfold acceptsHeader
  split_ifs with hkind
  · rw [hkey]
    rfl
  · rw [hcode, hlanguage]
    rfl

/-- **What user space takes for a request**: a JSON frame or a binary one. -/
theorem findBoundary_iff (hhead : sb.head = some head)
    (hmem : m.read 0 head.buf.length = head.buf) (hlen : 16 ≤ head.buf.length)
    (hframe : bigEndian (m.read 0 4) + 4 = head.buf.length) :
    findBoundary r sb .request 0 = .ok 0
      ↔ JsonRequest m head.buf.length ∨ BinaryRequest m head.buf.length := by
  have hsize : uint32At head.buf 0 = .ok (bigEndian (m.read 0 4)) :=
    uint32At_read (i := 0) hmem (by omega)
  have hheader : uint32At head.buf (0 + 4) = .ok (bigEndian (m.read 4 4)) :=
    uint32At_read (i := 4) hmem (by omega)
  unfold findBoundary
  rw [hhead]
  dsimp only
  rw [scan_start_iff (by omega) (by omega)]
  unfold probe
  rw [hsize, hheader]
  simp only [bind, Except.bind]
  rw [if_neg (by omega), if_neg (by omega)]
  split
  · rename_i hkind
    refine iff_of_false (by decide) ?_
    rintro (⟨⟨h, -⟩, -⟩ | ⟨⟨h, -⟩, -⟩)
    · exact hkind.1 h
    · exact hkind.2 h
  rename_i hkind
  split
  · rename_i hfills
    refine iff_of_false (by decide) ?_
    rintro (⟨⟨-, h⟩, -⟩ | ⟨⟨-, h⟩, -⟩) <;> omega
  rename_i hfills
  have hall : bigEndian (m.read 4 4) % 2 ^ 24 + 8 = head.buf.length := by omega
  rw [acceptsHeader_start hmem hlen]
  by_cases hjson : bigEndian (m.read 4 4) / 2 ^ 24 % 256 = 0
  · have hother : ¬BinaryRequest m head.buf.length := by
      rintro ⟨⟨h, -⟩, -⟩
      omega
    have hkey : JsonRequest m head.buf.length
        ↔ m.read 8 8 = [123, 34, 99, 111, 100, 101, 34, 58] :=
      ⟨fun h => h.2, fun h => ⟨⟨hjson, hall⟩, h⟩⟩
    rw [if_pos hjson, or_iff_left hother, hkey]
    simp
  · have hbinary : bigEndian (m.read 4 4) / 2 ^ 24 % 256 = 1 := by
      by_contra hnone
      exact hkind ⟨hjson, hnone⟩
    have hother : ¬JsonRequest m head.buf.length := fun h => hjson h.1.1
    have hfields : BinaryRequest m head.buf.length
        ↔ 10 ≤ bigEndian (m.read 8 2) ∧ m 10 < 14 := by
      constructor
      · rintro ⟨-, hcode, hlanguage⟩
        exact ⟨hcode, by grind⟩
      · rintro ⟨hcode, hlanguage⟩
        exact ⟨⟨hbinary, hall⟩, hcode, by grind⟩
    rw [if_neg hjson, or_iff_right hother, hfields]
    simp

end Recognisers

/-- **The two tests for RocketMQ agree** on a buffer that is one frame just when it is not a
request in the binary form: user space takes that, and the kernel never does. -/
theorem isRocketmqProtocol_agrees_iff (r : RocketMQ.State) {m : Memory} {sb : StreamBuffer}
    {head : Buffer} (hhead : sb.head = some head) (hmem : m.read 0 head.buf.length = head.buf)
    (hlen : 16 ≤ head.buf.length) (hframe : bigEndian (m.read 0 4) + 4 = head.buf.length)
    (hsize : bigEndian (m.read 0 4) < 2 ^ 31) :
    (isRocketmqProtocol m head.buf.length = .request ↔ findBoundary r sb .request 0 = .ok 0)
      ↔ ¬BinaryRequest m head.buf.length := by
  rw [isRocketmqProtocol_iff hlen hframe hsize, findBoundary_iff hhead hmem hlen hframe]
  constructor
  · rintro hagree hbinary
    -- A frame is not of both kinds.
    have hjson := hagree.mpr (Or.inr hbinary)
    have := hjson.1.1
    have := hbinary.1.1
    omega
  · intro hnot
    rw [or_iff_left hnot]

/-- A frame of the binary form with code 10 and nothing in its fields. -/
def binaryFrame : List UInt8 :=
  [0, 0, 0, 25, 1, 0, 0, 21, 0, 10, 0, 0, 0, 0, 0, 0, 0, 0, 0, 0, 0, 0, 0, 0, 0, 0, 0, 0, 0]

def memoryOf (buf : List UInt8) : Memory := fun i => buf.getD i 0

theorem isRocketmqProtocol_agrees_iff_sample :
    (isRocketmqProtocol (memoryOf binaryFrame) 29 = .request
        ↔ findBoundary ⟨SortedMap.empty⟩ (bufferOf binaryFrame) .request 0 = .ok 0)
      ↔ ¬BinaryRequest (memoryOf binaryFrame) 29 :=
  @isRocketmqProtocol_agrees_iff ⟨SortedMap.empty⟩ (memoryOf binaryFrame) (bufferOf binaryFrame)
    ⟨binaryFrame, 0⟩ rfl (by decide +kernel) (by decide +kernel) (by decide +kernel)
    (by decide +kernel)

theorem binary_request_missed :
    ¬(isRocketmqProtocol (memoryOf binaryFrame) 29 = .request
      ↔ findBoundary ⟨SortedMap.empty⟩ (bufferOf binaryFrame) .request 0 = .ok 0) := by
  decide +kernel

end Kyanos.Bpf
