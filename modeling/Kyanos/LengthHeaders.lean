/-
A message whose length is read on its own: the first four bytes in one read, which tells no
protocol and is not reported, and the rest in the next.

The kernel keeps the four bytes, and two recognisers join them with the next read. The one of
Kafka then asks for the bytes to be put before the data of the event, and user space adds them
four positions below it. The recogniser of MySQL does not ask. The vectored way asks and then holds
the event back unless user space has let it, and where sequence numbers wrap around between the two
reads the header ends up at the wrong end. In all other cases the header is restored
(`second_read_restored_iff`).
-/
import Kyanos.VectoredEvents

set_option autoImplicit false

open GoNum Trace

namespace Kyanos.Bpf

/-! ## Reads -/

/-- The two ways to report a read. -/
inductive Way
  | plain
  | vectored
deriving DecidableEq

/-- A system call on a descriptor. -/
structure Call where
  way : Way
  task : Task
  args : DataArgs
  tgidFd : ℕ
  bytesCount : Moved
  isNestedSsl : Bool

/-- The call is processed. -/
def Call.run (call : Call) (maps : Maps) (direct : Direction) (c : ConnInfo) (cpu : Cpu) :
    ConnInfo × Cpu :=
  match call.way with
  | .plain => processSyscallData maps call.task call.args call.tgidFd direct call.bytesCount
      call.isNestedSsl c cpu
  | .vectored => processSyscallDataVecs maps call.args call.tgidFd direct call.bytesCount
      call.isNestedSsl c cpu

/-- The bytes that `infer_protocol` is called with, and their number. -/
def Call.look (call : Call) : Option (Memory × ℕ) :=
  match call.way with
  | .plain => some (call.args.buf, call.bytesCount.count)
  | .vectored =>
      match call.args.iov with
      | [] => none
      | iov :: _ =>
          if min iov.len call.bytesCount.count = 0 then none
          else some (iov.base, min iov.len call.bytesCount.count)

/-- The call is one that `infer_protocol` is called for, with `count` bytes from `buf` on. -/
structure Call.Looks (call : Call) (maps : Maps) (c : ConnInfo) (buf : Memory) (count : ℕ) :
    Prop where
  bytes : call.look = some (buf, count)
  nestedSsl : call.isNestedSsl = false
  ssl : c.ssl = false
  inferring : c.inferring = true
  traced : call.way = .plain → ¬Rejected maps call.task
  descriptor : call.way = .vectored → 0 ≤ call.args.fd

/-- Whether the data is reported, when the protocol has been looked at. -/
def Call.reports (call : Call) (inferred : Bool) (c : ConnInfo) : Bool :=
  match call.way with
  | .plain => tracesData inferred c
  | .vectored => shouldTraceConn c

/-- What the events say of the first data. -/
structure FirstReport (c : ConnInfo) (direct : Direction) (buf : Memory) (count : ℕ) (ke : KernEvt)
    (msg : List UInt8) : Prop where
  msg_eq : msg = buf.read 0 (min count maxMsgSize)
  seq : ke.seq = (c.bytes direct + 1) % 2 ^ 32
  len : ke.len = count
  flag : ke.prependLengthHeader = c.prependLengthHeader
  header : c.prependLengthHeader = true → ke.lengthHeader = c.lengthHeader

theorem Call.Looks.count_pos {call : Call} {maps : Maps} {c : ConnInfo} {buf : Memory} {count : ℕ}
    (h : call.Looks maps c buf count) : 0 < count ∧ count ≤ call.bytesCount.count := by
  have hpos := call.bytesCount.pos
  have hbytes := h.bytes
  unfold Call.look at hbytes
  split at hbytes
  · cases hbytes
    exact ⟨hpos, le_rfl⟩
  · split at hbytes
    · cases hbytes
    · split at hbytes
      · cases hbytes
      · cases hbytes
        omega

theorem reportVecs_extends (o : Origin) (totalSize lengthHeader : ℕ) (iovs : List IoVec)
    (seq bytesSent : ℕ) (pending : Bool) (cpu : Cpu) :
    ∃ events, (reportRemainder o totalSize
      (reportVecsLoop o totalSize lengthHeader iovs seq bytesSent pending cpu)).events
        = cpu.events ++ events := by
  induction iovs generalizing seq bytesSent pending cpu with
  | nil =>
      rw [reportVecsLoop, reportRemainder]
      split_ifs with hleft
      · obtain ⟨ke, hevents, -⟩ := reportSyscallBufWithoutData_spec o seq
          (show 0 < totalSize - bytesSent by omega) cpu
        exact ⟨_, hevents⟩
      · exact ⟨[], (List.append_nil _).symm⟩
  | cons iov iovs ih =>
      rw [reportVecsLoop]
      split_ifs with hleft
      · dsimp only
        obtain ⟨events, hevents⟩ := ih ((seq + min iov.len (totalSize - bytesSent)) % 2 ^ 32)
          (bytesSent + min iov.len (totalSize - bytesSent)) false
          (reportSyscallBuf o seq (min iov.len (totalSize - bytesSent)) iov.base pending lengthHeader
            cpu)
        rw [hevents]
        by_cases hempty : min iov.len (totalSize - bytesSent) = 0
        · rw [hempty]
          exact ⟨events, rfl⟩
        · obtain ⟨ke, hke, -⟩ := reportSyscallBuf_spec o seq (Nat.pos_of_ne_zero hempty) iov.base
            pending lengthHeader cpu
          rw [hke, List.append_assoc]
          exact ⟨_, rfl⟩
      · rw [reportRemainder, if_neg hleft]
        exact ⟨[], (List.append_nil _).symm⟩

section Run

variable {call : Call} {maps : Maps} {direct : Direction} {c c' : ConnInfo} {cpu cpu' : Cpu}
  {buf : Memory} {count : ℕ} {inferred : Bool}

/-- **What a call does that is looked at**: its bytes are counted, and its data is reported or
not. -/
theorem Call.Looks.run_spec (h : call.Looks maps c buf count)
    (hinfer : inferConn maps direct buf count call.bytesCount.count c cpu = (inferred, c', cpu')) :
    (call.reports inferred c' = false →
      call.run maps direct c cpu = (c'.addBytes direct call.bytesCount.count, cpu'))
    ∧ (call.reports inferred c' = true → ∃ cpu'' ke msg rest,
      call.run maps direct c cpu
          = (({ c' with prependLengthHeader := false }).addBytes direct call.bytesCount.count, cpu'')
        ∧ cpu''.events = cpu'.events ++ .syscall ke msg :: rest
        ∧ FirstReport c' direct buf count ke msg) := by
  obtain ⟨hpos, hle⟩ := h.count_pos
  have hlt := call.bytesCount.lt
  have hbytes := h.bytes
  unfold Call.look at hbytes
  unfold Call.reports Call.run
  split at hbytes
  · rename_i hway
    cases hbytes
    unfold processSyscallData
    rw [if_neg (h.traced hway), h.nestedSsl]
    simp only [Bool.false_eq_true, if_false]
    unfold processSyscallDataWithConnInfo
    rw [h.inferring, h.ssl]
    simp only [Bool.not_false, Bool.and_self, if_true, hinfer, Bool.false_eq_true, if_false]
    refine ⟨fun hno => by rw [if_neg (by rw [hno]; decide)], fun hyes => ?_⟩
    rw [if_pos hyes]
    obtain ⟨ke, hevents, hseq, hlen, -, hflag, hheader⟩ := reportSyscallBuf_spec
      (call.args.origin call.tgidFd (syscallStep direct)) (c'.bytes direct + 1) hpos call.args.buf
      c'.prependLengthHeader c'.lengthHeader cpu'
    exact ⟨_, ke, _, [], rfl, hevents, rfl, hseq, by omega, hflag, hheader⟩
  · rename_i hway
    split at hbytes
    · cases hbytes
    rename_i iov iovs hiov
    split at hbytes
    · cases hbytes
    rename_i hnonempty
    cases hbytes
    have hargs : ¬(call.args.iov = [] ∨ call.args.fd < 0) := by
      have hfd := h.descriptor hway
      rw [hiov]
      rintro (hnil | hneg)
      · cases hnil
      · omega
    have hvecs : inferFromVecs maps call.args direct call.bytesCount c cpu = (c', cpu') := by
      unfold inferFromVecs
      rw [hiov, h.inferring]
      dsimp only
      rw [if_pos (by simpa using hnonempty), hinfer]
    unfold processSyscallDataVecs
    rw [if_neg hargs, h.nestedSsl]
    simp only [Bool.false_eq_true, if_false]
    unfold processVecsWithConnInfo
    rw [h.ssl, hvecs]
    simp only [Bool.not_false, if_true]
    refine ⟨fun hno => by rw [if_neg (by rw [hno]; decide)], fun hyes => ?_⟩
    rw [if_pos hyes]
    unfold reportSyscallEvtVecs
    have htake : (call.args.iov).take loopLimit = iov :: iovs.take 2 := by rw [hiov]; rfl
    rw [htake, reportVecsLoop, if_pos call.bytesCount.pos]
    dsimp only
    rw [Nat.sub_zero]
    obtain ⟨rest, hrest⟩ := reportVecs_extends (call.args.origin call.tgidFd (syscallStep direct))
      call.bytesCount.count c'.lengthHeader (iovs.take 2)
      ((c'.bytes direct + 1 + min iov.len call.bytesCount.count) % 2 ^ 32)
      (0 + min iov.len call.bytesCount.count) false
      (reportSyscallBuf (call.args.origin call.tgidFd (syscallStep direct)) (c'.bytes direct + 1)
        (min iov.len call.bytesCount.count) iov.base c'.prependLengthHeader c'.lengthHeader cpu')
    obtain ⟨ke, hevents, hseq, hlen, -, hflag, hheader⟩ := reportSyscallBuf_spec
      (call.args.origin call.tgidFd (syscallStep direct)) (c'.bytes direct + 1) hpos iov.base
      c'.prependLengthHeader c'.lengthHeader cpu'
    refine ⟨_, ke, _, rest, rfl, ?_, rfl, hseq, by omega, hflag, hheader⟩
    rw [hrest, hevents, List.append_assoc]
    rfl

end Run

/-! ## The header in user space -/

/-- The stream buffer that the data of an event goes to. -/
def sideOf {π σ : Type} (c : Connection4 π σ) (ke : KernEvt) : Side :=
  if (c.isReq ke.received).1 then .req else .resp

/-- On a connection that has seen nothing of this direction, adding the event leaves the header and
the data behind it as one run. -/
def Joined (header : List UInt8) (ke : KernEvt) (msg : List UInt8) : Prop :=
  ∀ (π σ : Type) (c : Connection4 π σ) (capacity : ℤ),
    c.streamBuffer (sideOf c ke) = StreamBuffer.new capacity → 4 + (ke.len : ℤ) ≤ capacity →
    ∃ data c', syscallData false ke msg = some data
      ∧ c.addData (ke.dataEvent data) = .ok (true, c')
      ∧ (c'.streamBuffer (sideOf c ke)).buffers = [⟨header ++ data, ke.seq - 4⟩]

/-- The word of a header is written as the bytes it was read from. -/
theorem putUint32_littleEndian {header : List UInt8} (h : header.length = 4) :
    putUint32 (littleEndian header) = header := by
  obtain ⟨b₀, b₁, b₂, b₃, rfl⟩ : ∃ b₀ b₁ b₂ b₃, header = [b₀, b₁, b₂, b₃] := by
    match header, h with
    | [b₀, b₁, b₂, b₃], _ => exact ⟨b₀, b₁, b₂, b₃, rfl⟩
  have h₀ := b₀.toNat_lt
  have h₁ := b₁.toNat_lt
  have h₂ := b₂.toNat_lt
  have h₃ := b₃.toNat_lt
  have hvalue : littleEndian [b₀, b₁, b₂, b₃]
      = b₀.toNat + 256 * (b₁.toNat + 256 * (b₂.toNat + 256 * b₃.toNat)) := rfl
  have hbyte : ∀ {n : ℕ} {b : UInt8}, n % 256 = b.toNat → UInt8.ofNat n = b := by
    intro n b hn
    apply UInt8.toNat_inj.mp
    rw [UInt8.toNat_ofNat']
    exact hn
  rw [putUint32, hvalue, hbyte (b := b₀) (by omega), hbyte (b := b₁) (by omega),
    hbyte (b := b₂) (by omega), hbyte (b := b₃) (by omega)]

/-- What `addData` does with an event that has a header: two additions to one stream buffer. -/
theorem addData_header {π σ : Type} (c : Connection4 π σ) {ke : KernEvt} {data : List UInt8}
    (hflag : ke.prependLengthHeader = true) :
    c.addData (ke.dataEvent data) = (do
      let (_, c₁) ← c.add (sideOf c ke) ((ke.seq % 2 ^ 32 + (2 ^ 32 - 4)) % 2 ^ 32)
        (putUint32 ke.lengthHeader) (Connection4.getEventTimestamp ke.received c (c.isReq ke.received).1)
      c₁.add (sideOf c ke) (ke.seq % 2 ^ 32) data
        (Connection4.getEventTimestamp ke.received c₁ (c.isReq ke.received).1)) := by
  unfold Connection4.addData extractHeaderEvent KernEvt.dataEvent
  dsimp only
  rw [hflag]
  rfl

theorem add_of_stream {π σ : Type} {c : Connection4 π σ} {side : Side} {seq timestamp : ℕ}
    {data : List UInt8} {added : Bool} {sb : StreamBuffer}
    (h : (c.streamBuffer side).add seq data timestamp = .ok (added, sb)) :
    c.add side seq data timestamp = .ok (added, c.setStreamBuffer side sb) := by
  rw [Connection4.add, h]
  rfl

section User

variable {header msg : List UInt8} {ke : KernEvt}

/-- **The header joins the data** where the sequence number leaves room for it. -/
theorem joined_of_le (hheader : header.length = 4) (hflag : ke.prependLengthHeader = true)
    (hword : ke.lengthHeader = littleEndian header) (hmsg : 0 < msg.length)
    (hlen : msg.length ≤ ke.len) (hlt : ke.len < 2 ^ 31) (hseq : ke.seq < 2 ^ 32) (hroom : 4 ≤ ke.seq) :
    Joined header ke msg := by
  intro π σ c capacity hnew hcapacity
  obtain ⟨data, hdata, hdatalen, -⟩ := syscallData_captured hmsg hlen
  have hne : data ≠ [] := by
    rw [← List.length_pos_iff]
    omega
  have hheaderne : header ≠ [] := by
    rw [← List.length_pos_iff]
    omega
  have hboth : (header ++ data).length = 4 + ke.len := by
    rw [List.length_append]
    omega
  have hstart : (ke.seq % 2 ^ 32 + (2 ^ 32 - 4)) % 2 ^ 32 = ke.seq - 4 := by omega
  have hbehind : ke.seq % 2 ^ 32 = ke.seq - 4 + header.length := by omega
  obtain ⟨sb₁, hadd₁, hone₁⟩ := (oneRun_new capacity (ke.seq - 4)).add
    (Connection4.getEventTimestamp ke.received c (c.isReq ke.received).1) hheaderne
    (by rw [List.length_nil]; omega) (by rw [List.nil_append]; omega)
  obtain ⟨sb₂, hadd₂, hone₂⟩ := @OneRun.add _ _ _ data _ hone₁
    (Connection4.getEventTimestamp ke.received (c.setStreamBuffer (sideOf c ke) sb₁)
      (c.isReq ke.received).1) hne
    (by rw [List.nil_append]; omega) (by rw [List.nil_append]; omega)
  rw [List.nil_append] at hone₂ hadd₂
  rw [List.length_nil, Nat.add_zero, ← hnew] at hadd₁
  refine ⟨data, (c.setStreamBuffer (sideOf c ke) sb₁).setStreamBuffer (sideOf c ke) sb₂, hdata, ?_, ?_⟩
  · rw [addData_header c hflag, hstart, hbehind, hword, putUint32_littleEndian hheader,
      add_of_stream hadd₁]
    exact add_of_stream (by rw [Connection4.streamBuffer_setStreamBuffer]; exact hadd₂)
  · rw [Connection4.streamBuffer_setStreamBuffer, hone₂.buffers, if_neg (by simp [hne])]

/-- A connection that has seen nothing. -/
def emptyConnection (capacity : ℤ) : Connection4 Unit Unit where
  role := .unknown
  reqStreamBuffer := StreamBuffer.new capacity
  respStreamBuffer := StreamBuffer.new capacity
  reqQueue := SortedMap.empty
  respQueue := SortedMap.empty
  lastReqMadeProgressTime := 0
  lastRespMadeProgressTime := 0
  parserState := ()
  clockReads := 0

theorem emptyConnection_streamBuffer (capacity : ℤ) (side : Side) :
    (emptyConnection capacity).streamBuffer side = StreamBuffer.new capacity := by
  rcases side with _ | _ <;> rfl

/-- Data far below the one run of a stream buffer does not join it. -/
theorem run_not_joined {lo seq timestamp : ℕ} {bytes data joined : List UInt8} {capacity : ℤ}
    {sb sb' : StreamBuffer} {added : Bool} {start : ℕ} (h : OneRun capacity lo bytes sb)
    (hbytes : bytes ≠ []) (hdata : data ≠ []) (hjoined : joined = bytes ++ data)
    (hbelow : seq + 2 ^ 31 ≤ lo + bytes.length) (hend : lo + bytes.length < 2 ^ 63)
    (hfits : seq + data.length < 2 ^ 63)
    (hadd : sb.add seq data timestamp = .ok (added, sb')) :
    sb'.buffers ≠ [⟨joined, start⟩] := by
  have hone : sb.buffers = [⟨bytes, lo⟩] := by rw [h.buffers, if_neg hbytes]
  have hall : ∀ b ∈ sb.buffers, b.Fits := by
    intro b hb
    rw [hone] at hb
    rw [List.mem_singleton.mp hb]
    exact ⟨hbytes, show lo + bytes.length < 2 ^ 64 by omega⟩
  have hboth : joined.length = bytes.length + data.length := by
    rw [hjoined, List.length_append]
  have hbytespos := List.length_pos_iff.mpr hbytes
  have hdatapos := List.length_pos_iff.mpr hdata
  have hold : sb.buffers ≠ [⟨joined, start⟩] := by
    rw [hone]
    intro heq
    cases heq
    omega
  have hnew : [(⟨data, seq⟩ : Buffer)] ≠ [⟨joined, start⟩] := by
    intro heq
    cases heq
    omega
  obtain ⟨r, sb₁, heq, hadded⟩ :=
    @StreamBuffer.add_added sb seq data timestamp hall (by omega)
  rw [hadd] at heq
  cases heq
  cases hadded with
  | duplicate => exact hold
  | first => exact hnew
  | reset => exact hnew
  | ignored => exact hold
  | placed _ reached =>
      -- It is so far below that the stream buffer would start over.
      have hover : sb.overflows seq = true := by
        have hN : sb.positionN = lo + bytes.length := by
          rw [StreamBuffer.positionN, hone]
          exact u64_of_lt (show lo + bytes.length < 2 ^ 64 by omega)
        rw [StreamBuffer.overflows, hN, subU64_of_le (by omega) (by omega), toInt64, if_pos (by omega),
          decide_eq_true_eq]
        unfold maxBytesGapIndicateTcpSeqOverflow
        omega
      rw [StreamBuffer.reachesPlace, hover] at reached
      simp at reached

/-- **Where the sequence numbers wrap**, the header goes to their other end. -/
theorem not_joined_of_lt (hheader : header.length = 4) (hflag : ke.prependLengthHeader = true)
    (hword : ke.lengthHeader = littleEndian header) (hmsg : 0 < msg.length)
    (hlen : msg.length ≤ ke.len) (hlt : ke.len < 2 ^ 31) (hlow : ke.seq < 4) :
    ¬Joined header ke msg := by
  intro hjoined
  obtain ⟨data, c', hdata, hadd, hbuffers⟩ := hjoined Unit Unit (emptyConnection (4 + ke.len))
    (4 + ke.len) (emptyConnection_streamBuffer _ _) le_rfl
  obtain ⟨data', hdata', hdatalen, -⟩ := syscallData_captured hmsg hlen
  rw [hdata] at hdata'
  cases hdata'
  have hne : data ≠ [] := by
    rw [← List.length_pos_iff]
    omega
  have hheaderne : header ≠ [] := by
    rw [← List.length_pos_iff]
    omega
  have hstart : (ke.seq % 2 ^ 32 + (2 ^ 32 - 4)) % 2 ^ 32 = ke.seq + (2 ^ 32 - 4) := by omega
  have hseq : ke.seq % 2 ^ 32 = ke.seq := by omega
  generalize hconn : emptyConnection (4 + (ke.len : ℤ)) = c at hadd hbuffers
  have hnew : c.streamBuffer (sideOf c ke) = StreamBuffer.new (4 + ke.len) := by
    rw [← hconn]
    exact emptyConnection_streamBuffer _ _
  obtain ⟨sb₁, hadd₁, hone₁⟩ := (oneRun_new (4 + (ke.len : ℤ)) (ke.seq + (2 ^ 32 - 4))).add
    (Connection4.getEventTimestamp ke.received c (c.isReq ke.received).1) hheaderne
    (by rw [List.length_nil]; omega) (by rw [List.nil_append]; omega)
  rw [List.nil_append] at hone₁
  rw [List.length_nil, Nat.add_zero, ← hnew] at hadd₁
  rw [addData_header c hflag, hstart, hseq, hword, putUint32_littleEndian hheader,
    add_of_stream hadd₁] at hadd
  obtain ⟨⟨added, sb₂⟩, hadd₂, heq⟩ := map_eq_ok hadd
  cases heq
  rw [Connection4.streamBuffer_setStreamBuffer] at hadd₂ hbuffers
  exact run_not_joined hone₁ hheaderne hne rfl (by omega) (by omega) (by omega) hadd₂ hbuffers

end User

/-! ## The header in the kernel -/

theorem kafkaResult_cases (buf : Memory) (count totalCount : ℕ) (usePrevBuf : Bool) :
    kafkaResult buf count totalCount usePrevBuf = .unknown
      ∨ kafkaResult buf count totalCount usePrevBuf = .request := by
  unfold kafkaResult inferKafkaRequest
  dsimp only
  split_ifs <;> first | exact Or.inl rfl | exact Or.inr rfl

/-- A message joined with the header has at least eight bytes of its own. -/
theorem kafkaResult_count {buf : Memory} {count totalCount : ℕ}
    (h : kafkaResult buf count totalCount true ≠ .unknown) (hlt : count < 2 ^ 31) : 8 ≤ count := by
  by_contra hshort
  refine h ?_
  unfold kafkaResult
  have hcount : u64 (count + 4) < 12 := by
    rw [u64_of_lt (by omega)]
    omega
  rw [if_pos rfl, if_pos hcount]

/-- **The flag is set** just for Kafka with a header from the read before, on a connection that was
taken for unknown. -/
theorem recognise_pending (buf : Memory) (count totalCount : ℕ) {c : ConnInfo} (traceProtocol : ℕ)
    (h : c.prependLengthHeader = false) :
    (recognise buf count totalCount c traceProtocol).2.prependLengthHeader = true
      ↔ (recognise buf count totalCount c traceProtocol).1.protocol = .kafka
        ∧ kafkaUsesPrevBuf count totalCount c = true ∧ c.protocol = .unknown := by
  unfold recognise
  dsimp only
  split_ifs with _ _ _ _ hkafka
  · simp [h]
  · simp [h]
  · simp [h]
  · simp [h]
  · have hrequest : kafkaResult buf count totalCount (kafkaUsesPrevBuf count totalCount c)
        = .request := by
      refine (kafkaResult_cases _ _ _ _).resolve_left fun hunknown => ?_
      unfold isKafkaProtocol at hkafka
      dsimp only at hkafka
      rw [hunknown] at hkafka
      simp at hkafka
    unfold isKafkaProtocol
    dsimp only
    rw [hrequest]
    rcases huse : kafkaUsesPrevBuf count totalCount c with _ | _
    · simp [h]
    · by_cases hprotocol : c.protocol = .unknown
      · simp [hprotocol]
      · simp [hprotocol, h]
  · simp [h]
  · simp [h]
  · simp [h]

/-- Kafka is recognised from the answer of its recogniser. -/
theorem recognise_kafka {buf : Memory} {count totalCount : ℕ} {c : ConnInfo} {traceProtocol : ℕ}
    (h : (recognise buf count totalCount c traceProtocol).1.protocol = .kafka) :
    kafkaResult buf count totalCount (kafkaUsesPrevBuf count totalCount c) ≠ .unknown := by
  unfold recognise at h
  dsimp only at h
  split_ifs at h with _ _ _ _ hkafka
  intro hunknown
  unfold isKafkaProtocol at hkafka
  dsimp only at hkafka
  rw [hunknown] at hkafka
  simp at hkafka

/-- The data of an event. -/
def dataOf : Event → Option (KernEvt × List UInt8)
  | .syscall ke msg => some (ke, msg)
  | _ => none

/-- The first event that reports bytes. -/
def firstData (events : List Event) : Option (KernEvt × List UInt8) := events.findSome? dataOf

/-- **What an inference does** with the header, and what it reports. -/
theorem inferConn_header {maps : Maps} {direct : Direction} {buf : Memory} {count totalCount : ℕ}
    {c c' : ConnInfo} {cpu cpu' : Cpu} {inferred : Bool}
    (h : inferConn maps direct buf count totalCount c cpu = (inferred, c', cpu')) :
    c'.prevCount = count
      ∧ c'.prevBuf = (if count = 4 then Vector.ofFn fun j => buf j else c.prevBuf)
      ∧ (c'.prependLengthHeader = true ↔ inferredProtocol maps buf count totalCount c = .kafka
        ∧ kafkaUsesPrevBuf count totalCount c = true ∧ c.protocol = .unknown)
      ∧ ∃ events, cpu'.events = cpu.events ++ events ∧ firstData events = none := by
  obtain ⟨hcount, hbuf⟩ := inferProtocol_prev buf count totalCount c (traceProtocol maps)
  have hpending : (inferProtocol buf count totalCount c (traceProtocol maps)).2.prependLengthHeader
      = true ↔ inferredProtocol maps buf count totalCount c = .kafka
        ∧ kafkaUsesPrevBuf count totalCount c = true ∧ c.protocol = .unknown :=
    recognise_pending buf count totalCount (c := { c with prependLengthHeader := false })
      (traceProtocol maps) rfl
  unfold inferConn applyInference at h
  dsimp only at h
  split at h
  · cases h
    exact ⟨hcount, hbuf, hpending, _, rfl, rfl⟩
  · cases h
    exact ⟨hcount, hbuf, hpending, [], (List.append_nil _).symm, rfl⟩

/-! ## Two reads -/

/-- The bytes of the second read are recognised together with the header kept from the first. -/
def Combines (maps : Maps) (buf : Memory) (count totalCount : ℕ) (c : ConnInfo) : Prop :=
  inferredProtocol maps buf count totalCount c = .kafka ∧ kafkaUsesPrevBuf count totalCount c = true
    ∨ inferredProtocol maps buf count totalCount c = .mysql ∧ mysqlUsesPrevBuf count c = true

/-- **The header is restored**: the first data that is reported carries it, and in user space the
two make one run. -/
def Restored (header : List UInt8) (count : ℕ) (events : List Event) : Prop :=
  ∃ ke msg, firstData events = some (ke, msg) ∧ ke.prependLengthHeader = true
    ∧ ke.lengthHeader = littleEndian header ∧ ke.len = count ∧ Joined header ke msg

/-- What the first of the two reads leaves. -/
theorem first_read {maps : Maps} {first : Call} {c : ConnInfo} {buf : Memory} (direct : Direction)
    (cpu : Cpu) (hfour : first.bytesCount.count = 4) (h : first.Looks maps c buf 4) :
    (first.run maps direct c cpu).1.bytes direct = u64 (c.bytes direct + 4)
      ∧ (first.run maps direct c cpu).1.prevBuf = Vector.ofFn (fun j => buf j) := by
  rcases hinfer : inferConn maps direct buf 4 first.bytesCount.count c cpu with ⟨inferred, c', cpu'⟩
  obtain ⟨hno, hyes⟩ := h.run_spec hinfer
  obtain ⟨hkept, -⟩ := inferConn_spec maps direct buf _ _ c cpu hinfer
  obtain ⟨-, hprev, -⟩ := inferConn_header hinfer
  rw [if_pos rfl] at hprev
  rw [hfour] at hno hyes
  have hbytes : ∀ c'' : ConnInfo, (c''.addBytes direct 4).bytes direct = u64 (c''.bytes direct + 4) := by
    intro c''
    rcases direct with _ | _ <;> rfl
  have hprevBuf : ∀ c'' : ConnInfo, (c''.addBytes direct 4).prevBuf = c''.prevBuf := by
    intro c''
    rcases direct with _ | _ <;> rfl
  rcases hreports : first.reports inferred c' with _ | _
  · rw [hno hreports]
    dsimp only
    rw [hbytes, hprevBuf, hkept.bytes]
    exact ⟨rfl, hprev⟩
  · obtain ⟨cpu'', ke, msg, rest, hrun, -⟩ := hyes hreports
    rw [hrun]
    dsimp only
    rw [hbytes, hprevBuf]
    change u64 (c'.bytes direct + 4) = _ ∧ c'.prevBuf = _
    rw [hkept.bytes]
    exact ⟨rfl, hprev⟩

theorem ofFn_toList (buf : Memory) :
    (Vector.ofFn (n := 4) fun j => buf j).toList = buf.read 0 4 := by
  rw [Vector.toList_ofFn]
  simp [Memory.read, List.range_succ, List.ofFn_succ]

/-- Of the two ways the plain one reports whatever a message was just recognised in, and the
vectored one waits for user space. -/
theorem reports_iff {call : Call} {c : ConnInfo} (h : c.protocol ≠ .unknown) :
    call.reports true c = true ↔ call.way = .plain ∨ c.noTrace.atMostTraceable = true := by
  unfold Call.reports tracesData shouldTraceConn
  have hknown : (c.protocol != .unknown) = true := by simpa using h
  rcases call.way with _ | _
  · simp [hknown]
  · simp [hknown]

/-- **Split length headers are restored** just when the message is one of Kafka, the second read is
a plain one or user space lets it be traced, and the sequence number of its data is at least four,
as it is unless the sequence numbers wrap around in the first four bytes. Between the reads user
space may say what it likes of the connection. -/
theorem second_read_restored_iff {maps₁ maps₂ : Maps} {first second : Call} {direct : Direction}
    {c : ConnInfo} {cpu₁ cpu₂ : Cpu} {buf₁ buf₂ : Memory} {count : ℕ} {noTrace : TraceState}
    (hfour : first.bytesCount.count = 4) (hfirst : first.Looks maps₁ c buf₁ 4)
    (hunknown : (first.run maps₁ direct c cpu₁).1.protocol = .unknown)
    (hsecond : second.Looks maps₂ { (first.run maps₁ direct c cpu₁).1 with noTrace := noTrace } buf₂
      count)
    (hcombines : Combines maps₂ buf₂ count second.bytesCount.count
      { (first.run maps₁ direct c cpu₁).1 with noTrace := noTrace }) :
    Restored (buf₁.read 0 4) count ((second.run maps₂ direct
        { (first.run maps₁ direct c cpu₁).1 with noTrace := noTrace } cpu₂).2.events.drop
          cpu₂.events.length)
      ↔ inferredProtocol maps₂ buf₂ count second.bytesCount.count
          { (first.run maps₁ direct c cpu₁).1 with noTrace := noTrace } = .kafka
        ∧ (second.way = .plain ∨ noTrace.atMostTraceable = true)
        ∧ 4 ≤ (c.bytes direct + 5) % 2 ^ 32 := by
  obtain ⟨hbytes, hprevBuf⟩ := first_read direct cpu₁ hfour hfirst
  generalize hc₁ : ({ (first.run maps₁ direct c cpu₁).1 with noTrace := noTrace } : ConnInfo) = c₁
    at hsecond hcombines ⊢
  have hprotocol₁ : c₁.protocol = .unknown := by rw [← hc₁]; exact hunknown
  have hprevBuf₁ : c₁.prevBuf = Vector.ofFn (fun j => buf₁ j) := by rw [← hc₁]; exact hprevBuf
  have hnoTrace₁ : c₁.noTrace = noTrace := by rw [← hc₁]
  have hbytes₁ : c₁.bytes direct = u64 (c.bytes direct + 4) := by rw [← hc₁]; exact hbytes
  obtain ⟨hpos, hle⟩ := hsecond.count_pos
  have hlt := second.bytesCount.lt
  rcases hinfer : inferConn maps₂ direct buf₂ count second.bytesCount.count c₁ cpu₂
    with ⟨inferred, c', cpu'⟩
  obtain ⟨hno, hyes⟩ := hsecond.run_spec hinfer
  obtain ⟨hkept, hprotocol', hinferred⟩ := inferConn_spec maps₂ direct buf₂ _ _ c₁ cpu₂ hinfer
  obtain ⟨-, hprevBuf', hpending, events, hevents, hnone⟩ := inferConn_header hinfer
  -- The protocol is a new one, whichever of the two it is.
  have hknown : inferredProtocol maps₂ buf₂ count second.bytesCount.count c₁ ≠ .unknown := by
    rcases hcombines with ⟨h, -⟩ | ⟨h, -⟩ <;> rw [h] <;> decide
  have hnew : inferred = true := by
    rw [hinferred, hprotocol₁]
    exact hknown.symm
  subst hnew
  have hreportsIff := @reports_iff second c' (by rw [hprotocol']; exact hknown)
  rw [hkept.noTrace, hnoTrace₁] at hreportsIff
  rw [← hreportsIff]
  rcases hreports : second.reports true c' with _ | _
  · -- The data is held back, and there is no first event.
    rw [hno hreports]
    dsimp only
    rw [hevents, List.drop_left]
    refine iff_of_false ?_ (fun h => absurd h.2.1 (by decide))
    rintro ⟨ke, msg, hfirstData, -⟩
    rw [hnone] at hfirstData
    cases hfirstData
  obtain ⟨cpu'', ke, msg, rest, hrun, hevents', hreport⟩ := hyes hreports
  have hfirstData : firstData (cpu''.events.drop cpu₂.events.length) = some (ke, msg) := by
    rw [hevents', hevents, List.append_assoc, List.drop_left, firstData, List.findSome?_append]
    change (firstData events).or _ = _
    rw [hnone]
    rfl
  rw [hrun]
  dsimp only
  by_cases hkafka : inferredProtocol maps₂ buf₂ count second.bytesCount.count c₁ = .kafka
  · have huse : kafkaUsesPrevBuf count second.bytesCount.count c₁ = true := by
      rcases hcombines with ⟨-, huse⟩ | ⟨hmysql, -⟩
      · exact huse
      · rw [hkafka] at hmysql
        cases hmysql
    have hflag' : c'.prependLengthHeader = true := hpending.mpr ⟨hkafka, huse, hprotocol₁⟩
    have hflag : ke.prependLengthHeader = true := hreport.flag.trans hflag'
    have height : 8 ≤ count := by
      have hresult : kafkaResult buf₂ count second.bytesCount.count
          (kafkaUsesPrevBuf count second.bytesCount.count c₁) ≠ .unknown :=
        @recognise_kafka buf₂ count second.bytesCount.count { c₁ with prependLengthHeader := false }
          (traceProtocol maps₂) hkafka
      rw [huse] at hresult
      exact kafkaResult_count hresult (by omega)
    have hword : ke.lengthHeader = littleEndian (buf₁.read 0 4) := by
      rw [hreport.header hflag', ConnInfo.lengthHeader, if_pos hflag', hprevBuf', if_neg (by omega),
        hprevBuf₁, ofFn_toList]
    have hseq : ke.seq = (c.bytes direct + 5) % 2 ^ 32 := by
      rw [hreport.seq, hkept.bytes, hbytes₁]
      unfold u64
      omega
    have hmsglen : msg.length = min count maxMsgSize := by
      rw [hreport.msg_eq, Memory.read_length]
    have hmsg : 0 < msg.length := by
      rw [hmsglen, maxMsgSize]
      omega
    have hcaptured : msg.length ≤ ke.len := by
      rw [hmsglen, hreport.len]
      omega
    have hkelt : ke.len < 2 ^ 31 := by
      rw [hreport.len]
      omega
    constructor
    · rintro ⟨ke₁, msg₁, hsome, -, -, -, hjoined⟩
      rw [hfirstData] at hsome
      cases hsome
      refine ⟨hkafka, rfl, ?_⟩
      by_contra hlow
      exact not_joined_of_lt (Memory.read_length _ _ _) hflag hword hmsg hcaptured hkelt (by omega)
        hjoined
    · rintro ⟨-, -, hroom⟩
      refine ⟨ke, msg, hfirstData, hflag, hword, hreport.len, ?_⟩
      exact joined_of_le (Memory.read_length _ _ _) hflag hword hmsg hcaptured hkelt (by omega)
        (by omega)
  · -- A message of MySQL is reported without the header.
    refine iff_of_false ?_ (fun h => hkafka h.1)
    rintro ⟨ke₁, msg₁, hsome, hflag, -⟩
    rw [hfirstData] at hsome
    cases hsome
    rw [hreport.flag] at hflag
    exact hkafka (hpending.mp hflag).1

/-- A plain read of as many bytes as `bytesCount` says. -/
def readOf (bytes : List UInt8) (bytesCount : Moved) : Call :=
  ⟨.plain, someTask, ⟨.syscallRead, 3, memoryOf bytes, [], 1, 2⟩, 3, bytesCount, false⟩

def freshConn : ConnInfo :=
  ⟨0, 0, 0, 0, .unset, .unknown, 0, Vector.replicate 4 0, false, .unset, false⟩

/-- The length of a Kafka request of eight bytes, and the request. -/
def kafkaLength : Call := readOf [0, 0, 0, 8] ⟨4, by decide, by decide⟩

def kafkaRest : Call := readOf [0, 0, 0, 0, 0, 0, 0, 1] ⟨8, by decide, by decide⟩

/-- The header of a MySQL packet of five bytes, and its query. -/
def mysqlHeader : Call := readOf [5, 0, 0, 0] ⟨4, by decide, by decide⟩

def mysqlRest : Call := readOf [3, 66, 66, 66, 66] ⟨5, by decide, by decide⟩

/-- The connection after the first of the two reads. -/
def afterFirst (first : Call) : ConnInfo :=
  { (first.run noMaps .ingress freshConn freshCpu).1 with noTrace := .protocolUnknown }

theorem second_read_restored_iff_sample :
    Restored ((memoryOf [0, 0, 0, 8]).read 0 4) 8
        ((kafkaRest.run noMaps .ingress (afterFirst kafkaLength) freshCpu).2.events.drop 0)
      ↔ inferredProtocol noMaps (memoryOf [0, 0, 0, 0, 0, 0, 0, 1]) 8 8 (afterFirst kafkaLength)
          = .kafka
        ∧ (kafkaRest.way = .plain ∨ TraceState.protocolUnknown.atMostTraceable = true)
        ∧ 4 ≤ (freshConn.bytes .ingress + 5) % 2 ^ 32 :=
  @second_read_restored_iff noMaps noMaps kafkaLength kafkaRest .ingress freshConn freshCpu freshCpu
    (memoryOf [0, 0, 0, 8]) (memoryOf [0, 0, 0, 0, 0, 0, 0, 1]) 8 .protocolUnknown rfl
    ⟨rfl, rfl, rfl, rfl, fun _ => by decide, fun h => by cases h⟩ (by decide +kernel)
    ⟨rfl, rfl, by decide +kernel, by decide +kernel, fun _ => by decide, fun h => by cases h⟩
    (Or.inl (by decide +kernel))

/-- A query of MySQL is reported without its header. -/
theorem mysql_header_lost :
    ¬Restored ((memoryOf [5, 0, 0, 0]).read 0 4) 5
      ((mysqlRest.run noMaps .ingress (afterFirst mysqlHeader) freshCpu).2.events.drop 0) := by
  rintro ⟨ke, msg, hfirst, hflag, -⟩
  have hnone : (firstData ((mysqlRest.run noMaps .ingress (afterFirst mysqlHeader)
      freshCpu).2.events.drop 0)).map (fun data => data.1.prependLengthHeader) = some false := by
    decide +kernel
  rw [hfirst] at hnone
  rw [Option.map_some, hflag] at hnone
  exact absurd hnone (by decide)

end Kyanos.Bpf
