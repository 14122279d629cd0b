/-
`bpf/data_common.h` and the data path of `bpf/pktlatency.bpf.c`: what the kernel reports of a
system call that read or wrote.

There are two ways to the same end. A call with one buffer goes through `process_syscall_data`,
one with a vector of buffers through `process_syscall_data_vecs`. Both infer the protocol while it
is not known, report the bytes as events and count them in the connection. An event is filled in a
slot that each CPU has one of, and what a report does not write of it is left from the one before.

The two ways do not agree. The vectored one does not ask whether the process is traced, does not
report the data that the inference was made from unless user space has let it, and reports a
connection under TLS also where it is not traced. `processSyscallDataVecs_agrees_iff` says when
none of this shows.
-/
import Kyanos.ProtocolInference
import Kyanos.KernEvents

set_option autoImplicit false

open GoNum

namespace Kyanos.Bpf

/-! ## Calls and events -/

/-- `source_function_t`. -/
inductive SourceFunction
  | unknown
  | syscallAccept
  | syscallConnect
  | syscallClose
  | syscallWrite
  | syscallRead
  | syscallSend
  | syscallRecv
  | syscallSendTo
  | syscallRecvFrom
  | syscallSendMsg
  | syscallRecvMsg
  | syscallSendMMsg
  | syscallRecvMMsg
  | syscallWriteV
  | syscallReadV
  | syscallSendfile
  | goTlsConnWrite
  | goTlsConnRead
  | sslWrite
  | sslRead
deriving DecidableEq

/-- `traffic_direction_t`. -/
inductive Direction
  | egress
  | ingress
deriving DecidableEq

/-- What a system call moved: at least one byte, and less than 2 GiB, the kernel's own limit. -/
structure Moved where
  count : ℕ
  pos : 0 < count
  lt : count < 2 ^ 31

/-- `struct iovec`. -/
structure IoVec where
  base : Memory
  len : ℕ

/-- `data_args`. No `iov` at all is an empty list. -/
structure DataArgs where
  sourceFn : SourceFunction
  fd : ℤ
  buf : Memory
  iov : List IoVec
  startTs : ℕ
  endTs : ℕ

/-- `kern_evt`, as far as the data path writes it. -/
structure KernEvt where
  sourceFn : SourceFunction
  ts : ℕ
  tsDelta : ℕ
  seq : ℕ
  len : ℕ
  prependLengthHeader : Bool
  lengthHeader : ℕ
  tgidFd : ℕ
  step : AgentStepT
deriving DecidableEq

/-- What is sent to user space: a connection whose protocol was inferred, and the two events of
data. -/
inductive Event
  | protocolInfer (connInfo : ConnInfo) (ts : ℕ)
  | syscall (ke : KernEvt) (msg : List UInt8)
  | ssl (ke : KernEvt) (syscallSeq syscallLen : ℕ) (msg : List UInt8)
deriving DecidableEq

/-- What a CPU has: the readings of its clock in turn, the slots of `syscall_data_map` and
`ssl_data_map`, and what it has sent. -/
structure Cpu where
  clock : ℕ → ℕ
  clockReads : ℕ
  slot : KernEvt
  sslSlot : KernEvt
  events : List Event

namespace Cpu

/-- `bpf_ktime_get_ns`. -/
def ktime (cpu : Cpu) : ℕ × Cpu :=
  (cpu.clock cpu.clockReads, { cpu with clockReads := cpu.clockReads + 1 })

def send (cpu : Cpu) (event : Event) : Cpu := { cpu with events := cpu.events ++ [event] }

end Cpu

/-! ## Reports -/

def maxMsgSize : ℕ := 30720

def loopLimit : ℕ := 3

/-- The arguments that all reports of one call share. -/
structure Origin where
  tgidFd : ℕ
  step : AgentStepT
  ts : ℕ
  tsDelta : ℕ
  sourceFn : SourceFunction

/-- `args->start_ts` and `args->end_ts - args->start_ts`, the latter a word of 32 bits. -/
def DataArgs.origin (args : DataArgs) (tgidFd : ℕ) (step : AgentStepT) : Origin :=
  { tgidFd := tgidFd, step := step, ts := args.startTs
    tsDelta := subU64 args.endTs args.startTs % 2 ^ 32, sourceFn := args.sourceFn }

/-- The fields that every report writes. -/
def KernEvt.fill (ke : KernEvt) (o : Origin) (seq len : ℕ) : KernEvt :=
  { ke with tgidFd := o.tgidFd, seq := seq % 2 ^ 32, len := len % 2 ^ 32, step := o.step }

/-- The time of a report; without one the clock is read, and the duration is left. -/
def Cpu.stamp (cpu : Cpu) (o : Origin) (ke : KernEvt) : KernEvt × Cpu :=
  if o.ts ≠ 0 then ({ ke with ts := o.ts, tsDelta := o.tsDelta }, cpu)
  else
    let (now, cpu) := cpu.ktime
    ({ ke with ts := now }, cpu)

/-- `report_conn_evt`, of type `kProtocolInfer`. -/
def reportConnEvt (connInfo : ConnInfo) (cpu : Cpu) : Cpu :=
  let (now, cpu) := cpu.ktime
  cpu.send (.protocolInfer connInfo now)

/-- `report_syscall_buf_without_data`, which leaves the length header in the slot. -/
def reportSyscallBufWithoutData (o : Origin) (seq len : ℕ) (cpu : Cpu) : Cpu :=
  if min len maxMsgSize = 0 then cpu
  else
    let (ke, cpu) := cpu.stamp o { cpu.slot.fill o seq len with sourceFn := o.sourceFn }
    { cpu with slot := ke }.send (.syscall ke [])

/-- `report_syscall_buf`. -/
def reportSyscallBuf (o : Origin) (seq len : ℕ) (buf : Memory) (prependLengthHeader : Bool)
    (lengthHeader : ℕ) (cpu : Cpu) : Cpu :=
  if min len maxMsgSize = 0 then cpu
  else
    let ke := { cpu.slot.fill o seq len with
      sourceFn := o.sourceFn
      prependLengthHeader := prependLengthHeader
      lengthHeader := if prependLengthHeader then lengthHeader else cpu.slot.lengthHeader }
    let (ke, cpu) := cpu.stamp o ke
    { cpu with slot := ke }.send (.syscall ke (buf.read 0 (min len maxMsgSize)))

/-- `report_ssl_buf`. -/
def reportSslBuf (o : Origin) (seq len : ℕ) (buf : Memory) (syscallSeq syscallLen : ℕ) (cpu : Cpu) :
    Cpu :=
  if min len maxMsgSize = 0 then cpu
  else
    let (ke, cpu) := cpu.stamp o (cpu.sslSlot.fill o seq len)
    { cpu with sslSlot := ke }.send
      (.ssl ke (syscallSeq % 2 ^ 32) (syscallLen % 2 ^ 32) (buf.read 0 (min len maxMsgSize)))

/-- The loop of `report_syscall_evt_vecs`: the sequence number it ends with, how much it sent, and
what it leaves. -/
def reportVecsLoop (o : Origin) (totalSize lengthHeader : ℕ) :
    List IoVec → ℕ → ℕ → Bool → Cpu → ℕ × ℕ × Cpu
  | [], seq, bytesSent, _, cpu => (seq, bytesSent, cpu)
  | iov :: iovs, seq, bytesSent, prependLengthHeader, cpu =>
      if bytesSent < totalSize then
        let iovSize := min iov.len (totalSize - bytesSent)
        let cpu := reportSyscallBuf o seq iovSize iov.base prependLengthHeader lengthHeader cpu
        reportVecsLoop o totalSize lengthHeader iovs ((seq + iovSize) % 2 ^ 32)
          (bytesSent + iovSize) false cpu
      else (seq, bytesSent, cpu)

/-- The end of `report_syscall_evt_vecs`: what is left of the call, without its data. -/
def reportRemainder (o : Origin) (totalSize : ℕ) : ℕ × ℕ × Cpu → Cpu
  | (seq, bytesSent, cpu) =>
      if bytesSent < totalSize then reportSyscallBufWithoutData o seq (totalSize - bytesSent) cpu
      else cpu

/-- `report_syscall_evt_vecs`. -/
def reportSyscallEvtVecs (o : Origin) (seq totalSize : ℕ) (iov : List IoVec)
    (prependLengthHeader : Bool) (lengthHeader : ℕ) (cpu : Cpu) : Cpu :=
  reportRemainder o totalSize
    (reportVecsLoop o totalSize lengthHeader (iov.take loopLimit) seq 0 prependLengthHeader cpu)

/-! ## The filter -/

/-- The maps that user space fills. A control value is read by its index. -/
structure Maps where
  controlValues : ℕ → Option ℤ
  filterPid : ℕ → Bool
  filterPidns : ℕ → Bool
  filterMntns : ℕ → Bool
  filterNetns : ℕ → Bool

def kEnableFilterByPid : ℕ := 3

def kTraceProtocol : ℕ := 9

/-- The task that makes the call. -/
structure Task where
  tgid : ℕ
  parentTgid : Option ℕ
  pidns : ℕ
  mntns : ℕ
  netns : ℕ

/-- `target_tgid_match_result_t`. -/
inductive TgidMatch
  | unspecified
  | all
  | matched
  | unmatched
deriving DecidableEq

/-- `match_trace_tgid`. A process that matches by its parent or by a namespace is put into the
map of processes. -/
def matchTraceTgid (maps : Maps) (task : Task) : TgidMatch × Maps :=
  let adopted := { maps with filterPid := fun tgid => tgid = task.tgid || maps.filterPid tgid }
  if maps.controlValues kEnableFilterByPid = none then (.all, maps)
  else if maps.filterPid task.tgid then (.matched, maps)
  else if task.parentTgid.any maps.filterPid then (.matched, adopted)
  else if maps.filterPidns task.pidns || maps.filterMntns task.mntns || maps.filterNetns task.netns then
    (.matched, adopted)
  else (.unmatched, maps)

/-- The process is one that is not traced. -/
def Rejected (maps : Maps) (task : Task) : Prop := (matchTraceTgid maps task).1 = .unmatched

instance (maps : Maps) (task : Task) : Decidable (Rejected maps task) :=
  inferInstanceAs (Decidable ((matchTraceTgid maps task).1 = .unmatched))

/-- The protocol to trace; the value of the map is read as an enumeration of 32 bits. -/
def traceProtocol (maps : Maps) : ℕ :=
  match maps.controlValues kTraceProtocol with
  | none => 0
  | some value => (value % 2 ^ 32).toNat

/-! ## The connection -/

/-- The protocol is one that is still to be inferred. -/
def ConnInfo.inferring (c : ConnInfo) : Bool := c.protocol = .unset || c.protocol = .unknown

/-- `no_trace <= traceable`. -/
def TraceState.atMostTraceable (t : TraceState) : Bool := t = .unset || t = .traceable

/-- `should_trace_conn`. -/
def shouldTraceConn (c : ConnInfo) : Bool := c.protocol != .unknown && c.noTrace.atMostTraceable

/-- The role that a message in a direction tells. -/
def roleOf (direct : Direction) (type : MessageType) : Role :=
  if (direct == .egress) ^^ (type == .response) then .client else .server

/-- What an inferred message makes of the connection, which is reported then. -/
def applyInference (direct : Direction) (message : ProtocolMessage) (c : ConnInfo) (cpu : Cpu) :
    Bool × ConnInfo × Cpu :=
  let beforeInfer := c.protocol
  if beforeInfer ≠ message.protocol then
    let c := { c with
      protocol := message.protocol
      role := if c.role = .unknown ∧ message.type ≠ .unknown then roleOf direct message.type
        else c.role }
    (true, c, reportConnEvt c cpu)
  else (false, c, cpu)

/-- The inference, which both ways make alike: whether the protocol is a new one, and the
connection with it. -/
def inferConn (maps : Maps) (direct : Direction) (buf : Memory) (count totalCount : ℕ) (c : ConnInfo)
    (cpu : Cpu) : Bool × ConnInfo × Cpu :=
  let (message, c) := inferProtocol buf count totalCount c (traceProtocol maps)
  applyInference direct message c cpu

/-- The bytes of a direction. -/
def ConnInfo.bytes (c : ConnInfo) (direct : Direction) : ℕ :=
  if direct = .egress then c.writeBytes else c.readBytes

def ConnInfo.sslBytes (c : ConnInfo) (direct : Direction) : ℕ :=
  if direct = .egress then c.sslWriteBytes else c.sslReadBytes

def ConnInfo.addBytes (c : ConnInfo) (direct : Direction) (count : ℕ) : ConnInfo :=
  if direct = .egress then { c with writeBytes := u64 (c.writeBytes + count) }
  else { c with readBytes := u64 (c.readBytes + count) }

/-- `SYSCALL_OUT` and `SYSCALL_IN`. -/
def syscallStep (direct : Direction) : AgentStepT := if direct = .egress then 2 else 13

/-- `SSL_OUT` and `SSL_IN`. -/
def sslStep (direct : Direction) : AgentStepT := if direct = .egress then 1 else 14

/-- The header kept, as the word that lies in memory. -/
def ConnInfo.lengthHeader (c : ConnInfo) : ℕ :=
  if c.prependLengthHeader then littleEndian c.prevBuf.toList else 0

/-! ## The plain way -/

/-- Whether `process_syscall_data_with_conn_info` reports: also what was inferred from just now,
and what was inferred while user space still has the connection as unknown. -/
def tracesData (inferred : Bool) (c : ConnInfo) : Bool :=
  c.protocol != .unknown && (inferred || c.noTrace.atMostTraceable)
    || c.protocol != .unknown && c.noTrace = .protocolUnknown

/-- `process_syscall_data_with_conn_info`. -/
def processSyscallDataWithConnInfo (maps : Maps) (args : DataArgs) (tgidFd : ℕ) (direct : Direction)
    (bytesCount : Moved) (syscallLen : ℤ) (isSsl withData : Bool) (c : ConnInfo) (cpu : Cpu) :
    ConnInfo × Cpu :=
  let (inferred, c, cpu) :=
    if c.inferring && withData then
      inferConn maps direct args.buf bytesCount.count bytesCount.count c cpu
    else (false, c, cpu)
  let seq := c.bytes direct + 1
  let o := args.origin tgidFd (if isSsl then sslStep direct else syscallStep direct)
  if tracesData inferred c then
    if isSsl then
      let sslSeq := c.sslBytes direct + 1
      let len := syscallLen.toNat
      (c, reportSslBuf o sslSeq bytesCount.count args.buf
        (if syscallLen < 0 then 0 else subU64 seq len) len cpu)
    else if withData then
      ({ c with prependLengthHeader := false },
        reportSyscallBuf o seq bytesCount.count args.buf c.prependLengthHeader c.lengthHeader cpu)
    else (c, reportSyscallBufWithoutData o seq bytesCount.count cpu)
  else (c, cpu)

/-- `process_syscall_data`, for the connection of the descriptor. -/
def processSyscallData (maps : Maps) (task : Task) (args : DataArgs) (tgidFd : ℕ)
    (direct : Direction) (bytesCount : Moved) (isNestedSsl : Bool) (c : ConnInfo) (cpu : Cpu) :
    ConnInfo × Cpu :=
  if Rejected maps task then (c, cpu)
  else
    let c := if isNestedSsl then { c with ssl := true } else c
    let (c, cpu) := processSyscallDataWithConnInfo maps args tgidFd direct bytesCount 0 false (!c.ssl)
      c cpu
    (c.addBytes direct bytesCount.count, cpu)

/-! ## The vectored way -/

/-- The inference of `process_syscall_data_vecs`, from the first buffer of the vector. -/
def inferFromVecs (maps : Maps) (args : DataArgs) (direct : Direction) (bytesCount : Moved)
    (c : ConnInfo) (cpu : Cpu) : ConnInfo × Cpu :=
  match args.iov with
  | [] => (c, cpu)
  | iov :: _ =>
      let bufSize := min iov.len bytesCount.count
      if c.inferring && bufSize ≠ 0 then
        (inferConn maps direct iov.base bufSize bytesCount.count c cpu).2
      else (c, cpu)

/-- What `process_syscall_data_vecs` does with the connection, up to its counters. -/
def processVecsWithConnInfo (maps : Maps) (args : DataArgs) (tgidFd : ℕ) (direct : Direction)
    (bytesCount : Moved) (c : ConnInfo) (cpu : Cpu) : ConnInfo × Cpu :=
  let o := args.origin tgidFd (syscallStep direct)
  if !c.ssl then
    let (c, cpu) := inferFromVecs maps args direct bytesCount c cpu
    let seq := c.bytes direct + 1
    if shouldTraceConn c then
      ({ c with prependLengthHeader := false },
        reportSyscallEvtVecs o seq bytesCount.count args.iov c.prependLengthHeader c.lengthHeader cpu)
    else (c, cpu)
  -- Under TLS only that there was a call is reported, whatever the connection is.
  else (c, reportSyscallBufWithoutData o (c.bytes direct + 1) bytesCount.count cpu)

/-- `process_syscall_data_vecs`, for the connection of the descriptor. -/
def processSyscallDataVecs (maps : Maps) (args : DataArgs) (tgidFd : ℕ) (direct : Direction)
    (bytesCount : Moved) (isInNestedSsl : Bool) (c : ConnInfo) (cpu : Cpu) : ConnInfo × Cpu :=
  if args.iov = [] ∨ args.fd < 0 then (c, cpu)
  else
    let c := if isInNestedSsl then { c with ssl := true } else c
    let (c, cpu) := processVecsWithConnInfo maps args tgidFd direct bytesCount c cpu
    (c.addBytes direct bytesCount.count, cpu)

/-! ## What the inference leaves alone -/

theorem isKafkaProtocol_conn (buf : Memory) (count totalCount : ℕ) (c : ConnInfo) :
    ∃ pending, (isKafkaProtocol buf count totalCount c).2
      = { c with prependLengthHeader := pending } := by
  unfold isKafkaProtocol
  dsimp only
  split
  · exact ⟨true, rfl⟩
  · exact ⟨_, rfl⟩

theorem recognise_conn (buf : Memory) (count totalCount : ℕ) (c : ConnInfo) (traceProtocol : ℕ) :
    ∃ pending, (recognise buf count totalCount c traceProtocol).2
      = { c with prependLengthHeader := pending } := by
  unfold recognise
  dsimp only
  split_ifs
  · exact ⟨_, rfl⟩
  · exact ⟨_, rfl⟩
  · exact ⟨_, rfl⟩
  · exact ⟨_, rfl⟩
  · exact isKafkaProtocol_conn buf count totalCount c
  · exact ⟨_, rfl⟩
  · exact ⟨_, rfl⟩
  · exact ⟨_, rfl⟩

/-- The counters of the two are the same, and so is what user space said of them. -/
structure Kept (c c' : ConnInfo) : Prop where
  readBytes : c'.readBytes = c.readBytes
  writeBytes : c'.writeBytes = c.writeBytes
  noTrace : c'.noTrace = c.noTrace
  ssl : c'.ssl = c.ssl

theorem Kept.refl (c : ConnInfo) : Kept c c := ⟨rfl, rfl, rfl, rfl⟩

theorem Kept.bytes {c c' : ConnInfo} (h : Kept c c') (direct : Direction) :
    c'.bytes direct = c.bytes direct := by
  rw [ConnInfo.bytes, ConnInfo.bytes, h.readBytes, h.writeBytes]

theorem inferProtocol_kept (buf : Memory) (count totalCount : ℕ) (c : ConnInfo)
    (traceProtocol : ℕ) : Kept c (inferProtocol buf count totalCount c traceProtocol).2
      ∧ (inferProtocol buf count totalCount c traceProtocol).2.protocol = c.protocol := by
  obtain ⟨pending, hconn⟩ := recognise_conn buf count totalCount
    { c with prependLengthHeader := false } traceProtocol
  unfold inferProtocol
  dsimp only
  rw [hconn]
  exact ⟨⟨rfl, rfl, rfl, rfl⟩, rfl⟩

/-- The bytes of a read of four are kept. -/
theorem inferProtocol_prev (buf : Memory) (count totalCount : ℕ) (c : ConnInfo)
    (traceProtocol : ℕ) :
    (inferProtocol buf count totalCount c traceProtocol).2.prevCount = count
      ∧ (inferProtocol buf count totalCount c traceProtocol).2.prevBuf
        = if count = 4 then Vector.ofFn fun j => buf j else c.prevBuf := by
  obtain ⟨pending, hconn⟩ := recognise_conn buf count totalCount
    { c with prependLengthHeader := false } traceProtocol
  unfold inferProtocol
  dsimp only
  rw [hconn]
  exact ⟨rfl, rfl⟩

/-- The protocol that the bytes of a call tell. -/
def inferredProtocol (maps : Maps) (buf : Memory) (count totalCount : ℕ) (c : ConnInfo) :
    TrafficProtocol :=
  (inferProtocol buf count totalCount c (traceProtocol maps)).1.protocol

/-- **What an inference does** to the connection. -/
theorem inferConn_spec (maps : Maps) (direct : Direction) (buf : Memory) (count totalCount : ℕ)
    (c : ConnInfo) (cpu : Cpu) {inferred : Bool} {c' : ConnInfo} {cpu' : Cpu}
    (h : inferConn maps direct buf count totalCount c cpu = (inferred, c', cpu')) :
    Kept c c' ∧ c'.protocol = inferredProtocol maps buf count totalCount c
      ∧ (inferred = true ↔ c.protocol ≠ inferredProtocol maps buf count totalCount c) := by
  obtain ⟨hkept, hprotocol⟩ := inferProtocol_kept buf count totalCount c (traceProtocol maps)
  unfold inferConn applyInference at h
  dsimp only at h
  unfold inferredProtocol
  split at h
  · rename_i hnew
    cases h
    rw [hprotocol] at hnew
    exact ⟨⟨hkept.readBytes, hkept.writeBytes, hkept.noTrace, hkept.ssl⟩, rfl, by simpa using hnew⟩
  · rename_i hsame
    cases h
    rw [hprotocol] at hsame
    have hsame := not_not.mp hsame
    exact ⟨hkept, hprotocol.trans hsame, by simp [hsame]⟩

/-! ## One buffer, two ways -/

/-- A time is all that is written at last. -/
theorem Cpu.stamp_spec (cpu : Cpu) (o : Origin) (ke : KernEvt) :
    ∃ ts tsDelta cpu', cpu.stamp o ke = ({ ke with ts := ts, tsDelta := tsDelta }, cpu')
      ∧ cpu'.events = cpu.events := by
  unfold Cpu.stamp
  split_ifs
  · exact ⟨_, _, _, rfl, rfl⟩
  · exact ⟨_, _, _, rfl, rfl⟩

/-- **A report with data** is one event. -/
theorem reportSyscallBuf_spec (o : Origin) (seq : ℕ) {len : ℕ} (hpos : 0 < len) (buf : Memory)
    (pending : Bool) (lengthHeader : ℕ) (cpu : Cpu) :
    ∃ ke, (reportSyscallBuf o seq len buf pending lengthHeader cpu).events
        = cpu.events ++ [.syscall ke (buf.read 0 (min len maxMsgSize))]
      ∧ ke.seq = seq % 2 ^ 32 ∧ ke.len = len % 2 ^ 32 ∧ ke.sourceFn = o.sourceFn
      ∧ ke.prependLengthHeader = pending ∧ (pending = true → ke.lengthHeader = lengthHeader) := by
  have hreported : ¬min len maxMsgSize = 0 := by
    unfold maxMsgSize
    omega
  unfold reportSyscallBuf
  rw [if_neg hreported]
  dsimp only
  generalize hheader : (if pending = true then lengthHeader else cpu.slot.lengthHeader) = header
  obtain ⟨ts, tsDelta, cpu', hstamp, hevents⟩ := cpu.stamp_spec o
    { cpu.slot.fill o seq len with
      sourceFn := o.sourceFn
      prependLengthHeader := pending
      lengthHeader := header }
  rw [hstamp, ← hevents]
  refine ⟨_, rfl, rfl, rfl, rfl, rfl, ?_⟩
  rintro rfl
  exact hheader.symm

/-- **A report without data** is one event. -/
theorem reportSyscallBufWithoutData_spec (o : Origin) (seq : ℕ) {len : ℕ} (hpos : 0 < len)
    (cpu : Cpu) :
    ∃ ke, (reportSyscallBufWithoutData o seq len cpu).events = cpu.events ++ [.syscall ke []]
      ∧ ke.seq = seq % 2 ^ 32 ∧ ke.len = len % 2 ^ 32 ∧ ke.sourceFn = o.sourceFn := by
  have hreported : ¬min len maxMsgSize = 0 := by
    unfold maxMsgSize
    omega
  unfold reportSyscallBufWithoutData
  rw [if_neg hreported]
  obtain ⟨ts, tsDelta, cpu', hstamp, hevents⟩ :=
    cpu.stamp_spec o { cpu.slot.fill o seq len with sourceFn := o.sourceFn }
  rw [hstamp, ← hevents]
  exact ⟨_, rfl, rfl, rfl, rfl⟩

theorem reportSyscallBuf_events (o : Origin) (seq : ℕ) (bytesCount : Moved) (buf : Memory)
    (pending : Bool) (lengthHeader : ℕ) (cpu : Cpu) :
    (reportSyscallBuf o seq bytesCount.count buf pending lengthHeader cpu).events.length
      = cpu.events.length + 1 := by
  obtain ⟨ke, hevents, -⟩ :=
    reportSyscallBuf_spec o seq bytesCount.pos buf pending lengthHeader cpu
  rw [hevents, List.length_append]
  rfl

theorem reportSyscallBufWithoutData_events (o : Origin) (seq : ℕ) (bytesCount : Moved) (cpu : Cpu) :
    (reportSyscallBufWithoutData o seq bytesCount.count cpu).events.length
      = cpu.events.length + 1 := by
  obtain ⟨ke, hevents, -⟩ := reportSyscallBufWithoutData_spec o seq bytesCount.pos cpu
  rw [hevents, List.length_append]
  rfl

/-- A vector of one buffer that holds all is reported as the buffer. -/
theorem reportSyscallEvtVecs_one (o : Origin) (seq : ℕ) (bytesCount : Moved) {buf : Memory} {len : ℕ}
    (hlen : bytesCount.count ≤ len) (pending : Bool) (lengthHeader : ℕ) (cpu : Cpu) :
    reportSyscallEvtVecs o seq bytesCount.count [⟨buf, len⟩] pending lengthHeader cpu
      = reportSyscallBuf o seq bytesCount.count buf pending lengthHeader cpu := by
  have hpos := bytesCount.pos
  have hsize : min len (bytesCount.count - 0) = bytesCount.count := by omega
  have htake : [IoVec.mk buf len].take loopLimit = [⟨buf, len⟩] := rfl
  unfold reportSyscallEvtVecs
  rw [htake, reportVecsLoop, if_pos hpos, reportVecsLoop]
  dsimp only
  rw [hsize, Nat.zero_add, reportRemainder, if_neg (Nat.lt_irrefl _)]

/-- The same connection and the same events. -/
def SameOutcome (a b : ConnInfo × Cpu) : Prop := a.1 = b.1 ∧ a.2.events = b.2.events

/-- The protocol of the connection once a call with the bytes has been looked at. -/
def protocolAfter (maps : Maps) (args : DataArgs) (bytesCount : Moved) (c : ConnInfo) :
    TrafficProtocol :=
  if c.inferring then inferredProtocol maps args.buf bytesCount.count bytesCount.count c
  else c.protocol

/-- When the two ways agree on one buffer of a traced process: under TLS the connection is traced,
too; and otherwise there is nothing to report, or user space lets both report, or neither does,
because the protocol is an old one. -/
def DataAgrees (maps : Maps) (args : DataArgs) (bytesCount : Moved) (c : ConnInfo) : Prop :=
  if c.ssl then tracesData false c = true
  else protocolAfter maps args bytesCount c = .unknown ∨ c.noTrace.atMostTraceable = true
    ∨ protocolAfter maps args bytesCount c = c.protocol ∧ c.noTrace ≠ .protocolUnknown

def VecsAgree (maps : Maps) (task : Task) (args : DataArgs) (bytesCount : Moved) (isNestedSsl : Bool)
    (c : ConnInfo) : Prop :=
  ¬Rejected maps task
    ∧ DataAgrees maps args bytesCount (if isNestedSsl then { c with ssl := true } else c)

theorem addBytes_ne (c : ConnInfo) (direct : Direction) (bytesCount : Moved) :
    (c.addBytes direct bytesCount.count).bytes direct ≠ c.bytes direct := by
  have hpos := bytesCount.pos
  have hlt := bytesCount.lt
  rcases direct with _ | _
  · change (c.writeBytes + bytesCount.count) % 2 ^ 64 ≠ c.writeBytes
    omega
  · change (c.readBytes + bytesCount.count) % 2 ^ 64 ≠ c.readBytes
    omega

section Agreement

variable {maps : Maps} {task : Task} {args : DataArgs} {tgidFd : ℕ} {direct : Direction}
  {bytesCount : Moved} {c : ConnInfo} {cpu : Cpu} {len : ℕ}

/-- With one buffer the vectored way infers from what the plain way does. -/
theorem inferFromVecs_one (hiov : args.iov = [⟨args.buf, len⟩]) (hlen : bytesCount.count ≤ len) :
    inferFromVecs maps args direct bytesCount c cpu
      = (if c.inferring then
          inferConn maps direct args.buf bytesCount.count bytesCount.count c cpu
        else (false, c, cpu)).2 := by
  have hpos := bytesCount.pos
  have hsize : min len bytesCount.count = bytesCount.count := by omega
  unfold inferFromVecs
  rw [hiov]
  dsimp only
  rw [hsize]
  have hnonzero : bytesCount.count ≠ 0 := by omega
  rcases hinfer : c.inferring with _ | _
  · simp
  · simp [hnonzero]

/-- What a call finds out before it reports. -/
theorem infer_spec {inferred : Bool} {c' : ConnInfo} {cpu' : Cpu}
    (h : (if c.inferring then
          inferConn maps direct args.buf bytesCount.count bytesCount.count c cpu
        else (false, c, cpu)) = (inferred, c', cpu')) :
    Kept c c' ∧ c'.protocol = protocolAfter maps args bytesCount c
      ∧ (inferred = true ↔ protocolAfter maps args bytesCount c ≠ c.protocol) := by
  unfold protocolAfter
  split at h
  · rename_i hinfer
    rw [if_pos hinfer]
    obtain ⟨hkept, hprotocol, hinferred⟩ := inferConn_spec maps direct args.buf _ _ c cpu h
    exact ⟨hkept, hprotocol, hinferred.trans ne_comm⟩
  · rename_i hinfer
    rw [if_neg hinfer]
    cases h
    exact ⟨Kept.refl _, rfl, by simp⟩

theorem inferFromVecs_kept : Kept c (inferFromVecs maps args direct bytesCount c cpu).1 := by
  unfold inferFromVecs
  split
  · exact Kept.refl c
  · dsimp only
    split
    · exact (inferConn_spec maps direct _ _ _ c cpu rfl).1
    · exact Kept.refl c

theorem processVecs_kept :
    Kept c (processVecsWithConnInfo maps args tgidFd direct bytesCount c cpu).1 := by
  have hkept : Kept c (inferFromVecs maps args direct bytesCount c cpu).1 := inferFromVecs_kept
  unfold processVecsWithConnInfo
  dsimp only
  split
  · split
    · exact ⟨hkept.readBytes, hkept.writeBytes, hkept.noTrace, hkept.ssl⟩
    · exact hkept
  · exact Kept.refl c

/-- Which of the two report, once the protocol has been looked at. -/
theorem traces_iff {inferred : Bool} {c' : ConnInfo} (hnoTrace : c'.noTrace = c.noTrace)
    (hprotocol : c'.protocol = protocolAfter maps args bytesCount c)
    (hinferred : inferred = true ↔ protocolAfter maps args bytesCount c ≠ c.protocol) :
    tracesData inferred c' = shouldTraceConn c'
      ↔ protocolAfter maps args bytesCount c = .unknown ∨ c.noTrace.atMostTraceable = true
        ∨ protocolAfter maps args bytesCount c = c.protocol ∧ c.noTrace ≠ .protocolUnknown := by
  unfold tracesData shouldTraceConn
  rw [hnoTrace, hprotocol]
  rcases hunknown : protocolAfter maps args bytesCount c != .unknown with _ | _
  · simpa using Or.inl (by simpa using hunknown)
  · have hknown : protocolAfter maps args bytesCount c ≠ .unknown := by simpa using hunknown
    rcases hat : c.noTrace.atMostTraceable with _ | _
    · rcases inferred with _ | _
      · have hold : protocolAfter maps args bytesCount c = c.protocol := by
          by_contra hnew
          exact absurd (hinferred.mpr hnew) (by decide)
        simp [hold ▸ hknown, hold]
      · have hnew := hinferred.mp rfl
        simp [hknown, hnew]
    · simp

/-- **On one buffer the two reports are the same**, or one has an event more. -/
theorem processVecs_one (hiov : args.iov = [⟨args.buf, len⟩]) (hlen : bytesCount.count ≤ len) :
    (DataAgrees maps args bytesCount c
      → processVecsWithConnInfo maps args tgidFd direct bytesCount c cpu
        = processSyscallDataWithConnInfo maps args tgidFd direct bytesCount 0 false (!c.ssl) c cpu)
    ∧ (¬DataAgrees maps args bytesCount c
      → (processVecsWithConnInfo maps args tgidFd direct bytesCount c cpu).2.events
        ≠ (processSyscallDataWithConnInfo maps args tgidFd direct bytesCount 0 false (!c.ssl) c
          cpu).2.events) := by
  unfold DataAgrees processVecsWithConnInfo processSyscallDataWithConnInfo
  rcases hssl : c.ssl with _ | _
  · -- Without TLS both infer, and the report of one is that of the other.
    rw [inferFromVecs_one hiov hlen, hiov]
    simp only [Bool.not_false, Bool.and_true, if_true, Bool.false_eq_true, if_false]
    rcases hcall : (if c.inferring then
        inferConn maps direct args.buf bytesCount.count bytesCount.count c cpu
      else (false, c, cpu)) with ⟨inferred, c', cpu'⟩
    obtain ⟨hkept, hprotocol, hinferred⟩ := infer_spec hcall
    have hiff := traces_iff hkept.noTrace hprotocol hinferred
    dsimp only
    rw [← hiff, reportSyscallEvtVecs_one _ _ _ hlen]
    constructor
    · intro hsame
      rw [hsame]
    · intro hdiffer
      -- The vectored way reports only where the plain one does.
      have hvecs : shouldTraceConn c' = false := by
        by_contra htraced
        have htraced := Bool.eq_true_of_not_eq_false htraced
        refine hdiffer ?_
        rw [htraced]
        unfold tracesData shouldTraceConn at *
        rw [Bool.and_eq_true] at htraced
        rw [htraced.1, htraced.2]
        simp
      have hplain : tracesData inferred c' = true := by
        rw [hvecs] at hdiffer
        exact Bool.eq_true_of_not_eq_false hdiffer
      rw [hvecs, hplain]
      intro hevents
      have hlength := congrArg List.length hevents
      simp only [Bool.false_eq_true, if_false, if_true] at hlength
      rw [reportSyscallBuf_events] at hlength
      omega
  · simp only [Bool.not_true, Bool.and_false, Bool.false_eq_true, if_false, if_true]
    constructor
    · intro htraced
      rw [htraced]
      rfl
    · intro hnot
      rw [if_neg hnot]
      intro hevents
      have hlength := congrArg List.length hevents
      rw [reportSyscallBufWithoutData_events] at hlength
      dsimp only at hlength
      omega

end Agreement

/-- **The vectored way and the plain way agree on one buffer** just when the process is traced, a
connection under TLS is, too, and no data is held back that a protocol was inferred from. -/
theorem processSyscallDataVecs_agrees_iff (maps : Maps) (task : Task) {args : DataArgs}
    (tgidFd : ℕ) (direct : Direction) {bytesCount : Moved} (isNestedSsl : Bool) (c : ConnInfo)
    (cpu : Cpu) {len : ℕ} (hfd : 0 ≤ args.fd) (hiov : args.iov = [⟨args.buf, len⟩])
    (hlen : bytesCount.count ≤ len) :
    SameOutcome (processSyscallDataVecs maps args tgidFd direct bytesCount isNestedSsl c cpu)
        (processSyscallData maps task args tgidFd direct bytesCount isNestedSsl c cpu)
      ↔ VecsAgree maps task args bytesCount isNestedSsl c := by
  have hargs : ¬(args.iov = [] ∨ args.fd < 0) := by
    rw [hiov]
    rintro (hnil | hneg)
    · cases hnil
    · omega
  unfold processSyscallDataVecs processSyscallData VecsAgree SameOutcome
  rw [if_neg hargs]
  by_cases hrejected : Rejected maps task
  · refine iff_of_false ?_ (fun h => h.1 hrejected)
    -- The plain way leaves the connection alone, and the vectored one counts the bytes.
    rw [if_pos hrejected]
    rintro ⟨hconn, -⟩
    have hbytes := congrArg (fun c => c.bytes direct) hconn
    dsimp only at hbytes
    refine addBytes_ne _ direct bytesCount (hbytes.trans ?_)
    rw [processVecs_kept.bytes]
    rcases isNestedSsl with _ | _
    · rfl
    · rfl
  · rw [if_neg hrejected]
    dsimp only
    obtain ⟨hsame, hdiffer⟩ := @processVecs_one maps args tgidFd direct bytesCount
      (if isNestedSsl then { c with ssl := true } else c) cpu len hiov hlen
    constructor
    · rintro ⟨-, hevents⟩
      refine ⟨hrejected, ?_⟩
      by_contra hnot
      exact hdiffer hnot hevents
    · rintro ⟨-, hagrees⟩
      rw [hsame hagrees]
      exact ⟨rfl, rfl⟩

def noMaps : Maps := ⟨fun _ => none, fun _ => false, fun _ => false, fun _ => false, fun _ => false⟩

def someTask : Task := ⟨1, none, 0, 0, 0⟩

def zeroEvt : KernEvt := ⟨.unknown, 0, 0, 0, 0, false, 0, 0, 0⟩

def freshCpu : Cpu := ⟨fun n => n, 0, zeroEvt, zeroEvt, []⟩

/-- A connection that read bytes no recogniser knew, and that user space has as unknown. -/
def unknownConn : ConnInfo :=
  ⟨7, 0, 0, 0, .unknown, .unknown, 7, Vector.replicate 4 0, false, .protocolUnknown, false⟩

def getRequest : List UInt8 := text "GET / HTTP/1.1\r\n\r\n"

/-- The arguments of a read of the request, into one buffer of 64 bytes. -/
def getArgs : DataArgs :=
  ⟨.syscallReadV, 3, memoryOf getRequest, [⟨memoryOf getRequest, 64⟩], 1, 2⟩

def getMoved : Moved := ⟨18, by decide, by decide⟩

theorem processSyscallDataVecs_agrees_iff_sample :
    SameOutcome (processSyscallDataVecs noMaps getArgs 3 .ingress getMoved false unknownConn freshCpu)
        (processSyscallData noMaps someTask getArgs 3 .ingress getMoved false unknownConn freshCpu)
      ↔ VecsAgree noMaps someTask getArgs getMoved false unknownConn :=
  @processSyscallDataVecs_agrees_iff noMaps someTask getArgs 3 .ingress getMoved false unknownConn
    freshCpu 64 (by decide) rfl (by decide)

/-- The request that tells the protocol: the plain way reports it, and the vectored way reports
that the protocol is known. -/
theorem vecs_lose_first_request :
    ¬SameOutcome
      (processSyscallDataVecs noMaps getArgs 3 .ingress getMoved false unknownConn freshCpu)
      (processSyscallData noMaps someTask getArgs 3 .ingress getMoved false unknownConn freshCpu) := by
  rintro ⟨-, hevents⟩
  have hlength := congrArg List.length hevents
  revert hlength
  decide +kernel

end Kyanos.Bpf
