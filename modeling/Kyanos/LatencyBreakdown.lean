/-
`agent/analysis/stat.go`: where the time of a request went.

`ReceiveRecord` looks up the kernel events of the two messages of a record, and makes four durations
out of their times, by formulas that depend on the side of the connection, on SSL, on what is traced
and on which events there are. Here a duration is kept as what it is computed from (`Duration`): a
constant, a difference of two times that are converted to `float64` first, or one of two `uint64`s
that is converted afterwards. `Duration.value` is what Go computes of it.

A difference of words is wrong when the later time is the smaller one: it wraps to the top. Two of the
formulas have one, `CopyToSocketBufferDuration`, and `ReadFromSocketBufferDuration` where no socket
events are traced; their siblings subtract `float64`s. `latencies_true_iff` says just when the
durations are true differences: when the times of these two formulas are in order, and, where
arithmetic rounds, when it rounds none of the differences away. Times of up to a hundred days are
short enough for that (`receiveRecord_short`).
-/
import Kyanos.Float64
import Kyanos.KernSslEvents

set_option autoImplicit false

open GoNum

namespace Kyanos

namespace AgentStepT

def syscallOut : AgentStepT := 2

def tcpIn : AgentStepT := 11

def userCopy : AgentStepT := 12

def syscallIn : AgentStepT := 13

end AgentStepT

/-! ## The times of an event -/

namespace KernEvent

/-- `GetEndTs`. -/
def endTs (e : KernEvent) : ℕ := u64 (e.startTs + e.tsDelta)

/-- The times of the interfaces that an event went through. -/
def ifTimestamps (e : KernEvent) : List ℤ :=
  (e.attributes.elim [] SortedMap.entries).filterMap fun (key, timestamp) =>
    if "time-".toList.isPrefixOf key.toList then some timestamp else none

/-- The largest `int64`. -/
def maxInt64 : ℤ := 2 ^ 63 - 1

/-- `GetMaxIfTimestampAttr`, without the name of the interface. -/
def maxIfTimestampAttr (e : KernEvent) : Option ℤ :=
  let maxTimestamp := e.ifTimestamps.foldl max 0
  if maxTimestamp > 0 then some maxTimestamp else none

/-- `GetMinIfItmestampAttr`. -/
def minIfTimestampAttr (e : KernEvent) : Option ℤ :=
  let minTimestamp := e.ifTimestamps.foldl min maxInt64
  if minTimestamp < maxInt64 then some minTimestamp else none

end KernEvent

namespace Analysis

/-! ## The events of a record -/

/-- `ParsedMessage`, as far as its times and events go. -/
structure MessageTimes where
  seq : ℕ
  byteSize : ℤ
  timestampNs : ℕ

structure Record where
  request : MessageTimes
  response : MessageTimes

/-- `DirectEgress`, or `DirectIngress`. -/
inductive DirectEnum
  | directEgress
  | directIngress
deriving DecidableEq

def getParsedMessageBySide (r : Record) (isServerSide : Bool) (direct : DirectEnum) :
    MessageTimes :=
  if !isServerSide then if direct = .directEgress then r.request else r.response
  else if direct = .directEgress then r.response else r.request

/-- What is asked of a connection, and how it answers: the lookups of its `StreamEvents`. -/
structure Connection where
  isServerSide : Bool
  isSsl : Bool
  findEventsBySeqAndLen : AgentStepT → ℕ → ℤ → List KernEvent
  findSslEventsBySeqAndLen : AgentStepT → ℕ → ℤ → List SslEvent

/-- `traceDevEvent` and `traceSocketEvent`. -/
structure TraceOptions where
  traceDevEvent : Bool
  traceSocketEvent : Bool

/-- `events`, without the starts and lengths that no duration is made of. -/
structure Events where
  sslWriteSyscallEvents : List SslEvent
  sslReadSyscallEvents : List SslEvent
  writeSyscallEvents : List KernEvent
  readSyscallEvents : List KernEvent
  devOutEvents : List KernEvent
  nicIngressEvents : List KernEvent
  userCopyEvents : List KernEvent
  tcpInEvents : List KernEvent
  egressMessage : MessageTimes
  ingressMessage : MessageTimes

def getKernSeqAndLen (syscallEvents : List SslEvent) : ℕ × ℤ :=
  let known (each : SslEvent) : Bool := each.kernSeq ≠ 0 || each.kernLen ≠ 0
  match syscallEvents.find? known, syscallEvents.reverse.find? known with
  | some first, some last =>
      let syscallSeq := toInt64 first.kernSeq
      if syscallSeq = -1 then (0, 0)
      else (ofInt64 syscallSeq, subInt64 (last.kernLen + toInt64 last.kernSeq) syscallSeq)
  | _, _ => (0, 0)

def prepareEvents (options : TraceOptions) (r : Record) (connection : Connection) : Events :=
  let find := connection.findEventsBySeqAndLen
  let egressMessage := getParsedMessageBySide r connection.isServerSide .directEgress
  let ingressMessage := getParsedMessageBySide r connection.isServerSide .directIngress
  let ssl := connection.isSsl
  let sslWriteSyscallEvents :=
    if ssl then connection.findSslEventsBySeqAndLen AgentStepT.sslOut egressMessage.seq
      egressMessage.byteSize
    else []
  let sslReadSyscallEvents :=
    if ssl then connection.findSslEventsBySeqAndLen AgentStepT.sslIn ingressMessage.seq
      ingressMessage.byteSize
    else []
  -- Without SSL the kernel sees the bytes of the messages themselves.
  let (egressKernSeq, egressKernLen) :=
    if ssl then getKernSeqAndLen sslWriteSyscallEvents
    else (egressMessage.seq, egressMessage.byteSize)
  let (ingressKernSeq, ingressKernLen) :=
    if ssl then getKernSeqAndLen sslReadSyscallEvents
    else (ingressMessage.seq, ingressMessage.byteSize)
  let nicIngressEvents := find AgentStepT.nicIn ingressKernSeq ingressKernLen
  { sslWriteSyscallEvents := sslWriteSyscallEvents
    sslReadSyscallEvents := sslReadSyscallEvents
    writeSyscallEvents := find AgentStepT.syscallOut egressKernSeq egressKernLen
    readSyscallEvents := find AgentStepT.syscallIn ingressKernSeq ingressKernLen
    devOutEvents :=
      if options.traceDevEvent then find AgentStepT.devOut egressKernSeq egressKernLen else []
    nicIngressEvents :=
      if options.traceDevEvent then
        if nicIngressEvents.length = 0 then find AgentStepT.devIn ingressKernSeq ingressKernLen
        else nicIngressEvents
      else []
    userCopyEvents :=
      if options.traceSocketEvent then find AgentStepT.userCopy ingressKernSeq ingressKernLen
      else []
    tcpInEvents :=
      if options.traceSocketEvent then find AgentStepT.tcpIn ingressKernSeq ingressKernLen else []
    egressMessage := egressMessage
    ingressMessage := ingressMessage }

/-! ## Durations -/

/-- A duration of type `float64`, by what it is computed from. -/
inductive Duration
  | constant (v : ℚ)
  /-- `float64(later) - float64(earlier)`. -/
  | floats (later earlier : ℤ)
  /-- `float64(later - earlier)`, of two `uint64`s. -/
  | words (later earlier : ℕ)
deriving DecidableEq

/-- What is computed, where a result is rounded to a number of type `float64` by `round`. -/
def Duration.value (round : ℚ → ℚ) : Duration → ℚ
  | .constant v => v
  | .floats later earlier => round (round later - round earlier)
  | .words later earlier => round (subU64 later earlier)

/-- `AnnotatedRecord`, as far as its times go. -/
structure Latencies where
  startTs : ℕ
  endTs : ℕ
  totalDuration : Duration
  blackBoxDuration : Duration
  readFromSocketBufferDuration : Duration
  copyToSocketBufferDuration : Duration
deriving DecidableEq

def maxUint64 : ℕ := 2 ^ 64 - 1

/-- `isKernEvtCanMatchSslEvt`. -/
def isKernEvtCanMatchSslEvt (events : List SslEvent) : Bool :=
  events.all fun each => each.kernLen ≠ 0

def canCalculateReadPathTime (ssl : Bool) (events : Events) : Bool :=
  !ssl || isKernEvtCanMatchSslEvt events.sslReadSyscallEvents

def canCalculateWritePathTime (ssl : Bool) (events : Events) : Bool :=
  !ssl || isKernEvtCanMatchSslEvt events.sslWriteSyscallEvents

def findMaxTimestamp (events : List KernEvent) (useStartTs : Bool) : ℕ :=
  events.foldl (fun t each => max t (if useStartTs then each.startTs else each.endTs)) 0

def findMinTimestamp (events : List KernEvent) (useStartTs : Bool) : ℕ :=
  events.foldl (fun t each => min t (if useStartTs then each.startTs else each.endTs)) maxUint64

/-- The copy to the socket buffer, on the path that has to be calculable. -/
def copyToSocketBuffer (canCalculate : Bool) (events : Events) : Duration :=
  match events.tcpInEvents.getLast?, events.nicIngressEvents.head?, canCalculate with
  | some tcpIn, some nicIn, true => .words tcpIn.startTs nicIn.startTs
  | _, _, _ => .constant 0

/-- The reading from the socket buffer where no socket events are traced, and what it was before. -/
def readWithoutSocketEvents (options : TraceOptions) (canCalculate : Bool) (events : Events)
    (before : Duration) : Duration :=
  match options.traceSocketEvent, events.nicIngressEvents.head?, canCalculate,
      events.readSyscallEvents.getLast? with
  | false, some nicIn, true, some read =>
      match nicIn.minIfTimestampAttr with
      | some nicInTimestamp => .words read.endTs (ofInt64 nicInTimestamp)
      | none => before
  | _, _, _, _ => before

/-- The server side of `ReceiveRecord`. -/
def receiveOnServer (options : TraceOptions) (ssl : Bool) (events : Events) : Latencies :=
  let canRead := canCalculateReadPathTime ssl events
  let canWrite := canCalculateWritePathTime ssl events
  let startTs :=
    match events.nicIngressEvents.head?, events.tcpInEvents.head?, events.userCopyEvents.head?,
        events.readSyscallEvents.head? with
    | some nicIn, _, _, _ =>
        (nicIn.minIfTimestampAttr.map fun t => min (ofInt64 t) maxUint64).getD maxUint64
    | none, some tcpIn, _, _ => min tcpIn.startTs maxUint64
    | none, none, some userCopy, _ => min userCopy.startTs maxUint64
    | none, none, none, some read => min read.startTs maxUint64
    | none, none, none, none => maxUint64
  let endTs :=
    match events.devOutEvents.getLast?, events.writeSyscallEvents.getLast? with
    | some devOut, _ => (devOut.maxIfTimestampAttr.map ofInt64).getD maxUint64
    | none, some write => write.endTs
    | none, none => maxUint64
  let totalDuration :=
    if startTs ≠ maxUint64 ∧ endTs ≠ maxUint64 ∧ (canRead && canWrite) = true then
      Duration.floats endTs startTs
    else .constant (-1)
  let blackBoxDuration :=
    match events.readSyscallEvents.head?, events.writeSyscallEvents.getLast?,
        canRead && canWrite with
    | some read, some write, true => Duration.floats write.endTs read.startTs
    | _, _, _ => .floats events.egressMessage.timestampNs events.ingressMessage.timestampNs
  let readFromSocketBufferDuration :=
    match events.userCopyEvents.getLast?, events.tcpInEvents.head?, canRead with
    | some userCopy, some tcpIn, true => Duration.floats userCopy.startTs tcpIn.startTs
    | _, _, _ => .constant (-1)
  { startTs := startTs, endTs := endTs
    totalDuration := if !options.traceDevEvent then blackBoxDuration else totalDuration
    blackBoxDuration := blackBoxDuration
    readFromSocketBufferDuration :=
      readWithoutSocketEvents options canRead events readFromSocketBufferDuration
    copyToSocketBufferDuration := copyToSocketBuffer canWrite events }

/-- The client side of `ReceiveRecord`. -/
def receiveOnClient (options : TraceOptions) (ssl : Bool) (events : Events) : Latencies :=
  let canRead := canCalculateReadPathTime ssl events
  let canWrite := canCalculateWritePathTime ssl events
  let hasRead := events.readSyscallEvents.length > 0
  let hasWrite := events.writeSyscallEvents.length > 0
  let startTs :=
    if hasWrite ∧ canWrite = true then findMinTimestamp events.writeSyscallEvents true
    else events.egressMessage.timestampNs
  let endTs :=
    if hasRead ∧ canRead = true then findMaxTimestamp events.readSyscallEvents false
    else events.ingressMessage.timestampNs
  let nicIngressTimestamp := events.nicIngressEvents.foldl
    (fun t each => (each.minIfTimestampAttr.map (max t)).getD t) 0
  let nicEgressTimestamp := events.devOutEvents.foldl
    (fun t each => (each.maxIfTimestampAttr.map (min t)).getD t) KernEvent.maxInt64
  { startTs := startTs, endTs := endTs
    totalDuration :=
      if hasRead ∧ hasWrite ∧ (canRead && canWrite) = true then .floats endTs startTs
      else .floats events.ingressMessage.timestampNs events.egressMessage.timestampNs
    blackBoxDuration :=
      if events.nicIngressEvents.length > 0 ∧ events.devOutEvents.length > 0
          ∧ (canRead && canWrite) = true then
        if nicIngressTimestamp ≠ 0 then
          if nicEgressTimestamp ≠ KernEvent.maxInt64 then
            .floats nicIngressTimestamp nicEgressTimestamp
          else .constant (-1)
        else .constant (-1)
      else .constant (-1)
    readFromSocketBufferDuration :=
      readWithoutSocketEvents options canRead events
        (match events.userCopyEvents.getLast?, events.readSyscallEvents.getLast?,
            events.tcpInEvents.head?, canRead with
        | some userCopy, _, some tcpIn, true => .floats userCopy.startTs tcpIn.startTs
        | none, some read, some tcpIn, true => .floats read.endTs tcpIn.startTs
        | _, _, _, _ => .constant (-1))
    copyToSocketBufferDuration := copyToSocketBuffer canRead events }

/-- `ReceiveRecord`, up to the times of the record. -/
def receiveRecord (options : TraceOptions) (r : Record) (connection : Connection) : Latencies :=
  let events := prepareEvents options r connection
  if connection.isServerSide then receiveOnServer options connection.isSsl events
  else receiveOnClient options connection.isSsl events

/-! ## True differences -/

/-- The two times of a duration that is a difference. -/
def Duration.operands : Duration → Option (ℤ × ℤ)
  | .constant _ => none
  | .floats later earlier => some (later, earlier)
  | .words later earlier => some (later, earlier)

/-- A duration that is set to something else than its initial value or `-1` is the difference of its
times. -/
def Duration.TrueDifference (round : ℚ → ℚ) (initial : ℚ) (d : Duration) : Prop :=
  ∀ times ∈ d.operands, d.value round = initial ∨ d.value round = -1
    ∨ d.value round = times.1 - times.2

/-- All durations of a record are true differences. -/
structure Latencies.TrueDifferences (round : ℚ → ℚ) (l : Latencies) : Prop where
  totalDuration : l.totalDuration.TrueDifference round (-1)
  blackBoxDuration : l.blackBoxDuration.TrueDifference round (-1)
  readFromSocketBufferDuration : l.readFromSocketBufferDuration.TrueDifference round (-1)
  copyToSocketBufferDuration : l.copyToSocketBufferDuration.TrueDifference round 0

def Latencies.durations (l : Latencies) : List Duration :=
  [l.totalDuration, l.blackBoxDuration, l.readFromSocketBufferDuration,
    l.copyToSocketBufferDuration]

/-- The times of an event are below `2 ^ 63`. -/
structure WellTimed (e : KernEvent) : Prop where
  endTs_lt : e.startTs + e.tsDelta < 2 ^ 63
  ifTimestamps_nonneg : ∀ t ∈ e.ifTimestamps, 0 ≤ t

/-- The times of the two formulas that subtract words are in order: what came to the socket last did
not come before the first event of the network interface, and neither was it read before that. -/
structure InOrder (options : TraceOptions) (isServerSide ssl : Bool) (events : Events) : Prop where
  copyToSocketBuffer :
    (if isServerSide then canCalculateWritePathTime ssl events
      else canCalculateReadPathTime ssl events) = true →
    ∀ tcpIn ∈ events.tcpInEvents.getLast?, ∀ nicIn ∈ events.nicIngressEvents.head?,
      nicIn.startTs ≤ tcpIn.startTs
  readFromSocketBuffer :
    options.traceSocketEvent = false → canCalculateReadPathTime ssl events = true →
    ∀ read ∈ events.readSyscallEvents.getLast?, ∀ nicIn ∈ events.nicIngressEvents.head?,
      ∀ t ∈ nicIn.minIfTimestampAttr, t ≤ read.endTs

/-- Rounding leaves the difference as it is. -/
def Duration.Unrounded (round : ℚ → ℚ) : Duration → Prop
  | .constant _ => True
  | .floats later earlier =>
      round (round later - round earlier) = -1
        ∨ round (round later - round earlier) = later - earlier
  | .words later earlier => earlier ≤ later → round ((later - earlier : ℕ) : ℚ) = (later - earlier : ℕ)

/-! ## One duration -/

/-- Rounding keeps zero and what is above it. -/
structure KeepsSign (round : ℚ → ℚ) : Prop where
  zero : round 0 = 0
  pos : ∀ q, 0 < q → 0 < round q

theorem keepsSign_id : KeepsSign id := ⟨rfl, fun _ h => h⟩

theorem keepsSign_float64 : KeepsSign float64 := ⟨if_pos rfl, fun _ => float64_pos⟩

/-- Words that are in order have their difference, and others one from the top. -/
theorem subU64_cases {a b : ℕ} (ha : a < 2 ^ 64) (hb : b < 2 ^ 64) :
    b ≤ a ∧ subU64 a b = a - b ∨ a < b ∧ 0 < subU64 a b := by
  rcases Nat.lt_or_ge a b with hlt | hle
  · refine Or.inr ⟨hlt, ?_⟩
    rw [subU64, Nat.mod_eq_of_lt (by omega)]
    omega
  · exact Or.inl ⟨hle, subU64_of_le hle ha⟩

section Durations

variable {round : ℚ → ℚ}

theorem trueDifference_constant (initial v : ℚ) :
    (Duration.constant v).TrueDifference round initial := by
  rintro times ⟨⟩

/-- A difference of `float64`s is wrong only where it is rounded. -/
theorem trueDifference_floats (later earlier : ℤ) :
    (Duration.floats later earlier).TrueDifference round (-1)
      ↔ (Duration.floats later earlier).Unrounded round := by
  unfold Duration.TrueDifference Duration.operands Duration.Unrounded Duration.value
  simp only [Option.mem_some_iff, forall_eq', or_self_left]

/-- A difference of words is wrong just if they are out of order, or it is rounded. -/
theorem trueDifference_words (hround : KeepsSign round) {initial : ℚ} (hinitial : initial ≤ 0)
    {later earlier : ℕ} (hlater : later < 2 ^ 64) (hearlier : earlier < 2 ^ 64) :
    (Duration.words later earlier).TrueDifference round initial
      ↔ earlier ≤ later ∧ (Duration.words later earlier).Unrounded round := by
  unfold Duration.TrueDifference Duration.operands Duration.Unrounded Duration.value
  simp only [Option.mem_some_iff, forall_eq']
  rcases subU64_cases hlater hearlier with ⟨hle, hsub⟩ | ⟨hlt, hpos⟩
  · have hcast : ((later : ℤ) : ℚ) - ((earlier : ℤ) : ℚ) = ((later - earlier : ℕ) : ℚ) := by
      push_cast [Nat.cast_sub hle]
      rfl
    rw [hsub, hcast]
    refine ⟨fun h => ⟨hle, fun _ => ?_⟩, fun h => Or.inr (Or.inr (h.2 hle))⟩
    -- A result that is not positive is that of equal times.
    rcases Nat.eq_zero_or_pos (later - earlier) with hzero | hdiff
    · rw [hzero, Nat.cast_zero]
      exact hround.zero
    · have hvalue := hround.pos ((later - earlier : ℕ) : ℚ) (by exact_mod_cast hdiff)
      obtain h | h | h := h
      · linarith
      · linarith
      · exact h
  · -- The wrapped difference is positive, and the true one is not.
    have hvalue := hround.pos (subU64 later earlier : ℚ) (by exact_mod_cast hpos)
    have hneg : ((later : ℤ) : ℚ) - ((earlier : ℤ) : ℚ) < 0 := by
      have hlt' : (later : ℚ) < earlier := by exact_mod_cast hlt
      push_cast
      linarith
    refine iff_of_false ?_ (fun h => absurd h.1 (Nat.not_le_of_lt hlt))
    rintro (h | h | h) <;> linarith

end Durations

/-! ## The times of the found events -/

section Times

variable {e : KernEvent}

theorem WellTimed.startTs_lt (h : WellTimed e) : e.startTs < 2 ^ 64 := by
  have hend := h.endTs_lt
  omega

theorem endTs_lt (e : KernEvent) : e.endTs < 2 ^ 64 := Nat.mod_lt _ (by decide)

theorem foldl_min_nonneg {ts : List ℤ} {t : ℤ} (ht : 0 ≤ t) (h : ∀ t ∈ ts, 0 ≤ t) :
    0 ≤ ts.foldl min t := by
  induction ts generalizing t with
  | nil => exact ht
  | cons t' ts ih =>
      obtain ⟨ht', hts⟩ := List.forall_mem_cons.mp h
      exact ih (le_min ht ht') hts

/-- The smallest time of an interface as a word. -/
theorem WellTimed.minIfTimestampAttr (h : WellTimed e) {t : ℤ} (ht : e.minIfTimestampAttr = some t) :
    (ofInt64 t : ℤ) = t ∧ ofInt64 t < 2 ^ 64 := by
  unfold KernEvent.minIfTimestampAttr at ht
  dsimp only at ht
  split_ifs at ht with hlt
  obtain rfl := Option.some.inj ht
  have hnonneg := foldl_min_nonneg (show 0 ≤ KernEvent.maxInt64 by decide) h.ifTimestamps_nonneg
  rw [ofInt64_of_nonneg hnonneg]
  unfold KernEvent.maxInt64 at hlt hnonneg ⊢
  omega

end Times

/-- What holds of all kernel events of a record. -/
structure Events.All (p : KernEvent → Prop) (events : Events) : Prop where
  writeSyscallEvents : ∀ e ∈ events.writeSyscallEvents, p e
  readSyscallEvents : ∀ e ∈ events.readSyscallEvents, p e
  devOutEvents : ∀ e ∈ events.devOutEvents, p e
  nicIngressEvents : ∀ e ∈ events.nicIngressEvents, p e
  userCopyEvents : ∀ e ∈ events.userCopyEvents, p e
  tcpInEvents : ∀ e ∈ events.tcpInEvents, p e

/-- All events of a record are found events. -/
theorem prepareEvents_all {p : KernEvent → Prop} (options : TraceOptions) (r : Record)
    {connection : Connection}
    (h : ∀ step seq len, ∀ e ∈ connection.findEventsBySeqAndLen step seq len, p e) :
    (prepareEvents options r connection).All p := by
  have hite : ∀ (c : Prop) [Decidable c] (l l' : List KernEvent), (∀ e ∈ l, p e) →
      (∀ e ∈ l', p e) → ∀ e ∈ if c then l else l', p e := by
    intro c _ l l' hl hl'
    split_ifs
    · exact hl
    · exact hl'
  have hnil : ∀ e ∈ ([] : List KernEvent), p e := by
    simp
  exact ⟨h _ _ _, h _ _ _, hite _ _ _ (h _ _ _) hnil,
    hite _ _ _ (hite _ _ _ (h _ _ _) (h _ _ _)) hnil, hite _ _ _ (h _ _ _) hnil,
    hite _ _ _ (h _ _ _) hnil⟩

/-! ## The formulas -/

section Formulas

variable {round : ℚ → ℚ} {options : TraceOptions} {ssl : Bool} {events : Events}

/-- The formula of the copy to the socket buffer. -/
theorem copyToSocketBuffer_true_iff (hround : KeepsSign round) (canCalculate : Bool)
    (htcpIn : ∀ e ∈ events.tcpInEvents, WellTimed e)
    (hnicIn : ∀ e ∈ events.nicIngressEvents, WellTimed e) :
    (copyToSocketBuffer canCalculate events).TrueDifference round 0
      ↔ (canCalculate = true → ∀ tcpIn ∈ events.tcpInEvents.getLast?,
          ∀ nicIn ∈ events.nicIngressEvents.head?, nicIn.startTs ≤ tcpIn.startTs)
        ∧ (copyToSocketBuffer canCalculate events).Unrounded round := by
  unfold copyToSocketBuffer
  rcases hlast : events.tcpInEvents.getLast? with _ | tcpIn
  · exact iff_of_true (trueDifference_constant _ _) ⟨by simp, trivial⟩
  rcases hhead : events.nicIngressEvents.head? with _ | nicIn
  · exact iff_of_true (trueDifference_constant _ _) ⟨by simp, trivial⟩
  cases canCalculate with
  | false => exact iff_of_true (trueDifference_constant _ _) ⟨by simp, trivial⟩
  | true =>
      have htimes := trueDifference_words hround (le_refl 0)
        (htcpIn tcpIn (List.mem_of_getLast? hlast)).startTs_lt
        (hnicIn nicIn (List.mem_of_head? hhead)).startTs_lt
      simpa using htimes

/-- The formula of the reading from the socket buffer, where it was no difference of words before. -/
theorem readWithoutSocketEvents_true_iff (options : TraceOptions) (hround : KeepsSign round)
    (canCalculate : Bool)
    (hnicIn : ∀ e ∈ events.nicIngressEvents, WellTimed e) {before : Duration}
    (hbefore : before.TrueDifference round (-1) ↔ before.Unrounded round) :
    (readWithoutSocketEvents options canCalculate events before).TrueDifference round (-1)
      ↔ (options.traceSocketEvent = false → canCalculate = true →
          ∀ read ∈ events.readSyscallEvents.getLast?, ∀ nicIn ∈ events.nicIngressEvents.head?,
          ∀ t ∈ nicIn.minIfTimestampAttr, t ≤ read.endTs)
        ∧ (readWithoutSocketEvents options canCalculate events before).Unrounded round := by
  unfold readWithoutSocketEvents
  rcases htrace : options.traceSocketEvent with _ | _
  · rcases hhead : events.nicIngressEvents.head? with _ | nicIn
    · simpa using hbefore
    cases canCalculate with
    | false => simpa using hbefore
    | true =>
        rcases hlast : events.readSyscallEvents.getLast? with _ | read
        · simpa using hbefore
        rcases hmin : nicIn.minIfTimestampAttr with _ | t
        · simpa [hmin] using hbefore
        · have hnicIn' := hnicIn nicIn (List.mem_of_head? hhead)
          obtain ⟨hcast, hlt⟩ := hnicIn'.minIfTimestampAttr hmin
          have htimes := trueDifference_words hround (by norm_num : (-1 : ℚ) ≤ 0)
            (endTs_lt read) hlt
          have horder : ofInt64 t ≤ read.endTs ↔ t ≤ read.endTs := by omega
          rw [horder] at htimes
          simpa [hmin] using htimes
  · simpa using hbefore

theorem Latencies.forall_durations {p : Duration → Prop} {l : Latencies} : (∀ d ∈ l.durations, p d)
    ↔ p l.totalDuration ∧ p l.blackBoxDuration ∧ p l.readFromSocketBufferDuration
      ∧ p l.copyToSocketBufferDuration := by
  simp [Latencies.durations]

/-- What is a constant or a difference of `float64`s. -/
def Duration.NoWords : Duration → Prop
  | .words _ _ => False
  | _ => True

theorem Duration.NoWords.true_iff {d : Duration} (h : d.NoWords) :
    d.TrueDifference round (-1) ↔ d.Unrounded round := by
  cases d with
  | constant v => exact iff_of_true (trueDifference_constant _ _) trivial
  | floats later earlier => exact trueDifference_floats later earlier
  | words later earlier => exact absurd h id

/-- The formulas of a side: which path the copy is on, and where there are differences of words. -/
structure HasFormulas (options : TraceOptions) (canRead canCopy : Bool) (events : Events)
    (l : Latencies) : Prop where
  totalDuration : l.totalDuration.NoWords
  blackBoxDuration : l.blackBoxDuration.NoWords
  readFromSocketBufferDuration : ∃ before : Duration, before.NoWords
    ∧ l.readFromSocketBufferDuration = readWithoutSocketEvents options canRead events before
  copyToSocketBufferDuration : l.copyToSocketBufferDuration = copyToSocketBuffer canCopy events

theorem noWords_ite {c : Prop} [Decidable c] {d d' : Duration} (h : d.NoWords) (h' : d'.NoWords) :
    (if c then d else d').NoWords := by
  split_ifs
  · exact h
  · exact h'

theorem receiveOnServer_formulas (options : TraceOptions) (ssl : Bool) (events : Events) :
    HasFormulas options (canCalculateReadPathTime ssl events)
      (canCalculateWritePathTime ssl events) events (receiveOnServer options ssl events) := by
  have hblackBox : (receiveOnServer options ssl events).blackBoxDuration.NoWords := by
    unfold receiveOnServer
    dsimp only
    split <;> trivial
  refine ⟨?_, hblackBox, ⟨_, ?_, rfl⟩, rfl⟩
  · exact noWords_ite hblackBox (noWords_ite trivial trivial)
  · split <;> trivial

theorem receiveOnClient_formulas (options : TraceOptions) (ssl : Bool) (events : Events) :
    HasFormulas options (canCalculateReadPathTime ssl events)
      (canCalculateReadPathTime ssl events) events (receiveOnClient options ssl events) := by
  refine ⟨noWords_ite trivial trivial, ?_, ⟨_, ?_, rfl⟩, rfl⟩
  · exact noWords_ite (noWords_ite (noWords_ite trivial trivial) trivial) trivial
  · split <;> trivial

theorem HasFormulas.true_iff {isServerSide : Bool} {l : Latencies}
    (h : HasFormulas options (canCalculateReadPathTime ssl events)
      (if isServerSide then canCalculateWritePathTime ssl events
        else canCalculateReadPathTime ssl events) events l)
    (hround : KeepsSign round) (htcpIn : ∀ e ∈ events.tcpInEvents, WellTimed e)
    (hnicIn : ∀ e ∈ events.nicIngressEvents, WellTimed e) :
    l.TrueDifferences round
      ↔ InOrder options isServerSide ssl events ∧ ∀ d ∈ l.durations, d.Unrounded round := by
  obtain ⟨before, hbefore, hread⟩ := h.readFromSocketBufferDuration
  have htotal : l.totalDuration.TrueDifference round (-1) ↔ _ := h.totalDuration.true_iff
  have hblackBox : l.blackBoxDuration.TrueDifference round (-1) ↔ _ := h.blackBoxDuration.true_iff
  have hread' := readWithoutSocketEvents_true_iff options hround
    (canCalculateReadPathTime ssl events) hnicIn hbefore.true_iff
  have hcopy := copyToSocketBuffer_true_iff hround
    (if isServerSide then canCalculateWritePathTime ssl events
      else canCalculateReadPathTime ssl events) htcpIn hnicIn
  rw [← hread] at hread'
  rw [← h.copyToSocketBufferDuration] at hcopy
  rw [Latencies.forall_durations]
  constructor
  · intro htrue
    obtain ⟨hreadOrder, hreadKept⟩ := hread'.mp htrue.readFromSocketBufferDuration
    obtain ⟨hcopyOrder, hcopyKept⟩ := hcopy.mp htrue.copyToSocketBufferDuration
    exact ⟨⟨hcopyOrder, hreadOrder⟩, htotal.mp htrue.totalDuration,
      hblackBox.mp htrue.blackBoxDuration, hreadKept, hcopyKept⟩
  · rintro ⟨horder, hkeptTotal, hkeptBlackBox, hkeptRead, hkeptCopy⟩
    exact ⟨htotal.mpr hkeptTotal, hblackBox.mpr hkeptBlackBox,
      hread'.mpr ⟨horder.readFromSocketBuffer, hkeptRead⟩,
      hcopy.mpr ⟨horder.copyToSocketBuffer, hkeptCopy⟩⟩

/-- Exact arithmetic rounds nothing. -/
theorem unrounded_id (d : Duration) : d.Unrounded id := by
  cases d with
  | constant v => trivial
  | floats later earlier => exact Or.inr rfl
  | words later earlier => exact fun _ => rfl

end Formulas

/-! ## Short times -/

/-- A time below `2 ^ 53`, about a hundred days, which a `float64` holds. -/
def IsShort (t : ℤ) : Prop := 0 ≤ t ∧ t < 2 ^ 53

theorem isShort_natCast {t : ℕ} : IsShort t ↔ t < 2 ^ 53 := by
  unfold IsShort
  omega

theorem IsShort.min {t t' : ℤ} (h : IsShort t) (h' : IsShort t') : IsShort (min t t') := by
  rcases min_choice t t' with hmin | hmin <;> rwa [hmin]

theorem IsShort.max {t t' : ℤ} (h : IsShort t) (h' : IsShort t') : IsShort (max t t') := by
  rcases max_choice t t' with hmax | hmax <;> rwa [hmax]

/-- The times of a duration are short. -/
def Duration.Short (d : Duration) : Prop := ∀ times ∈ d.operands, IsShort times.1 ∧ IsShort times.2

/-- Short times are `float64`s, and so are their differences. -/
theorem Duration.Short.unrounded {d : Duration} (h : d.Short) : d.Unrounded float64 := by
  cases d with
  | constant v => trivial
  | floats later earlier =>
      obtain ⟨⟨hlater, hlater'⟩, hearlier, hearlier'⟩ := h _ rfl
      have hdiff := @float64_intCast (later - earlier) (by rw [abs_lt]; omega)
      have hl := @float64_intCast later (by rw [abs_lt]; omega)
      have he := @float64_intCast earlier (by rw [abs_lt]; omega)
      refine Or.inr ?_
      rw [hl, he]
      push_cast at hdiff
      exact hdiff
  | words later earlier =>
      obtain ⟨⟨-, hlater⟩, -⟩ := h _ rfl
      intro hle
      exact float64_natCast (by omega)

theorem short_constant (v : ℚ) : (Duration.constant v).Short := by
  rintro times ⟨⟩

theorem short_floats {later earlier : ℤ} (h : IsShort later) (h' : IsShort earlier) :
    (Duration.floats later earlier).Short := by
  rintro times ⟨⟩
  exact ⟨h, h'⟩

theorem short_words {later earlier : ℕ} (h : IsShort later) (h' : IsShort earlier) :
    (Duration.words later earlier).Short := by
  rintro times ⟨⟩
  exact ⟨h, h'⟩

/-- All times of an event are short. -/
structure ShortTimed (e : KernEvent) : Prop where
  endTs_lt : e.startTs + e.tsDelta < 2 ^ 53
  ifTimestamps : ∀ t ∈ e.ifTimestamps, IsShort t

section ShortEvents

variable {e : KernEvent}

theorem ShortTimed.wellTimed (h : ShortTimed e) : WellTimed e :=
  ⟨h.endTs_lt.trans (by decide), fun t ht => (h.ifTimestamps t ht).1⟩

theorem ShortTimed.startTs (h : ShortTimed e) : IsShort e.startTs := by
  have hend := h.endTs_lt
  exact isShort_natCast.mpr (by omega)

theorem ShortTimed.endTs (h : ShortTimed e) : IsShort e.endTs := by
  have hend := h.endTs_lt
  rw [KernEvent.endTs, u64_of_lt (by omega)]
  exact isShort_natCast.mpr hend

/-- The times of the interfaces start from a bound that no event has. -/
theorem ShortTimed.minIfTimestampAttr (h : ShortTimed e) {t : ℤ}
    (ht : e.minIfTimestampAttr = some t) : IsShort t := by
  have hfold : e.ifTimestamps.foldl min KernEvent.maxInt64 = KernEvent.maxInt64
      ∨ IsShort (e.ifTimestamps.foldl min KernEvent.maxInt64) := by
    refine List.foldlRecOn (motive := fun t => t = KernEvent.maxInt64 ∨ IsShort t) _ _
      (Or.inl rfl) ?_
    intro m hm t' ht'
    have hshort := h.ifTimestamps t' ht'
    rcases hm with rfl | hm
    · rw [min_eq_right (hshort.2.le.trans (by decide))]
      exact Or.inr hshort
    · exact Or.inr (hm.min hshort)
  unfold KernEvent.minIfTimestampAttr at ht
  dsimp only at ht
  split_ifs at ht with hlt
  obtain rfl := Option.some.inj ht
  exact hfold.resolve_left hlt.ne

theorem ShortTimed.maxIfTimestampAttr (h : ShortTimed e) {t : ℤ}
    (ht : e.maxIfTimestampAttr = some t) : IsShort t := by
  have hfold : IsShort (e.ifTimestamps.foldl max 0) :=
    List.foldlRecOn (motive := IsShort) _ _ ⟨le_rfl, by decide⟩
      (fun m hm t' ht' => hm.max (h.ifTimestamps t' ht'))
  unfold KernEvent.maxIfTimestampAttr at ht
  dsimp only at ht
  split_ifs at ht
  obtain rfl := Option.some.inj ht
  exact hfold

theorem IsShort.ofInt64 {t : ℤ} (h : IsShort t) : IsShort (GoNum.ofInt64 t : ℕ) := by
  rw [ofInt64_of_nonneg h.1, Int.toNat_of_nonneg h.1]
  exact h

end ShortEvents

/-! ### The durations of short times -/

/-- All times that durations are made of are short. -/
structure Events.Short (events : Events) : Prop where
  all : events.All ShortTimed
  egressMessage : IsShort events.egressMessage.timestampNs
  ingressMessage : IsShort events.ingressMessage.timestampNs

theorem prepareEvents_short (options : TraceOptions) {r : Record} {connection : Connection}
    (hfound : ∀ step seq len, ∀ e ∈ connection.findEventsBySeqAndLen step seq len, ShortTimed e)
    (hrequest : r.request.timestampNs < 2 ^ 53) (hresponse : r.response.timestampNs < 2 ^ 53) :
    (prepareEvents options r connection).Short := by
  have hside : ∀ direct,
      IsShort (getParsedMessageBySide r connection.isServerSide direct).timestampNs := by
    intro direct
    rw [isShort_natCast, getParsedMessageBySide]
    split_ifs <;> assumption
  exact ⟨prepareEvents_all options r hfound, hside _, hside _⟩

section ShortDurations

variable {options : TraceOptions} {ssl : Bool} {events : Events}

theorem copyToSocketBuffer_short (h : events.All ShortTimed) (canCalculate : Bool) :
    (copyToSocketBuffer canCalculate events).Short := by
  unfold copyToSocketBuffer
  split
  · next tcpIn nicIn htcpIn hnicIn =>
      exact short_words (h.tcpInEvents tcpIn (List.mem_of_getLast? htcpIn)).startTs
        (h.nicIngressEvents nicIn (List.mem_of_head? hnicIn)).startTs
  · exact short_constant 0

theorem readWithoutSocketEvents_short (h : events.All ShortTimed) (canCalculate : Bool)
    {before : Duration} (hbefore : before.Short) :
    (readWithoutSocketEvents options canCalculate events before).Short := by
  unfold readWithoutSocketEvents
  split
  · next nicIn read _ hnicIn hread =>
      split
      · next t ht =>
          exact short_words (h.readSyscallEvents read (List.mem_of_getLast? hread)).endTs
            ((h.nicIngressEvents nicIn (List.mem_of_head? hnicIn)).minIfTimestampAttr ht).ofInt64
      · exact hbefore
  · exact hbefore

/-- A start or an end that was found is short; what was not is the largest word. -/
def FoundShort (t : ℕ) : Prop := t ≠ maxUint64 → IsShort t

theorem foundShort_none : FoundShort maxUint64 := fun h => absurd rfl h

theorem IsShort.foundShort {t : ℕ} (h : IsShort t) : FoundShort t := fun _ => h

theorem foundShort_min {t : ℕ} (h : IsShort t) : FoundShort (min t maxUint64) := by
  have hle : t ≤ maxUint64 := (isShort_natCast.mp h).le.trans (by decide)
  rw [min_eq_left hle]
  exact h.foundShort

theorem receiveOnServer_short (h : events.Short) :
    ∀ d ∈ (receiveOnServer options ssl events).durations, d.Short := by
  have hstart : FoundShort (receiveOnServer options ssl events).startTs := by
    unfold receiveOnServer
    dsimp only
    split
    · next nicIn hnicIn =>
        rcases ht : nicIn.minIfTimestampAttr with _ | t
        · exact foundShort_none
        · exact foundShort_min ((h.all.nicIngressEvents nicIn
            (List.mem_of_head? hnicIn)).minIfTimestampAttr ht).ofInt64
    · next tcpIn _ htcpIn =>
        exact foundShort_min (h.all.tcpInEvents tcpIn (List.mem_of_head? htcpIn)).startTs
    · next userCopy _ _ huserCopy =>
        exact foundShort_min (h.all.userCopyEvents userCopy (List.mem_of_head? huserCopy)).startTs
    · next read _ _ _ hread =>
        exact foundShort_min (h.all.readSyscallEvents read (List.mem_of_head? hread)).startTs
    · exact foundShort_none
  have hend : FoundShort (receiveOnServer options ssl events).endTs := by
    unfold receiveOnServer
    dsimp only
    split
    · next devOut hdevOut =>
        rcases ht : devOut.maxIfTimestampAttr with _ | t
        · exact foundShort_none
        · exact ((h.all.devOutEvents devOut
            (List.mem_of_getLast? hdevOut)).maxIfTimestampAttr ht).ofInt64.foundShort
    · next write _ hwrite =>
        exact (h.all.writeSyscallEvents write (List.mem_of_getLast? hwrite)).endTs.foundShort
    · exact foundShort_none
  have hblackBox : (receiveOnServer options ssl events).blackBoxDuration.Short := by
    unfold receiveOnServer
    dsimp only
    split
    · next read write hread hwrite _ =>
        exact short_floats (h.all.writeSyscallEvents write (List.mem_of_getLast? hwrite)).endTs
          (h.all.readSyscallEvents read (List.mem_of_head? hread)).startTs
    · exact short_floats h.egressMessage h.ingressMessage
  have htotal : (receiveOnServer options ssl events).totalDuration.Short := by
    change (if !options.traceDevEvent then _ else
      if _ then Duration.floats (receiveOnServer options ssl events).endTs
        (receiveOnServer options ssl events).startTs else _).Short
    split_ifs with hdev hfound
    · exact hblackBox
    · exact short_floats (hend hfound.2.1) (hstart hfound.1)
    · exact short_constant _
  have hread : (receiveOnServer options ssl events).readFromSocketBufferDuration.Short := by
    refine readWithoutSocketEvents_short h.all _ ?_
    split
    · next userCopy tcpIn huserCopy htcpIn _ =>
        exact short_floats
          (h.all.userCopyEvents userCopy (List.mem_of_getLast? huserCopy)).startTs
          (h.all.tcpInEvents tcpIn (List.mem_of_head? htcpIn)).startTs
    · exact short_constant _
  have hcopy : (receiveOnServer options ssl events).copyToSocketBufferDuration.Short :=
    copyToSocketBuffer_short h.all _
  exact Latencies.forall_durations.mpr ⟨htotal, hblackBox, hread, hcopy⟩

/-- The time of an event that a search looks at. -/
theorem ShortTimed.searched {e : KernEvent} (h : ShortTimed e) (useStartTs : Bool) :
    (if useStartTs then e.startTs else e.endTs) < 2 ^ 53 := by
  split_ifs
  · exact isShort_natCast.mp h.startTs
  · exact isShort_natCast.mp h.endTs

theorem findMaxTimestamp_short {found : List KernEvent} (h : ∀ e ∈ found, ShortTimed e)
    (useStartTs : Bool) : IsShort (findMaxTimestamp found useStartTs) := by
  refine isShort_natCast.mpr ?_
  refine List.foldlRecOn (motive := fun t => t < 2 ^ 53) _ _ (by decide) ?_
  intro t ht e he
  exact max_lt ht ((h e he).searched useStartTs)

/-- The first event brings the search below the bound that it starts from. -/
theorem findMinTimestamp_short {found : List KernEvent} (h : ∀ e ∈ found, ShortTimed e)
    (hsome : found.length > 0) (useStartTs : Bool) :
    IsShort (findMinTimestamp found useStartTs) := by
  refine isShort_natCast.mpr ?_
  cases found with
  | nil => cases hsome
  | cons first rest =>
      refine List.foldlRecOn (motive := fun t => t < 2 ^ 53) rest _
        (min_lt_of_right_lt ((h first List.mem_cons_self).searched useStartTs)) ?_
      intro t ht e he
      exact min_lt_of_left_lt ht

theorem nicIngressTimestamp_short {found : List KernEvent} (h : ∀ e ∈ found, ShortTimed e) :
    IsShort (found.foldl (fun t each => (each.minIfTimestampAttr.map (max t)).getD t) 0) := by
  refine List.foldlRecOn (motive := IsShort) _ _ ⟨le_rfl, by decide⟩ ?_
  intro t ht each heach
  rcases hmin : each.minIfTimestampAttr with _ | t'
  · exact ht
  · exact ht.max ((h each heach).minIfTimestampAttr hmin)

theorem nicEgressTimestamp_short {found : List KernEvent} (h : ∀ e ∈ found, ShortTimed e)
    (hsome : found.foldl (fun t each => (each.maxIfTimestampAttr.map (min t)).getD t)
      KernEvent.maxInt64 ≠ KernEvent.maxInt64) :
    IsShort (found.foldl (fun t each => (each.maxIfTimestampAttr.map (min t)).getD t)
      KernEvent.maxInt64) := by
  revert hsome
  refine List.foldlRecOn (motive := fun t => t ≠ KernEvent.maxInt64 → IsShort t) _ _
    (fun hne => absurd rfl hne) ?_
  intro t ht each heach
  rcases hmax : each.maxIfTimestampAttr with _ | t'
  · exact ht
  · intro _
    have ht' := (h each heach).maxIfTimestampAttr hmax
    by_cases hnone : t = KernEvent.maxInt64
    · rw [Option.map_some, Option.getD_some, hnone, min_eq_right (ht'.2.le.trans (by decide))]
      exact ht'
    · exact (ht hnone).min ht'

theorem receiveOnClient_short (h : events.Short) :
    ∀ d ∈ (receiveOnClient options ssl events).durations, d.Short := by
  have hstart : IsShort (receiveOnClient options ssl events).startTs := by
    unfold receiveOnClient
    dsimp only
    split_ifs with hwrite
    · exact findMinTimestamp_short h.all.writeSyscallEvents hwrite.1 true
    · exact h.egressMessage
  have hend : IsShort (receiveOnClient options ssl events).endTs := by
    unfold receiveOnClient
    dsimp only
    split_ifs
    · exact findMaxTimestamp_short h.all.readSyscallEvents false
    · exact h.ingressMessage
  have htotal : (receiveOnClient options ssl events).totalDuration.Short := by
    change (if _ then Duration.floats (receiveOnClient options ssl events).endTs
      (receiveOnClient options ssl events).startTs else _).Short
    split_ifs
    · exact short_floats hend hstart
    · exact short_floats h.ingressMessage h.egressMessage
  have hblackBox : (receiveOnClient options ssl events).blackBoxDuration.Short := by
    unfold receiveOnClient
    dsimp only
    split_ifs with hevents hin hout
    · exact short_floats (nicIngressTimestamp_short h.all.nicIngressEvents)
        (nicEgressTimestamp_short h.all.devOutEvents hout)
    · exact short_constant _
    · exact short_constant _
    · exact short_constant _
  have hread : (receiveOnClient options ssl events).readFromSocketBufferDuration.Short := by
    refine readWithoutSocketEvents_short h.all _ ?_
    split
    · next userCopy tcpIn huserCopy htcpIn _ =>
        exact short_floats
          (h.all.userCopyEvents userCopy (List.mem_of_getLast? huserCopy)).startTs
          (h.all.tcpInEvents tcpIn (List.mem_of_head? htcpIn)).startTs
    · next read tcpIn _ hread htcpIn _ =>
        exact short_floats
          (h.all.readSyscallEvents read (List.mem_of_getLast? hread)).endTs
          (h.all.tcpInEvents tcpIn (List.mem_of_head? htcpIn)).startTs
    · exact short_constant _
  have hcopy : (receiveOnClient options ssl events).copyToSocketBufferDuration.Short :=
    copyToSocketBuffer_short h.all _
  exact Latencies.forall_durations.mpr ⟨htotal, hblackBox, hread, hcopy⟩

end ShortDurations

theorem receiveRecord_short (options : TraceOptions) {r : Record} {connection : Connection}
    (h : (prepareEvents options r connection).Short) :
    ∀ d ∈ (receiveRecord options r connection).durations, d.Short := by
  unfold receiveRecord
  dsimp only
  split_ifs
  · exact receiveOnServer_short h
  · exact receiveOnClient_short h

/-- **The durations are true differences** just if the times that are subtracted as words are in order
and no difference is rounded. For every record, side, SSL state and trace options, and whatever events
are found, with times below `2 ^ 63`: in exact arithmetic the order alone decides. Where results are
rounded to `float64` it is decisive too whether the differences are kept, which they all are where the
times are below `2 ^ 53`. -/
theorem latencies_true_iff (options : TraceOptions) (r : Record) (connection : Connection)
    (hfound : ∀ step seq len, ∀ e ∈ connection.findEventsBySeqAndLen step seq len, WellTimed e) :
    ((receiveRecord options r connection).TrueDifferences id
        ↔ InOrder options connection.isServerSide connection.isSsl
          (prepareEvents options r connection))
      ∧ ((receiveRecord options r connection).TrueDifferences float64
        ↔ InOrder options connection.isServerSide connection.isSsl
            (prepareEvents options r connection)
          ∧ ∀ d ∈ (receiveRecord options r connection).durations, d.Unrounded float64)
      ∧ ((∀ step seq len, ∀ e ∈ connection.findEventsBySeqAndLen step seq len, ShortTimed e) →
        r.request.timestampNs < 2 ^ 53 → r.response.timestampNs < 2 ^ 53 →
        ((receiveRecord options r connection).TrueDifferences float64
          ↔ InOrder options connection.isServerSide connection.isSsl
            (prepareEvents options r connection))) := by
  have hall := prepareEvents_all options r hfound
  have hformulas : HasFormulas options
      (canCalculateReadPathTime connection.isSsl (prepareEvents options r connection))
      (if connection.isServerSide then
          canCalculateWritePathTime connection.isSsl (prepareEvents options r connection)
        else canCalculateReadPathTime connection.isSsl (prepareEvents options r connection))
      (prepareEvents options r connection) (receiveRecord options r connection) := by
    unfold receiveRecord
    dsimp only
    split_ifs
    · exact receiveOnServer_formulas _ _ _
    · exact receiveOnClient_formulas _ _ _
  have hexact := hformulas.true_iff keepsSign_id hall.tcpInEvents hall.nicIngressEvents
  have hrounded := hformulas.true_iff keepsSign_float64 hall.tcpInEvents hall.nicIngressEvents
  refine ⟨?_, hrounded, fun hshort hrequest hresponse => ?_⟩
  · rw [hexact]
    exact and_iff_left (fun d _ => unrounded_id d)
  · rw [hrounded]
    have hevents := prepareEvents_short options hshort hrequest hresponse
    exact and_iff_left (fun d hd => (receiveRecord_short options hevents d hd).unrounded)

/-! ## A request whose segment was seen before its frame -/

/-- An event of a request of ten bytes. -/
def sampleEvent (startTs : ℕ) (step : AgentStepT) : KernEvent :=
  { seq := 1, len := 10, startTs := startTs, tsDelta := 5, step := step, attributes := none }

/-- A client without SSL that finds an event at its network interface and one at its socket. -/
def sampleConnection (nicIn tcpIn : ℕ) : Connection :=
  { isServerSide := false, isSsl := false
    findEventsBySeqAndLen := fun step _ _ =>
      if step = AgentStepT.nicIn then [sampleEvent nicIn AgentStepT.nicIn]
      else if step = AgentStepT.tcpIn then [sampleEvent tcpIn AgentStepT.tcpIn]
      else []
    findSslEventsBySeqAndLen := fun _ _ _ => [] }

def sampleRecord : Record :=
  { request := { seq := 1, byteSize := 10, timestampNs := 900 }
    response := { seq := 1, byteSize := 10, timestampNs := 3000 } }

theorem sampleConnection_forall {p : KernEvent → Prop} {nicIn tcpIn : ℕ}
    (hnicIn : p (sampleEvent nicIn AgentStepT.nicIn)) (htcpIn : p (sampleEvent tcpIn AgentStepT.tcpIn)) :
    ∀ step seq len, ∀ e ∈ (sampleConnection nicIn tcpIn).findEventsBySeqAndLen step seq len, p e := by
  intro step seq len e he
  simp only [sampleConnection] at he
  split_ifs at he
  · rwa [List.mem_singleton.mp he]
  · rwa [List.mem_singleton.mp he]
  · cases he

/-- In order, the copy took 500 nanoseconds, in exact arithmetic and rounded. -/
theorem latencies_true_iff_in_order :
    (receiveRecord ⟨true, true⟩ sampleRecord (sampleConnection 1000 1500)).TrueDifferences id
      ∧ (receiveRecord ⟨true, true⟩ sampleRecord
          (sampleConnection 1000 1500)).TrueDifferences float64 := by
  have horder : InOrder ⟨true, true⟩ false false
      (prepareEvents ⟨true, true⟩ sampleRecord (sampleConnection 1000 1500)) := by
    -- There is one event of each kind, and socket events are traced.
    refine ⟨fun _ tcpIn htcpIn nicIn hnicIn => ?_, fun h => by cases h⟩
    cases htcpIn
    cases hnicIn
    decide
  have hshort : ∀ step seq len, ∀ e ∈ (sampleConnection 1000 1500).findEventsBySeqAndLen step seq
      len, ShortTimed e := by
    refine sampleConnection_forall ?_ ?_
    · exact ⟨by decide, by simp [sampleEvent, KernEvent.ifTimestamps]⟩
    · exact ⟨by decide, by simp [sampleEvent, KernEvent.ifTimestamps]⟩
  have hfound := fun step seq len e he => (hshort step seq len e he).wellTimed
  have htrue := latencies_true_iff ⟨true, true⟩ sampleRecord (sampleConnection 1000 1500) hfound
  exact ⟨htrue.1.mpr horder, (htrue.2.2 hshort (by decide) (by decide)).mpr horder⟩

/-- The socket's event is earlier than that of the network interface: the copy took centuries. -/
theorem early_segment_wraps :
    ¬ (receiveRecord ⟨true, true⟩ sampleRecord (sampleConnection 1000 800)).TrueDifferences float64 := by
  intro h
  have hcopy := h.copyToSocketBufferDuration (800, 1000) rfl
  revert hcopy
  decide +kernel

end Analysis

end Kyanos
