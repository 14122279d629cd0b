/-
`agent/conn/conntrack.go`, the parsing half: `Connection4.parseStreamBuffer` and the
helpers that tell whether a stream is stuck.

The parser is a parameter. It sees the buffer and returns messages and a number of bytes
read; the loop removes from the buffer. A round can go on in six ways: the messages read
are removed, the role of the connection is inferred and everything is reset, the data up to
the next boundary is dropped, all but the last event's bytes are dropped, the head is
dropped because it has been there too long, or the bytes to ignore are removed. Each of
them takes at least one byte (`round_progress`), so the number of buffered bytes bounds the
rounds.

The side of the connection stands for the pointer to its stream buffer, which the helpers
compare. The clock is a sequence of readings, and the connection counts how many it has
taken.
-/
import Kyanos.KernEvents
import Kyanos.StreamBuffer

set_option autoImplicit false

open GoNum Trace

namespace Kyanos

/-! ## Parsers -/

/-- `protocol.MessageType`. -/
inductive MessageType
  | request
  | response
  | unknown
deriving DecidableEq, Repr

/-- `protocol.ParseState`; `other` is a value without a name. -/
inductive ParseState
  | invalid
  | needsMoreData
  | success
  | ignore
  | other (code : ℤ)
deriving DecidableEq, Repr

/-- `protocol.ParsedMessage`, as far as the loop looks at it. -/
structure ParsedMessage (π : Type) where
  isReq : Bool
  streamId : ℤ
  payload : π

structure ParseResult (π : Type) where
  parseState : ParseState
  parsedMessages : List (ParsedMessage π)
  readBytes : ℤ

/-- `protocol.ProtocolStreamParser`. A parser may keep a state of its own; it does not
change the buffer it is given. -/
structure ProtocolStreamParser (π σ : Type) where
  parseStream : σ → StreamBuffer → MessageType → ParseResult π × σ
  findBoundary : σ → StreamBuffer → MessageType → ℤ → ℤ × σ

/-- What the loop relies on: a boundary lies between the position asked for and the end of
the head, and what was read is part of the head and not empty. -/
structure ProtocolStreamParser.Contract {π σ : Type} (parser : ProtocolStreamParser π σ) :
    Prop where
  boundary : ∀ st sb t p b rest, sb.buffers = b :: rest →
    (parser.findBoundary st sb t p).1 = -1
      ∨ p ≤ (parser.findBoundary st sb t p).1 ∧ (parser.findBoundary st sb t p).1 ≤ b.len
  read : ∀ st sb t b rest, sb.buffers = b :: rest →
    (parser.parseStream st sb t).1.parseState = .success
      ∨ (parser.parseStream st sb t).1.parseState = .ignore →
    1 ≤ (parser.parseStream st sb t).1.readBytes
      ∧ (parser.parseStream st sb t).1.readBytes ≤ b.len

/-! ## The connection -/

/-- `bpf.AgentEndpointRoleT`. -/
inductive Role
  | client
  | server
  | unknown
deriving DecidableEq, Repr

/-- Which of the two stream buffers of a connection. -/
inductive Side
  | req
  | resp
deriving DecidableEq, Repr

/-- `map[protocol.StreamId]*protocol.ParsedMessageQueue`. -/
abbrev Queues (π : Type) := SortedMap ℤ (List (ParsedMessage π))

structure Connection4 (π σ : Type) where
  role : Role
  reqStreamBuffer : StreamBuffer
  respStreamBuffer : StreamBuffer
  reqQueue : Queues π
  respQueue : Queues π
  lastReqMadeProgressTime : ℤ
  lastRespMadeProgressTime : ℤ
  parserState : σ
  clockReads : ℕ

/-- What the functions below read besides the connection: the parser for its protocol, the
readings of `time.Now().UnixMilli()` in turn, and `MaxAllowStuckTimeMills`. -/
structure Surroundings (π σ : Type) where
  parser : Option (ProtocolStreamParser π σ)
  clock : ℕ → ℤ
  maxAllowStuckTimeMills : ℤ

namespace Connection4

variable {π σ : Type}

def streamBuffer (c : Connection4 π σ) : Side → StreamBuffer
  | .req => c.reqStreamBuffer
  | .resp => c.respStreamBuffer

def setStreamBuffer (c : Connection4 π σ) (side : Side) (sb : StreamBuffer) : Connection4 π σ :=
  match side with
  | .req => { c with reqStreamBuffer := sb }
  | .resp => { c with respStreamBuffer := sb }

/-- The queues `parseStreamBuffer` is called with for a side. -/
def resultQueue (c : Connection4 π σ) : Side → Queues π
  | .req => c.reqQueue
  | .resp => c.respQueue

def setResultQueue (c : Connection4 π σ) (side : Side) (q : Queues π) : Connection4 π σ :=
  match side with
  | .req => { c with reqQueue := q }
  | .resp => { c with respQueue := q }

/-- `streamBuffer.RemovePrefix(length)`, on the buffer of a side. -/
def removePrefix (c : Connection4 π σ) (side : Side) (length : ℤ) :
    Except Panic (Connection4 π σ) :=
  ((c.streamBuffer side).removePrefix length).map (c.setStreamBuffer side)

/-- `streamBuffer.Head().Len()`. -/
def headLen (c : Connection4 π σ) (side : Side) : Except Panic ℤ :=
  match (c.streamBuffer side).head with
  | none => .error .nilDereference
  | some head => .ok head.len

variable (env : Surroundings π σ)

/-! ## Progress -/

def updateProgressTime (c : Connection4 π σ) (side : Side) : Connection4 π σ :=
  let now := env.clock c.clockReads
  match side with
  | .req => { c with lastReqMadeProgressTime := now, clockReads := c.clockReads + 1 }
  | .resp => { c with lastRespMadeProgressTime := now, clockReads := c.clockReads + 1 }

def getLastProgressTime (c : Connection4 π σ) : Side → ℤ
  | .req => c.lastReqMadeProgressTime
  | .resp => c.lastRespMadeProgressTime

/-- The test both progress checks make: the head has no timestamp, or one that is too old. -/
def headIsOld (c : Connection4 π σ) (side : Side) : Bool × Connection4 π σ :=
  let sb := c.streamBuffer side
  let headTime := sb.findTimestampBySeq sb.position0
  let now := env.clock c.clockReads
  let stuckDuration := subInt64 now (truncInt (nanoToMills (headTime.getD 0)))
  (headTime.isNone || stuckDuration > env.maxAllowStuckTimeMills,
    { c with clockReads := c.clockReads + 1 })

def progressIsStucked (c : Connection4 π σ) (side : Side) : Bool × Connection4 π σ :=
  if c.getLastProgressTime side = 0 then (false, c.updateProgressTime env side)
  else c.headIsOld env side

def checkProgress (c : Connection4 π σ) (side : Side) : Except Panic (Bool × Connection4 π σ) :=
  if c.getLastProgressTime side = 0 then .ok (false, c.updateProgressTime env side)
  else
    let (old, c) := c.headIsOld env side
    if old then do
      let sb ← (c.streamBuffer side).removeHead
      .ok (true, c.setStreamBuffer side sb)
    else .ok (false, c)

def resetParseProgress (c : Connection4 π σ) : Connection4 π σ :=
  { c with
    reqStreamBuffer := c.reqStreamBuffer.clear
    respStreamBuffer := c.respStreamBuffer.clear
    reqQueue := SortedMap.empty
    respQueue := SortedMap.empty }

/-! ## The loop -/

/-- The role the first parsed message tells, from the direction of the event. -/
def inferRole (ke : AgentKernEvt) (parsedMessage : ParsedMessage π) : Role :=
  if (isIngressStep ke.step && parsedMessage.isReq)
      || (isEgressStep ke.step && !parsedMessage.isReq) then .server
  else .client

def enqueue (q : Queues π) (parsedMessage : ParsedMessage π) : Queues π :=
  q.put parsedMessage.streamId ((q.get? parsedMessage.streamId).getD [] ++ [parsedMessage])

/-- The case `Success`. The callback `onRoleChanged` only touches the tracing state of the
connection. -/
def onSuccess (c : Connection4 π σ) (side : Side) (messageType : MessageType)
    (ke : AgentKernEvt) (parseResult : ParseResult π) : Except Panic (Connection4 π σ) :=
  match c.role, parseResult.parsedMessages with
  | .unknown, parsedMessage :: _ =>
      .ok { c with role := inferRole ke parsedMessage }.resetParseProgress
  | _, parsedMessages =>
      -- Messages of the wrong kind are dropped, but still removed from the buffer.
      if parsedMessages.head?.any (fun m => m.isReq != (messageType == .request)) then
        c.removePrefix side parseResult.readBytes
      else
        (c.setResultQueue side (parsedMessages.foldl enqueue (c.resultQueue side))).removePrefix
          side parseResult.readBytes

/-- No boundary in a stuck stream: all but the bytes of the last event are dropped, or the
head when it has no more than these. -/
def dropStuck (c : Connection4 π σ) (side : Side) (ke : AgentKernEvt) :
    Except Panic (Bool × Connection4 π σ) := do
  let len ← c.headLen side
  if len > ke.len then
    let c ← c.removePrefix side (len - ke.len)
    .ok (false, c)
  else
    let (removed, c) ← c.checkProgress env side
    .ok (!removed, c)

/-- The case `Invalid`, with the new value of `stop`. -/
def onInvalid (parser : ProtocolStreamParser π σ) (c : Connection4 π σ) (side : Side)
    (messageType : MessageType) (ke : AgentKernEvt) : Except Panic (Bool × Connection4 π σ) := do
  let (pos, parserState) := parser.findBoundary c.parserState (c.streamBuffer side) messageType 1
  let c := { c with parserState := parserState }
  if pos ≠ -1 then
    let c ← c.removePrefix side pos
    .ok (false, c)
  else
    let (stucked, c) := c.progressIsStucked env side
    if stucked then c.dropStuck env side ke
    else .ok (true, c)

/-- One round of the loop, with the new value of `stop`. -/
def round (parser : ProtocolStreamParser π σ) (side : Side) (messageType : MessageType)
    (ke : AgentKernEvt) (c : Connection4 π σ) : Except Panic (Bool × Connection4 π σ) :=
  let (parseResult, parserState) :=
    parser.parseStream c.parserState (c.streamBuffer side) messageType
  let c := { c with parserState := parserState }
  match parseResult.parseState with
  | .success => do
      let c ← c.onSuccess side messageType ke parseResult
      .ok (false, c)
  | .invalid => c.onInvalid env parser side messageType ke
  | .needsMoreData => do
      let (removed, c) ← c.checkProgress env side
      .ok (!removed, c)
  | .ignore => do
      let c ← c.removePrefix side parseResult.readBytes
      .ok (false, c)
  | .other _ => .error .invalidParseState

/-- The loop of `parseStreamBuffer`, with a bound on its rounds. -/
def parseLoop (parser : ProtocolStreamParser π σ) (side : Side) (messageType : MessageType)
    (ke : AgentKernEvt) : ℕ → Connection4 π σ → Option (Except Panic (Connection4 π σ)) :=
  loop (fun c => (c.streamBuffer side).isEmpty) (round env parser side messageType ke)

/-- `parseStreamBuffer` from the loop on. -/
def parseFrom (parser : ProtocolStreamParser π σ) (side : Side) (messageType : MessageType)
    (ke : AgentKernEvt) (fuel : ℕ) (c : Connection4 π σ) :
    Option (Except Panic (Connection4 π σ)) :=
  let originPos := (c.streamBuffer side).position0
  (c.parseLoop env parser side messageType ke fuel).map fun result => do
    let c ← result
    let curProgress := (c.streamBuffer side).position0
    if (c.streamBuffer side).isEmpty || curProgress != originPos then
      .ok (c.updateProgressTime env side)
    else .ok c

/-- `parseStreamBuffer` from the first boundary on, where `-1` is none. -/
def parseFromBoundary (parser : ProtocolStreamParser π σ) (side : Side) (messageType : MessageType)
    (ke : AgentKernEvt) (fuel : ℕ) (pos : ℤ) (c : Connection4 π σ) :
    Option (Except Panic (Connection4 π σ)) :=
  let startPos := if pos = -1 then 0 else pos
  if startPos > 0 then
    match c.removePrefix side startPos with
    | .error e => some (.error e)
    | .ok c => c.parseFrom env parser side messageType ke fuel
  else c.parseFrom env parser side messageType ke fuel

/-- `parseStreamBuffer`; `none` when the rounds are used up. -/
def parseStreamBuffer (c : Connection4 π σ) (side : Side) (messageType : MessageType)
    (ke : AgentKernEvt) (fuel : ℕ) : Option (Except Panic (Connection4 π σ)) :=
  match env.parser with
  | none => some (.ok c)
  | some parser =>
      if (c.streamBuffer side).isEmpty then some (.ok c)
      else
        let (pos, parserState) :=
          parser.findBoundary c.parserState (c.streamBuffer side) messageType 0
        parseFromBoundary env parser side messageType ke fuel pos
          { c with parserState := parserState }

/-! ## Every round takes a byte -/

/-- The bytes in the buffer of a side. -/
def bytes (c : Connection4 π σ) (side : Side) : ℕ :=
  StreamBuffer.totalBytes (c.streamBuffer side).buffers

/-- No run of the stream buffer of the side is empty. -/
def Filled (c : Connection4 π σ) (side : Side) : Prop :=
  ∀ b ∈ (c.streamBuffer side).buffers, b.buf ≠ []

@[simp] theorem streamBuffer_setStreamBuffer (c : Connection4 π σ) (side : Side)
    (sb : StreamBuffer) : (c.setStreamBuffer side sb).streamBuffer side = sb := by
  cases side <;> rfl

@[simp] theorem streamBuffer_setResultQueue (c : Connection4 π σ) (side : Side) (q : Queues π) :
    (c.setResultQueue side q).streamBuffer side = c.streamBuffer side := by
  cases side <;> rfl

/-- The parser's own state is no part of the buffer. -/
@[simp] theorem streamBuffer_parserState (c : Connection4 π σ) (side : Side) (st : σ) :
    ({ c with parserState := st } : Connection4 π σ).streamBuffer side = c.streamBuffer side := by
  cases side <;> rfl

@[simp] theorem streamBuffer_updateProgressTime (c : Connection4 π σ) (side : Side) :
    (c.updateProgressTime env side).streamBuffer side = c.streamBuffer side := by
  cases side <;> rfl

@[simp] theorem streamBuffer_headIsOld (c : Connection4 π σ) (side : Side) :
    (c.headIsOld env side).2.streamBuffer side = c.streamBuffer side := by
  cases side <;> rfl

theorem streamBuffer_progressIsStucked (c : Connection4 π σ) (side : Side) :
    (c.progressIsStucked env side).2.streamBuffer side = c.streamBuffer side := by
  unfold progressIsStucked
  split_ifs
  · exact streamBuffer_updateProgressTime env c side
  · exact streamBuffer_headIsOld env c side

section Progress

variable {c c' : Connection4 π σ} {side : Side}

/-- The buffer of the side is all that counts. -/
theorem Filled.congr (h : Filled c side) (heq : c'.streamBuffer side = c.streamBuffer side) :
    Filled c' side := by
  unfold Filled
  rw [heq]
  exact h

theorem bytes_congr (heq : c'.streamBuffer side = c.streamBuffer side) :
    c'.bytes side = c.bytes side := by
  unfold bytes
  rw [heq]

/-- A buffer that is not empty has a head, and the head has a byte. -/
theorem Filled.head (h : Filled c side) (hne : (c.streamBuffer side).isEmpty = false) :
    ∃ b rest, (c.streamBuffer side).buffers = b :: rest ∧ 0 < b.buf.length
      ∧ b.buf.length ≤ c.bytes side := by
  cases hbs : (c.streamBuffer side).buffers with
  | nil =>
      rw [StreamBuffer.isEmpty_iff.mpr hbs] at hne
      cases hne
  | cons b rest =>
      refine ⟨b, rest, rfl, List.length_pos_iff.mpr (h b (by simp [hbs])), ?_⟩
      unfold bytes
      rw [hbs, StreamBuffer.totalBytes_cons]
      exact Nat.le_add_right _ _

/-- **Removing from the front** takes just as many bytes as asked for. -/
theorem Filled.removePrefix (h : Filled c side) {n : ℤ} (h0 : 0 ≤ n) (hn : n ≤ c.bytes side) :
    ∃ c', c.removePrefix side n = .ok c' ∧ Filled c' side
      ∧ (c'.bytes side : ℤ) = c.bytes side - n := by
  unfold Connection4.removePrefix StreamBuffer.removePrefix
  by_cases hempty : (c.streamBuffer side).isEmpty = true
  · -- There is nothing to remove, so nothing was asked for.
    have hnil := StreamBuffer.isEmpty_iff.mp hempty
    have hzero : c.bytes side = 0 := by
      unfold bytes
      rw [hnil]
      rfl
    rw [if_pos hempty]
    have hsame : (c.setStreamBuffer side (c.streamBuffer side)).streamBuffer side
        = c.streamBuffer side := streamBuffer_setStreamBuffer c side _
    exact ⟨_, rfl, h.congr hsame, by rw [bytes_congr hsame]; omega⟩
  · rw [if_neg hempty]
    obtain ⟨bs', m', hloop, htotal⟩ :=
      StreamBuffer.removePrefixLoop_ok (c.streamBuffer side).timestamps h0 hn
    have hfilled : ∀ b ∈ bs', b.buf ≠ [] := by
      refine StreamBuffer.removePrefixLoop_invariant (I := fun bs _ => ∀ b ∈ bs, b.buf ≠ [])
        ?_ ?_ h hloop
      · intro b bs _ hI x hx
        exact hI x (List.mem_cons_of_mem _ hx)
      · intro b bs _ k _ hk hI x hx
        rcases List.mem_cons.mp hx with rfl | hx
        · apply List.ne_nil_of_length_pos
          rw [StreamBuffer.trimHead, List.length_drop]
          omega
        · exact hI x (List.mem_cons_of_mem _ hx)
    rw [hloop]
    refine ⟨_, rfl, ?_, ?_⟩
    · unfold Filled
      rw [streamBuffer_setStreamBuffer]
      exact hfilled
    · unfold bytes
      rw [streamBuffer_setStreamBuffer]
      exact htotal

/-- What a round may do to the connection when it goes on. -/
def Shrinks (c c' : Connection4 π σ) (side : Side) : Prop :=
  Filled c' side ∧ c'.bytes side < c.bytes side

/-- Removing at least one byte of the head is progress. -/
theorem Filled.shrinks (h : Filled c side) {b : Buffer} {rest : List Buffer}
    (hbs : (c.streamBuffer side).buffers = b :: rest) {n : ℤ} (h1 : 1 ≤ n) (hn : n ≤ b.len) :
    ∃ c', c.removePrefix side n = .ok c' ∧ Shrinks c c' side := by
  have hle : b.buf.length ≤ c.bytes side := by
    unfold bytes
    rw [hbs, StreamBuffer.totalBytes_cons]
    exact Nat.le_add_right _ _
  rw [Buffer.len] at hn
  obtain ⟨c', heq, hfilled, hbytes⟩ := h.removePrefix (show 0 ≤ n by omega) (by omega)
  exact ⟨c', heq, hfilled, by omega⟩

theorem resetParseProgress_shrinks (h : Filled c side)
    (hne : (c.streamBuffer side).isEmpty = false) : Shrinks c c.resetParseProgress side := by
  obtain ⟨b, rest, -, hpos, hle⟩ := h.head hne
  have hnil : (c.resetParseProgress.streamBuffer side).buffers = [] := by
    cases side <;> rfl
  refine ⟨?_, ?_⟩
  · unfold Filled
    rw [hnil]
    simp
  · have hzero : c.resetParseProgress.bytes side = 0 := by
      unfold bytes
      rw [hnil]
      rfl
    omega

/-- `checkProgress` leaves the buffer alone, or drops its head. -/
theorem checkProgress_shrinks (h : Filled c side)
    (hne : (c.streamBuffer side).isEmpty = false) :
    ∃ removed c', c.checkProgress env side = .ok (removed, c') ∧ Filled c' side
      ∧ (removed = true → c'.bytes side < c.bytes side) := by
  unfold checkProgress
  split_ifs with hzero
  · exact ⟨false, _, rfl, h.congr (streamBuffer_updateProgressTime env c side), by simp⟩
  · have hsame := streamBuffer_headIsOld env c side
    dsimp only
    split_ifs with hold
    · have h' : Filled (c.headIsOld env side).2 side := h.congr hsame
      rw [← hsame] at hne
      obtain ⟨b, rest, hbs, hpos, -⟩ := h'.head hne
      have hone : (1 : ℤ) ≤ b.len := by
        rw [Buffer.len]
        omega
      obtain ⟨c', heq, hfilled, hlt⟩ := h'.shrinks hbs hone le_rfl
      rw [bytes_congr hsame] at hlt
      refine ⟨true, c', ?_, hfilled, fun _ => hlt⟩
      -- `RemoveHead` is the removal of the head's length.
      unfold Connection4.removePrefix at heq
      unfold StreamBuffer.removeHead StreamBuffer.head
      rw [hbs, List.head?_cons]
      dsimp only
      cases hrem : ((c.headIsOld env side).2.streamBuffer side).removePrefix b.len with
      | error e =>
          rw [hrem] at heq
          cases heq
      | ok sb =>
          rw [hrem] at heq
          cases heq
          rfl
    · exact ⟨false, _, rfl, h.congr hsame, by simp⟩

theorem onSuccess_shrinks (h : Filled c side) {b : Buffer} {rest : List Buffer}
    (hbs : (c.streamBuffer side).buffers = b :: rest) (messageType : MessageType)
    (ke : AgentKernEvt) {parseResult : ParseResult π} (h1 : 1 ≤ parseResult.readBytes)
    (hn : parseResult.readBytes ≤ b.len) :
    ∃ c', c.onSuccess side messageType ke parseResult = .ok c' ∧ Shrinks c c' side := by
  have hne : (c.streamBuffer side).isEmpty = false := by
    unfold StreamBuffer.isEmpty
    rw [hbs]
    rfl
  unfold onSuccess
  split
  · -- The role is inferred: both buffers are cleared.
    rename_i parsedMessage _ _ _
    have hsame : ({ c with role := inferRole ke parsedMessage } : Connection4 π σ).streamBuffer side
        = c.streamBuffer side := by
      cases side <;> rfl
    obtain ⟨hfilled, hlt⟩ := resetParseProgress_shrinks (h.congr hsame) (by rw [hsame]; exact hne)
    rw [bytes_congr hsame] at hlt
    exact ⟨_, rfl, hfilled, hlt⟩
  · split_ifs
    · exact h.shrinks hbs h1 hn
    · have hsame := streamBuffer_setResultQueue c side
        (parseResult.parsedMessages.foldl enqueue (c.resultQueue side))
      obtain ⟨c', heq, hfilled, hlt⟩ := (h.congr hsame).shrinks (by rw [hsame]; exact hbs) h1 hn
      rw [bytes_congr hsame] at hlt
      exact ⟨c', heq, hfilled, hlt⟩

/-- The outcomes of a round: it stops, or it goes on with fewer bytes. -/
def Goes (c : Connection4 π σ) (side : Side) (stop : Bool) (c' : Connection4 π σ) : Prop :=
  Filled c' side ∧ (stop = false → c'.bytes side < c.bytes side)

theorem Shrinks.goes (h : Shrinks c c' side) : Goes c side false c' := ⟨h.1, fun _ => h.2⟩

theorem Goes.congr {d : Connection4 π σ} {stop : Bool} (h : Goes c side stop c')
    (heq : c.streamBuffer side = d.streamBuffer side) : Goes d side stop c' := by
  refine ⟨h.1, ?_⟩
  rw [← bytes_congr heq]
  exact h.2

/-- A round that ends in `checkProgress` goes on only when the head was dropped. -/
theorem checkProgress_goes (h : Filled c side) (hne : (c.streamBuffer side).isEmpty = false) :
    ∃ stop c', (do
        let (removed, c) ← c.checkProgress env side
        .ok (!removed, c) : Except Panic (Bool × Connection4 π σ)) = .ok (stop, c')
      ∧ Goes c side stop c' := by
  obtain ⟨removed, c', heq, hfilled, hlt⟩ := checkProgress_shrinks env h hne
  rw [heq]
  refine ⟨!removed, c', rfl, hfilled, ?_⟩
  intro hgo
  exact hlt (by simpa using hgo)

theorem dropStuck_goes (h : Filled c side) {b : Buffer} {rest : List Buffer}
    (hbs : (c.streamBuffer side).buffers = b :: rest) (ke : AgentKernEvt) :
    ∃ stop c', c.dropStuck env side ke = .ok (stop, c') ∧ Goes c side stop c' := by
  have hlen : c.headLen side = .ok (b.len : ℤ) := by
    unfold headLen StreamBuffer.head
    rw [hbs]
    rfl
  unfold dropStuck
  rw [hlen]
  change ∃ stop c', (if (b.len : ℤ) > ke.len then _ else _) = _ ∧ _
  by_cases hlong : (b.len : ℤ) > ke.len
  · rw [if_pos hlong]
    obtain ⟨c', heq, hshrinks⟩ := h.shrinks hbs
      (show 1 ≤ (b.len : ℤ) - ke.len by omega) (by omega)
    rw [heq]
    exact ⟨false, c', rfl, hshrinks.goes⟩
  · rw [if_neg hlong]
    apply checkProgress_goes env h
    unfold StreamBuffer.isEmpty
    rw [hbs]
    rfl

theorem onInvalid_goes {parser : ProtocolStreamParser π σ} (hparser : parser.Contract)
    (h : Filled c side) {b : Buffer} {rest : List Buffer}
    (hbs : (c.streamBuffer side).buffers = b :: rest) (messageType : MessageType)
    (ke : AgentKernEvt) :
    ∃ stop c', c.onInvalid env parser side messageType ke = .ok (stop, c') ∧ Goes c side stop c' := by
  have hbound := hparser.boundary c.parserState (c.streamBuffer side) messageType 1 b rest hbs
  unfold onInvalid
  generalize parser.findBoundary c.parserState (c.streamBuffer side) messageType 1 = found at hbound
  obtain ⟨pos, parserState⟩ := found
  dsimp only at hbound ⊢
  have hsame := streamBuffer_parserState c side parserState
  generalize ({ c with parserState := parserState } : Connection4 π σ) = c₀ at hsame
  have h₀ : Filled c₀ side := h.congr hsame
  by_cases hfound : pos = -1
  · -- `progressIsStucked` may set the time of the last progress, but keeps the buffer.
    rw [if_neg (not_not.mpr hfound)]
    have hsame₁ := (streamBuffer_progressIsStucked env c₀ side).trans hsame
    generalize c₀.progressIsStucked env side = stuck at hsame₁
    obtain ⟨stucked, c₁⟩ := stuck
    dsimp only at hsame₁ ⊢
    have h₁ : Filled c₁ side := h.congr hsame₁
    by_cases hstuck : stucked = true
    · rw [if_pos hstuck]
      obtain ⟨stop, c', heq, hgoes⟩ := dropStuck_goes env h₁ (by rw [hsame₁]; exact hbs) ke
      exact ⟨stop, c', heq, hgoes.congr hsame₁⟩
    · rw [if_neg hstuck]
      exact ⟨true, c₁, rfl, h₁, by simp⟩
  · -- A boundary was found, behind the first byte: what lies before it is dropped.
    rw [if_pos hfound]
    obtain ⟨hlo, hhi⟩ := hbound.resolve_left hfound
    obtain ⟨c', heq, hshrinks⟩ := h₀.shrinks (by rw [hsame]; exact hbs) hlo hhi
    rw [heq]
    exact ⟨false, c', rfl, hshrinks.goes.congr hsame⟩

/-- **Every round that goes on takes at least one byte.** A round does not panic, except
over a parse state without a name. -/
theorem round_progress {parser : ProtocolStreamParser π σ} (hparser : parser.Contract)
    (h : Filled c side) (hne : (c.streamBuffer side).isEmpty = false) (messageType : MessageType)
    (ke : AgentKernEvt) :
    round env parser side messageType ke c = .error .invalidParseState
      ∨ ∃ stop c', round env parser side messageType ke c = .ok (stop, c') ∧ Goes c side stop c' := by
  obtain ⟨b, rest, hbs, -, -⟩ := h.head hne
  have hread := hparser.read c.parserState (c.streamBuffer side) messageType b rest hbs
  unfold round
  generalize parser.parseStream c.parserState (c.streamBuffer side) messageType = parsed at hread
  obtain ⟨parseResult, parserState⟩ := parsed
  dsimp only at hread ⊢
  have hsame := streamBuffer_parserState c side parserState
  generalize ({ c with parserState := parserState } : Connection4 π σ) = c₀ at hsame
  have h₀ : Filled c₀ side := h.congr hsame
  have hbs₀ : (c₀.streamBuffer side).buffers = b :: rest := by rw [hsame]; exact hbs
  cases hstate : parseResult.parseState with
  | success =>
      right
      obtain ⟨h1, hn⟩ := hread (Or.inl hstate)
      obtain ⟨c', heq, hshrinks⟩ := onSuccess_shrinks h₀ hbs₀ messageType ke h1 hn
      dsimp only
      rw [heq]
      exact ⟨false, c', rfl, hshrinks.goes.congr hsame⟩
  | invalid =>
      right
      obtain ⟨stop, c', heq, hgoes⟩ := onInvalid_goes env hparser h₀ hbs₀ messageType ke
      exact ⟨stop, c', heq, hgoes.congr hsame⟩
  | needsMoreData =>
      right
      obtain ⟨stop, c', heq, hgoes⟩ := checkProgress_goes env h₀ (by rw [hsame]; exact hne)
      exact ⟨stop, c', heq, hgoes.congr hsame⟩
  | ignore =>
      right
      obtain ⟨h1, hn⟩ := hread (Or.inr hstate)
      obtain ⟨c', heq, hshrinks⟩ := h₀.shrinks hbs₀ h1 hn
      dsimp only
      rw [heq]
      exact ⟨false, c', rfl, hshrinks.goes.congr hsame⟩
  | other code => exact Or.inl rfl

/-! ## The loop returns -/

/-- How a call ends: with a connection, or with the panic over a parse state that has no
name. -/
def Ends (r : Except Panic (Connection4 π σ)) : Prop :=
  r = .error .invalidParseState ∨ ∃ c', r = .ok c'

theorem parseLoop_returns {parser : ProtocolStreamParser π σ} (hparser : parser.Contract)
    (h : Filled c side) (messageType : MessageType) (ke : AgentKernEvt) :
    ∃ r, Ends r ∧ ∀ fuel, c.bytes side < fuel →
      c.parseLoop env parser side messageType ke fuel = some r := by
  -- The measure is the number of bytes; that no run is empty is what makes it go down.
  refine loop_returns (I := fun c => Filled c side) (fun c => c.bytes side) ?_ ?_ h
  · intro c' _ _
    exact Or.inr ⟨c', rfl⟩
  · intro c' hfilled hne
    rcases round_progress env hparser hfilled hne messageType ke with hpanic | hround
    · exact Or.inl ⟨_, hpanic, Or.inl rfl⟩
    · obtain ⟨stop, c'', heq, hfilled', hlt⟩ := hround
      right
      cases stop with
      | true => exact Or.inl ⟨c'', heq, Or.inr ⟨c'', rfl⟩⟩
      | false => exact Or.inr ⟨c'', heq, hfilled', hlt rfl⟩

theorem parseFrom_returns {parser : ProtocolStreamParser π σ} (hparser : parser.Contract)
    (h : Filled c side) (messageType : MessageType) (ke : AgentKernEvt) :
    ∃ r, Ends r ∧ ∀ fuel, c.bytes side < fuel →
      c.parseFrom env parser side messageType ke fuel = some r := by
  obtain ⟨r, hends, hr⟩ := parseLoop_returns env hparser h messageType ke
  rcases hends with rfl | ⟨c', rfl⟩
  · refine ⟨.error .invalidParseState, Or.inl rfl, ?_⟩
    intro fuel hfuel
    rw [parseFrom, hr fuel hfuel]
    rfl
  · -- The time of the progress is written down after the loop, and cannot fail.
    refine ⟨.ok (if (c'.streamBuffer side).isEmpty
        || (c'.streamBuffer side).position0 != (c.streamBuffer side).position0 then
      c'.updateProgressTime env side else c'), Or.inr ⟨_, rfl⟩, ?_⟩
    intro fuel hfuel
    rw [parseFrom, hr fuel hfuel, apply_ite Except.ok]
    rfl

theorem parseFromBoundary_returns {parser : ProtocolStreamParser π σ} (hparser : parser.Contract)
    (h : Filled c side) {b : Buffer} {rest : List Buffer}
    (hbs : (c.streamBuffer side).buffers = b :: rest) (messageType : MessageType)
    (ke : AgentKernEvt) {pos : ℤ} (hpos : pos = -1 ∨ 0 ≤ pos ∧ pos ≤ b.len) :
    ∃ r, Ends r ∧ ∀ fuel, c.bytes side < fuel →
      parseFromBoundary env parser side messageType ke fuel pos c = some r := by
  unfold parseFromBoundary
  by_cases hstart : (if pos = -1 then 0 else pos) > 0
  · -- What lies before the first boundary goes before the loop starts.
    have hfound : pos ≠ -1 := by
      intro hnone
      rw [if_pos hnone] at hstart
      omega
    rw [if_neg hfound] at hstart ⊢
    obtain ⟨-, hhi⟩ := hpos.resolve_left hfound
    obtain ⟨c', heq, hfilled, hlt⟩ := h.shrinks hbs (show 1 ≤ pos by omega) hhi
    obtain ⟨r, hends, hr⟩ := parseFrom_returns env hparser hfilled messageType ke
    refine ⟨r, hends, ?_⟩
    intro fuel hfuel
    rw [if_pos hstart, heq]
    exact hr fuel (by omega)
  · obtain ⟨r, hends, hr⟩ := parseFrom_returns env hparser h messageType ke
    refine ⟨r, hends, ?_⟩
    intro fuel hfuel
    rw [if_neg hstart]
    exact hr fuel hfuel

/-- **`parseStreamBuffer` returns.** Over a parser that keeps its contract, each round that
goes on leaves fewer bytes in the buffer, and every bound on the rounds above the number of
bytes gives the same result. -/
theorem parseStreamBuffer_returns (henv : ∀ parser ∈ env.parser, parser.Contract)
    (h : Filled c side) (messageType : MessageType) (ke : AgentKernEvt) :
    (∀ parser ∈ env.parser, ∀ c₀ c₁ : Connection4 π σ, Filled c₀ side →
      (c₀.streamBuffer side).isEmpty = false →
      round env parser side messageType ke c₀ = .ok (false, c₁) → Shrinks c₀ c₁ side)
    ∧ ∃ r, Ends r ∧ ∀ fuel, c.bytes side < fuel →
        c.parseStreamBuffer env side messageType ke fuel = some r := by
  refine ⟨?_, ?_⟩
  · intro parser hparser c₀ c₁ hfilled hne hround
    rcases round_progress env (henv parser hparser) hfilled hne messageType ke with
      hpanic | ⟨stop, c', heq, hfilled', hlt⟩
    · rw [hpanic] at hround
      cases hround
    · rw [heq] at hround
      cases hround
      exact ⟨hfilled', hlt rfl⟩
  · unfold parseStreamBuffer
    rcases hparser : env.parser with _ | parser
    · exact ⟨.ok c, Or.inr ⟨c, rfl⟩, fun _ _ => rfl⟩
    · by_cases hne : (c.streamBuffer side).isEmpty = true
      · refine ⟨.ok c, Or.inr ⟨c, rfl⟩, ?_⟩
        intro fuel _
        exact if_pos hne
      · -- The parser is asked for a boundary first, and may change its own state there.
        have hcontract := henv parser hparser
        obtain ⟨b, rest, hbs, -, -⟩ := h.head (Bool.eq_false_iff.mpr hne)
        have hsame := streamBuffer_parserState c side
          (parser.findBoundary c.parserState (c.streamBuffer side) messageType 0).2
        obtain ⟨r, hends, hr⟩ := parseFromBoundary_returns env hcontract (h.congr hsame)
          (by rw [hsame]; exact hbs) messageType ke
          (hcontract.boundary c.parserState (c.streamBuffer side) messageType 0 b rest hbs)
        rw [bytes_congr hsame] at hr
        refine ⟨r, hends, ?_⟩
        intro fuel hfuel
        exact (if_neg hne).trans (hr fuel hfuel)

/-- A parser of messages from an asterisk to the end of a line. -/
def sampleParser : ProtocolStreamParser Unit Unit where
  parseStream := fun st sb _ =>
    match sb.head with
    | none => (⟨.needsMoreData, [], 0⟩, st)
    | some head =>
        if head.buf.head? = some 42 then
          match head.buf.findIdx? (· == 10) with
          | some i => (⟨.success, [⟨true, 0, ()⟩], i + 1⟩, st)
          | none => (⟨.needsMoreData, [], 0⟩, st)
        else (⟨.invalid, [], 0⟩, st)
  findBoundary := fun st sb _ startPos =>
    match sb.head with
    | none => (-1, st)
    | some head =>
        match (head.buf.drop startPos.toNat).findIdx? (· == 42) with
        | some i => (startPos.toNat + i, st)
        | none => (-1, st)

theorem sampleParser_contract : sampleParser.Contract where
  boundary := by
    intro st sb t startPos b rest hbs
    simp only [sampleParser, StreamBuffer.head, hbs, List.head?_cons]
    split
    · rename_i i hi
      obtain ⟨hlt, -⟩ := List.findIdx?_eq_some_iff_getElem.mp hi
      rw [List.length_drop] at hlt
      right
      rw [Buffer.len]
      dsimp only
      omega
    · exact Or.inl rfl
  read := by
    intro st sb t b rest hbs
    simp only [sampleParser, StreamBuffer.head, hbs, List.head?_cons]
    split_ifs
    · split
      · rename_i i hi
        obtain ⟨hlt, -⟩ := List.findIdx?_eq_some_iff_getElem.mp hi
        intro _
        rw [Buffer.len]
        dsimp only
        omega
      · rintro (h | h) <;> cases h
    · rintro (h | h) <;> cases h

/-- A client's connection with a stray byte, a message and a part of the next one. -/
def sampleConnection : Connection4 Unit Unit :=
  { role := .client
    reqStreamBuffer := { StreamBuffer.new 100 with buffers := [⟨[1, 42, 7, 10, 42, 7], 0⟩] }
    respStreamBuffer := StreamBuffer.new 100
    reqQueue := SortedMap.empty, respQueue := SortedMap.empty
    lastReqMadeProgressTime := 0, lastRespMadeProgressTime := 0
    parserState := (), clockReads := 0 }

def sampleSurroundings : Surroundings Unit Unit :=
  { parser := some sampleParser, clock := fun n => n + 1, maxAllowStuckTimeMills := 1000 }

def sampleEvent : AgentKernEvt :=
  { ts := 0, tsDelta := 0, seq := 0, len := 6, ifindex := 0, tgidFd := 0, step := 1
    seq_lt := by decide, len_lt := by decide }

theorem parseStreamBuffer_returns_sample : ∃ c',
    (∀ fuel, 6 < fuel → sampleConnection.parseStreamBuffer sampleSurroundings .req .request
      sampleEvent fuel = some (.ok c'))
    ∧ c'.reqStreamBuffer.buffers = [⟨[42, 7], 4⟩] := by
  have henv : ∀ parser ∈ sampleSurroundings.parser, parser.Contract := by
    intro parser hparser
    cases hparser
    exact sampleParser_contract
  have hfilled : Filled sampleConnection .req := by
    intro b hb
    cases List.mem_singleton.mp hb
    simp
  obtain ⟨-, r, -, hr⟩ :=
    parseStreamBuffer_returns sampleSurroundings henv hfilled .request sampleEvent
  have hseven := hr 7 (by decide)
  have hok : ∃ c', r = .ok c' ∧ c'.reqStreamBuffer.buffers = [⟨[42, 7], 4⟩] := by
    cases hseven
    exact ⟨_, rfl, by decide⟩
  obtain ⟨c', rfl, hbuffers⟩ := hok
  exact ⟨c', hr, hbuffers⟩

end Progress

end Connection4

end Kyanos
