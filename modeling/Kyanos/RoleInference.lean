/-
`agent/conn/conntrack.go`: `addDataToBufferAndTryParse`, and how the role of a connection is
inferred.

While the role is unknown there is no telling requests from responses, so the events of both
directions go into the response buffer, each at its own TCP sequence number, and the first
message that parses decides: a request that came in, or a response that went out, makes this
end the server. The direction the code takes is that of the event it was called with. The
message may be made of bytes that came long before.

Beside the connection runs an observer that knows better. It keeps a second stream buffer and
makes the same calls on it with labels, the direction of the event, in place of the data. The
stream buffer does not look at its bytes (`StreamLabels`), so the two keep one shape, and when
a role is inferred the labels of the bytes that were parsed stand where these bytes stand.
With that, the inference is sound (`Inference.Sound`) in every run in which no event comes
while bytes of the other direction are still buffered.
-/
import Kyanos.ParseStream
import Kyanos.StreamLabels

set_option autoImplicit false

open GoNum Trace

namespace Kyanos

/-! ## Adding the data of an event -/

/-- The data of an event, and the fields of its `AgentKernEvt` that ask for a length header
to be put before it. -/
structure DataEvent where
  ke : AgentKernEvt
  prependLengthHeader : Bool
  lengthHeader : ℕ
  data : List UInt8

/-- `binary.LittleEndian.PutUint32`. -/
def putUint32 (v : ℕ) : List UInt8 :=
  [UInt8.ofNat v, UInt8.ofNat (v / 2 ^ 8), UInt8.ofNat (v / 2 ^ 16), UInt8.ofNat (v / 2 ^ 24)]

/-- `extractHeaderEvent`: the `Seq` of the header event and its bytes. -/
def extractHeaderEvent (event : DataEvent) : Option (ℕ × List UInt8) :=
  if !event.prependLengthHeader then none
  else some ((event.ke.seq + (2 ^ 32 - 4)) % 2 ^ 32, putUint32 event.lengthHeader)

namespace Connection4

variable {π σ : Type}

def isServerSide (c : Connection4 π σ) : Bool := c.role != .client

/-- `isReq`, with whether the role is known. -/
def isReq (c : Connection4 π σ) (event : AgentKernEvt) : Bool × Bool :=
  if c.role = .unknown then (false, false)
  else if !c.isServerSide then (event.step ≤ AgentStepT.nicOut, true)
  else (event.step ≥ AgentStepT.nicIn, true)

def getEventTimestamp (ke : AgentKernEvt) (c : Connection4 π σ) (isReq : Bool) : ℕ :=
  match c.role with
  | .unknown => u64 (ke.ts + ke.tsDelta)
  | .client => if isReq then ke.ts else u64 (ke.ts + ke.tsDelta)
  | .server => if isReq then u64 (ke.ts + ke.tsDelta) else ke.ts

/-- `Add` on the stream buffer of a side. -/
def add (c : Connection4 π σ) (side : Side) (seq : ℕ) (data : List UInt8) (timestamp : ℕ) :
    Except Panic (Bool × Connection4 π σ) :=
  ((c.streamBuffer side).add seq data timestamp).map fun (added, sb) =>
    (added, c.setStreamBuffer side sb)

/-- The first half of `addDataToBufferAndTryParse`: the length header, if there is one, then
the data. Whether the header was added does not matter. -/
def addData (c : Connection4 π σ) (event : DataEvent) : Except Panic (Bool × Connection4 π σ) :=
  let isReq := (c.isReq event.ke).1
  let side := if isReq then Side.req else .resp
  match extractHeaderEvent event with
  | none => c.add side event.ke.seq event.data (getEventTimestamp event.ke c isReq)
  | some (seq, header) => do
      let (_, c) ← c.add side seq header (getEventTimestamp event.ke c isReq)
      c.add side event.ke.seq event.data (getEventTimestamp event.ke c isReq)

variable (env : Surroundings π σ)

/-- `addDataToBufferAndTryParse`, each of its two loops with at most `fuel` rounds. -/
def addDataToBufferAndTryParse (c : Connection4 π σ) (event : DataEvent) (fuel : ℕ) :
    Option (Except Panic (Bool × Connection4 π σ)) :=
  match c.addData event with
  | .error e => some (.error e)
  | .ok (false, c) => some (.ok (false, c))
  | .ok (true, c) =>
      let reqSteamMessageType := if c.role = .unknown then MessageType.unknown else .request
      let respSteamMessageType := if c.role = .unknown then MessageType.unknown else .response
      match c.parseStreamBuffer env .req reqSteamMessageType event.ke fuel with
      | none => none
      | some (.error e) => some (.error e)
      | some (.ok c) =>
          (c.parseStreamBuffer env .resp respSteamMessageType event.ke fuel).map
            (Except.map fun c => (true, c))

/-! ## What parsing leaves alone -/

/-- Neither the role nor a stream buffer changed. -/
structure Same (c c' : Connection4 π σ) : Prop where
  role : c'.role = c.role
  buffers : ∀ side, c'.streamBuffer side = c.streamBuffer side

/-- All that changed is that bytes were removed from the front of one stream buffer. -/
structure Keeps (side : Side) (c c' : Connection4 π σ) : Prop where
  role : c'.role = c.role
  buffer : ∃ n, (c.streamBuffer side).removePrefix n = .ok (c'.streamBuffer side)
  other : ∀ side', side' ≠ side → c'.streamBuffer side' = c.streamBuffer side'

variable {env} {c c₁ c' : Connection4 π σ} {side : Side}

theorem Same.keeps (h : Same c c') : Keeps side c c' := by
  refine ⟨h.role, ⟨0, ?_⟩, fun side' _ => h.buffers side'⟩
  rw [h.buffers side]
  unfold StreamBuffer.removePrefix
  split_ifs
  · rfl
  · rcases hbs : (c.streamBuffer side).buffers with _ | ⟨b, bs⟩
    · rw [StreamBuffer.removePrefixLoop, if_pos rfl, ← hbs]
      rfl
    · rw [StreamBuffer.removePrefixLoop, if_pos rfl, ← hbs]
      rfl

theorem Same.trans_keeps (h : Same c c₁) (h' : Keeps side c₁ c') : Keeps side c c' := by
  refine ⟨h'.role.trans h.role, ?_, fun side' hne => (h'.other side' hne).trans (h.buffers side')⟩
  rw [← h.buffers side]
  exact h'.buffer

theorem same_parserState (c : Connection4 π σ) (st : σ) : Same c { c with parserState := st } :=
  ⟨rfl, fun side => streamBuffer_parserState c side st⟩

theorem same_setResultQueue (c : Connection4 π σ) (side : Side) (q : Queues π) :
    Same c (c.setResultQueue side q) := by
  refine ⟨?_, ?_⟩
  · rcases side with _ | _ <;> rfl
  · intro side'
    rcases side with _ | _ <;> rcases side' with _ | _ <;> rfl

theorem same_updateProgressTime (c : Connection4 π σ) (side : Side) :
    Same c (c.updateProgressTime env side) := by
  refine ⟨?_, ?_⟩
  · rcases side with _ | _ <;> rfl
  · intro side'
    rcases side with _ | _ <;> rcases side' with _ | _ <;> rfl

theorem same_headIsOld (c : Connection4 π σ) (side : Side) : Same c (c.headIsOld env side).2 := by
  refine ⟨rfl, ?_⟩
  intro side'
  rcases side' with _ | _ <;> rfl

theorem same_progressIsStucked (c : Connection4 π σ) (side : Side) :
    Same c (c.progressIsStucked env side).2 := by
  unfold progressIsStucked
  split_ifs
  · exact same_updateProgressTime c side
  · exact same_headIsOld c side

theorem setStreamBuffer_keeps {sb : StreamBuffer} {n : ℤ}
    (h : (c.streamBuffer side).removePrefix n = .ok sb) : Keeps side c (c.setStreamBuffer side sb) := by
  refine ⟨?_, ⟨n, ?_⟩, ?_⟩
  · rcases side with _ | _ <;> rfl
  · rw [streamBuffer_setStreamBuffer]
    exact h
  · intro side' hne
    rcases side with _ | _ <;> rcases side' with _ | _ <;> first | rfl | exact absurd rfl hne

theorem removePrefix_keeps {n : ℤ} (h : c.removePrefix side n = .ok c') : Keeps side c c' := by
  obtain ⟨sb, hsb, rfl⟩ := map_eq_ok h
  exact setStreamBuffer_keeps hsb

theorem checkProgress_keeps {removed : Bool} (h : c.checkProgress env side = .ok (removed, c')) :
    Keeps side c c' := by
  unfold checkProgress at h
  split_ifs at h with hzero
  · cases h
    exact (same_updateProgressTime c side).keeps
  · have hsame : Same c (c.headIsOld env side).2 := same_headIsOld c side
    dsimp only at h
    split_ifs at h with hold
    · obtain ⟨sb, hsb, heq⟩ := bind_eq_ok.mp h
      cases heq
      unfold StreamBuffer.removeHead at hsb
      split at hsb
      · cases hsb
      · exact hsame.trans_keeps (setStreamBuffer_keeps hsb)
    · cases h
      exact hsame.keeps

theorem dropStuck_keeps {ke : AgentKernEvt} {stop : Bool}
    (h : c.dropStuck env side ke = .ok (stop, c')) : Keeps side c c' := by
  unfold dropStuck at h
  obtain ⟨len, -, h⟩ := bind_eq_ok.mp h
  split_ifs at h
  · obtain ⟨c₁, hrem, heq⟩ := bind_eq_ok.mp h
    cases heq
    exact removePrefix_keeps hrem
  · obtain ⟨⟨removed, c₁⟩, hcheck, heq⟩ := bind_eq_ok.mp h
    cases heq
    exact checkProgress_keeps hcheck

theorem onInvalid_keeps {parser : ProtocolStreamParser π σ} {messageType : MessageType}
    {ke : AgentKernEvt} {stop : Bool}
    (h : c.onInvalid env parser side messageType ke = .ok (stop, c')) : Keeps side c c' := by
  unfold onInvalid at h
  have hsame := same_parserState c
    (parser.findBoundary c.parserState (c.streamBuffer side) messageType 1).2
  apply hsame.trans_keeps
  dsimp only at h
  split_ifs at h
  · obtain ⟨c₁, hrem, heq⟩ := bind_eq_ok.mp h
    cases heq
    exact removePrefix_keeps hrem
  · exact (same_progressIsStucked _ side).trans_keeps (dropStuck_keeps h)
  · cases h
    exact (same_progressIsStucked _ side).keeps

/-- The first message a parse result holds decides the role, if that is not known yet. -/
theorem onSuccess_cases {messageType : MessageType} {ke : AgentKernEvt}
    {parseResult : ParseResult π} (h : c.onSuccess side messageType ke parseResult = .ok c') :
    Keeps side c c'
      ∨ ∃ m, c.role = .unknown ∧ parseResult.parsedMessages.head? = some m
          ∧ c' = { c with role := inferRole ke m }.resetParseProgress := by
  unfold onSuccess at h
  split at h
  -- the role is unknown and a message was parsed: its bytes are not removed, all is reset
  · rename_i m ms hrole hms
    cases h
    exact Or.inr ⟨m, hrole, by rw [hms, List.head?_cons], rfl⟩
  · left
    split_ifs at h
    · exact removePrefix_keeps h
    · exact (same_setResultQueue c side _).trans_keeps (removePrefix_keeps h)

/-- **What a round can do**: remove from the front of its buffer, or, while the role is
unknown, infer it from the first parsed message and start over. -/
theorem round_cases {parser : ProtocolStreamParser π σ} {messageType : MessageType}
    {ke : AgentKernEvt} {stop : Bool}
    (h : round env parser side messageType ke c = .ok (stop, c')) :
    Keeps side c c'
      ∨ ∃ m, c.role = .unknown
          ∧ (parser.parseStream c.parserState (c.streamBuffer side) messageType).1.parsedMessages.head?
            = some m
          ∧ c'.role = inferRole ke m ∧ ∀ side', (c'.streamBuffer side').buffers = [] := by
  have hsame := same_parserState c
    (parser.parseStream c.parserState (c.streamBuffer side) messageType).2
  unfold round at h
  dsimp only at h
  split at h
  · obtain ⟨c₁, hsuccess, heq⟩ := bind_eq_ok.mp h
    cases heq
    rcases onSuccess_cases hsuccess with hkeeps | ⟨m, hrole, hm, rfl⟩
    · exact Or.inl (hsame.trans_keeps hkeeps)
    · refine Or.inr ⟨m, hrole, hm, rfl, ?_⟩
      intro side'
      rcases side' with _ | _ <;> rfl
  -- the other parse states only remove from the front
  · exact Or.inl (hsame.trans_keeps (onInvalid_keeps h))
  · obtain ⟨⟨removed, c₁⟩, hcheck, heq⟩ := bind_eq_ok.mp h
    cases heq
    exact Or.inl (hsame.trans_keeps (checkProgress_keeps hcheck))
  · obtain ⟨c₁, hrem, heq⟩ := bind_eq_ok.mp h
    cases heq
    exact Or.inl (hsame.trans_keeps (removePrefix_keeps hrem))
  · cases h

theorem round_role {parser : ProtocolStreamParser π σ} {messageType : MessageType}
    {ke : AgentKernEvt} {stop : Bool}
    (h : round env parser side messageType ke c = .ok (stop, c')) (hrole : c.role ≠ .unknown) :
    c'.role = c.role := by
  rcases round_cases h with hkeeps | ⟨m, hunknown, -⟩
  · exact hkeeps.role
  · exact absurd hunknown hrole

/-- `parseStreamBuffer` up to its loop: the data before the first boundary is dropped. -/
def skipToBoundary (parser : ProtocolStreamParser π σ) (side : Side) (messageType : MessageType)
    (c : Connection4 π σ) : Except Panic (Connection4 π σ) :=
  let (pos, parserState) := parser.findBoundary c.parserState (c.streamBuffer side) messageType 0
  let c := { c with parserState := parserState }
  if pos > 0 then c.removePrefix side pos else .ok c

theorem skipToBoundary_keeps {parser : ProtocolStreamParser π σ} {messageType : MessageType}
    (h : skipToBoundary parser side messageType c = .ok c') : Keeps side c c' := by
  have hsame := same_parserState c
    (parser.findBoundary c.parserState (c.streamBuffer side) messageType 0).2
  apply hsame.trans_keeps
  unfold skipToBoundary at h
  dsimp only at h
  split_ifs at h
  · exact removePrefix_keeps h
  · cases h
    exact Same.keeps ⟨rfl, fun _ => rfl⟩

theorem parseFrom_ok {parser : ProtocolStreamParser π σ} {messageType : MessageType}
    {ke : AgentKernEvt} {fuel : ℕ}
    (h : c.parseFrom env parser side messageType ke fuel = some (.ok c')) :
    ∃ c₂, c.parseLoop env parser side messageType ke fuel = some (.ok c₂) ∧ Same c₂ c' := by
  unfold parseFrom at h
  obtain ⟨r, hloop, heq⟩ := Option.map_eq_some_iff.mp h
  obtain ⟨c₂, rfl, hprogress⟩ := bind_eq_ok.mp heq
  refine ⟨c₂, hloop, ?_⟩
  dsimp only at hprogress
  split_ifs at hprogress
  · cases hprogress
    exact same_updateProgressTime c₂ side
  · cases hprogress
    exact ⟨rfl, fun _ => rfl⟩

theorem parseFromBoundary_ok {parser : ProtocolStreamParser π σ} {messageType : MessageType}
    {ke : AgentKernEvt} {fuel : ℕ} {pos : ℤ}
    (h : parseFromBoundary env parser side messageType ke fuel pos c = some (.ok c')) :
    ∃ c₁ c₂, (if pos > 0 then c.removePrefix side pos else .ok c) = .ok c₁
      ∧ c₁.parseLoop env parser side messageType ke fuel = some (.ok c₂) ∧ Same c₂ c' := by
  -- without a boundary the parse starts at the front, as with one at 0
  have hstart : ((if pos = -1 then 0 else pos) > 0) ↔ pos > 0 := by
    split_ifs <;> omega
  unfold parseFromBoundary at h
  dsimp only at h
  by_cases hpos : pos > 0
  · have hfound : ¬pos = -1 := by omega
    rw [if_pos (hstart.mpr hpos), if_neg hfound] at h
    rw [if_pos hpos]
    rcases hrem : c.removePrefix side pos with e | c₁
    · rw [hrem] at h
      cases h
    · rw [hrem] at h
      obtain ⟨c₂, hloop, hsame⟩ := parseFrom_ok h
      exact ⟨c₁, c₂, rfl, hloop, hsame⟩
  · rw [if_neg (fun hgt => hpos (hstart.mp hgt))] at h
    rw [if_neg hpos]
    obtain ⟨c₂, hloop, hsame⟩ := parseFrom_ok h
    exact ⟨c, c₂, rfl, hloop, hsame⟩

/-- **What a call of `parseStreamBuffer` is made of.** -/
theorem parseStreamBuffer_ok {messageType : MessageType} {ke : AgentKernEvt} {fuel : ℕ}
    (h : c.parseStreamBuffer env side messageType ke fuel = some (.ok c')) :
    (c' = c ∧ (env.parser = none ∨ (c.streamBuffer side).isEmpty = true))
      ∨ ∃ parser c₁ c₂, env.parser = some parser ∧ (c.streamBuffer side).isEmpty = false
          ∧ skipToBoundary parser side messageType c = .ok c₁
          ∧ c₁.parseLoop env parser side messageType ke fuel = some (.ok c₂) ∧ Same c₂ c' := by
  unfold parseStreamBuffer at h
  rcases hparser : env.parser with _ | parser
  · rw [hparser] at h
    cases h
    exact Or.inl ⟨rfl, Or.inl rfl⟩
  · rw [hparser] at h
    dsimp only at h
    by_cases hempty : (c.streamBuffer side).isEmpty = true
    · rw [if_pos hempty] at h
      cases h
      exact Or.inl ⟨rfl, Or.inr hempty⟩
    · right
      rw [if_neg hempty] at h
      obtain ⟨c₁, c₂, hskip, hloop, hsame⟩ := parseFromBoundary_ok h
      exact ⟨parser, c₁, c₂, rfl, Bool.eq_false_iff.mpr hempty, hskip, hloop, hsame⟩

/-- A role that is known stays. -/
theorem parseStreamBuffer_role {messageType : MessageType} {ke : AgentKernEvt} {fuel : ℕ}
    (h : c.parseStreamBuffer env side messageType ke fuel = some (.ok c'))
    (hrole : c.role ≠ .unknown) : c'.role = c.role := by
  rcases parseStreamBuffer_ok h with ⟨rfl, -⟩ | ⟨parser, c₁, c₂, -, -, hskip, hloop, hsame⟩
  · rfl
  · have hskipped := (skipToBoundary_keeps hskip).role
    have hparsed : c₂.role = c.role := by
      -- the invariant of the loop is that the role has not changed
      refine loop_invariant (I := fun d : Connection4 π σ => d.role = c.role) ?_ hskipped hloop
      intro d stop d' hd _ hround
      rw [← hd] at hrole
      exact (round_role hround hrole).trans hd
    exact hsame.role.trans hparsed

theorem add_role {seq ts : ℕ} {data : List UInt8} {added : Bool}
    (h : c.add side seq data ts = .ok (added, c')) : c'.role = c.role := by
  obtain ⟨⟨added', sb⟩, -, heq⟩ := map_eq_ok h
  cases heq
  rcases side with _ | _ <;> rfl

theorem addData_role {event : DataEvent} {added : Bool} (h : c.addData event = .ok (added, c')) :
    c'.role = c.role := by
  unfold addData at h
  dsimp only at h
  split at h
  · exact add_role h
  · obtain ⟨⟨added₁, c₁⟩, hheader, hdata⟩ := bind_eq_ok.mp h
    exact (add_role hdata).trans (add_role hheader)

/-- A connection whose role is known does not change it. -/
theorem addDataToBufferAndTryParse_role {event : DataEvent} {fuel : ℕ} {added : Bool}
    (h : c.addDataToBufferAndTryParse env event fuel = some (.ok (added, c')))
    (hrole : c.role ≠ .unknown) : c'.role = c.role := by
  unfold addDataToBufferAndTryParse at h
  split at h
  · cases h
  · rename_i c₁ hadd
    cases h
    exact addData_role hadd
  · rename_i c₁ hadd
    have hrole₁ : c₁.role = c.role := addData_role hadd
    dsimp only at h
    split at h
    · cases h
    · cases h
    · rename_i c₂ hreq
      have hrole₂ : c₂.role = c.role := by
        rw [← hrole₁] at hrole ⊢
        exact parseStreamBuffer_role hreq hrole
      obtain ⟨r, hresp, hmap⟩ := Option.map_eq_some_iff.mp h
      obtain ⟨c₃, rfl, heq⟩ := map_eq_ok hmap
      cases heq
      rw [← hrole₂] at hrole ⊢
      exact parseStreamBuffer_role hresp hrole

end Connection4

/-! ## The observer -/

/-- The labels of the two directions. -/
def ingress : UInt8 := 1

def egress : UInt8 := 0

def direction (ke : AgentKernEvt) : UInt8 := if isIngressStep ke.step then ingress else egress

/-- A role that was inferred, the kind of the message it was inferred from, and the direction
each byte of the message came from. -/
structure Inference where
  role : Role
  isReq : Bool
  directions : List UInt8
deriving DecidableEq

/-- The role agrees with the direction of the parsed bytes. -/
def Inference.Sound (i : Inference) : Prop :=
  i.directions ≠ [] →
    (i.role = .server ↔ i.isReq = true ∧ (∀ d ∈ i.directions, d = ingress)
      ∨ i.isReq = false ∧ (∀ d ∈ i.directions, d = egress))
    ∧ (i.role ≠ .server → i.role = .client)

structure Observer where
  labels : StreamBuffer
  inferred : Option Inference
deriving DecidableEq

namespace Observer

variable {π σ : Type}

/-- The labels after the call of `Add` that the connection makes with `n` bytes. -/
def addLabels (o : Observer) (seq n : ℕ) (label : UInt8) (timestamp : ℕ) : Observer :=
  match o.labels.add seq (List.replicate n label) timestamp with
  | .ok (_, labels) => { o with labels := labels }
  | .error _ => o

/-- The calls of `addData` while the role is unknown, with the direction for the data. -/
def addData (o : Observer) (c : Connection4 π σ) (event : DataEvent) : Observer :=
  let label := direction event.ke
  let timestamp := Connection4.getEventTimestamp event.ke c false
  let o :=
    match extractHeaderEvent event with
    | none => o
    | some (seq, header) => o.addLabels seq header.length label timestamp
  o.addLabels event.ke.seq event.data.length label timestamp

/-- As many labels are removed as bytes went. -/
def follow (o : Observer) (c c' : Connection4 π σ) : Observer :=
  match o.labels.removePrefix (c.bytes .resp - c'.bytes .resp) with
  | .ok labels => { o with labels := labels }
  | .error _ => o

/-- What the observer notes of a round: a role that was inferred, with the labels of the bytes
that were read, or else the bytes that went. -/
def note (parser : ProtocolStreamParser π σ) (c c' : Connection4 π σ) (o : Observer) : Observer :=
  if c'.role = .unknown then o.follow c c'
  else
    let parseResult := (parser.parseStream c.parserState c.respStreamBuffer .unknown).1
    let head := (o.labels.head.map Buffer.buf).getD []
    { labels := o.labels.clear
      inferred := parseResult.parsedMessages.head?.map fun m =>
        ⟨c'.role, m.isReq, head.take parseResult.readBytes.toNat⟩ }

/-- The loop of `parseStreamBuffer` on the response buffer, with the observer beside it. -/
def parseLoop (env : Surroundings π σ) (parser : ProtocolStreamParser π σ) (ke : AgentKernEvt) :
    ℕ → Connection4 π σ × Observer → Option (Except Panic (Connection4 π σ × Observer)) :=
  loop (fun p => (p.1.streamBuffer .resp).isEmpty)
    (observe (Connection4.round env parser .resp .unknown ke) (note parser))

/-- The observer over the call of `parseStreamBuffer` on the response buffer. -/
def parse (env : Surroundings π σ) (o : Observer) (c : Connection4 π σ) (ke : AgentKernEvt)
    (fuel : ℕ) : Observer :=
  match env.parser with
  | none => o
  | some parser =>
      if (c.streamBuffer .resp).isEmpty then o
      else
        match c.skipToBoundary parser .resp .unknown with
        | .error _ => o
        | .ok c₁ =>
            match parseLoop env parser ke fuel (c₁, o.follow c c₁) with
            | some (.ok (_, o)) => o
            | _ => o

end Observer

/-- A connection and the observer beside it. -/
structure Observed (π σ : Type) where
  conn : Connection4 π σ
  observer : Observer

namespace Observed

variable {π σ : Type}

/-- A new connection, whose role is unknown and whose buffers are empty, whatever the rest of
it is, and the observer that starts with it. -/
def start (c : Connection4 π σ) : Observed π σ :=
  let c := { c with role := .unknown }.resetParseProgress
  ⟨c, ⟨c.respStreamBuffer, none⟩⟩

/-- What the observer knows after an event that found the role unknown. -/
def watch (env : Surroundings π σ) (fuel : ℕ) (s : Observed π σ) (event : DataEvent) : Observer :=
  let o := s.observer.addData s.conn event
  match s.conn.addData event with
  | .ok (true, c) => o.parse env c event.ke fuel
  | _ => o

/-- `addDataToBufferAndTryParse`, watched until the role is known. The error `none` is a loop
that used its rounds up. -/
def step (env : Surroundings π σ) (fuel : ℕ) (s : Observed π σ) (event : DataEvent) :
    Except (Option Panic) (Observed π σ) :=
  match s.conn.addDataToBufferAndTryParse env event fuel with
  | none => .error none
  | some (.error e) => .error (some e)
  | some (.ok (_, c)) =>
      .ok ⟨c, if s.conn.role = .unknown then s.watch env fuel event else s.observer⟩

/-- While the role is unknown, all that is buffered came from the direction of the event. -/
def OwnDirection (s : Observed π σ) (event : DataEvent) : Prop :=
  s.conn.role = .unknown →
    ∀ b ∈ s.observer.labels.buffers, ∀ d ∈ b.buf, d = direction event.ke

instance (s : Observed π σ) (event : DataEvent) : Decidable (OwnDirection s event) :=
  inferInstanceAs (Decidable (s.conn.role = .unknown →
    ∀ b ∈ s.observer.labels.buffers, ∀ d ∈ b.buf, d = direction event.ke))

end Observed

/-! ## The inference is sound -/

/-- While the role is unknown the labels lie where the bytes lie, all in one buffer. -/
structure Tracks {π σ : Type} (c : Connection4 π σ) (o : Observer) : Prop where
  role : c.role = .unknown
  req : c.reqStreamBuffer.buffers = []
  shape : StreamBuffer.SameShape o.labels c.respStreamBuffer

/-- The role is known, and how it was inferred was noted and is sound. -/
def Inferred {π σ : Type} (c : Connection4 π σ) (o : Observer) : Prop :=
  c.role ≠ .unknown ∧ ∃ i, o.inferred = some i ∧ i.role = c.role ∧ i.Sound

section Sound

open StreamBuffer Connection4

variable {π σ : Type} {c c' : Connection4 π σ} {o : Observer} {label : UInt8}

theorem inferRole_ne_unknown (ke : AgentKernEvt) (m : ParsedMessage π) :
    inferRole ke m ≠ .unknown := by
  unfold inferRole
  split_ifs
  · decide
  · decide

/-- The code's rule is right for bytes that came the way the event did. -/
theorem inferRole_sound (ke : AgentKernEvt) (m : ParsedMessage π) {directions : List UInt8}
    (hdir : ∀ d ∈ directions, d = direction ke) :
    Inference.Sound ⟨inferRole ke m, m.isReq, directions⟩ := by
  intro hne
  obtain ⟨d, hd⟩ := List.exists_mem_of_ne_nil _ hne
  dsimp only at hne hd ⊢
  have hall : ∀ label : UInt8, (∀ d ∈ directions, d = label) ↔ direction ke = label := by
    intro label
    constructor
    · intro h
      rw [← hdir d hd, h d hd]
    · rintro rfl
      exact hdir
  rw [hall, hall]
  unfold inferRole direction
  rw [KernEventStream.isIngressStep_eq]
  rcases isEgressStep ke.step with _ | _ <;> rcases m.isReq with _ | _ <;> decide

theorem follow_tracks (h : Tracks c o) (huniform : Uniform label o.labels)
    (hkeeps : Keeps .resp c c') :
    Tracks c' (o.follow c c') ∧ Uniform label (o.follow c c').labels := by
  obtain ⟨n, hrem⟩ := hkeeps.buffer
  obtain ⟨labels, hlabels, hshape⟩ := h.shape.removePrefix (removePrefix_totalBytes hrem)
  have hfollow : o.follow c c' = { o with labels := labels } := by
    unfold Observer.follow bytes
    rw [show (c.streamBuffer .resp) = c.respStreamBuffer from rfl, hlabels]
  have hreq : c'.reqStreamBuffer = c.reqStreamBuffer := hkeeps.other .req (by decide)
  rw [hfollow]
  refine ⟨⟨hkeeps.role.trans h.role, ?_, hshape⟩, huniform.removePrefix hlabels⟩
  rw [hreq]
  exact h.req

/-- One round, watched. -/
theorem round_note {env : Surroundings π σ} {parser : ProtocolStreamParser π σ} {ke : AgentKernEvt}
    {stop : Bool} (h : Tracks c o) (huniform : Uniform (direction ke) o.labels)
    (hround : Connection4.round env parser .resp .unknown ke c = .ok (stop, c')) :
    (Tracks c' (o.note parser c c') ∧ Uniform (direction ke) (o.note parser c c').labels)
      ∨ (Inferred c' (o.note parser c c') ∧ (c'.streamBuffer .resp).isEmpty = true) := by
  rcases round_cases hround with hkeeps | ⟨m, -, hm, hrole, hempty⟩
  -- bytes went from the front of the buffer, and as many labels with them
  · left
    have hnote : o.note parser c c' = o.follow c c' := if_pos (hkeeps.role.trans h.role)
    rw [hnote]
    exact follow_tracks h huniform hkeeps
  · right
    have hknown : c'.role ≠ .unknown := by
      rw [hrole]
      exact inferRole_ne_unknown ke m
    refine ⟨⟨hknown, ?_⟩, isEmpty_iff.mpr (hempty .resp)⟩
    unfold Observer.note
    rw [if_neg hknown]
    dsimp only
    change (parser.parseStream c.parserState c.respStreamBuffer .unknown).1.parsedMessages.head?
      = some m at hm
    rw [hm]
    refine ⟨_, rfl, rfl, ?_⟩
    rw [hrole]
    apply inferRole_sound
    intro d hd
    -- The bytes read lie in the head, whose labels all tell the direction of the event.
    rcases hhead : o.labels.buffers with _ | ⟨b, rest⟩
    · rw [StreamBuffer.head, hhead] at hd
      simp at hd
    · rw [StreamBuffer.head, hhead] at hd
      have hb : b ∈ o.labels.buffers := by
        rw [hhead]
        exact List.mem_cons_self
      exact huniform.mem hb (List.mem_of_mem_take hd)

/-- The whole loop, watched: the observer loses track of no byte until the role is known. -/
theorem parseLoop_note {env : Surroundings π σ} {parser : ProtocolStreamParser π σ}
    {ke : AgentKernEvt} {fuel : ℕ} (h : Tracks c o) (huniform : Uniform (direction ke) o.labels)
    (hloop : c.parseLoop env parser .resp .unknown ke fuel = some (.ok c')) :
    ∃ o', Observer.parseLoop env parser ke fuel (c, o) = some (.ok (c', o'))
      ∧ (Tracks c' o' ∨ Inferred c' o') := by
  have hobserve := loop_observe (fun c : Connection4 π σ => (c.streamBuffer .resp).isEmpty)
    (Connection4.round env parser .resp .unknown ke) (Observer.note parser) fuel c o
  have hplain : loop (fun c : Connection4 π σ => (c.streamBuffer .resp).isEmpty)
      (Connection4.round env parser .resp .unknown ke) fuel c = some (.ok c') := hloop
  rw [hplain] at hobserve
  obtain ⟨r, hr, hmap⟩ := Option.map_eq_some_iff.mp hobserve
  obtain ⟨⟨c'', o'⟩, rfl, rfl⟩ := map_eq_ok hmap
  refine ⟨o', hr, ?_⟩
  -- A role that is known ends the loop, because both buffers are empty then.
  have hend := loop_invariant (I := fun p : Connection4 π σ × Observer =>
    (Tracks p.1 p.2 ∧ Uniform (direction ke) p.2.labels)
      ∨ (Inferred p.1 p.2 ∧ (p.1.streamBuffer .resp).isEmpty = true)) ?_ (Or.inl ⟨h, huniform⟩) hr
  · rcases hend with ⟨htracks, -⟩ | ⟨hinferred, -⟩
    · exact Or.inl htracks
    · exact Or.inr hinferred
  · rintro p stop p' (⟨htracks, hlabels⟩ | ⟨-, hempty⟩) hgo hbody
    · obtain ⟨hround, hnote⟩ := observe_eq_ok hbody
      rw [hnote]
      exact round_note htracks hlabels hround
    · rw [hempty] at hgo
      cases hgo

theorem Tracks.same (h : Tracks c o) (hsame : Same c c') : Tracks c' o := by
  have hreq : c'.reqStreamBuffer = c.reqStreamBuffer := hsame.buffers .req
  have hresp : c'.respStreamBuffer = c.respStreamBuffer := hsame.buffers .resp
  refine ⟨hsame.role.trans h.role, ?_, ?_⟩
  · rw [hreq]
    exact h.req
  · rw [hresp]
    exact h.shape

theorem Inferred.same (h : Inferred c o) (hsame : Same c c') : Inferred c' o := by
  unfold Inferred
  rw [hsame.role]
  exact h

/-- The call of `parseStreamBuffer` on the response buffer, watched. -/
theorem parse_note {env : Surroundings π σ} {ke : AgentKernEvt} {fuel : ℕ} (h : Tracks c o)
    (huniform : Uniform (direction ke) o.labels)
    (hparse : c.parseStreamBuffer env .resp .unknown ke fuel = some (.ok c')) :
    Tracks c' (o.parse env c ke fuel) ∨ Inferred c' (o.parse env c ke fuel) := by
  unfold Observer.parse
  rcases parseStreamBuffer_ok hparse with ⟨rfl, hnone | hempty⟩
    | ⟨parser, c₁, c₂, hparser, hempty, hskip, hloop, hsame⟩
  · rw [hnone]
    exact Or.inl h
  · rcases env.parser with _ | parser
    · exact Or.inl h
    · dsimp only
      rw [if_pos hempty]
      exact Or.inl h
  · rw [hparser]
    dsimp only
    rw [hempty, if_neg (by decide), hskip]
    obtain ⟨h₁, huniform₁⟩ := follow_tracks h huniform (skipToBoundary_keeps hskip)
    obtain ⟨o', ho', hend⟩ := parseLoop_note h₁ huniform₁ hloop
    dsimp only
    rw [ho']
    exact hend.imp (fun htracks => htracks.same hsame) (fun hinferred => hinferred.same hsame)

theorem addLabels_tracks {seq ts : ℕ} {data : List UInt8} {added : Bool} (h : Tracks c o)
    (huniform : Uniform label o.labels)
    (hadd : c.add .resp seq data ts = .ok (added, c')) :
    Tracks c' (o.addLabels seq data.length label ts)
      ∧ Uniform label (o.addLabels seq data.length label ts).labels := by
  obtain ⟨⟨added', sb⟩, hsb, heq⟩ := map_eq_ok hadd
  cases heq
  have hlen : (List.replicate data.length label).length = data.length := List.length_replicate
  obtain ⟨labels, hlabels, hshape⟩ := h.shape.add hlen hsb
  unfold Observer.addLabels
  rw [hlabels]
  exact ⟨⟨h.role, h.req, hshape⟩, huniform.add hlabels⟩

/-- While the role is unknown, the data of an event goes into the response buffer, and its
direction beside it. -/
theorem addData_tracks {event : DataEvent} {added : Bool} (h : Tracks c o)
    (huniform : Uniform (direction event.ke) o.labels)
    (hadd : c.addData event = .ok (added, c')) :
    Tracks c' (o.addData c event)
      ∧ Uniform (direction event.ke) (o.addData c event).labels := by
  have hreq : (c.isReq event.ke).1 = false := by
    unfold Connection4.isReq
    rw [if_pos h.role]
  -- the first `Add` changes the connection, but not what the time is computed from
  have hts : ∀ d : Connection4 π σ, d.role = .unknown →
      getEventTimestamp event.ke d false = getEventTimestamp event.ke c false := by
    intro d hd
    unfold getEventTimestamp
    rw [hd, h.role]
  unfold Connection4.addData at hadd
  unfold Observer.addData
  rw [hreq] at hadd
  dsimp only at hadd ⊢
  rcases hheader : extractHeaderEvent event with _ | ⟨seq, header⟩
  · rw [hheader] at hadd
    exact addLabels_tracks h huniform hadd
  · rw [hheader] at hadd
    obtain ⟨⟨added₁, c₁⟩, hadd₁, hadd₂⟩ := bind_eq_ok.mp hadd
    obtain ⟨h₁, huniform₁⟩ := addLabels_tracks h huniform hadd₁
    dsimp only at hadd₂
    rw [hts c₁ h₁.role] at hadd₂
    exact addLabels_tracks h₁ huniform₁ hadd₂

theorem uniform_of_forall {sb : StreamBuffer} (h : ∀ b ∈ sb.buffers, ∀ d ∈ b.buf, d = label) :
    Uniform label sb := by
  have hpaint : ∀ b ∈ sb.buffers, Buffer.paint label b = id b := by
    intro b hb
    unfold Buffer.paint
    rw [← List.eq_replicate_iff.mpr ⟨rfl, h b hb⟩]
    rfl
  have hbuffers : sb.buffers.map (Buffer.paint label) = sb.buffers := by
    rw [List.map_congr_left hpaint, List.map_id]
  unfold Uniform StreamBuffer.paint
  rw [hbuffers]

/-- **One event.** The observer keeps track, or the role was inferred and soundly so. -/
theorem step_note {env : Surroundings π σ} {fuel : ℕ} {s s' : Observed π σ} {event : DataEvent}
    (h : Tracks s.conn s.observer ∨ Inferred s.conn s.observer)
    (hown : Observed.OwnDirection s event) (hstep : s.step env fuel event = .ok s') :
    Tracks s'.conn s'.observer ∨ Inferred s'.conn s'.observer := by
  unfold Observed.step at hstep
  split at hstep
  · cases hstep
  · cases hstep
  · rename_i added c' hcall
    cases hstep
    dsimp only
    rcases h with htracks | hinferred
    -- the condition of the run makes the labels uniform before the event
    · rw [if_pos htracks.role]
      have huniform := uniform_of_forall (hown htracks.role)
      unfold addDataToBufferAndTryParse at hcall
      unfold Observed.watch
      rcases hadd : s.conn.addData event with e | ⟨stored, c₁⟩
      · rw [hadd] at hcall
        cases hcall
      · rw [hadd] at hcall
        obtain ⟨h₁, huniform₁⟩ := addData_tracks htracks huniform hadd
        rcases stored with _ | _
        · cases hcall
          exact Or.inl h₁
        · -- The request buffer is empty, so only the response buffer is parsed.
          have hreq : c₁.parseStreamBuffer env .req .unknown event.ke fuel = some (.ok c₁) := by
            unfold parseStreamBuffer
            rcases env.parser with _ | parser
            · rfl
            · exact if_pos (isEmpty_iff.mpr h₁.req)
          dsimp only at hcall ⊢
          rw [if_pos h₁.role, if_pos h₁.role, hreq] at hcall
          obtain ⟨r, hresp, hmap⟩ := Option.map_eq_some_iff.mp hcall
          obtain ⟨c₂, rfl, heq⟩ := map_eq_ok hmap
          cases heq
          exact parse_note h₁ huniform₁ hresp
    · right
      rw [if_neg hinferred.1]
      have hrole := addDataToBufferAndTryParse_role hcall hinferred.1
      unfold Inferred
      rw [hrole]
      exact hinferred

end Sound

/-- **The inference of the role is sound** in every run in which no event comes while bytes of
the other direction are buffered: once the role is known, it is the one the direction of the
parsed bytes tells. -/
theorem role_inference_sound {π σ : Type} (env : Surroundings π σ) (fuel : ℕ)
    (c : Connection4 π σ) {events : List DataEvent} {s : Observed π σ}
    (h : Run (Observed.step env fuel) Observed.OwnDirection (Observed.start c) events s)
    (hknown : s.conn.role ≠ .unknown) :
    ∃ i, s.observer.inferred = some i ∧ i.role = s.conn.role ∧ i.Sound := by
  have hinv : Tracks s.conn s.observer ∨ Inferred s.conn s.observer := by
    refine h.invariant (I := fun s => Tracks s.conn s.observer ∨ Inferred s.conn s.observer) ?_ ?_
    · exact Or.inl ⟨rfl, rfl, rfl⟩
    · intro s event s' hs hown hstep
      exact step_note hs hown hstep
  rcases hinv with htracks | hinferred
  · exact absurd htracks.role hknown
  · exact hinferred.2

/-- Data at a position of the stream of a direction. -/
def sampleData (seq : ℕ) (seq_lt : seq < 2 ^ 32) (step : AgentStepT) (data : List UInt8) :
    DataEvent :=
  { ke := { Connection4.sampleEvent with seq := seq, step := step, seq_lt := seq_lt }
    prependLengthHeader := false, lengthHeader := 0, data := data }

/-- A clock that moves on by less than half a second with every reading. -/
def sampleClock : Surroundings Unit Unit :=
  { Connection4.sampleSurroundings with clock := fun n => 400 * (n + 1) }

/-- A message that comes in in two parts makes this end the server. -/
theorem role_inference_sound_request : ∃ s,
    Run (Observed.step sampleClock 10) Observed.OwnDirection
      (Observed.start Connection4.sampleConnection)
      [sampleData 0 (by decide) AgentStepT.nicIn [42, 7],
        sampleData 2 (by decide) AgentStepT.nicIn [7, 10]] s
    ∧ s.conn.role = .server
    ∧ ∃ i, s.observer.inferred = some i ∧ i.role = s.conn.role ∧ i.Sound := by
  have hexec : (exec (Observed.step sampleClock 10) Observed.OwnDirection
      (Observed.start Connection4.sampleConnection)
      [sampleData 0 (by decide) AgentStepT.nicIn [42, 7],
        sampleData 2 (by decide) AgentStepT.nicIn [7, 10]]).map (fun s => s.conn.role)
      = some .server := by
    decide +kernel
  obtain ⟨s, hexec, hrole⟩ := Option.map_eq_some_iff.mp hexec
  have hrun := Run.of_exec hexec
  refine ⟨s, hrun, hrole, ?_⟩
  apply role_inference_sound sampleClock 10 Connection4.sampleConnection hrun
  rw [hrole]
  decide

/-- **The direction of the event is not that of the bytes.** A part of a message goes out and
then, behind a gap, a whole one; the part keeps the whole one from being parsed. When a byte
comes in after the part has been stuck for a second, the message that went out is parsed, and
this end, which sent a request, is taken for the server. -/
theorem role_inference_unsound : ∃ s i,
    Run (Observed.step sampleClock 10) (fun _ _ => True)
      (Observed.start Connection4.sampleConnection)
      [sampleData 0 (by decide) AgentStepT.nicOut [42, 7],
        sampleData 10 (by decide) AgentStepT.nicOut [42, 7, 10],
        sampleData 60 (by decide) AgentStepT.nicIn [1]] s
    ∧ s.observer.inferred = some i ∧ i.role = s.conn.role ∧ i.role = .server ∧ i.isReq = true
    ∧ i.directions = [egress, egress, egress] ∧ ¬i.Sound := by
  have hexec : (exec (Observed.step sampleClock 10) (fun _ _ => True)
      (Observed.start Connection4.sampleConnection)
      [sampleData 0 (by decide) AgentStepT.nicOut [42, 7],
        sampleData 10 (by decide) AgentStepT.nicOut [42, 7, 10],
        sampleData 60 (by decide) AgentStepT.nicIn [1]]).map
        (fun s => (s.conn.role, s.observer.inferred))
      = some (.server, some ⟨.server, true, [egress, egress, egress]⟩) := by
    decide +kernel
  obtain ⟨s, hexec, heq⟩ := Option.map_eq_some_iff.mp hexec
  obtain ⟨hrole, hinferred⟩ := Prod.mk.inj heq
  refine ⟨s, _, Run.of_exec hexec, hinferred, hrole.symm, rfl, rfl, rfl, ?_⟩
  intro hsound
  have hiff := (hsound (by decide)).1.mp rfl
  revert hiff
  decide

end Kyanos
