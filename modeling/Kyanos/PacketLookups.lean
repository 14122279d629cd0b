/-
The kernel events of a connection, as its messages find them.

`processKernEvent` gives the events of a connection to `OnKernEvent`, which puts those with a payload
into its stream; the others tell of the handshake. A packet may be seen more than once at a step: it is
sent again, or passes several interfaces. The stream keeps the first sighting until a discard. `Follows`
is the invariant: every event of the stream is one that arrived, and every first one from the mark on is
there.

`packets_found` puts this behind the packets of `PacketEvents`: the lookup of a range of positions
returns the packets that carried a byte of it.
-/
import Kyanos.KernEventRuns
import Kyanos.PacketEvents
import Kyanos.ParseStream

set_option autoImplicit false

open GoNum Trace

namespace Kyanos

namespace Bpf.Place

/-! ## First sightings -/

/-- The packet has a byte in the range. -/
def Carries (start stop : ℕ) (p : Place) : Prop :=
  p.seq.toNat < stop ∧ start < p.seq.toNat + p.len.toNat

instance (start stop : ℕ) (p : Place) : Decidable (Carries start stop p) :=
  inferInstanceAs (Decidable (_ ∧ _))

/-- Another packet of the step with a payload from the same position on. -/
def sameStart (p q : Place) : Bool := q.step = p.step && 0 < q.len && q.seq = p.seq

/-- A packet with a payload whose start was not seen at its step before. -/
def First (ps : List Place) (p : Place) : Prop := ps.find? p.sameStart = some p

theorem sameStart_iff {p q : Place} :
    p.sameStart q = true ↔ q.step = p.step ∧ 0 < q.len ∧ q.seq = p.seq := by
  unfold sameStart
  simp only [Bool.and_eq_true, decide_eq_true_eq, and_assoc]

/-- One that is first so far was so before, or is the last one, with a new start. -/
theorem First.of_concat {ps : List Place} {p x : Place} (h : First (ps ++ [x]) p) :
    First ps p ∨ p = x ∧ 0 < x.len ∧ ∀ q ∈ ps, q.step = x.step → 0 < q.len → q.seq ≠ x.seq := by
  unfold First at h ⊢
  rw [List.find?_append] at h
  rcases hfind : ps.find? p.sameStart with _ | q
  · rw [hfind, Option.none_or] at h
    have hmem := List.mem_of_find?_eq_some h
    rw [List.mem_singleton] at hmem
    subst hmem
    refine Or.inr ⟨rfl, (sameStart_iff.mp (List.find?_some h)).2.1, fun q hq hstep hlen hseq => ?_⟩
    exact List.find?_eq_none.mp hfind q hq (sameStart_iff.mpr ⟨hstep, hlen, hseq⟩)
  · rw [hfind, Option.some_or] at h
    exact Or.inl h

/-- The stored event is that of the packet. -/
structure Is (p : Place) (k : KernEvent) : Prop where
  seq : k.seq = p.seq.toNat
  len : k.len = p.len.toNat
  startTs : k.startTs = p.ts

theorem Is.carries {p : Place} {k : KernEvent} (h : p.Is k) {start stop : ℕ} :
    KernEventStream.Meets start stop k ↔ p.Carries start stop := by
  unfold KernEventStream.Meets Carries
  rw [h.seq, h.len]

end Bpf.Place

open Bpf (Place)

/-- The place an event tells. -/
def AgentKernEvt.place (e : AgentKernEvt) : Place :=
  ⟨e.step, e.ts, UInt32.ofNat e.seq, UInt32.ofNat e.len⟩

theorem AgentKernEvt.place_seq (e : AgentKernEvt) : e.place.seq.toNat = e.seq := by
  rw [place, UInt32.toNat_ofNat', Nat.mod_eq_of_lt e.seq_lt]

theorem AgentKernEvt.place_len (e : AgentKernEvt) : e.place.len.toNat = e.len := by
  rw [place, UInt32.toNat_ofNat', Nat.mod_eq_of_lt e.len_lt]

namespace KernEventStream

/-- What a stream has of the packets that were seen. -/
structure Follows (ps : List Place) (s : KernEventStream) : Prop where
  indexed : Indexed s
  arrived : ∀ step, ∀ k ∈ s.stored step, ∃ p ∈ ps, p.step = step ∧ 0 < p.len ∧ p.Is k
  first : ∀ p : Place, p.First ps → s.mark (isEgressStep p.step) ≤ p.seq.toNat →
    ∃ k ∈ s.stored p.step, p.Is k

/-- A discard leaves what starts at the mark or behind it. -/
theorem mem_kept {s : KernEventStream} {step : AgentStepT} {k : KernEvent} :
    (k ∈ s.kept step → k ∈ s.stored step)
      ∧ (k ∈ s.stored step → s.mark (isEgressStep step) ≤ k.seq → k ∈ s.kept step) := by
  unfold kept discarded
  split_ifs with hex
  · exact ⟨List.mem_of_mem_filter, fun hmem hle => List.mem_filter.mpr ⟨hmem, decide_eq_true hle⟩⟩
  · exact ⟨id, fun hmem _ => hmem⟩

/-- The attributes are all that an event with a known start changes. -/
theorem is_attributes {p : Place} {k : KernEvent} (h : p.Is k)
    (attributes : Option (SortedMap String ℤ)) : p.Is { k with attributes := attributes } :=
  ⟨h.seq, h.len, h.startTs⟩

/-- What an event leaves in the ring of its step, if there is room: what was there, and the event itself
if its start is new. -/
theorem Outcome.is {maxLen : ℕ} {event : AgentKernEvt} {ifname : String} {l l' : List KernEvent}
    {r : Bool}
    (h : Outcome maxLen event ifname l r l') (hroom : l.length < maxLen) :
    (∀ p : Place, (∃ k ∈ l, p.Is k) → ∃ k ∈ l', p.Is k)
      ∧ (∀ k' ∈ l', event.place.Is k' ∨ ∃ k ∈ l, ∀ p : Place, p.Is k → p.Is k')
      ∧ ((∀ k ∈ l, k.seq ≠ event.seq) → ∃ k ∈ l', event.place.Is k) := by
  rcases h with ⟨i, hi, same, -⟩ | ⟨i, hi, same, -, -⟩ | ⟨i, hi, same, -, attributes, -⟩ |
    ⟨xs, ys, rfl, below, above, room⟩ | ⟨fresh, full⟩
  · exact ⟨fun _ h => h, fun k hk => Or.inr ⟨k, hk, fun _ h => h⟩,
      fun hnew => absurd same (hnew _ (List.getElem_mem hi))⟩
  · exact ⟨fun _ h => h, fun k hk => Or.inr ⟨k, hk, fun _ h => h⟩,
      fun hnew => absurd same (hnew _ (List.getElem_mem hi))⟩
  -- Another interface is noted in the attributes of the event that is there.
  · have hchange : ∀ (j : ℕ) (hj : j < l.length)
        (hj' : j < (l.modify i fun e =>
          { e with attributes := e.attributes.map fun _ => attributes }).length) (p : Place), p.Is l[j] →
        p.Is (l.modify i fun e => { e with attributes := e.attributes.map fun _ => attributes })[j] := by
      intro j hj hj' p hIs
      rw [List.getElem_modify]
      split_ifs
      · exact is_attributes hIs _
      · exact hIs
    refine ⟨?_, ?_, fun hnew => absurd same (hnew _ (List.getElem_mem hi))⟩
    · rintro p ⟨k, hk, hIs⟩
      obtain ⟨j, hj, rfl⟩ := List.getElem_of_mem hk
      have hj' : j < (l.modify i fun e =>
          { e with attributes := e.attributes.map fun _ => attributes }).length := by
        rw [List.length_modify]
        exact hj
      exact ⟨_, List.getElem_mem hj', hchange j hj hj' p hIs⟩
    · intro k' hk'
      obtain ⟨j, hj', rfl⟩ := List.getElem_of_mem hk'
      have hj := hj'
      rw [List.length_modify] at hj
      exact Or.inr ⟨l[j], List.getElem_mem hj, hchange j hj hj'⟩
  -- A new start: the event is put between those below and above it.
  · have hIs : event.place.Is (KernEvent.ofKernEvt event (newAttributes event ifname)) :=
      ⟨event.place_seq.symm, event.place_len.symm, rfl⟩
    refine ⟨?_, ?_, fun _ => ⟨_, List.mem_append_right _ List.mem_cons_self, hIs⟩⟩
    · rintro p ⟨k, hk, hIs⟩
      refine ⟨k, ?_, hIs⟩
      rcases List.mem_append.mp hk with hmem | hmem
      · exact List.mem_append_left _ hmem
      · exact List.mem_append_right _ (List.mem_cons_of_mem _ hmem)
    · intro k' hk'
      rcases List.mem_append.mp hk' with hmem | hmem
      · exact Or.inr ⟨k', List.mem_append_left _ hmem, fun _ h => h⟩
      · rcases List.mem_cons.mp hmem with rfl | hmem
        · exact Or.inl hIs
        · exact Or.inr ⟨k', List.mem_append_right _ hmem, fun _ h => h⟩
  -- A full ring, which the room excludes.
  · omega

/-- The discard and the event leave the marks alone. -/
theorem addKernEvent_marks {s s' : KernEventStream} (h : Indexed s) {event : AgentKernEvt}
    {names : ℕ → ℕ → Option String} {r : Bool} (heq : s.addKernEvent event names = .ok (r, s')) :
    s'.mark = s.mark := by
  obtain ⟨s₁, heq₁, -, hmarks, -⟩ := discardEventsIfNeeded_ok h
  have hsame : s₁.mark = s.mark := by
    unfold mark
    rw [hmarks.2.1, hmarks.2.2]
  unfold addKernEvent at heq
  rw [heq₁] at heq
  change (if event.len > 0 then _ else _) = _ at heq
  split_ifs at heq
  · rcases hadd : addToRing ((s₁.kernEvents.get? event.step).getD (RingBuffer.new s₁.maxLen)) event names
      with p | ⟨r', ring⟩
    · rw [hadd] at heq
      cases heq
    · rw [hadd] at heq
      cases heq
      exact hsame
  · cases heq
    exact hsame

/-- **One event** with a payload. -/
theorem Follows.add {ps : List Place} {s : KernEventStream} (h : Follows ps s)
    {event : AgentKernEvt} (hlen : 0 < event.len) (hroom : (s.kept event.step).length < s.maxLen)
    (names : ℕ → ℕ → Option String) :
    ∃ r s', s.addKernEvent event names = .ok (r, s') ∧ Follows (ps ++ [event.place]) s' := by
  obtain ⟨r, s', heq, hindexed, hother, hout⟩ := addKernEvent_ok h.indexed event names
  have hmark := addKernEvent_marks h.indexed heq
  obtain ⟨hstays, hcomes, hnew⟩ := (hout hlen).is hroom
  have hpos : 0 < event.place.len := by
    rw [UInt32.lt_iff_toNat_lt, event.place_len]
    exact hlen
  refine ⟨r, s', heq, hindexed, ?_, ?_⟩
  · intro step k hk
    by_cases hstep : step = event.step
    · subst hstep
      rcases hcomes k hk with hIs | ⟨k₀, hk₀, hIs⟩
      · exact ⟨event.place, List.mem_append_right _ List.mem_cons_self, rfl, hpos, hIs⟩
      · obtain ⟨p, hp, hsame, hlen₀, hIs₀⟩ := h.arrived event.step k₀ (mem_kept.1 hk₀)
        exact ⟨p, List.mem_append_left _ hp, hsame, hlen₀, hIs p hIs₀⟩
    · rw [hother step hstep] at hk
      obtain ⟨p, hp, hrest⟩ := h.arrived step k (mem_kept.1 hk)
      exact ⟨p, List.mem_append_left _ hp, hrest⟩
  · intro p hp hle
    rw [hmark] at hle
    rcases hp.of_concat with hold | ⟨rfl, -, hfresh⟩
    · -- A first one that was there before is kept by the discard.
      obtain ⟨k, hk, hIs⟩ := h.first p hold hle
      have hkept : k ∈ s.kept p.step := mem_kept.2 hk (by rw [hIs.seq]; exact hle)
      by_cases hstep : p.step = event.step
      · rw [hstep] at hkept ⊢
        exact hstays p ⟨k, hkept, hIs⟩
      · rw [hother p.step hstep]
        exact ⟨k, hkept, hIs⟩
    -- A first one that is new: had the ring its start, an earlier one would have had it.
    · refine hnew (fun k hk hsame => ?_)
      obtain ⟨q, hq, hstep, hlen', hIs⟩ := h.arrived event.step k (mem_kept.1 hk)
      refine hfresh q hq hstep hlen' (UInt32.toNat_inj.mp ?_)
      rw [← hIs.seq, hsame, event.place_seq]

/-- A sighting without a payload. -/
theorem Follows.empty {ps : List Place} {s : KernEventStream} (h : Follows ps s) {p : Place}
    (hlen : p.len = 0) : Follows (ps ++ [p]) s := by
  refine ⟨h.indexed, ?_, ?_⟩
  · intro step k hk
    obtain ⟨q, hq, hrest⟩ := h.arrived step k hk
    exact ⟨q, List.mem_append_left _ hq, hrest⟩
  · intro q hq hle
    rcases hq.of_concat with hold | ⟨rfl, hpos, -⟩
    · exact h.first q hold hle
    · rw [hlen] at hpos
      exact absurd hpos (by decide)

/-- A mark that moves on. -/
theorem Follows.marked {ps : List Place} {s : KernEventStream} (h : Follows ps s) (seq : ℕ)
    (egress : Bool) : Follows ps (s.markNeedDiscardSeq seq egress) := by
  have hstored : ∀ step, (s.markNeedDiscardSeq seq egress).stored step = s.stored step := by
    intro step
    unfold markNeedDiscardSeq
    split_ifs <;> rfl
  have hmark : ∀ direction, s.mark direction ≤ (s.markNeedDiscardSeq seq egress).mark direction := by
    intro direction
    unfold mark markNeedDiscardSeq
    split_ifs
    · exact le_max_left _ _
    · exact le_refl _
    · exact le_refl _
    · exact le_max_left _ _
  refine ⟨markNeedDiscardSeq_indexed h.indexed seq egress, ?_, ?_⟩
  · intro step k hk
    rw [hstored] at hk
    exact h.arrived step k hk
  · intro p hp hle
    rw [hstored]
    exact h.first p hp ((hmark _).trans hle)

theorem follows_new {maxLen : ℕ} (hpos : 0 < maxLen) : Follows [] (new maxLen hpos) := by
  refine ⟨?_, ?_, fun p hp => by cases hp⟩
  · intro step ring hget
    simp [new] at hget
  · intro step k hk
    rw [stored_of_none (by simp [new])] at hk
    cases hk

/-- What a lookup finds of the packets that were seen: nothing else, and of the first ones from the mark
on those that have a byte in the range. -/
structure Finds (s : KernEventStream) (ps : List Place) (step : AgentStepT) (start stop : ℕ)
    (result : List KernEvent) : Prop where
  ascending : Ascending result
  seen : ∀ k ∈ result, ∃ p ∈ ps, p.step = step ∧ p.Carries start stop ∧ p.Is k
  first : ∀ p : Place, p.First ps → p.step = step → s.mark (isEgressStep step) ≤ p.seq.toNat →
    ((∃ k ∈ result, p.Is k) ↔ p.Carries start stop)

/-- Only the sightings at the step count. -/
theorem Finds.of_step {s : KernEventStream} {ps qs : List Place} {step : AgentStepT} {start stop : ℕ}
    {result : List KernEvent} (h : s.Finds ps step start stop result)
    (hstep : ps.filter (fun p => p.step = step) = qs.filter (fun p => p.step = step)) :
    s.Finds qs step start stop result := by
  refine ⟨h.ascending, ?_, ?_⟩
  · intro k hk
    obtain ⟨p, hp, hrest⟩ := h.seen k hk
    have hmem : p ∈ qs.filter (fun p => p.step = step) :=
      hstep ▸ List.mem_filter.mpr ⟨hp, decide_eq_true hrest.1⟩
    exact ⟨p, List.mem_of_mem_filter hmem, hrest⟩
  · rintro p hp rfl hle
    refine h.first p ?_ rfl hle
    have hfind : ∀ l : List Place,
        (l.filter fun q => q.step = p.step).find? p.sameStart = l.find? p.sameStart := by
      intro l
      rw [List.find?_filter]
      refine congrArg (fun f => l.find? f) (funext fun q => ?_)
      unfold Bpf.Place.sameStart
      by_cases hq : q.step = p.step <;> simp [hq]
    unfold Bpf.Place.First at hp ⊢
    rw [← hfind ps, hstep, hfind qs]
    exact hp

/-- **A lookup among what was seen.** -/
theorem Follows.find {ps : List Place} {s : KernEventStream} (h : Follows ps s) (step : AgentStepT)
    {seq : ℕ} {len : ℤ} (hlen : 0 < len) (hwrap : seq + len < 2 ^ 64) :
    ∃ result, s.findEventsBySeqAndLen step seq len = .ok result
      ∧ s.Finds ps step seq (seq + len.toNat) result := by
  obtain ⟨hsorted, -⟩ := h.indexed.stored_ok step
  refine ⟨_, findEventsBySeqAndLen_eq h.indexed step hlen hwrap, hsorted.filter _, ?_, ?_⟩
  · intro k hk
    obtain ⟨hk, hmeet⟩ := List.mem_filter.mp hk
    obtain ⟨p, hp, hstep, -, hIs⟩ := h.arrived step k hk
    exact ⟨p, hp, hstep, hIs.carries.mp (of_decide_eq_true hmeet), hIs⟩
  · rintro p hp rfl hle
    constructor
    · rintro ⟨k, hk, hIs⟩
      exact hIs.carries.mp (of_decide_eq_true (List.mem_filter.mp hk).2)
    · intro hcarries
      obtain ⟨k, hk, hIs⟩ := h.first p hp hle
      exact ⟨k, List.mem_filter.mpr ⟨hk, decide_eq_true (hIs.carries.mpr hcarries)⟩, hIs⟩

end KernEventStream

/-! ## The connection -/

def tcpFlagsSyn : UInt8 := 2

def tcpFlagsAck : UInt8 := 16

/-- `Connection4`, as far as its kernel events read and write it. -/
structure KernConn where
  role : Role
  protocol : TrafficProtocol
  traceable : Bool
  streamEvents : KernEventStream
  tempKernEvents : List AgentKernEvt
  serverSynReceived : Bool
  serverSynReceivedTs : ℕ
  clientAckSent : Bool
  clientAckSentTs : ℕ

namespace KernConn

/-- `isReq`, and whether it can be told. -/
def isReq (c : KernConn) (step : AgentStepT) : Bool × Bool :=
  if c.role = .unknown then (false, false)
  else if c.role = .client then (isEgressStep step, true)
  else (isIngressStep step, true)

/-- `OnKernEvent`. -/
def onKernEvent (c : KernConn) (event : AgentKernEvt) (flags : UInt8)
    (getInterfaceNameByIndex : ℕ → ℕ → Option String) : Except Panic (Bool × KernConn) :=
  let (isReq, ok) := c.isReq event.step
  if event.len > 0 then do
    let (alreadyExisted, streamEvents) ← c.streamEvents.addKernEvent event getInterfaceNameByIndex
    .ok (alreadyExisted, { c with streamEvents := streamEvents })
  else if ok then
    let c :=
      if flags &&& tcpFlagsSyn ≠ 0 ∧ isReq = false ∧ event.step = AgentStepT.ipIn
          ∧ c.serverSynReceived = false then
        { c with serverSynReceived := true, serverSynReceivedTs := event.ts }
      else c
    let c :=
      if flags &&& tcpFlagsAck ≠ 0 ∧ isReq = true ∧ c.serverSynReceived = true ∧ c.clientAckSent = false
          ∧ event.step = AgentStepT.ipOut then
        { c with clientAckSent := true, clientAckSentTs := event.ts }
      else c
    .ok (true, c)
  else .ok (true, c)

/-- `event.Ts += common.LaunchEpochTime`. -/
def launch (launchEpochTime : ℕ) (event : AgentKernEvt) : AgentKernEvt :=
  { event with ts := u64 (event.ts + launchEpochTime) }

/-- `processKernEvent`, for an event whose lookup leads to the connection. -/
def processKernEvent (launchEpochTime : ℕ) (c : KernConn) (event : AgentKernEvt) (flags : UInt8)
    (getInterfaceNameByIndex : ℕ → ℕ → Option String) : Except Panic KernConn :=
  let event := launch launchEpochTime event
  if !c.traceable then .ok c
  else if event.len > 0 ∧ c.protocol ≠ .unknown then
    if c.protocol = .unset then do
      let (added, c) ← c.onKernEvent event flags getInterfaceNameByIndex
      .ok (if added then c else { c with tempKernEvents := c.tempKernEvents ++ [event] })
    else (c.onKernEvent event flags getInterfaceNameByIndex).map Prod.snd
  else if event.len > 0 then .ok c
  else (c.onKernEvent event flags getInterfaceNameByIndex).map Prod.snd

/-- `AddSyscallEvent`, which `OnSyscallEvent` ends with. The event has its time from
`processSyscallEvent`. -/
def addSyscallEvent (launchEpochTime : ℕ) (c : KernConn) (event : AgentKernEvt)
    (getInterfaceNameByIndex : ℕ → ℕ → Option String) : Except Panic KernConn :=
  (c.streamEvents.addKernEvent (launch launchEpochTime event) getInterfaceNameByIndex).map fun added =>
    { c with streamEvents := added.2 }

/-- What happens to a connection: a packet's event, that of a system call, a record that was analysed,
and what the other events find out about it. -/
inductive Op
  | kern (event : AgentKernEvt) (flags : UInt8) (getInterfaceNameByIndex : ℕ → ℕ → Option String)
  | syscall (event : AgentKernEvt) (getInterfaceNameByIndex : ℕ → ℕ → Option String)
  | analysed (seq : ℕ) (egress : Bool)
  | inferred (role : Role) (protocol : TrafficProtocol)

/-- The event of a packet. -/
def Op.packet : Op → Option (AgentKernEvt × UInt8)
  | .kern event flags _ => some (event, flags)
  | _ => none

/-- What the stream is told of. -/
def Op.place : Op → Option Place
  | .kern event _ _ => some event.place
  | .syscall event _ => some event.place
  | _ => none

def step (launchEpochTime : ℕ) (c : KernConn) : Op → Except Panic KernConn
  | .kern event flags names => c.processKernEvent launchEpochTime event flags names
  | .syscall event names => c.addSyscallEvent launchEpochTime event names
  | .analysed seq egress => .ok { c with streamEvents := c.streamEvents.markNeedDiscardSeq seq egress }
  | .inferred role protocol => .ok { c with role := role, protocol := protocol }

/-- There is room for an event in the ring of its step. -/
def Room (c : KernConn) (event : AgentKernEvt) : Prop :=
  (c.streamEvents.kept event.step).length < c.streamEvents.maxLen

/-- The connection is traced, and there is room for a payload. A system call is one that moved data. -/
def Allows (c : KernConn) : Op → Prop
  | .kern event _ _ =>
      c.traceable = true ∧ (0 < event.len → c.protocol ≠ .unknown ∧ c.Room event)
  | .syscall event _ =>
      0 < event.len ∧ (event.step = AgentStepT.syscallOut ∨ event.step = AgentStepT.syscallIn)
        ∧ c.Room event
  | _ => True

/-- The same packet with the time that user space reckons by. -/
def launched (launchEpochTime : ℕ) (p : Place) : Place := { p with ts := u64 (p.ts + launchEpochTime) }

theorem onKernEvent_empty (c : KernConn) {event : AgentKernEvt} (hlen : event.len = 0) (flags : UInt8)
    (names : ℕ → ℕ → Option String) :
    ∃ c', c.onKernEvent event flags names = .ok (true, c') ∧ c'.streamEvents = c.streamEvents := by
  have hpos : ¬event.len > 0 := by omega
  unfold onKernEvent
  dsimp only
  rw [if_neg hpos]
  split_ifs
  all_goals exact ⟨_, rfl, rfl⟩

theorem onKernEvent_payload (c : KernConn) {event : AgentKernEvt} (hlen : 0 < event.len) (flags : UInt8)
    {names : ℕ → ℕ → Option String} {r : Bool} {s' : KernEventStream}
    (hadd : c.streamEvents.addKernEvent event names = .ok (r, s')) :
    c.onKernEvent event flags names = .ok (r, { c with streamEvents := s' }) := by
  unfold onKernEvent
  dsimp only
  rw [if_pos hlen, hadd]
  rfl

/-- **One event** reaches the stream, if it has a payload. -/
theorem processKernEvent_follows {ps : List Place} {c : KernConn} (h : c.streamEvents.Follows ps)
    (launchEpochTime : ℕ) {event : AgentKernEvt} {flags : UInt8} {names : ℕ → ℕ → Option String}
    (hallowed : c.Allows (.kern event flags names)) :
    ∃ c', c.processKernEvent launchEpochTime event flags names = .ok c'
      ∧ c'.streamEvents.Follows (ps ++ [launched launchEpochTime event.place]) := by
  obtain ⟨htraced, hroom⟩ := hallowed
  have hplace : launched launchEpochTime event.place = (launch launchEpochTime event).place := rfl
  have hlen : event.len = (launch launchEpochTime event).len := rfl
  have hstep : event.step = (launch launchEpochTime event).step := rfl
  unfold processKernEvent
  dsimp only
  rw [hplace, htraced, if_neg (by decide)]
  unfold Room at hroom
  rw [hlen, hstep] at hroom
  generalize launch launchEpochTime event = event' at hroom ⊢
  by_cases hpos : 0 < event'.len
  · obtain ⟨hprotocol, hroom⟩ := hroom hpos
    obtain ⟨r, s', hadd, hfollows⟩ := h.add hpos hroom names
    rw [if_pos ⟨hpos, hprotocol⟩, c.onKernEvent_payload hpos flags hadd]
    -- Whether the protocol is known already makes no difference to the stream.
    split_ifs
    · cases r
      · exact ⟨_, rfl, hfollows⟩
      · exact ⟨_, rfl, hfollows⟩
    · exact ⟨_, rfl, hfollows⟩
  · obtain ⟨c', hok, hsame⟩ := c.onKernEvent_empty (Nat.eq_zero_of_not_pos hpos) flags names
    rw [if_neg (fun hk => hpos hk.1), if_neg hpos, hok]
    refine ⟨c', rfl, ?_⟩
    rw [hsame]
    refine h.empty (UInt32.toNat_inj.mp ?_)
    rw [event'.place_len]
    exact Nat.eq_zero_of_not_pos hpos

/-- A connection as it is made. -/
structure Fresh (c : KernConn) : Prop where
  streamEvents : ∃ maxLen hpos, c.streamEvents = KernEventStream.new maxLen hpos

/-- The event of a system call does. -/
theorem addSyscallEvent_follows {ps : List Place} {c : KernConn} (h : c.streamEvents.Follows ps)
    (launchEpochTime : ℕ) {event : AgentKernEvt} {names : ℕ → ℕ → Option String}
    (hallowed : c.Allows (.syscall event names)) :
    ∃ c', c.addSyscallEvent launchEpochTime event names = .ok c'
      ∧ c'.streamEvents.Follows (ps ++ [launched launchEpochTime event.place]) := by
  obtain ⟨hlen, -, hroom⟩ := hallowed
  have hlaunched : 0 < (launch launchEpochTime event).len := hlen
  obtain ⟨r, s', hadd, hfollows⟩ := h.add hlaunched hroom names
  unfold addSyscallEvent
  rw [hadd]
  exact ⟨_, rfl, hfollows⟩

/-- **A run** of a connection: its stream has what its events tell of. -/
theorem run_follows {launchEpochTime : ℕ} {c₀ c : KernConn} (hfresh : c₀.Fresh) {ops : List Op}
    (hrun : Run (step launchEpochTime) Allows c₀ ops c) :
    c.streamEvents.Follows ((ops.filterMap Op.place).map (launched launchEpochTime)) := by
  refine hrun.history (I := fun ops c => c.streamEvents.Follows
      ((ops.filterMap Op.place).map (launched launchEpochTime))) ?_ ?_
  · obtain ⟨maxLen, hpos, heq⟩ := hfresh.streamEvents
    rw [heq]
    exact KernEventStream.follows_new hpos
  · intro ops c op c' h hallowed hstep
    rw [List.filterMap_append, List.map_append]
    cases op with
    | kern event flags names =>
        obtain ⟨c₁, hok, hfollows⟩ := processKernEvent_follows h launchEpochTime hallowed
        rw [step, hok] at hstep
        cases hstep
        exact hfollows
    | syscall event names =>
        obtain ⟨c₁, hok, hfollows⟩ := addSyscallEvent_follows h launchEpochTime hallowed
        rw [step, hok] at hstep
        cases hstep
        exact hfollows
    -- A discard mark takes away what is below it, which is not promised any more.
    | analysed seq egress =>
        cases hstep
        rw [List.filterMap_cons_none rfl]
        exact (List.append_nil _).symm ▸ h.marked seq egress
    | inferred role protocol =>
        cases hstep
        rw [List.filterMap_cons_none rfl]
        exact (List.append_nil _).symm ▸ h

/-- At the steps of the packets the system calls tell nothing. -/
theorem run_packets {launchEpochTime : ℕ} {c₀ c : KernConn} {ops : List Op}
    (hrun : Run (step launchEpochTime) Allows c₀ ops c) {step : AgentStepT}
    (hout : step ≠ AgentStepT.syscallOut) (hin : step ≠ AgentStepT.syscallIn) :
    (ops.filterMap Op.place).filter (fun p => p.step = step)
      = ((ops.filterMap Op.packet).map fun e => e.1.place).filter (fun p => p.step = step) := by
  refine hrun.history (I := fun ops _ => (ops.filterMap Op.place).filter (fun p => p.step = step)
      = ((ops.filterMap Op.packet).map fun e => e.1.place).filter (fun p => p.step = step)) rfl ?_
  intro ops c op c' h hallowed _
  rw [List.filterMap_append, List.filterMap_append, List.map_append, List.filter_append,
    List.filter_append, h]
  congr 1
  cases op with
  | syscall event names =>
      have hstep : event.place.step ≠ step := by
        rcases hallowed.2.1 with heq | heq
        · exact fun hk => hout (hk.symm.trans heq)
        · exact fun hk => hin (hk.symm.trans heq)
      exact List.filter_cons_of_neg (by simpa using hstep)
  | kern event flags names => rfl
  | analysed seq egress => rfl
  | inferred role protocol => rfl

end KernConn

/-! ## From the packets to the lookups -/

namespace Bpf

/-- An event as user space reads it. -/
def PacketEvt.received (e : PacketEvt) : AgentKernEvt × UInt8 :=
  ({ ts := e.ts, tsDelta := 0, seq := e.seq.toNat, len := e.len.toNat, ifindex := e.ifindex
     tgidFd := e.connIdS.tgidFd, step := e.step, seq_lt := e.seq.toNat_lt, len_lt := e.len.toNat_lt },
    e.flags)

def NetEvent.received (tgidFd : ℕ) : NetEvent → Option (AgentKernEvt × UInt8)
  | .kern e => if e.connIdS.tgidFd = tgidFd then some e.received else none
  | .firstPacket _ => none

/-- The events of a connection, in the order they were sent. -/
def NetState.received (s : NetState) (tgidFd : ℕ) : List (AgentKernEvt × UInt8) :=
  s.sent.filterMap (NetEvent.received tgidFd)

theorem NetState.received_places (s : NetState) (tgidFd : ℕ) :
    (s.received tgidFd).map (fun e => e.1.place) = s.places tgidFd := by
  unfold NetState.received NetState.places
  rw [List.map_filterMap]
  refine List.filterMap_congr (fun evt _ => ?_)
  cases evt with
  | kern e =>
      unfold NetEvent.received NetEvent.place
      dsimp only
      split_ifs
      · rw [Option.map_some, PacketEvt.received, AgentKernEvt.place, UInt32.ofNat_toNat,
          UInt32.ofNat_toNat]
      · rfl
  | firstPacket e => rfl

/-- The packets of a connection since it was entered. -/
def Entry.packets (e : Entry) (s₀ : NetState) (ops : List NetOp) : List Place :=
  (ops.foldl e.flow.tell { e.told s₀ with places := [] }).places

/-- What was told before stays in front. -/
theorem Flow.tell_places (f : Flow) (ops : List NetOp) (told : Told) :
    (ops.foldl f.tell told).places = told.places ++ (ops.foldl f.tell { told with places := [] }).places
      ∧ (ops.foldl f.tell told).known = (ops.foldl f.tell { told with places := [] }).known
      ∧ (ops.foldl f.tell told).nat = (ops.foldl f.tell { told with places := [] }).nat := by
  induction ops using List.reverseRecOn with
  | nil => exact ⟨(List.append_nil _).symm, rfl, rfl⟩
  | append_singleton ops op ih =>
      obtain ⟨hplaces, hknown, hnat⟩ := ih
      rw [List.foldl_concat, List.foldl_concat]
      generalize ops.foldl f.tell told = a at hplaces hknown hnat ⊢
      generalize ops.foldl f.tell { told with places := [] } = b at hplaces hknown hnat ⊢
      cases op
      case record =>
          unfold tell
          dsimp only
          split_ifs
          · exact ⟨hplaces, rfl, hnat⟩
          · exact ⟨hplaces, hknown, hnat⟩
      case nat => exact ⟨hplaces, hknown, by unfold tell; dsimp only; rw [hnat]⟩
      all_goals
        unfold tell
        dsimp only
        rw [hknown, hnat, hplaces, List.append_assoc]
        exact ⟨rfl, rfl, rfl⟩

/-- **Packets are found.** Once user space has handled the events that were sent of a connection, a
lookup at a step of the packets returns those that carried a byte of its range, the ones before the mark
apart: no others, and each by its first sighting. -/
theorem packets_found {e : Entry} {s₀ : NetState} (hmade : (e.run s₀.tables).1 = true)
    (hnumbered : e.Numbered) (hself : e.sk.key.reverse ≠ e.sk.key)
    (hnew : ∀ key i, s₀.tables.sockKeyConnIdMap key = some i → key ≠ e.sk.key ∧ i.tgidFd ≠ e.tgidFd)
    {ops : List NetOp} {s : NetState}
    (hrun : Run NetOp.step e.flow.Allows (s₀.withTables (e.run s₀.tables).2) ops s)
    (launchEpochTime : ℕ) {c₀ c : KernConn} (hfresh : c₀.Fresh) {kops : List KernConn.Op}
    (hhandled : Run (KernConn.step launchEpochTime) KernConn.Allows c₀ kops c)
    (hsent : s₀.received e.tgidFd ++ kops.filterMap KernConn.Op.packet = s.received e.tgidFd)
    {step : AgentStepT} (hout : step ≠ AgentStepT.syscallOut) (hin : step ≠ AgentStepT.syscallIn)
    {seq : ℕ}
    {len : ℤ} (hlen : 0 < len) (hwrap : seq + len < 2 ^ 64) :
    ∃ result, c.streamEvents.findEventsBySeqAndLen step seq len = .ok result
      ∧ c.streamEvents.Finds ((e.packets s₀ ops).map (KernConn.launched launchEpochTime)) step seq
        (seq + len.toNat) result := by
  have hplaces := (Entry.run_entered hmade hnumbered hself hnew hrun).places
  have hfollows := KernConn.run_follows hfresh hhandled
  have hpackets : (kops.filterMap KernConn.Op.packet).map (fun e => e.1.place) = e.packets s₀ ops := by
    have htold : s.places e.tgidFd = s₀.places e.tgidFd ++ e.packets s₀ ops :=
      hplaces.trans (e.flow.tell_places ops (e.told s₀)).1
    rw [← NetState.received_places, ← hsent, List.map_append, NetState.received_places] at htold
    exact List.append_cancel_left htold
  have hsame := KernConn.run_packets hhandled hout hin
  rw [hpackets] at hsame
  obtain ⟨result, hfind, hfinds⟩ := hfollows.find step hlen hwrap
  refine ⟨result, hfind, hfinds.of_step ?_⟩
  have hmap : ∀ l : List Place,
      (l.map (KernConn.launched launchEpochTime)).filter (fun p => p.step = step)
      = (l.filter fun p => p.step = step).map (KernConn.launched launchEpochTime) := by
    intro l
    rw [List.filter_map]
    rfl
  rw [hmap, hmap, hsame]

/-! ### The packet to a translated address -/

/-- The event it is told by. -/
def serviceEvent : AgentKernEvt × UInt8 :=
  PacketEvt.received ⟨⟨connected.tgidFd, .unset⟩, 5, 1, 3, 0x18, 2, AgentStepT.devIn⟩

theorem slots_pos : 0 < 300 := by decide

/-- The connection before the event. -/
def watched : KernConn :=
  { role := .client, protocol := .http, traceable := true
    streamEvents := KernEventStream.new 300 slots_pos, tempKernEvents := [], serverSynReceived := false
    serverSynReceivedTs := 0, clientAckSent := false, clientAckSentTs := 0 }

def handleService : KernConn.Op := .kern serviceEvent.1 serviceEvent.2 fun _ _ => none

theorem watched_room : watched.Room serviceEvent.1 := by
  unfold KernConn.Room
  decide

theorem watched_allows : watched.Allows handleService :=
  ⟨rfl, fun _ => ⟨by decide, watched_room⟩⟩

theorem watched_step : ∃ c, KernConn.step 100 watched handleService = .ok c
    ∧ c.streamEvents.mark false = 0 := ⟨_, rfl, rfl⟩

theorem packets_found_service : ∃ c result, KernConn.step 100 watched handleService = .ok c
    ∧ c.streamEvents.findEventsBySeqAndLen AgentStepT.devIn 2 1 = .ok result
    ∧ ∃ k ∈ result, k.seq = 1 ∧ k.len = 3 ∧ k.startTs = 105 := by
  obtain ⟨c, hok, hmark⟩ := watched_step
  obtain ⟨result, hfind, hfinds⟩ := packets_found (e := connected) (s := afterReceiving) (by decide)
    ⟨by decide, by decide⟩ (by decide) (fun _ _ h => by cases h) receiving_run
    100 ⟨300, slots_pos, rfl⟩ (Run.nil.snoc watched_allows hok) (by rfl)
    (show AgentStepT.devIn ≠ AgentStepT.syscallOut by decide) (by decide)
    (show (0 : ℤ) < 1 by decide) (show ((2 : ℕ) : ℤ) + 1 < 2 ^ 64 by decide)
  have hfirst := hfinds.first ⟨AgentStepT.devIn, 105, 1, 3⟩ (by rfl) rfl (by
    change c.streamEvents.mark false ≤ 1
    omega)
  obtain ⟨k, hk, hIs⟩ := hfirst.mpr (by decide)
  exact ⟨c, result, hok, hfind, k, hk, hIs.seq, hIs.len, hIs.startTs⟩

end Bpf

end Kyanos
