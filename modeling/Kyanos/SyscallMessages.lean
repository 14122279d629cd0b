/-
From a system call to a message: `bpf/data_common.h` and `agent/conn/conntrack.go` as one.

The kernel counts the bytes of each direction and numbers its events by the counters. User space puts
the data of an event at its number and reads what has become whole. Neither looks at how an
application divides its stream into calls: a call may be a plain one or one with a vector, and may end
anywhere in a message.

`Captured` is what a call has to be so that nothing of it is lost: one of a traced connection, whose
buffers hold no more than an event does. A run of such calls is carried whole (`run_carries`), event
behind event; and what the agent makes of the events are the messages of the stream, each with the time
of the call that moved its first byte (`calls_become_messages`).
-/
import Kyanos.ByteCounters
import Kyanos.EventSlots
import Kyanos.RedisStream

set_option autoImplicit false

open GoNum Trace Framing

namespace Kyanos.Bpf

/-! ## Calls that lose nothing -/

/-- What a buffer of a vector holds. -/
def IoVec.bytes (iov : IoVec) : List UInt8 := iov.base.read 0 iov.len

/-- The bytes that went through the socket, as the buffers of the call have them. -/
def DataSyscall.content (call : DataSyscall) : List UInt8 :=
  if call.outcome.isPlain then call.args.buf.read 0 call.outcome.total
  else (call.args.iov.flatMap IoVec.bytes).take call.outcome.total

/-- The connection and the CPU when the call has been looked at and is to be reported. -/
def DataSyscall.look (call : DataSyscall) (bytesCount : Moved) (c : ConnInfo) (cpu : Cpu) :
    ConnInfo × Cpu :=
  if call.outcome.isPlain then
    (if c.inferring then
      inferConn call.maps call.direct call.args.buf bytesCount.count bytesCount.count c cpu
    else (false, c, cpu)).2
  else inferFromVecs call.maps call.args call.direct bytesCount c cpu

/-- **The whole call is captured**: it is counted, the connection is traced by then, and no buffer that
is reported holds more than an event does. -/
structure DataSyscall.Captured (call : DataSyscall) (c : ConnInfo) (cpu : Cpu) : Prop where
  given : call.Given
  counted : call.Counted
  started : call.args.startTs ≠ 0
  nestedSsl : call.isNestedSsl = false
  ssl : c.ssl = false
  plain : call.outcome.isPlain = true → call.outcome.total ≤ maxMsgSize
  vector : call.outcome.isPlain = false → call.outcome.total ≤ vecsLen (call.args.iov.take loopLimit)
  buffers : call.outcome.isPlain = false →
    ∀ iov ∈ call.args.iov.take loopLimit, iov.len ≤ maxMsgSize
  traced : ∀ bytesCount ∈ call.outcome.bytesCount,
    shouldTraceConn (call.look bytesCount c cpu).1 = true
  noHeader : ∀ bytesCount ∈ call.outcome.bytesCount,
    (call.look bytesCount c cpu).1.prependLengthHeader = false

/-- The data of an event, if it is one of data. -/
def Event.data : Event → Option (KernEvt × List UInt8)
  | .syscall ke msg => some (ke, msg)
  | _ => none

/-- An event of the bytes from a position on, which has them all. -/
structure WholeEvent (o : Origin) (lo : ℕ) (e : KernEvt × List UInt8) : Prop where
  nonempty : e.2 ≠ []
  lt : e.2.length < 2 ^ 31
  evt : ∃ header, e.1 = o.evt lo e.2.length false header

/-- The events of a call: its bytes from a position on, event behind event. -/
def Reports (o : Origin) : ℕ → List UInt8 → List (KernEvt × List UInt8) → Prop
  | _, bytes, [] => bytes = []
  | lo, bytes, e :: events =>
      WholeEvent o lo e ∧ ∃ back, bytes = e.2 ++ back ∧ Reports o (lo + e.2.length) back events

/-! ## One call -/

section OneCall

variable {o : Origin}

/-- A buffer that an event holds is reported whole. -/
theorem reportSyscallBuf_whole (hts : o.ts ≠ 0) {seq base len : ℕ} (hseq : seq % 2 ^ 32 = base % 2 ^ 32)
    (hpos : 0 < len) (hlen : len ≤ maxMsgSize) (buf : Memory) (header : ℕ) (cpu : Cpu) :
    ∃ e, (reportSyscallBuf o seq len buf false header cpu).events = cpu.events ++ [.syscall e.1 e.2]
      ∧ e.2 = buf.read 0 len ∧ WholeEvent o base e := by
  have hmax : maxMsgSize < 2 ^ 31 := by decide
  have hmin : min len maxMsgSize = len := Nat.min_eq_left hlen
  refine ⟨(o.evt base len false cpu.slot.lengthHeader, buf.read 0 len), ?_, rfl, ?_, ?_, ?_⟩
  · rw [reportSyscallBuf_eq hts seq hpos, hmin]
    unfold Origin.evt
    rw [hseq]
    rfl
  · rw [← List.length_pos_iff, Memory.read_length]
    exact hpos
  · rw [Memory.read_length]
    omega
  · dsimp only
    rw [Memory.read_length]
    exact ⟨_, rfl⟩

/-- The front of a buffer. -/
theorem read_take (buf : Memory) {n len : ℕ} (h : n ≤ len) : (buf.read 0 len).take n = buf.read 0 n := by
  unfold Memory.read
  rw [← List.map_take, List.take_range, Nat.min_eq_left h]

/-- **A vector is reported whole**, from the buffers `iovs` on. By induction on the buffers. -/
theorem reportVecs_whole (hts : o.ts ≠ 0) {totalSize base : ℕ} (lengthHeader : ℕ) (iovs : List IoVec)
    {seq bytesSent : ℕ} (cpu : Cpu) (hseq : seq % 2 ^ 32 = (base + bytesSent) % 2 ^ 32)
    (hsent : bytesSent ≤ totalSize) (hroom : totalSize ≤ bytesSent + vecsLen iovs)
    (hbuffers : ∀ iov ∈ iovs, iov.len ≤ maxMsgSize) :
    ∃ events, (reportRemainder o totalSize
        (reportVecsLoop o totalSize lengthHeader iovs seq bytesSent false cpu)).events
          = cpu.events ++ events
      ∧ Reports o (base + bytesSent) ((iovs.flatMap IoVec.bytes).take (totalSize - bytesSent))
          (events.filterMap Event.data) := by
  induction iovs generalizing seq bytesSent cpu with
  | nil =>
      have hall : totalSize ≤ bytesSent := hroom
      rw [reportVecsLoop, reportRemainder, if_neg (by omega)]
      exact ⟨[], (List.append_nil _).symm, List.take_nil⟩
  | cons iov iovs ih =>
      have hsum : vecsLen (iov :: iovs) = iov.len + vecsLen iovs := rfl
      obtain ⟨hfits, hbuffers⟩ := List.forall_mem_cons.mp hbuffers
      by_cases hleft : bytesSent < totalSize
      · rw [reportVecsLoop, if_pos hleft]
        dsimp only
        generalize hiovSize : min iov.len (totalSize - bytesSent) = iovSize
        -- What is left to send begins with the part of this buffer that the call filled.
        have hfront : (((iov :: iovs).flatMap IoVec.bytes).take (totalSize - bytesSent))
            = iov.base.read 0 iovSize
              ++ (iovs.flatMap IoVec.bytes).take (totalSize - (bytesSent + iovSize)) := by
          have hlength : iov.bytes.length = iov.len := Memory.read_length _ _ _
          rw [List.flatMap_cons, List.take_append, hlength, IoVec.bytes]
          by_cases hwhole : iov.len ≤ totalSize - bytesSent
          · have hsize : iovSize = iov.len := by omega
            rw [List.take_of_length_le (by rw [Memory.read_length]; exact hwhole), hsize, Nat.sub_sub]
          · -- The call ends in this buffer.
            have hsize : iovSize = totalSize - bytesSent := by omega
            rw [read_take _ (by omega), hsize,
              show totalSize - bytesSent - iov.len = 0 by omega,
              show totalSize - (bytesSent + (totalSize - bytesSent)) = 0 by omega]
        rw [hfront]
        obtain ⟨events, hevents, hreports⟩ := @ih ((seq + iovSize) % 2 ^ 32) (bytesSent + iovSize)
          (reportSyscallBuf o seq iovSize iov.base false lengthHeader cpu) (by omega) (by omega)
          (by omega) hbuffers
        rw [hevents]
        -- An empty buffer makes no event.
        by_cases hempty : iovSize = 0
        · subst hempty
          exact ⟨events, rfl, hreports⟩
        · obtain ⟨e, he, hmsg, hwhole⟩ := reportSyscallBuf_whole hts hseq (Nat.pos_of_ne_zero hempty)
            (by omega) iov.base lengthHeader cpu
          have hlen : e.2.length = iovSize := by rw [hmsg, Memory.read_length]
          rw [he, List.append_assoc]
          refine ⟨_, rfl, hwhole, _, by rw [← hmsg], ?_⟩
          rw [hlen, Nat.add_assoc]
          exact hreports
      · have hall : totalSize ≤ bytesSent := by omega
        have hdone := @reportVecsLoop_done o totalSize bytesSent lengthHeader (iov :: iovs) seq false cpu
          hall
        rw [hdone, reportRemainder, if_neg hleft, Nat.sub_eq_zero_of_le hall]
        exact ⟨[], (List.append_nil _).symm, List.take_zero⟩

/-- What makes no event of data makes none with data. -/
theorem Quiet.data {cpu cpu' : Cpu} (h : Quiet cpu cpu') :
    ∃ events, cpu'.events = cpu.events ++ events ∧ events.filterMap Event.data = [] := by
  obtain ⟨events, hevents, hnone⟩ := h
  refine ⟨events, hevents, ?_⟩
  rw [List.filterMap_eq_nil_iff] at hnone ⊢
  intro event hevent
  rcases event with _ | _ | _
  · rfl
  · exact absurd (hnone _ hevent) (by simp [Event.dataSeq])
  · rfl

end OneCall

theorem tracesData_of_should {inferred : Bool} {c : ConnInfo} (h : shouldTraceConn c = true) :
    tracesData inferred c = true := by
  unfold shouldTraceConn at h
  unfold tracesData
  rw [Bool.and_eq_true] at h
  rw [h.1, h.2]
  simp

namespace DataSyscall

variable {call : DataSyscall} {c : ConnInfo} {cpu : Cpu}

theorem Captured.total_eq_added (h : call.Captured c cpu) : call.outcome.total = call.added := by
  have hsum := call.added_add_missed
  have hzero := call.missed_eq_zero_iff.mpr h.counted
  omega

/-- A call that hands nothing on moved nothing. -/
theorem Captured.content_of_none (h : call.Captured c cpu) (hcount : call.outcome.bytesCount = none) :
    call.content = [] := by
  unfold content
  rw [h.total_eq_added, added_of_none hcount, List.take_zero]
  exact ite_self _

/-- What is handed on is what was moved; and a plain call is one of a traced process. -/
theorem Captured.of_some {bytesCount : Moved} (h : call.Captured c cpu)
    (hcount : call.outcome.bytesCount = some bytesCount) :
    call.outcome.total = bytesCount.count
      ∧ (call.outcome.isPlain = true → ¬Rejected call.maps call.task) := by
  have htraced : call.outcome.isPlain = true → ¬Rejected call.maps call.task := by
    intro hplain
    have hcounted := h.counted
    unfold Counted at hcounted
    rcases houtcome : call.outcome with ret | ret | msgLens
    · rw [houtcome] at hcount hcounted
      exact hcounted (Returned.moved_some hcount).1
    · rw [houtcome] at hplain
      cases hplain
    · rw [houtcome] at hplain
      cases hplain
  refine ⟨?_, htraced⟩
  rw [h.total_eq_added, added_of_some hcount]
  exact if_neg fun hboth => htraced hboth.1 hboth.2

/-- **A plain call** that is captured is reported whole. -/
theorem Captured.plain_reports {bytesCount : Moved} (h : call.Captured c cpu)
    (hcount : call.outcome.bytesCount = some bytesCount) (hplain : call.outcome.isPlain = true) :
    ∃ events, (processSyscallData call.maps call.task call.args call.tgidFd call.direct bytesCount
        call.isNestedSsl c cpu).2.events = cpu.events ++ events
      ∧ Reports (call.args.origin call.tgidFd (syscallStep call.direct)) (c.bytes call.direct + 1)
          call.content (events.filterMap Event.data) := by
  obtain ⟨htotal, htraced⟩ := h.of_some hcount
  have hshould := h.traced bytesCount hcount
  have hheader := h.noHeader bytesCount hcount
  have hlen := h.plain hplain
  unfold look at hshould hheader
  rw [if_pos hplain] at hshould hheader
  unfold processSyscallData
  rw [if_neg (htraced hplain), h.nestedSsl]
  simp only [Bool.false_eq_true, if_false]
  unfold processSyscallDataWithConnInfo
  rw [h.ssl, Bool.not_false, Bool.and_true]
  rcases hcall : (if c.inferring then
      inferConn call.maps call.direct call.args.buf bytesCount.count bytesCount.count c cpu
    else (false, c, cpu)) with ⟨inferred, c', cpu'⟩
  rw [hcall] at hshould hheader
  -- The inference may submit events of its own, but none that carries data.
  have hinfer : Kept c c' ∧ Quiet cpu cpu' := by
    split at hcall
    · have hquiet := @inferConn_quiet call.maps call.direct c cpu call.args.buf bytesCount.count
        bytesCount.count
      rw [hcall] at hquiet
      exact ⟨(inferConn_spec call.maps call.direct call.args.buf _ _ c cpu hcall).1, hquiet⟩
    · cases hcall
      exact ⟨Kept.refl c, Quiet.refl cpu⟩
  obtain ⟨hkept, hquiet⟩ := hinfer
  obtain ⟨first, hfirst, hnone⟩ := hquiet.data
  dsimp only at hshould hheader ⊢
  rw [if_pos (tracesData_of_should hshould), hkept.bytes]
  simp only [if_true, Bool.false_eq_true, if_false]
  rw [hheader]
  obtain ⟨e, he, hmsg, hwhole⟩ := @reportSyscallBuf_whole
    (call.args.origin call.tgidFd (syscallStep call.direct)) h.started (c.bytes call.direct + 1)
    (c.bytes call.direct + 1) bytesCount.count rfl bytesCount.pos (by omega) call.args.buf
    c'.lengthHeader cpu'
  refine ⟨first ++ [.syscall e.1 e.2], ?_, ?_⟩
  · rw [he, hfirst, List.append_assoc]
  · rw [List.filterMap_append, hnone]
    refine ⟨hwhole, [], ?_, rfl⟩
    unfold content
    rw [if_pos hplain, htotal, List.append_nil]
    exact hmsg.symm

theorem flatMap_bytes_length (iovs : List IoVec) : (iovs.flatMap IoVec.bytes).length = vecsLen iovs := by
  rw [List.length_flatMap, vecsLen]
  congr 1
  exact List.map_congr_left fun iov _ => Memory.read_length _ _ _

/-- What a vectored call moved is in the buffers that are reported. -/
theorem content_of_vector (hplain : call.outcome.isPlain = false)
    (hroom : call.outcome.total ≤ vecsLen (call.args.iov.take loopLimit)) :
    call.content = ((call.args.iov.take loopLimit).flatMap IoVec.bytes).take call.outcome.total := by
  have hlen := flatMap_bytes_length (call.args.iov.take loopLimit)
  unfold content
  rw [if_neg (by simp [hplain])]
  conv_lhs => rw [← List.take_append_drop loopLimit call.args.iov, List.flatMap_append]
  exact List.take_append_of_le_length (by omega)

/-- **A vectored call** that is captured is reported whole. -/
theorem Captured.vector_reports {bytesCount : Moved} (h : call.Captured c cpu)
    (hcount : call.outcome.bytesCount = some bytesCount) (hplain : call.outcome.isPlain = false) :
    ∃ events, (processSyscallDataVecs call.maps call.args call.tgidFd call.direct bytesCount
        call.isNestedSsl c cpu).2.events = cpu.events ++ events
      ∧ Reports (call.args.origin call.tgidFd (syscallStep call.direct)) (c.bytes call.direct + 1)
          call.content (events.filterMap Event.data) := by
  obtain ⟨htotal, -⟩ := h.of_some hcount
  have hshould := h.traced bytesCount hcount
  have hheader := h.noHeader bytesCount hcount
  have hroom := h.vector hplain
  have hiov := h.given.iov (by simp [hcount]) hplain
  have hfd := h.given.fd
  unfold look at hshould hheader
  rw [if_neg (by simp [hplain])] at hshould hheader
  unfold processSyscallDataVecs
  rw [if_neg (by
    rintro (hnil | hneg)
    · exact hiov hnil
    · omega), h.nestedSsl]
  simp only [Bool.false_eq_true, if_false]
  unfold processVecsWithConnInfo
  rw [h.ssl]
  dsimp only
  rw [Bool.not_false, if_pos rfl, if_pos hshould, hheader]
  have hkept : Kept c (inferFromVecs call.maps call.args call.direct bytesCount c cpu).1 :=
    inferFromVecs_kept
  have hquiet : Quiet cpu (inferFromVecs call.maps call.args call.direct bytesCount c cpu).2 :=
    inferFromVecs_quiet
  obtain ⟨first, hfirst, hnone⟩ := hquiet.data
  rw [hkept.bytes]
  obtain ⟨events, hevents, hreports⟩ := @reportVecs_whole
    (call.args.origin call.tgidFd (syscallStep call.direct)) h.started bytesCount.count
    (c.bytes call.direct + 1)
    (inferFromVecs call.maps call.args call.direct bytesCount c cpu).1.lengthHeader
    (call.args.iov.take loopLimit) (c.bytes call.direct + 1) 0
    (inferFromVecs call.maps call.args call.direct bytesCount c cpu).2 rfl (Nat.zero_le _)
    (by omega) (h.buffers hplain)
  refine ⟨first ++ events, ?_, ?_⟩
  · unfold reportSyscallEvtVecs
    rw [hevents, hfirst, List.append_assoc]
  · rw [List.filterMap_append, hnone, content_of_vector hplain hroom, htotal]
    exact hreports

/-- **One call**: its bytes, event behind event, numbered by the counter. -/
theorem Captured.run_reports (h : call.Captured c cpu) :
    ∃ events, (call.run c cpu).2.events = cpu.events ++ events
      ∧ Reports (call.args.origin call.tgidFd (syscallStep call.direct)) (c.bytes call.direct + 1)
          call.content (events.filterMap Event.data) := by
  unfold run
  rcases hcount : call.outcome.bytesCount with _ | bytesCount
  · exact ⟨[], (List.append_nil _).symm, h.content_of_none hcount⟩
  · dsimp only
    by_cases hplain : call.outcome.isPlain = true
    · rw [if_pos hplain]
      exact h.plain_reports hcount hplain
    · rw [if_neg hplain]
      exact h.vector_reports hcount (Bool.eq_false_iff.mpr hplain)

theorem content_length (h : call.Captured c cpu) : call.content.length = call.outcome.total := by
  unfold content
  split_ifs with hplain
  · exact Memory.read_length _ _ _
  · have hlen := flatMap_bytes_length (call.args.iov.take loopLimit)
    have hroom := h.vector (Bool.eq_false_iff.mpr hplain)
    have hmore : ((call.args.iov.take loopLimit).flatMap IoVec.bytes).length
        ≤ (call.args.iov.flatMap IoVec.bytes).length := by
      conv_rhs => rw [← List.take_append_drop loopLimit call.args.iov, List.flatMap_append]
      rw [List.length_append]
      omega
    rw [List.length_take]
    omega

end DataSyscall

/-! ## A run of calls -/

/-- What was sent in a direction: the bytes of its calls. -/
def stream (d : Direction) (calls : List DataSyscall) : List UInt8 :=
  (calls.filter fun call => call.direct = d).flatMap DataSyscall.content

/-- What the events of a direction carry. -/
def carried (d : Direction) (sent : List (KernEvt × List UInt8)) : List UInt8 :=
  (sent.filter fun e => e.1.step = syscallStep d).flatMap Prod.snd

/-- Events that carry the stream of each direction: every one starts where those before it of its
direction end. -/
inductive Carries : List (KernEvt × List UInt8) → Prop
  | start : Carries []
  | next {sent : List (KernEvt × List UInt8)} {e : KernEvt × List UInt8} {o : Origin} {d : Direction}
      (before : Carries sent) (step : o.step = syscallStep d)
      (whole : WholeEvent o ((carried d sent).length + 1) e) : Carries (sent ++ [e])

/-- The last event of a run of them. -/
theorem Carries.of_snoc {sent : List (KernEvt × List UInt8)} {e : KernEvt × List UInt8}
    (h : Carries (sent ++ [e])) : Carries sent ∧ ∃ o d, o.step = syscallStep d
      ∧ WholeEvent o ((carried d sent).length + 1) e := by
  generalize hsnoc : sent ++ [e] = all at h
  cases h with
  | start => simp at hsnoc
  | next before step whole =>
      obtain ⟨rfl, hlast⟩ := List.append_inj' hsnoc rfl
      cases hlast
      exact ⟨before, _, _, step, whole⟩

theorem syscallStep_inj {d d' : Direction} : syscallStep d = syscallStep d' ↔ d = d' := by
  cases d <;> cases d' <;> decide

theorem carried_append (d : Direction) (sent sent' : List (KernEvt × List UInt8)) :
    carried d (sent ++ sent') = carried d sent ++ carried d sent' := by
  unfold carried
  rw [List.filter_append, List.flatMap_append]

theorem WholeEvent.step {o : Origin} {lo : ℕ} {e : KernEvt × List UInt8} (h : WholeEvent o lo e) :
    e.1.step = o.step := by
  obtain ⟨header, hevt⟩ := h.evt
  rw [hevt]
  rfl

theorem WholeEvent.carried {o : Origin} {lo : ℕ} {e : KernEvt × List UInt8} {d : Direction}
    (h : WholeEvent o lo e) (hstep : o.step = syscallStep d) (d' : Direction) :
    carried d' [e] = if d' = d then e.2 else [] := by
  unfold Bpf.carried
  rw [List.filter_singleton, h.step, hstep]
  by_cases hd : d' = d
  · subst hd
    simp
  · have hne : ¬syscallStep d = syscallStep d' := fun heq => hd (syscallStep_inj.mp heq).symm
    simp [hd, hne]

/-- The events of a call go behind those that were sent. -/
theorem Carries.reports {o : Origin} {d : Direction} (hstep : o.step = syscallStep d)
    {events sent : List (KernEvt × List UInt8)} {bytes : List UInt8} (h : Carries sent)
    (hreports : Reports o ((carried d sent).length + 1) bytes events) :
    Carries (sent ++ events)
      ∧ ∀ d', carried d' (sent ++ events) = carried d' sent ++ if d' = d then bytes else [] := by
  induction events generalizing sent bytes with
  | nil =>
      have hnone : bytes = [] := hreports
      subst hnone
      simpa using h
  | cons e events ih =>
      obtain ⟨hwhole, back, hbytes, hback⟩ := hreports
      have hnext : Carries (sent ++ [e]) := .next h hstep hwhole
      have hcarried : ∀ d',
          carried d' (sent ++ [e]) = carried d' sent ++ if d' = d then e.2 else [] := by
        intro d'
        rw [carried_append, hwhole.carried hstep]
      have hlen : (carried d (sent ++ [e])).length + 1 = (carried d sent).length + 1 + e.2.length := by
        rw [hcarried, if_pos rfl, List.length_append]
        omega
      rw [← hlen] at hback
      obtain ⟨hall, hcarries⟩ := ih hnext hback
      rw [List.append_assoc] at hall hcarries
      refine ⟨hall, fun d' => ?_⟩
      rw [List.singleton_append] at hcarries
      rw [hcarries, hcarried, hbytes]
      split_ifs
      · rw [List.append_assoc]
      · rw [List.append_assoc]
        rfl

/-! ## Times -/

/-- The time the agent gives the bytes of a call: when the call began to write them, or when it had read
them. -/
def timeOf (d : Direction) (ts tsDelta : ℕ) : ℕ :=
  match d with
  | .egress => ts
  | .ingress => u64 (ts + tsDelta)

def DataSyscall.time (call : DataSyscall) : ℕ :=
  timeOf call.direct call.args.startTs (subU64 call.args.endTs call.args.startTs % 2 ^ 32)

/-- Where the bytes of each call of a direction start, and their time. -/
def callStarts (d : Direction) : ℕ → List DataSyscall → List (ℕ × ℕ)
  | _, [] => []
  | lo, call :: calls =>
      if call.direct = d ∧ call.content ≠ [] then
        (lo, call.time) :: callStarts d (lo + call.content.length) calls
      else callStarts d lo calls

/-- The same of the events. -/
def eventStarts (d : Direction) (sent : List (KernEvt × List UInt8)) : List (ℕ × ℕ) :=
  (sent.filter fun e => e.1.step = syscallStep d).map fun e => (e.1.seq, timeOf d e.1.ts e.1.tsDelta)

theorem stream_append (d : Direction) (calls : List DataSyscall) (call : DataSyscall) :
    stream d (calls ++ [call]) = stream d calls ++ if call.direct = d then call.content else [] := by
  unfold stream
  rw [List.filter_append, List.flatMap_append, List.filter_singleton]
  split_ifs with hd <;> simp [hd]

theorem callStarts_append (d : Direction) (lo : ℕ) (calls : List DataSyscall) (call : DataSyscall) :
    callStarts d lo (calls ++ [call]) = callStarts d lo calls
      ++ if call.direct = d ∧ call.content ≠ [] then [(lo + (stream d calls).length, call.time)]
        else [] := by
  induction calls generalizing lo with
  | nil => rfl
  | cons first calls ih =>
      have hstream : (stream d (first :: calls)).length
          = (if first.direct = d then first.content.length else 0) + (stream d calls).length := by
        unfold stream
        rw [List.filter_cons]
        split_ifs <;> simp_all
      rw [List.cons_append, callStarts, callStarts, ih, ih, hstream]
      by_cases hd : first.direct = d
      · by_cases hnone : first.content = []
        · simp [hd, hnone]
        · simp [hd, hnone, Nat.add_assoc]
      · simp [hd]

/-- All events of a call have its time. -/
theorem Reports.stampAt {o : Origin} {d : Direction} (hstep : o.step = syscallStep d) {lo : ℕ}
    {events : List (KernEvt × List UInt8)} {bytes : List UInt8} (h : Reports o lo bytes events)
    (hend : lo + bytes.length ≤ 2 ^ 32) (starts : List (ℕ × ℕ)) (pos : ℕ) :
    Framing.stampAt (starts ++ eventStarts d events) pos
      = if bytes ≠ [] ∧ lo ≤ pos then some (timeOf d o.ts o.tsDelta)
        else Framing.stampAt starts pos := by
  induction events generalizing lo bytes starts with
  | nil =>
      have hnone : bytes = [] := h
      subst hnone
      simp [eventStarts]
  | cons e events ih =>
      obtain ⟨hwhole, back, hbytes, hback⟩ := h
      have hsome := hwhole.nonempty
      have hpos := List.length_pos_iff.mpr hsome
      have hlen : bytes.length = e.2.length + back.length := by rw [hbytes, List.length_append]
      have hlo : lo % 2 ^ 32 = lo := Nat.mod_eq_of_lt (by omega)
      have hfirst :
          eventStarts d (e :: events) = (lo, timeOf d o.ts o.tsDelta) :: eventStarts d events := by
        obtain ⟨header, hevt⟩ := hwhole.evt
        unfold eventStarts
        rw [List.filter_cons, if_pos (by rw [hwhole.step, hstep]; exact decide_eq_true rfl),
          List.map_cons, hevt]
        unfold Origin.evt
        rw [hlo]
      have hne : bytes ≠ [] := by
        rw [← List.length_pos_iff]
        omega
      rw [hfirst, List.append_cons, ih hback (by omega), stampAt_append]
      by_cases hle : lo ≤ pos
      · simp [hne, hle]
      · rw [if_neg (by omega), if_neg (by omega), if_neg (by omega)]

/-- The events of a call are of its direction. -/
theorem Reports.eventStarts_other {o : Origin} {d d' : Direction} (hstep : o.step = syscallStep d)
    (hother : d ≠ d') {lo : ℕ} {events : List (KernEvt × List UInt8)} {bytes : List UInt8}
    (h : Reports o lo bytes events) : eventStarts d' events = [] := by
  induction events generalizing lo bytes with
  | nil => rfl
  | cons e events ih =>
      obtain ⟨hwhole, back, -, hback⟩ := h
      unfold eventStarts
      rw [List.filter_cons_of_neg]
      · exact ih hback
      · rw [hwhole.step, hstep]
        simpa using fun heq => hother (syscallStep_inj.mp heq)

/-! ## The kernel -/

/-- **What a run of calls leaves**: the counters are where the streams are, and the events carry the
streams whole, with the times of the calls. -/
structure Fed (calls : List DataSyscall) (s : Tracked) : Prop where
  followed : s.Followed
  moved : ∀ d, s.moved d = (stream d calls).length
  carries : Carries (s.cpu.events.filterMap Event.data)
  carried : ∀ d, carried d (s.cpu.events.filterMap Event.data) = stream d calls
  times : ∀ d pos, stampAt (eventStarts d (s.cpu.events.filterMap Event.data)) pos
    = stampAt (callStarts d 1 calls) pos

theorem fed_start (c : ConnInfo) {cpu : Cpu} (hquiet : cpu.events.filterMap Event.data = []) :
    Fed [] (Tracked.start c cpu) := by
  have hnone : (Tracked.start c cpu).cpu.events.filterMap Event.data = [] := hquiet
  refine ⟨?_, fun _ => rfl, ?_, ?_, ?_⟩
  · intro d
    cases d <;> rfl
  · rw [hnone]
    exact .start
  · intro d
    rw [hnone]
    rfl
  · intro d pos
    rw [hnone]
    rfl

/-- **One call of a run.** -/
theorem Fed.step {calls : List DataSyscall} {call : DataSyscall} {s s' : Tracked} (h : Fed calls s)
    (hcaptured : call.Captured s.conn s.cpu) (hstep : s.step call = .ok s')
    (hshort : ∀ d, s'.moved d < 2 ^ 32) : Fed (calls ++ [call]) s' := by
  obtain ⟨-, hcpu, hmoved⟩ := Tracked.of_step hstep
  have hlength := DataSyscall.content_length hcaptured
  have hbytes : s.conn.bytes call.direct = (stream call.direct calls).length := by
    have hsmall := hshort call.direct
    rw [hmoved, h.moved] at hsmall
    rw [h.followed, h.moved]
    unfold u64
    omega
  obtain ⟨events, hevents, hreports⟩ := hcaptured.run_reports
  rw [hbytes, ← h.carried] at hreports
  have hstepOf : (call.args.origin call.tgidFd (syscallStep call.direct)).step
    = syscallStep call.direct := rfl
  -- The count of the connection has not wrapped, so the events begin where the stream ends.
  obtain ⟨hcarries, hcarried⟩ := h.carries.reports hstepOf hreports
  have hdata : s'.cpu.events.filterMap Event.data
      = s.cpu.events.filterMap Event.data ++ events.filterMap Event.data := by
    rw [hcpu, hevents, List.filterMap_append]
  refine ⟨?_, ?_, ?_, ?_, ?_⟩
  · exact (Tracked.step_followed_iff h.followed hcaptured.given hstep).mpr hcaptured.counted
  · intro d
    rw [hmoved, h.moved, stream_append]
    by_cases hd : d = call.direct
    · rw [if_pos hd, if_pos hd.symm, List.length_append, hlength]
    · rw [if_neg hd, if_neg (Ne.symm hd), List.append_nil, Nat.add_zero]
  · rw [hdata]
    exact hcarries
  · intro d
    rw [hdata, hcarried, h.carried, stream_append]
    by_cases hd : d = call.direct
    · rw [if_pos hd, if_pos hd.symm]
    · rw [if_neg hd, if_neg (Ne.symm hd)]
  · intro d pos
    have hsplit : eventStarts d (s.cpu.events.filterMap Event.data ++ events.filterMap Event.data)
        = eventStarts d (s.cpu.events.filterMap Event.data)
          ++ eventStarts d (events.filterMap Event.data) := by
      unfold eventStarts
      rw [List.filter_append, List.map_append]
    rw [hdata, hsplit, callStarts_append]
    -- A call that moved nothing has no event, and it starts nothing.
    by_cases hd : call.direct = d
    · subst hd
      have hend := hshort call.direct
      rw [hmoved, if_pos rfl, h.moved, ← hlength] at hend
      rw [hreports.stampAt hstepOf (by rw [h.carried]; omega), h.carried]
      by_cases hnone : call.content = []
      · rw [if_neg fun hboth => hboth.1 hnone, if_neg fun hboth => hboth.2 hnone, List.append_nil]
        exact h.times _ _
      · rw [if_pos (show call.direct = call.direct ∧ call.content ≠ [] from ⟨rfl, hnone⟩),
          stampAt_append,
          ← h.times, Nat.add_comm 1]
        by_cases hle : (stream call.direct calls).length + 1 ≤ pos
        · rw [if_pos ⟨hnone, hle⟩, if_pos hle]
          rfl
        · rw [if_neg fun hboth => hle hboth.2, if_neg hle]
    · rw [if_neg fun hboth => hd hboth.1, List.append_nil, hreports.eventStarts_other hstepOf hd,
        List.append_nil, h.times]

/-- **Every run of captured calls is carried whole**, as long as positions have 32 bits. -/
theorem run_fed {c : ConnInfo} {cpu : Cpu} (hquiet : cpu.events.filterMap Event.data = [])
    {calls : List DataSyscall} {s : Tracked}
    (h : Run Tracked.step (fun s call => call.Captured s.conn s.cpu) (Tracked.start c cpu) calls s)
    (hshort : ∀ d, s.moved d < 2 ^ 32) : Fed calls s := by
  induction h with
  | nil => exact fed_start c hquiet
  | snoc prev allowed stepped ih =>
      obtain ⟨-, -, hmoved⟩ := Tracked.of_step stepped
      refine (ih fun d => ?_).step allowed stepped hshort
      -- The counts only grow, so they were short before the call as well.
      have hless := hshort d
      rw [hmoved] at hless
      omega

/-! ## The agent -/

section Agent

variable {π σ : Type}

/-- The direction that a side of a connection is of. -/
def directionOf (c : Connection4 π σ) : Side → Direction
  | .req => if c.role = .client then .egress else .ingress
  | .resp => if c.role = .client then .ingress else .egress

theorem syscallStep_le_nicOut {d : Direction} : syscallStep d ≤ AgentStepT.nicOut ↔ d = .egress := by
  cases d <;> decide

theorem nicIn_le_syscallStep {d : Direction} : AgentStepT.nicIn ≤ syscallStep d ↔ d = .ingress := by
  cases d <;> decide

theorem sideOf_iff {c : Connection4 π σ} (hrole : c.role ≠ .unknown) {ke : KernEvt} {d : Direction}
    (hstep : ke.step = syscallStep d) (side : Side) :
    c.sideOf ke.received = side ↔ d = directionOf c side := by
  have hreceived : ke.received.step = syscallStep d := hstep
  unfold Connection4.sideOf Connection4.isReq Connection4.isServerSide directionOf
  rw [if_neg hrole, hreceived]
  simp only [syscallStep_le_nicOut, ge_iff_le, nicIn_le_syscallStep]
  cases hkind : c.role with
  | unknown => exact absurd hkind hrole
  | client => cases side <;> cases d <;> decide
  | server => cases side <;> cases d <;> decide

/-- The time of an event is that of its bytes. -/
theorem stampOf_eq {c : Connection4 π σ} (hrole : c.role ≠ .unknown) {ke : KernEvt} {d : Direction}
    (hstep : ke.step = syscallStep d) : c.stampOf ke.received = timeOf d ke.ts ke.tsDelta := by
  have hreceived : ke.received.step = syscallStep d := hstep
  unfold Connection4.stampOf Connection4.getEventTimestamp Connection4.isReq Connection4.isServerSide
  rw [if_neg hrole, hreceived]
  simp only [syscallStep_le_nicOut, ge_iff_le, nicIn_le_syscallStep]
  cases hkind : c.role with
  | unknown => exact absurd hkind hrole
  | client => cases d <;> rfl
  | server => cases d <;> rfl

/-- An event, with what is read besides the connection while it is handled. -/
def incoming (a : Surroundings π σ × KernEvt × List UInt8) : Incoming π σ :=
  ⟨a.1, a.2.1.dataEvent a.2.2⟩

/-- `OnSyscallEvent`, for one event after the other, up to a panic. -/
def onSyscallEvents (fuel : ℕ) (c : Connection4 π σ)
    (as : List (Surroundings π σ × KernEvt × List UInt8)) : Option (Except Panic (Connection4 π σ)) :=
  as.foldl
    (fun r a => match r with
      | some (.ok c) => (onSyscallEvent a.1 false c a.2.1 a.2.2 fuel).map (Except.map Prod.snd)
      | r => r)
    (some (.ok c))

/-- The data of an event that has all its bytes. -/
theorem WholeEvent.syscallData {o : Origin} {lo : ℕ} {e : KernEvt × List UInt8} (h : WholeEvent o lo e) :
    syscallData false e.1 e.2 = some e.2 := by
  have hpos := List.length_pos_iff.mpr h.nonempty
  have hlt := h.lt
  obtain ⟨header, hevt⟩ := h.evt
  have hlen : e.1.len = e.2.length := by
    rw [hevt]
    exact Nat.mod_eq_of_lt (by omega)
  unfold Bpf.syscallData fillSyscallDataIfNeeded
  rw [if_pos hpos, if_neg (by decide), hlen, if_neg (lt_irrefl _)]

/-- Every event of a direction that carries bytes has them all. -/
theorem Carries.whole {sent : List (KernEvt × List UInt8)} (h : Carries sent) :
    ∀ e ∈ sent, ∃ o lo d, WholeEvent o lo e ∧ e.1.step = syscallStep d := by
  induction h with
  | start => exact fun _ he => absurd he List.not_mem_nil
  | next before step whole ih =>
      intro e he
      rcases List.mem_append.mp he with he | he
      · exact ih e he
      · rw [List.mem_singleton.mp he]
        exact ⟨_, _, _, whole, whole.step.trans step⟩

theorem onSyscallEvents_eq {fuel : ℕ} {c : Connection4 π σ}
    {as : List (Surroundings π σ × KernEvt × List UInt8)} (h : Carries (as.map Prod.snd)) :
    onSyscallEvents fuel c as = c.receiveAll fuel (as.map incoming) := by
  unfold onSyscallEvents Connection4.receiveAll
  rw [List.foldl_map]
  apply List.foldl_ext
  intro r a ha
  obtain ⟨o, lo, d, hwhole, -⟩ := h.whole a.2 (List.mem_map_of_mem ha)
  rcases r with _ | _ | c
  · rfl
  · rfl
  · change (onSyscallEvent a.1 false c a.2.1 a.2.2 fuel).map _ = _
    unfold onSyscallEvent
    rw [hwhole.syscallData]
    rfl

/-- What is asked of the agent when it handles an event: there is room, and no side has waited too long
for the rest of a frame. -/
structure KeepsUp {parser : ProtocolStreamParser π σ} (sent : ∀ side, Sent parser side)
    (c₀ : Connection4 π σ) (before : List (Incoming π σ)) (a : Incoming π σ) : Prop where
  parser : a.env.parser = some parser
  room : ∀ side, c₀.sideOf a.event.ke = side →
    (((sent side).framed.layout.left (sent side).frames (c₀.fed side before)
        + a.event.data.length : ℕ) : ℤ)
      ≤ streamBufferCapacity
  few : ∀ side, c₀.sideOf a.event.ke = side →
    ((c₀.starts side (before ++ [a])).filter
      fun s => (sent side).position (c₀.fed side before) < s.1).length ≤ maxTimestampEntries / 2
  fresh : ∀ side, (sent side).Fresh a.env (c₀.fed side (before ++ [a])) (c₀.starts side (before ++ [a]))

variable {parser : ProtocolStreamParser π σ} {sent : ∀ side, Sent parser side} {c₀ : Connection4 π σ}
  {as : List (Surroundings π σ × KernEvt × List UInt8)}

/-- How many bytes a side has got. -/
theorem fed_incoming (hrole : c₀.role ≠ .unknown) (h : Carries (as.map Prod.snd)) (side : Side) :
    c₀.fed side (as.map incoming) = (carried (directionOf c₀ side) (as.map Prod.snd)).length := by
  have hwhole := h.whole
  clear h
  induction as with
  | nil => rfl
  | cons a as ih =>
      rw [List.map_cons] at hwhole
      obtain ⟨⟨o, lo, d, -, hstep⟩, hrest⟩ := List.forall_mem_cons.mp hwhole
      have hcons : c₀.fed side ((a :: as).map incoming)
          = (if c₀.sideOf a.2.1.received = side then a.2.2.length else 0)
            + c₀.fed side (as.map incoming) := by
        unfold Connection4.fed Connection4.arrivals
        rw [List.map_cons, List.filter_cons]
        by_cases hside : c₀.sideOf a.2.1.received = side
        · rw [if_pos hside, if_pos (by exact decide_eq_true hside), List.map_cons, List.sum_cons]
          rfl
        · rw [if_neg hside, if_neg (by exact fun heq => hside (of_decide_eq_true heq)), Nat.zero_add]
      rw [hcons, ih hrest, List.map_cons]
      unfold carried
      rw [List.filter_cons, hstep]
      simp only [sideOf_iff hrole hstep, syscallStep_inj]
      by_cases hd : d = directionOf c₀ side
      · simp [hd]
      · simp [hd]

/-- Where its pieces started, and when. -/
theorem starts_incoming (hrole : c₀.role ≠ .unknown) (h : Carries (as.map Prod.snd)) (side : Side) :
    c₀.starts side (as.map incoming) = eventStarts (directionOf c₀ side) (as.map Prod.snd) := by
  have hwhole := h.whole
  clear h
  induction as with
  | nil => rfl
  | cons a as ih =>
      rw [List.map_cons] at hwhole
      obtain ⟨⟨o, lo, d, he, hstep⟩, hrest⟩ := List.forall_mem_cons.mp hwhole
      obtain ⟨header, hevt⟩ := he.evt
      have hseq : a.2.1.seq % 2 ^ 32 = a.2.1.seq := by
        rw [hevt]
        exact Nat.mod_mod _ _
      have hstart : ((incoming a).event.ke.seq, c₀.stampOf (incoming a).event.ke)
          = (a.2.1.seq, timeOf d a.2.1.ts a.2.1.tsDelta) := by
        refine Prod.ext hseq ?_
        exact stampOf_eq hrole hstep
      have hside := sideOf_iff hrole hstep side
      have htail := ih hrest
      unfold Connection4.starts Connection4.arrivals eventStarts at htail ⊢
      rw [List.map_cons, List.map_cons, List.filter_cons, List.filter_cons, hstep]
      by_cases hd : d = directionOf c₀ side
      · have hsame : c₀.sideOf (incoming a).event.ke = side := hside.mpr hd
        rw [if_pos (decide_eq_true hsame), if_pos (decide_eq_true (syscallStep_inj.mpr hd)),
          List.map_cons, List.map_cons, hstart, htail, hd]
      · have hother : ¬c₀.sideOf (incoming a).event.ke = side := fun heq => hd (hside.mp heq)
        have hstep' : ¬syscallStep d = syscallStep (directionOf c₀ side) :=
          fun heq => hd (syscallStep_inj.mp heq)
        rw [if_neg fun heq => hother (of_decide_eq_true heq),
          if_neg fun heq => hstep' (of_decide_eq_true heq), htail]

/-- **What the kernel sends is what the agent can read**: every event has the next part of the stream of
its side. -/
theorem arriving_of_carries (hrole : c₀.role ≠ .unknown) (hbase : ∀ side, (sent side).base = 1)
    (h : Carries (as.map Prod.snd))
    (hstream : ∀ side, carried (directionOf c₀ side) (as.map Prod.snd)
      <+: (sent side).framed.layout.stream (sent side).frames)
    (hshort : ∀ d, (carried d (as.map Prod.snd)).length < 2 ^ 32)
    (hkeeps : ∀ before a, before ++ [a] <+: as.map incoming → KeepsUp sent c₀ before a) :
    Arriving sent c₀ (as.map incoming) := by
  induction as using List.reverseRecOn with
  | nil => exact .start
  | append_singleton as a ih =>
      rw [List.map_append, List.map_singleton] at h hstream hshort hkeeps ⊢
      obtain ⟨hbefore, o, d, hstep, hwhole⟩ := h.of_snoc
      have hpos := List.length_pos_iff.mpr hwhole.nonempty
      have hcarried : ∀ d', carried d' (as.map Prod.snd ++ [a.2])
          = carried d' (as.map Prod.snd) ++ if d' = d then a.2.2 else [] := by
        intro d'
        rw [carried_append, hwhole.carried hstep]
      have hprev := ih hbefore (fun side => ((hcarried _ ▸ List.prefix_append _ _).trans (hstream side)))
        (fun d' => by
          have hless := hshort d'
          rw [hcarried, List.length_append] at hless
          omega)
        (fun before b hb => hkeeps before b (hb.trans (List.prefix_append _ _)))
      have hkeep := hkeeps _ _ List.prefix_rfl
      obtain ⟨header, hevt⟩ := hwhole.evt
      have hstepOf : a.2.1.step = syscallStep d := hwhole.step.trans hstep
      -- Below 2^32 the position in the event is the one in the stream.
      have hless := hshort d
      rw [hcarried, if_pos rfl, List.length_append] at hless
      refine .next hprev ⟨hkeep.parser, ?_, hwhole.nonempty, ?_, hkeep.room, hkeep.few, hkeep.fresh⟩
      · change a.2.1.prependLengthHeader = false
        rw [hevt]
        rfl
      · intro side hside
        have hd : d = directionOf c₀ side := (sideOf_iff hrole hstepOf side).mp hside
        subst hd
        rw [hbase, fed_incoming hrole hbefore]
        constructor
        · change a.2.1.seq % 2 ^ 32 = _
          rw [hevt]
          change ((carried _ _).length + 1) % 2 ^ 32 % 2 ^ 32 = _
          omega
        · obtain ⟨back, hback⟩ := hstream side
          rw [hcarried, if_pos rfl, List.append_assoc] at hback
          rw [← hback, List.drop_left]
          exact List.prefix_append _ _

/-- **From calls to messages.** The kernel reports every run of captured calls, and the agent handles the
events one after the other. Then no event panics, and the queue of each side has got the messages of the
frames that are whole by the bytes moved in its direction, in their order, each with the time of the call
that moved its first byte. -/
theorem messages_of_calls (hrole : c₀.role ≠ .unknown)
    (hnew : ∀ side, c₀.streamBuffer side = StreamBuffer.new streamBufferCapacity)
    (hbase : ∀ side, (sent side).base = 1) {c : ConnInfo} {cpu : Cpu}
    (hquiet : cpu.events.filterMap Event.data = []) {calls : List DataSyscall} {s : Tracked}
    (hrun : Run Tracked.step (fun s call => call.Captured s.conn s.cpu) (Tracked.start c cpu) calls s)
    (hshort : ∀ d, s.moved d < 2 ^ 32)
    (hstream : ∀ side, stream (directionOf c₀ side) calls
      <+: (sent side).framed.layout.stream (sent side).frames)
    (has : as.map Prod.snd = s.cpu.events.filterMap Event.data)
    (hkeeps : ∀ before a, before ++ [a] <+: as.map incoming → KeepsUp sent c₀ before a) {fuel : ℕ}
    (hfuel : ∀ side, (sent side).frames.length < fuel) :
    ∃ c', onSyscallEvents fuel c₀ as = some (.ok c')
      ∧ ∀ side, c'.resultQueue side
          = ((sent side).delivered (callStarts (directionOf c₀ side) 1 calls)
              (s.moved (directionOf c₀ side))).foldl Connection4.enqueue (c₀.resultQueue side) := by
  have hfed := run_fed hquiet hrun hshort
  have hcarries : Carries (as.map Prod.snd) := has ▸ hfed.carries
  have hcarried : ∀ d, carried d (as.map Prod.snd) = stream d calls := fun d => has ▸ hfed.carried d
  obtain ⟨c', hall, -, hqueue⟩ := receiveAll_delivers hrole hnew
    (arriving_of_carries hrole hbase hcarries (fun side => hcarried _ ▸ hstream side)
      (fun d => by rw [hcarried, ← hfed.moved]; exact hshort d) hkeeps) hfuel
  refine ⟨c', (onSyscallEvents_eq hcarries).trans hall, fun side => ?_⟩
  rw [hqueue, fed_incoming hrole hcarries, hcarried, ← hfed.moved, starts_incoming hrole hcarries]
  congr 1
  -- The events divide the stream finer than the calls do, but each byte has the time of its call.
  apply Sent.delivered_congr
  intro pos _
  rw [has]
  exact hfed.times _ _

end Agent

end Kyanos.Bpf

namespace Kyanos.Redis

open Bpf

/-! ## Redis -/

/-- **The calls of a Redis connection become its commands and replies.** However an application divides
the two streams into system calls, plain ones and ones with vectors, the agent has in the end one message
for each frame that was sent or received whole, in their order, with the time of the call that moved its
first byte. -/
theorem calls_become_messages (s : Streams) (hbase : ∀ side, s.base side = 1)
    {c₀ : Connection4 RedisMessage Unit} (hrole : c₀.role ≠ .unknown)
    (hnew : ∀ side, c₀.streamBuffer side = StreamBuffer.new streamBufferCapacity)
    {c : ConnInfo} {cpu : Cpu} (hquiet : cpu.events.filterMap Event.data = [])
    {calls : List DataSyscall} {t : Tracked}
    (hrun : Run Tracked.step (fun s call => call.Captured s.conn s.cpu) (Tracked.start c cpu) calls t)
    (hshort : ∀ d, t.moved d < 2 ^ 32)
    (hstream : ∀ side, stream (directionOf c₀ side) calls <+: layout.stream (s.frames side))
    {as : List (Surroundings RedisMessage Unit × KernEvt × List UInt8)}
    (has : as.map Prod.snd = t.cpu.events.filterMap Event.data)
    (hkeeps : ∀ before a, before ++ [a] <+: as.map incoming → KeepsUp s.sent c₀ before a) {fuel : ℕ}
    (hfuel : ∀ side, (s.frames side).length < fuel) :
    ∃ c', onSyscallEvents fuel c₀ as = some (.ok c')
      ∧ ∀ side, c'.resultQueue side
          = ((layout.placed 1 (layout.whole (s.frames side) (t.moved (directionOf c₀ side)))).map
              fun q => q.2.message side q.1
                ((stampAt (callStarts (directionOf c₀ side) 1 calls) q.1).getD 0)).foldl
            Connection4.enqueue (c₀.resultQueue side) := by
  obtain ⟨c', hall, hqueue⟩ := messages_of_calls hrole hnew hbase hquiet hrun hshort hstream has hkeeps
    hfuel
  refine ⟨c', hall, fun side => ?_⟩
  have hdelivered := hqueue side
  unfold Sent.delivered at hdelivered
  rw [show (s.sent side).base = 1 from hbase side] at hdelivered
  exact hdelivered

/-- A server that has not seen anything yet. -/
def idleServer : Connection4 RedisMessage Unit := { idleClient with role := .server }

/-- A Redis connection as the kernel has it, traced. -/
def redisConn : ConnInfo := { unknownConn with protocol := .redis, noTrace := .traceable }

theorem returned_lt (n : Fin (2 ^ 31)) : ((n : ℕ) : ℤ) < 2 ^ 31 := by
  have := n.isLt
  omega

/-- The command is read by one call into two buffers, and the reply is written by another. -/
def readPing : DataSyscall where
  outcome := .vectored ⟨((14 : Fin (2 ^ 31)) : ℕ), returned_lt 14⟩
  direct := .ingress
  maps := noMaps
  task := someTask
  args :=
    { sourceFn := .syscallReadV, fd := 3, buf := memoryOf []
      iov := [⟨memoryOf [42, 49, 13, 10], 4⟩, ⟨memoryOf [36, 52, 13, 10, 80, 73, 78, 71, 13, 10], 64⟩]
      startTs := 10, endTs := 20 }
  tgidFd := 3
  isNestedSsl := false

def writePong : DataSyscall where
  outcome := .plain ⟨((7 : Fin (2 ^ 31)) : ℕ), returned_lt 7⟩
  direct := .egress
  maps := noMaps
  task := someTask
  args :=
    { sourceFn := .syscallWrite, fd := 3, buf := memoryOf [43, 80, 79, 78, 71, 13, 10], iov := []
      startTs := 30, endTs := 40 }
  tgidFd := 3
  isNestedSsl := false

theorem readPing_captured :
    readPing.Captured (Tracked.start redisConn freshCpu).conn
      (Tracked.start redisConn freshCpu).cpu := by
  refine ⟨⟨by decide, by decide, fun _ _ => by decide, fun _ h => by cases h⟩, trivial, by decide, rfl,
    rfl, fun h => absurd h (by decide), fun _ => by decide, fun _ => by decide, ?_, ?_⟩
  · rintro _ ⟨rfl⟩
    decide
  · rintro _ ⟨rfl⟩
    decide

theorem pingCalls_run : ∃ t, Run Tracked.step (fun s call => call.Captured s.conn s.cpu)
      (Tracked.start redisConn freshCpu) [readPing, writePong] t
    ∧ (t.moved .egress = 7 ∧ t.moved .ingress = 14)
    ∧ t.cpu.events.filterMap Event.data
      = [(⟨.syscallReadV, 10, 10, 1, 4, false, 0, 3, 13⟩, [42, 49, 13, 10]),
        (⟨.syscallReadV, 10, 10, 5, 10, false, 0, 3, 13⟩, [36, 52, 13, 10, 80, 73, 78, 71, 13, 10]),
        (⟨.syscallWrite, 30, 10, 1, 7, false, 0, 3, 2⟩, [43, 80, 79, 78, 71, 13, 10])] := by
  have hfirst : Run Tracked.step (fun s call => call.Captured s.conn s.cpu)
      (Tracked.start redisConn freshCpu) [readPing] _ := Run.nil.snoc readPing_captured rfl
  refine ⟨_, hfirst.snoc (i := writePong) ?_ rfl, ?_, ?_⟩
  · refine ⟨⟨by decide, by decide, fun _ h => absurd h (by decide), fun _ h => by cases h⟩, ?_,
      by decide, rfl, by decide, fun _ => by decide, fun h => absurd h (by decide),
      fun h => absurd h (by decide), ?_, ?_⟩
    · exact fun _ => by decide
    · rintro _ ⟨rfl⟩
      decide
    · rintro _ ⟨rfl⟩
      decide
  · exact ⟨rfl, rfl⟩
  · decide

/-- The command in two pieces, and the reply, as the agent has them. -/
def pingEvents : List (Surroundings RedisMessage Unit × KernEvt × List UInt8) :=
  [(patient, ⟨.syscallReadV, 10, 10, 1, 4, false, 0, 3, 13⟩, [42, 49, 13, 10]),
    (patient, ⟨.syscallReadV, 10, 10, 5, 10, false, 0, 3, 13⟩, [36, 52, 13, 10, 80, 73, 78, 71, 13, 10]),
    (patient, ⟨.syscallWrite, 30, 10, 1, 7, false, 0, 3, 2⟩, [43, 80, 79, 78, 71, 13, 10])]

theorem pingEvents_keepsUp (before : List (Incoming RedisMessage Unit)) (a : Incoming RedisMessage Unit)
    (h : before ++ [a] <+: pingEvents.map incoming) : KeepsUp pingPong.sent idleServer before a := by
  obtain ⟨back, hsplit⟩ := h
  have hpatient : a.env = patient := by
    have hmem : a ∈ pingEvents.map incoming := by
      rw [← hsplit]
      simp
    obtain ⟨e, he, rfl⟩ := List.mem_map.mp hmem
    fin_cases he <;> rfl
  have hfresh : ∀ side, (pingPong.sent side).Fresh a.env (idleServer.fed side (before ++ [a]))
      (idleServer.starts side (before ++ [a])) := by
    rw [hpatient]
    exact fun _ _ ts _ => patient_notStuck ts
  have hparser : a.env.parser = some streamParser := by
    rw [hpatient]
    rfl
  have hbefore : before = (pingEvents.map incoming).take before.length := by
    rw [← hsplit]
    simp
  have ha : (pingEvents.map incoming)[before.length]? = some a := by
    rw [← hsplit]
    simp
  have hlt : before.length < 3 := by
    have hlength := congrArg List.length hsplit
    simp [pingEvents] at hlength
    omega
  have hall : (∀ side, (((pingPong.sent side).framed.layout.left (pingPong.sent side).frames
        (idleServer.fed side before) + a.event.data.length : ℕ) : ℤ) ≤ streamBufferCapacity)
      ∧ ∀ side, ((idleServer.starts side (before ++ [a])).filter fun s =>
        (pingPong.sent side).position (idleServer.fed side before) < s.1).length
          ≤ maxTimestampEntries / 2 := by
    generalize before.length = k at hbefore ha hlt
    subst hbefore
    interval_cases k
    all_goals
      cases ha
      exact ⟨by rintro (_ | _) <;> decide, by rintro (_ | _) <;> decide⟩
  exact ⟨hparser, fun side _ => hall.1 side, fun side _ => hall.2 side, hfresh⟩

theorem calls_become_messages_ping :
    ∃ c, onSyscallEvents 2 idleServer pingEvents = some (.ok c)
      ∧ (zeroStream c.reqQueue).map (fun m => (m.payload.base.timestampNs, m.payload.base.byteSize))
        = [(20, 14)]
      ∧ (zeroStream c.respQueue).map (fun m => (m.payload.base.timestampNs, m.payload.base.byteSize))
        = [(30, 7)] := by
  obtain ⟨t, hrun, ⟨hout, hin⟩, hevents⟩ := pingCalls_run
  obtain ⟨c, hall, hqueue⟩ := @calls_become_messages pingPong (fun _ => rfl) idleServer (by decide)
    idleClient_unused.buffers redisConn freshCpu rfl [readPing, writePong] t hrun
    (by rintro (_ | _) <;> omega) (by rintro (_ | _) <;> decide) pingEvents hevents.symm
    pingEvents_keepsUp 2 (by rintro (_ | _) <;> decide)
  refine ⟨c, hall, ?_, ?_⟩
  · have hreq : c.reqQueue = _ := hqueue .req
    rw [hreq, show directionOf idleServer .req = .ingress from rfl, hin]
    decide
  · have hresp : c.respQueue = _ := hqueue .resp
    rw [hresp, show directionOf idleServer .resp = .egress from rfl, hout]
    decide

end Kyanos.Redis
