/-
`agent/conn/conntrack.go`: a stream that arrives in pieces.

`addDataToBufferAndTryParse` puts the data of an event behind what its side has and parses both sides.
Nothing tells it where a message ends: the events are what the system calls moved. `Framed` is what a
parser knows of a direction. It reads a frame whatever lies behind it, it waits for the rest of a frame
that is cut, and at the start of a frame there is nothing to skip. For such a parser the pieces do
not matter: after every event the queues hold the messages of the frames that are whole, each with the
position and the time of its first byte, and the buffer holds the cut one (`receiveAll_delivers`).

One event is one step (`Receives.step`), and in it each side is parsed by itself (`parse_side`), frame
after frame (`parseLoop_frames`).
-/
import Kyanos.StampedRuns
import Kyanos.RoleInference

set_option autoImplicit false

open GoNum Trace Framing

namespace Kyanos

/-- What the stream buffer of a side is parsed for, once the role is known. -/
def Side.messageType : Side → MessageType
  | .req => .request
  | .resp => .response

/-- The frames of one direction, and how the parser reads them: its message depends on the frame, the
position it starts at and the time of its first byte. -/
structure Framed {π σ : Type} (parser : ProtocolStreamParser π σ) (side : Side) where
  Frame : Type
  layout : Layout UInt8 Frame
  message : Frame → ℕ → ℕ → ParsedMessage π
  kind : ∀ f pos ts, (message f pos ts).isReq = (side.messageType == .request)
  reads : ∀ st sb f rest pos ts, sb.buffers = [⟨layout.bytes f ++ rest, pos⟩] →
    sb.findTimestampBySeq pos = some ts →
    parser.parseStream st sb side.messageType = (⟨.success, [message f pos ts], layout.len f⟩, st)
  waits : ∀ st sb f cut pos, sb.buffers = [⟨cut, pos⟩] → cut ≠ [] → cut <+: layout.bytes f →
    cut.length < layout.len f →
    (parser.parseStream st sb side.messageType).1.parseState = .needsMoreData
      ∧ (parser.parseStream st sb side.messageType).2 = st
  aligned : ∀ st sb fs front pos, sb.buffers = [⟨front, pos⟩] → front ≠ [] →
    front <+: layout.stream fs →
    (parser.findBoundary st sb side.messageType 0).1 ≤ 0
      ∧ (parser.findBoundary st sb side.messageType 0).2 = st

/-- A time that no reading of the clock is too far behind. -/
def NotStuck {π σ : Type} (env : Surroundings π σ) (ts : ℕ) : Prop :=
  ∀ k, subInt64 (env.clock k) (truncInt (nanoToMills ts)) ≤ env.maxAllowStuckTimeMills

namespace Framed

variable {π σ : Type} {parser : ProtocolStreamParser π σ} {side : Side} (s : Framed parser side)

/-- The messages of frames at their positions, with the times of their first bytes. -/
def messages (starts : List (ℕ × ℕ)) (frames : List (ℕ × s.Frame)) : List (ParsedMessage π) :=
  frames.map fun q => s.message q.2 q.1 ((stampAt starts q.1).getD 0)

/-- A buffer that holds what is not whole of the first `n` bytes of the frames from `lo` on. -/
def LeftOver (capacity : ℤ) (lo : ℕ) (fs : List s.Frame) (n : ℕ) (starts : List (ℕ × ℕ))
    (sb : StreamBuffer) : Prop :=
  StampedRun capacity (lo + s.layout.total (s.layout.whole fs n))
    ((s.layout.stream (s.layout.pending fs n)).take (s.layout.left fs n)) starts sb

/-- The frame that is cut, if there is one, did not begin too long ago. -/
def CutFresh (env : Surroundings π σ) (lo : ℕ) (fs : List s.Frame) (n : ℕ)
    (starts : List (ℕ × ℕ)) : Prop :=
  0 < s.layout.left fs n →
    ∀ ts, stampAt starts (lo + s.layout.total (s.layout.whole fs n)) = some ts → NotStuck env ts

section Cons

variable {s} {env : Surroundings π σ} {capacity : ℤ} {lo n : ℕ} {f : s.Frame} {fs : List s.Frame}
  {starts : List (ℕ × ℕ)} {sb : StreamBuffer}

theorem leftOver_whole (h : s.layout.len f ≤ n) :
    s.LeftOver capacity lo (f :: fs) n starts sb
      ↔ s.LeftOver capacity (lo + s.layout.len f) fs (n - s.layout.len f) starts sb := by
  obtain ⟨hwhole, hpending, hleft⟩ := Layout.cut_cons_of_le fs h
  unfold LeftOver
  rw [hwhole, hpending, hleft, Layout.total_cons, Nat.add_assoc]

theorem cutFresh_whole (h : s.layout.len f ≤ n) :
    s.CutFresh env lo (f :: fs) n starts
      ↔ s.CutFresh env (lo + s.layout.len f) fs (n - s.layout.len f) starts := by
  obtain ⟨hwhole, -, hleft⟩ := Layout.cut_cons_of_le fs h
  unfold CutFresh
  rw [hwhole, hleft, Layout.total_cons, Nat.add_assoc]

theorem leftOver_cut (h : n < s.layout.len f) :
    s.LeftOver capacity lo (f :: fs) n starts sb
      ↔ StampedRun capacity lo ((s.layout.bytes f).take n) starts sb := by
  obtain ⟨hwhole, hpending, hleft⟩ := Layout.cut_cons_of_lt fs h
  unfold LeftOver
  rw [hwhole, hpending, hleft, Layout.total_nil, Nat.add_zero, Layout.stream_cons,
    List.take_append_of_le_length (Nat.le_of_lt h)]

theorem cutFresh_cut (h : n < s.layout.len f) :
    s.CutFresh env lo (f :: fs) n starts
      ↔ (0 < n → ∀ ts, stampAt starts lo = some ts → NotStuck env ts) := by
  obtain ⟨hwhole, -, hleft⟩ := Layout.cut_cons_of_lt fs h
  unfold CutFresh
  rw [hwhole, hleft, Layout.total_nil, Nat.add_zero]

end Cons

end Framed

namespace Connection4

variable {π σ : Type}

/-! ## One side -/

/-- All that changed is the buffer of one side, and its queue by the messages. -/
structure Passes (side : Side) (messages : List (ParsedMessage π)) (c c' : Connection4 π σ) : Prop where
  role : c'.role = c.role
  queue : c'.resultQueue side = messages.foldl Connection4.enqueue (c.resultQueue side)
  otherBuffer : ∀ side', side' ≠ side → c'.streamBuffer side' = c.streamBuffer side'
  otherQueue : ∀ side', side' ≠ side → c'.resultQueue side' = c.resultQueue side'

variable {side : Side} {c c₁ c' : Connection4 π σ} {messages messages' : List (ParsedMessage π)}

theorem Passes.refl (side : Side) (c : Connection4 π σ) : Passes side [] c c :=
  ⟨rfl, rfl, fun _ _ => rfl, fun _ _ => rfl⟩

theorem Passes.trans (h : Passes side messages c c₁) (h' : Passes side messages' c₁ c') :
    Passes side (messages ++ messages') c c' := by
  refine ⟨h'.role.trans h.role, ?_, ?_, ?_⟩
  · rw [h'.queue, h.queue, List.foldl_append]
  · exact fun side' hne => (h'.otherBuffer side' hne).trans (h.otherBuffer side' hne)
  · exact fun side' hne => (h'.otherQueue side' hne).trans (h.otherQueue side' hne)

theorem resultQueue_setStreamBuffer (c : Connection4 π σ) (side side' : Side) (sb : StreamBuffer) :
    (c.setStreamBuffer side sb).resultQueue side' = c.resultQueue side' := by
  rcases side with _ | _ <;> rcases side' with _ | _ <;> rfl

theorem streamBuffer_setStreamBuffer_of_ne (c : Connection4 π σ) {side side' : Side} (sb : StreamBuffer)
    (hne : side' ≠ side) : (c.setStreamBuffer side sb).streamBuffer side' = c.streamBuffer side' := by
  rcases side with _ | _ <;> rcases side' with _ | _ <;> first | rfl | exact absurd rfl hne

theorem passes_setStreamBuffer (side : Side) (c : Connection4 π σ) (sb : StreamBuffer) :
    Passes side [] c (c.setStreamBuffer side sb) := by
  refine ⟨?_, resultQueue_setStreamBuffer c side side sb, ?_, ?_⟩
  · rcases side with _ | _ <;> rfl
  · exact fun side' hne => streamBuffer_setStreamBuffer_of_ne c sb hne
  · exact fun side' _ => resultQueue_setStreamBuffer c side side' sb

theorem passes_setResultQueue (side : Side) (c : Connection4 π σ) (messages : List (ParsedMessage π)) :
    Passes side messages c
      (c.setResultQueue side (messages.foldl Connection4.enqueue (c.resultQueue side))) := by
  refine ⟨?_, ?_, ?_, ?_⟩
  · rcases side with _ | _ <;> rfl
  · rcases side with _ | _ <;> rfl
  · rintro (_ | _) hne <;> rcases side with _ | _ <;> rfl
  · rintro (_ | _) hne <;> rcases side with _ | _ <;> first | rfl | exact absurd rfl hne

theorem passes_updateProgressTime (env : Surroundings π σ) (side : Side) (c : Connection4 π σ) :
    Passes side [] c (c.updateProgressTime env side) := by
  refine ⟨?_, ?_, ?_, ?_⟩
  · rcases side with _ | _ <;> rfl
  · rcases side with _ | _ <;> rfl
  · rintro (_ | _) hne <;> rcases side with _ | _ <;> rfl
  · rintro (_ | _) hne <;> rcases side with _ | _ <;> rfl

theorem passes_headIsOld (env : Surroundings π σ) (side : Side) (c : Connection4 π σ) :
    Passes side [] c (c.headIsOld env side).2 := by
  refine ⟨rfl, ?_, ?_, ?_⟩
  · rcases side with _ | _ <;> rfl
  · rintro (_ | _) hne <;> rfl
  · rintro (_ | _) hne <;> rfl

variable {parser : ProtocolStreamParser π σ} {env : Surroundings π σ} {ke : AgentKernEvt}
  {capacity : ℤ} {lo : ℕ} {starts : List (ℕ × ℕ)}

/-- **A whole frame is read**: its message goes into the queue and its bytes are gone. -/
theorem round_reads (s : Framed parser side) {f : s.Frame} {rest : List UInt8}
    (hrole : c.role ≠ .unknown)
    (h : StampedRun capacity lo (s.layout.bytes f ++ rest) starts (c.streamBuffer side))
    (hlo : lo + s.layout.len f < 2 ^ 64) :
    ∃ c', round env parser side side.messageType ke c = .ok (false, c')
      ∧ Passes side [s.message f lo ((stampAt starts lo).getD 0)] c c'
      ∧ StampedRun capacity (lo + s.layout.len f) rest starts (c'.streamBuffer side) := by
  have hbytes := s.layout.nonempty f
  have hne : s.layout.bytes f ++ rest ≠ [] := fun hnil => hbytes (List.append_eq_nil_iff.mp hnil).1
  have hhead : lo < lo + (s.layout.bytes f ++ rest).length := by
    have hpos := List.length_pos_iff.mpr hne
    omega
  obtain ⟨ts, hstamp, hfind⟩ := h.stamps lo le_rfl hhead
  have hread := s.reads c.parserState (c.streamBuffer side) f rest lo ts
    (by rw [h.run.buffers, if_neg hne]) hfind
  obtain ⟨sb', hremove, hrest⟩ := h.removePrefix hbytes hlo
  generalize hmessage : s.message f lo ts = m at hread
  have hkind : (m.isReq != (side.messageType == .request)) = false := by
    rw [← hmessage, s.kind, bne_self_eq_false]
  refine ⟨(c.setResultQueue side ([m].foldl Connection4.enqueue
      (c.resultQueue side))).setStreamBuffer side sb',
    ?_, ?_, ?_⟩
  · unfold round
    rw [hread]
    dsimp only
    unfold onSuccess
    split
    · rename_i hunknown _
      exact absurd hunknown hrole
    · rw [List.head?_cons, Option.any_some, hkind, if_neg Bool.false_ne_true]
      unfold Connection4.removePrefix
      rw [streamBuffer_setResultQueue]
      have hsame : ({ c with parserState := c.parserState } : Connection4 π σ) = c := rfl
      rw [hsame]
      have hlen : (s.layout.len f : ℤ) = (s.layout.bytes f).length := rfl
      rw [hlen, hremove]
      rfl
  · rw [hstamp, Option.getD_some, hmessage]
    exact (passes_setResultQueue side c [m]).trans (passes_setStreamBuffer side _ sb')
  · rw [streamBuffer_setStreamBuffer]
    exact hrest

/-- A head whose time is not too far behind stays. -/
theorem checkProgress_fresh {ts : ℕ} {b : Buffer} {bs : List Buffer}
    (hbuffers : (c.streamBuffer side).buffers = b :: bs)
    (hfind : (c.streamBuffer side).findTimestampBySeq b.seq = some ts) (hfresh : NotStuck env ts) :
    ∃ c', c.checkProgress env side = .ok (false, c') ∧ Passes side [] c c'
      ∧ c'.streamBuffer side = c.streamBuffer side := by
  unfold checkProgress
  split_ifs with hzero
  · exact ⟨_, rfl, passes_updateProgressTime env side c, streamBuffer_updateProgressTime env c side⟩
  · have hposition : (c.streamBuffer side).position0 = b.seq := by
      rw [StreamBuffer.position0, hbuffers]
    have hold : (c.headIsOld env side).1 = false := by
      unfold headIsOld
      dsimp only
      rw [hposition, hfind, Option.isNone_some, Bool.false_or, Option.getD_some]
      exact decide_eq_false (Int.not_lt.mpr (hfresh _))
    refine ⟨(c.headIsOld env side).2, ?_, passes_headIsOld env side c, streamBuffer_headIsOld env c side⟩
    dsimp only
    rw [hold, if_neg Bool.false_ne_true]

/-- **A cut frame is waited for.** -/
theorem round_waits (s : Framed parser side) {f : s.Frame} {cut : List UInt8}
    (h : StampedRun capacity lo cut starts (c.streamBuffer side)) (hcut : cut ≠ [])
    (hfront : cut <+: s.layout.bytes f) (hlt : cut.length < s.layout.len f)
    (hfresh : ∀ ts, stampAt starts lo = some ts → NotStuck env ts) :
    ∃ c', round env parser side side.messageType ke c = .ok (true, c') ∧ Passes side [] c c'
      ∧ c'.streamBuffer side = c.streamBuffer side := by
  have hbuffers : (c.streamBuffer side).buffers = [⟨cut, lo⟩] := by rw [h.run.buffers, if_neg hcut]
  have hhead : lo < lo + cut.length := Nat.lt_add_of_pos_right (List.length_pos_iff.mpr hcut)
  obtain ⟨ts, hstamp, hfind⟩ := h.stamps lo le_rfl hhead
  obtain ⟨hstate, hsame⟩ := s.waits c.parserState (c.streamBuffer side) f cut lo hbuffers hcut hfront hlt
  obtain ⟨c', hcheck, hpasses, hbuffer⟩ :=
    @checkProgress_fresh π σ side c env ts _ _ hbuffers hfind (hfresh ts hstamp)
  refine ⟨c', ?_, hpasses, hbuffer⟩
  unfold round
  dsimp only
  rw [hsame, hstate]
  change (c.checkProgress env side >>= _) = _
  rw [hcheck]
  rfl

/-- **Frame after frame.** By induction on the frames: one that is whole is read and the next begins
behind it, and one that is cut ends the loop. -/
theorem parseLoop_frames (s : Framed parser side) {fs : List s.Frame} {n : ℕ}
    (hrole : c.role ≠ .unknown) (hn : n ≤ s.layout.total fs) (hend : lo + n < 2 ^ 63)
    (h : StampedRun capacity lo ((s.layout.stream fs).take n) starts (c.streamBuffer side))
    (hfresh : s.CutFresh env lo fs n starts) {fuel : ℕ}
    (hfuel : (s.layout.whole fs n).length < fuel) :
    ∃ c', c.parseLoop env parser side side.messageType ke fuel = some (.ok c')
      ∧ Passes side (s.messages starts (s.layout.placed lo (s.layout.whole fs n))) c c'
      ∧ s.LeftOver capacity lo fs n starts (c'.streamBuffer side) := by
  induction fs generalizing c lo n fuel with
  | nil =>
      have hzero : n = 0 := Nat.le_zero.mp hn
      subst hzero
      obtain ⟨fuel, rfl⟩ := Nat.exists_eq_succ_of_ne_zero (Nat.ne_of_gt hfuel)
      have hempty : (c.streamBuffer side).isEmpty = true := StreamBuffer.isEmpty_iff.mpr h.run.buffers
      refine ⟨c, ?_, Passes.refl side c, h⟩
      unfold parseLoop
      rw [loop, if_pos hempty]
  | cons f fs ih =>
      obtain ⟨fuel, rfl⟩ := Nat.exists_eq_succ_of_ne_zero (Nat.ne_zero_of_lt hfuel)
      by_cases hle : s.layout.len f ≤ n
      · -- The frame is whole: one round reads it, and the loop goes on with the frames behind it.
        obtain ⟨hwhole, -, -⟩ := Layout.cut_cons_of_le fs hle
        rw [Framed.cutFresh_whole hle] at hfresh
        rw [hwhole, List.length_cons] at hfuel
        have hsplit : (s.layout.stream (f :: fs)).take n
            = s.layout.bytes f ++ (s.layout.stream fs).take (n - s.layout.len f) := by
          rw [Layout.stream_cons, List.take_append, List.take_of_length_le hle]
          rfl
        rw [hsplit] at h
        rw [Layout.total_cons] at hn
        obtain ⟨c₁, hround, hpasses, hrest⟩ :=
          @round_reads π σ side c parser env ke capacity lo starts s f _ hrole h (by omega)
        obtain ⟨c', hloop, hpasses', hleft⟩ := @ih c₁ (lo + s.layout.len f) (n - s.layout.len f)
          (by rw [hpasses.role]; exact hrole) (by omega) (by omega) hrest hfresh fuel (by omega)
        refine ⟨c', ?_, ?_, Framed.leftOver_whole hle |>.mpr hleft⟩
        · have hsome : (c.streamBuffer side).isEmpty = false := by
            rw [Bool.eq_false_iff, ne_eq, StreamBuffer.isEmpty_iff, h.run.buffers, if_neg]
            · exact List.cons_ne_nil _ _
            · exact fun hnil => s.layout.nonempty f (List.append_eq_nil_iff.mp hnil).1
          unfold parseLoop
          rw [loop, hsome, if_neg Bool.false_ne_true, hround]
          exact hloop
        · rw [hwhole]
          exact hpasses.trans hpasses'
      · -- The frame is cut, so the loop ends here: nothing is left, or the parser waits for more.
        have hlt : n < s.layout.len f := Nat.lt_of_not_le hle
        obtain ⟨hwhole, -, -⟩ := Layout.cut_cons_of_lt fs hlt
        rw [Layout.stream_cons, List.take_append_of_le_length (Nat.le_of_lt hlt)] at h
        rw [Framed.cutFresh_cut hlt] at hfresh
        rw [hwhole]
        by_cases hzero : n = 0
        · have hempty : (c.streamBuffer side).isEmpty = true := by
            rw [StreamBuffer.isEmpty_iff, h.run.buffers, hzero, List.take_zero, if_pos rfl]
          refine ⟨c, ?_, Passes.refl side c, Framed.leftOver_cut hlt |>.mpr h⟩
          unfold parseLoop
          rw [loop, if_pos hempty]
        · have hlen : ((s.layout.bytes f).take n).length = n :=
            List.length_take_of_le (Nat.le_of_lt hlt)
          have hcut : (s.layout.bytes f).take n ≠ [] := by
            rw [← List.length_pos_iff]
            omega
          obtain ⟨c', hround, hpasses, hbuffer⟩ := @round_waits π σ side c parser env ke capacity lo
            starts s f _ h hcut (List.take_prefix n _) (by omega) (hfresh (Nat.pos_of_ne_zero hzero))
          refine ⟨c', ?_, hpasses, Framed.leftOver_cut hlt |>.mpr (by rw [hbuffer]; exact h)⟩
          have hsome : (c.streamBuffer side).isEmpty = false := by
            rw [Bool.eq_false_iff, ne_eq, StreamBuffer.isEmpty_iff, h.run.buffers, if_neg hcut]
            exact List.cons_ne_nil _ _
          unfold parseLoop
          rw [loop, hsome, if_neg Bool.false_ne_true, hround]

theorem Passes.trans_updateProgressTime (h : Passes side messages c c') :
    Passes side messages c (c'.updateProgressTime env side) := by
  rw [← List.append_nil messages]
  exact h.trans (passes_updateProgressTime env side c')

/-- **A side is parsed.** Its whole frames are read, and what is left is that of the one that is cut. -/
theorem parse_side (s : Framed parser side) {fs : List s.Frame} {n : ℕ}
    (hparser : env.parser = some parser) (hrole : c.role ≠ .unknown) (hn : n ≤ s.layout.total fs)
    (hend : lo + n < 2 ^ 63)
    (h : StampedRun capacity lo ((s.layout.stream fs).take n) starts (c.streamBuffer side))
    (hfresh : s.CutFresh env lo fs n starts) {fuel : ℕ} (hfuel : (s.layout.whole fs n).length < fuel) :
    ∃ c', c.parseStreamBuffer env side side.messageType ke fuel = some (.ok c')
      ∧ Passes side (s.messages starts (s.layout.placed lo (s.layout.whole fs n))) c c'
      ∧ s.LeftOver capacity lo fs n starts (c'.streamBuffer side) := by
  obtain ⟨c', hloop, hpasses, hleft⟩ :=
    @parseLoop_frames π σ side c parser env ke capacity lo starts s fs n hrole hn hend h hfresh fuel
      hfuel
  unfold parseStreamBuffer
  rw [hparser]
  dsimp only
  by_cases hempty : (c.streamBuffer side).isEmpty = true
  · -- The loop would not have done anything.
    obtain ⟨fuel, rfl⟩ := Nat.exists_eq_succ_of_ne_zero (Nat.ne_zero_of_lt hfuel)
    unfold parseLoop at hloop
    rw [loop, if_pos hempty] at hloop
    obtain rfl : c = c' := Except.ok.inj (Option.some.inj hloop)
    rw [if_pos hempty]
    exact ⟨c, rfl, hpasses, hleft⟩
  · have hfront : (s.layout.stream fs).take n ≠ [] := by
      intro hnil
      rw [StreamBuffer.isEmpty_iff, h.run.buffers, if_pos hnil] at hempty
      exact hempty rfl
    -- The front of the buffer is a boundary, and `findBoundary` removes nothing.
    obtain ⟨hpos, hstate⟩ := s.aligned c.parserState (c.streamBuffer side) fs _ lo
      (by rw [h.run.buffers, if_neg hfront]) hfront (List.take_prefix n _)
    have hsame : ({ c with parserState := c.parserState } : Connection4 π σ) = c := rfl
    rw [if_neg hempty, hstate, hsame]
    generalize
      (parser.findBoundary c.parserState (c.streamBuffer side) side.messageType 0).1 = pos at hpos
    have hstart : ¬(if pos = -1 then 0 else pos) > 0 := by
      split_ifs <;> omega
    unfold parseFromBoundary
    dsimp only
    rw [if_neg hstart]
    unfold parseFrom
    rw [hloop]
    -- The progress time is all that the last test decides.
    by_cases hmoved : ((c'.streamBuffer side).isEmpty
        || (c'.streamBuffer side).position0 != (c.streamBuffer side).position0) = true
    · refine ⟨c'.updateProgressTime env side, ?_, hpasses.trans_updateProgressTime, ?_⟩
      · rw [Option.map_some, ok_bind]
        dsimp only
        rw [if_pos hmoved]
      · rw [streamBuffer_updateProgressTime]
        exact hleft
    · refine ⟨c', ?_, hpasses, hleft⟩
      rw [Option.map_some, ok_bind]
      dsimp only
      rw [if_neg hmoved]

/-! ## An event -/

/-- The side the data of an event belongs to. -/
def sideOf (c : Connection4 π σ) (ke : AgentKernEvt) : Side := if (c.isReq ke).1 then .req else .resp

/-- The time its bytes have. -/
def stampOf (c : Connection4 π σ) (ke : AgentKernEvt) : ℕ := getEventTimestamp ke c (c.isReq ke).1

theorem isReq_congr (hrole : c'.role = c.role) (ke : AgentKernEvt) : c'.isReq ke = c.isReq ke := by
  unfold isReq isServerSide
  rw [hrole]

theorem sideOf_congr (hrole : c'.role = c.role) (ke : AgentKernEvt) : c'.sideOf ke = c.sideOf ke := by
  unfold sideOf
  rw [isReq_congr hrole]

theorem stampOf_congr (hrole : c'.role = c.role) (ke : AgentKernEvt) : c'.stampOf ke = c.stampOf ke := by
  unfold stampOf getEventTimestamp
  rw [isReq_congr hrole, hrole]

/-- The data of an event without a header goes behind what its side has. -/
theorem addData_plain {event : DataEvent} (hplain : event.prependLengthHeader = false) :
    c.addData event = c.add (c.sideOf event.ke) event.ke.seq event.data (c.stampOf event.ke) := by
  unfold addData extractHeaderEvent
  rw [hplain]
  rfl

/-- Once the role is known, the sides are parsed one after the other. -/
theorem addDataToBufferAndTryParse_eq {event : DataEvent} {fuel : ℕ} {c₁ c₂ : Connection4 π σ}
    (hadd : c.addData event = .ok (true, c₁)) (hrole : c₁.role ≠ .unknown)
    (hreq : c₁.parseStreamBuffer env .req Side.req.messageType event.ke fuel = some (.ok c₂))
    (hresp : c₂.parseStreamBuffer env .resp Side.resp.messageType event.ke fuel = some (.ok c')) :
    c.addDataToBufferAndTryParse env event fuel = some (.ok (true, c')) := by
  unfold Side.messageType at hreq hresp
  unfold addDataToBufferAndTryParse
  rw [hadd]
  dsimp only
  rw [if_neg hrole, if_neg hrole, hreq]
  dsimp only
  rw [hresp]
  rfl

end Connection4

/-! ## What was sent and what has come of it -/

/-- What is sent on a side: the frames, the first one at the position `base`. -/
structure Sent {π σ : Type} (parser : ProtocolStreamParser π σ) (side : Side) where
  framed : Framed parser side
  frames : List framed.Frame
  base : ℕ
  base_lt : base < 2 ^ 32

/-- The capacity of both stream buffers, as `NewConnFromEvent` creates them. -/
def streamBufferCapacity : ℤ := 1024 * 1024

namespace Sent

variable {π σ : Type} {parser : ProtocolStreamParser π σ} {side : Side} (s : Sent parser side)

/-- Where the frame begins that is not whole after `n` bytes. -/
def position (n : ℕ) : ℕ := s.base + s.framed.layout.total (s.framed.layout.whole s.frames n)

/-- The messages of the frames that are whole after `n` bytes. -/
def delivered (starts : List (ℕ × ℕ)) (n : ℕ) : List (ParsedMessage π) :=
  s.framed.messages starts (s.framed.layout.placed s.base (s.framed.layout.whole s.frames n))

/-- Those of the frames that `m` more bytes make whole. -/
def news (starts : List (ℕ × ℕ)) (n m : ℕ) : List (ParsedMessage π) :=
  s.framed.messages starts (s.framed.layout.placed (s.position n)
    (s.framed.layout.whole (s.framed.layout.pending s.frames n) (s.framed.layout.left s.frames n + m)))

/-- A stream buffer that has what is not whole of the first `n` bytes. -/
def Holds (n : ℕ) (starts : List (ℕ × ℕ)) (sb : StreamBuffer) : Prop :=
  s.framed.LeftOver streamBufferCapacity s.base s.frames n starts sb

/-- The frame that is cut after `n` bytes did not begin too long ago. -/
def Fresh (env : Surroundings π σ) (n : ℕ) (starts : List (ℕ × ℕ)) : Prop :=
  s.framed.CutFresh env s.base s.frames n starts

/-- Times that later pieces do not change. -/
theorem delivered_congr {starts starts' : List (ℕ × ℕ)} {n : ℕ}
    (h : ∀ pos, pos < s.base + n → stampAt starts' pos = stampAt starts pos) :
    s.delivered starts' n = s.delivered starts n := by
  unfold delivered Framed.messages
  apply List.map_congr_left
  intro q hq
  have hbounds := Layout.placed_bounds _ hq
  have hlen := s.framed.layout.len_pos q.2
  have hsum := s.framed.layout.total_whole_add_left s.frames n
  rw [h q.1 (by omega)]

theorem delivered_add (starts : List (ℕ × ℕ)) (n m : ℕ) :
    s.delivered starts (n + m) = s.delivered starts n ++ s.news starts n m := by
  obtain ⟨hwhole, -, -⟩ := s.framed.layout.cut_add s.frames n m
  unfold delivered news Framed.messages
  rw [hwhole, Layout.placed_append, List.map_append]
  rfl

theorem holds_add {n m : ℕ} {starts : List (ℕ × ℕ)} {sb : StreamBuffer} :
    s.framed.LeftOver streamBufferCapacity (s.position n) (s.framed.layout.pending s.frames n)
        (s.framed.layout.left s.frames n + m) starts sb ↔ s.Holds (n + m) starts sb := by
  obtain ⟨hwhole, hpending, hleft⟩ := s.framed.layout.cut_add s.frames n m
  unfold Holds Framed.LeftOver position
  rw [hwhole, hpending, hleft, Layout.total_append, Nat.add_assoc]

theorem fresh_add {env : Surroundings π σ} {n m : ℕ} {starts : List (ℕ × ℕ)} :
    s.framed.CutFresh env (s.position n) (s.framed.layout.pending s.frames n)
        (s.framed.layout.left s.frames n + m) starts ↔ s.Fresh env (n + m) starts := by
  obtain ⟨hwhole, -, hleft⟩ := s.framed.layout.cut_add s.frames n m
  unfold Fresh Framed.CutFresh position
  rw [hwhole, hleft, Layout.total_append, Nat.add_assoc]

/-- The next part of what is sent goes behind what is left. -/
theorem holds_next {n ts : ℕ} {starts : List (ℕ × ℕ)} {sb : StreamBuffer} {data : List UInt8}
    (h : s.Holds n starts sb) (hn : n ≤ s.framed.layout.total s.frames) (hsome : data ≠ [])
    (hdata : data <+: (s.framed.layout.stream s.frames).drop n)
    (hend : s.base + n + data.length < 2 ^ 63)
    (hroom : ((s.framed.layout.left s.frames n + data.length : ℕ) : ℤ) ≤ streamBufferCapacity)
    (hfew : ((starts ++ [(s.base + n, ts)]).filter fun start => s.position n < start.1).length
      ≤ maxTimestampEntries / 2) :
    ∃ sb', sb.add (s.base + n) data ts = .ok (true, sb')
      ∧ StampedRun streamBufferCapacity (s.position n)
          ((s.framed.layout.stream (s.framed.layout.pending s.frames n)).take
            (s.framed.layout.left s.frames n + data.length)) (starts ++ [(s.base + n, ts)]) sb' := by
  have hsum := s.framed.layout.total_whole_add_left s.frames n
  have hlen : ((s.framed.layout.stream (s.framed.layout.pending s.frames n)).take
      (s.framed.layout.left s.frames n)).length = s.framed.layout.left s.frames n :=
    List.length_take_of_le (Layout.left_le hn)
  have hstart : s.position n + s.framed.layout.left s.frames n = s.base + n := by
    unfold position
    omega
  rw [Layout.take_pending hdata, ← hstart]
  rw [← hstart] at hfew hend
  unfold Holds Framed.LeftOver at h
  have hnext := h.add ts hsome
  rw [List.length_append, hlen] at hnext
  exact hnext hend hroom hfew

end Sent

/-- An event with what is read besides the connection while it is handled. -/
structure Incoming (π σ : Type) where
  env : Surroundings π σ
  event : DataEvent

namespace Connection4

variable {π σ : Type}

/-- The events of a side. -/
def arrivals (c : Connection4 π σ) (side : Side) (as : List (Incoming π σ)) : List (Incoming π σ) :=
  as.filter fun a => c.sideOf a.event.ke = side

/-- How many bytes they had. -/
def fed (c : Connection4 π σ) (side : Side) (as : List (Incoming π σ)) : ℕ :=
  ((c.arrivals side as).map fun a => a.event.data.length).sum

/-- Where their data started, and at what times. -/
def starts (c : Connection4 π σ) (side : Side) (as : List (Incoming π σ)) : List (ℕ × ℕ) :=
  (c.arrivals side as).map fun a => (a.event.ke.seq, c.stampOf a.event.ke)

/-- How many bytes an event has for a side. -/
def gain (c : Connection4 π σ) (side : Side) (a : Incoming π σ) : ℕ :=
  if c.sideOf a.event.ke = side then a.event.data.length else 0

theorem fed_append (c : Connection4 π σ) (side : Side) (as : List (Incoming π σ)) (a : Incoming π σ) :
    c.fed side (as ++ [a]) = c.fed side as + c.gain side a := by
  unfold fed gain arrivals
  rw [List.filter_append, List.map_append, List.sum_append, List.filter_singleton]
  split_ifs with hside <;> simp [hside]

theorem starts_append (c : Connection4 π σ) (side : Side) (as : List (Incoming π σ)) (a : Incoming π σ) :
    c.starts side (as ++ [a]) = c.starts side as
      ++ if c.sideOf a.event.ke = side then [(a.event.ke.seq, c.stampOf a.event.ke)] else [] := by
  unfold starts arrivals
  rw [List.filter_append, List.map_append, List.filter_singleton]
  split_ifs with hside <;> simp [hside]

end Connection4

/-- **The next event of a run**: its data is the next part of what is sent on its side, there is room
for it, and neither side has waited too long for the rest of a frame. -/
structure Arrives {π σ : Type} {parser : ProtocolStreamParser π σ} (sent : ∀ side, Sent parser side)
    (c₀ : Connection4 π σ) (before : List (Incoming π σ)) (a : Incoming π σ) : Prop where
  parser : a.env.parser = some parser
  plain : a.event.prependLengthHeader = false
  some : a.event.data ≠ []
  next : ∀ side, c₀.sideOf a.event.ke = side →
    a.event.ke.seq = (sent side).base + c₀.fed side before
      ∧ a.event.data <+: ((sent side).framed.layout.stream (sent side).frames).drop (c₀.fed side before)
  room : ∀ side, c₀.sideOf a.event.ke = side →
    (((sent side).framed.layout.left (sent side).frames (c₀.fed side before)
        + a.event.data.length : ℕ) : ℤ)
      ≤ streamBufferCapacity
  few : ∀ side, c₀.sideOf a.event.ke = side →
    ((c₀.starts side (before ++ [a])).filter
      fun s => (sent side).position (c₀.fed side before) < s.1).length ≤ maxTimestampEntries / 2
  fresh : ∀ side, (sent side).Fresh a.env (c₀.fed side (before ++ [a])) (c₀.starts side (before ++ [a]))

/-! ## One event -/

/-- What a connection has after the events of a run: what is not whole yet, on each side. -/
structure Receives {π σ : Type} {parser : ProtocolStreamParser π σ} (sent : ∀ side, Sent parser side)
    (c₀ : Connection4 π σ) (before : List (Incoming π σ)) (c : Connection4 π σ) : Prop where
  role : c.role = c₀.role
  within : ∀ side, c₀.fed side before ≤ (sent side).framed.layout.total (sent side).frames
  below : ∀ side, (sent side).base + c₀.fed side before < 2 ^ 63
  holds : ∀ side,
    (sent side).Holds (c₀.fed side before) (c₀.starts side before) (c.streamBuffer side)

section Step

variable {π σ : Type} {parser : ProtocolStreamParser π σ} {sent : ∀ side, Sent parser side}
  {c₀ c : Connection4 π σ} {side : Side} {before : List (Incoming π σ)} {a : Incoming π σ}

open Connection4

/-- The data of an event goes behind what its side has. -/
theorem Receives.addData (h : Receives sent c₀ before c) (ha : Arrives sent c₀ before a) :
    ∃ c₁, c.addData a.event = .ok (true, c₁) ∧ c₁.role = c₀.role
      ∧ (∀ side, c₁.resultQueue side = c.resultQueue side)
      ∧ ∀ side, c₀.fed side (before ++ [a]) ≤ (sent side).framed.layout.total (sent side).frames
        ∧ (sent side).base + c₀.fed side (before ++ [a]) < 2 ^ 63
        ∧ StampedRun streamBufferCapacity ((sent side).position (c₀.fed side before))
          (((sent side).framed.layout.stream
              ((sent side).framed.layout.pending (sent side).frames (c₀.fed side before))).take
            ((sent side).framed.layout.left (sent side).frames (c₀.fed side before) + c₀.gain side a))
          (c₀.starts side (before ++ [a])) (c₁.streamBuffer side) := by
  generalize hside : c₀.sideOf a.event.ke = side₀
  obtain ⟨hseq, hdata⟩ := ha.next side₀ hside
  have hroom := ha.room side₀ hside
  have hfew := ha.few side₀ hside
  have hlt := a.event.ke.seq_lt
  have hstarts := c₀.starts_append side₀ before a
  rw [if_pos hside, hseq] at hstarts
  rw [hstarts] at hfew
  have hend : (sent side₀).base + c₀.fed side₀ before + a.event.data.length < 2 ^ 63 := by
    unfold streamBufferCapacity at hroom
    omega
  obtain ⟨sb', hadd, hrun⟩ :=
    (sent side₀).holds_next (h.holds side₀) (h.within side₀) ha.some hdata hend hroom hfew
  refine ⟨c.setStreamBuffer side₀ sb', ?_, ?_, ?_, ?_⟩
  · rw [addData_plain ha.plain, sideOf_congr h.role, stampOf_congr h.role, hside, hseq]
    unfold Connection4.add
    rw [hadd]
    rfl
  · exact (passes_setStreamBuffer side₀ c sb').role.trans h.role
  · exact fun side => resultQueue_setStreamBuffer c side₀ side sb'
  · intro side
    rw [fed_append]
    -- The other side keeps its buffer and its starts.
    by_cases hsame : side = side₀
    · subst hsame
      have hgain : c₀.gain side a = a.event.data.length := if_pos hside
      have hlen := hdata.length_le
      rw [List.length_drop] at hlen
      rw [hgain, hstarts, streamBuffer_setStreamBuffer]
      refine ⟨?_, by omega, hrun⟩
      have hwithin := h.within side
      have htotal : (sent side).framed.layout.total (sent side).frames
        = ((sent side).framed.layout.stream (sent side).frames).length := rfl
      omega
    · have hother : ¬c₀.sideOf a.event.ke = side := fun heq => hsame (heq.symm.trans hside)
      have hgain : c₀.gain side a = 0 := if_neg hother
      rw [hgain, starts_append, if_neg hother, List.append_nil, Nat.add_zero, Nat.add_zero,
        streamBuffer_setStreamBuffer_of_ne c sb' hsame]
      exact ⟨h.within side, h.below side, h.holds side⟩

/-- **One side of an event.** What its data makes whole is read. -/
theorem parse_sent (s : Sent parser side) {env : Surroundings π σ} {ke : AgentKernEvt} {n m : ℕ}
    {starts : List (ℕ × ℕ)} (hparser : env.parser = some parser) (hrole : c.role ≠ .unknown)
    (hn : n + m ≤ s.framed.layout.total s.frames) (hend : s.base + (n + m) < 2 ^ 63)
    (h : StampedRun streamBufferCapacity (s.position n)
      ((s.framed.layout.stream (s.framed.layout.pending s.frames n)).take
        (s.framed.layout.left s.frames n + m)) starts (c.streamBuffer side))
    (hfresh : s.Fresh env (n + m) starts) {fuel : ℕ} (hfuel : s.frames.length < fuel) :
    ∃ c', c.parseStreamBuffer env side side.messageType ke fuel = some (.ok c')
      ∧ Passes side (s.news starts n m) c c' ∧ s.Holds (n + m) starts (c'.streamBuffer side) := by
  have hsum := s.framed.layout.total_whole_add_left s.frames n
  have hsplit : s.framed.layout.total s.frames = s.framed.layout.total (s.framed.layout.whole s.frames n)
      + s.framed.layout.total (s.framed.layout.pending s.frames n) := by
    rw [← Layout.total_append, Layout.whole_append_pending]
  have hrounds := s.framed.layout.length_whole_le (s.framed.layout.pending s.frames n)
    (s.framed.layout.left s.frames n + m)
  have hpending := congrArg List.length (s.framed.layout.whole_append_pending s.frames n)
  rw [List.length_append] at hpending
  have hposition : s.position n + (s.framed.layout.left s.frames n + m) = s.base + (n + m) := by
    unfold Sent.position
    omega
  obtain ⟨c', hparse, hpasses, hleft⟩ := @parse_side π σ side c parser env ke streamBufferCapacity
    (s.position n) starts s.framed _ _ hparser hrole (by omega) (by rw [hposition]; exact hend) h
    (s.fresh_add.mpr hfresh) fuel (by omega)
  exact ⟨c', hparse, hpasses, s.holds_add.mp hleft⟩

/-- **One event**: it is handled, and on each side the frames it makes whole are added to the queue. -/
theorem Receives.step (h : Receives sent c₀ before c) (ha : Arrives sent c₀ before a)
    (hrole : c₀.role ≠ .unknown) {fuel : ℕ} (hfuel : ∀ side, (sent side).frames.length < fuel) :
    ∃ c', c.addDataToBufferAndTryParse a.env a.event fuel = some (.ok (true, c'))
      ∧ Receives sent c₀ (before ++ [a]) c'
      ∧ ∀ side, c'.resultQueue side
          = ((sent side).news (c₀.starts side (before ++ [a])) (c₀.fed side before)
              (c₀.gain side a)).foldl Connection4.enqueue (c.resultQueue side) := by
  obtain ⟨c₁, hadd, hrole₁, hqueue₁, hruns⟩ := h.addData ha
  have hwithin := fun side => (hruns side).1
  have hbelow := fun side => (hruns side).2.1
  have hfresh := ha.fresh
  simp only [fed_append] at hwithin hbelow hfresh
  obtain ⟨c₂, hparse₂, hpasses₂, hholds₂⟩ := @parse_sent π σ parser c₁ .req (sent .req) a.env a.event.ke
    _ _ _ ha.parser (by rw [hrole₁]; exact hrole) (hwithin .req) (hbelow .req) (hruns .req).2.2
    (hfresh .req) fuel (hfuel .req)
  -- The requests are parsed first, which leaves the buffer of the responses as it was.
  have hresp := (hruns .resp).2.2
  rw [← hpasses₂.otherBuffer .resp (by decide)] at hresp
  obtain ⟨c', hparse', hpasses', hholds'⟩ :=
    @parse_sent π σ parser c₂ .resp (sent .resp) a.env a.event.ke
    _ _ _ ha.parser (by rw [hpasses₂.role, hrole₁]; exact hrole) (hwithin .resp) (hbelow .resp) hresp
    (hfresh .resp) fuel (hfuel .resp)
  refine ⟨c', ?_, ⟨?_, ?_, ?_, ?_⟩, ?_⟩
  · exact addDataToBufferAndTryParse_eq hadd (by rw [hrole₁]; exact hrole) hparse₂ hparse'
  · rw [hpasses'.role, hpasses₂.role, hrole₁]
  · intro side
    rw [fed_append]
    exact hwithin side
  · intro side
    rw [fed_append]
    exact hbelow side
  · intro side
    rw [fed_append]
    rcases side with _ | _
    · rw [hpasses'.otherBuffer .req (by decide)]
      exact hholds₂
    · exact hholds'
  · intro side
    rcases side with _ | _
    · rw [hpasses'.otherQueue .req (by decide), hpasses₂.queue, hqueue₁]
    · rw [hpasses'.queue, hpasses₂.otherQueue .resp (by decide), hqueue₁]

end Step

/-! ## Every run -/

/-- A run: the events that came, each one as `Arrives` says. -/
inductive Arriving {π σ : Type} {parser : ProtocolStreamParser π σ} (sent : ∀ side, Sent parser side)
    (c₀ : Connection4 π σ) : List (Incoming π σ) → Prop
  | start : Arriving sent c₀ []
  | next {before : List (Incoming π σ)} {a : Incoming π σ} (run : Arriving sent c₀ before)
      (arrives : Arrives sent c₀ before a) : Arriving sent c₀ (before ++ [a])

namespace Connection4

variable {π σ : Type}

/-- An event is handled, unless one before it panicked. -/
def receive (fuel : ℕ) (r : Option (Except Panic (Connection4 π σ))) (a : Incoming π σ) :
    Option (Except Panic (Connection4 π σ)) :=
  match r with
  | some (.ok c) => (c.addDataToBufferAndTryParse a.env a.event fuel).map (Except.map Prod.snd)
  | r => r

/-- The events are handled one after the other. -/
def receiveAll (fuel : ℕ) (c : Connection4 π σ) (as : List (Incoming π σ)) :
    Option (Except Panic (Connection4 π σ)) :=
  as.foldl (receive fuel) (some (.ok c))

end Connection4

section Runs

variable {π σ : Type} {parser : ProtocolStreamParser π σ} {sent : ∀ side, Sent parser side}
  {c₀ : Connection4 π σ}

open Connection4

/-- A connection that has not seen any data. -/
theorem receives_start (hnew : ∀ side, c₀.streamBuffer side = StreamBuffer.new streamBufferCapacity) :
    Receives sent c₀ [] c₀ := by
  refine ⟨rfl, fun _ => Nat.zero_le _, fun side => ?_, fun side => ?_⟩
  · have hbase := (sent side).base_lt
    change (sent side).base + 0 < 2 ^ 63
    omega
  · obtain ⟨hwhole, hpending, hleft⟩ := (sent side).framed.layout.cut_zero (sent side).frames
    change (sent side).framed.LeftOver streamBufferCapacity (sent side).base (sent side).frames 0 [] _
    unfold Framed.LeftOver
    rw [hwhole, hpending, hleft, hnew, List.take_zero, Layout.total_nil, Nat.add_zero]
    exact StampedRun.new _ _

/-- The times of the frames that are whole do not change any more. -/
theorem delivered_append {before : List (Incoming π σ)} {a : Incoming π σ}
    (ha : Arrives sent c₀ before a) (side : Side) :
    (sent side).delivered (c₀.starts side (before ++ [a])) (c₀.fed side before)
      = (sent side).delivered (c₀.starts side before) (c₀.fed side before) := by
  apply Sent.delivered_congr
  intro pos hpos
  rw [starts_append]
  split_ifs with hside
  · obtain ⟨hseq, -⟩ := ha.next side hside
    rw [stampAt_append, if_neg (by omega)]
  · rw [List.append_nil]

/-- **The pieces do not matter.** In every run, whatever the pieces of the two streams and the order
they come in, every event is handled; and on each side the queue has got the messages of the frames that
are whole, in their order, and the buffer has what is there of the next one. -/
theorem receiveAll_delivers (hrole : c₀.role ≠ .unknown)
    (hnew : ∀ side, c₀.streamBuffer side = StreamBuffer.new streamBufferCapacity)
    {as : List (Incoming π σ)} (h : Arriving sent c₀ as) {fuel : ℕ}
    (hfuel : ∀ side, (sent side).frames.length < fuel) :
    ∃ c, c₀.receiveAll fuel as = some (.ok c) ∧ Receives sent c₀ as c
      ∧ ∀ side, c.resultQueue side
          = ((sent side).delivered (c₀.starts side as) (c₀.fed side as)).foldl Connection4.enqueue
              (c₀.resultQueue side) := by
  induction h with
  | start =>
      refine ⟨c₀, rfl, receives_start hnew, ?_⟩
      intro side
      obtain ⟨hwhole, -, -⟩ := (sent side).framed.layout.cut_zero (sent side).frames
      change _ = ((sent side).delivered [] 0).foldl Connection4.enqueue (c₀.resultQueue side)
      unfold Sent.delivered
      rw [hwhole]
      rfl
  | @next before a run arrives ih =>
      obtain ⟨c, hall, hreceives, hqueue⟩ := ih
      obtain ⟨c', hone, hreceives', hqueue'⟩ := hreceives.step arrives hrole hfuel
      refine ⟨c', ?_, hreceives', ?_⟩
      · unfold receiveAll at hall ⊢
        rw [List.foldl_append, hall, List.foldl_cons, List.foldl_nil]
        unfold receive
        dsimp only
        rw [hone]
        rfl
      · intro side
        -- What an event delivers comes behind what was delivered before it.
        rw [hqueue', hqueue, fed_append, Sent.delivered_add, List.foldl_append, delivered_append arrives]

end Runs

end Kyanos
