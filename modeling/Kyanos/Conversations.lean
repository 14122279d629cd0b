/-
`OnSyscallEvent` of `agent/conn/conntrack.go`, over a conversation: requests and responses in turn.

After every event the matcher is called. For a protocol that is matched by time, on one stream, it pairs
a response with the last request before it. When a request is answered before the next one is sent, that
is its own request: the records are the exchanges, in their order, as soon as they are over
(`talk_records`). It does not matter how the bytes of a message are cut.

`InTalk` is what holds between events. Either both sides have as many messages and no response has
begun, or there is one request more, no other one has begun, and it is older than the response to come.
-/
import Kyanos.StreamParsing
import Kyanos.MatchByTimestamp

set_option autoImplicit false

open Trace Framing

namespace Kyanos

variable {π σ : Type}

instance [TimestampNs π] : TimestampNs (ParsedMessage π) := ⟨fun m => timestampNs m.payload⟩

/-! ## The matcher -/

/-- The queue of stream 0. -/
def zeroStream (q : Queues π) : List (ParsedMessage π) := (q.get? 0).getD []

theorem zero_put (q : Queues π) (ms : List (ParsedMessage π)) : zeroStream (q.put 0 ms) = ms := by
  unfold zeroStream
  rw [SortedMap.get?_put, if_pos rfl]
  rfl

section Match

variable [TimestampNs π]

/-- `Match` of a parser that matches the messages of stream 0 by their times. -/
def matchStreamZero (reqStreams respStreams : Queues π) :
    List (Record (ParsedMessage π)) × Queues π × Queues π :=
  match reqStreams.get? 0, respStreams.get? 0 with
  | some reqStream, some respStream =>
      let m := matchByTimestamp reqStream respStream
      (m.records, reqStreams.put 0 m.reqStream, respStreams.put 0 m.respStream)
  | _, _ => ([], reqStreams, respStreams)

namespace Connection4

/-- `OnSyscallEvent`, from the data of the event on: the records it sends come behind the earlier
ones. -/
def onData (fuel : ℕ) (records : List (Record (ParsedMessage π))) (c : Connection4 π σ)
    (a : Incoming π σ) : Option (Except Panic (List (Record (ParsedMessage π)) × Connection4 π σ)) :=
  (c.addDataToBufferAndTryParse a.env a.event fuel).map <| Except.map fun (added, c) =>
    if added then
      let (matched, reqQueue, respQueue) := matchStreamZero c.reqQueue c.respQueue
      (records ++ matched, { c with reqQueue := reqQueue, respQueue := respQueue })
    else (records, c)

/-- The events one after the other, up to a panic. -/
def onAll (fuel : ℕ) (c : Connection4 π σ) (as : List (Incoming π σ)) :
    Option (Except Panic (List (Record (ParsedMessage π)) × Connection4 π σ)) :=
  as.foldl
    (fun r a => match r with
      | some (.ok (records, c)) => c.onData fuel records a
      | r => r)
    (some (.ok ([], c)))

end Connection4

/-- Without responses nothing is matched. -/
theorem matchStreamZero_none (reqStreams : Queues π) {respStreams : Queues π}
    (h : zeroStream respStreams = []) :
    (matchStreamZero reqStreams respStreams).1 = []
      ∧ zeroStream (matchStreamZero reqStreams respStreams).2.1 = zeroStream reqStreams
      ∧ zeroStream (matchStreamZero reqStreams respStreams).2.2 = [] := by
  unfold matchStreamZero
  rcases hreq : reqStreams.get? 0 with _ | reqs
  · exact ⟨rfl, rfl, h⟩
  · rcases hresp : respStreams.get? 0 with _ | resps
    · exact ⟨rfl, rfl, h⟩
    · have hnil : resps = [] := by
        unfold zeroStream at h
        rwa [hresp] at h
      have hmatch : matchByTimestamp reqs resps = ⟨[], reqs, resps⟩ :=
        if_pos (Or.inr (by rw [hnil]; rfl))
      dsimp only
      rw [hmatch]
      refine ⟨rfl, ?_, ?_⟩
      · rw [zero_put]
        unfold zeroStream
        rw [hreq]
        rfl
      · rw [zero_put, hnil]

/-- A request and a younger response are a pair, and nothing is left. -/
theorem matchStreamZero_pair {reqStreams respStreams : Queues π} {q r : ParsedMessage π}
    (hreq : zeroStream reqStreams = [q]) (hresp : zeroStream respStreams = [r])
    (hlt : timestampNs q < timestampNs r) :
    (matchStreamZero reqStreams respStreams).1 = [recordOf q r]
      ∧ zeroStream (matchStreamZero reqStreams respStreams).2.1 = []
      ∧ zeroStream (matchStreamZero reqStreams respStreams).2.2 = [] := by
  have hget : ∀ {s : Queues π} {m : ParsedMessage π}, zeroStream s = [m] → s.get? 0 = some [m] := by
    intro s m hs
    unfold zeroStream at hs
    rcases hq : s.get? 0 with _ | ms
    · rw [hq] at hs
      cases hs
    · rw [hq] at hs
      exact congrArg some hs
  have hold : older r q = true := decide_eq_true hlt
  obtain ⟨hrecords, hleft⟩ := matchLoop_cons [q] [] r
  rw [List.takeWhile_cons_of_pos hold, List.dropWhile_cons_of_pos hold] at hrecords
  rw [List.dropWhile_cons_of_pos hold] at hleft
  have hmatch : matchByTimestamp [q] [r] = ⟨[recordOf q r], [], []⟩ := by
    rw [matchByTimestamp_eq (List.cons_ne_nil _ _) (List.cons_ne_nil _ _), hrecords, hleft]
    simp
  unfold matchStreamZero
  rw [hget hreq, hget hresp]
  dsimp only
  rw [hmatch]
  exact ⟨rfl, zero_put _ _, zero_put _ _⟩

end Match

/-- Messages of stream 0 go behind what is queued there. -/
theorem zero_enqueue {q : Queues π} {ms : List (ParsedMessage π)} (h : ∀ m ∈ ms, m.streamId = 0) :
    zeroStream (ms.foldl Connection4.enqueue q) = zeroStream q ++ ms := by
  induction ms generalizing q with
  | nil => exact (List.append_nil _).symm
  | cons m ms ih =>
      obtain ⟨hm, hms⟩ := List.forall_mem_cons.mp h
      rw [List.foldl_cons, ih hms, Connection4.enqueue, hm, zero_put, List.append_assoc]
      rfl

/-! ## Turns -/

/-- The messages of the frames are those of one stream, and their times are those they are given. -/
structure Framed.Timed [TimestampNs π] {parser : ProtocolStreamParser π σ} {side : Side}
    (s : Framed parser side) : Prop where
  stream : ∀ f pos ts, (s.message f pos ts).streamId = 0
  time : ∀ f pos ts, timestampNs (s.message f pos ts) = ts

namespace Sent

variable {parser : ProtocolStreamParser π σ} {side : Side} (s : Sent parser side)

/-- How many frames are whole after `n` bytes. -/
def count (n : ℕ) : ℕ := (s.framed.layout.whole s.frames n).length

/-- How many bytes of the next one are there. -/
def cut (n : ℕ) : ℕ := s.framed.layout.left s.frames n

/-- `m` bytes behind the first `n` are of one frame. -/
def OneFrame (n m : ℕ) : Prop :=
  ∀ f ∈ (s.framed.layout.pending s.frames n).head?, s.cut n + m ≤ s.framed.layout.len f

variable {s} {starts : List (ℕ × ℕ)} {n m : ℕ}

theorem delivered_length : (s.delivered starts n).length = s.count n := by
  unfold delivered Framed.messages count
  rw [List.length_map, ← List.length_map (f := Prod.snd), Layout.placed_map_snd]

/-- Bytes of one frame end a message, or they do not. -/
theorem oneFrame_cases (starts : List (ℕ × ℕ)) (h : s.OneFrame n m) (hm : 0 < m)
    (hn : n + m ≤ s.framed.layout.total s.frames) :
    (s.news starts n m = [] ∧ s.count (n + m) = s.count n ∧ s.cut (n + m) = s.cut n + m
        ∧ s.position (n + m) = s.position n)
      ∨ (∃ f, s.news starts n m
            = [s.framed.message f (s.position n) ((stampAt starts (s.position n)).getD 0)])
        ∧ s.count (n + m) = s.count n + 1 ∧ s.cut (n + m) = 0 := by
  have hsum := s.framed.layout.total_whole_add_left s.frames n
  have hsplit : s.framed.layout.total s.frames = s.framed.layout.total (s.framed.layout.whole s.frames n)
      + s.framed.layout.total (s.framed.layout.pending s.frames n) := by
    rw [← Layout.total_append, Layout.whole_append_pending]
  obtain ⟨hwhole, -, -⟩ := s.framed.layout.cut_add s.frames n m
  rcases hhead : (s.framed.layout.pending s.frames n).head? with _ | f
  · -- There is a frame the bytes belong to.
    rw [List.head?_eq_none_iff.mp hhead, Layout.total_nil] at hsplit
    omega
  · rcases Layout.cut_within (Option.mem_def.mpr hhead) (h f hhead) with
      ⟨-, hnone, hcut⟩ | ⟨-, hone, hcut⟩
    · left
      rw [hnone, List.append_nil] at hwhole
      unfold news count cut position Framed.messages
      rw [hnone, hwhole, hcut]
      exact ⟨rfl, rfl, rfl, rfl⟩
    · right
      rw [hone] at hwhole
      unfold news count cut Framed.messages
      rw [hone, hwhole, hcut, List.length_append]
      exact ⟨⟨f, rfl⟩, rfl, rfl⟩

/-- No bytes, no messages. -/
theorem news_zero : s.news starts n 0 = [] := by
  have hadd := s.delivered_add starts n 0
  exact List.append_cancel_left (hadd.symm.trans (List.append_nil _).symm)

end Sent

/-- **The next event of a conversation** is younger than all before it. It is part of one message: of
the next request, when every request has its response; or of that response, when it has been asked
for. -/
structure Turn {parser : ProtocolStreamParser π σ} (sent : ∀ side, Sent parser side)
    (c₀ : Connection4 π σ) (before : List (Incoming π σ)) (a : Incoming π σ) : Prop where
  later : ∀ b ∈ before, c₀.stampOf b.event.ke < c₀.stampOf a.event.ke
  oneFrame : ∀ side, c₀.sideOf a.event.ke = side →
    (sent side).OneFrame (c₀.fed side before) a.event.data.length
  request : c₀.sideOf a.event.ke = .req →
    (sent .req).count (c₀.fed .req before) = (sent .resp).count (c₀.fed .resp before)
      ∧ (sent .resp).cut (c₀.fed .resp before) = 0
  response : c₀.sideOf a.event.ke = .resp →
    (sent .req).count (c₀.fed .req before) = (sent .resp).count (c₀.fed .resp before) + 1
      ∧ (sent .req).cut (c₀.fed .req before) = 0

/-- A conversation: the events that came, each one as `Arrives` and `Turn` say. -/
inductive Talking {parser : ProtocolStreamParser π σ} (sent : ∀ side, Sent parser side)
    (c₀ : Connection4 π σ) : List (Incoming π σ) → Prop
  | start : Talking sent c₀ []
  | next {before : List (Incoming π σ)} {a : Incoming π σ} (talking : Talking sent c₀ before)
      (arrives : Arrives sent c₀ before a) (turn : Turn sent c₀ before a) :
      Talking sent c₀ (before ++ [a])

/-- A conversation is a run. -/
theorem Talking.arriving {parser : ProtocolStreamParser π σ} {sent : ∀ side, Sent parser side}
    {c₀ : Connection4 π σ} {as : List (Incoming π σ)} (h : Talking sent c₀ as) :
    Arriving sent c₀ as := by
  induction h with
  | start => exact .start
  | next _ arrives _ ih => exact .next ih arrives

/-! ## What holds between events -/

section Talk

variable {parser : ProtocolStreamParser π σ} {sent : ∀ side, Sent parser side}
  {c₀ c c' : Connection4 π σ} {before : List (Incoming π σ)} {a : Incoming π σ}

open Connection4

/-- The messages of a side so far. -/
def Sent.sofar {side : Side} (s : Sent parser side) (c₀ : Connection4 π σ)
    (before : List (Incoming π σ)) :
    List (ParsedMessage π) :=
  s.delivered (c₀.starts side before) (c₀.fed side before)

theorem sofar_append (ha : Arrives sent c₀ before a) (side : Side) :
    (sent side).sofar c₀ (before ++ [a]) = (sent side).sofar c₀ before
      ++ (sent side).news (c₀.starts side (before ++ [a])) (c₀.fed side before) (c₀.gain side a) := by
  unfold Sent.sofar
  rw [fed_append, Sent.delivered_add, delivered_append ha]

/-- On each side that has seen data, the first piece starts where the stream does. -/
def FirstPiece (sent : ∀ side, Sent parser side) (c₀ : Connection4 π σ) (before : List (Incoming π σ)) :
    Prop :=
  ∀ side, 0 < c₀.fed side before → ∃ ts, ((sent side).base, ts) ∈ c₀.starts side before

theorem FirstPiece.append (h : FirstPiece sent c₀ before) (ha : Arrives sent c₀ before a) :
    FirstPiece sent c₀ (before ++ [a]) := by
  intro side hfed
  rw [starts_append]
  by_cases hpos : 0 < c₀.fed side before
  · obtain ⟨ts, hts⟩ := h side hpos
    exact ⟨ts, List.mem_append_left _ hts⟩
  · have hzero : c₀.fed side before = 0 := Nat.eq_zero_of_not_pos hpos
    rw [fed_append, hzero, Nat.zero_add, gain] at hfed
    split_ifs at hfed with hside
    · obtain ⟨hseq, -⟩ := ha.next side hside
      rw [hzero, Nat.add_zero] at hseq
      rw [if_pos hside, hseq]
      exact ⟨_, List.mem_append_right _ List.mem_cons_self⟩
    · exact absurd hfed (lt_irrefl 0)

variable [TimestampNs π]

/-- The time of a message is that of an event. -/
theorem sofar_stamped (h : FirstPiece sent c₀ before) {side : Side} (htimed : (sent side).framed.Timed)
    {q : ParsedMessage π} (hq : q ∈ (sent side).sofar c₀ before) :
    ∃ b ∈ before, timestampNs q = c₀.stampOf b.event.ke := by
  obtain ⟨⟨pos, f⟩, hplaced, rfl⟩ := List.mem_map.mp hq
  have hbounds := Layout.placed_bounds _ hplaced
  have hlen := (sent side).framed.layout.len_pos f
  have hsum := (sent side).framed.layout.total_whole_add_left (sent side).frames (c₀.fed side before)
  dsimp only at hbounds
  obtain ⟨ts, hts⟩ := h side (by omega)
  obtain ⟨stamp, hstamp⟩ := stampAt_of_mem hts hbounds.1
  obtain ⟨start, hstart⟩ := mem_of_stampAt hstamp
  obtain ⟨b, hb, heq⟩ := List.mem_map.mp hstart
  refine ⟨b, (List.mem_filter.mp hb).1, ?_⟩
  rw [htimed.time]
  dsimp only
  rw [hstamp, Option.getD_some]
  exact (congrArg Prod.snd heq).symm

/-- **Between events**: the answered requests are in the records, and what is queued is the request that
is not. It is older than the response that has begun. -/
structure InTalk (sent : ∀ side, Sent parser side) (c₀ : Connection4 π σ) (before : List (Incoming π σ))
    (records : List (Record (ParsedMessage π))) (c : Connection4 π σ) : Prop where
  receives : Receives sent c₀ before c
  first : FirstPiece sent c₀ before
  records : records = List.zipWith recordOf ((sent .req).sofar c₀ before) ((sent .resp).sofar c₀ before)
  counts : (sent .req).count (c₀.fed .req before) = (sent .resp).count (c₀.fed .resp before)
      ∧ (sent .resp).cut (c₀.fed .resp before) = 0
    ∨ (sent .req).count (c₀.fed .req before) = (sent .resp).count (c₀.fed .resp before) + 1
      ∧ (sent .req).cut (c₀.fed .req before) = 0
  reqs : zeroStream c.reqQueue
    = ((sent .req).sofar c₀ before).drop ((sent .resp).count (c₀.fed .resp before))
  resps : zeroStream c.respQueue = []
  answering : 0 < (sent .resp).cut (c₀.fed .resp before) →
    ∃ ts, stampAt (c₀.starts .resp before) ((sent .resp).position (c₀.fed .resp before)) = some ts
      ∧ ∀ q ∈ (sent .req).sofar c₀ before, timestampNs q < ts

variable {records : List (Record (ParsedMessage π))}

/-- The connection after the matcher. -/
def afterMatch (c : Connection4 π σ) : Connection4 π σ :=
  { c with
    reqQueue := (matchStreamZero c.reqQueue c.respQueue).2.1
    respQueue := (matchStreamZero c.reqQueue c.respQueue).2.2 }

theorem Receives.afterMatch (h : Receives sent c₀ before c) :
    Receives sent c₀ before (afterMatch c) := by
  refine ⟨h.role, h.within, h.below, ?_⟩
  intro side
  rcases side with _ | _
  · exact h.holds .req
  · exact h.holds .resp

/-- What an event adds to the queue of a side. -/
theorem queue_zero {side : Side} (htimed : (sent side).framed.Timed) {n m : ℕ} {starts : List (ℕ × ℕ)}
    (h : c'.resultQueue side
      = ((sent side).news starts n m).foldl Connection4.enqueue (c.resultQueue side)) :
    zeroStream (c'.resultQueue side)
      = zeroStream (c.resultQueue side) ++ (sent side).news starts n m := by
  rw [h]
  apply zero_enqueue
  intro message hmessage
  obtain ⟨q, -, rfl⟩ := List.mem_map.mp hmessage
  exact htimed.stream _ _ _

/-- **Part of a request.** Nothing is matched; the request is queued when it is whole. -/
theorem InTalk.request (h : InTalk sent c₀ before records c) (ha : Arrives sent c₀ before a)
    (hturn : Turn sent c₀ before a) (htimed : ∀ side, (sent side).framed.Timed)
    (hside : c₀.sideOf a.event.ke = .req) (hreceives : Receives sent c₀ (before ++ [a]) c')
    (hqueue : ∀ side, c'.resultQueue side = ((sent side).news (c₀.starts side (before ++ [a]))
      (c₀.fed side before) (c₀.gain side a)).foldl Connection4.enqueue (c.resultQueue side)) :
    InTalk sent c₀ (before ++ [a]) (records ++ (matchStreamZero c'.reqQueue c'.respQueue).1)
      (afterMatch c') := by
  obtain ⟨hcount, hcut⟩ := hturn.request hside
  have hgain : c₀.gain .req a = a.event.data.length := if_pos hside
  have hother : c₀.gain .resp a = 0 := if_neg (by rw [hside]; decide)
  have hpos := List.length_pos_iff.mpr ha.some
  have hwithin := hreceives.within .req
  have hfed : c₀.fed .resp (before ++ [a]) = c₀.fed .resp before := by
    rw [fed_append, hother, Nat.add_zero]
  -- No response came, so the loop over the responses has nothing to match.
  have hresps : zeroStream c'.respQueue = [] := by
    have hzero := queue_zero (htimed .resp) (hqueue .resp)
    rw [hother, Sent.news_zero, List.append_nil] at hzero
    exact hzero.trans h.resps
  have hsame : (sent .resp).sofar c₀ (before ++ [a]) = (sent .resp).sofar c₀ before := by
    rw [sofar_append ha, hother, Sent.news_zero, List.append_nil]
  have hlen : ((sent .req).sofar c₀ before).length = ((sent .resp).sofar c₀ before).length := by
    unfold Sent.sofar
    rw [Sent.delivered_length, Sent.delivered_length, hcount]
  have hlen' : ((sent .req).sofar c₀ before).length = (sent .resp).count (c₀.fed .resp before) := by
    unfold Sent.sofar
    rw [Sent.delivered_length, hcount]
  -- Every request before this one has been matched.
  have hreqs : zeroStream c'.reqQueue
      = (sent .req).news (c₀.starts .req (before ++ [a])) (c₀.fed .req before) (c₀.gain .req a) := by
    have hzero := queue_zero (htimed .req) (hqueue .req)
    have hnone : zeroStream (c.resultQueue .req) = [] := by
      refine h.reqs.trans (List.drop_eq_nil_of_le hlen'.le)
    rw [hnone, List.nil_append] at hzero
    exact hzero
  obtain ⟨hnothing, hkept, hnone⟩ := matchStreamZero_none c'.reqQueue hresps
  refine ⟨hreceives.afterMatch, h.first.append ha, ?_, ?_, ?_, hnone, ?_⟩
  · rw [hnothing, List.append_nil, h.records, hsame, sofar_append ha]
    conv_rhs => rw [← List.append_nil ((sent .resp).sofar c₀ before)]
    rw [List.zipWith_append hlen, List.zipWith_nil_right, List.append_nil]
  · rw [hfed, fed_append, hgain]
    rw [fed_append, hgain] at hwithin
    rcases Sent.oneFrame_cases [] (hturn.oneFrame .req hside) hpos hwithin with
      ⟨-, hsame, -, -⟩ | ⟨-, hmore, hzero⟩
    · exact Or.inl ⟨hsame.trans hcount, hcut⟩
    · exact Or.inr ⟨by rw [hmore, hcount], hzero⟩
  · rw [hfed, sofar_append ha]
    refine hkept.trans ?_
    rw [hreqs, ← hlen', List.drop_left]
  · rw [hfed, hcut]
    exact fun hlt => absurd hlt (lt_irrefl 0)

/-- The response that is being read has a time, and every request is older. -/
theorem InTalk.answered (h : InTalk sent c₀ before records c) (ha : Arrives sent c₀ before a)
    (hturn : Turn sent c₀ before a) (htimed : ∀ side, (sent side).framed.Timed)
    (hside : c₀.sideOf a.event.ke = .resp) :
    ∃ ts, stampAt (c₀.starts .resp (before ++ [a])) ((sent .resp).position (c₀.fed .resp before))
        = some ts
      ∧ ∀ q ∈ (sent .req).sofar c₀ before, timestampNs q < ts := by
  have hsum := (sent .resp).framed.layout.total_whole_add_left (sent .resp).frames (c₀.fed .resp before)
  obtain ⟨hseq, -⟩ := ha.next .resp hside
  rw [starts_append, if_pos hside, stampAt_append]
  by_cases hcut : 0 < (sent .resp).cut (c₀.fed .resp before)
  · obtain ⟨ts, hstamp, hold⟩ := h.answering hcut
    have hbehind : ¬a.event.ke.seq ≤ (sent .resp).position (c₀.fed .resp before) := by
      unfold Sent.cut at hcut
      unfold Sent.position
      omega
    rw [if_neg hbehind]
    exact ⟨ts, hstamp, hold⟩
  · -- The response begins with this event.
    have hbegin : a.event.ke.seq ≤ (sent .resp).position (c₀.fed .resp before) := by
      unfold Sent.cut at hcut
      unfold Sent.position
      omega
    rw [if_pos hbegin]
    refine ⟨_, rfl, ?_⟩
    intro q hq
    obtain ⟨b, hb, hstamp⟩ := sofar_stamped h.first (htimed .req) hq
    rw [hstamp]
    exact hturn.later b hb

/-- **Part of a response.** When it is whole it is matched with the request. -/
theorem InTalk.response (h : InTalk sent c₀ before records c) (ha : Arrives sent c₀ before a)
    (hturn : Turn sent c₀ before a) (htimed : ∀ side, (sent side).framed.Timed)
    (hside : c₀.sideOf a.event.ke = .resp) (hreceives : Receives sent c₀ (before ++ [a]) c')
    (hqueue : ∀ side, c'.resultQueue side = ((sent side).news (c₀.starts side (before ++ [a]))
      (c₀.fed side before) (c₀.gain side a)).foldl Connection4.enqueue (c.resultQueue side)) :
    InTalk sent c₀ (before ++ [a]) (records ++ (matchStreamZero c'.reqQueue c'.respQueue).1)
      (afterMatch c') := by
  obtain ⟨hcount, hcut⟩ := hturn.response hside
  obtain ⟨ts, hstamp, hold⟩ := h.answered ha hturn htimed hside
  have hgain : c₀.gain .resp a = a.event.data.length := if_pos hside
  have hother : c₀.gain .req a = 0 := if_neg (by rw [hside]; decide)
  have hpos := List.length_pos_iff.mpr ha.some
  have hwithin := hreceives.within .resp
  rw [fed_append, hgain] at hwithin
  have hfed : c₀.fed .req (before ++ [a]) = c₀.fed .req before := by
    rw [fed_append, hother, Nat.add_zero]
  have hfed' : c₀.fed .resp (before ++ [a]) = c₀.fed .resp before + a.event.data.length := by
    rw [fed_append, hgain]
  have hsame : (sent .req).sofar c₀ (before ++ [a]) = (sent .req).sofar c₀ before := by
    rw [sofar_append ha, hother, Sent.news_zero, List.append_nil]
  have hlen : ((sent .req).sofar c₀ before).length = (sent .resp).count (c₀.fed .resp before) + 1 := by
    unfold Sent.sofar
    rw [Sent.delivered_length, hcount]
  have hlen' : ((sent .resp).sofar c₀ before).length = (sent .resp).count (c₀.fed .resp before) := by
    unfold Sent.sofar
    rw [Sent.delivered_length]
  -- The one request that has no response yet is in its queue.
  have hreqs : zeroStream c'.reqQueue
      = ((sent .req).sofar c₀ before).drop ((sent .resp).count (c₀.fed .resp before)) := by
    have hzero := queue_zero (htimed .req) (hqueue .req)
    rw [hother, Sent.news_zero, List.append_nil] at hzero
    exact hzero.trans h.reqs
  have hresps : zeroStream c'.respQueue
      = (sent .resp).news (c₀.starts .resp (before ++ [a])) (c₀.fed .resp before)
        a.event.data.length := by
    have hzero := queue_zero (htimed .resp) (hqueue .resp)
    have hnone : zeroStream (c.resultQueue .resp) = [] := h.resps
    rw [hnone, List.nil_append, hgain] at hzero
    exact hzero
  rcases Sent.oneFrame_cases (c₀.starts .resp (before ++ [a])) (hturn.oneFrame .resp hside) hpos hwithin
    with ⟨hnews, hkept, hlonger, hposition⟩ | ⟨⟨f, hnews⟩, hmore, hzero⟩
  · -- The response is not whole yet.
    rw [hnews] at hresps
    obtain ⟨hnothing, hstay, hnone⟩ := matchStreamZero_none c'.reqQueue hresps
    refine ⟨hreceives.afterMatch, h.first.append ha, ?_, ?_, ?_, hnone, ?_⟩
    · rw [hnothing, List.append_nil, h.records, hsame, sofar_append ha, hgain, hnews, List.append_nil]
    · rw [hfed, hfed', hkept]
      exact Or.inr ⟨hcount, hcut⟩
    · rw [hsame, hfed', hkept]
      exact hstay.trans hreqs
    · rw [hsame, hfed', hposition]
      exact fun _ => ⟨ts, hstamp, hold⟩
  · -- The response is whole: its request is the one that is left, and it is older.
    obtain ⟨q, hq⟩ : ∃ q, ((sent .req).sofar c₀ before).drop ((sent .resp).count (c₀.fed .resp before))
        = [q] := by
      rw [← List.length_eq_one_iff, List.length_drop]
      omega
    have hmem : q ∈ (sent .req).sofar c₀ before := by
      apply List.mem_of_mem_drop (i := (sent .resp).count (c₀.fed .resp before))
      rw [hq]
      exact List.mem_cons_self
    rw [hnews] at hresps
    rw [hq] at hreqs
    have hlt : timestampNs q < timestampNs ((sent .resp).framed.message f
        ((sent .resp).position (c₀.fed .resp before))
        ((stampAt (c₀.starts .resp (before ++ [a]))
          ((sent .resp).position (c₀.fed .resp before))).getD 0)) := by
      rw [(htimed .resp).time, hstamp, Option.getD_some]
      exact hold q hmem
    obtain ⟨hpair, hempty, hnone⟩ := matchStreamZero_pair hreqs hresps hlt
    refine ⟨hreceives.afterMatch, h.first.append ha, ?_, ?_, ?_, hnone, ?_⟩
    · -- The records so far pair all requests but the last, which the new record takes.
      have hsplit : (sent .req).sofar c₀ before
          = ((sent .req).sofar c₀ before).take ((sent .resp).count (c₀.fed .resp before)) ++ [q] := by
        rw [← hq, List.take_append_drop]
      have htake : (((sent .req).sofar c₀ before).take ((sent .resp).count (c₀.fed .resp before))).length
          = ((sent .resp).sofar c₀ before).length := by
        rw [List.length_take, hlen']
        omega
      have hbefore : List.zipWith recordOf ((sent .req).sofar c₀ before) ((sent .resp).sofar c₀ before)
          = List.zipWith recordOf
              (((sent .req).sofar c₀ before).take ((sent .resp).count (c₀.fed .resp before)))
              ((sent .resp).sofar c₀ before) := by
        conv_lhs => rw [hsplit, ← List.append_nil ((sent .resp).sofar c₀ before)]
        rw [List.zipWith_append htake, List.zipWith_nil_right, List.append_nil]
      rw [hpair, h.records, hbefore, hsame, sofar_append ha, hgain, hnews]
      conv_rhs => rw [hsplit]
      rw [List.zipWith_append htake]
      rfl
    · rw [hfed, hfed', hmore]
      exact Or.inl ⟨hcount, hzero⟩
    · rw [hsame, hfed', hmore, List.drop_eq_nil_of_le hlen.le]
      exact hempty
    · rw [hfed', hzero]
      exact fun hlt => absurd hlt (lt_irrefl 0)

/-! ## Every conversation -/

/-- A connection without messages. -/
structure Unused (c₀ : Connection4 π σ) : Prop where
  role : c₀.role ≠ .unknown
  buffers : ∀ side, c₀.streamBuffer side = StreamBuffer.new streamBufferCapacity
  reqs : zeroStream c₀.reqQueue = []
  resps : zeroStream c₀.respQueue = []

theorem inTalk_start (hfresh : Unused c₀) : InTalk sent c₀ [] [] c₀ := by
  have hnone : ∀ side, (sent side).sofar c₀ [] = [] := by
    intro side
    apply List.length_eq_zero_iff.mp
    obtain ⟨hwhole, -, -⟩ := (sent side).framed.layout.cut_zero (sent side).frames
    unfold Sent.sofar
    rw [Sent.delivered_length, Sent.count]
    exact congrArg List.length hwhole
  have hcount : ∀ side, (sent side).count (c₀.fed side []) = 0 := by
    intro side
    obtain ⟨hwhole, -, -⟩ := (sent side).framed.layout.cut_zero (sent side).frames
    exact congrArg List.length hwhole
  have hcut : ∀ side, (sent side).cut (c₀.fed side []) = 0 := by
    intro side
    obtain ⟨-, -, hleft⟩ := (sent side).framed.layout.cut_zero (sent side).frames
    exact hleft
  -- Before the first event both counts are zero and no record is made.
  refine ⟨receives_start hfresh.buffers, ?_, ?_, ?_, ?_, hfresh.resps, ?_⟩
  · exact fun side hpos => absurd hpos (lt_irrefl 0)
  · rw [hnone, hnone]
    rfl
  · rw [hcount, hcount, hcut]
    exact Or.inl ⟨rfl, rfl⟩
  · rw [hnone, List.drop_nil]
    exact hfresh.reqs
  · rw [hcut]
    exact fun hlt => absurd hlt (lt_irrefl 0)

/-- **One event of a conversation.** -/
theorem InTalk.step (h : InTalk sent c₀ before records c) (ha : Arrives sent c₀ before a)
    (hturn : Turn sent c₀ before a) (htimed : ∀ side, (sent side).framed.Timed)
    (hrole : c₀.role ≠ .unknown) {fuel : ℕ} (hfuel : ∀ side, (sent side).frames.length < fuel) :
    ∃ records' c', c.onData fuel records a = some (.ok (records', c'))
      ∧ InTalk sent c₀ (before ++ [a]) records' c' := by
  obtain ⟨c', hdata, hreceives, hqueue⟩ := h.receives.step ha hrole hfuel
  refine ⟨records ++ (matchStreamZero c'.reqQueue c'.respQueue).1, afterMatch c', ?_, ?_⟩
  · unfold onData
    rw [hdata]
    rfl
  · rcases hside : c₀.sideOf a.event.ke with _ | _
    · exact h.request ha hturn htimed hside hreceives hqueue
    · exact h.response ha hturn htimed hside hreceives hqueue

/-- **The records are the exchanges.** In every conversation, however its messages are cut into pieces,
every event is handled, and the records are the requests with their responses, each one as soon as the
response is whole. -/
theorem talk_records (hfresh : Unused c₀) (htimed : ∀ side, (sent side).framed.Timed)
    {as : List (Incoming π σ)} (h : Talking sent c₀ as) {fuel : ℕ}
    (hfuel : ∀ side, (sent side).frames.length < fuel) :
    ∃ records c, c₀.onAll fuel as = some (.ok (records, c)) ∧ InTalk sent c₀ as records c := by
  induction h with
  | start => exact ⟨[], c₀, rfl, inTalk_start hfresh⟩
  | @next before a talking arrives turn ih =>
      obtain ⟨records, c, hall, htalk⟩ := ih
      -- `InTalk` carries the induction: the records and what is still queued, after each event.
      obtain ⟨records', c', hone, htalk'⟩ := htalk.step arrives turn htimed hfresh.role hfuel
      refine ⟨records', c', ?_, htalk'⟩
      unfold onAll at hall ⊢
      rw [List.foldl_append, hall, List.foldl_cons, List.foldl_nil]
      exact hone

end Talk

end Kyanos
