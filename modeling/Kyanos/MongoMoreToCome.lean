/-
`FindMoreToComeResponses`, as the loop that it is in the source.

A response that has more to come names the queue of the next one by its id, and ids come off the
wire: they may form cycles, and name the response itself. What ends the loop is the time. The search
in a queue that is not in order still finds only a frame that is later than the last one, so each
round leaves fewer later frames (`laterCount`), however the frames are linked.

The loop changes the frames as it goes. What it changes it does not read again: the frames it still
can find are later than all it has taken (`Agrees`). So it takes what `chase` takes from the queues as
they were (`findMoreToComeResponses_chase`), and `Match` works with what it leaves
(`answer_stitches`).
-/
import Kyanos.MongoStitcher
import Kyanos.Trace

set_option autoImplicit false

open Trace

namespace Kyanos.Mongo

/-! ## The loop -/

/-- The variables of `FindMoreToComeResponses`. `respFrame` is in one of the queues; what the loop
changes of it stands here. The frames that were appended to it are kept with their places. -/
structure Stitching where
  resps : FrameQueues
  respFrame : MongoDBFrame
  curRespFrame : MongoDBFrame
  latestRespTs : ℕ
  appended : List (ℤ × ℕ × MongoDBFrame)

/-- One round. It stops when there is no next response. -/
def Stitching.body (s : Stitching) : Except Panic (Bool × Stitching) :=
  match nextResponse s.resps s.curRespFrame s.latestRespTs with
  | none => .ok (true, s)
  | some (key, i, nextResp) =>
      .ok (false,
        { resps := modifyAt s.resps key i consume
          respFrame := extend s.respFrame nextResp
          curRespFrame := consume nextResp
          latestRespTs := nextResp.base.timestampNs
          appended := s.appended ++ [(key, i, nextResp)] })

/-- `FindMoreToComeResponses`, with at most `n` rounds. -/
def findMoreToComeResponses (n : ℕ) (resps : FrameQueues) (respFrame : MongoDBFrame)
    (latestRespTs : ℕ) : Option (Except Panic Stitching) :=
  loop (fun s : Stitching => !s.curRespFrame.moreToCome) Stitching.body n
    { resps := resps, respFrame := respFrame, curRespFrame := respFrame, latestRespTs := latestRespTs
      appended := [] }

/-- The frame at a place of the queues. -/
def frameAt (queues : FrameQueues) (key : ℤ) (i : ℕ) : Option MongoDBFrame :=
  (queues.get? key).bind (·[i]?)

/-- What is owed of the loop: the frames it appends are at different places of the queues, none of
them that of the response; each is later than the one before it and all are later than the response,
which gets their sections in order, and their sizes. -/
structure Stitched (resps : FrameQueues) (respFrame : MongoDBFrame) (s : Stitching) : Prop where
  places : ∀ x ∈ s.appended, frameAt resps x.1 x.2.1 = some x.2.2
  distinct : (s.appended.map fun x => (x.1, x.2.1)).Nodup
  other : ∀ key i, frameAt resps key i = some respFrame →
    (key, i) ∉ s.appended.map fun x => (x.1, x.2.1)
  rising : (respFrame :: s.appended.map fun x => x.2.2).Pairwise
    (fun a b => a.base.timestampNs < b.base.timestampNs)
  sections : s.respFrame.sections = respFrame.sections ++ s.appended.flatMap fun x => x.2.2.sections
  length : intOf 32 s.respFrame.length
    = intOf 32 (respFrame.length + (s.appended.map fun x => x.2.2.length).sum)
  byteSize : s.respFrame.base.byteSize
    = respFrame.base.byteSize + (s.appended.map fun x => x.2.2.base.byteSize).sum

/-! ## What the changes leave -/

theorem frameAt_modifyAt (queues : FrameQueues) (key : ℤ) (i : ℕ) (f : MongoDBFrame → MongoDBFrame)
    (k : ℤ) (j : ℕ) : frameAt (modifyAt queues key i f) k j
      = if k = key ∧ j = i then (frameAt queues k j).map f else frameAt queues k j := by
  unfold frameAt modifyAt
  rcases hkey : queues.get? key with _ | deque
  · split_ifs with h
    · rw [h.1, hkey]
      rfl
    · rfl
  · dsimp only
    rw [SortedMap.get?_put]
    by_cases hk : k = key
    · rw [if_pos hk, hk, hkey, Option.bind_some, Option.bind_some, List.getElem?_modify]
      by_cases hj : j = i
      · subst hj
        rw [if_pos ⟨rfl, rfl⟩]
        simp
      · rw [if_neg fun h => hj h.2]
        simp [Ne.symm hj]
    · rw [if_neg hk, if_neg fun h => hk h.1]

theorem length_modifyAt (queues : FrameQueues) (key : ℤ) (i : ℕ) (f : MongoDBFrame → MongoDBFrame)
    (k : ℤ) : ((modifyAt queues key i f).get? k).map List.length
      = (queues.get? k).map List.length := by
  unfold modifyAt
  rcases hkey : queues.get? key with _ | deque
  · rfl
  · dsimp only
    rw [SortedMap.get?_put]
    split_ifs with hk
    · rw [hk, hkey, Option.map_some, Option.map_some, List.length_modify]
    · rfl

/-- The queues agree on the times of their frames, and on the frames later than a time. -/
structure Agrees (resps resps' : FrameQueues) (t : ℕ) : Prop where
  length : ∀ key, (resps'.get? key).map List.length = (resps.get? key).map List.length
  time : ∀ key i, (frameAt resps' key i).map (·.base.timestampNs)
    = (frameAt resps key i).map (·.base.timestampNs)
  frame : ∀ key i frame, frameAt resps key i = some frame → t < frame.base.timestampNs →
    frameAt resps' key i = some frame

section Agrees

variable {resps resps' : FrameQueues} {t : ℕ} {cur cur' nextResp : MongoDBFrame} {key : ℤ} {i : ℕ}

theorem Agrees.refl (resps : FrameQueues) (t : ℕ) : Agrees resps resps t :=
  ⟨fun _ => rfl, fun _ _ => rfl, fun _ _ _ h _ => h⟩

/-- The next response is at its place, and is later. -/
theorem nextResponse_place (h : nextResponse resps cur t = some (key, i, nextResp)) :
    frameAt resps key i = some nextResp ∧ t < nextResp.base.timestampNs := by
  refine ⟨?_, (nextResponse_later h).2⟩
  unfold nextResponse at h
  rcases hdeque : resps.get? cur.requestId with _ | deque
  · rw [hdeque] at h
    cases h
  rw [hdeque] at h
  dsimp only at h
  split at h
  · cases h
  rename_i found hfound
  split_ifs at h
  cases h
  rw [frameAt, hdeque]
  exact hfound

/-- Queues that agree have the same next response. -/
theorem Agrees.nextResponse_eq (h : Agrees resps resps' t) :
    nextResponse resps' cur t = nextResponse resps cur t := by
  have hlength := h.length cur.requestId
  have htime := h.time cur.requestId
  have hframe := h.frame cur.requestId
  unfold frameAt at htime hframe
  unfold nextResponse
  rcases hdeque : resps.get? cur.requestId with _ | deque
  · rw [hdeque] at hlength
    rw [Option.map_eq_none_iff.mp hlength]
  rcases hdeque' : resps'.get? cur.requestId with _ | deque'
  · rw [hdeque, hdeque'] at hlength
    cases hlength
  rw [hdeque, hdeque'] at hlength
  rw [hdeque, hdeque'] at htime
  rw [hdeque, hdeque'] at hframe
  have hlen : deque'.length = deque.length := Option.some.inj hlength
  -- The search looks at times alone.
  have hlater : (fun i : ℕ => deque'[i]?.any (later t)) = fun i : ℕ => deque[i]?.any (later t) := by
    funext i
    have hi : deque'[i]?.map (·.base.timestampNs) = deque[i]?.map (·.base.timestampNs) := htime i
    rcases hframe : deque[i]? with _ | frame <;> rcases hframe' : deque'[i]? with _ | frame'
    · rfl
    · simp [hframe, hframe'] at hi
    · simp [hframe, hframe'] at hi
    · have heq : frame'.base.timestampNs = frame.base.timestampNs := by simpa [hframe, hframe'] using hi
      simp [later, heq]
  dsimp only
  rw [hlen, hlater]
  rcases searchLoop_found (fun i => deque[i]?.any (later t)) (Nat.zero_le deque.length)
    with hend | hfound
  · have hsearch : search deque.length (fun i => deque[i]?.any (later t)) = deque.length := hend
    rw [hsearch, List.getElem?_eq_none le_rfl, List.getElem?_eq_none hlen.le]
  · have hany : deque[search deque.length (fun i => deque[i]?.any (later t))]?.any (later t) = true :=
      hfound
    rcases hat : deque[search deque.length (fun i => deque[i]?.any (later t))]? with _ | frame
    · rw [hat] at hany
      cases hany
    · rw [hat] at hany
      have hsame : deque'[search deque.length (fun i => deque[i]?.any (later t))]? = some frame :=
        hframe _ frame hat (of_decide_eq_true hany)
      rw [hsame]

/-- Consuming the next response leaves the frames that are later than it. -/
theorem Agrees.consume (h : Agrees resps resps' t)
    (hnext : nextResponse resps cur t = some (key, i, nextResp)) :
    Agrees resps (modifyAt resps' key i consume) nextResp.base.timestampNs := by
  obtain ⟨hplace, hlate⟩ := nextResponse_place hnext
  refine ⟨?_, ?_, ?_⟩
  · intro k
    rw [length_modifyAt, h.length]
  · intro k j
    rw [frameAt_modifyAt, ← h.time]
    split_ifs
    · rcases frameAt resps' k j with _ | frame <;> rfl
    · rfl
  · intro k j frame hframe hlater
    rw [frameAt_modifyAt, if_neg, h.frame k j frame hframe (hlate.trans hlater)]
    rintro ⟨rfl, rfl⟩
    rw [hplace] at hframe
    cases hframe
    exact lt_irrefl _ hlater

end Agrees

/-! ## What the loop takes -/

section Chase

variable {resps : FrameQueues} {cur : MongoDBFrame} {t : ℕ}

theorem chase_consume (frame : MongoDBFrame) : chase resps (consume frame) t = chase resps frame t := by
  rw [chase, chase]
  rfl

theorem chase_done (h : cur.moreToCome = false) : chase resps cur t = ([], t) := by
  rw [chase, if_neg (by simp [h])]

theorem chase_none (h : nextResponse resps cur t = none) : chase resps cur t = ([], t) := by
  rw [chase]
  split_ifs
  · split
    · rfl
    · rename_i hnext
      rw [h] at hnext
      cases hnext
  · rfl

theorem chase_next {key : ℤ} {i : ℕ} {nextResp : MongoDBFrame} (hmore : cur.moreToCome = true)
    (h : nextResponse resps cur t = some (key, i, nextResp)) :
    chase resps cur t = ((key, i, nextResp) :: (chase resps nextResp nextResp.base.timestampNs).1,
      (chase resps nextResp nextResp.base.timestampNs).2) := by
  rw [chase, if_pos hmore]
  split
  · rename_i hnext
    rw [h] at hnext
    cases hnext
  · rename_i hnext
    rw [h] at hnext
    cases hnext
    rfl

/-- What is taken is later than the time, each frame later than the one before it, and is where it
is said to be. -/
theorem chase_spec (resps : FrameQueues) (cur : MongoDBFrame) (t : ℕ) :
    (∀ x ∈ (chase resps cur t).1, t < x.2.2.base.timestampNs ∧ frameAt resps x.1 x.2.1 = some x.2.2)
      ∧ (chase resps cur t).1.Pairwise fun x y => x.2.2.base.timestampNs < y.2.2.base.timestampNs := by
  induction hcount : laterCount resps t using Nat.strong_induction_on generalizing cur t with
  | _ n ih =>
      subst hcount
      by_cases hmore : cur.moreToCome = true
      swap
      · rw [chase_done (Bool.eq_false_iff.mpr hmore)]
        exact ⟨by simp, List.Pairwise.nil⟩
      rcases hnext : nextResponse resps cur t with _ | ⟨key, i, nextResp⟩
      · rw [chase_none hnext]
        exact ⟨by simp, List.Pairwise.nil⟩
      obtain ⟨hmem, hlater⟩ := nextResponse_later hnext
      obtain ⟨hplaces, hrising⟩ := ih _ (laterCount_lt hmem hlater) nextResp _ rfl
      rw [chase_next hmore hnext]
      refine ⟨?_, List.Pairwise.cons (fun y hy => (hplaces y hy).1) hrising⟩
      intro x hx
      rcases List.mem_cons.mp hx with rfl | hx
      · exact ⟨hlater, (nextResponse_place hnext).1⟩
      · exact ⟨hlater.trans (hplaces x hx).1, (hplaces x hx).2⟩

end Chase

section Loop

variable {resps : FrameQueues} {respFrame : MongoDBFrame} {s : Stitching}

/-- The response with the frames appended to it. -/
def extendAll (respFrame : MongoDBFrame) (appended : List (ℤ × ℕ × MongoDBFrame)) : MongoDBFrame :=
  appended.foldl (fun resp (_, _, nextResp) => extend resp nextResp) respFrame

/-- The queues with the frames consumed. -/
def consumeAll (resps : FrameQueues) (appended : List (ℤ × ℕ × MongoDBFrame)) : FrameQueues :=
  appended.foldl (fun resps (key, i, _) => modifyAt resps key i consume) resps

/-- The invariant of the loop: what is taken so far and what is still to be taken is what is taken
from the queues as they were. -/
structure Stitching.Inv (resps : FrameQueues) (respFrame : MongoDBFrame) (s : Stitching) : Prop where
  agrees : Agrees resps s.resps s.latestRespTs
  taken : (chase resps respFrame respFrame.base.timestampNs).1
    = s.appended ++ (chase resps s.curRespFrame s.latestRespTs).1
  latest : (chase resps respFrame respFrame.base.timestampNs).2
    = (chase resps s.curRespFrame s.latestRespTs).2
  extended : s.respFrame = extendAll respFrame s.appended
  consumed : s.resps = consumeAll resps s.appended

theorem Stitching.Inv.next {key : ℤ} {i : ℕ} {nextResp : MongoDBFrame} (h : s.Inv resps respFrame)
    (hmore : s.curRespFrame.moreToCome = true)
    (hnext : nextResponse resps s.curRespFrame s.latestRespTs = some (key, i, nextResp)) :
    Stitching.Inv resps respFrame
      { resps := modifyAt s.resps key i consume, respFrame := extend s.respFrame nextResp
        curRespFrame := consume nextResp, latestRespTs := nextResp.base.timestampNs
        appended := s.appended ++ [(key, i, nextResp)] } := by
  have hchase := chase_next hmore hnext
  refine ⟨h.agrees.consume hnext, ?_, ?_, ?_, ?_⟩
  · rw [h.taken, hchase, chase_consume, List.append_assoc]
    rfl
  · rw [h.latest, hchase, chase_consume]
  · dsimp only
    rw [h.extended, extendAll, extendAll, List.foldl_append]
    rfl
  · dsimp only
    rw [h.consumed, consumeAll, consumeAll, List.foldl_append]
    rfl

/-- **The loop ends**, and has taken from the queues what `chase` takes. Every bound on its rounds
above the number of later frames gives the same. -/
theorem findMoreToComeResponses_chase (resps : FrameQueues) (respFrame : MongoDBFrame) :
    ∃ s : Stitching,
      (∀ n, laterCount resps respFrame.base.timestampNs < n →
        findMoreToComeResponses n resps respFrame respFrame.base.timestampNs = some (.ok s))
      ∧ s.appended = (chase resps respFrame respFrame.base.timestampNs).1
      ∧ s.latestRespTs = (chase resps respFrame respFrame.base.timestampNs).2
      ∧ s.respFrame = extendAll respFrame s.appended
      ∧ s.resps = consumeAll resps s.appended := by
  -- Each round leaves fewer frames that are later than the last one taken.
  obtain ⟨r, hr, hloop⟩ := @loop_returns _ _ (fun s : Stitching => !s.curRespFrame.moreToCome)
    Stitching.body (Stitching.Inv resps respFrame)
    (fun r => ∃ s, r = .ok s ∧ s.appended = (chase resps respFrame respFrame.base.timestampNs).1
      ∧ s.latestRespTs = (chase resps respFrame respFrame.base.timestampNs).2
      ∧ s.respFrame = extendAll respFrame s.appended ∧ s.resps = consumeAll resps s.appended)
    (fun s => laterCount resps s.latestRespTs)
    (by
      intro s hs hdone
      have hchase := @chase_done resps s.curRespFrame s.latestRespTs (by simpa using hdone)
      refine ⟨s, rfl, ?_, ?_, hs.extended, hs.consumed⟩
      · rw [hs.taken, hchase, List.append_nil]
      · rw [hs.latest, hchase])
    (by
      intro s hs hmore
      rcases hnext : nextResponse resps s.curRespFrame s.latestRespTs with _ | ⟨key, i, nextResp⟩
      · have hchase := @chase_none resps s.curRespFrame s.latestRespTs hnext
        refine Or.inr (Or.inl ⟨s, ?_, s, rfl, ?_, ?_, hs.extended, hs.consumed⟩)
        · rw [Stitching.body, hs.agrees.nextResponse_eq, hnext]
        · rw [hs.taken, hchase, List.append_nil]
        · rw [hs.latest, hchase]
      · refine Or.inr (Or.inr ⟨_, ?_, hs.next (by simpa using hmore) hnext, ?_⟩)
        · rw [Stitching.body, hs.agrees.nextResponse_eq, hnext]
        · obtain ⟨hmem, hlater⟩ := nextResponse_later hnext
          exact laterCount_lt hmem hlater)
    ⟨resps, respFrame, respFrame, respFrame.base.timestampNs, []⟩
    ⟨Agrees.refl _ _, rfl, rfl, rfl, rfl⟩
  obtain ⟨s, rfl, hs⟩ := hr
  exact ⟨s, hloop, hs⟩

/-! ## What is appended -/

theorem extendAll_sections (respFrame : MongoDBFrame) (appended : List (ℤ × ℕ × MongoDBFrame)) :
    (extendAll respFrame appended).sections
      = respFrame.sections ++ appended.flatMap fun x => x.2.2.sections := by
  induction appended generalizing respFrame with
  | nil => exact (List.append_nil _).symm
  | cons x appended ih =>
      refine (ih _).trans ?_
      rw [List.flatMap_cons, ← List.append_assoc]
      rfl

theorem extendAll_byteSize (respFrame : MongoDBFrame) (appended : List (ℤ × ℕ × MongoDBFrame)) :
    (extendAll respFrame appended).base.byteSize
      = respFrame.base.byteSize + (appended.map fun x => x.2.2.base.byteSize).sum := by
  induction appended generalizing respFrame with
  | nil => exact (add_zero _).symm
  | cons x appended ih =>
      refine (ih _).trans ?_
      rw [List.map_cons, List.sum_cons, ← add_assoc]
      rfl

/-- The length is an `int32`, so it grows by the sum of the lengths as one. -/
theorem extendAll_length (respFrame : MongoDBFrame) (appended : List (ℤ × ℕ × MongoDBFrame)) :
    intOf 32 (extendAll respFrame appended).length
      = intOf 32 (respFrame.length + (appended.map fun x => x.2.2.length).sum) := by
  induction appended generalizing respFrame with
  | nil =>
      rw [List.map_nil, List.sum_nil, add_zero]
      rfl
  | cons x appended ih =>
      refine (ih _).trans ?_
      rw [List.map_cons, List.sum_cons, ← add_assoc]
      exact Int.bmod_add_bmod

/-- **More to come.** From the time of the response itself, the loop ends on every map of queues, and
appends frames that are different and later and later, with their sections and sizes. -/
theorem findMoreToComeResponses_exact (resps : FrameQueues) (respFrame : MongoDBFrame) :
    ∃ s : Stitching,
      (∀ n, laterCount resps respFrame.base.timestampNs < n →
        findMoreToComeResponses n resps respFrame respFrame.base.timestampNs = some (.ok s))
      ∧ Stitched resps respFrame s := by
  obtain ⟨s, hloop, happended, -, hextended, -⟩ := findMoreToComeResponses_chase resps respFrame
  obtain ⟨hplaces, hrising⟩ := chase_spec resps respFrame respFrame.base.timestampNs
  rw [← happended] at hplaces hrising
  refine ⟨s, hloop, fun x hx => (hplaces x hx).2, ?_, ?_, ?_, ?_, ?_, ?_⟩
  · rw [List.Nodup, List.pairwise_map]
    -- At one place there is one frame, and it is not later than itself.
    refine hrising.imp_of_mem fun {x y} hx hy hlt heq => ?_
    obtain ⟨hkey, hi⟩ := Prod.mk.injEq .. ▸ heq
    have hframe := (hplaces x hx).2
    rw [hkey, hi, (hplaces y hy).2] at hframe
    rw [Option.some.inj hframe] at hlt
    exact lt_irrefl _ hlt
  · intro key i hframe hmem
    obtain ⟨x, hx, heq⟩ := List.mem_map.mp hmem
    cases heq
    obtain ⟨hlater, hplace⟩ := hplaces x hx
    rw [hframe] at hplace
    rw [← Option.some.inj hplace] at hlater
    exact lt_irrefl _ hlater
  · refine List.Pairwise.cons ?_ (List.pairwise_map.mpr hrising)
    intro frame hframe
    obtain ⟨x, hx, rfl⟩ := List.mem_map.mp hframe
    exact (hplaces x hx).1
  · rw [hextended, extendAll_sections]
  · rw [hextended, extendAll_length]
  · rw [hextended, extendAll_byteSize]

/-- `Match` pairs a response with what the loop has made of it. -/
theorem answer_stitches {respStreams : FrameQueues} {streamId : ℤ} {reqDeque respDeque : List MongoDBFrame}
    {respFrame reqFrame : MongoDBFrame} {i j n : ℕ}
    (hresp : firstResponse respDeque = some (respFrame, i))
    (hreq : lastRequest reqDeque respFrame.base.timestampNs = some (reqFrame, j))
    (hn : laterCount respStreams respFrame.base.timestampNs < n) :
    ∃ s, findMoreToComeResponses n respStreams respFrame respFrame.base.timestampNs = some (.ok s)
      ∧ answer respStreams streamId reqDeque respDeque
        = ⟨reqDeque.set j (flattenSections (consume reqFrame)),
            modifyAt s.resps streamId i (fun _ => flattenSections (consume s.respFrame)),
            s.latestRespTs,
            some (recordOf (flattenSections (consume reqFrame))
              (flattenSections (consume s.respFrame)))⟩ := by
  obtain ⟨s, hloop, happended, hlatest, hextended, hconsumed⟩ :=
    findMoreToComeResponses_chase respStreams respFrame
  refine ⟨s, hloop n hn, ?_⟩
  rw [answer, hresp]
  dsimp only
  rw [hreq, hextended, hconsumed, hlatest, happended]
  rfl

end Loop

end Kyanos.Mongo
