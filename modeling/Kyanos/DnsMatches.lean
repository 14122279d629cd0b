/-
Which DNS frames end up in one record, over any run of `Match` with frames arriving between.

Frames are told apart by tags here: a `Session` is the matcher's two queues, in which every frame
carries the number of its arrival, beside the pairs that were made so far. The tags are seen by
nobody (`tagMatch_erase`), so what holds of the tagged runs holds of the matcher.

`Match` takes the responses one by one, and the queue of the requests is left by those in front
that are consumed behind every one of them. So a request that is consumed and waits behind an
unanswered one can be found again, when a second response with its transaction id comes. A run
pairs every request at most once just when, at each response, the first request of its
transaction is not consumed (`run_reportedOnce_iff`).
-/
import Kyanos.Dns
import Kyanos.Trace

set_option autoImplicit false

open Trace

namespace Kyanos.Dns

/-! ## Frames with tags -/

/-- A frame with the number of its arrival. -/
structure Tagged where
  tag : ℕ
  frame : DnsFrame

def Tagged.consume (t : Tagged) : Tagged := { t with frame := Dns.consume t.frame }

/-- A request and the response it was matched with. -/
structure Pair where
  req : Tagged
  resp : Tagged

def Pair.record (p : Pair) : Record Message := recordOf p.req.frame p.resp.frame

/-- `findRequest`, on frames with tags. -/
def tagFind (resp : Tagged) : List Tagged → Option Tagged × List Tagged
  | [] => (none, [])
  | req :: reqStream =>
      if req.frame.base.timestampNs > resp.frame.base.timestampNs then (none, req :: reqStream)
      else if req.frame.txid = resp.frame.txid then (some req.consume, req.consume :: reqStream)
      else
        let (found, reqStream) := tagFind resp reqStream
        (found, req :: reqStream)

/-- The pair a response makes. -/
def newPair (resp : Tagged) (reqStream : List Tagged) : List Pair :=
  ((tagFind resp reqStream).1.map (fun req => ⟨req, resp⟩)).toList

/-- The requests behind a response. -/
def behind (resp : Tagged) (reqStream : List Tagged) : List Tagged :=
  (tagFind resp reqStream).2.dropWhile (fun req => req.frame.consumed)

/-- `matchLoop`, on frames with tags. -/
def tagLoop (reqStream : List Tagged) : List Tagged → List Pair × List Tagged
  | [] => ([], reqStream)
  | resp :: respStream =>
      let (pairs, reqs) := tagLoop (behind resp reqStream) respStream
      (newPair resp reqStream ++ pairs, reqs)

/-- `matchStreams`, on frames with tags. -/
def tagMatch (reqStream respStream : List Tagged) : List Pair × List Tagged × List Tagged :=
  if reqStream.length = 0 ∨ respStream.length = 0 then ([], reqStream, respStream)
  else
    let (pairs, reqStream) := tagLoop reqStream respStream
    (pairs, reqStream, [])

theorem tagFind_erase (resp : Tagged) (reqStream : List Tagged) :
    findRequest resp.frame (reqStream.map Tagged.frame)
      = ((tagFind resp reqStream).1.map Tagged.frame,
          (tagFind resp reqStream).2.map Tagged.frame) := by
  induction reqStream with
  | nil => rfl
  | cons req reqStream ih =>
      rw [List.map_cons, findRequest, tagFind]
      split_ifs with hlater htxid
      · rfl
      · rfl
      · rw [ih]
        rfl

theorem tagLoop_erase (records : List (Record Message)) (reqStream respStream : List Tagged) :
    matchLoop records (reqStream.map Tagged.frame) (respStream.map Tagged.frame)
      = (records ++ (tagLoop reqStream respStream).1.map Pair.record,
          (tagLoop reqStream respStream).2.map Tagged.frame) := by
  induction respStream generalizing records reqStream with
  | nil => simp [matchLoop, tagLoop]
  | cons resp respStream ih =>
      have hbehind : ((tagFind resp reqStream).2.map Tagged.frame).dropWhile DnsFrame.consumed
          = (behind resp reqStream).map Tagged.frame := by
        rw [List.dropWhile_map]
        rfl
      have hpair : (((tagFind resp reqStream).1.map Tagged.frame).map
          (recordOf · resp.frame)).toList = (newPair resp reqStream).map Pair.record := by
        unfold newPair
        rcases (tagFind resp reqStream).1 <;> rfl
      rw [List.map_cons, matchLoop, tagFind_erase]
      dsimp only
      rw [hbehind, hpair, ih, tagLoop, List.map_append, List.append_assoc]

/-- **The tags are not seen by `Match`.** -/
theorem tagMatch_erase (reqStream respStream : List Tagged) :
    matchStreams (reqStream.map Tagged.frame) (respStream.map Tagged.frame)
      = ((tagMatch reqStream respStream).1.map Pair.record,
          (tagMatch reqStream respStream).2.1.map Tagged.frame,
          (tagMatch reqStream respStream).2.2.map Tagged.frame) := by
  unfold matchStreams tagMatch
  rw [List.length_map, List.length_map]
  split_ifs
  · rfl
  · dsimp only
    rw [tagLoop_erase]
    simp

/-! ## One response -/

/-- The first request of a response's transaction, among those up to its time. -/
def firstRequest (resp : Tagged) (reqStream : List Tagged) : Option Tagged :=
  (reqStream.takeWhile
    (fun req => req.frame.base.timestampNs ≤ resp.frame.base.timestampNs)).find?
    (fun req => req.frame.txid = resp.frame.txid)

/-- What the loop over the requests does: nothing, or it consumes the first request. -/
inductive Found (resp : Tagged) (reqStream : List Tagged) : Prop
  | none (first : firstRequest resp reqStream = Option.none)
      (eq : tagFind resp reqStream = (Option.none, reqStream)) : Found resp reqStream
  | some (req : Tagged) (front back : List Tagged)
      (first : firstRequest resp reqStream = Option.some req)
      (txid : req.frame.txid = resp.frame.txid)
      (split : reqStream = front ++ req :: back)
      (eq : tagFind resp reqStream = (Option.some req.consume, front ++ req.consume :: back)) :
      Found resp reqStream

theorem found (resp : Tagged) (reqStream : List Tagged) : Found resp reqStream := by
  induction reqStream with
  | nil => exact .none rfl rfl
  | cons req reqStream ih =>
      by_cases hlater : req.frame.base.timestampNs > resp.frame.base.timestampNs
      · refine .none ?_ ?_
        · rw [firstRequest, List.takeWhile_cons_of_neg (by simpa using hlater)]
          rfl
        · rw [tagFind, if_pos hlater]
      · have htake : firstRequest resp (req :: reqStream)
            = if req.frame.txid = resp.frame.txid then some req
              else firstRequest resp reqStream := by
          rw [firstRequest, List.takeWhile_cons_of_pos (by simpa using hlater), List.find?_cons]
          by_cases htxid : req.frame.txid = resp.frame.txid
          · simp [htxid]
          · simp [htxid, firstRequest]
        by_cases htxid : req.frame.txid = resp.frame.txid
        · rw [if_pos htxid] at htake
          refine .some req [] reqStream htake htxid rfl ?_
          rw [tagFind, if_neg hlater, if_pos htxid]
          rfl
        · rw [if_neg htxid] at htake
          have hfind : tagFind resp (req :: reqStream)
              = ((tagFind resp reqStream).1, req :: (tagFind resp reqStream).2) := by
            rw [tagFind, if_neg hlater, if_neg htxid]
          cases ih with
          | none hfirst heq =>
              refine .none (htake.trans hfirst) ?_
              rw [hfind, heq]
          | some req' front back hfirst htxid' hsplit heq =>
              refine .some req' (req :: front) back (htake.trans hfirst) htxid' ?_ ?_
              · rw [hsplit]
                rfl
              · rw [hfind, heq]
                rfl

/-! ## Runs -/

/-- The two queues, and the pairs made so far. -/
structure Session where
  reqStream : List Tagged
  respStream : List Tagged
  pairs : List Pair
  next : ℕ

def Session.new : Session := { reqStream := [], respStream := [], pairs := [], next := 0 }

inductive Input
  | request (frame : DnsFrame)
  | response (frame : DnsFrame)
  | matchStreams

-- A frame arrives as one that is not consumed.
def arrived (tag : ℕ) (frame : DnsFrame) : Tagged := ⟨tag, { frame with consumed := false }⟩

def Session.step (s : Session) : Input → Except Panic Session
  | .request frame => .ok { s with
      reqStream := s.reqStream ++ [arrived s.next frame], next := s.next + 1 }
  | .response frame => .ok { s with
      respStream := s.respStream ++ [arrived s.next frame], next := s.next + 1 }
  | .matchStreams =>
      let (pairs, reqStream, respStream) := tagMatch s.reqStream s.respStream
      .ok { s with reqStream := reqStream, respStream := respStream, pairs := s.pairs ++ pairs }

/-- Every frame is in at most one pair, and the two of a pair have one transaction id. -/
structure Session.ReportedOnce (s : Session) : Prop where
  reqOnce : (s.pairs.map (fun p => p.req.tag)).Nodup
  respOnce : (s.pairs.map (fun p => p.resp.tag)).Nodup
  sameTxid : ∀ p ∈ s.pairs, p.req.frame.txid = p.resp.frame.txid

/-- The first request of a response's transaction is not consumed. -/
def FirstIsFresh (resp : Tagged) (reqStream : List Tagged) : Prop :=
  ∀ req ∈ firstRequest resp reqStream, req.frame.consumed = false

/-- It is so at each of the responses, with the queue the ones before it leave. -/
def TurnsFresh (reqStream : List Tagged) : List Tagged → Prop
  | [] => True
  | resp :: respStream =>
      FirstIsFresh resp reqStream ∧ TurnsFresh (behind resp reqStream) respStream

/-- The condition on an input. -/
def Session.Meets (s : Session) : Input → Prop
  | .request _ => True
  | .response _ => True
  | .matchStreams => TurnsFresh s.reqStream s.respStream

instance (resp : Tagged) (reqStream : List Tagged) : Decidable (FirstIsFresh resp reqStream) :=
  inferInstanceAs (Decidable (∀ req ∈ firstRequest resp reqStream, req.frame.consumed = false))

def decideTurns (reqStream : List Tagged) : (respStream : List Tagged) →
    Decidable (TurnsFresh reqStream respStream)
  | [] => isTrue trivial
  | resp :: respStream =>
      have := decideTurns (behind resp reqStream) respStream
      inferInstanceAs (Decidable (_ ∧ _))

instance (s : Session) (input : Input) : Decidable (s.Meets input) :=
  match input with
  | .request _ => isTrue trivial
  | .response _ => isTrue trivial
  | .matchStreams => decideTurns s.reqStream s.respStream

/-- The session behind one response of a `Match`, of which `respStream` is left. -/
def Session.turn (s : Session) (resp : Tagged) (respStream : List Tagged) : Session :=
  { s with
    reqStream := behind resp s.reqStream, respStream := respStream
    pairs := s.pairs ++ newPair resp s.reqStream }

/-- The turns of a `Match`, one after the other. -/
def Session.turns (s : Session) : List Tagged → Session
  | [] => { s with respStream := [] }
  | resp :: respStream => (s.turn resp respStream).turns respStream

theorem Session.turns_eq (s : Session) (respStream : List Tagged) :
    s.turns respStream = { s with
      reqStream := (tagLoop s.reqStream respStream).2, respStream := []
      pairs := s.pairs ++ (tagLoop s.reqStream respStream).1 } := by
  induction respStream generalizing s with
  | nil => simp [Session.turns, tagLoop]
  | cons resp respStream ih =>
      rw [Session.turns, ih]
      simp [Session.turn, tagLoop]

/-! ## What every run keeps -/

/-- The flags of the queue say which requests are in a pair. -/
structure Session.Inv (s : Session) : Prop where
  reqTags : (s.reqStream.map Tagged.tag).Nodup
  respTags : (s.respStream.map Tagged.tag).Nodup
  reqOld : ∀ req ∈ s.reqStream, req.tag < s.next
  respOld : ∀ resp ∈ s.respStream, resp.tag < s.next
  pairsOld : ∀ p ∈ s.pairs, p.req.tag < s.next ∧ p.resp.tag < s.next
  flags : ∀ req ∈ s.reqStream,
    req.frame.consumed = true ↔ req.tag ∈ s.pairs.map (fun p => p.req.tag)
  respWaiting : ∀ p ∈ s.pairs, p.resp.tag ∉ s.respStream.map Tagged.tag
  respOnce : (s.pairs.map (fun p => p.resp.tag)).Nodup
  sameTxid : ∀ p ∈ s.pairs, p.req.frame.txid = p.resp.frame.txid

section Steps

variable {s s' : Session}

theorem Session.inv_new : Session.new.Inv := by
  constructor <;> simp [Session.new]

/-- A new number is behind those of a queue. -/
theorem tags_snoc {queue : List Tagged} {n : ℕ} (frame : DnsFrame)
    (hnodup : (queue.map Tagged.tag).Nodup) (hold : ∀ t ∈ queue, t.tag < n) :
    ((queue ++ [arrived n frame]).map Tagged.tag).Nodup := by
  rw [List.map_append, List.nodup_append]
  refine ⟨hnodup, by simp, ?_⟩
  intro x hx y hy heq
  obtain ⟨t, ht, rfl⟩ := List.mem_map.mp hx
  rw [List.map_singleton, List.mem_singleton] at hy
  have hlt := hold t ht
  rw [hy] at heq
  exact absurd heq (Nat.ne_of_lt hlt)

theorem old_snoc {queue : List Tagged} {n : ℕ} (frame : DnsFrame)
    (hold : ∀ t ∈ queue, t.tag < n) : ∀ t ∈ queue ++ [arrived n frame], t.tag < n + 1 := by
  intro t ht
  rcases List.mem_append.mp ht with ht | ht
  · exact Nat.lt_succ_of_lt (hold t ht)
  · rw [List.mem_singleton.mp ht]
    exact Nat.lt_succ_self n

theorem Session.Inv.request (h : s.Inv) (frame : DnsFrame) :
    Session.Inv { s with
      reqStream := s.reqStream ++ [arrived s.next frame], next := s.next + 1 } where
  reqTags := tags_snoc frame h.reqTags h.reqOld
  respTags := h.respTags
  reqOld := old_snoc frame h.reqOld
  respOld := fun resp hresp => Nat.lt_succ_of_lt (h.respOld resp hresp)
  pairsOld := fun p hp => ⟨Nat.lt_succ_of_lt (h.pairsOld p hp).1,
    Nat.lt_succ_of_lt (h.pairsOld p hp).2⟩
  flags := by
    intro req hreq
    rcases List.mem_append.mp hreq with hreq | hreq
    · exact h.flags req hreq
    · -- the number of the new request is in no pair yet
      rw [List.mem_singleton.mp hreq]
      refine iff_of_false (by simp [arrived]) ?_
      intro hin
      obtain ⟨p, hp, htag⟩ := List.mem_map.mp hin
      exact absurd htag (Nat.ne_of_lt (h.pairsOld p hp).1)
  respWaiting := h.respWaiting
  respOnce := h.respOnce
  sameTxid := h.sameTxid

theorem Session.Inv.response (h : s.Inv) (frame : DnsFrame) :
    Session.Inv { s with
      respStream := s.respStream ++ [arrived s.next frame], next := s.next + 1 } where
  reqTags := h.reqTags
  respTags := tags_snoc frame h.respTags h.respOld
  reqOld := fun req hreq => Nat.lt_succ_of_lt (h.reqOld req hreq)
  respOld := old_snoc frame h.respOld
  pairsOld := fun p hp => ⟨Nat.lt_succ_of_lt (h.pairsOld p hp).1,
    Nat.lt_succ_of_lt (h.pairsOld p hp).2⟩
  flags := h.flags
  respWaiting := by
    intro p hp hin
    rw [List.map_append] at hin
    rcases List.mem_append.mp hin with hin | hin
    · exact h.respWaiting p hp hin
    · rw [List.map_singleton, List.mem_singleton] at hin
      exact absurd hin (Nat.ne_of_lt (h.pairsOld p hp).2)
  respOnce := h.respOnce
  sameTxid := h.sameTxid

/-- What a response does to the session: nothing but that requests leave, or a pair. -/
theorem Session.Inv.turn {resp : Tagged} {respStream : List Tagged} (h : s.Inv)
    (hresp : s.respStream = resp :: respStream) : (s.turn resp respStream).Inv := by
  have htags := h.respTags
  rw [hresp, List.map_cons, List.nodup_cons] at htags
  obtain ⟨hnotin, htags⟩ := htags
  have hrespOld : ∀ r ∈ resp :: respStream, r.tag < s.next := by
    rw [← hresp]
    exact h.respOld
  have hwaiting : ∀ p ∈ s.pairs, p.resp.tag ∉ (resp :: respStream).map Tagged.tag := by
    rw [← hresp]
    exact h.respWaiting
  cases found resp s.reqStream with
  | none hfirst heq =>
      have hbehind : (behind resp s.reqStream).Sublist s.reqStream := by
        rw [behind, heq]
        exact List.dropWhile_sublist _
      have hpairs : s.pairs ++ newPair resp s.reqStream = s.pairs := by
        rw [newPair, heq]
        exact List.append_nil _
      rw [Session.turn, hpairs]
      exact {
        reqTags := (hbehind.map _).nodup h.reqTags
        respTags := htags
        reqOld := fun req hreq => h.reqOld req (hbehind.subset hreq)
        respOld := (List.forall_mem_cons.mp hrespOld).2
        pairsOld := h.pairsOld
        flags := fun req hreq => h.flags req (hbehind.subset hreq)
        respWaiting := fun p hp hin => hwaiting p hp (List.mem_cons_of_mem _ hin)
        respOnce := h.respOnce
        sameTxid := h.sameTxid }
  | some req front back hfirst htxid hsplit heq =>
      have hbehind : (behind resp s.reqStream).Sublist (front ++ req.consume :: back) := by
        rw [behind, heq]
        exact List.dropWhile_sublist _
      have hpair : newPair resp s.reqStream = [⟨req.consume, resp⟩] := by
        rw [newPair, heq]
        rfl
      have hreqTags := h.reqTags
      have hreqOld := h.reqOld
      rw [hsplit] at hreqTags hreqOld
      have hsame : (front ++ req.consume :: back).map Tagged.tag
          = (front ++ req :: back).map Tagged.tag := by
        simp [Tagged.consume]
      rw [Session.turn, hpair]
      exact {
        reqTags := by
          refine (hbehind.map _).nodup ?_
          rw [hsame]
          exact hreqTags
        respTags := htags
        reqOld := by
          intro req' hreq'
          have hin : req'.tag ∈ (front ++ req :: back).map Tagged.tag := by
            rw [← hsame]
            exact List.mem_map_of_mem (hbehind.subset hreq')
          obtain ⟨req₀, hmem, htag⟩ := List.mem_map.mp hin
          rw [← htag]
          exact hreqOld req₀ hmem
        respOld := (List.forall_mem_cons.mp hrespOld).2
        pairsOld := by
          refine List.forall_mem_append.mpr ⟨h.pairsOld, ?_⟩
          rw [List.forall_mem_singleton]
          exact ⟨hreqOld req (by simp), hrespOld resp List.mem_cons_self⟩
        flags := by
          intro req' hreq'
          rw [List.map_append, List.mem_append, List.map_singleton, List.mem_singleton]
          -- the request that was found has its flag, and no other has its number
          have hflags := h.flags
          rw [hsplit] at hflags
          rw [List.map_append, List.map_cons, List.nodup_middle, List.nodup_cons] at hreqTags
          rcases List.mem_append.mp (hbehind.subset hreq') with hin | hin
          · have hne : req'.tag ≠ req.tag := by
              intro htag
              rw [← htag] at hreqTags
              exact hreqTags.1 (List.mem_append_left _ (List.mem_map_of_mem hin))
            rw [hflags req' (List.mem_append_left _ hin)]
            exact ⟨Or.inl, fun h => h.resolve_right hne⟩
          · rcases List.mem_cons.mp hin with rfl | hin
            · exact iff_of_true rfl (Or.inr rfl)
            · have hne : req'.tag ≠ req.tag := by
                intro htag
                rw [← htag] at hreqTags
                exact hreqTags.1 (List.mem_append_right _ (List.mem_map_of_mem hin))
              rw [hflags req' (List.mem_append_right _ (List.mem_cons_of_mem _ hin))]
              exact ⟨Or.inl, fun h => h.resolve_right hne⟩
        respWaiting := by
          refine List.forall_mem_append.mpr
            ⟨fun p hp hin => hwaiting p hp (List.mem_cons_of_mem _ hin), ?_⟩
          rw [List.forall_mem_singleton]
          exact hnotin
        respOnce := by
          rw [List.map_append, List.nodup_append]
          refine ⟨h.respOnce, by simp, ?_⟩
          intro x hx y hy hxy
          obtain ⟨p, hp, rfl⟩ := List.mem_map.mp hx
          rw [List.map_singleton, List.mem_singleton] at hy
          refine hwaiting p hp ?_
          rw [hxy, hy]
          exact List.mem_cons_self
        sameTxid := by
          refine List.forall_mem_append.mpr ⟨h.sameTxid, ?_⟩
          rw [List.forall_mem_singleton]
          exact htxid }

/-- **One response.** The requests stay paired at most once just when the one that is found,
if any, is not consumed. -/
theorem Session.Inv.turn_reqOnce_iff (h : s.Inv) (resp : Tagged) (respStream : List Tagged) :
    ((s.turn resp respStream).pairs.map (fun p => p.req.tag)).Nodup
      ↔ (s.pairs.map (fun p => p.req.tag)).Nodup ∧ FirstIsFresh resp s.reqStream := by
  rw [Session.turn]
  dsimp only
  cases found resp s.reqStream with
  | none hfirst heq =>
      have hfresh : FirstIsFresh resp s.reqStream := by
        intro req hreq
        rw [hfirst] at hreq
        cases hreq
      rw [newPair, heq]
      simp [hfresh]
  | some req front back hfirst htxid hsplit heq =>
      have hflag : req.frame.consumed = true ↔ req.tag ∈ s.pairs.map (fun p => p.req.tag) := by
        refine h.flags req ?_
        rw [hsplit]
        simp
      have hfresh : FirstIsFresh resp s.reqStream
          ↔ req.tag ∉ s.pairs.map (fun p => p.req.tag) := by
        rw [← hflag, Bool.not_eq_true, FirstIsFresh, hfirst]
        simp
      have hpair : newPair resp s.reqStream = [⟨req.consume, resp⟩] := by
        rw [newPair, heq]
        rfl
      rw [hpair, hfresh, List.map_append, List.map_singleton, ← List.concat_eq_append,
        List.nodup_concat]
      exact And.comm

/-- **One match**, response by response. -/
theorem Session.Inv.turns {respStream : List Tagged} (h : s.Inv)
    (hresp : s.respStream = respStream) : (s.turns respStream).Inv
      ∧ (((s.turns respStream).pairs.map (fun p => p.req.tag)).Nodup
        ↔ (s.pairs.map (fun p => p.req.tag)).Nodup ∧ TurnsFresh s.reqStream respStream) := by
  induction respStream generalizing s with
  | nil =>
      refine ⟨?_, by simp [Session.turns, TurnsFresh]⟩
      rw [Session.turns, ← hresp]
      exact h
  | cons resp respStream ih =>
      obtain ⟨hinv, hiff⟩ := ih (h.turn hresp) rfl
      rw [Session.turns]
      refine ⟨hinv, ?_⟩
      rw [hiff, h.turn_reqOnce_iff, and_assoc]
      rfl

theorem turnsFresh_nil (respStream : List Tagged) : TurnsFresh [] respStream := by
  induction respStream with
  | nil => trivial
  | cons resp respStream ih => exact ⟨by rintro req ⟨⟩, ih⟩

/-- **One step.** The requests stay paired at most once just when the condition is met. -/
theorem Session.Inv.stepped {input : Input} (h : s.Inv) (hstep : s.step input = .ok s') :
    s'.Inv ∧ ((s'.pairs.map (fun p => p.req.tag)).Nodup
      ↔ (s.pairs.map (fun p => p.req.tag)).Nodup ∧ s.Meets input) := by
  cases input with
  | request frame =>
      cases hstep
      exact ⟨h.request frame, by simp [Session.Meets]⟩
  | response frame =>
      cases hstep
      exact ⟨h.response frame, by simp [Session.Meets]⟩
  | matchStreams =>
      rw [Session.step, tagMatch] at hstep
      split_ifs at hstep with hidle
      · -- a queue is empty, and there is nothing to pair
        cases hstep
        have hfresh : TurnsFresh s.reqStream s.respStream := by
          rcases hidle with hidle | hidle
          · rw [List.length_eq_zero_iff.mp hidle]
            exact turnsFresh_nil _
          · rw [List.length_eq_zero_iff.mp hidle]
            trivial
        rw [List.append_nil]
        exact ⟨h, by simp [Session.Meets, hfresh]⟩
      · have heq : s.turns s.respStream = s' := by
          rw [Session.turns_eq]
          exact Except.ok.inj hstep
        rw [← heq]
        exact h.turns rfl

end Steps

theorem run_inv {pre : Session → Input → Prop} {inputs : List Input} {s : Session}
    (hrun : Run Session.step pre Session.new inputs s) : s.Inv :=
  hrun.invariant Session.inv_new (fun _ _ _ h _ hstep => (h.stepped hstep).1)

/-- **Runs of the matcher.** In the state a run leads to, every frame is in at most one record
and those of a record have one transaction id, just when each `Match` of the run found, at each
of its responses, that the first request of the transaction is not consumed. -/
theorem run_reportedOnce_iff {inputs : List Input} {s : Session}
    (hrun : Run Session.step (fun _ _ => True) Session.new inputs s) :
    s.ReportedOnce ↔ Run Session.step Session.Meets Session.new inputs s := by
  constructor
  · intro honce
    have hnodup := honce.reqOnce
    clear honce
    induction hrun with
    | nil => exact .nil
    | snoc prev _ hstep ih =>
        obtain ⟨hprev, hmeets⟩ := ((run_inv prev).stepped hstep).2.mp hnodup
        exact (ih hprev).snoc hmeets hstep
  · intro hmeets
    have hinv := run_inv hmeets
    refine ⟨?_, hinv.respOnce, hinv.sameTxid⟩
    clear hrun hinv
    induction hmeets with
    | nil => exact List.nodup_nil
    | snoc prev hmeets hstep ih => exact ((run_inv prev).stepped hstep).2.mpr ⟨ih, hmeets⟩

/-! ## A duplicated response -/

/-- The times of the frames, in the order in which they arrive. -/
def arrivals : List Input → List ℕ
  | [] => []
  | .request frame :: inputs => frame.base.timestampNs :: arrivals inputs
  | .response frame :: inputs => frame.base.timestampNs :: arrivals inputs
  | .matchStreams :: inputs => arrivals inputs

/-- A frame without records. -/
def frameAt (time txid : ℕ) (isRequest : Bool) : DnsFrame :=
  { base := { timestampNs := time, byteSize := 12, seq := 0 }, txid, records := []
    consumed := false, isRequest }

/-- Two requests, of which the second is answered twice. -/
def duplicated : List Input :=
  [.request (frameAt 1 1 true), .request (frameAt 2 2 true), .response (frameAt 3 2 false),
    .matchStreams, .response (frameAt 4 2 false), .matchStreams]

/-- The second request waits behind the first, and is in two records. -/
theorem duplicate_response_matched_twice :
    ¬ ∀ inputs s, Run Session.step (fun _ _ => True) Session.new inputs s →
      (arrivals inputs).Pairwise (· ≤ ·) → s.ReportedOnce := by
  intro h
  have hpairs : (exec Session.step (fun _ _ => True) Session.new duplicated).map
      (fun s => s.pairs.map (fun p => p.req.tag)) = some [1, 1] := by decide +kernel
  obtain ⟨s, hexec, htags⟩ := Option.map_eq_some_iff.mp hpairs
  have honce := (h duplicated s (Run.of_exec hexec) (by decide)).reqOnce
  rw [htags] at honce
  exact absurd honce (by decide)

/-- The requests are answered in order, and both answers come twice. -/
def ordered : List Input :=
  [.request (frameAt 1 1 true), .request (frameAt 2 2 true), .response (frameAt 3 1 false),
    .matchStreams, .response (frameAt 4 2 false), .response (frameAt 5 2 false), .matchStreams,
    .request (frameAt 6 2 true), .response (frameAt 7 2 false), .matchStreams]

theorem run_reportedOnce_in_order : ∃ s,
    Run Session.step (fun _ _ => True) Session.new ordered s
      ∧ s.pairs.map (fun p => p.req.tag) = [0, 1, 5] ∧ s.ReportedOnce := by
  have hpairs : (exec Session.step Session.Meets Session.new ordered).map
      (fun s => s.pairs.map (fun p => p.req.tag)) = some [0, 1, 5] := by decide +kernel
  obtain ⟨s, hexec, htags⟩ := Option.map_eq_some_iff.mp hpairs
  have hmeets := Run.of_exec hexec
  have hrun := @Run.mono _ _ _ _ _ _ (fun _ _ => True) (fun _ _ _ => trivial) _ _ hmeets
  exact ⟨s, hrun, htags, (run_reportedOnce_iff hrun).mpr hmeets⟩

end Kyanos.Dns
