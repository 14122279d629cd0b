/-
Which Kafka packets end up in one record, over any run of `ParseStream` and `Match`.

Packets are told apart by tags here: `Session` is the parser with its two queues, in which every
packet carries the number of its parse, beside the pairs that were made so far. The tags are
seen by nobody (`tagLoop_erase`, `tagMatch_erase`), so what holds of the tagged runs holds of the
parser.

`Match` looks for the response of every request in the queue, and not at whether the request is
consumed already. A consumed request that waits behind one without a response is paired again
when its correlation id comes back. The first request in the queue with the id of a response
has to be one that is not consumed (`FirstIsFresh`); a run is sound just when every `Match` finds it
so (`run_matchedOnce_iff`).
-/
import Kyanos.KafkaBodies

set_option autoImplicit false

open Trace

namespace Kyanos.Kafka

/-! ## Sessions -/

/-- A packet with the number of its parse. -/
structure Tagged where
  tag : ℕ
  packet : Packet

def Tagged.id (t : Tagged) : ℤ := t.packet.correlationId

def Tagged.consume (t : Tagged) : Tagged := { t with packet := { t.packet with consumed := true } }

/-- A request and the response it was matched with; there is no record if the pair was
refused. -/
structure Pair where
  req : Tagged
  resp : Tagged
  record : Option (Record Message)

/-- `matchLoop`, on packets with tags. -/
def tagLoop (decoders : Decoders) (k : State) (m : SortedMap ℤ Tagged) :
    List Tagged → Except Panic (State × List Pair × List Tagged)
  | [] => .ok (k, [], [])
  | req :: reqStream =>
      match m.get? req.id with
      | none => do
          let (k, pairs, reqStream) ← tagLoop decoders k m reqStream
          .ok (k, pairs, req :: reqStream)
      | some resp => do
          let pair ← processReqRespPair decoders req.packet resp.packet
          let (k, pairs, reqStream) ← tagLoop decoders (answered k req.packet pair)
            (m.remove req.id) reqStream
          .ok (k, ⟨req, resp, pair.map (fun (reqMsg, respMsg) => recordOf reqMsg respMsg)⟩ :: pairs,
            req.consume :: reqStream)

/-- The responses by correlation id; of two with one id the later stays. -/
def tagMap (respStream : List Tagged) : SortedMap ℤ Tagged :=
  respStream.foldl (fun m resp => m.put resp.id resp) SortedMap.empty

/-- `matchStreams`, on packets with tags. -/
def tagMatch (decoders : Decoders) (k : State) (reqStream respStream : List Tagged) :
    Except Panic (State × List Pair × List Tagged × List Tagged) :=
  if reqStream.length = 0 ∨ respStream.length = 0 then .ok (k, [], reqStream, respStream)
  else do
    let (k, pairs, reqStream) ← tagLoop decoders k (tagMap respStream) reqStream
    .ok (k, pairs, reqStream.dropWhile (fun req => req.packet.consumed), [])

/-- The map of the code is that of the tagged packets without their tags. -/
def Erases (m₀ : SortedMap ℤ Packet) (m : SortedMap ℤ Tagged) : Prop :=
  ∀ key, m₀.get? key = (m.get? key).map Tagged.packet

theorem Erases.remove {m₀ : SortedMap ℤ Packet} {m : SortedMap ℤ Tagged} (h : Erases m₀ m)
    (key : ℤ) : Erases (m₀.remove key) (m.remove key) := by
  intro j
  rw [SortedMap.get?_remove, SortedMap.get?_remove]
  split_ifs
  · rfl
  · exact h j

theorem Erases.put {m₀ : SortedMap ℤ Packet} {m : SortedMap ℤ Tagged} (h : Erases m₀ m)
    (resp : Tagged) : Erases (m₀.put resp.packet.correlationId resp.packet) (m.put resp.id resp) := by
  intro j
  rw [SortedMap.get?_put, SortedMap.get?_put]
  unfold Tagged.id
  split_ifs
  · rfl
  · exact h j

/-- The tags are not seen by the loop. -/
theorem tagLoop_erase {decoders : Decoders} {k : State} {m₀ : SortedMap ℤ Packet}
    {m : SortedMap ℤ Tagged} (hm : Erases m₀ m) (records : List (Record Message))
    (reqStream : List Tagged) :
    matchLoop decoders k m₀ records (reqStream.map Tagged.packet)
      = (tagLoop decoders k m reqStream).map (fun (k, pairs, reqStream) =>
          (k, records ++ pairs.filterMap Pair.record, reqStream.map Tagged.packet)) := by
  induction reqStream generalizing k m₀ m records with
  | nil => simp [tagLoop, matchLoop, Except.map]
  | cons req reqStream ih =>
      have hget := hm req.id
      rw [List.map_cons, matchLoop, tagLoop]
      rcases hresp : m.get? req.id with _ | resp
      · have hget₀ : m₀.get? req.packet.correlationId = none := by
          rw [hresp] at hget
          exact hget
        rw [hget₀]
        dsimp only
        rw [ih hm records]
        rcases tagLoop decoders k m reqStream with p | ⟨k', pairs, reqStream'⟩ <;> rfl
      · have hget₀ : m₀.get? req.packet.correlationId = some resp.packet := by
          rw [hresp] at hget
          exact hget
        rw [hget₀]
        dsimp only
        rcases processReqRespPair decoders req.packet resp.packet with p | pair
        · rfl
        · have hrest : Erases (m₀.remove req.packet.correlationId) (m.remove req.id) :=
            hm.remove req.id
          rw [ok_bind, ok_bind, ih hrest]
          rcases tagLoop decoders (answered k req.packet pair) (m.remove req.id) reqStream with
            p | ⟨k', pairs, reqStream'⟩
          · rfl
          · rcases pair with _ | ⟨reqMsg, respMsg⟩
            · simp [Except.map, ok_bind, Tagged.consume]
            · simp [Except.map, ok_bind, Tagged.consume]

theorem tagMap_erases (respStream : List Tagged) :
    Erases ((respStream.map Tagged.packet).foldl (fun m resp => m.put resp.correlationId resp)
      SortedMap.empty) (tagMap respStream) := by
  unfold tagMap
  rw [List.foldl_map]
  have hfold : ∀ (l : List Tagged) (m₀ : SortedMap ℤ Packet) (m : SortedMap ℤ Tagged),
      Erases m₀ m → Erases (l.foldl (fun m resp => m.put resp.packet.correlationId resp.packet) m₀)
        (l.foldl (fun m resp => m.put resp.id resp) m) := by
    intro l
    induction l with
    | nil =>
        intro m₀ m h
        exact h
    | cons resp l ih =>
        intro m₀ m h
        exact ih _ _ (h.put resp)
  exact hfold respStream _ _ (fun key => rfl)

/-- **The tags are not seen by `Match`.** -/
theorem tagMatch_erase (decoders : Decoders) (k : State) (reqStream respStream : List Tagged) :
    matchStreams decoders k (reqStream.map Tagged.packet) (respStream.map Tagged.packet)
      = (tagMatch decoders k reqStream respStream).map (fun (k, pairs, reqStream, respStream) =>
          (k, pairs.filterMap Pair.record, reqStream.map Tagged.packet,
            respStream.map Tagged.packet)) := by
  unfold matchStreams tagMatch
  rw [List.length_map, List.length_map]
  split_ifs
  · rfl
  · dsimp only
    rw [tagLoop_erase (tagMap_erases respStream) []]
    rcases tagLoop decoders k (tagMap respStream) reqStream with p | ⟨k', pairs, reqStream'⟩
    · rfl
    · simp [Except.map, ok_bind, List.dropWhile_map, Function.comp_def]

/-! ## One match -/

/-- The requests that are paired have their responses in the map. -/
structure Keyed (m : SortedMap ℤ Tagged) : Prop where
  key : ∀ key resp, m.get? key = some resp → resp.id = key

theorem Keyed.remove {m : SortedMap ℤ Tagged} (h : Keyed m) (key : ℤ) : Keyed (m.remove key) := by
  refine ⟨?_⟩
  intro j resp hj
  rw [SortedMap.get?_remove] at hj
  split_ifs at hj
  exact h.key j resp hj

theorem tagMap_get? {respStream : List Tagged} {key : ℤ} {resp : Tagged}
    (h : (tagMap respStream).get? key = some resp) : resp ∈ respStream ∧ resp.id = key := by
  unfold tagMap at h
  rw [← List.foldr_reverse] at h
  rw [← List.mem_reverse]
  generalize respStream.reverse = l at h ⊢
  induction l with
  | nil => cases h
  | cons r l ih =>
      rw [List.foldr_cons, SortedMap.get?_put] at h
      split_ifs at h with hkey
      · cases h
        exact ⟨List.mem_cons_self, hkey.symm⟩
      · obtain ⟨hmem, hid⟩ := ih h
        exact ⟨List.mem_cons_of_mem _ hmem, hid⟩

theorem tagMap_isSome {respStream : List Tagged} {resp : Tagged} (h : resp ∈ respStream) :
    ∃ resp', (tagMap respStream).get? resp.id = some resp' := by
  unfold tagMap
  rw [← List.foldr_reverse]
  rw [← List.mem_reverse] at h
  generalize respStream.reverse = l at h ⊢
  induction l with
  | nil => cases h
  | cons r l ih =>
      rw [List.foldr_cons, SortedMap.get?_put]
      split_ifs with hkey
      · exact ⟨r, rfl⟩
      · rcases List.mem_cons.mp h with rfl | h
        · exact absurd rfl hkey
        · exact ih h

theorem tagMap_keyed (respStream : List Tagged) : Keyed (tagMap respStream) :=
  ⟨fun _ _ h => (tagMap_get? h).2⟩

/-- The first request in the queue with a correlation id. -/
def firstWith (id : ℤ) (reqStream : List Tagged) : Option Tagged :=
  reqStream.find? (fun req => req.id = id)

/-- What the loop has paired: the first request of each id in the map, with its response. -/
structure LoopPairs (m : SortedMap ℤ Tagged) (reqStream reqStream' : List Tagged)
    (pairs : List Pair) : Prop where
  reqs : (pairs.map Pair.req).Sublist reqStream
  resps : ∀ p ∈ pairs, m.get? p.req.id = some p.resp
  ids : (pairs.map (fun p => p.req.id)).Nodup
  first : ∀ p ∈ pairs, firstWith p.req.id reqStream = some p.req
  all : ∀ key resp req, m.get? key = some resp → firstWith key reqStream = some req →
    req ∈ pairs.map Pair.req
  refused : ∀ p ∈ pairs, p.record = none →
    p.req.packet.base.timestampNs > p.resp.packet.base.timestampNs
  queue : (reqStream.map Tagged.tag).Nodup → reqStream' = reqStream.map (fun req =>
    if req.tag ∈ pairs.map (fun p => p.req.tag) then req.consume else req)

theorem processReqRespPair_refused {decoders : Decoders} {req resp : Packet}
    (h : processReqRespPair decoders req resp = .ok none) :
    req.base.timestampNs > resp.base.timestampNs := by
  unfold processReqRespPair at h
  split_ifs at h with hlater
  · exact hlater
  · obtain ⟨reqMsg, -, h⟩ := bind_eq_ok.mp h
    rcases reqMsg with _ | reqMsg
    · cases h
    obtain ⟨respMsg, -, h⟩ := bind_eq_ok.mp h
    rcases respMsg with _ | respMsg
    · cases h
    · cases h

theorem firstWith_cons_of_ne {req : Tagged} {reqStream : List Tagged} {id : ℤ} (h : req.id ≠ id) :
    firstWith id (req :: reqStream) = firstWith id reqStream := by
  rw [firstWith, List.find?_cons_of_neg (by simpa using h)]
  rfl

theorem firstWith_cons_self (req : Tagged) (reqStream : List Tagged) :
    firstWith req.id (req :: reqStream) = some req := by
  rw [firstWith, List.find?_cons_of_pos (by simp)]

theorem firstWith_id {id : ℤ} {reqStream : List Tagged} {req : Tagged}
    (h : firstWith id reqStream = some req) : req.id = id ∧ req ∈ reqStream :=
  ⟨by simpa using List.find?_some h, List.mem_of_find?_eq_some h⟩

theorem tagLoop_pairs {decoders : Decoders} {k k' : State} {m : SortedMap ℤ Tagged}
    {reqStream reqStream' : List Tagged} {pairs : List Pair} (hm : Keyed m)
    (h : tagLoop decoders k m reqStream = .ok (k', pairs, reqStream')) :
    LoopPairs m reqStream reqStream' pairs := by
  induction reqStream generalizing k m pairs reqStream' with
  | nil =>
      cases h
      exact ⟨List.Sublist.refl _, by simp, by simp, by simp, by simp [firstWith], by simp,
        by simp⟩
  | cons req reqStream ih =>
      rw [tagLoop] at h
      rcases hresp : m.get? req.id with _ | resp
      · -- No response: the request stays as it is.
        rw [hresp] at h
        obtain ⟨⟨k₁, pairs₁, reqStream₁⟩, hloop, h⟩ := bind_eq_ok.mp h
        cases h
        have hp := ih hm hloop
        have hne : ∀ key resp, m.get? key = some resp → req.id ≠ key := by
          rintro key resp hkey rfl
          rw [hresp] at hkey
          cases hkey
        refine ⟨hp.reqs.cons req, hp.resps, hp.ids, ?_, ?_, hp.refused, ?_⟩
        · intro p hmem
          rw [firstWith_cons_of_ne (hne _ _ (hp.resps p hmem))]
          exact hp.first p hmem
        · intro key resp req' hkey hfirst
          rw [firstWith_cons_of_ne (hne _ _ hkey)] at hfirst
          exact hp.all key resp req' hkey hfirst
        · intro hnodup
          obtain ⟨hnotin, hnodup⟩ := List.nodup_cons.mp hnodup
          rw [List.map_cons, hp.queue hnodup, if_neg]
          intro hmem
          obtain ⟨p, hpmem, hptag⟩ := List.mem_map.mp hmem
          refine hnotin ?_
          rw [← hptag]
          exact List.mem_map_of_mem (hp.reqs.subset (List.mem_map_of_mem hpmem))
      · -- The request is the first with its id, and the id is taken off the map.
        rw [hresp] at h
        obtain ⟨pair, hpair, h⟩ := bind_eq_ok.mp h
        obtain ⟨⟨k₁, pairs₁, reqStream₁⟩, hloop, h⟩ := bind_eq_ok.mp h
        cases h
        have hp := ih (hm.remove req.id) hloop
        have hrest : ∀ p ∈ pairs₁, req.id ≠ p.req.id ∧ m.get? p.req.id = some p.resp := by
          intro p hmem
          have hget := hp.resps p hmem
          rw [SortedMap.get?_remove] at hget
          split_ifs at hget with heq
          exact ⟨fun heq' => heq heq'.symm, hget⟩
        refine ⟨hp.reqs.cons_cons req, ?_, ?_, ?_, ?_, ?_, ?_⟩
        · exact List.forall_mem_cons.mpr ⟨hresp, fun p hmem => (hrest p hmem).2⟩
        · rw [List.map_cons, List.nodup_cons]
          refine ⟨?_, hp.ids⟩
          intro hmem
          obtain ⟨p, hpmem, hid⟩ := List.mem_map.mp hmem
          exact (hrest p hpmem).1 hid.symm
        · refine List.forall_mem_cons.mpr ⟨firstWith_cons_self req reqStream, ?_⟩
          intro p hmem
          rw [firstWith_cons_of_ne (hrest p hmem).1]
          exact hp.first p hmem
        · intro key resp' req' hkey hfirst
          by_cases hid : req.id = key
          · subst hid
            rw [firstWith_cons_self] at hfirst
            cases hfirst
            exact List.mem_cons_self
          · rw [firstWith_cons_of_ne hid] at hfirst
            refine List.mem_cons_of_mem _ (hp.all key resp' req' ?_ hfirst)
            rw [SortedMap.get?_remove, if_neg (fun h => hid h.symm)]
            exact hkey
        · refine List.forall_mem_cons.mpr ⟨?_, hp.refused⟩
          intro hrecord
          rcases pair with _ | pair
          · exact processReqRespPair_refused hpair
          · cases hrecord
        · intro hnodup
          obtain ⟨hnotin, hnodup⟩ := List.nodup_cons.mp hnodup
          rw [List.map_cons, hp.queue hnodup, if_pos (by simp)]
          congr 1
          apply List.map_congr_left
          intro req' hmem
          have hne : req'.tag ≠ req.tag := by
            intro heq
            rw [← heq] at hnotin
            exact hnotin (List.mem_map_of_mem hmem)
          simp only [List.map_cons, List.mem_cons, hne, false_or]

/-! ## Runs -/

/-- A parser with its queues. The packets parsed so far and the pairs made so far are kept
beside them. -/
structure Session where
  parser : State
  reqStream : List Tagged
  respStream : List Tagged
  parsedReqs : List Tagged
  parsedResps : List Tagged
  pairs : List Pair
  next : ℕ

/-- `NewKafkaStreamParser`, with empty queues. -/
def Session.new : Session :=
  { parser := { correlationIdMap := SortedMap.empty, clientId := [] }
    reqStream := [], respStream := [], parsedReqs := [], parsedResps := [], pairs := [], next := 0 }

inductive Call
  | parseStream (sb : StreamBuffer) (messageType : MessageType)
  | matchStreams

/-- The packets of a parse, numbered from `n` on. -/
def tagFrom : ℕ → List Packet → List Tagged
  | _, [] => []
  | n, packet :: packets => ⟨n, packet⟩ :: tagFrom (n + 1) packets

/-- What goes to the queue after a parse. -/
def parsedPackets (r : ParseResult Packet) : List Packet :=
  if r.parseState = .success then r.parsedMessages.map ParsedMessage.payload else []

def Session.push (s : Session) (messageType : MessageType) (packets : List Packet) : Session :=
  let tagged := tagFrom s.next packets
  if messageType = .request then
    { s with
      reqStream := s.reqStream ++ tagged, parsedReqs := s.parsedReqs ++ tagged
      next := s.next + packets.length }
  else
    { s with
      respStream := s.respStream ++ tagged, parsedResps := s.parsedResps ++ tagged
      next := s.next + packets.length }

def Session.step (decoders : Decoders) (s : Session) : Call → Except Panic Session
  | .parseStream sb messageType => do
      let (r, k) ← parseStream s.parser sb messageType
      .ok ({ s with parser := k }.push messageType (parsedPackets r))
  | .matchStreams => do
      let (k, pairs, reqStream, respStream) ← tagMatch decoders s.parser s.reqStream s.respStream
      .ok { s with
        parser := k, reqStream := reqStream, respStream := respStream, pairs := s.pairs ++ pairs }

/-- Every packet is in at most one pair, the two of a pair have one correlation id, and a
request that is in none is still in the queue. -/
structure Session.MatchedOnce (s : Session) : Prop where
  reqOnce : (s.pairs.map (fun p => p.req.tag)).Nodup
  respOnce : (s.pairs.map (fun p => p.resp.tag)).Nodup
  sameId : ∀ p ∈ s.pairs, p.req.id = p.resp.id
  parsed : ∀ p ∈ s.pairs, p.req ∈ s.parsedReqs ∧ p.resp ∈ s.parsedResps
  refused : ∀ p ∈ s.pairs, p.record = none →
    p.req.packet.base.timestampNs > p.resp.packet.base.timestampNs
  queued : ∀ req ∈ s.parsedReqs,
    req.tag ∈ s.pairs.map (fun p => p.req.tag) ∨ req ∈ s.reqStream

/-- The first request in the queue with the correlation id of a response is not consumed. -/
def Session.FirstIsFresh (s : Session) : Prop :=
  ∀ resp ∈ s.respStream, ∀ req, firstWith resp.id s.reqStream = some req →
    req.packet.consumed = false

/-- The condition on a call. -/
def Session.Meets (s : Session) : Call → Prop
  | .parseStream _ _ => True
  | .matchStreams => s.FirstIsFresh

instance (s : Session) : Decidable s.FirstIsFresh :=
  decidable_of_iff (∀ resp ∈ s.respStream, (firstWith resp.id s.reqStream).all
    (fun req => !req.packet.consumed) = true) (by
      unfold Session.FirstIsFresh
      refine forall₂_congr (fun resp _ => ?_)
      rcases firstWith resp.id s.reqStream with _ | req <;> simp)

instance (s : Session) (call : Call) : Decidable (s.Meets call) :=
  match call with
  | .parseStream _ _ => isTrue trivial
  | .matchStreams => inferInstanceAs (Decidable s.FirstIsFresh)

/-- What holds in every run: the flags of the queue say which requests are in a pair. -/
structure Session.Inv (s : Session) : Prop where
  reqTags : (s.reqStream.map Tagged.tag).Nodup
  respTags : (s.respStream.map Tagged.tag).Nodup
  reqOld : ∀ req ∈ s.reqStream, req.tag < s.next
  respOld : ∀ resp ∈ s.respStream, resp.tag < s.next
  pairsOld : ∀ p ∈ s.pairs, p.req.tag < s.next ∧ p.resp.tag < s.next
  consumed : ∀ req ∈ s.reqStream, req.packet.consumed = true →
    req.tag ∈ s.pairs.map (fun p => p.req.tag)
  fresh : ∀ req ∈ s.reqStream, req.packet.consumed = false →
    req ∈ s.parsedReqs ∧ req.tag ∉ s.pairs.map (fun p => p.req.tag)
  parsedFresh : ∀ req ∈ s.parsedReqs, req.packet.consumed = false
  queued : ∀ req ∈ s.parsedReqs,
    req.tag ∈ s.pairs.map (fun p => p.req.tag) ∨ req ∈ s.reqStream
  respWaiting : ∀ p ∈ s.pairs, p.resp.tag ∉ s.respStream.map Tagged.tag
  respParsed : ∀ resp ∈ s.respStream, resp ∈ s.parsedResps
  respOnce : (s.pairs.map (fun p => p.resp.tag)).Nodup
  sameId : ∀ p ∈ s.pairs, p.req.id = p.resp.id
  pairParsed : ∀ p ∈ s.pairs, p.resp ∈ s.parsedResps
  refused : ∀ p ∈ s.pairs, p.record = none →
    p.req.packet.base.timestampNs > p.resp.packet.base.timestampNs

theorem Session.inv_new : Session.new.Inv := by
  constructor <;> simp [Session.new]

theorem mem_tagFrom {n : ℕ} {packets : List Packet} {t : Tagged} (h : t ∈ tagFrom n packets) :
    n ≤ t.tag ∧ t.tag < n + packets.length ∧ t.packet ∈ packets := by
  induction packets generalizing n with
  | nil => cases h
  | cons packet packets ih =>
      rcases List.mem_cons.mp h with rfl | h
      · exact ⟨le_rfl, by rw [List.length_cons]; dsimp only; omega, List.mem_cons_self⟩
      · obtain ⟨hlo, hhi, hmem⟩ := ih h
        exact ⟨by omega, by rw [List.length_cons]; omega, List.mem_cons_of_mem _ hmem⟩

theorem tagFrom_nodup (n : ℕ) (packets : List Packet) :
    ((tagFrom n packets).map Tagged.tag).Nodup := by
  induction packets generalizing n with
  | nil => exact List.nodup_nil
  | cons packet packets ih =>
      rw [tagFrom, List.map_cons, List.nodup_cons]
      refine ⟨?_, ih (n + 1)⟩
      intro hmem
      obtain ⟨t, ht, htag⟩ := List.mem_map.mp hmem
      have hlo := (mem_tagFrom ht).1
      dsimp only at htag
      omega

/-- A packet is parsed as one that is not consumed. -/
theorem parsedPackets_fresh {k k' : State} {sb : StreamBuffer} {messageType : MessageType}
    {r : ParseResult Packet} (h : parseStream k sb messageType = .ok (r, k')) :
    ∀ packet ∈ parsedPackets r, packet.consumed = false := by
  intro packet hmem
  rcases hhead : sb.head with _ | head
  · rw [parseStream, hhead] at h
    cases h
  · obtain ⟨r₁, k₁, hparse, hcases⟩ := parseStream_returns k messageType hhead
    rw [hparse] at h
    cases h
    rcases hcases with ⟨-, hnone⟩ | ⟨-, -, -, packet', hfresh, hone⟩
    · rw [parsedPackets, hnone] at hmem
      split_ifs at hmem <;> cases hmem
    · rw [parsedPackets, hone] at hmem
      split_ifs at hmem
      · rw [List.mem_singleton.mp hmem]
        exact hfresh
      · cases hmem

/-- What a step does to a session: it parses packets that are not consumed, or it pairs. -/
inductive Session.Stepped (s s' : Session) : Call → Prop
  | parsed {sb : StreamBuffer} {messageType : MessageType} (k : State) (packets : List Packet)
      (fresh : ∀ packet ∈ packets, packet.consumed = false)
      (eq : s' = { s with parser := k }.push messageType packets) :
      Session.Stepped s s' (.parseStream sb messageType)
  | idle (hidle : s.reqStream.length = 0 ∨ s.respStream.length = 0) (eq : s' = s) :
      Session.Stepped s s' .matchStreams
  | matched (k : State) (pairs : List Pair) (reqStream : List Tagged)
      (loop : LoopPairs (tagMap s.respStream) s.reqStream reqStream pairs)
      (eq : s' = { s with
        parser := k, reqStream := reqStream.dropWhile (fun req => req.packet.consumed)
        respStream := [], pairs := s.pairs ++ pairs }) :
      Session.Stepped s s' .matchStreams

theorem Session.stepped {decoders : Decoders} {s s' : Session} {call : Call}
    (h : s.step decoders call = .ok s') : s.Stepped s' call := by
  rcases call with ⟨sb, messageType⟩ | _
  · obtain ⟨⟨r, k⟩, hparse, h⟩ := bind_eq_ok.mp h
    cases h
    exact .parsed k (parsedPackets r) (parsedPackets_fresh hparse) rfl
  · obtain ⟨⟨k, pairs, reqStream, respStream⟩, hmatch, h⟩ := bind_eq_ok.mp h
    cases h
    unfold tagMatch at hmatch
    split_ifs at hmatch with hidle
    · cases hmatch
      refine .idle hidle ?_
      rw [List.append_nil]
    · obtain ⟨⟨k₁, pairs₁, reqStream₁⟩, hloop, hmatch⟩ := bind_eq_ok.mp hmatch
      cases hmatch
      exact .matched k pairs reqStream₁ (tagLoop_pairs (tagMap_keyed _) hloop) rfl

/-! ## What every run keeps -/

section Steps

variable {s s' : Session}

/-- New numbers are behind those of a queue. -/
theorem tags_append {queue : List Tagged} {n : ℕ} (packets : List Packet)
    (hnodup : (queue.map Tagged.tag).Nodup) (hold : ∀ t ∈ queue, t.tag < n) :
    ((queue ++ tagFrom n packets).map Tagged.tag).Nodup := by
  rw [List.map_append, List.nodup_append]
  refine ⟨hnodup, tagFrom_nodup n packets, ?_⟩
  intro x hx y hy heq
  obtain ⟨t, ht, rfl⟩ := List.mem_map.mp hx
  obtain ⟨t', ht', rfl⟩ := List.mem_map.mp hy
  have hlt := hold t ht
  have hle := (mem_tagFrom ht').1
  omega

theorem old_append {queue : List Tagged} {n : ℕ} (packets : List Packet)
    (hold : ∀ t ∈ queue, t.tag < n) :
    ∀ t ∈ queue ++ tagFrom n packets, t.tag < n + packets.length := by
  intro t ht
  rcases List.mem_append.mp ht with ht | ht
  · have hlt := hold t ht
    omega
  · exact (mem_tagFrom ht).2.1

theorem Session.Inv.push (h : s.Inv) {packets : List Packet} (k : State)
    (messageType : MessageType) (hfresh : ∀ packet ∈ packets, packet.consumed = false) :
    ({ s with parser := k }.push messageType packets).Inv := by
  have hreqNew : ∀ t ∈ tagFrom s.next packets, t.tag ∉ s.pairs.map (fun p => p.req.tag) := by
    intro t ht hmem
    obtain ⟨p, hp, htag⟩ := List.mem_map.mp hmem
    have hlt := (h.pairsOld p hp).1
    have hle := (mem_tagFrom ht).1
    omega
  have hpairs : ∀ p ∈ s.pairs,
      p.req.tag < s.next + packets.length ∧ p.resp.tag < s.next + packets.length := by
    intro p hp
    have hlt := h.pairsOld p hp
    omega
  unfold Session.push
  dsimp only
  split_ifs
  · exact {
      reqTags := tags_append packets h.reqTags h.reqOld
      respTags := h.respTags
      reqOld := old_append packets h.reqOld
      respOld := fun resp hresp => Nat.lt_add_right _ (h.respOld resp hresp)
      pairsOld := hpairs
      consumed := by
        intro req hreq hconsumed
        rcases List.mem_append.mp hreq with hreq | hreq
        · exact h.consumed req hreq hconsumed
        · rw [hfresh _ (mem_tagFrom hreq).2.2] at hconsumed
          cases hconsumed
      fresh := by
        intro req hreq hconsumed
        rcases List.mem_append.mp hreq with hreq | hreq
        · obtain ⟨hparsed, hnot⟩ := h.fresh req hreq hconsumed
          exact ⟨List.mem_append_left _ hparsed, hnot⟩
        · exact ⟨List.mem_append_right _ hreq, hreqNew req hreq⟩
      parsedFresh := List.forall_mem_append.mpr
        ⟨h.parsedFresh, fun req hreq => hfresh _ (mem_tagFrom hreq).2.2⟩
      queued := by
        intro req hreq
        rcases List.mem_append.mp hreq with hreq | hreq
        · exact (h.queued req hreq).imp_right (List.mem_append_left _)
        · exact Or.inr (List.mem_append_right _ hreq)
      respWaiting := h.respWaiting
      respParsed := h.respParsed
      respOnce := h.respOnce
      sameId := h.sameId
      pairParsed := h.pairParsed
      refused := h.refused }
  · exact {
      reqTags := h.reqTags
      respTags := tags_append packets h.respTags h.respOld
      reqOld := fun req hreq => Nat.lt_add_right _ (h.reqOld req hreq)
      respOld := old_append packets h.respOld
      pairsOld := hpairs
      consumed := h.consumed
      fresh := h.fresh
      parsedFresh := h.parsedFresh
      queued := h.queued
      respWaiting := by
        intro p hp hmem
        obtain ⟨resp, hresp, htag⟩ := List.mem_map.mp hmem
        rcases List.mem_append.mp hresp with hresp | hresp
        · refine h.respWaiting p hp ?_
          rw [← htag]
          exact List.mem_map_of_mem hresp
        · have hlt := (h.pairsOld p hp).2
          have hle := (mem_tagFrom hresp).1
          omega
      respParsed := by
        intro resp hresp
        rcases List.mem_append.mp hresp with hresp | hresp
        · exact List.mem_append_left _ (h.respParsed resp hresp)
        · exact List.mem_append_right _ hresp
      respOnce := h.respOnce
      sameId := h.sameId
      pairParsed := fun p hp => List.mem_append_left _ (h.pairParsed p hp)
      refused := h.refused }

/-- What a `Match` has paired, seen from the queues. -/
theorem LoopPairs.ofQueue {respStream reqStream reqStream' : List Tagged} {pairs : List Pair}
    (hloop : LoopPairs (tagMap respStream) reqStream reqStream' pairs) :
    ∀ p ∈ pairs, p.req ∈ reqStream ∧ p.resp ∈ respStream ∧ p.resp.id = p.req.id := by
  intro p hp
  obtain ⟨hmem, hid⟩ := tagMap_get? (hloop.resps p hp)
  exact ⟨hloop.reqs.subset (List.mem_map_of_mem hp), hmem, hid⟩

/-- The responses of one `Match` have different tags, as they have different ids. -/
theorem LoopPairs.respTags {respStream reqStream reqStream' : List Tagged} {pairs : List Pair}
    (hloop : LoopPairs (tagMap respStream) reqStream reqStream' pairs)
    (hnodup : (respStream.map Tagged.tag).Nodup) :
    (pairs.map (fun p => p.resp.tag)).Nodup := by
  have hids := hloop.ids
  rw [List.Nodup, List.pairwise_map] at hids ⊢
  refine hids.imp_of_mem ?_
  intro p q hp hq hne htag
  obtain ⟨-, hpresp, hpid⟩ := hloop.ofQueue p hp
  obtain ⟨-, hqresp, hqid⟩ := hloop.ofQueue q hq
  have hsame : p.resp = q.resp := List.inj_on_of_nodup_map hnodup hpresp hqresp htag
  exact hne (by rw [← hpid, ← hqid, hsame])

theorem mem_dropWhile_of_not {α : Type} {f : α → Bool} {a : α} {l : List α} (h : a ∈ l)
    (hf : f a = false) : a ∈ l.dropWhile f := by
  induction l with
  | nil => cases h
  | cons b l ih =>
      rw [List.dropWhile_cons]
      split_ifs with hb
      · rcases List.mem_cons.mp h with rfl | h
        · rw [hf] at hb
          cases hb
        · exact ih h
      · exact h

theorem Session.Inv.matched (h : s.Inv) {k : State} {pairs : List Pair}
    {reqStream : List Tagged} (hloop : LoopPairs (tagMap s.respStream) s.reqStream reqStream pairs) :
    Session.Inv { s with
      parser := k, reqStream := reqStream.dropWhile (fun req => req.packet.consumed)
      respStream := [], pairs := s.pairs ++ pairs } := by
  have hqueue := hloop.queue h.reqTags
  have hof := hloop.ofQueue
  -- a request of the queue behind the match comes from one before it
  have hback : ∀ req ∈ reqStream.dropWhile (fun req => req.packet.consumed),
      ∃ req₀ ∈ s.reqStream, req = if req₀.tag ∈ pairs.map (fun p => p.req.tag)
        then req₀.consume else req₀ := by
    intro req hreq
    have hreq := (List.dropWhile_sublist _).subset hreq
    rw [hqueue] at hreq
    obtain ⟨req₀, hmem, heq⟩ := List.mem_map.mp hreq
    exact ⟨req₀, hmem, heq.symm⟩
  have htags : ∀ req₀ : Tagged, (if req₀.tag ∈ pairs.map (fun p => p.req.tag)
      then req₀.consume else req₀).tag = req₀.tag := by
    intro req₀
    split_ifs <;> rfl
  exact {
    reqTags := by
      refine ((List.dropWhile_sublist _).map Tagged.tag).nodup ?_
      rw [hqueue, List.map_map]
      have hsame : (Tagged.tag ∘ fun req : Tagged =>
          if req.tag ∈ pairs.map (fun p => p.req.tag) then req.consume else req) = Tagged.tag :=
        funext htags
      rw [hsame]
      exact h.reqTags
    respTags := List.nodup_nil
    reqOld := by
      intro req hreq
      obtain ⟨req₀, hmem, rfl⟩ := hback req hreq
      rw [htags]
      exact h.reqOld req₀ hmem
    respOld := by simp
    pairsOld := by
      refine List.forall_mem_append.mpr ⟨h.pairsOld, ?_⟩
      intro p hp
      obtain ⟨hreq, hresp, -⟩ := hof p hp
      exact ⟨h.reqOld _ hreq, h.respOld _ hresp⟩
    consumed := by
      intro req hreq hconsumed
      obtain ⟨req₀, hmem, rfl⟩ := hback req hreq
      rw [htags, List.map_append]
      split_ifs at hconsumed with hpaired
      · exact List.mem_append_right _ hpaired
      · exact List.mem_append_left _ (h.consumed req₀ hmem hconsumed)
    fresh := by
      intro req hreq hconsumed
      obtain ⟨req₀, hmem, rfl⟩ := hback req hreq
      split_ifs at hconsumed with hpaired
      · cases hconsumed
      · obtain ⟨hparsed, hnot⟩ := h.fresh req₀ hmem hconsumed
        rw [if_neg hpaired, List.map_append]
        exact ⟨hparsed, fun hin => (List.mem_append.mp hin).elim hnot hpaired⟩
    parsedFresh := h.parsedFresh
    queued := by
      intro req hreq
      rw [List.map_append]
      rcases h.queued req hreq with hin | hin
      · exact Or.inl (List.mem_append_left _ hin)
      · by_cases hpaired : req.tag ∈ pairs.map (fun p => p.req.tag)
        · exact Or.inl (List.mem_append_right _ hpaired)
        · refine Or.inr (mem_dropWhile_of_not ?_ (h.parsedFresh req hreq))
          rw [hqueue]
          exact List.mem_map.mpr ⟨req, hin, if_neg hpaired⟩
    respWaiting := by simp
    respParsed := by simp
    respOnce := by
      rw [List.map_append, List.nodup_append]
      refine ⟨h.respOnce, hloop.respTags h.respTags, ?_⟩
      intro x hx y hy heq
      obtain ⟨p, hp, rfl⟩ := List.mem_map.mp hx
      obtain ⟨q, hq, rfl⟩ := List.mem_map.mp hy
      refine h.respWaiting p hp ?_
      rw [heq]
      exact List.mem_map_of_mem (hof q hq).2.1
    sameId := List.forall_mem_append.mpr ⟨h.sameId, fun p hp => (hof p hp).2.2.symm⟩
    pairParsed := List.forall_mem_append.mpr
      ⟨h.pairParsed, fun p hp => h.respParsed _ (hof p hp).2.1⟩
    refused := List.forall_mem_append.mpr ⟨h.refused, hloop.refused⟩ }

theorem Session.Inv.stepped {call : Call} (h : s.Inv) (hstep : s.Stepped s' call) : s'.Inv := by
  cases hstep with
  | parsed k packets hfresh heq =>
      rw [heq]
      exact h.push k _ hfresh
  | idle _ heq =>
      rw [heq]
      exact h
  | matched k pairs reqStream hloop heq =>
      rw [heq]
      exact h.matched hloop

/-- The pairs that were made stay. -/
theorem Session.Stepped.pairs_grow {call : Call} (hstep : s.Stepped s' call) :
    s.pairs <+: s'.pairs := by
  cases hstep with
  | parsed k packets _ heq =>
      rw [heq, Session.push]
      dsimp only
      split_ifs <;> exact List.prefix_refl _
  | idle _ heq =>
      rw [heq]
  | matched k pairs reqStream _ heq =>
      rw [heq]
      exact List.prefix_append _ _

/-- A request that is first with the id of a response, and is consumed, is paired again. -/
theorem Session.Inv.paired_again {decoders : Decoders} (h : s.Inv) (hnot : ¬ s.FirstIsFresh)
    (hstep : s.step decoders .matchStreams = .ok s') :
    ¬ (s'.pairs.map (fun p => p.req.tag)).Nodup := by
  unfold Session.FirstIsFresh at hnot
  push Not at hnot
  obtain ⟨resp, hresp, req, hfirst, hconsumed⟩ := hnot
  have hconsumed : req.packet.consumed = true := by simpa using hconsumed
  obtain ⟨hid, hmem⟩ := firstWith_id hfirst
  cases Session.stepped hstep with
  | idle hidle =>
      rcases hidle with hidle | hidle
      · rw [List.length_eq_zero_iff.mp hidle] at hmem
        cases hmem
      · rw [List.length_eq_zero_iff.mp hidle] at hresp
        cases hresp
  | matched k pairs reqStream hloop heq =>
      obtain ⟨resp', hresp'⟩ := tagMap_isSome hresp
      have hpaired := hloop.all _ _ _ hresp' hfirst
      obtain ⟨p, hp, hreq⟩ := List.mem_map.mp hpaired
      rw [heq]
      dsimp only
      rw [List.map_append, List.nodup_append]
      rintro ⟨-, -, hdisjoint⟩
      refine hdisjoint req.tag (h.consumed req hmem hconsumed) req.tag ?_ rfl
      rw [← hreq]
      exact List.mem_map_of_mem hp

/-- **One step.** Under the condition, the packets of a session stay matched at most once. -/
theorem Session.MatchedOnce.stepped {call : Call} (hinv : s.Inv) (h : s.MatchedOnce)
    (hmeets : s.Meets call) (hstep : s.Stepped s' call) : s'.MatchedOnce := by
  have hinv' := hinv.stepped hstep
  cases hstep with
  | parsed k packets _ heq =>
      have hpairs : s'.pairs = s.pairs := by
        rw [heq, Session.push]
        dsimp only
        split_ifs <;> rfl
      have hreqs : ∀ t ∈ s.parsedReqs, t ∈ s'.parsedReqs := by
        intro t ht
        rw [heq, Session.push]
        dsimp only
        split_ifs
        · exact List.mem_append_left _ ht
        · exact ht
      refine ⟨?_, hinv'.respOnce, hinv'.sameId, ?_, hinv'.refused, hinv'.queued⟩
      · rw [hpairs]
        exact h.reqOnce
      · intro p hp
        refine ⟨?_, hinv'.pairParsed p hp⟩
        rw [hpairs] at hp
        exact hreqs _ (h.parsed p hp).1
  | idle _ heq =>
      rw [heq]
      exact h
  | matched k pairs reqStream hloop heq =>
      -- what is paired now was not consumed, so it was in no pair
      have hnew : ∀ p ∈ pairs, p.req ∈ s.parsedReqs
          ∧ p.req.tag ∉ s.pairs.map (fun p => p.req.tag) := by
        intro p hp
        obtain ⟨hreq, hresp, hid⟩ := hloop.ofQueue p hp
        refine hinv.fresh p.req hreq (hmeets p.resp hresp p.req ?_)
        rw [hid]
        exact hloop.first p hp
      refine ⟨?_, hinv'.respOnce, hinv'.sameId, ?_, hinv'.refused, hinv'.queued⟩
      · rw [heq]
        dsimp only
        rw [List.map_append, List.nodup_append]
        refine ⟨h.reqOnce, ?_, ?_⟩
        · have hsub := (hloop.reqs.map Tagged.tag).nodup hinv.reqTags
          rwa [List.map_map] at hsub
        · intro x hx y hy hxy
          obtain ⟨p, hp, rfl⟩ := List.mem_map.mp hy
          rw [hxy] at hx
          exact (hnew p hp).2 hx
      · intro p hp
        refine ⟨?_, hinv'.pairParsed p hp⟩
        rw [heq] at hp ⊢
        rcases List.mem_append.mp hp with hp | hp
        · exact (h.parsed p hp).1
        · exact (hnew p hp).1

end Steps

theorem run_inv {decoders : Decoders} {pre : Session → Call → Prop} {calls : List Call}
    {s : Session} (hrun : Run (Session.step decoders) pre Session.new calls s) : s.Inv :=
  hrun.invariant Session.inv_new (fun _ _ _ h _ hstep => h.stepped (Session.stepped hstep))

/-- **Runs of the matcher.** In the state a run leads to, every packet is in at most one pair
and every other request still waits, just when each `Match` of the run found that the first
request with the id of a response is not consumed. -/
theorem run_matchedOnce_iff {decoders : Decoders} {calls : List Call} {s : Session}
    (hrun : Run (Session.step decoders) (fun _ _ => True) Session.new calls s) :
    s.MatchedOnce ↔ Run (Session.step decoders) Session.Meets Session.new calls s := by
  constructor
  · intro honce
    have hnodup := honce.reqOnce
    clear honce
    induction hrun with
    | nil => exact .nil
    | @snoc calls s s' call prev _ hstep ih =>
        have hfront := (Session.stepped hstep).pairs_grow
        have hprev := ih ((hfront.sublist.map _).nodup hnodup)
        refine hprev.snoc ?_ hstep
        rcases call with _ | _
        · trivial
        · by_contra hnot
          exact (run_inv prev).paired_again hnot hstep hnodup
  · intro hmeets
    clear hrun
    induction hmeets with
    | nil => constructor <;> simp [Session.new]
    | snoc prev hmeets hstep ih =>
        exact ih.stepped (run_inv prev) hmeets (Session.stepped hstep)

/-! ## A correlation id that comes back -/

/-- A stream buffer whose head came in at a time. -/
def headAt (time : ℕ) (buf : GoString) : StreamBuffer :=
  { buffers := [⟨buf, 0⟩], timestamps := SortedMap.empty.put 0 time, capacity := 1024 }

/-- A request for the API versions, without a client id. -/
def versionsRequest (correlationId : UInt8) : GoString :=
  [0, 0, 0, 10, 0, 18, 0, 0, 0, 0, 0, correlationId, 255, 255]

def versionsResponse (correlationId : UInt8) : GoString := [0, 0, 0, 5, 0, 0, 0, correlationId, 0]

/-- Two requests, of which the second is answered, and the answer to a third with its id. -/
def reusedCalls : List Call :=
  [.parseStream (headAt 1 (versionsRequest 1)) .request,
    .parseStream (headAt 2 (versionsRequest 2)) .request,
    .parseStream (headAt 3 (versionsResponse 2)) .response,
    .matchStreams,
    .parseStream (headAt 4 (versionsRequest 2)) .request,
    .parseStream (headAt 5 (versionsResponse 2)) .response,
    .matchStreams]

/-- The second request is matched with both answers. -/
theorem reused_id_matched_twice :
    ¬ ∀ calls s, Run (Session.step packetDecoders) (fun _ _ => True) Session.new calls s →
      s.MatchedOnce := by
  intro h
  have hpairs : (exec (Session.step packetDecoders) (fun _ _ => True) Session.new
      reusedCalls).map (fun s => s.pairs.map (fun p => (p.req.tag, p.record.isSome)))
      = some [(1, true), (1, true)] := by decide +kernel
  obtain ⟨s, hexec, htags⟩ := Option.map_eq_some_iff.mp hpairs
  have honce := (h reusedCalls s (Run.of_exec hexec)).reqOnce
  have htwice : s.pairs.map (fun p => p.req.tag) = [1, 1] := by
    have hfst := congrArg (List.map Prod.fst) htags
    rwa [List.map_map] at hfst
  rw [htwice] at honce
  exact absurd honce (by decide)

/-- The same requests, answered in order. -/
def orderedCalls : List Call :=
  [.parseStream (headAt 1 (versionsRequest 1)) .request,
    .parseStream (headAt 2 (versionsRequest 2)) .request,
    .parseStream (headAt 3 (versionsResponse 1)) .response,
    .matchStreams,
    .parseStream (headAt 4 (versionsResponse 2)) .response,
    .matchStreams,
    .parseStream (headAt 5 (versionsRequest 2)) .request,
    .parseStream (headAt 6 (versionsResponse 2)) .response,
    .matchStreams]

theorem run_matchedOnce_in_order : ∃ s,
    Run (Session.step packetDecoders) (fun _ _ => True) Session.new orderedCalls s
      ∧ s.pairs.map (fun p => p.req.tag) = [0, 1, 4] ∧ s.MatchedOnce := by
  have hpairs : (exec (Session.step packetDecoders) Session.Meets Session.new
      orderedCalls).map (fun s => s.pairs.map (fun p => p.req.tag)) = some [0, 1, 4] := by
    decide +kernel
  obtain ⟨s, hexec, htags⟩ := Option.map_eq_some_iff.mp hpairs
  have hmeets := Run.of_exec hexec
  have hrun := @Run.mono _ _ _ _ _ _ (fun _ _ => True) (fun _ _ _ => trivial) _ _ hmeets
  exact ⟨s, hrun, htags, (run_matchedOnce_iff hrun).mpr hmeets⟩

end Kyanos.Kafka
