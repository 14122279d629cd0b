/-
The two readers of a Kafka header: `FindBoundary` looks for one, and `ParseStream` cuts a packet out.

Both read a length, of a request the API, and the correlation id (`header`). `ParseStream` wants a
packet that is longer than the shortest one and is all there, `FindBoundary` a length above zero that
the head is long enough for; and both add four to the length in 32 bits. So the search finds headers
the parser refuses: those of a packet that is not longer than the shortest one, and those whose length
wraps (`Fits`).

A request whose bytes are all there is remembered before the time of its head is looked up. Without
a time it is refused, and its correlation id stays (`parseStream_keepsIds_iff`).
-/
import Kyanos.Boundary
import Kyanos.KafkaWire

set_option autoImplicit false

open GoNum Trace

namespace Kyanos.Kafka

/-! ## Headers -/

/-- The length and the correlation id at the front, and what is behind them. -/
def header (messageType : MessageType) (b : GoString) : Option (ℤ × ℤ × BinaryDecoder) :=
  match (BinaryDecoder.new b).extractBEInt 4 with
  | .error _ => none
  | .ok (payloadLength, d) =>
      match extractApi messageType d with
      | none => none
      | some d =>
          match d.extractBEInt 4 with
          | .error _ => none
          | .ok (correlationId, d) => some (payloadLength, correlationId, d)

/-- The length and the correlation id of the packet in front, if it is one `ParseStream` takes and
its bytes are all there. -/
def accepted (messageType : MessageType) (b : GoString) : Option (ℤ × ℤ) :=
  if (b.length : ℤ) < minPacketLength messageType then none
  else
    match header messageType b with
    | none => none
    | some (payloadLength, correlationId, _) =>
        if minPacketLength messageType < intOf 32 (payloadLength + kMessageLengthBytes)
            ∧ 0 ≤ correlationId ∧ payloadLength ≤ b.length - kMessageLengthBytes then
          some (payloadLength, correlationId)
        else none

/-- The parser that has taken the packet. -/
def remembered (k : State) (messageType : MessageType) (correlationId : ℤ) : State :=
  if messageType = .request then
    { k with correlationIdMap := k.correlationIdMap.put correlationId () }
  else k

/-- The packet with this header, cut out of the head. -/
def cutPacket (k : State) (sb : StreamBuffer) (head : Buffer) (messageType : MessageType)
    (payloadLength correlationId : ℤ) : Except Panic (ParseResult Packet × State) := do
  let readBytes := intOf 32 (kMessageLengthBytes + payloadLength)
  let msg ← slice head.buf kMessageLengthBytes readBytes
  match createFrameBase sb head readBytes with
  | none => .ok (⟨.invalid, [], 0⟩, remembered k messageType correlationId)
  | some fb =>
      let packet : Packet := ⟨fb, correlationId, msg, false, messageType = .request⟩
      .ok (⟨.success, [⟨packet.isReq, 0, packet⟩], readBytes⟩, remembered k messageType correlationId)

section Parse

variable {k : State} {sb : StreamBuffer} {head : Buffer} {messageType : MessageType}
  {payloadLength correlationId : ℤ}

theorem minPacketLength_bounds (messageType : MessageType) :
    8 ≤ minPacketLength messageType ∧ minPacketLength messageType ≤ 12 := by
  unfold minPacketLength kMinReqPacketLength kMinRespPacketLength
  split_ifs <;> decide

theorem header_bounds {d : BinaryDecoder} {b : GoString}
    (h : header messageType b = some (payloadLength, correlationId, d)) :
    -2 ^ 31 ≤ payloadLength ∧ payloadLength < 2 ^ 31 := by
  unfold header at h
  split at h
  · cases h
  rename_i length d₁ hlength
  have hbounds := BinaryDecoder.extractBEInt_bounds (by decide) hlength
  split at h
  · cases h
  split at h
  · cases h
  · cases h
    omega

/-- A sum that stays above the length of the shortest packet did not wrap. -/
theorem intOf_length (hlo : -2 ^ 31 ≤ payloadLength) (hhi : payloadLength < 2 ^ 31)
    (hmin : minPacketLength messageType < intOf 32 (payloadLength + kMessageLengthBytes)) :
    intOf 32 (kMessageLengthBytes + payloadLength) = kMessageLengthBytes + payloadLength
      ∧ minPacketLength messageType < kMessageLengthBytes + payloadLength := by
  have hshortest := (minPacketLength_bounds messageType).1
  rw [add_comm kMessageLengthBytes]
  unfold kMessageLengthBytes at hmin ⊢
  by_cases hfits : payloadLength + 4 < 2 ^ 31
  · have hsame : intOf 32 (payloadLength + 4) = payloadLength + 4 :=
      intOf_of_lt (by omega) (by omega)
    rw [hsame] at hmin ⊢
    exact ⟨rfl, hmin⟩
  · have hmod : (payloadLength + 4) % ((2 ^ 32 : ℕ) : ℤ) = payloadLength + 4 :=
      Int.emod_eq_of_lt (by omega) (by omega)
    rw [intOf, Int.bmod_def, hmod, if_neg (by omega)] at hmin
    omega

theorem accepted_eq_some (h : accepted messageType head.buf = some (payloadLength, correlationId)) :
    ∃ d, header messageType head.buf = some (payloadLength, correlationId, d)
      ∧ minPacketLength messageType ≤ head.buf.length
      ∧ minPacketLength messageType < intOf 32 (payloadLength + kMessageLengthBytes)
      ∧ 0 ≤ correlationId ∧ payloadLength ≤ head.buf.length - kMessageLengthBytes := by
  unfold accepted at h
  split_ifs at h with hshort
  split at h
  · cases h
  · rename_i length id d hheader
    split_ifs at h with hok
    cases h
    exact ⟨d, hheader, by omega, hok⟩

/-- `ParseStream` by the header: whatever is wrong with it makes the packet invalid. -/
theorem parseStream_header (hhead : sb.head = some head)
    (hlen : minPacketLength messageType ≤ head.buf.length) : parseStream k sb messageType
      = (match header messageType head.buf with
        | none => .ok (⟨.invalid, [], 0⟩, k)
        | some (payloadLength, correlationId, _) =>
            if intOf 32 (payloadLength + kMessageLengthBytes) ≤ minPacketLength messageType
                ∨ correlationId < 0 then .ok (⟨.invalid, [], 0⟩, k)
            else if (head.buf.length : ℤ) - kMessageLengthBytes < payloadLength then
              .ok (⟨.needsMoreData, [], 0⟩, k)
            else cutPacket k sb head messageType payloadLength correlationId) := by
  unfold parseStream header
  rw [hhead]
  dsimp only
  rw [if_neg (by omega)]
  rcases (BinaryDecoder.new head.buf).extractBEInt 4 with e | ⟨payloadLength, d⟩
  · rfl
  dsimp only
  by_cases hmin : intOf 32 (payloadLength + kMessageLengthBytes) ≤ minPacketLength messageType
  · rw [if_pos hmin]
    rcases extractApi messageType d with _ | d
    · rfl
    dsimp only
    rcases d.extractBEInt 4 with e | ⟨correlationId, d⟩
    · rfl
    · exact (if_pos (Or.inl hmin)).symm
  rw [if_neg hmin]
  rcases extractApi messageType d with _ | d
  · rfl
  dsimp only
  rcases d.extractBEInt 4 with e | ⟨correlationId, d⟩
  · rfl
  dsimp only
  by_cases hneg : correlationId < 0
  · rw [if_pos hneg, if_pos (Or.inr hneg)]
  · rw [if_neg hneg, if_neg (not_or.mpr ⟨hmin, hneg⟩)]
    rfl

/-- A packet that is not accepted changes nothing. -/
theorem parseStream_refused (hhead : sb.head = some head) (h : accepted messageType head.buf = none) :
    ∃ r, parseStream k sb messageType = .ok (r, k) ∧ r.parseState ≠ .success := by
  unfold accepted at h
  by_cases hshort : (head.buf.length : ℤ) < minPacketLength messageType
  · unfold parseStream
    rw [hhead]
    dsimp only
    rw [if_pos hshort]
    exact ⟨_, rfl, by simp⟩
  rw [if_neg hshort] at h
  rw [parseStream_header hhead (by omega)]
  rcases hheader : header messageType head.buf with _ | ⟨payloadLength, correlationId, d⟩
  · exact ⟨_, rfl, by simp⟩
  rw [hheader] at h
  dsimp only at h ⊢
  by_cases hbad : intOf 32 (payloadLength + kMessageLengthBytes) ≤ minPacketLength messageType
      ∨ correlationId < 0
  · rw [if_pos hbad]
    exact ⟨_, rfl, by simp⟩
  rw [if_neg hbad]
  by_cases hcut : (head.buf.length : ℤ) - kMessageLengthBytes < payloadLength
  · rw [if_pos hcut]
    exact ⟨_, rfl, by simp⟩
  · -- Nothing is left that it could have been refused for.
    rw [if_pos ⟨by omega, by omega, by omega⟩] at h
    cases h

/-- An accepted packet is remembered, and returned if the time of the head is known. -/
theorem parseStream_accepted (hhead : sb.head = some head)
    (h : accepted messageType head.buf = some (payloadLength, correlationId)) :
    ∃ r, parseStream k sb messageType = .ok (r, remembered k messageType correlationId)
      ∧ ((sb.findTimestampBySeq head.leftBoundary).isSome → r.parseState = .success
        ∧ r.readBytes = kMessageLengthBytes + payloadLength
        ∧ ∃ packet : Packet, packet.correlationId = correlationId
          ∧ r.parsedMessages = [⟨decide (messageType = .request), 0, packet⟩])
      ∧ (sb.findTimestampBySeq head.leftBoundary = none → r.parseState = .invalid) := by
  obtain ⟨d, hheader, hlen, hmin, hid, hall⟩ := accepted_eq_some h
  obtain ⟨hlo, hhi⟩ := header_bounds hheader
  obtain ⟨hsum, hlong⟩ := intOf_length hlo hhi hmin
  have hshortest := (minPacketLength_bounds messageType).1
  have hslice : slice head.buf kMessageLengthBytes (kMessageLengthBytes + payloadLength)
      = .ok ((head.buf.drop kMessageLengthBytes.toNat).take
          (kMessageLengthBytes + payloadLength - kMessageLengthBytes).toNat) := by
    rw [slice, if_pos ⟨by decide, by unfold kMessageLengthBytes at hlong ⊢; omega, by omega⟩]
  rw [parseStream_header hhead hlen, hheader]
  dsimp only
  rw [if_neg (by omega), if_neg (by omega)]
  unfold cutPacket createFrameBase
  dsimp only
  rw [hsum, hslice, ok_bind]
  rcases sb.findTimestampBySeq head.leftBoundary with _ | time
  · exact ⟨_, rfl, by simp, fun _ => rfl⟩
  · exact ⟨_, rfl, fun _ => ⟨rfl, rfl, _, rfl, rfl⟩, by simp⟩

/-! ## What a parse leaves of the parser -/

/-- A parse that does not succeed leaves the correlation ids, and a request adds its own. -/
structure KeepsIds (k : State) (sb : StreamBuffer) (messageType : MessageType) : Prop where
  failed : ∀ r k', parseStream k sb messageType = .ok (r, k') → r.parseState ≠ .success →
    ∀ id, k'.correlationIdMap.get? id = k.correlationIdMap.get? id
  request : ∀ r k', parseStream k sb messageType = .ok (r, k') → r.parseState = .success →
    messageType = .request → ∃ packet : Packet, r.parsedMessages = [⟨true, 0, packet⟩]
      ∧ ∀ id, (k'.correlationIdMap.get? id).isSome
        ↔ id = packet.correlationId ∨ (k.correlationIdMap.get? id).isSome

theorem remembered_get? (k : State) (messageType : MessageType) (correlationId id : ℤ) :
    (remembered k messageType correlationId).correlationIdMap.get? id
      = if messageType = .request ∧ id = correlationId then some ()
        else k.correlationIdMap.get? id := by
  unfold remembered
  by_cases hreq : messageType = .request
  · rw [if_pos hreq]
    dsimp only
    rw [SortedMap.get?_put]
    simp only [hreq, true_and]
  · rw [if_neg hreq, if_neg fun h => hreq h.1]

/-- **A failed parse changes nothing**, unless it is that of a request that is taken, with a new
correlation id, from a head whose time is not known. -/
theorem parseStream_keepsIds_iff (k : State) (sb : StreamBuffer) (messageType : MessageType) :
    KeepsIds k sb messageType ↔ ¬(messageType = .request ∧ ∃ head ∈ sb.head,
      sb.findTimestampBySeq head.leftBoundary = none ∧ ∃ payloadLength correlationId,
        accepted .request head.buf = some (payloadLength, correlationId)
          ∧ k.correlationIdMap.get? correlationId = none) := by
  constructor
  · rintro hkeeps ⟨rfl, head, hhead, htime, payloadLength, correlationId, haccepted, hnew⟩
    obtain ⟨r, hparse, -, hinvalid⟩ := parseStream_accepted (k := k) hhead haccepted
    have hsame := hkeeps.failed r _ hparse (by rw [hinvalid htime]; decide) correlationId
    rw [remembered_get?, if_pos ⟨rfl, rfl⟩, hnew] at hsame
    cases hsame
  · intro hnot
    rcases hhead : sb.head with _ | head
    · have hnone : ∀ r k', parseStream k sb messageType ≠ .ok (r, k') := by
        intro r k' hparse
        rw [parseStream, hhead] at hparse
        cases hparse
      exact ⟨fun r k' h => absurd h (hnone r k'), fun r k' h => absurd h (hnone r k')⟩
    rcases haccepted : accepted messageType head.buf with _ | ⟨payloadLength, correlationId⟩
    · obtain ⟨r, hparse, hstate⟩ := parseStream_refused (k := k) hhead haccepted
      constructor
      · rintro r' k' h - id
        rw [hparse] at h
        cases h
        rfl
      · intro r' k' h hsuccess
        rw [hparse] at h
        cases h
        exact absurd hsuccess hstate
    · obtain ⟨r, hparse, hknown, hunknown⟩ := parseStream_accepted (k := k) hhead haccepted
      constructor
      · rintro r' k' h hfailed id
        rw [hparse] at h
        cases h
        rw [remembered_get?]
        split_ifs with hid
        · -- The time is not known, so the id was there before.
          obtain ⟨rfl, rfl⟩ := hid
          by_contra hne
          refine hnot ⟨rfl, head, hhead, ?_, payloadLength, id, haccepted, ?_⟩
          · by_contra hsome
            exact hfailed (hknown (Option.isSome_iff_ne_none.mpr hsome)).1
          · rcases hget : k.correlationIdMap.get? id with _ | ⟨⟩
            · rfl
            · exact absurd hget.symm hne
        · rfl
      · rintro r' k' h hsuccess rfl
        rw [hparse] at h
        cases h
        have htime : (sb.findTimestampBySeq head.leftBoundary).isSome := by
          rw [Option.isSome_iff_ne_none]
          intro hnone
          rw [hunknown hnone] at hsuccess
          cases hsuccess
        obtain ⟨-, -, packet, rfl, hmessages⟩ := hknown htime
        refine ⟨packet, hmessages, fun id => ?_⟩
        rw [remembered_get?]
        split_ifs with hid
        · exact iff_of_true rfl (Or.inl hid.2)
        · exact (or_iff_right fun heq => hid ⟨rfl, heq⟩).symm

end Parse

/-- A heartbeat request of version 0 by the client `c`, whose correlation id is 7. -/
def heartbeat : GoString := [0, 0, 0, 11, 0, 12, 0, 0, 0, 0, 0, 7, 0, 1, 0x63]

/-- A head whose time is not known. -/
def timeless : StreamBuffer := { bufferOf heartbeat with timestamps := SortedMap.empty }

/-- The request is refused, and its correlation id stays. -/
theorem unknown_time_keeps_id : ¬ ∀ (k : State) (sb : StreamBuffer) (messageType : MessageType),
    KeepsIds k sb messageType := by
  intro h
  have hhead : timeless.head = some ⟨heartbeat, 0⟩ := rfl
  have haccepted : accepted .request heartbeat = some (11, 7) := by decide +kernel
  obtain ⟨r, hparse, -, hinvalid⟩ := parseStream_accepted (k := ⟨SortedMap.empty, []⟩) hhead haccepted
  have hid := (h _ _ _).failed r _ hparse (by rw [hinvalid rfl]; decide) 7
  rw [remembered_get?, if_pos ⟨rfl, rfl⟩] at hid
  cases hid

/-! ## What a search finds -/

/-- What is checked behind the correlation id: a response is one of a request that was parsed, and a
request has a client id. -/
def checksOrigin (k : State) (messageType : MessageType) (correlationId : ℤ) (d : BinaryDecoder) :
    Prop :=
  if messageType = .response then (k.correlationIdMap.get? correlationId).isSome = true
  else probeClientId k d = .ok .found

instance (k : State) (messageType : MessageType) (correlationId : ℤ) (d : BinaryDecoder) :
    Decidable (checksOrigin k messageType correlationId d) := by
  unfold checksOrigin
  infer_instance

/-- `FindBoundary` takes the bytes for the begin of a packet. -/
def HeaderAt (k : State) (messageType : MessageType) (curBuf : GoString) : Prop :=
  match header messageType curBuf with
  | none => False
  | some (payloadLength, correlationId, d) => 0 < payloadLength
      ∧ intOf 32 (payloadLength + kMessageLengthBytes) ≤ intOf 32 curBuf.length
      ∧ 0 ≤ correlationId ∧ checksOrigin k messageType correlationId d

instance (k : State) (messageType : MessageType) : DecidablePred (HeaderAt k messageType) := by
  intro curBuf
  unfold HeaderAt
  split <;> infer_instance

section Search

variable {k : State} {sb : StreamBuffer} {head : Buffer} {messageType : MessageType}
  {startPos pos : ℤ} {buf : List UInt8}

theorem extractBEInt_ok {d : BinaryDecoder} {n : ℕ} (h : n ≤ d.str.length) :
    ∃ x, d.extractBEInt n = .ok (x, d.taking n) := by
  refine ⟨intOf (8 * n) (bigEndian (d.str.take n)), ?_⟩
  rw [BinaryDecoder.extractBEInt, BinaryDecoder.extractBE, if_neg (by omega)]
  rfl

theorem taking_length (d : BinaryDecoder) (n : ℕ) : (d.taking n).str.length = d.str.length - n :=
  List.length_drop

/-- A client id is there and may be the one that is known, or it is not. -/
theorem probeClientId_returns (k : State) (d : BinaryDecoder) :
    probeClientId k d = .ok .found ∨ probeClientId k d = .ok .next := by
  unfold probeClientId
  rcases d.extractBEInt 2 with e | ⟨clientIdLength, d₁⟩
  · exact Or.inr rfl
  dsimp only
  by_cases hpos : clientIdLength > 0
  · rw [if_pos hpos]
    unfold BinaryDecoder.extractString
    rw [if_neg (by omega : ¬clientIdLength < 0)]
    by_cases hshort : (d₁.str.length : ℤ) < clientIdLength
    · rw [if_pos hshort]
      exact Or.inr rfl
    · rw [if_neg hshort]
      dsimp only
      split_ifs
      · exact Or.inr rfl
      · exact Or.inl rfl
  · rw [if_neg hpos]
    exact Or.inr rfl

/-- Behind the API: a correlation id is there, and is checked. -/
theorem probeCorrelation_eq {d : BinaryDecoder} (h : 4 ≤ d.str.length) :
    ∃ correlationId, d.extractBEInt 4 = .ok (correlationId, d.taking 4)
      ∧ probeCorrelation k messageType d = .ok (if 0 ≤ correlationId
        ∧ checksOrigin k messageType correlationId (d.taking 4) then .found else .next) := by
  obtain ⟨correlationId, hread⟩ := extractBEInt_ok h
  refine ⟨correlationId, hread, ?_⟩
  unfold probeCorrelation checksOrigin
  rw [hread]
  dsimp only
  by_cases hneg : correlationId < 0
  · rw [if_pos hneg, if_neg fun h => absurd h.1 (by omega)]
  rw [if_neg hneg]
  by_cases hresp : messageType = .response
  · simp only [hresp, if_true]
    by_cases hknown : (k.correlationIdMap.get? correlationId).isSome
    · rw [if_pos hknown, if_pos ⟨Int.not_lt.mp hneg, hknown⟩]
    · rw [if_neg hknown, if_neg fun h => hknown h.2]
  · simp only [hresp, if_false]
    rcases probeClientId_returns k (d.taking 4) with hfound | hnext
    · rw [hfound]
      simp [Int.not_lt.mp hneg]
    · rw [hnext]
      simp

theorem probe_answers {i : ℕ} (hi : (i : ℤ) < buf.length - minPacketLength messageType) :
    ∃ (P : Prop) (_ : Decidable P), probe k messageType buf i = .ok (if P then .found else .next)
      ∧ (P ↔ HeaderAt k messageType (buf.drop i)) := by
  have hlen : (BinaryDecoder.new (buf.drop i)).str.length = buf.length - i := List.length_drop
  have hshortest := minPacketLength_bounds messageType
  obtain ⟨payloadLength, hlength⟩ :=
    @extractBEInt_ok (BinaryDecoder.new (buf.drop i)) 4 (by rw [hlen]; omega)
  unfold probe HeaderAt header
  rw [slice_rest (by omega) (by omega), Int.toNat_natCast, ok_bind, hlength]
  dsimp only
  set d := (BinaryDecoder.new (buf.drop i)).taking 4 with hd
  have hrest : d.str.length = buf.length - i - 4 := by rw [hd, taking_length, hlen]
  by_cases hbad : payloadLength ≤ 0
      ∨ intOf 32 (payloadLength + kMessageLengthBytes) > intOf 32 (buf.drop i).length
  · -- Whatever the header is, its length is refused.
    refine ⟨False, inferInstance, if_pos hbad, iff_of_false not_false ?_⟩
    rcases extractApi messageType d with _ | d'
    · exact not_false
    · dsimp only
      rcases d'.extractBEInt 4 with e | ⟨correlationId, d''⟩
      · exact not_false
      · rintro ⟨hpos, hfits, -⟩
        omega
  rw [if_neg hbad]
  -- Behind a length that is not refused the two go the same way.
  have hsame : ∀ correlationId (d' : BinaryDecoder),
      (0 ≤ correlationId ∧ checksOrigin k messageType correlationId d')
        ↔ 0 < payloadLength
          ∧ intOf 32 (payloadLength + kMessageLengthBytes) ≤ intOf 32 (buf.drop i).length
          ∧ 0 ≤ correlationId ∧ checksOrigin k messageType correlationId d' :=
    fun correlationId d' => ⟨fun h => ⟨by omega, by omega, h⟩, fun h => h.2.2⟩
  unfold extractApi
  by_cases hreq : messageType = .request
  · have hmin : minPacketLength messageType = 12 := by
      rw [minPacketLength, if_pos hreq]
      rfl
    rw [if_pos hreq, if_pos hreq]
    obtain ⟨apiKey, hkey⟩ := @extractBEInt_ok d 2 (by omega)
    rw [hkey]
    dsimp only
    by_cases hvalid : (!isValidAPIKey apiKey) = true
    · rw [if_pos hvalid, if_pos hvalid]
      exact ⟨False, inferInstance, rfl, Iff.rfl⟩
    rw [if_neg hvalid, if_neg hvalid]
    obtain ⟨apiVersion, hversion⟩ := @extractBEInt_ok (d.taking 2) 2 (by rw [taking_length]; omega)
    rw [hversion]
    dsimp only
    by_cases hsupported : (!isSupportedAPIVersion apiKey apiVersion) = true
    · rw [if_pos hsupported, if_pos hsupported]
      exact ⟨False, inferInstance, rfl, Iff.rfl⟩
    rw [if_neg hsupported, if_neg hsupported]
    obtain ⟨correlationId, hread, hprobe⟩ := @probeCorrelation_eq k messageType
      ((d.taking 2).taking 2) (by rw [taking_length, taking_length]; omega)
    rw [hprobe]
    dsimp only
    rw [hread]
    exact ⟨_, inferInstance, rfl, hsame _ _⟩
  · rw [if_neg hreq, if_neg hreq]
    obtain ⟨correlationId, hread, hprobe⟩ := @probeCorrelation_eq k messageType d (by omega)
    rw [hprobe]
    dsimp only
    rw [hread]
    exact ⟨_, inferInstance, rfl, hsame _ _⟩

/-- **One position**: the search takes it or goes on. -/
theorem probe_eq {i : ℕ} (hi : (i : ℤ) < buf.length - minPacketLength messageType) :
    probe k messageType buf i
      = .ok (if HeaderAt k messageType (buf.drop i) then .found else .next) := by
  obtain ⟨P, _, hprobe, hiff⟩ := probe_answers (k := k) hi
  rw [hprobe, if_congr hiff rfl rfl]

/-- **The search** finds the first header from `startPos` on. -/
theorem findBoundary_firstAt (hhead : sb.head = some head) (hstart : 0 ≤ startPos)
    (hlen : minPacketLength messageType ≤ head.buf.length) :
    ∃ pos, findBoundary k sb messageType startPos = .ok pos
      ∧ FirstAt (fun i => HeaderAt k messageType (head.buf.drop i.toNat)) startPos
        (head.buf.length - minPacketLength messageType) pos := by
  unfold findBoundary
  rw [hhead]
  dsimp only
  rw [if_neg (by omega)]
  refine scan_firstAt fun j hlo hhi => ?_
  obtain ⟨i, rfl⟩ := Int.eq_ofNat_of_zero_le (hstart.trans hlo)
  rw [Int.toNat_natCast]
  exact probe_eq hhi

/-- Before the start of the head nothing is found. -/
theorem findBoundary_negative (hhead : sb.head = some head) (hstart : startPos < 0)
    (h : findBoundary k sb messageType startPos = .ok pos) : pos = -1 := by
  unfold findBoundary at h
  rw [hhead] at h
  dsimp only at h
  split_ifs at h with hshort
  · cases h
    rfl
  · -- The loop slices the head at a position below zero.
    obtain ⟨n, hn⟩ : ∃ n, ((head.buf.length : ℤ) - minPacketLength messageType - startPos).toNat
        = n + 1 := ⟨_, (Nat.succ_pred_eq_of_pos (by omega)).symm⟩
    have hslice : slice head.buf startPos head.buf.length = .error .sliceOutOfRange :=
      if_neg fun h => absurd h.1 (by omega)
    rw [scan, hn, scanLoop, probe, hslice] at h
    cases h

end Search

/-! ## Packets that are all there -/

/-- What the begin of a request says, and the body behind it. -/
structure RequestWire where
  apiKey : BitVec 16
  apiVersion : BitVec 16
  correlationId : BitVec 32
  clientId : GoString
  body : GoString

def RequestWire.payload (r : RequestWire) : GoString :=
  Wire.int16 r.apiKey ++ (Wire.int16 r.apiVersion ++ (Wire.int32 r.correlationId
    ++ (Wire.int16 (BitVec.ofNat 16 r.clientId.length) ++ (r.clientId ++ r.body))))

/-- A payload behind its length. -/
def framed (payload : GoString) : GoString :=
  Wire.int32 (BitVec.ofNat 32 payload.length) ++ payload

/-- A request with a client id, which is the known one. -/
structure RequestWire.Known (k : State) (r : RequestWire) : Prop where
  supported : isSupportedAPIVersion r.apiKey.toInt r.apiVersion.toInt
  id : 0 ≤ r.correlationId.toInt
  client : r.clientId ≠ []
  short : r.clientId.length < 2 ^ 15
  same : k.clientId = [] ∨ k.clientId = r.clientId

/-- A request, or a response to a request that was parsed; a response without a body has something
behind it. -/
inductive Complete (k : State) : MessageType → (payload tail : GoString) → Prop
  | request (r : RequestWire) (tail : GoString) (hknown : r.Known k) :
      Complete k .request r.payload tail
  | response (correlationId : BitVec 32) (body tail : GoString) (hid : 0 ≤ correlationId.toInt)
      (hknown : (k.correlationIdMap.get? correlationId.toInt).isSome) (hlong : body ++ tail ≠ []) :
      Complete k .response (Wire.int32 correlationId ++ body) tail

section Complete

variable {k : State} {messageType : MessageType} {payload tail : GoString}

theorem extractBEInt_word {n : ℕ} (x : BitVec (8 * n)) {d : BinaryDecoder}
    (h : d.str = wordBytes x ++ tail) :
    d.extractBEInt n = .ok (x.toInt, d.taking n) ∧ (d.taking n).str = tail := by
  have hlen := wordBytes_length x
  have htake : d.str.take n = wordBytes x := by
    have hleft := @List.take_left _ (wordBytes x) tail
    rwa [hlen, ← h] at hleft
  constructor
  · rw [BinaryDecoder.extractBEInt, BinaryDecoder.extractBE, if_neg, htake]
    · exact congrArg (fun v => Except.ok (v, d.taking n)) (intOf_bigEndian_wordBytes x)
    · rw [h, List.length_append, hlen]
      omega
  · change d.str.drop n = tail
    have hright := @List.drop_left _ (wordBytes x) tail
    rwa [hlen, ← h] at hright

theorem probeClientId_found {clientId rest : GoString} {d : BinaryDecoder}
    (h : d.str = Wire.int16 (BitVec.ofNat 16 clientId.length) ++ (clientId ++ rest))
    (hne : clientId ≠ []) (hshort : clientId.length < 2 ^ 15)
    (hsame : k.clientId = [] ∨ k.clientId = clientId) : probeClientId k d = .ok .found := by
  obtain ⟨hread, hrest⟩ := @extractBEInt_word _ 2 _ d h
  have hpos := List.length_pos_iff.mpr hne
  rw [toInt_ofNat (by omega)] at hread
  unfold probeClientId
  rw [hread]
  dsimp only
  unfold BinaryDecoder.extractString
  rw [if_pos (by omega), hrest, if_neg (by rw [List.length_append]; omega), if_neg (by omega),
    Int.toNat_natCast, List.take_left]
  refine if_neg ?_
  rintro ⟨hsome, hother⟩
  exact hsame.elim hsome hother

/-- Behind the length, the header of a complete packet is one the search takes. -/
theorem Complete.header (h : Complete k messageType payload tail) (hfits : payload.length < 2 ^ 31) :
    ∃ correlationId d, Kafka.header messageType (framed payload ++ tail)
        = some ((payload.length : ℤ), correlationId, d)
      ∧ 0 ≤ correlationId ∧ checksOrigin k messageType correlationId d := by
  have hframed : (BinaryDecoder.new (framed payload ++ tail)).str
      = Wire.int32 (BitVec.ofNat 32 payload.length) ++ (payload ++ tail) := List.append_assoc _ _ _
  obtain ⟨hread, hrest⟩ := @extractBEInt_word _ 4 _ _ hframed
  rw [toInt_ofNat (by omega)] at hread
  unfold Kafka.header extractApi
  rw [hread]
  dsimp only
  generalize (BinaryDecoder.new (framed payload ++ tail)).taking 4 = d at hrest ⊢
  rcases h with ⟨r, _, hknown⟩ | ⟨correlationId, body, _, hid, hknown, _⟩
  · unfold RequestWire.payload at hrest
    simp only [List.append_assoc] at hrest
    obtain ⟨hkey, hrest⟩ := @extractBEInt_word _ 2 _ d hrest
    obtain ⟨hversion, hrest⟩ := @extractBEInt_word _ 2 _ _ hrest
    obtain ⟨hcorrelation, hrest⟩ := @extractBEInt_word _ 4 _ _ hrest
    have hvalid : isValidAPIKey r.apiKey.toInt = true := (Bool.and_eq_true_iff.mp hknown.supported).1
    rw [if_pos rfl, hkey]
    dsimp only
    rw [hvalid, if_neg (by decide), hversion]
    dsimp only
    rw [hknown.supported, if_neg (by decide)]
    dsimp only
    rw [hcorrelation]
    have hclient := probeClientId_found hrest hknown.client hknown.short hknown.same
    refine ⟨_, _, rfl, hknown.id, ?_⟩
    rw [checksOrigin, if_neg (by decide)]
    exact hclient
  · rw [List.append_assoc] at hrest
    obtain ⟨hcorrelation, -⟩ := @extractBEInt_word _ 4 _ d hrest
    rw [if_neg (by decide)]
    dsimp only
    rw [hcorrelation]
    exact ⟨_, _, rfl, hid, hknown⟩

theorem Complete.headerAt_iff (h : Complete k messageType payload tail)
    (hfits : payload.length < 2 ^ 31) : HeaderAt k messageType (framed payload ++ tail)
      ↔ intOf 32 (payload.length + kMessageLengthBytes) ≤ intOf 32 (framed payload ++ tail).length := by
  obtain ⟨correlationId, d, hheader, hid, horigin⟩ := h.header hfits
  have hpos : 0 < payload.length := by
    rcases h with ⟨r, -, -⟩ | ⟨correlationId, body, -, -, -, -⟩
    · rw [RequestWire.payload, List.length_append, Wire.int16, wordBytes_length]
      omega
    · rw [List.length_append, Wire.int32, wordBytes_length]
      omega
  unfold HeaderAt
  rw [hheader]
  exact ⟨fun h => h.2.1, fun h => ⟨by omega, h, hid, horigin⟩⟩

/-- There is a position behind that of a complete packet where the search does not look. -/
theorem Complete.long (h : Complete k messageType payload tail) :
    minPacketLength messageType < (framed payload ++ tail).length := by
  have hframed : (framed payload ++ tail).length = 4 + payload.length + tail.length := by
    rw [List.length_append, framed, List.length_append, Wire.int32, wordBytes_length]
  rcases h with ⟨r, _, hknown⟩ | ⟨correlationId, body, _, _, _, hlong⟩
  · have hclient := List.length_pos_iff.mpr hknown.client
    have hpayload : r.payload.length = 10 + r.clientId.length + r.body.length := by
      simp only [RequestWire.payload, Wire.int16, Wire.int32, List.length_append, wordBytes_length]
      omega
    rw [hframed, minPacketLength, if_pos rfl]
    unfold kMinReqPacketLength
    omega
  · have hmore := List.length_pos_iff.mpr hlong
    rw [List.length_append] at hmore
    rw [hframed, List.length_append, Wire.int32, wordBytes_length, minPacketLength,
      if_neg (by decide)]
    unfold kMinRespPacketLength
    omega

end Complete

/-! ## Where the two agree -/

/-- What the search finds is parsed, and what is all there is found. -/
structure Agrees (k : State) (sb : StreamBuffer) (buf : List UInt8) (messageType : MessageType)
    (startPos : ℤ) : Prop where
  parsed : ∀ pos, findBoundary k sb messageType startPos = .ok pos → 0 ≤ pos →
    ∃ sb' r k', sb.removePrefix pos = .ok sb' ∧ parseStream k sb' messageType = .ok (r, k')
      ∧ r.parseState = .success ∧ r.readBytes ≤ buf.length - pos
  found : 0 ≤ startPos → ∀ payload tail, buf.drop startPos.toNat = framed payload ++ tail →
    payload.length < 2 ^ 31 → Complete k messageType payload tail →
      findBoundary k sb messageType startPos = .ok startPos

/-- The first header that is found is that of a packet longer than the shortest one, whose length
fits and whose bytes and time are there; and no sum of 32 bits hides a packet that is all there. -/
structure Fits (k : State) (sb : StreamBuffer) (head : Buffer) (messageType : MessageType)
    (startPos : ℤ) : Prop where
  parsed : ∀ pos, 0 ≤ startPos → 0 ≤ pos →
    FirstAt (fun i => HeaderAt k messageType (head.buf.drop i.toNat)) startPos
      (head.buf.length - minPacketLength messageType) pos →
    ∃ payloadLength correlationId d,
      header messageType (head.buf.drop pos.toNat) = some (payloadLength, correlationId, d)
        ∧ minPacketLength messageType < payloadLength + kMessageLengthBytes
        ∧ payloadLength + kMessageLengthBytes < 2 ^ 31
        ∧ payloadLength + kMessageLengthBytes ≤ head.buf.length - pos
        ∧ (sb.findTimestampBySeq (u64 (head.seq + pos.toNat))).isSome
  found : 0 ≤ startPos → ∀ payload tail, head.buf.drop startPos.toNat = framed payload ++ tail →
    payload.length < 2 ^ 31 → Complete k messageType payload tail →
      intOf 32 (payload.length + kMessageLengthBytes) ≤ intOf 32 (framed payload ++ tail).length

section Agreement

variable {k : State} {sb : StreamBuffer} {head : Buffer} {messageType : MessageType}
  {startPos pos : ℤ}

theorem accepted_isSome_iff {b : GoString} (hlen : minPacketLength messageType ≤ b.length) :
    (accepted messageType b).isSome ↔ ∃ payloadLength correlationId d,
      header messageType b = some (payloadLength, correlationId, d) ∧ 0 ≤ correlationId
        ∧ minPacketLength messageType < payloadLength + kMessageLengthBytes
        ∧ payloadLength + kMessageLengthBytes < 2 ^ 31
        ∧ payloadLength + kMessageLengthBytes ≤ b.length := by
  unfold accepted
  rw [if_neg (by omega)]
  rcases hheader : header messageType b with _ | ⟨payloadLength, correlationId, d⟩
  · simp
  obtain ⟨hlo, hhi⟩ := header_bounds hheader
  dsimp only
  constructor
  · intro h
    split_ifs at h with hok
    · obtain ⟨hmin, hid, hall⟩ := hok
      obtain ⟨hsum, hlong⟩ := intOf_length hlo hhi hmin
      have hbounds := @intOf_bounds 32 (by decide) (kMessageLengthBytes + payloadLength)
      exact ⟨_, _, _, rfl, hid, by omega, by omega, by omega⟩
    · cases h
  · rintro ⟨_, _, _, ⟨⟩, hid, hlong, hfits, hall⟩
    have hshortest := (minPacketLength_bounds messageType).1
    have hsum : intOf 32 (payloadLength + kMessageLengthBytes) = payloadLength + kMessageLengthBytes :=
      intOf_of_lt (by omega) (by omega)
    rw [hsum, if_pos ⟨hlong, hid, by omega⟩]
    rfl

/-- What is parsed from a position: a packet, if its bytes and its time are there. -/
theorem parse_behind (hhead : sb.head = some head) (hseq : head.seq < 2 ^ 64) {n : ℕ}
    (hn : n < head.buf.length) :
    ∃ sb' r k', sb.removePrefix n = .ok sb' ∧ parseStream k sb' messageType = .ok (r, k')
      ∧ (r.parseState = .success ↔ (accepted messageType (head.buf.drop n)).isSome
        ∧ (sb.findTimestampBySeq (u64 (head.seq + n))).isSome)
      ∧ (r.parseState = .success → r.readBytes ≤ head.buf.length - n) := by
  obtain ⟨sb', head', hremove, hhead', hbuf, htimes, hseq'⟩ := StreamBuffer.removePrefix_head hhead hn
  have htime : sb'.findTimestampBySeq head'.leftBoundary
      = sb.findTimestampBySeq (u64 (head.seq + n)) := by
    rw [Buffer.leftBoundary, hseq' hseq, StreamBuffer.findTimestampBySeq, htimes]
    rfl
  rw [← hbuf]
  rcases haccepted : accepted messageType head'.buf with _ | ⟨payloadLength, correlationId⟩
  · obtain ⟨r, hparse, hfailed⟩ := parseStream_refused (k := k) hhead' haccepted
    refine ⟨sb', r, k, hremove, hparse, iff_of_false hfailed ?_, fun h => absurd h hfailed⟩
    rintro ⟨hsome, -⟩
    cases hsome
  · obtain ⟨r, hparse, hknown, hunknown⟩ := parseStream_accepted (k := k) hhead' haccepted
    rw [htime] at hknown hunknown
    obtain ⟨-, -, -, -, -, hall⟩ := accepted_eq_some haccepted
    rw [hbuf, List.length_drop] at hall
    have hsuccess : r.parseState = .success
        → (sb.findTimestampBySeq (u64 (head.seq + n))).isSome := by
      intro h
      rw [Option.isSome_iff_ne_none]
      intro hnone
      rw [hunknown hnone] at h
      cases h
    refine ⟨sb', r, _, hremove, hparse, ⟨fun h => ⟨rfl, hsuccess h⟩, fun h => (hknown h.2).1⟩, ?_⟩
    intro h
    rw [(hknown (hsuccess h)).2.1]
    omega

theorem Agrees.fits (h : Agrees k sb head.buf messageType startPos) (hhead : sb.head = some head)
    (hseq : head.seq < 2 ^ 64) : Fits k sb head messageType startPos := by
  have hshortest := (minPacketLength_bounds messageType).1
  constructor
  · intro pos hstart hpos hfirst
    obtain ⟨-, hhi, -⟩ := hfirst.sound hpos
    obtain ⟨pos', hfind, hfirst'⟩ := @findBoundary_firstAt k _ _ messageType _ hhead hstart (by omega)
    obtain rfl := hfirst'.unique hfirst
    obtain ⟨n, rfl⟩ := Int.eq_ofNat_of_zero_le hpos
    obtain ⟨sb', r, k', hremove, hparse, hsuccess, -⟩ :=
      @parse_behind k _ _ messageType hhead hseq n (by omega)
    obtain ⟨sb'', r', k'', hremove', hparse', hstate, -⟩ := h.parsed _ hfind hpos
    rw [hremove] at hremove'
    cases hremove'
    rw [hparse] at hparse'
    cases hparse'
    have hlen : minPacketLength messageType ≤ (head.buf.drop n).length := by
      rw [List.length_drop]
      omega
    obtain ⟨haccepted, htime⟩ := hsuccess.mp hstate
    obtain ⟨payloadLength, correlationId, d, hheader, -, hlong, hfits, hall⟩ :=
      (accepted_isSome_iff hlen).mp haccepted
    rw [List.length_drop] at hall
    exact ⟨_, _, _, hheader, hlong, hfits, by omega, htime⟩
  · intro hstart payload tail hbuf hfits hcomplete
    have hlong := hcomplete.long
    rw [← hbuf, List.length_drop] at hlong
    obtain ⟨pos, hfind, hfirst⟩ := @findBoundary_firstAt k _ _ messageType _ hhead hstart (by omega)
    rw [h.found hstart payload tail hbuf hfits hcomplete] at hfind
    cases hfind
    obtain ⟨-, -, hheader⟩ := hfirst.sound hstart
    rw [hbuf] at hheader
    exact (hcomplete.headerAt_iff hfits).mp hheader

theorem Fits.agrees (h : Fits k sb head messageType startPos) (hhead : sb.head = some head)
    (hseq : head.seq < 2 ^ 64) : Agrees k sb head.buf messageType startPos := by
  have hshortest := (minPacketLength_bounds messageType).1
  constructor
  · intro pos hfind hpos
    have hstart : 0 ≤ startPos := by
      by_contra hneg
      have hnone := findBoundary_negative hhead (by omega) hfind
      omega
    have hlen : minPacketLength messageType ≤ head.buf.length := by
      by_contra hshort
      rw [findBoundary, hhead] at hfind
      dsimp only at hfind
      rw [if_pos (by omega)] at hfind
      cases hfind
      omega
    obtain ⟨pos', hfind', hfirst⟩ := @findBoundary_firstAt k _ _ messageType _ hhead hstart hlen
    rw [hfind] at hfind'
    cases hfind'
    obtain ⟨-, hhi, hheaderAt⟩ := hfirst.sound hpos
    obtain ⟨payloadLength, correlationId, d, hheader, hlong, hfits, hall, htime⟩ :=
      h.parsed pos hstart hpos hfirst
    obtain ⟨n, rfl⟩ := Int.eq_ofNat_of_zero_le hpos
    rw [Int.toNat_natCast] at hheaderAt hheader htime
    unfold HeaderAt at hheaderAt
    rw [hheader] at hheaderAt
    have hrest : (head.buf.drop n).length = head.buf.length - n := List.length_drop
    have haccepted := (accepted_isSome_iff (by omega)).mpr
      ⟨_, _, _, hheader, hheaderAt.2.2.1, hlong, hfits, by omega⟩
    obtain ⟨sb', r, k', hremove, hparse, hsuccess, hread⟩ :=
      @parse_behind k _ _ messageType hhead hseq n (by omega)
    have hstate := hsuccess.mpr ⟨haccepted, htime⟩
    exact ⟨sb', r, k', hremove, hparse, hstate, hread hstate⟩
  · intro hstart payload tail hbuf hfits hcomplete
    have hlong := hcomplete.long
    rw [← hbuf, List.length_drop] at hlong
    obtain ⟨pos, hfind, hfirst⟩ := @findBoundary_firstAt k _ _ messageType _ hhead hstart (by omega)
    have hheader := (hcomplete.headerAt_iff hfits).mpr (h.found hstart payload tail hbuf hfits hcomplete)
    rw [← hbuf] at hheader
    obtain ⟨hlo, hhi, -⟩ := hfirst.least le_rfl (by omega) hheader
    rw [hfind, le_antisymm hhi hlo]

/-- **The search and the parser agree** just where the lengths fit. -/
theorem findBoundary_agrees_iff (hhead : sb.head = some head) (hseq : head.seq < 2 ^ 64) :
    Agrees k sb head.buf messageType startPos ↔ Fits k sb head messageType startPos :=
  ⟨fun h => h.fits hhead hseq, fun h => h.agrees hhead hseq⟩

theorem findBoundary_agrees_iff_sample :
    (0 : ℕ) < 2 ^ 64 ∧ (Agrees ⟨SortedMap.empty, []⟩ (bufferOf heartbeat) heartbeat .request 0
      ↔ Fits ⟨SortedMap.empty, []⟩ (bufferOf heartbeat) ⟨heartbeat, 0⟩ .request 0) :=
  ⟨by decide, @findBoundary_agrees_iff ⟨SortedMap.empty, []⟩ (bufferOf heartbeat) ⟨heartbeat, 0⟩
    .request 0 rfl (by decide)⟩

/-- Of a response whose length is one, the search takes the header and the parser does not. -/
def shortResponse : GoString := [0, 0, 0, 1, 0, 0, 0, 7, 0]

theorem short_response_found : ¬ ∀ (k : State) (sb : StreamBuffer) (head : Buffer)
    (messageType : MessageType) (startPos : ℤ), sb.head = some head →
      (sb.findTimestampBySeq head.leftBoundary).isSome →
      Agrees k sb head.buf messageType startPos := by
  intro h
  have hagrees := h ⟨SortedMap.empty.put 7 (), []⟩ (bufferOf shortResponse) ⟨shortResponse, 0⟩
    .response 0 rfl rfl
  obtain ⟨sb', r, k', hremove, hparse, hstate, -⟩ := hagrees.parsed 0 (by decide +kernel) le_rfl
  obtain ⟨sb'', r', k'', hremove', hparse', hsuccess, -⟩ :=
    @parse_behind ⟨SortedMap.empty.put 7 (), []⟩ (bufferOf shortResponse) ⟨shortResponse, 0⟩ .response
      rfl (by decide) 0 (by decide)
  rw [Nat.cast_zero, hremove] at hremove'
  cases hremove'
  rw [hparse] at hparse'
  cases hparse'
  exact absurd (hsuccess.mp hstate).1 (by decide +kernel)

end Agreement

end Kyanos.Kafka
