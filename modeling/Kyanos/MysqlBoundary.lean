/-
Where `FindBoundary` of the MySQL parser finds a request.

A request is a packet whose number is zero, with a command that is known and a length in the range of
that command. The search reads the length and the command at the position it looks at, but the number
of the packet at the front of the buffer. So it finds the first request only if the packet in front
has the number zero and no other packet stands before the request that has the command and the length
of one; and where the number in front is another it finds nothing.

`ParseStream` does not look at the number, so it takes whatever the search finds.
-/
import Kyanos.Boundary
import Kyanos.Mysql

set_option autoImplicit false

open Trace

namespace Kyanos.Mysql

/-! ## What a position may be -/

/-- The payload length in the three bytes at a position. -/
def payloadLengthAt (buf : GoString) (idx : ℤ) : ℤ :=
  (lEndianBytesToKInt 32 (buf.drop idx.toNat) kPayloadLengthLength).1

/-- At the position there is a known command, with a length in its range. -/
def CommandAt (buf : GoString) (idx : ℤ) : Prop :=
  ∃ commandByte ∈ buf[idx.toNat + kPacketHeaderLength]?,
    rejectsCommand commandByte (payloadLengthAt buf idx) = false

instance (buf : GoString) (idx : ℤ) : Decidable (CommandAt buf idx) :=
  inferInstanceAs (Decidable (∃ _ ∈ _, _))

/-- At the position there is a request: its number is zero. -/
def RequestAt (buf : GoString) (idx : ℤ) : Prop :=
  buf[idx.toNat + kPayloadLengthLength]? = some 0 ∧ CommandAt buf idx

instance (buf : GoString) (idx : ℤ) : Decidable (RequestAt buf idx) :=
  inferInstanceAs (Decidable (_ ∧ _))

/-- If the packet in front has the number zero, the first known command from `startPos` on is that of a
request; if it has another, there is no request. -/
def InSequence (buf : GoString) (startPos : ℤ) : Prop :=
  if buf[kPayloadLengthLength]? = some 0 then
    ∀ idx, startPos ≤ idx → idx < buf.length - kPacketHeaderLength → CommandAt buf idx →
      (∀ j, startPos ≤ j → j < idx → ¬ CommandAt buf j) → RequestAt buf idx
  else
    ∀ idx, startPos ≤ idx → idx < buf.length - kPacketHeaderLength → ¬ RequestAt buf idx

section Search

variable {buf : GoString} {startPos idx pos : ℤ}

theorem probe_eq {front : UInt8} (hfront : buf[kPayloadLengthLength]? = some front) (hlo : 0 ≤ idx)
    (hhi : idx < buf.length - kPacketHeaderLength) :
    probe buf idx = .ok (if front = 0 ∧ CommandAt buf idx then .found else .next) := by
  unfold kPacketHeaderLength at hhi
  have hcommand : (buf.drop idx.toNat)[kPacketHeaderLength]? = buf[idx.toNat + kPacketHeaderLength]? := by
    rw [List.getElem?_drop]
  have hbyte : byteAt buf kPayloadLengthLength = .ok front := by
    rw [byteAt, if_pos (by decide), Int.toNat_natCast, hfront]
  obtain ⟨commandByte, hat⟩ : ∃ commandByte, buf[idx.toNat + kPacketHeaderLength]? = some commandByte :=
    ⟨_, List.getElem?_eq_getElem (by unfold kPacketHeaderLength; omega)⟩
  unfold probe
  rw [slice_rest hlo (by omega), ok_bind, hbyte]
  dsimp only
  rw [ok_bind, byteAt, if_pos (by decide), Int.toNat_natCast, hcommand, hat, ok_bind]
  have hiff : CommandAt buf idx ↔ rejectsCommand commandByte (payloadLengthAt buf idx) = false := by
    unfold CommandAt
    rw [hat]
    constructor
    · rintro ⟨_, ⟨⟩, h⟩
      exact h
    · intro h
      exact ⟨commandByte, rfl, h⟩
  unfold payloadLengthAt at hiff
  rcases hrejects : rejectsCommand commandByte
    (lEndianBytesToKInt 32 (buf.drop idx.toNat) kPayloadLengthLength).1 with _ | _
  · by_cases hzero : front = 0
    · rw [if_neg (by simp [hzero]), if_pos ⟨hzero, hiff.mpr hrejects⟩]
    · rw [if_pos (by simp [hzero]), if_neg (fun h => hzero h.1)]
  · have hnone : ¬ CommandAt buf idx := by
      rw [hiff, hrejects]
      decide
    rw [if_pos (by simp), if_neg (fun h => hnone h.2)]

/-- The search finds the first known command, if the packet in front has the number zero. -/
theorem findBoundary_firstAt {sb : StreamBuffer} {head : Buffer} (hhead : sb.head = some head)
    (hstart : 0 ≤ startPos) : ∃ pos, findBoundary sb .request startPos = .ok pos
      ∧ FirstAt (fun idx => head.buf[kPayloadLengthLength]? = some 0 ∧ CommandAt head.buf idx) startPos
        (head.buf.length - kPacketHeaderLength) pos := by
  unfold findBoundary
  rw [hhead]
  dsimp only
  by_cases hshort : head.buf.length < kPacketHeaderLength
  · rw [if_pos hshort]
    exact ⟨-1, rfl, Or.inl ⟨rfl, fun i hlo hhi => by omega⟩⟩
  rw [if_neg hshort, if_neg (by decide)]
  obtain ⟨front, hfront⟩ : ∃ front, head.buf[kPayloadLengthLength]? = some front :=
    ⟨_, List.getElem?_eq_getElem (by unfold kPacketHeaderLength at hshort; unfold kPayloadLengthLength; omega)⟩
  refine scan_firstAt fun idx hlo hhi => ?_
  rw [probe_eq hfront (hstart.trans hlo) hhi]
  simp only [hfront, Option.some.injEq]

/-- What is found is the first request just when the packets are in sequence. -/
theorem firstAt_request_iff (hstart : 0 ≤ startPos)
    (h : FirstAt (fun idx => buf[kPayloadLengthLength]? = some 0 ∧ CommandAt buf idx) startPos
      (buf.length - kPacketHeaderLength) pos) :
    FirstAt (RequestAt buf) startPos (buf.length - kPacketHeaderLength) pos
      ↔ InSequence buf startPos := by
  unfold InSequence
  by_cases hfront : buf[kPayloadLengthLength]? = some 0
  · rw [if_pos hfront, h.narrow_iff hstart fun idx hreq => ⟨hfront, hreq.2⟩]
    constructor
    · intro hpos idx hlo hhi hcommand hfirst
      obtain ⟨hstartpos, hle, hat⟩ := h.least hlo hhi ⟨hfront, hcommand⟩
      obtain rfl : pos = idx := by
        by_contra hne
        exact hfirst pos hstartpos (by omega) hat.2
      rcases hpos with hnone | hreq
      · omega
      · exact hreq
    · intro hall
      rcases h with ⟨rfl, -⟩ | ⟨hlo, hhi, ⟨-, hcommand⟩, hfirst⟩
      · exact Or.inl rfl
      · exact Or.inr (hall pos hlo hhi hcommand fun j hj hj' hat => hfirst j hj hj' ⟨hfront, hat⟩)
  · rw [if_neg hfront]
    obtain ⟨rfl, -⟩ | ⟨-, -, ⟨hzero, -⟩, -⟩ := h
    · constructor
      · rintro (⟨-, hnone⟩ | ⟨hlo, -⟩)
        · exact hnone
        · omega
      · intro hnone
        exact Or.inl ⟨rfl, hnone⟩
    · exact absurd hzero hfront

/-- From a known command on, a request is taken, or more bytes are waited for. -/
theorem parseStream_of_command {sb : StreamBuffer} {head : Buffer} (hhead : sb.head = some head)
    (hlen : kPacketHeaderLength < head.buf.length) (hcommand : CommandAt head.buf 0) :
    ∃ r, parseStream sb .request = .ok r ∧ r.parseState ≠ .invalid := by
  obtain ⟨commandByte, hat, hrejects⟩ := hcommand
  rw [Int.toNat_zero, zero_add, Option.mem_def] at hat
  unfold payloadLengthAt at hrejects
  rw [Int.toNat_zero, List.drop_zero] at hrejects
  unfold kPacketHeaderLength at hlen
  obtain ⟨seqId, hseq⟩ : ∃ seqId, byteAt head.buf 3 = .ok seqId := by
    refine ⟨head.buf.get ⟨3, by omega⟩, ?_⟩
    rw [byteAt, if_pos (by decide), List.getElem?_eq_getElem (by omega)]
    rfl
  have hlength := @lEndianBytesToKInt_bounds 32 head.buf kPayloadLengthLength (by decide)
  unfold parseStream
  rw [hhead]
  dsimp only
  rw [if_neg (by unfold kPacketHeaderLength; omega), hseq, ok_bind, if_pos rfl, hat]
  dsimp only
  rw [hrejects, if_neg Bool.false_ne_true]
  dsimp only
  by_cases hshort : (head.buf.length : ℤ) < kPacketHeaderLength
      + (lEndianBytesToKInt 32 head.buf kPayloadLengthLength).1
  · rw [if_pos hshort]
    exact ⟨_, rfl, by decide⟩
  · rw [if_neg hshort, slice, if_pos ⟨by decide, by omega, by omega⟩, ok_bind]
    rcases createFrameBase sb head (kPacketHeaderLength
      + (lEndianBytesToKInt 32 head.buf kPayloadLengthLength).1) with _ | fb
    · exact ⟨_, rfl, by simp⟩
    · exact ⟨_, rfl, by simp⟩

/-- **Resynchronisation.** The search returns, and what it returns is the first request just when the
packets are in sequence; what is parsed from a position it finds is never invalid. -/
theorem findBoundary_resync_iff {sb : StreamBuffer} {head : Buffer} (hhead : sb.head = some head)
    (hstart : 0 ≤ startPos) : ∃ pos, findBoundary sb .request startPos = .ok pos
      ∧ (FirstAt (RequestAt head.buf) startPos (head.buf.length - kPacketHeaderLength) pos
        ↔ InSequence head.buf startPos)
      ∧ (0 ≤ pos → ∃ sb' r, sb.removePrefix pos = .ok sb' ∧ parseStream sb' .request = .ok r
        ∧ r.parseState ≠ .invalid) := by
  obtain ⟨pos, hpos, hfirst⟩ := findBoundary_firstAt hhead hstart
  refine ⟨pos, hpos, firstAt_request_iff hstart hfirst, fun hfound => ?_⟩
  obtain ⟨-, hhi, -, hcommand⟩ := hfirst.sound hfound
  unfold kPacketHeaderLength at hhi
  obtain ⟨n, rfl⟩ := Int.eq_ofNat_of_zero_le hfound
  obtain ⟨sb', head', hremove, hhead', hbuf, -⟩ :=
    StreamBuffer.removePrefix_head hhead (show n < head.buf.length by omega)
  obtain ⟨r, hparse, hvalid⟩ := parseStream_of_command hhead'
    (by rw [hbuf, List.length_drop]; unfold kPacketHeaderLength; omega) (by
      obtain ⟨commandByte, hat, hrejects⟩ := hcommand
      refine ⟨commandByte, ?_, ?_⟩
      · rw [hbuf, Int.toNat_zero, zero_add, List.getElem?_drop]
        exact hat
      · unfold payloadLengthAt at hrejects ⊢
        rw [hbuf, Int.toNat_zero, List.drop_zero]
        exact hrejects)
  exact ⟨sb', r, hremove, hparse, hvalid⟩

end Search

/-- Three bytes and a number are left of a packet when a ping comes in. -/
def pingBehindRest : GoString := [0x41, 0x42, 0x43, 1, 0, 0, 0, 0x0e]

theorem findBoundary_resync_iff_sample :
    ∃ pos, findBoundary (bufferOf pingBehindRest) .request 0 = .ok pos
      ∧ (FirstAt (RequestAt pingBehindRest) 0 4 pos ↔ InSequence pingBehindRest 0)
      ∧ (0 ≤ pos → ∃ sb' r, (bufferOf pingBehindRest).removePrefix pos = .ok sb'
        ∧ parseStream sb' .request = .ok r ∧ r.parseState ≠ .invalid) :=
  @findBoundary_resync_iff 0 (bufferOf pingBehindRest) ⟨pingBehindRest, 0⟩ rfl le_rfl

/-- The ping at 3 is not found, for the number in front is that of the rest. -/
theorem ping_not_found :
    findBoundary (bufferOf pingBehindRest) .request 0 = .ok (-1)
      ∧ RequestAt pingBehindRest 3
      ∧ ¬ FirstAt (RequestAt pingBehindRest) 0 (pingBehindRest.length - kPacketHeaderLength) (-1) := by
  have hreq : RequestAt pingBehindRest 3 := by decide +kernel
  refine ⟨rfl, hreq, ?_⟩
  rintro (⟨-, hnone⟩ | ⟨hlo, -⟩)
  · exact hnone 3 (by decide) (by decide) hreq
  · exact absurd hlo (by decide)

end Kyanos.Mysql
