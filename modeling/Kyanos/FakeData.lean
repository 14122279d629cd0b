/-
The fake data that stands for bytes that were not captured: `agent/protocol/fakedata.go`, and how the
HTTP parser takes it out again (`handleReadBodyError` of `agent/protocol/http.go`).

The mark begins and ends with two underscores. So where the captured bytes end with all of it but the
last two letters or the last one, the mark is found too early, and its size is read from its own
letters. Captured bytes without the mark that end otherwise come back with the filler
(`fakeData_roundTrip_iff`), if the parser does not first find the begin of another response.
-/
import Kyanos.Http
import Kyanos.HttpRequests
import Kyanos.Overlaps
import Kyanos.VectoredEvents

set_option autoImplicit false

open GoNum Trace

namespace Kyanos

/-! ## The mark -/

/-- `fakeDataMarkIndex`. -/
def fakeDataMarkIndex (buf : List UInt8) : Option ℕ :=
  if buf.length < fakeDataMarkLen then none else index buf fakeDataMarkPrefix

/-- `getFakeDataSize`. -/
def getFakeDataSize (buf : List UInt8) (pos : ℤ) : Except Panic ℕ := do
  let buf ← slice buf pos buf.length
  .ok (if buf.length < fakeDataMarkLen then 0
    else bigEndian ((buf.drop fakeDataMarkPrefix.length).take 4))

namespace Http

/-- `ParsedHttpResponse`, with its bytes. -/
structure HttpResponseMessage where
  response : ParsedHttpResponse
  buf : GoString

/-- The first `readBytes` bytes as a response. -/
def responseOf (buf : GoString) (timestamp seq : ℕ) (readBytes : ℤ) :
    Except Panic (ParseResult HttpResponseMessage) := do
  let message ← slice buf 0 readBytes
  let base : FrameBase := { timestampNs := timestamp, byteSize := readBytes, seq := seq }
  .ok ⟨.success, [⟨false, 0, ⟨⟨base⟩, message⟩⟩], readBytes⟩

/-- `handleReadBodyError`: the response ends where another one begins, or behind fake data. -/
def handleReadBodyError (err : HttpError) (buf : GoString) (sb : StreamBuffer)
    (messageType : MessageType) (timestamp seq : ℕ) :
    Except Panic (ParseResult HttpResponseMessage) := do
  let failed : ParseResult HttpResponseMessage :=
    if err = .eof ∨ err = .unexpectedEOF then ⟨.needsMoreData, [], 0⟩ else ⟨.invalid, [], 0⟩
  let boundary ← findBoundary sb messageType 0
  if boundary > 0 then responseOf buf timestamp seq boundary
  else
    match fakeDataMarkIndex buf with
    | none => .ok failed
    | some fakeDataIdx => do
        let fakeDataSize ← getFakeDataSize buf fakeDataIdx
        if buf.length ≥ fakeDataIdx + fakeDataSize + fakeDataMarkLen then
          responseOf buf timestamp seq (fakeDataIdx + fakeDataSize + fakeDataMarkLen : ℕ)
        else .ok failed

end Http

/-! ## Where the mark is found -/

section Mark

variable {d filler tail : List UInt8} {n : ℕ}

/-- The mark overlaps itself by one underscore or by two. -/
theorem overlaps_mark_iff : (∃ k, Overlap.Overlaps fakeDataMarkPrefix d k)
    ↔ text "__FAKE_DATA" <:+ d ∨ text "__FAKE_DATA_" <:+ d := by
  have hborders : ∀ k < 13, 0 < k →
      (fakeDataMarkPrefix.drop k <+: fakeDataMarkPrefix ↔ k = 11 ∨ k = 12) := by decide +kernel
  constructor
  · rintro ⟨k, hpos, hlt, hdrop, htake⟩
    rcases (hborders k hlt hpos).mp hdrop with rfl | rfl
    · exact Or.inl htake
    · exact Or.inr htake
  · rintro (htake | htake)
    · exact ⟨11, by decide, by decide, (hborders 11 (by decide) (by decide)).mpr (Or.inl rfl), htake⟩
    · exact ⟨12, by decide, by decide, (hborders 12 (by decide) (by decide)).mpr (Or.inr rfl), htake⟩

theorem makeNewFakeData_eq_some (h : makeNewFakeData n = some filler) : fakeDataMarkLen ≤ n
    ∧ filler = fakeDataMarkPrefix ++ (beBytes 4 (n - fakeDataMarkLen)
      ++ List.replicate (n - fakeDataMarkLen) 0) := by
  unfold makeNewFakeData at h
  split_ifs at h with hshort
  cases h
  exact ⟨Nat.le_of_not_lt hshort, rfl⟩

/-- The mark is found behind the captured bytes just if these do not overlap it. -/
theorem fakeDataMarkIndex_iff (hfree : ¬fakeDataMarkPrefix <:+: d)
    (hfiller : makeNewFakeData n = some filler) :
    fakeDataMarkIndex (d ++ (filler ++ tail)) = some d.length
      ↔ ¬∃ k, Overlap.Overlaps fakeDataMarkPrefix d k := by
  obtain ⟨hmin, rfl⟩ := makeNewFakeData_eq_some hfiller
  have hlen := makeNewFakeData_length hfiller
  unfold fakeDataMarkIndex
  rw [if_neg (by rw [List.length_append, List.length_append, hlen]; omega), List.append_assoc,
    BinaryDecoder.index_eq_some_iff, ← Overlap.early_iff hfree, List.drop_left]
  constructor
  · rintro ⟨-, -, hfirst⟩ ⟨j, hj, hearly⟩
    exact hfirst j hj hearly
  · intro hnone
    refine ⟨List.prefix_append _ _, by rw [List.length_append]; omega, fun j hj hearly => ?_⟩
    exact hnone ⟨j, hj, hearly⟩

/-- The size behind the captured bytes is what was missing, without the mark. -/
theorem getFakeDataSize_filler (hn : n < 2 ^ 32) (hfiller : makeNewFakeData n = some filler) :
    getFakeDataSize (d ++ (filler ++ tail)) d.length = .ok (n - fakeDataMarkLen) := by
  have hlen := makeNewFakeData_length hfiller
  obtain ⟨hmin, hfiller⟩ := makeNewFakeData_eq_some hfiller
  have hbytes := beBytes_length 4 (n - fakeDataMarkLen)
  unfold getFakeDataSize
  rw [slice_append, ok_bind, if_neg (by rw [List.length_append, hlen]; omega), hfiller,
    List.append_assoc, List.drop_left, List.append_assoc]
  have htake := @List.take_left _ (beBytes 4 (n - fakeDataMarkLen))
    (List.replicate (n - fakeDataMarkLen) 0 ++ tail)
  rw [hbytes] at htake
  rw [htake, bigEndian_beBytes, Nat.mod_eq_of_lt]
  have hpow : 256 ^ 4 = 2 ^ 32 := by decide
  omega

end Mark

/-! ## The round trip -/

/-- What was captured of a call comes back with the filler for what was not: the mark is found behind
it and says how much is missing, a call of any length is filled up to it, and a response whose body
cannot be read ends behind the filler. -/
structure RoundTrip (d : List UInt8) (n : ℕ) (buf : List UInt8) (err : Http.HttpError)
    (sb : StreamBuffer) (timestamp seq : ℕ) : Prop where
  index : fakeDataMarkIndex buf = some d.length
  size : ∃ size, getFakeDataSize buf d.length = .ok size
    ∧ d.length + size + fakeDataMarkLen = d.length + n
  filled : ∀ len, d.length ≤ len → (Bpf.fillSyscallDataIfNeeded len d).length = len
    ∧ d <+: Bpf.fillSyscallDataIfNeeded len d
  consumed : ∃ r, Http.handleReadBodyError err buf sb .response timestamp seq = .ok r
    ∧ r.parseState = .success ∧ r.readBytes = d.length + n

section RoundTrip

variable {d filler tail : List UInt8} {n : ℕ} {err : Http.HttpError} {sb : StreamBuffer} {head : Buffer}
  {timestamp seq : ℕ}

theorem fillSyscallDataIfNeeded_spec {len : ℕ} (h : d.length ≤ len) :
    (Bpf.fillSyscallDataIfNeeded len d).length = len ∧ d <+: Bpf.fillSyscallDataIfNeeded len d := by
  unfold Bpf.fillSyscallDataIfNeeded
  split_ifs with hshort
  · refine ⟨?_, List.prefix_append _ _⟩
    rw [List.length_append, fakeData_length]
    omega
  · exact ⟨by omega, List.prefix_rfl⟩

theorem responseOf_ok {buf : List UInt8} {readBytes : ℤ} (hlo : 0 ≤ readBytes)
    (hhi : readBytes ≤ buf.length) : ∃ r, Http.responseOf buf timestamp seq readBytes = .ok r
      ∧ r.parseState = .success ∧ r.readBytes = readBytes := by
  unfold Http.responseOf
  rw [slice, if_pos ⟨le_rfl, hlo, hhi⟩]
  exact ⟨_, rfl, rfl, rfl⟩

/-- Where the mark is found, the response ends behind the filler, or where another one begins. -/
theorem handleReadBodyError_iff (hn : n < 2 ^ 32) (hfiller : makeNewFakeData n = some filler)
    (hhead : sb.head = some head) (hbuf : head.buf = d ++ (filler ++ tail))
    (hindex : fakeDataMarkIndex head.buf = some d.length) :
    (∃ r, Http.handleReadBodyError err head.buf sb .response timestamp seq = .ok r
        ∧ r.parseState = .success ∧ r.readBytes = d.length + n)
      ↔ ∃ boundary, Http.findBoundary sb .response 0 = .ok boundary
        ∧ (boundary ≤ 0 ∨ boundary = d.length + n) := by
  have hlen : (head.buf.length : ℤ) = d.length + n + tail.length := by
    rw [hbuf, List.length_append, List.length_append, makeNewFakeData_length hfiller]
    push_cast
    ring
  have hfind : Http.findBoundary sb .response 0 = .ok (Http.boundaryLoop .response head.buf 0) := by
    rw [Http.findBoundary, hhead]
  have hbounds := Http.boundaryLoop_bounds .response head.buf 0
  unfold Http.handleReadBodyError
  rw [hfind, ok_bind]
  generalize Http.boundaryLoop .response head.buf 0 = boundary at hbounds
  by_cases hpos : boundary > 0
  · obtain ⟨r, hr, hstate, hread⟩ := @responseOf_ok timestamp seq head.buf boundary (by omega) (by omega)
    rw [if_pos hpos, hr]
    constructor
    · rintro ⟨r', ⟨⟩, -, hread'⟩
      exact ⟨boundary, rfl, Or.inr (hread.symm.trans hread')⟩
    · rintro ⟨_, ⟨⟩, hle | heq⟩
      · omega
      · exact ⟨r, rfl, hstate, hread.trans heq⟩
  · -- The mark is there, and what it stands for.
    obtain ⟨hmin, -⟩ := makeNewFakeData_eq_some hfiller
    have hsize := @getFakeDataSize_filler d filler tail n hn hfiller
    rw [← hbuf] at hsize
    have hsum : d.length + (n - fakeDataMarkLen) + fakeDataMarkLen = d.length + n := by omega
    obtain ⟨r, hr, hstate, hread⟩ :=
      @responseOf_ok timestamp seq head.buf (d.length + n : ℕ) (by omega) (by push_cast; omega)
    rw [if_neg hpos, hindex]
    dsimp only
    rw [hsize, ok_bind, hsum, if_pos (by omega), hr]
    exact iff_of_true ⟨r, rfl, hstate, by rw [hread]; push_cast; rfl⟩
      ⟨boundary, rfl, Or.inl (by omega)⟩

/-- **Fake data comes back** just if the captured bytes do not overlap the mark, and no other response
begins before the end of the filler. -/
theorem fakeData_roundTrip_iff (hfree : ¬fakeDataMarkPrefix <:+: d) (hn : n < 2 ^ 32)
    (hfiller : makeNewFakeData n = some filler) (hhead : sb.head = some head)
    (hbuf : head.buf = d ++ (filler ++ tail)) :
    RoundTrip d n head.buf err sb timestamp seq
      ↔ ¬(text "__FAKE_DATA" <:+ d ∨ text "__FAKE_DATA_" <:+ d)
        ∧ ∃ boundary, Http.findBoundary sb .response 0 = .ok boundary
          ∧ (boundary ≤ 0 ∨ boundary = d.length + n) := by
  have hiff := @fakeDataMarkIndex_iff d filler tail n hfree hfiller
  rw [← hbuf, overlaps_mark_iff] at hiff
  rw [← hiff]
  obtain ⟨hmin, -⟩ := makeNewFakeData_eq_some hfiller
  constructor
  · rintro ⟨hindex, -, -, hconsumed⟩
    exact ⟨hindex, (handleReadBodyError_iff hn hfiller hhead hbuf hindex).mp hconsumed⟩
  · rintro ⟨hindex, hboundary⟩
    have hsize := @getFakeDataSize_filler d filler tail n hn hfiller
    rw [← hbuf] at hsize
    refine ⟨hindex, ⟨_, hsize, by omega⟩, fun len => fillSyscallDataIfNeeded_spec, ?_⟩
    exact (handleReadBodyError_iff hn hfiller hhead hbuf hindex).mpr hboundary

/-- A response of which two bytes of the body were captured. -/
def captured : List UInt8 := text "HTTP/1.1 200 OK\r\nContent-Length: 30\r\n\r\nab"

theorem fakeData_roundTrip_iff_sample : ∃ filler, makeNewFakeData 28 = some filler
    ∧ (RoundTrip captured 28 (captured ++ (filler ++ [])) .unexpectedEOF
        (bufferOf (captured ++ (filler ++ []))) 1 0
      ↔ ¬(text "__FAKE_DATA" <:+ captured ∨ text "__FAKE_DATA_" <:+ captured)
        ∧ ∃ boundary, Http.findBoundary (bufferOf (captured ++ (filler ++ []))) .response 0
            = .ok boundary ∧ (boundary ≤ 0 ∨ boundary = captured.length + (28 : ℕ))) := by
  have hfiller : makeNewFakeData 28 = some (fakeData 28) := rfl
  exact ⟨fakeData 28, hfiller, @fakeData_roundTrip_iff captured (fakeData 28) [] 28 .unexpectedEOF
    (bufferOf (captured ++ (fakeData 28 ++ []))) ⟨captured ++ (fakeData 28 ++ []), 0⟩ 1 0
    (by decide +kernel) (by decide) hfiller rfl rfl⟩

/-- A body that ends like the mark does, up to its last two letters. -/
def overlapping : List UInt8 :=
  text "HTTP/1.1 200 OK\r\nContent-Length: 40\r\n\r\n__FAKE_DATA"

/-- The mark is found eleven bytes too early. -/
theorem overlapping_mark_found : ¬ ∀ (d filler : List UInt8) (n : ℕ) (err : Http.HttpError)
    (sb : StreamBuffer) (head : Buffer) (timestamp seq : ℕ), ¬fakeDataMarkPrefix <:+: d → n < 2 ^ 32 →
      makeNewFakeData n = some filler → sb.head = some head → head.buf = d ++ filler →
      RoundTrip d n head.buf err sb timestamp seq := by
  intro h
  have hround := h overlapping (fakeData 29) 29 .unexpectedEOF
    (bufferOf (overlapping ++ fakeData 29)) ⟨overlapping ++ fakeData 29, 0⟩ 1 0
    (by decide +kernel) (by decide) rfl rfl rfl
  exact absurd hround.index (by decide +kernel)

end RoundTrip

end Kyanos
