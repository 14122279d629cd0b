/-
`agent/protocol/http.go`: where the HTTP parser looks for a boundary, and how it matches.

The headers of a message end with an empty line. `FindBoundary` looks at what lies before the
next such end, for the start of a request or a response line; without one it goes on behind
the end. So a boundary that is found lies before the end of some headers. The reader of
messages belongs to the package `net/http` and is not modelled.
-/
import Kyanos.Decoder

set_option autoImplicit false

namespace Kyanos.Http

/-- `HTTP_REQ_START_PATTERN`. -/
def httpReqStartPattern : List GoString :=
  [text "GET ", text "HEAD ", text "POST ", text "PUT ", text "DELETE ", text "CONNECT ",
    text "OPTIONS ", text "TRACE ", text "PATCH "]

/-- `HTTP_RESP_START_PATTERN`. -/
def httpRespStartPattern : List GoString := [text "HTTP/1.1 ", text "HTTP/1.0 "]

/-- `HTTP_BOUNDARY_MARKER`. -/
def httpBoundaryMarker : GoString := [13, 10, 13, 10]

/-- A message of neither type has no patterns. -/
def matchPattern : MessageType → List GoString
  | .request => httpReqStartPattern
  | .response => httpRespStartPattern
  | .unknown => []

/-- The last of the first positions of the patterns. -/
def lastPattern (substr : GoString) (patterns : List GoString) : Option ℕ :=
  patterns.foldl
    (fun prevPos pattern =>
      match index substr pattern with
      | none => prevPos
      | some patternIndex =>
          match prevPos with
          | none => some patternIndex
          | some prevPos => some (max prevPos patternIndex))
    none

/-- The loop of `FindBoundary`. -/
def boundaryLoop (messageType : MessageType) (buf : GoString) (startPos : ℕ) : ℤ :=
  if startPos < buf.length then
    match index (buf.drop startPos) httpBoundaryMarker with
    | none => -1
    | some boundaryIndex =>
        match lastPattern ((buf.drop startPos).take boundaryIndex) (matchPattern messageType) with
        -- The position is counted from where this part starts.
        | some prevPos => startPos + prevPos
        | none =>
            boundaryLoop messageType buf (startPos + boundaryIndex + httpBoundaryMarker.length)
  else -1
termination_by buf.length - startPos
decreasing_by
  unfold httpBoundaryMarker
  simp only [List.length_cons, List.length_nil]
  omega

def findBoundary (sb : StreamBuffer) (messageType : MessageType) (startPos : ℕ) :
    Except Panic ℤ :=
  match sb.head with
  | none => .error .nilDereference
  | some head => .ok (boundaryLoop messageType head.buf startPos)

theorem index_length_le {s sentinel : List UInt8} {i : ℕ} (h : index s sentinel = some i) :
    i ≤ s.length := by
  have := BinaryDecoder.index_le h
  omega

/-- A pattern that is found lies in the text. -/
theorem lastPattern_le {substr : GoString} {patterns : List GoString} {pos : ℕ}
    (h : lastPattern substr patterns = some pos) : pos ≤ substr.length := by
  induction patterns using List.reverseRecOn generalizing pos with
  | nil => cases h
  | append_singleton patterns pattern ih =>
      unfold lastPattern at h ih
      rw [List.foldl_append, List.foldl_cons, List.foldl_nil] at h
      split at h
      · exact ih h
      · rename_i patternIndex hindex
        have hle := index_length_le hindex
        split at h
        · cases h
          exact hle
        · rename_i prevPos hprev
          cases h
          exact max_le (ih hprev) hle

theorem boundaryLoop_bounds (messageType : MessageType) (buf : GoString) (startPos : ℕ) :
    boundaryLoop messageType buf startPos = -1
      ∨ startPos ≤ boundaryLoop messageType buf startPos
        ∧ boundaryLoop messageType buf startPos ≤ buf.length := by
  induction startPos using boundaryLoop.induct messageType buf with
  | case1 startPos hlt hnone =>
      rw [boundaryLoop, if_pos hlt, hnone]
      exact Or.inl rfl
  | case2 startPos hlt boundaryIndex hindex prevPos hprev =>
      -- The pattern lies before the end of the headers, which lies in the buffer.
      have hle := lastPattern_le hprev
      have hin := index_length_le hindex
      rw [List.length_take, List.length_drop] at hle
      rw [boundaryLoop, if_pos hlt, hindex]
      dsimp only
      rw [hprev]
      right
      dsimp only
      omega
  | case3 startPos hlt boundaryIndex hindex hnone ih =>
      rw [boundaryLoop, if_pos hlt, hindex]
      dsimp only
      rw [hnone]
      dsimp only
      rcases ih with heq | hbounds
      · exact Or.inl heq
      · right
        omega
  | case4 startPos hge =>
      rw [boundaryLoop, if_neg hge]
      exact Or.inl rfl

theorem findBoundary_bounds {sb : StreamBuffer} {head : Buffer} {messageType : MessageType}
    {startPos : ℕ} {pos : ℤ} (hhead : sb.head = some head)
    (h : findBoundary sb messageType startPos = .ok pos) :
    pos = -1 ∨ startPos ≤ pos ∧ pos ≤ head.len := by
  unfold findBoundary at h
  rw [hhead] at h
  cases h
  exact boundaryLoop_bounds messageType head.buf startPos

/-- `Match`, on the queues of stream 0. -/
def matchStreams (reqStream respStream : List Message) : Matched Message :=
  matchByTimestamp reqStream respStream

end Kyanos.Http
