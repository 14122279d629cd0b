/-
`ParseRequest` of `agent/protocol/http.go`: how far it says that a request reaches.

The request is read with the package `net/http`, through a buffered reader over the bytes of the
stream. How many bytes that took is not counted: `GetBufioReaderReadIndex` of `common/utils.go`
looks at the field `r` of the reader, which is an offset in its buffer of 4096 bytes. A request that
fits into the buffer ends there; what belongs to a longer one has been moved out of the buffer when
its end is read.

The package is a parameter here (`NetHttp`). What is relied on is that it reads the request and
nothing else (`ReadsExactly`); the reader itself is `BufioReader`.
-/
import Kyanos.BufioReader
import Kyanos.Decoder
import Kyanos.ParseStream

set_option autoImplicit false

open Bufio

namespace Kyanos.Http

/-! ## The parser -/

/-- The size of the buffer that `bufio.NewReader` makes. -/
def defaultBufSize : ℕ := 4096

/-- `http.Request`, as far as the parser reads it. -/
structure Request where
  contentLength : ℤ
  host : GoString
  method : GoString
  urlPath : GoString
deriving DecidableEq

/-- The errors of the package: the two ends of the input, and all others. -/
inductive HttpError
  | eof
  | unexpectedEOF
  | other
deriving DecidableEq

/-- `http.ReadRequest`, and `io.ReadAll` of the body of a request. -/
structure NetHttp where
  readRequest : Reader defaultBufSize → Except HttpError (Request × Reader defaultBufSize)
  readAll : Request → Reader defaultBufSize → Except HttpError (GoString × Reader defaultBufSize)

/-- `ParsedHttpRequest`, with its bytes. -/
structure HttpRequestMessage where
  request : ParsedHttpRequest
  buf : GoString

/-- `GetBufioReaderReadIndex`. -/
def getBufioReaderReadIndex (r : Reader defaultBufSize) : ℤ := r.r

/-- What an error makes of the result. -/
def failedResult (err : HttpError) : ParseResult HttpRequestMessage :=
  if err = .eof ∨ err = .unexpectedEOF then ⟨.needsMoreData, [], 0⟩ else ⟨.invalid, [], 0⟩

/-- The body, for a request that has one. -/
def readBody (lib : NetHttp) (req : Request) (bufioReader : Reader defaultBufSize) :
    Except HttpError (GoString × Reader defaultBufSize) :=
  if 0 < req.contentLength then lib.readAll req bufioReader else .ok ([], bufioReader)

/-- `ParseRequest`. -/
def parseRequest (lib : NetHttp) (buf : GoString) (timestamp seq : ℕ) :
    Except Panic (ParseResult HttpRequestMessage) :=
  match lib.readRequest (Reader.new buf) with
  | .error err => .ok (failedResult err)
  | .ok (req, bufioReader) =>
      match readBody lib req bufioReader with
      | .error err => .ok (failedResult err)
      | .ok (_, bufioReader) => do
          let readIndex := getBufioReaderReadIndex bufioReader
          let message ← slice buf 0 readIndex
          let request : ParsedHttpRequest :=
            { base := { timestampNs := timestamp, byteSize := readIndex, seq := seq }
              path := req.urlPath, host := req.host, method := req.method }
          .ok ⟨.success, [⟨true, 0, ⟨request, message⟩⟩], readIndex⟩

/-! ## What is owed -/

/-- The request is read, and its message, to its end. -/
structure Extent (result : ParseResult HttpRequestMessage) (size : ℕ) : Prop where
  parseState : result.parseState = .success
  readBytes : result.readBytes = size
  byteSize : ∃ message, result.parsedMessages = [message]
    ∧ message.payload.request.base.byteSize = size

/-- The package reads a request of some bytes, with others behind it: its head line by line, and then
the body of the length that the head says into slices. -/
structure ReadsExactly (lib : NetHttp) (head body suffix : GoString) : Prop where
  ne_nil : head ≠ []
  reads : ∃ req readerHead headCalls,
    lib.readRequest (Reader.new (head ++ body ++ suffix)) = .ok (req, readerHead)
      ∧ (∀ c ∈ headCalls, c.isRead = false)
      ∧ (Reader.new (head ++ body ++ suffix)).consume headCalls head = some readerHead
      ∧ (body.length : ℤ) = max 0 req.contentLength
      ∧ (0 < req.contentLength → ∃ readerBody bodyCalls,
          lib.readAll req readerHead = .ok (body, readerBody)
            ∧ readerHead.consume bodyCalls body = some readerBody)

/-! ## The extent -/

variable {lib : NetHttp} {head body suffix : GoString}

/-- **Where the reader stands**: behind the request, if this fits into the buffer. -/
theorem ReadsExactly.reader (h : ReadsExactly lib head body suffix) :
    ∃ req readerHead content reader,
      lib.readRequest (Reader.new (head ++ body ++ suffix)) = .ok (req, readerHead)
        ∧ readBody lib req readerHead = .ok (content, reader)
        ∧ ((head ++ body).length ≤ defaultBufSize → reader.r = (head ++ body).length) := by
  obtain ⟨req, readerHead, headCalls, hrequest, hkind, hhead, hlength, hbody⟩ := h.reads
  have hat : (head ++ body).length ≤ defaultBufSize → readerHead.At head.length body := by
    intro hfits
    have hnew : (Reader.new (head ++ body ++ suffix) : Reader defaultBufSize).At 0 (head ++ body) :=
      Reader.at_new hfits
    have hread := Reader.consume_at hnew (Or.inl hkind) hhead
    rwa [Nat.zero_add] at hread
  by_cases hpos : 0 < req.contentLength
  · obtain ⟨readerBody, bodyCalls, hall, hconsume⟩ := hbody hpos
    refine ⟨req, readerHead, body, readerBody, hrequest, ?_, ?_⟩
    · unfold readBody
      rw [if_pos hpos, hall]
    · intro hfits
      have hbodyAt : readerHead.At head.length (body ++ []) := by
        rw [List.append_nil]
        exact hat hfits
      have hread := Reader.consume_at hbodyAt (Or.inr (List.length_pos_iff.mpr h.ne_nil)) hconsume
      rw [hread.offset, List.length_append]
  · refine ⟨req, readerHead, [], readerHead, hrequest, ?_, ?_⟩
    · unfold readBody
      rw [if_neg hpos]
    · intro hfits
      have hnone : body.length = 0 := by omega
      rw [(hat hfits).offset, List.length_append, hnone, Nat.add_zero]

/-- **The extent of a request**: `ParseRequest` returns, and it says how long the request is just if
that fits into the buffer of the reader. -/
theorem parseRequest_extent_iff (h : ReadsExactly lib head body suffix) (timestamp seq : ℕ) :
    ∃ result, parseRequest lib (head ++ body ++ suffix) timestamp seq = .ok result
      ∧ (Extent result (head ++ body).length ↔ (head ++ body).length ≤ defaultBufSize) := by
  obtain ⟨req, readerHead, content, reader, hrequest, hbody, hfits⟩ := h.reader
  have hle := reader.r_le
  -- The offset lies in the buffer, and the buffer in what there is.
  have hbuf : (reader.r : ℤ) ≤ (head ++ body ++ suffix).length := by
    have hsum := @List.length_append _ (head ++ body) suffix
    rw [hsum]
    by_cases hsmall : (head ++ body).length ≤ defaultBufSize
    · rw [hfits hsmall]
      omega
    · omega
  unfold parseRequest
  rw [hrequest]
  dsimp only
  rw [hbody]
  dsimp only
  unfold getBufioReaderReadIndex
  rw [slice, if_pos ⟨le_refl 0, by omega, hbuf⟩]
  refine ⟨_, rfl, ?_, ?_⟩
  · intro hextent
    have hr : (reader.r : ℤ) = (head ++ body).length := hextent.readBytes
    omega
  · intro hsmall
    have hr : (reader.r : ℤ) = (head ++ body).length := by exact_mod_cast hfits hsmall
    exact ⟨rfl, hr, _, rfl, hr⟩

/-! ## Two requests -/

/-- The lines up to the empty one, at most `n`. -/
def readLines : ℕ → Reader defaultBufSize → List GoString × Reader defaultBufSize
  | 0, b => ([], b)
  | n + 1, b =>
      let (line, _, b) := b.readLine
      if line = [] then ([], b)
      else
        let (lines, b) := readLines n b
        (line :: lines, b)

/-- The next `left` bytes, in slices of 512. -/
def readSlices : ℕ → ℕ → Reader defaultBufSize → GoString × Reader defaultBufSize
  | 0, _, b => ([], b)
  | n + 1, left, b =>
      let (data, _, b) := b.read (min 512 left)
      let (more, b) := readSlices n (left - data.length) b
      (data ++ more, b)

/-- The value of a header, empty if it is not there. -/
def headerValue (lines : List GoString) (name : String) : GoString :=
  (lines.findSome? fun line =>
    if (text name).isPrefixOf line then some (line.drop (text name).length) else none).getD []

def decimal (digits : GoString) : ℕ := digits.foldl (fun n digit => 10 * n + (digit.toNat - 48)) 0

/-- The package on requests with at most seven headers. -/
def shortHttp : NetHttp :=
  { readRequest := fun b =>
      match readLines 8 b with
      | ([], _) => .error .eof
      | (requestLine :: headers, b) =>
          .ok ({ contentLength := decimal (headerValue headers "Content-Length: ")
                 host := headerValue headers "Host: "
                 method := requestLine.takeWhile (· ≠ 32)
                 urlPath := ((requestLine.dropWhile (· ≠ 32)).drop 1).takeWhile (· ≠ 32) }, b)
    readAll := fun req b =>
      .ok (readSlices ((req.contentLength.toNat + 511) / 512) req.contentLength.toNat b) }

def getHead : GoString := text "GET /a HTTP/1.1\r\nHost: h\r\n\r\n"

theorem getHead_reads : ReadsExactly shortHttp getHead [] (text "GET /b HTTP/1.1\r\n") := by
  refine ⟨by decide, _, _, List.replicate 3 .readLine, rfl, by decide, ?_, rfl, ?_⟩
  · decide +kernel
  · intro hpos
    exact absurd hpos (by decide +kernel)

theorem parseRequest_extent_iff_sample :
    ∃ result, parseRequest shortHttp (getHead ++ [] ++ text "GET /b HTTP/1.1\r\n") 10 20 = .ok result
      ∧ (Extent result (getHead ++ []).length ↔ (getHead ++ []).length ≤ defaultBufSize) :=
  parseRequest_extent_iff getHead_reads 10 20

/-- A request with a cookie of 4080 bytes, 4118 bytes in all. -/
def cookieHead : GoString :=
  text "GET /a HTTP/1.1\r\nHost: h\r\nCookie: " ++ (List.replicate 4080 97 ++ text "\r\n\r\n")

def noBytes : GoString := []

/-- The reader behind it. The cookie did not fit behind the two lines before it, so these have been
moved out of the buffer. -/
def cookieReader : Reader defaultBufSize :=
  { r := 4092, buffered := [], rest := [], fits := by decide }

def cookieRequest : Request :=
  { contentLength := 0, host := text "h", method := text "GET", urlPath := text "/a" }

theorem cookieHead_readRequest :
    shortHttp.readRequest (Reader.new (cookieHead ++ noBytes ++ noBytes))
      = .ok (cookieRequest, cookieReader) := by
  decide +kernel

theorem cookieHead_reads : ReadsExactly shortHttp cookieHead noBytes noBytes := by
  refine ⟨by decide, cookieRequest, cookieReader, List.replicate 4 .readLine,
    cookieHead_readRequest, by decide, ?_, rfl, ?_⟩
  · decide +kernel
  · intro hpos
    exact absurd hpos (by decide)

/-- The request is 4118 bytes long, and `ParseRequest` says 4092. -/
theorem long_request_cut :
    ReadsExactly shortHttp cookieHead noBytes noBytes ∧ (cookieHead ++ noBytes).length = 4118
      ∧ ∃ result, parseRequest shortHttp (cookieHead ++ noBytes ++ noBytes) 10 20 = .ok result
        ∧ result.readBytes = 4092 ∧ ¬Extent result (cookieHead ++ noBytes).length := by
  have hlength : (cookieHead ++ noBytes).length = 4118 := by
    unfold cookieHead
    rw [List.length_append, List.length_append, List.length_append, List.length_replicate]
    rfl
  refine ⟨cookieHead_reads, hlength, ?_⟩
  have hin : (0 : ℤ) ≤ 0 ∧ (0 : ℤ) ≤ 4092 ∧ (4092 : ℤ) ≤ (cookieHead ++ noBytes ++ noBytes).length := by
    rw [List.length_append, hlength]
    decide
  have hslice : slice (cookieHead ++ noBytes ++ noBytes) 0 4092
      = .ok (((cookieHead ++ noBytes ++ noBytes).drop 0).take 4092) := if_pos hin
  unfold parseRequest
  rw [cookieHead_readRequest]
  dsimp only [readBody, cookieRequest]
  rw [if_neg (lt_irrefl 0)]
  dsimp only [getBufioReaderReadIndex, cookieReader, Nat.cast_ofNat]
  rw [hslice]
  refine ⟨_, rfl, rfl, ?_⟩
  intro hextent
  have hread := hextent.readBytes
  rw [hlength] at hread
  exact absurd hread (by decide)

end Kyanos.Http
