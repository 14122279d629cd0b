/-
`agent/protocol/mongodb/mongodb.go` and `stitcher.go`: the MongoDB parser.

A frame starts with its length, which counts the header too, and the kind of operation. All
but one kind are skipped by that length; the other one is decoded section by section. The
decoder for the documents in them is a parameter, and since nothing makes a document longer
than zero bytes the loop over them is bounded by a number of rounds.

The length is signed, and nothing checks its sign. A frame to skip is cut by `length - 16`,
a difference of 32 bits, and reported as `length` bytes. Where the difference wraps, the cut
succeeds on a head that is long enough and a negative number of bytes is reported
(`Wraps`, `parseStream_read_iff`).
-/
import Kyanos.Decoder

set_option autoImplicit false

open Trace

namespace Kyanos.Mongo

/-! ## The state -/

structure StreamOrderPair where
  streamId : ℤ
  processed : Bool
deriving DecidableEq

/-- `State`: the requests in the order they were parsed. -/
structure State where
  streamOrder : List StreamOrderPair
deriving DecidableEq

def kOPMsg : ℤ := 2013

/-- The operations the parser knows. -/
def opCodes : List ℤ := [kOPMsg, 1, 2001, 2002, 2003, 2004, 2005, 2006, 2007, 2012]

def kHeaderLength : ℤ := 16
def kSectionLengthSize : ℤ := 4
def kHeaderAndFlagSize : ℤ := 20
def kSectionKindSize : ℤ := 1
def kMaxBSONObjSize : ℤ := 16000000

/-- `StreamId`. -/
def streamId (m : MongoDBFrame) : ℤ := if m.responseTo = 0 then m.requestId else m.responseTo

/-- How a parse can end without a result. -/
inductive Abort
  | panic (p : Panic)
  | outOfRounds
deriving DecidableEq

/-- Why the decoding of a payload stops: for good, or with `Invalid` and what the frame and the
decoder are by then. -/
inductive Stop
  | abort (a : Abort)
  | invalid (frame : MongoDBFrame) (d : BinaryDecoder)

/-- Any error of the decoder is `Invalid`. -/
def orInvalid {α : Type} (frame : MongoDBFrame) (d : BinaryDecoder) (x : Except DecodeError α) :
    Except Stop α :=
  match x with
  | .error _ => .error (.invalid frame d)
  | .ok a => .ok a

/-! ## Documents -/

/-- The field `ok` of a document: missing, or there with the text it gives, if it gives one. -/
inductive OkField
  | missing
  | present (text : Option GoString)

/-- What `bson` and `json` make of a document: its text in JSON, its first key, and, unless the
text cannot be read back, its field `ok`. -/
structure Document where
  json : GoString
  firstKey : GoString
  ok : Option OkField

/-- The kind of message a document of the first section tells; `none` is `Invalid`. -/
def opMsgType (frame : MongoDBFrame) (document : Document) : Option MongoDBFrame :=
  match document.ok with
  | none => none
  | some field =>
      if [text "insert", text "delete", text "update", text "find", text "cursor"].contains
          document.firstKey then
        some { frame with opMsgType := document.firstKey }
      else if [text "hello", text "isMaster", text "ismaster"].contains document.firstKey then
        some { frame with opMsgType := document.firstKey, isHandshake := true }
      else
        match field with
        | .missing => none
        | .present none => some frame
        | .present (some t) => some { frame with opMsgType := t }

/-- The text of a document, and the frame with what the document tells about it. -/
def convertDocument (bson : GoString → Option Document) (kind : ℕ) (frame : MongoDBFrame)
    (sectionBody : GoString) : Option (GoString × MongoDBFrame) :=
  if (sectionBody.length : ℤ) = kSectionLengthSize then some ([], frame)
  else
    match bson sectionBody with
    | none => none
    | some document =>
        if kind = 0 then (opMsgType frame document).map fun frame => (document.json, frame)
        else some (document.json, frame)

/-- The next document of a section, with the length it gives itself. -/
def extractDocument (frame : MongoDBFrame) (d : BinaryDecoder) (documentLength : ℤ) :
    Except Stop (GoString × BinaryDecoder) :=
  if documentLength > kMaxBSONObjSize then .error (.invalid frame d)
  else
    match d.extractString documentLength with
    | .error (.panic p) => .error (.abort (.panic p))
    | .error (.err _) => .error (.invalid frame d)
    | .ok body => .ok body

/-- The loop over the documents of a section, at most `n` of them. -/
def documentLoop (bson : GoString → Option Document) : ℕ → ℤ → MongoSection → MongoDBFrame →
    BinaryDecoder → Except Stop (MongoSection × MongoDBFrame × BinaryDecoder)
  | n, remainingSectionLength, sec, frame, d =>
      if remainingSectionLength ≤ 0 then .ok (sec, frame, d)
      else
        match n with
        | 0 => .error (.abort .outOfRounds)
        | n + 1 => do
            -- A length of zero takes nothing off, and leaves the loop where it was.
            let documentLength := d.lEndianBytesToInt
            let (sectionBody, d) ← extractDocument frame d documentLength
            match convertDocument bson sec.kind frame sectionBody with
            | none => .error (.invalid frame d)
            | some (jsonDoc, frame) =>
                documentLoop bson n (intOf 32 (remainingSectionLength - documentLength))
                  { sec with documents := sec.documents ++ [jsonDoc] } frame d

/-! ## Sections -/

/-- The head of a section: the section, and the bytes its documents have. -/
def sectionHead (frame : MongoDBFrame) (d : BinaryDecoder) :
    Except Stop (MongoSection × ℤ × BinaryDecoder) := do
  let (kind, d) ← orInvalid frame d (d.extractLE 1)
  if kind = 0 then
    -- The length stays in the buffer, as the first bytes of the document.
    let length := d.lEndianBytesToInt
    if length < kSectionLengthSize then .error (.invalid frame d)
    else .ok (⟨kind, length, []⟩, length, d)
  else if kind = 1 then
    let (length, d) ← orInvalid frame d (d.extractLEInt 4)
    if length < kSectionLengthSize then .error (.invalid frame d)
    else
      let (seqIdentifier, d) ← orInvalid frame d (d.extractStringUntil [0])
      if [text "documents", text "updates", text "deletes"].contains seqIdentifier then
        .ok (⟨kind, length, []⟩, intOf 32 (length - kSectionLengthSize
          - intOf 32 seqIdentifier.length - kSectionKindSize), d)
      else .error (.invalid frame d)
  else .error (.invalid frame d)

/-- The loop over the sections, at most `n` of them and `rounds` documents in each. -/
def sectionLoop (bson : GoString → Option Document) (rounds : ℕ) : ℕ → ℤ → MongoDBFrame →
    BinaryDecoder → Except Stop (MongoDBFrame × BinaryDecoder)
  | n, allSectionsLength, frame, d =>
      if allSectionsLength ≤ 0 then .ok (frame, d)
      else
        match n with
        | 0 => .error (.abort .outOfRounds)
        | n + 1 => do
            let (sec, remainingSectionLength, d) ← sectionHead frame d
            let (sec, frame, d) ← documentLoop bson rounds remainingSectionLength sec frame d
            sectionLoop bson rounds n
              -- The lengths are those the sections give themselves, not what was read.
              (intOf 32 (allSectionsLength - intOf 32 (sec.length + kSectionKindSize)))
              { frame with sections := frame.sections ++ [sec] } d

/-- The flags of the message. -/
def withFlags (frame : MongoDBFrame) (flagBits : ℕ) : MongoDBFrame :=
  { frame with
    checksumPresent := flagBits.testBit 0
    moreToCome := flagBits.testBit 1
    exhaustAllowed := flagBits.testBit 16 }

/-- The checksum, where there is one. -/
def extractChecksum (frame : MongoDBFrame) (d : BinaryDecoder) :
    Except Stop (MongoDBFrame × BinaryDecoder) :=
  if frame.checksumPresent then do
    let (checksum, d) ← orInvalid frame d (d.extractLE 4)
    .ok ({ frame with checksum := checksum }, d)
  else .ok (frame, d)

/-- `ProcessOpMsg`. -/
def processOpMsg (bson : GoString → Option Document) (rounds : ℕ) (frame : MongoDBFrame)
    (d : BinaryDecoder) : Except Stop (MongoDBFrame × BinaryDecoder) := do
  let (flagBits, d) ← orInvalid frame d (d.extractLE 4)
  let frame := withFlags frame flagBits
  if flagBits &&& 0xFFFC ≠ 0 then .error (.invalid frame d)
  else
    let checksumBytes : ℤ := if frame.checksumPresent then 4 else 0
    let (frame, d) ← sectionLoop bson rounds rounds
      (intOf 32 (frame.length - kHeaderAndFlagSize - checksumBytes)) frame d
    extractChecksum frame d

/-! ## Frames -/

/-- The four numbers of a header. -/
structure Header where
  length : ℤ
  requestId : ℤ
  responseTo : ℤ
  opCode : ℤ

/-- The header, which is complete when there are sixteen bytes. -/
def extractHeader (d : BinaryDecoder) : Except DecodeError (Header × BinaryDecoder) := do
  let (length, d) ← d.extractLEInt 4
  let (requestId, d) ← d.extractLEInt 4
  let (responseTo, d) ← d.extractLEInt 4
  let (opCode, d) ← d.extractLEInt 4
  .ok (⟨length, requestId, responseTo, opCode⟩, d)

/-- The frame before its payload is decoded. -/
def frameOf (h : Header) (messageType : MessageType) : MongoDBFrame :=
  { base := ⟨0, 0, 0⟩, length := h.length, requestId := h.requestId, responseTo := h.responseTo
    opCode := h.opCode, checksumPresent := false, moreToCome := false, exhaustAllowed := false
    sections := [], opMsgType := [], frameBody := [], checksum := 0, isHandshake := false
    consumed := false, isReq := messageType = .request }

/-- The end of `ParseStream`: a frame whose payload was not valid is returned too, and a
request has its turn in `StreamOrder` either way. -/
def finishFrame (m : State) (sb : StreamBuffer) (head : Buffer) (messageType : MessageType)
    (state : ParseState) (frame : MongoDBFrame) (d : BinaryDecoder) :
    ParseResult MongoDBFrame × State :=
  match createFrameBase sb head d.readBytes with
  | none => (⟨.invalid, [], 0⟩, m)
  | some fb =>
      let frame := { frame with base := fb }
      (⟨state, [⟨frame.isReq, streamId frame, frame⟩], d.readBytes⟩,
        if messageType = .request then
          { m with streamOrder := m.streamOrder ++ [⟨frame.requestId, false⟩] }
        else m)

/-- `ParseStream`, on the head of the stream buffer. -/
def parseStream (bson : GoString → Option Document) (rounds : ℕ) (m : State) (sb : StreamBuffer)
    (messageType : MessageType) : Except Abort (ParseResult MongoDBFrame × State) :=
  if messageType ≠ .request ∧ messageType ≠ .response then .ok (⟨.invalid, [], 0⟩, m)
  else
    match sb.head with
    | none => .error (.panic .nilDereference)
    | some head =>
        let decoder := BinaryDecoder.new head.buf
        if decoder.getSize < kHeaderLength then .ok (⟨.needsMoreData, [], 0⟩, m)
        -- The size is cut to 32 bits, and a length below zero is always there.
        else if intOf 32 decoder.getSize < decoder.lEndianBytesToInt then
          .ok (⟨.needsMoreData, [], 0⟩, m)
        else
          match extractHeader decoder with
          | .error _ => .ok (⟨.invalid, [], 0⟩, m)
          | .ok (h, decoder) =>
              if !(opCodes.contains h.opCode) then .ok (⟨.invalid, [], 0⟩, m)
              else if h.opCode ≠ kOPMsg then
                -- The decoder has taken the sixteen bytes of the header off already.
                match decoder.removePrefix (intOf 32 (h.length - 16)) with
                | .error p => .error (.panic p)
                | .ok _ => .ok (⟨.ignore, [], h.length⟩, m)
              else
                match processOpMsg bson rounds (frameOf h messageType) decoder with
                | .error (.abort a) => .error a
                | .error (.invalid frame d) =>
                    .ok (finishFrame m sb head messageType .invalid frame d)
                | .ok (frame, d) => .ok (finishFrame m sb head messageType .success frame d)

def findBoundary (sb : StreamBuffer) (startPos : ℤ) : Except Panic ℤ :=
  if startPos = 0 then .ok 0
  else
    match sb.head with
    | none => .error .nilDereference
    | some head => .ok head.len

theorem findBoundary_bounds {sb : StreamBuffer} {head : Buffer} {startPos pos : ℤ}
    (hhead : sb.head = some head) (hstart : startPos ≤ head.len)
    (h : findBoundary sb startPos = .ok pos) : pos = -1 ∨ startPos ≤ pos ∧ pos ≤ head.len := by
  unfold findBoundary at h
  rw [hhead] at h
  right
  split_ifs at h with hzero
  · cases h
    rw [hzero, Buffer.len]
    omega
  · cases h
    exact ⟨hstart, le_rfl⟩

/-! ## What a payload reads -/

variable {bson : GoString → Option Document} {frame frame' : MongoDBFrame}
  {d d' : BinaryDecoder} {sec sec' : MongoSection}

theorem orInvalid_eq_ok {α : Type} {x : Except DecodeError α} {a : α}
    (h : orInvalid frame d x = .ok a) : x = .ok a := by
  rcases x with e | b
  · cases h
  · cases h
    rfl

theorem extractDocument_advances {documentLength : ℤ} {body : GoString}
    (h : extractDocument frame d documentLength = .ok (body, d')) : d.Advances 0 d' := by
  unfold extractDocument at h
  split_ifs at h
  rcases hstr : d.extractString documentLength with (p | e) | ⟨str, d₁⟩
  · rw [hstr] at h
    cases h
  · rw [hstr] at h
    cases h
  · rw [hstr] at h
    cases h
    obtain ⟨hadvances, hpos⟩ := BinaryDecoder.extractString_advances hstr
    exact hadvances.weaken hpos

theorem documentLoop_advances {n : ℕ} {remaining : ℤ}
    (h : documentLoop bson n remaining sec frame d = .ok (sec', frame', d')) :
    d.Advances 0 d' := by
  induction n generalizing remaining sec frame d with
  | zero =>
      rw [documentLoop] at h
      split_ifs at h
      cases h
      exact .refl _
  | succ n ih =>
      rw [documentLoop] at h
      split_ifs at h
      · cases h
        exact .refl _
      · obtain ⟨⟨body, d₁⟩, hbody, h⟩ := bind_eq_ok.mp h
        dsimp only at h
        split at h
        · cases h
        · exact (extractDocument_advances hbody).trans (ih h)

theorem sectionHead_advances {remaining : ℤ}
    (h : sectionHead frame d = .ok (sec, remaining, d')) : d.Advances 0 d' := by
  obtain ⟨⟨kind, d₁⟩, hkind, h⟩ := bind_eq_ok.mp h
  have h₁ := (BinaryDecoder.extractLE_advances (orInvalid_eq_ok hkind)).weaken (n := 0) (by simp)
  dsimp only at h
  split_ifs at h
  · cases h
    exact h₁
  · obtain ⟨⟨length, d₂⟩, hlength, h⟩ := bind_eq_ok.mp h
    have h₂ := BinaryDecoder.extractLEInt_advances (orInvalid_eq_ok hlength)
    dsimp only at h
    split_ifs at h
    obtain ⟨⟨identifier, d₃⟩, hidentifier, h⟩ := bind_eq_ok.mp h
    have h₃ := BinaryDecoder.extractStringUntil_advances (orInvalid_eq_ok hidentifier)
    dsimp only at h
    split_ifs at h
    cases h
    apply ((h₁.trans h₂).trans h₃).weaken
    simp

theorem sectionLoop_advances {rounds n : ℕ} {remaining : ℤ}
    (h : sectionLoop bson rounds n remaining frame d = .ok (frame', d')) : d.Advances 0 d' := by
  induction n generalizing remaining frame d with
  | zero =>
      rw [sectionLoop] at h
      split_ifs at h
      cases h
      exact .refl _
  | succ n ih =>
      rw [sectionLoop] at h
      split_ifs at h
      · cases h
        exact .refl _
      · obtain ⟨⟨sec₁, remaining₁, d₁⟩, hhead, h⟩ := bind_eq_ok.mp h
        obtain ⟨⟨sec₂, frame₂, d₂⟩, hdocuments, h⟩ := bind_eq_ok.mp h
        exact ((sectionHead_advances hhead).trans (documentLoop_advances hdocuments)).trans (ih h)

/-- The flags at least are read of a payload that is valid. -/
theorem processOpMsg_advances {rounds : ℕ}
    (h : processOpMsg bson rounds frame d = .ok (frame', d')) : d.Advances 4 d' := by
  obtain ⟨⟨flagBits, d₁⟩, hflags, h⟩ := bind_eq_ok.mp h
  have h₁ := BinaryDecoder.extractLE_advances (orInvalid_eq_ok hflags)
  dsimp only at h
  split at h
  · cases h
  obtain ⟨⟨frame₂, d₂⟩, hsections, h⟩ := bind_eq_ok.mp h
  have h₂ := h₁.trans (sectionLoop_advances hsections)
  unfold extractChecksum at h
  split at h
  · obtain ⟨⟨checksum, d₃⟩, hchecksum, h⟩ := bind_eq_ok.mp h
    cases h
    apply (h₂.trans (BinaryDecoder.extractLE_advances (orInvalid_eq_ok hchecksum))).weaken
    simp
  · cases h
    exact h₂

/-! ## What a frame reads -/

theorem extractLEInt_eq (h : 4 ≤ d.str.length) :
    d.extractLEInt 4 = .ok (d.lEndianBytesToInt, d.taking 4) := by
  unfold BinaryDecoder.extractLEInt BinaryDecoder.extractLE BinaryDecoder.lEndianBytesToInt
  rw [if_neg (by omega), if_neg (by omega)]
  rfl

theorem taking_taking (a b : ℕ) : (d.taking a).taking b = d.taking (a + b) := by
  unfold BinaryDecoder.taking
  simp [List.drop_drop, Int.add_assoc]

theorem extractHeader_eq (h : 16 ≤ d.str.length) :
    extractHeader d = .ok (⟨d.lEndianBytesToInt, (d.taking 4).lEndianBytesToInt,
      (d.taking 8).lEndianBytesToInt, (d.taking 12).lEndianBytesToInt⟩, d.taking 16) := by
  have hlen : ∀ k, (d.taking k).str.length = d.str.length - k := fun k => List.length_drop
  unfold extractHeader
  rw [extractLEInt_eq (by omega)]
  change ((d.taking 4).extractLEInt 4 >>= _) = _
  rw [extractLEInt_eq (by rw [hlen]; omega), taking_taking]
  change ((d.taking 8).extractLEInt 4 >>= _) = _
  rw [extractLEInt_eq (by rw [hlen]; omega), taking_taking]
  change ((d.taking 12).extractLEInt 4 >>= _) = _
  rw [extractLEInt_eq (by rw [hlen]; omega), taking_taking]
  rfl

/-- A frame to skip whose length is so far below zero that `length - 16` is a number above
zero again, on a head that is as long as that. -/
structure Wraps (buf : List UInt8) (messageType : MessageType) : Prop where
  typed : messageType = .request ∨ messageType = .response
  header : 16 ≤ buf.length
  skipped : ((BinaryDecoder.new buf).taking 12).lEndianBytesToInt ∈ opCodes
    ∧ ((BinaryDecoder.new buf).taking 12).lEndianBytesToInt ≠ kOPMsg
  low : (BinaryDecoder.new buf).lEndianBytesToInt < -2 ^ 31 + 16
  complete : (BinaryDecoder.new buf).lEndianBytesToInt ≤ intOf 32 buf.length
  fits : (BinaryDecoder.new buf).lEndianBytesToInt + 2 ^ 32 ≤ buf.length

theorem intOf_bounds (x : ℤ) : -2 ^ 31 ≤ intOf 32 x ∧ intOf 32 x < 2 ^ 31 := by
  unfold intOf
  rw [Int.bmod_def]
  push_cast
  split_ifs
  · omega
  · omega

theorem intOf_of_low {x : ℤ} (hlo : -3 * 2 ^ 31 ≤ x) (hhi : x < -2 ^ 31) :
    intOf 32 x = x + 2 ^ 32 := by
  unfold intOf
  rw [Int.bmod_def]
  push_cast
  split_ifs
  · omega
  · omega

theorem lEndianBytesToInt_bounds (d : BinaryDecoder) :
    -2 ^ 31 ≤ d.lEndianBytesToInt ∧ d.lEndianBytesToInt < 2 ^ 31 := by
  unfold BinaryDecoder.lEndianBytesToInt
  split_ifs
  · omega
  · exact intOf_bounds _

variable {rounds : ℕ} {m m' : State} {sb : StreamBuffer} {head : Buffer}
  {messageType : MessageType} {r : ParseResult MongoDBFrame}

/-- What `ParseStream` does with a frame to skip. -/
theorem parseStream_skip (hhead : sb.head = some head)
    (htyped : messageType = .request ∨ messageType = .response) (hlen : 16 ≤ head.buf.length)
    (hskip : ((BinaryDecoder.new head.buf).taking 12).lEndianBytesToInt ∈ opCodes
      ∧ ((BinaryDecoder.new head.buf).taking 12).lEndianBytesToInt ≠ kOPMsg)
    (hcomplete : (BinaryDecoder.new head.buf).lEndianBytesToInt ≤ intOf 32 head.buf.length) :
    parseStream bson rounds m sb messageType
      = match ((BinaryDecoder.new head.buf).taking 16).removePrefix
            (intOf 32 ((BinaryDecoder.new head.buf).lEndianBytesToInt - 16)) with
        | .error p => .error (.panic p)
        | .ok _ => .ok (⟨.ignore, [], (BinaryDecoder.new head.buf).lEndianBytesToInt⟩, m) := by
  have hnot : ¬ (messageType ≠ .request ∧ messageType ≠ .response) :=
    fun h => htyped.elim h.1 h.2
  have hsize : ¬ (BinaryDecoder.new head.buf).getSize < kHeaderLength := by
    unfold BinaryDecoder.getSize BinaryDecoder.new kHeaderLength
    dsimp only
    omega
  have hfull : ¬ intOf 32 (BinaryDecoder.new head.buf).getSize
      < (BinaryDecoder.new head.buf).lEndianBytesToInt := not_lt.mpr hcomplete
  unfold parseStream
  rw [if_neg hnot, hhead]
  dsimp only
  rw [if_neg hsize, if_neg hfull, extractHeader_eq hlen]
  dsimp only
  rw [if_neg (by simpa using hskip.1), if_pos hskip.2]

/-- A prefix can be cut off just when it lies in the string. -/
theorem removePrefix_eq_ok_iff (k : ℤ) :
    (∃ d', d.removePrefix k = .ok d') ↔ 0 ≤ k ∧ k ≤ d.str.length := by
  unfold BinaryDecoder.removePrefix slice
  constructor
  · rintro ⟨d', h⟩
    obtain ⟨str, hslice, -⟩ := bind_eq_ok.mp h
    split_ifs at hslice with hbounds
    exact ⟨hbounds.1, hbounds.2.1⟩
  · intro hbounds
    rw [if_pos ⟨hbounds.1, hbounds.2, le_rfl⟩]
    exact ⟨_, rfl⟩

/-- A frame that wraps is skipped by a number of bytes below zero. -/
theorem parseStream_wraps (hhead : sb.head = some head) (h : Wraps head.buf messageType) :
    parseStream bson rounds m sb messageType
      = .ok (⟨.ignore, [], (BinaryDecoder.new head.buf).lEndianBytesToInt⟩, m) := by
  have hlo := (lEndianBytesToInt_bounds (BinaryDecoder.new head.buf)).1
  have hlow := h.low
  have hfits := h.fits
  have hheader := h.header
  have hstr : ((BinaryDecoder.new head.buf).taking 16).str.length = head.buf.length - 16 :=
    List.length_drop
  have hcut : intOf 32 ((BinaryDecoder.new head.buf).lEndianBytesToInt - 16)
      = (BinaryDecoder.new head.buf).lEndianBytesToInt - 16 + 2 ^ 32 :=
    intOf_of_low (by omega) (by omega)
  obtain ⟨d', hd'⟩ := (removePrefix_eq_ok_iff (d := (BinaryDecoder.new head.buf).taking 16)
    (intOf 32 ((BinaryDecoder.new head.buf).lEndianBytesToInt - 16))).mpr
      ⟨by rw [hcut]; omega, by rw [hcut, hstr]; omega⟩
  rw [parseStream_skip hhead h.typed h.header h.skipped h.complete, hd']

/-- A frame to skip that does not wrap has the length of its prefix. -/
theorem skip_read (hlen : 16 ≤ head.buf.length)
    (hcut : ((BinaryDecoder.new head.buf).taking 16).removePrefix
      (intOf 32 ((BinaryDecoder.new head.buf).lEndianBytesToInt - 16)) = .ok d')
    (hwraps : ¬ ((BinaryDecoder.new head.buf).lEndianBytesToInt < -2 ^ 31 + 16
      ∧ (BinaryDecoder.new head.buf).lEndianBytesToInt + 2 ^ 32 ≤ head.buf.length)) :
    1 ≤ (BinaryDecoder.new head.buf).lEndianBytesToInt
      ∧ (BinaryDecoder.new head.buf).lEndianBytesToInt ≤ head.buf.length := by
  obtain ⟨hlo, hhi⟩ := lEndianBytesToInt_bounds (BinaryDecoder.new head.buf)
  have hstr : ((BinaryDecoder.new head.buf).taking 16).str.length = head.buf.length - 16 :=
    List.length_drop
  obtain ⟨hpos, hle⟩ := (removePrefix_eq_ok_iff _).mp ⟨d', hcut⟩
  rw [hstr] at hle
  by_cases hlow : (BinaryDecoder.new head.buf).lEndianBytesToInt < -2 ^ 31 + 16
  -- The difference wraps, and then the prefix is longer than the head.
  · rw [intOf_of_low (by omega) (by omega)] at hle
    exact absurd ⟨hlow, by omega⟩ hwraps
  · rw [intOf_of_lt (by omega) (by omega)] at hpos hle
    omega

/-- A finished frame is `Invalid`, or has the state and the bytes it is given. -/
theorem finishFrame_result (m : State) (sb : StreamBuffer) (head : Buffer)
    (messageType : MessageType) (state : ParseState) (frame : MongoDBFrame) (d : BinaryDecoder) :
    (finishFrame m sb head messageType state frame d).1.parseState = .invalid
      ∨ (finishFrame m sb head messageType state frame d).1.parseState = state
        ∧ (finishFrame m sb head messageType state frame d).1.readBytes = d.readBytes := by
  unfold finishFrame
  rcases createFrameBase sb head d.readBytes with _ | fb
  · exact Or.inl rfl
  · exact Or.inr ⟨rfl, rfl⟩

/-- **The frames read lie in the head, except for the one that wraps**, on every input. -/
theorem parseStream_read_iff (hhead : sb.head = some head) :
    (∀ r m', parseStream bson rounds m sb messageType = .ok (r, m') →
        r.parseState = .success ∨ r.parseState = .ignore →
        1 ≤ r.readBytes ∧ r.readBytes ≤ head.len)
      ↔ ¬ Wraps head.buf messageType := by
  constructor
  · intro hread hwraps
    have hread := hread _ _ (parseStream_wraps hhead hwraps) (Or.inr rfl)
    have hlow := hwraps.low
    dsimp only at hread
    omega
  · intro hwraps r m' h hstate
    rw [Buffer.len]
    unfold parseStream at h
    rw [hhead] at h
    dsimp only at h
    split at h
    · cases h
      simp at hstate
    rename_i htyped
    split at h
    · cases h
      simp at hstate
    rename_i hsize
    split at h
    · cases h
      simp at hstate
    rename_i hcomplete
    have hlen : 16 ≤ head.buf.length := by
      unfold BinaryDecoder.getSize BinaryDecoder.new kHeaderLength at hsize
      dsimp only at hsize
      omega
    rw [extractHeader_eq hlen] at h
    dsimp only at h
    split at h
    · cases h
      simp at hstate
    rename_i hknown
    split at h
    · rename_i hskipped
      split at h
      · cases h
      · rename_i d' hcut
        cases h
        apply skip_read hlen hcut
        rintro ⟨hlow, hfits⟩
        refine hwraps ⟨?_, hlen, ⟨by simpa using hknown, hskipped⟩, hlow, not_lt.mp hcomplete, hfits⟩
        -- The type was checked first.
        by_contra hother
        exact htyped (not_or.mp hother)
    · split at h
      · cases h
      · rename_i frame' d' hpayload
        have hr : (finishFrame m sb head messageType .invalid frame' d').1 = r :=
          congrArg Prod.fst (Except.ok.inj h)
        rcases finishFrame_result m sb head messageType .invalid frame' d' with hnone | ⟨hsame, -⟩
        · rw [hr] at hnone
          rw [hnone] at hstate
          simp at hstate
        · rw [hr] at hsame
          rw [hsame] at hstate
          simp at hstate
      · rename_i frame' d' hpayload
        have hr : (finishFrame m sb head messageType .success frame' d').1 = r :=
          congrArg Prod.fst (Except.ok.inj h)
        rcases finishFrame_result m sb head messageType .success frame' d' with hnone | ⟨-, hbytes⟩
        · rw [hr] at hnone
          rw [hnone] at hstate
          simp at hstate
        · have hheader : BinaryDecoder.Advances 16 (BinaryDecoder.new head.buf)
              ((BinaryDecoder.new head.buf).taking 16) := BinaryDecoder.taking_advances hlen
          have hread := (hheader.trans (processOpMsg_advances hpayload)).read_le
          rw [← hr, hbytes]
          omega

end Kyanos.Mongo
