/-
The frames of RocketMQ, and what `ParseStream` and `FindBoundary` make of them.

A frame is its length, which does not count itself, the kind and the length of its header, the
header and the body. The parser finds the header where it is, and reads a binary one field by field
(`parseStream_binary`). The end of the body and the number of bytes read are taken relative to the
length, as if it counted itself: the body loses its last four bytes, and the frame is reported four
bytes short. So no frame at all is read as a whole (`parseStream_never_inverts`).

The requests that wait for a response are meant to be in `requestOpaqueMap`, but nothing puts them
there. So a response is never the boundary that is looked for (`run_finds_no_response`).
-/
import Kyanos.RocketMQ

set_option autoImplicit false

open Trace

namespace Kyanos.RocketMQ

/-! ## What a peer writes -/

/-- A header in the binary form. -/
structure BinaryHeader where
  code : BitVec 16
  language : UInt8
  version : BitVec 16
  opaqueId : BitVec 32
  flag : BitVec 32
  remark : GoString
  properties : GoString

def BinaryHeader.bytes (h : BinaryHeader) : GoString :=
  beBytes 2 h.code.toNat ++ ([h.language] ++ (beBytes 2 h.version.toNat
    ++ (beBytes 4 h.opaqueId.toNat ++ (beBytes 4 h.flag.toNat ++ (beBytes 4 h.remark.length
    ++ (h.remark ++ (beBytes 4 h.properties.length ++ h.properties)))))))

inductive HeaderData
  | json (data : GoString)
  | binary (h : BinaryHeader)

def HeaderData.bytes : HeaderData → GoString
  | .json data => data
  | .binary h => h.bytes

def HeaderData.serializedType : HeaderData → ℕ
  | .json _ => 0
  | .binary _ => 1

structure Frame where
  header : HeaderData
  body : GoString
  headerFits : header.bytes.length < 2 ^ 24
  fits : 4 + header.bytes.length + body.length < 2 ^ 32

/-- The length in the frame: that of all that stands behind it. -/
def Frame.length (frame : Frame) : ℕ := 4 + frame.header.bytes.length + frame.body.length

def Frame.bytes (frame : Frame) : GoString :=
  beBytes 4 frame.length
    ++ (beBytes 4 (frame.header.serializedType * 2 ^ 24 + frame.header.bytes.length)
    ++ (frame.header.bytes ++ frame.body))

/-- What the message of a binary header has to be. -/
structure BinaryHeader.Read (h : BinaryHeader) (m : RocketMQMessage) : Prop where
  code : m.requestCode = h.code.toInt
  version : m.versionFlag = h.version.toInt
  opaqueId : m.opaqueId = h.opaqueId.toInt
  flag : m.requestFlag = h.flag.toInt
  remark : m.remarkBuf = h.remark
  properties : m.propertiesBuf = h.properties

/-- The frame is read as a whole. -/
def Frame.Inverted (frame : Frame) (result : Except Panic (ParseResult RocketMQMessage)) : Prop :=
  ∃ m : ParsedMessage RocketMQMessage, result = .ok ⟨.success, [m], 4 + frame.length⟩
    ∧ m.payload.bodyBuf = frame.body ∧ ∀ h, frame.header = .binary h → h.Read m.payload

/-! ## Reading along a message -/

section Reading

variable {msg front tail : GoString}

theorem uint32At_along {x : ℕ} (h : msg = front ++ (beBytes 4 x ++ tail)) (hx : x < 2 ^ 32) :
    uint32At msg front.length = .ok x ∧ msg = (front ++ beBytes 4 x) ++ tail := by
  have hslice := slice_middle front (beBytes 4 x) tail
  have hlen : ((front ++ beBytes 4 x).length : ℤ) = front.length + 4 := by
    rw [List.length_append, beBytes_length]
    rfl
  rw [← h, hlen] at hslice
  refine ⟨?_, by rw [h, List.append_assoc]⟩
  rw [uint32At, hslice, ok_bind, bigEndian_beBytes, Nat.mod_eq_of_lt (by simpa using hx)]

theorem uint16At_along {x : ℕ} (h : msg = front ++ (beBytes 2 x ++ tail)) (hx : x < 2 ^ 16) :
    uint16At msg front.length = .ok x ∧ msg = (front ++ beBytes 2 x) ++ tail := by
  have hslice := slice_middle front (beBytes 2 x) tail
  have hlen : ((front ++ beBytes 2 x).length : ℤ) = front.length + 2 := by
    rw [List.length_append, beBytes_length]
    rfl
  rw [← h, hlen] at hslice
  refine ⟨?_, by rw [h, List.append_assoc]⟩
  rw [uint16At, hslice, ok_bind, bigEndian_beBytes, Nat.mod_eq_of_lt (by simpa using hx)]

theorem byteAt_along {b : UInt8} (h : msg = front ++ ([b] ++ tail)) :
    byteAt msg front.length = .ok b ∧ msg = (front ++ [b]) ++ tail := by
  refine ⟨?_, by rw [h, List.append_assoc]⟩
  rw [h]
  exact byteAt_append front b tail

theorem slice_along {mid : GoString} (h : msg = front ++ (mid ++ tail)) :
    slice msg front.length (front ++ mid).length = .ok mid ∧ msg = (front ++ mid) ++ tail := by
  refine ⟨?_, by rw [h, List.append_assoc]⟩
  rw [h]
  exact slice_middle front mid tail

end Reading

/-! ## Headers -/

theorem BinaryHeader.bytes_length (h : BinaryHeader) :
    h.bytes.length = 21 + h.remark.length + h.properties.length := by
  unfold BinaryHeader.bytes
  simp only [List.length_append, List.length_singleton, beBytes_length]
  omega

/-- The remark and the properties are read, whatever is behind the header. -/
theorem binaryTail_bytes {h : BinaryHeader} {behind : List UInt8} {cap : ℤ}
    (hfits : h.bytes.length < 2 ^ 24) (hcap : (h.bytes.length : ℤ) ≤ cap) :
    binaryTail h.bytes behind cap = .ok (some (h.remark, h.properties)) := by
  have hlen := h.bytes_length
  obtain ⟨front, hfront⟩ : ∃ front, front = beBytes 2 h.code.toNat ++ ([h.language]
      ++ (beBytes 2 h.version.toNat ++ (beBytes 4 h.opaqueId.toNat ++ beBytes 4 h.flag.toNat))) :=
    ⟨_, rfl⟩
  have hthirteen : front.length = 13 := by
    rw [hfront]
    simp only [List.length_append, List.length_singleton, beBytes_length]
  have hbytes : h.bytes = front ++ (beBytes 4 h.remark.length
      ++ (h.remark ++ (beBytes 4 h.properties.length ++ h.properties))) := by
    rw [hfront]
    unfold BinaryHeader.bytes
    simp only [List.append_assoc]
  obtain ⟨hremark, h₁⟩ := uint32At_along hbytes (by omega)
  obtain ⟨hslice, h₂⟩ := slice_along h₁
  have h₂' : h.bytes = (front ++ beBytes 4 h.remark.length ++ h.remark)
      ++ (beBytes 4 h.properties.length ++ h.properties) := h₂
  obtain ⟨hproperties, h₃⟩ := uint32At_along h₂' (by omega)
  have hrest := slice_append (front ++ beBytes 4 h.remark.length ++ h.remark)
    (beBytes 4 h.properties.length ++ h.properties)
  rw [← h₂'] at hrest
  have hat : ((front ++ beBytes 4 h.remark.length).length : ℤ) = 17 := by
    rw [List.length_append, beBytes_length, hthirteen]
    rfl
  have hstart : ((front ++ beBytes 4 h.remark.length ++ h.remark).length : ℤ)
      = 17 + h.remark.length := by
    rw [List.length_append]
    push_cast
    rw [hat]
  have hremarkLength : intOf 32 (h.remark.length : ℤ) = h.remark.length :=
    intOf_of_lt (by omega) (by omega)
  have hpropertiesLength : intOf 32 (h.properties.length : ℤ) = h.properties.length :=
    intOf_of_lt (by omega) (by omega)
  have hend : intOf 32 (17 + (h.remark.length : ℤ) + 4 + h.properties.length)
      = 17 + h.remark.length + 4 + h.properties.length := intOf_of_lt (by omega) (by omega)
  rw [hat, hstart] at hslice
  rw [hstart] at hproperties hrest
  rw [hthirteen] at hremark
  unfold binaryTail
  rw [show (13 : ℤ) = (13 : ℕ) from rfl, hremark, ok_bind]
  dsimp only
  rw [hremarkLength, if_neg (by omega), hslice, ok_bind, hrest, ok_bind, if_neg (by
    rw [List.length_append, beBytes_length]
    omega), hproperties, ok_bind]
  rw [hpropertiesLength, hend, if_pos ⟨by omega, by omega, by omega⟩]
  -- Behind the length of the properties there are as many bytes as it says.
  have hdrop : (17 + (h.remark.length : ℤ) + 4).toNat
      = ((front ++ beBytes 4 h.remark.length ++ h.remark) ++ beBytes 4 h.properties.length).length := by
    rw [List.length_append, beBytes_length]
    omega
  have htake : (17 + (h.remark.length : ℤ) + 4 + h.properties.length
      - (17 + h.remark.length + 4)).toNat = h.properties.length := by
    omega
  have hcut : (h.bytes ++ behind).drop (17 + (h.remark.length : ℤ) + 4).toNat
      = h.properties ++ behind := by
    rw [hdrop, h₃, List.append_assoc _ h.properties behind, List.drop_left]
  rw [hcut, htake, List.take_left]

/-- **A binary header is read field by field.** -/
theorem parseHeader_binary {jsonHeader : GoString → Option JsonHeader} {h : BinaryHeader}
    {behind : List UInt8} {cap : ℤ} (hfits : h.bytes.length < 2 ^ 24)
    (hcap : (h.bytes.length : ℤ) ≤ cap) :
    ∃ m, parseHeader jsonHeader h.bytes behind cap 1 = .ok (some m) ∧ h.Read m := by
  have hbytes : h.bytes = [] ++ (beBytes 2 h.code.toNat ++ ([h.language] ++ (beBytes 2 h.version.toNat
      ++ (beBytes 4 h.opaqueId.toNat ++ (beBytes 4 h.flag.toNat ++ (beBytes 4 h.remark.length
      ++ (h.remark ++ (beBytes 4 h.properties.length ++ h.properties)))))))) := rfl
  obtain ⟨hcode, h₁⟩ := uint16At_along hbytes h.code.isLt
  obtain ⟨hlanguage, h₂⟩ := byteAt_along h₁
  obtain ⟨hversion, h₃⟩ := uint16At_along h₂ h.version.isLt
  obtain ⟨hid, h₄⟩ := uint32At_along h₃ h.opaqueId.isLt
  obtain ⟨hflag, -⟩ := uint32At_along h₄ h.flag.isLt
  simp only [List.nil_append, List.length_append, List.length_singleton, List.length_nil,
    beBytes_length] at hcode hlanguage hversion hid hflag
  have hcode' : uint16At h.bytes 0 = _ := hcode
  have hlanguage' : byteAt h.bytes 2 = _ := hlanguage
  have hversion' : uint16At h.bytes 3 = _ := hversion
  have hid' : uint32At h.bytes 5 = _ := hid
  have hflag' : uint32At h.bytes 9 = _ := hflag
  refine ⟨{ base := ⟨0, 0, 0⟩, requestCode := intOf 16 h.code.toNat
            languageCode := convertToLanguageCodeFromByte h.language
            versionFlag := intOf 16 h.version.toNat, opaqueId := intOf 32 h.opaqueId.toNat
            requestFlag := intOf 32 h.flag.toNat, remarkBuf := h.remark
            propertiesBuf := h.properties, isReq := false }, ?_, ?_⟩
  · unfold parseHeader
    rw [if_neg (by decide), if_pos rfl, if_neg (by rw [h.bytes_length]; omega), hcode', ok_bind,
      hlanguage', ok_bind, hversion', ok_bind, hid', ok_bind, hflag', ok_bind,
      binaryTail_bytes hfits hcap]
    rfl
  · refine ⟨?_, ?_, ?_, ?_, rfl, rfl⟩
    · dsimp only
      rw [intOf_toNat]
    · dsimp only
      rw [intOf_toNat]
    · dsimp only
      rw [intOf_toNat]
    · dsimp only
      rw [intOf_toNat]

/-! ## Frames -/

variable {jsonHeader : GoString → Option JsonHeader} {spare : ℕ} {sb : StreamBuffer} {head : Buffer}
  {messageType : MessageType} {frame : Frame} {suffix : GoString} {r : ParseResult RocketMQMessage}

theorem Frame.bytes_length (frame : Frame) : frame.bytes.length = 4 + frame.length := by
  unfold Frame.bytes Frame.length
  simp only [List.length_append, beBytes_length]
  omega

theorem HeaderData.serializedType_le (header : HeaderData) : header.serializedType ≤ 1 := by
  rcases header with _ | _
  · exact Nat.zero_le 1
  · exact le_rfl

/-- The header of a frame is found where it is. -/
theorem parseStream_frame (hhead : sb.head = some head) (hbuf : head.buf = frame.bytes ++ suffix) :
    parseStream jsonHeader spare sb messageType
      = (parseHeader jsonHeader frame.header.bytes (frame.body ++ suffix)
          (head.buf.length - 8 + spare) frame.header.serializedType
        >>= finishFrame sb head messageType frame.header.bytes.length frame.length) := by
  have hfits := frame.fits
  have hheader := frame.headerFits
  have htype := frame.header.serializedType_le
  have hlength : frame.length = 4 + frame.header.bytes.length + frame.body.length := rfl
  have hlen : head.buf.length = 4 + frame.length + suffix.length := by
    rw [hbuf, List.length_append, frame.bytes_length]
  have h₀ : head.buf = [] ++ (beBytes 4 frame.length
      ++ (beBytes 4 (frame.header.serializedType * 2 ^ 24 + frame.header.bytes.length)
      ++ (frame.header.bytes ++ (frame.body ++ suffix)))) := by
    rw [hbuf, Frame.bytes, List.nil_append, List.append_assoc, List.append_assoc, List.append_assoc]
  obtain ⟨hframe, h₁⟩ := uint32At_along h₀ (by omega)
  obtain ⟨hword, h₂⟩ := uint32At_along h₁ (by omega)
  obtain ⟨hslice, h₃⟩ := slice_along h₂
  have hend : ((8 : ℤ) + frame.header.bytes.length).toNat = ([] ++ beBytes 4 frame.length
      ++ beBytes 4 (frame.header.serializedType * 2 ^ 24 + frame.header.bytes.length)
      ++ frame.header.bytes).length := by
    simp only [List.length_append, List.length_nil, beBytes_length]
    omega
  have hbehind : head.buf.drop ((8 : ℤ) + frame.header.bytes.length).toNat
      = frame.body ++ suffix := by
    rw [hend, h₃, List.drop_left]
  simp only [List.nil_append, List.length_nil, beBytes_length] at hframe hword
  have hframe' : uint32At head.buf 0 = _ := hframe
  have hword' : uint32At head.buf 4 = _ := hword
  have hslice' : slice head.buf 8 (8 + frame.header.bytes.length) = .ok frame.header.bytes := by
    have hto : (([] ++ beBytes 4 frame.length
        ++ beBytes 4 (frame.header.serializedType * 2 ^ 24 + frame.header.bytes.length)
        ++ frame.header.bytes).length : ℤ) = 8 + frame.header.bytes.length := by
      rw [← hend]
      omega
    rw [hto] at hslice
    exact hslice
  have hmod : (frame.header.serializedType * 2 ^ 24 + frame.header.bytes.length) % 2 ^ 24
      = frame.header.bytes.length := by
    omega
  have hdiv : (frame.header.serializedType * 2 ^ 24 + frame.header.bytes.length) / 2 ^ 24 % 256
      = frame.header.serializedType := by
    omega
  unfold parseStream
  rw [hhead]
  dsimp only
  rw [if_neg (by omega), hframe', ok_bind]
  rw [if_neg (by omega), if_neg (by omega), hword', ok_bind, hmod, hdiv, if_neg (by omega), hslice',
    ok_bind, hbehind]

/-- The body loses its last four bytes. A body of one to three bytes has not as many. -/
theorem cutBody_frame (hbuf : head.buf = frame.bytes ++ suffix) :
    cutBody head.buf frame.header.bytes.length frame.length
      = if frame.body = [] ∨ 4 ≤ frame.body.length then
          .ok (frame.body.take (frame.body.length - 4))
        else .error .sliceOutOfRange := by
  have hlength : frame.length = 4 + frame.header.bytes.length + frame.body.length := rfl
  have hlen : head.buf.length = 4 + frame.length + suffix.length := by
    rw [hbuf, List.length_append, frame.bytes_length]
  unfold cutBody
  rcases List.eq_nil_or_concat frame.body with hnil | ⟨front, last, hconcat⟩
  · have hzero : frame.body.length = 0 := by
      rw [hnil]
      rfl
    rw [if_neg (by omega), if_pos (Or.inl hnil), hnil]
    rfl
  have hpos : frame.body.length ≠ 0 := by
    rw [hconcat]
    simp
  have hne : frame.body ≠ [] := fun hnil => hpos (by rw [hnil]; rfl)
  rw [if_pos (by omega)]
  by_cases hfour : 4 ≤ frame.body.length
  · rw [if_pos (Or.inr hfour), slice, if_pos ⟨by omega, by omega, by omega⟩]
    have hdrop : head.buf.drop ((8 : ℤ) + frame.header.bytes.length).toNat = frame.body ++ suffix := by
      have hfront : head.buf = (beBytes 4 frame.length
          ++ beBytes 4 (frame.header.serializedType * 2 ^ 24 + frame.header.bytes.length)
          ++ frame.header.bytes) ++ (frame.body ++ suffix) := by
        rw [hbuf, Frame.bytes]
        simp only [List.append_assoc]
      rw [hfront]
      refine List.drop_left' ?_
      simp only [List.length_append, beBytes_length]
      omega
    have hcount : ((frame.length : ℤ) - (8 + frame.header.bytes.length)).toNat
        = frame.body.length - 4 := by
      omega
    rw [hdrop, hcount, List.take_append_of_le_length (by omega)]
  · rw [if_neg (by
      rintro (hnil | hle)
      · exact hne hnil
      · exact hfour hle), slice, if_neg (by omega)]

/-- **What a binary frame is read as.** The fields of the header are right; the body and the number
of bytes are four bytes short. -/
theorem parseStream_binary {h : BinaryHeader} {fb : FrameBase} (hhead : sb.head = some head)
    (hbuf : head.buf = frame.bytes ++ suffix) (hbinary : frame.header = .binary h)
    (hbody : frame.body = [] ∨ 4 ≤ frame.body.length)
    (hbase : createFrameBase sb head frame.length = some fb) :
    ∃ m : ParsedMessage RocketMQMessage,
      parseStream jsonHeader spare sb messageType = .ok ⟨.success, [m], frame.length⟩
        ∧ h.Read m.payload ∧ m.payload.bodyBuf = frame.body.take (frame.body.length - 4) := by
  have hlen : head.buf.length = 8 + frame.header.bytes.length + frame.body.length + suffix.length := by
    rw [hbuf, List.length_append, frame.bytes_length, Frame.length]
    omega
  have hfits := frame.headerFits
  rw [hbinary] at hfits hlen
  obtain ⟨m, hparse, hread⟩ := @parseHeader_binary jsonHeader h (frame.body ++ suffix)
    (head.buf.length - 8 + spare) hfits (by
      change head.buf.length = 8 + h.bytes.length + _ + _ at hlen
      omega)
  have hcall : parseHeader jsonHeader frame.header.bytes (frame.body ++ suffix)
      (head.buf.length - 8 + spare) frame.header.serializedType = .ok (some m) := by
    rw [hbinary]
    exact hparse
  rw [parseStream_frame hhead hbuf, hcall, ok_bind, finishFrame, cutBody_frame hbuf, if_pos hbody,
    ok_bind, hbase]
  exact ⟨_, rfl, ⟨hread.code, hread.version, hread.opaqueId, hread.flag, hread.remark,
    hread.properties⟩, rfl⟩

/-- A frame that is read at all is read four bytes short. -/
theorem parseStream_readBytes (hhead : sb.head = some head) (hbuf : head.buf = frame.bytes ++ suffix)
    (h : parseStream jsonHeader spare sb messageType = .ok r) : r.readBytes = frame.length := by
  rw [parseStream_frame hhead hbuf] at h
  obtain ⟨message, -, h⟩ := bind_eq_ok.mp h
  exact finishFrame_readBytes h

/-- **No frame is read as a whole**, whatever its header, its body and what follows it. -/
theorem parseStream_never_inverts (jsonHeader : GoString → Option JsonHeader) (spare : ℕ)
    (sb : StreamBuffer) (messageType : MessageType) (head : Buffer) (frame : Frame)
    (suffix : GoString) (hhead : sb.head = some head) (hbuf : head.buf = frame.bytes ++ suffix) :
    ¬ frame.Inverted (parseStream jsonHeader spare sb messageType) := by
  rintro ⟨m, hparse, -⟩
  have hread := parseStream_readBytes hhead hbuf hparse
  dsimp only at hread
  omega

/-- A request of code 10 with an empty body. -/
def sampleFrame : Frame where
  header := .binary ⟨10, 0, 300, 7, 0, [], []⟩
  body := []
  headerFits := by decide
  fits := by decide

theorem parseStream_never_inverts_sample :
    ¬ sampleFrame.Inverted (parseStream (fun _ => none) 0 (bufferOf sampleFrame.bytes) .request) := by
  refine parseStream_never_inverts _ 0 _ .request ⟨sampleFrame.bytes, 0⟩ sampleFrame [] rfl ?_
  exact (List.append_nil _).symm

/-- The request is reported as one of 25 bytes, and it has 29. -/
theorem frame_not_inverted :
    ¬ ∀ (jsonHeader : GoString → Option JsonHeader) (spare : ℕ) (sb : StreamBuffer)
      (messageType : MessageType) (head : Buffer) (frame : Frame) (suffix : GoString),
      sb.head = some head → head.buf = frame.bytes ++ suffix →
        frame.Inverted (parseStream jsonHeader spare sb messageType) := by
  intro h
  obtain ⟨m, hparse, -⟩ := h (fun _ => none) 0 (bufferOf sampleFrame.bytes) .request
    ⟨sampleFrame.bytes, 0⟩ sampleFrame [] rfl (List.append_nil _).symm
  have hread : (parseStream (fun _ => none) 0 (bufferOf sampleFrame.bytes) .request).map
      ParseResult.readBytes = .ok 25 := by decide +kernel
  rw [hparse] at hread
  have hlength : (4 : ℤ) + sampleFrame.length = 25 := Except.ok.inj hread
  exact absurd hlength (by decide)

/-! ## Looking for a response -/

/-- A parser with its queues. The requests it has returned and the records it has made are kept
beside them. -/
structure Session where
  parser : State
  reqStream : List RocketMQMessage
  respStream : List RocketMQMessage
  returned : List RocketMQMessage
  records : List (Record Message)

/-- The parser that `ParsersMap` makes, with empty queues. -/
def Session.new : Session :=
  { parser := { requestOpaqueMap := SortedMap.empty }
    reqStream := [], respStream := [], returned := [], records := [] }

inductive Call
  | parseStream (sb : StreamBuffer) (messageType : MessageType)
  | matchStreams (now : ℤ)

/-- The messages of a parse go to the queue of their type. -/
def Session.push (s : Session) (messageType : MessageType) (messages : List RocketMQMessage) :
    Session :=
  if messageType = .request then
    { s with reqStream := s.reqStream ++ messages, returned := s.returned ++ messages }
  else { s with respStream := s.respStream ++ messages }

def Session.step (jsonHeader : GoString → Option JsonHeader) (spare : ℕ) (s : Session) :
    Call → Except Panic Session
  | .parseStream sb messageType => do
      let r ← RocketMQ.parseStream jsonHeader spare sb messageType
      .ok (s.push messageType (r.parsedMessages.map ParsedMessage.payload))
  | .matchStreams now =>
      let (parser, records, reqStream, respStream) :=
        RocketMQ.matchStreams now s.parser s.reqStream s.respStream
      .ok { s with
        parser := parser, reqStream := reqStream, respStream := respStream
        records := s.records ++ records }

/-- A request of this opaque id was returned, and is in no record. -/
def Session.Awaits (s : Session) (opaqueId : ℤ) : Prop :=
  ∃ req ∈ s.returned, req.opaqueId = opaqueId
    ∧ ∀ record ∈ s.records, record.req ≠ some (.rocketMQ req)

/-- The opaque id in a header. -/
def HeaderData.opaqueId? (jsonHeader : GoString → Option JsonHeader) : HeaderData → Option ℤ
  | .json data => (jsonHeader data).map JsonHeader.opaqueId
  | .binary h => some h.opaqueId.toInt

/-- The opaque id is in the map. -/
def State.Knows (r : State) (opaqueId : ℤ) : Prop :=
  (r.requestOpaqueMap.get? opaqueId).isSome

theorem matchLoop_knows {r : State} {reqMap : SortedMap ℤ RocketMQMessage}
    {records : List (Record Message)} {respStream : List RocketMQMessage} {k : ℤ}
    (h : (matchLoop r reqMap records respStream).1.Knows k) : r.Knows k := by
  induction respStream generalizing r reqMap records with
  | nil => exact h
  | cons resp respStream ih =>
      rw [matchLoop] at h
      rcases hreq : reqMap.get? resp.opaqueId with _ | req
      · rw [hreq] at h
        exact ih h
      · rw [hreq] at h
        have hknows := ih h
        unfold State.Knows at hknows ⊢
        rw [SortedMap.get?_remove] at hknows
        split_ifs at hknows
        · cases hknows
        · exact hknows

/-- Nothing is ever put into the map. -/
theorem run_knows_nothing {calls : List Call} {s : Session}
    (hrun : Run (Session.step jsonHeader spare) (fun _ _ => True) Session.new calls s) (k : ℤ) :
    ¬ s.parser.Knows k := by
  refine hrun.invariant (I := fun s => ¬ s.parser.Knows k) ?_ ?_
  · simp [Session.new, State.Knows]
  · rintro s (⟨sb, messageType⟩ | now) s' hnot - hstep
    · obtain ⟨r, -, hstep⟩ := bind_eq_ok.mp hstep
      cases hstep
      unfold Session.push
      split_ifs
      · exact hnot
      · exact hnot
    · cases hstep
      exact fun h => hnot (matchLoop_knows h)

/-- Without the opaque id of a request no position is the boundary of a response. -/
theorem probe_response {state : State} {buf : List UInt8} {i : ℤ} {answer : Probe}
    (hnone : ∀ k, ¬ state.Knows k) (h : probe state .response buf i = .ok answer) :
    answer ≠ .found := by
  obtain ⟨frameSize, -, h⟩ := bind_eq_ok.mp h
  split at h
  · cases h
    simp
  split at h
  · cases h
    simp
  obtain ⟨headerLength, -, h⟩ := bind_eq_ok.mp h
  dsimp only at h
  split at h
  · cases h
    simp
  split at h
  · cases h
    simp
  obtain ⟨accepted, -, h⟩ := bind_eq_ok.mp h
  split at h
  · cases h
    simp
  rw [if_pos rfl] at h
  split at h
  · cases h
    simp
  obtain ⟨opaqueId, -, h⟩ := bind_eq_ok.mp h
  have hunknown : ¬ (state.requestOpaqueMap.get? (intOf 32 opaqueId)).isSome = true := hnone _
  rw [if_neg hunknown] at h
  cases h
  simp

/-- **A response is never found**: in no state of a run, in no buffer and from no position. -/
theorem run_finds_no_response {jsonHeader : GoString → Option JsonHeader} {spare : ℕ}
    {calls : List Call} {s : Session}
    (hrun : Run (Session.step jsonHeader spare) (fun _ _ => True) Session.new calls s)
    (sb : StreamBuffer) (startPos i : ℤ) :
    ¬ ∃ pos, findBoundary s.parser sb .response startPos = .ok pos ∧ pos ≠ -1 ∧ pos ≤ i := by
  rintro ⟨pos, hfind, hne, -⟩
  unfold findBoundary at hfind
  split at hfind
  · cases hfind
  · refine hne (scan_none ?_ hfind)
    intro j answer hprobe
    exact probe_response (run_knows_nothing hrun) hprobe

/-- The response to `sampleFrame`. -/
def sampleResponse : Frame where
  header := .binary ⟨10, 0, 300, 7, 1, [], []⟩
  body := []
  headerFits := by decide
  fits := by decide

/-- A session in which `sampleFrame` was parsed, and nothing was matched yet. -/
theorem awaiting_run : ∃ s, Run (Session.step (fun _ => none) 0) (fun _ _ => True) Session.new
    [.parseStream (bufferOf sampleFrame.bytes) .request] s ∧ s.Awaits 7 := by
  obtain ⟨m, hparse, hread, -⟩ := @parseStream_binary (fun _ => none) 0 (bufferOf sampleFrame.bytes)
    ⟨sampleFrame.bytes, 0⟩ .request sampleFrame [] ⟨10, 0, 300, 7, 0, [], []⟩ ⟨1, 25, 0⟩ rfl
    (List.append_nil _).symm rfl (Or.inl rfl) (by decide +kernel)
  refine ⟨Session.new.push .request [m.payload],
    Run.nil.snoc (i := Call.parseStream (bufferOf sampleFrame.bytes) .request) trivial ?_, ?_⟩
  · change (parseStream (fun _ => none) 0 (bufferOf sampleFrame.bytes) .request >>= _) = _
    rw [hparse]
    rfl
  · refine ⟨m.payload, List.mem_singleton.mpr rfl, hread.opaqueId.trans (by decide), ?_⟩
    intro record hrecord
    cases hrecord

theorem run_finds_no_response_sample : ∃ s : Session, s.Awaits 7
    ∧ ¬ ∃ pos, findBoundary s.parser (bufferOf sampleResponse.bytes) .response 0 = .ok pos
      ∧ pos ≠ -1 ∧ pos ≤ 0 := by
  obtain ⟨s, hrun, hawaits⟩ := awaiting_run
  exact ⟨s, hawaits, run_finds_no_response hrun (bufferOf sampleResponse.bytes) 0 0⟩

/-- The response to a request that was parsed stands at the front of the buffer, and is not found. -/
theorem response_not_found :
    ¬ ∀ (jsonHeader : GoString → Option JsonHeader) (spare : ℕ) (calls : List Call) (s : Session)
      (frame : Frame) (k : ℤ) (sb : StreamBuffer) (head : Buffer) (front tail : GoString)
      (startPos : ℕ),
      Run (Session.step jsonHeader spare) (fun _ _ => True) Session.new calls s →
      frame.header.opaqueId? jsonHeader = some k → s.Awaits k → sb.head = some head →
      head.buf = front ++ (frame.bytes ++ tail) → 20 ≤ frame.bytes.length →
      startPos ≤ front.length →
        ∃ pos, findBoundary s.parser sb .response startPos = .ok pos ∧ pos ≠ -1
          ∧ pos ≤ front.length := by
  intro h
  obtain ⟨s, hrun, hawaits⟩ := awaiting_run
  have hbytes : sampleResponse.bytes = [] ++ (sampleResponse.bytes ++ []) := by simp
  obtain ⟨pos, hfind, hne, -⟩ := h (fun _ => none) 0 _ s sampleResponse 7
    (bufferOf sampleResponse.bytes) ⟨sampleResponse.bytes, 0⟩ [] [] 0 hrun rfl hawaits rfl hbytes
    (by decide) le_rfl
  have hnone : ∀ j answer, probe s.parser .response sampleResponse.bytes j = .ok answer →
      answer ≠ .found := fun j answer hprobe => probe_response (run_knows_nothing hrun) hprobe
  exact hne (scan_none hnone hfind)

end Kyanos.RocketMQ
