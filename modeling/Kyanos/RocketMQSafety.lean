/-
When `ParseStream` of the RocketMQ parser panics.

Five lengths of the wire select slices: those of the frame and of its header, and in a binary header
those of the remark and of the properties; the body is what is left. The length of the remark is
only compared from above, and that of the properties is not looked at, so a length below zero
reaches a slice, and properties may end behind the memory of the head. The end of the body is taken
four bytes too early, so a body of one to three bytes ends before it begins.

`FrameReadable` says of the bytes of the head that none of this is the case, and a frame is parsed
without a panic just when it holds (`parseStream_returns_iff`).
-/
import Kyanos.RocketMQFrames

set_option autoImplicit false

open Trace

namespace Kyanos.RocketMQ

/-! ## The lengths on the wire -/

/-- The number in the `n` bytes at a place. -/
def fieldAt (s : GoString) (i n : ℕ) : ℕ := bigEndian ((s.drop i).take n)

def remarkLength (headerBody : GoString) : ℤ := intOf 32 (fieldAt headerBody 13 4)

/-- The length of the properties stands behind the remark. -/
def propertiesLen (headerBody : GoString) : ℤ :=
  intOf 32 (fieldAt headerBody (17 + remarkLength headerBody).toNat 4)

def frameSize (buf : GoString) : ℕ := fieldAt buf 0 4

def headerDataLen (buf : GoString) : ℕ := fieldAt buf 4 4 % 2 ^ 24

def serializedType (buf : GoString) : ℕ := fieldAt buf 4 4 / 2 ^ 24 % 256

def headerBody (buf : GoString) : GoString := (buf.drop 8).take (headerDataLen buf)

/-! ## The condition -/

/-- The properties lie in the memory of a header, behind a remark of `n` bytes. -/
def PropertiesFit (headerBody : GoString) (cap : ℤ) (n : ℤ) : Prop :=
  0 ≤ propertiesLen headerBody ∧ 21 + n + propertiesLen headerBody < 2 ^ 31
    ∧ 21 + n + propertiesLen headerBody ≤ cap

/-- The remark of a binary header, if it is not too long, has no length below zero; and neither have
the properties, if there is room for their length, which end in the memory of the header. -/
def BinaryReadable (headerBody : GoString) (cap : ℤ) : Prop :=
  18 ≤ headerBody.length → 17 + remarkLength headerBody ≤ headerBody.length →
    0 ≤ remarkLength headerBody
      ∧ (21 + remarkLength headerBody ≤ headerBody.length →
        PropertiesFit headerBody cap (remarkLength headerBody))

/-- The header is not refused with an error. -/
def HeaderAccepted (jsonHeader : GoString → Option JsonHeader) (headerBody : GoString)
    (serializedType : ℕ) : Prop :=
  serializedType = 0 ∧ (jsonHeader headerBody).isSome
    ∨ serializedType = 1 ∧ 18 ≤ headerBody.length ∧ 21 + remarkLength headerBody ≤ headerBody.length

/-- A whole frame at the front has a readable header and, if the header is accepted, a body that is
empty or of four bytes at least. -/
def FrameReadable (jsonHeader : GoString → Option JsonHeader) (spare : ℕ) (buf : GoString) : Prop :=
  8 ≤ buf.length → 0 < frameSize buf → frameSize buf + 4 ≤ buf.length →
    4 + headerDataLen buf ≤ frameSize buf →
      (serializedType buf = 1 → BinaryReadable (headerBody buf) (buf.length - 8 + spare))
        ∧ (HeaderAccepted jsonHeader (headerBody buf) (serializedType buf) →
          frameSize buf = 4 + headerDataLen buf ∨ 8 + headerDataLen buf ≤ frameSize buf)

/-! ## Headers -/

section Headers

variable {jsonHeader : GoString → Option JsonHeader} {s header behind : GoString} {cap : ℤ} {i : ℕ}

theorem slice_field {n : ℕ} (h : i + n ≤ s.length) :
    slice s i (i + n) = .ok ((s.drop i).take n) := by
  rw [slice, if_pos ⟨by omega, by omega, by omega⟩, Int.toNat_natCast]
  congr 2
  omega

theorem uint32At_field (h : i + 4 ≤ s.length) : uint32At s i = .ok (fieldAt s i 4) := by
  have hslice : slice s i ((i : ℤ) + 4) = _ := slice_field h
  rw [uint32At, hslice]
  rfl

theorem uint16At_field (h : i + 2 ≤ s.length) : uint16At s i = .ok (fieldAt s i 2) := by
  have hslice : slice s i ((i : ℤ) + 2) = _ := slice_field h
  rw [uint16At, hslice]
  rfl

theorem byteAt_of_lt (h : i < s.length) : byteAt s i = .ok s[i] := by
  rw [byteAt, if_pos (by omega), Int.toNat_natCast, List.getElem?_eq_getElem h]

/-- The end of the properties is an `int32`, and is behind their start just when it does not wrap. -/
theorem propertiesEnd_iff {lo n : ℤ} (hlo : 0 ≤ lo) (hfits : lo < 2 ^ 25) (hn : -2 ^ 31 ≤ n)
    (hn' : n < 2 ^ 31) :
    lo ≤ intOf 32 (lo + n) ∧ intOf 32 (lo + n) ≤ cap ↔ 0 ≤ n ∧ lo + n < 2 ^ 31 ∧ lo + n ≤ cap := by
  by_cases hend : lo + n < 2 ^ 31
  · rw [intOf_of_lt (by omega) (by omega)]
    omega
  · have hwrap : intOf 32 (lo + n) = lo + n - 2 ^ 32 := by
      unfold intOf
      rw [Int.bmod_def]
      omega
    rw [hwrap]
    omega

/-! The four ways a binary header is cut up, by the length of its remark. -/

theorem binaryTail_remark (hlen : 18 ≤ header.length) :
    binaryTail header behind cap
      = if remarkLength header > (header.length : ℤ) - 17 then .ok none
        else (do
          let remarkBuf ← slice header 17 (17 + remarkLength header)
          let properties ← slice header (17 + remarkLength header) header.length
          if properties.length < 4 then .ok none
          else
            let propertiesLen ← uint32At header (17 + remarkLength header)
            let lo := 17 + remarkLength header + 4
            let hi := intOf 32 (lo + intOf 32 propertiesLen)
            if 0 ≤ lo ∧ lo ≤ hi ∧ hi ≤ cap then
              .ok (some (remarkBuf, ((header ++ behind).drop lo.toNat).take (hi - lo).toNat))
            else .error .sliceOutOfRange) := by
  have hremark : uint32At header 13 = .ok (fieldAt header 13 4) := uint32At_field (i := 13) (by omega)
  rw [binaryTail, hremark, ok_bind]
  rfl

theorem binaryTail_long (hlen : 18 ≤ header.length)
    (hlong : (header.length : ℤ) < 17 + remarkLength header) :
    binaryTail header behind cap = .ok none := by
  rw [binaryTail_remark hlen, if_pos (by omega)]

theorem binaryTail_negative (hlen : 18 ≤ header.length) (hneg : remarkLength header < 0) :
    binaryTail header behind cap = .error .sliceOutOfRange := by
  rw [binaryTail_remark hlen, if_neg (by omega), slice, if_neg (by omega), error_bind]

/-- A remark that fits, and what is behind it. -/
theorem binaryTail_fits {n : ℕ} (hn : remarkLength header = n)
    (hfits : 17 + n ≤ header.length) :
    slice header 17 (17 + remarkLength header) = .ok ((header.drop 17).take n)
      ∧ slice header (17 + remarkLength header) header.length = .ok (header.drop (17 + n)) := by
  rw [hn]
  refine ⟨slice_field (i := 17) hfits, ?_⟩
  rw [slice_rest (by omega) (by omega)]
  congr 2

theorem binaryTail_short {n : ℕ} (hlen : 18 ≤ header.length) (hn : remarkLength header = n)
    (hfits : 17 + n ≤ header.length) (hshort : header.length < 21 + n) :
    binaryTail header behind cap = .ok none := by
  obtain ⟨hremark, hrest⟩ := @binaryTail_fits header n hn hfits
  rw [binaryTail_remark hlen, if_neg (by omega), hremark, ok_bind, hrest, ok_bind,
    if_pos (by rw [List.length_drop]; omega)]

theorem binaryTail_cut {n : ℕ} (hlen : 18 ≤ header.length) (hmax : header.length < 2 ^ 24)
    (hn : remarkLength header = n) (hroom : 21 + n ≤ header.length) :
    (PropertiesFit header cap n → ∃ cut, binaryTail header behind cap = .ok (some cut))
      ∧ (¬ PropertiesFit header cap n → binaryTail header behind cap = .error .sliceOutOfRange) := by
  obtain ⟨hremark, hrest⟩ := @binaryTail_fits header n hn (by omega)
  have hproperties : uint32At header (17 + remarkLength header)
      = .ok (fieldAt header (17 + remarkLength header).toNat 4) := by
    have hat : ((17 + remarkLength header).toNat : ℤ) = 17 + remarkLength header := by omega
    rw [← uint32At_field (by omega), hat]
  have hbounds := intOf_bounds (w := 32) (by decide)
    (fieldAt header (17 + remarkLength header).toNat 4)
  have hend := @propertiesEnd_iff cap (17 + n + 4) (propertiesLen header) (by omega) (by omega)
    (by unfold propertiesLen; omega) (by unfold propertiesLen; omega)
  rw [show (17 : ℤ) + n + 4 = 21 + n by omega] at hend
  rw [binaryTail_remark hlen, if_neg (by omega), hremark, ok_bind, hrest, ok_bind,
    if_neg (by rw [List.length_drop]; omega), hproperties, ok_bind]
  dsimp only
  rw [show intOf 32 (fieldAt header (17 + remarkLength header).toNat 4) = propertiesLen header from rfl,
    hn, show (17 : ℤ) + n + 4 = 21 + n by omega]
  constructor
  · intro hfit
    rw [if_pos ⟨by omega, hend.mpr hfit⟩]
    exact ⟨_, rfl⟩
  · intro hfit
    rw [if_neg fun hcode => hfit (hend.mp hcode.2)]

section Outcomes

variable {α : Type} {readable accepted : Prop}

/-- A step that returns, with what it accepts. -/
theorem returns_accepts {r : Option α} (hreadable : readable) (haccepted : r.isSome ↔ accepted) :
    (Returns (.ok r : Except Panic (Option α)) ↔ readable)
      ∧ ∀ r', (.ok r : Except Panic (Option α)) = .ok r' → (r'.isSome ↔ accepted) := by
  refine ⟨iff_of_true (returns_ok r) hreadable, ?_⟩
  rintro r' ⟨⟩
  exact haccepted

/-- A step that panics accepts nothing. -/
theorem panics_accepts {e : Panic} (hreadable : ¬ readable) :
    (Returns (.error e : Except Panic (Option α)) ↔ readable)
      ∧ ∀ r', (.error e : Except Panic (Option α)) = .ok r' → (r'.isSome ↔ accepted) := by
  refine ⟨iff_of_false (not_returns_error e) hreadable, ?_⟩
  rintro r' ⟨⟩

end Outcomes

/-- The remark and the properties are cut without a panic just when they are readable, and are there
just when the remark leaves room for the length behind it. -/
theorem binaryTail_spec (hlen : 18 ≤ header.length) (hmax : header.length < 2 ^ 24) :
    (Returns (binaryTail header behind cap) ↔ BinaryReadable header cap)
      ∧ ∀ r, binaryTail header behind cap = .ok r →
        (r.isSome ↔ 21 + remarkLength header ≤ header.length) := by
  unfold BinaryReadable
  rw [imp_iff_right hlen]
  rcases lt_or_ge (header.length : ℤ) (17 + remarkLength header) with hlong | hfits
  · rw [binaryTail_long hlen hlong]
    exact returns_accepts (fun h => absurd h (by omega)) (iff_of_false Bool.false_ne_true (by omega))
  rw [imp_iff_right hfits]
  rcases lt_or_ge (remarkLength header) 0 with hneg | hpos
  · rw [binaryTail_negative hlen hneg]
    exact panics_accepts fun h => absurd h.1 (by omega)
  obtain ⟨n, hn⟩ : ∃ n : ℕ, remarkLength header = n := ⟨_, (Int.toNat_of_nonneg hpos).symm⟩
  rw [hn] at hfits ⊢
  rcases lt_or_ge header.length (21 + n) with hshort | hroom
  · rw [binaryTail_short hlen hn (by omega) hshort]
    exact returns_accepts ⟨by omega, fun h => absurd h (by omega)⟩
      (iff_of_false Bool.false_ne_true (by omega))
  obtain ⟨hcut, hpanic⟩ := @binaryTail_cut header behind cap n hlen hmax hn hroom
  have hroom' : (21 : ℤ) + n ≤ header.length := by omega
  rw [imp_iff_right hroom']
  by_cases hfit : PropertiesFit header cap n
  · obtain ⟨cut, hcut⟩ := hcut hfit
    rw [hcut]
    exact returns_accepts ⟨by omega, hfit⟩ (iff_of_true rfl hroom')
  · rw [hpanic hfit]
    exact panics_accepts fun h => hfit h.2

/-- A header is parsed without a panic just when a binary one is readable, and is accepted just when
it should be. -/
theorem parseHeader_spec (hmax : header.length < 2 ^ 24) (type : ℕ) :
    (Returns (parseHeader jsonHeader header behind cap type)
        ↔ (type = 1 → BinaryReadable header cap))
      ∧ ∀ r, parseHeader jsonHeader header behind cap type = .ok r →
        (r.isSome ↔ HeaderAccepted jsonHeader header type) := by
  unfold parseHeader HeaderAccepted
  by_cases hjson : type = 0
  · rw [if_pos hjson]
    rcases hheader : jsonHeader header with _ | temp
    · exact returns_accepts (fun h => by omega) (by simp [hjson])
    · exact returns_accepts (fun h => by omega) (by simp [hjson])
  rw [if_neg hjson]
  by_cases hbinary : type = 1
  swap
  · rw [if_neg hbinary]
    exact returns_accepts (fun h => absurd h hbinary) (by simp [hjson, hbinary])
  rw [if_pos hbinary, imp_iff_right hbinary]
  rcases Nat.lt_or_ge header.length 18 with hshort | hlen
  · rw [if_pos hshort]
    refine returns_accepts (fun h => absurd h (by omega)) (iff_of_false Bool.false_ne_true ?_)
    rintro (⟨h, -⟩ | ⟨-, h, -⟩)
    · exact hjson h
    · omega
  -- The fields in front of the remark are there.
  have hcode : uint16At header 0 = _ := uint16At_field (i := 0) (by omega)
  have hlanguage : byteAt header 2 = _ := byteAt_of_lt (i := 2) (by omega)
  have hversion : uint16At header 3 = _ := uint16At_field (i := 3) (by omega)
  have hid : uint32At header 5 = _ := uint32At_field (i := 5) (by omega)
  have hflag : uint32At header 9 = _ := uint32At_field (i := 9) (by omega)
  obtain ⟨hreturns, hsome⟩ := @binaryTail_spec header behind cap hlen hmax
  rw [if_neg (by omega), hcode, ok_bind, hlanguage, ok_bind, hversion, ok_bind, hid, ok_bind, hflag,
    ok_bind]
  have haccepted : (type = 0 ∧ (jsonHeader header).isSome
      ∨ type = 1 ∧ 18 ≤ header.length ∧ 21 + remarkLength header ≤ header.length)
      ↔ 21 + remarkLength header ≤ header.length := by
    constructor
    · rintro (⟨h, -⟩ | ⟨-, -, h⟩)
      · exact absurd h hjson
      · exact h
    · intro h
      exact Or.inr ⟨hbinary, hlen, h⟩
  rw [haccepted, ← hreturns]
  rcases htail : binaryTail header behind cap with e | _ | ⟨remarkBuf, propertiesBuf⟩
  · exact panics_accepts (not_returns_error _)
  · exact returns_accepts (returns_ok _) (hsome none htail)
  · exact returns_accepts (returns_ok _) (hsome _ htail)

end Headers

/-! ## Frames -/

section Frames

variable {jsonHeader : GoString → Option JsonHeader} {spare : ℕ} {sb : StreamBuffer} {head : Buffer}
  {messageType : MessageType}

/-- The body is cut without a panic just when it is empty or has four bytes. -/
theorem cutBody_returns_iff {buf : GoString} {headerLen size : ℕ} (hsize : size ≤ buf.length)
    (hheader : 4 + headerLen ≤ size) :
    Returns (cutBody buf headerLen size) ↔ size = 4 + headerLen ∨ 8 + headerLen ≤ size := by
  unfold cutBody
  split_ifs with hbody
  · unfold slice
    split_ifs with hcut
    · exact iff_of_true (returns_ok _) (by omega)
    · exact iff_of_false (not_returns_error _) (by omega)
  · exact iff_of_true (returns_ok _) (by omega)

theorem finishFrame_returns_iff {headerLen size : ℕ} (hsize : size ≤ head.buf.length)
    (hheader : 4 + headerLen ≤ size) (message : Option RocketMQMessage) :
    Returns (finishFrame sb head messageType headerLen size message)
      ↔ (message.isSome → size = 4 + headerLen ∨ 8 + headerLen ≤ size) := by
  rcases message with _ | message
  · exact iff_of_true (returns_ok _) (fun h => absurd h Bool.false_ne_true)
  · rw [Option.isSome_some, imp_iff_right rfl, ← cutBody_returns_iff hsize hheader, finishFrame]
    refine returns_bind fun body _ => ?_
    rcases createFrameBase sb head size with _ | fb
    · exact returns_ok _
    · exact returns_ok _

/-- **When the RocketMQ parser returns**: just when the frame at the front is readable. -/
theorem parseStream_returns_iff (jsonHeader : GoString → Option JsonHeader) (spare : ℕ)
    (sb : StreamBuffer) (head : Buffer) (messageType : MessageType) (hhead : sb.head = some head) :
    Returns (parseStream jsonHeader spare sb messageType)
      ↔ FrameReadable jsonHeader spare head.buf := by
  unfold parseStream FrameReadable
  rw [hhead]
  dsimp only
  rcases Nat.lt_or_ge head.buf.length 8 with hshort | hlen
  · rw [if_pos hshort]
    exact iff_of_true (returns_ok _) (fun h => by omega)
  have hframe : uint32At head.buf 0 = .ok (frameSize head.buf) := uint32At_field (i := 0) (by omega)
  have hword : uint32At head.buf 4 = .ok (fieldAt head.buf 4 4) := uint32At_field (i := 4) (by omega)
  rw [if_neg (by omega), hframe, ok_bind, imp_iff_right hlen]
  rcases Nat.eq_zero_or_pos (frameSize head.buf) with hzero | hpos
  · rw [if_pos (by omega)]
    exact iff_of_true (returns_ok _) (fun h => by omega)
  rw [if_neg (by omega), imp_iff_right hpos]
  rcases Nat.lt_or_ge head.buf.length (frameSize head.buf + 4) with hmore | hwhole
  · rw [if_pos (by omega)]
    exact iff_of_true (returns_ok _) (fun h => by omega)
  rw [if_neg (by omega), hword, ok_bind, imp_iff_right hwhole]
  rw [show fieldAt head.buf 4 4 % 2 ^ 24 = headerDataLen head.buf from rfl,
    show fieldAt head.buf 4 4 / 2 ^ 24 % 256 = serializedType head.buf from rfl]
  rcases Nat.lt_or_ge (frameSize head.buf) (4 + headerDataLen head.buf) with hlong | hfits
  · rw [if_pos (Or.inl (by omega))]
    exact iff_of_true (returns_ok _) (fun h => by omega)
  have hslice : slice head.buf 8 (8 + headerDataLen head.buf) = .ok (headerBody head.buf) :=
    slice_field (i := 8) (by omega)
  have hmax : (headerBody head.buf).length < 2 ^ 24 :=
    (List.length_take_le _ _).trans_lt (Nat.mod_lt _ (by decide))
  rw [if_neg (by omega), hslice, ok_bind, imp_iff_right hfits, returns_bind_iff]
  obtain ⟨hreturns, haccepted⟩ := @parseHeader_spec jsonHeader (headerBody head.buf)
    (head.buf.drop (8 + (headerDataLen head.buf : ℤ)).toNat) (head.buf.length - 8 + spare) hmax
    (serializedType head.buf)
  rw [← hreturns]
  -- What the header is parsed to decides only whether there is a body to cut.
  refine and_congr_right fun ⟨message, hmessage⟩ => ?_
  rw [← haccepted message hmessage, hmessage]
  constructor
  · intro h
    exact (finishFrame_returns_iff (by omega) hfits message).mp (h message rfl)
  · rintro h _ ⟨⟩
    exact (finishFrame_returns_iff (by omega) hfits message).mpr h

end Frames

/-! A frame whose parsing returns, and one whose remark has a length below zero. -/

theorem parseStream_returns_iff_sample :
    Returns (parseStream (fun _ => none) 0 (bufferOf sampleFrame.bytes) .request)
      ↔ FrameReadable (fun _ => none) 0 sampleFrame.bytes :=
  parseStream_returns_iff _ 0 _ ⟨sampleFrame.bytes, 0⟩ .request rfl

/-- The request of `sampleFrame`, with a remark of length -1. -/
def negativeRemark : GoString :=
  [0, 0, 0, 25, 1, 0, 0, 21, 0, 10, 0, 1, 44, 0, 0, 0, 7, 0, 0, 0, 0, 0xff, 0xff, 0xff, 0xff, 0, 0, 0, 0]

theorem negative_remark_panics : ¬ ∀ (jsonHeader : GoString → Option JsonHeader) (spare : ℕ)
    (sb : StreamBuffer) (head : Buffer) (messageType : MessageType), sb.head = some head →
      Returns (parseStream jsonHeader spare sb messageType) := by
  intro h
  obtain ⟨r, hr⟩ := h (fun _ => none) 0 (bufferOf negativeRemark) ⟨negativeRemark, 0⟩ .request rfl
  have hpanic : (parseStream (fun _ => none) 0 (bufferOf negativeRemark) .request).map
      ParseResult.readBytes = .error .sliceOutOfRange := by decide +kernel
  rw [hr] at hpanic
  cases hpanic

end Kyanos.RocketMQ
