/-
RESP2 values and the Redis parser.

A value has one canonical encoding and many others, since a size may be written with leading
zeros or a sign; `Value.Encoding` has them all. The parser reads the canonical encoding of every
value and waits for the rest of one that is cut (`encode_complete`), as long as no array has so
many elements that its size takes more than sixteen characters.

The other way round it reads too much. It does not look at the two bytes behind a string, and
takes any line for an integer. Everything it reads besides is the encoding of a value: a parse
that succeeds has read one just when no frame at the front of the head is of that kind
(`parseStream_sound_iff`).
-/
import Kyanos.RedisFrames

set_option autoImplicit false

open Trace

namespace Kyanos.Redis

/-! ## Decimal numbers -/

def digitByte (d : ℕ) : UInt8 := UInt8.ofNat (48 + d)

/-- The canonical decimal text of a natural number. -/
def itoaNat (n : ℕ) : GoString :=
  if n = 0 then text "0" else (Nat.digits 10 n).reverse.map digitByte

/-- `strconv.Itoa`. -/
def itoa : ℤ → GoString
  | .ofNat n => itoaNat n
  | .negSucc n => 45 :: itoaNat (n + 1)

theorem digitByte_toNat {d : ℕ} (h : d < 10) : (digitByte d).toNat = 48 + d := by
  unfold digitByte
  rw [UInt8.toNat_ofNat']
  omega

theorem itoaNat_ne_nil (n : ℕ) : itoaNat n ≠ [] := by
  unfold itoaNat
  split_ifs with hzero
  · decide
  · rw [ne_eq, List.map_eq_nil_iff, List.reverse_eq_nil_iff]
    exact Nat.digits_ne_nil_iff_ne_zero.mpr hzero

/-- The characters are digits. -/
theorem mem_itoaNat {n : ℕ} {b : UInt8} (h : b ∈ itoaNat n) : 48 ≤ b ∧ b ≤ 57 := by
  unfold itoaNat at h
  split_ifs at h
  · rw [List.mem_singleton.mp h]
    decide
  · obtain ⟨d, hd, rfl⟩ := List.mem_map.mp h
    have hlt := Nat.digits_lt_base (by decide) (List.mem_reverse.mp hd)
    have hnat := digitByte_toNat hlt
    rw [UInt8.le_iff_toNat_le, UInt8.le_iff_toNat_le, hnat]
    exact ⟨by change 48 ≤ 48 + d; omega, by change 48 + d ≤ 57; omega⟩

theorem atoiDigits_itoaNat (n : ℕ) : atoiDigits (itoaNat n) = some n := by
  have hdigits : ¬ ((itoaNat n).length = 0 ∨
      (itoaNat n).any (fun b => b < 48 || b > 57) = true) := by
    rintro (hnil | hother)
    · exact itoaNat_ne_nil n (List.length_eq_zero_iff.mp hnil)
    · obtain ⟨b, hb, hrange⟩ := List.any_eq_true.mp hother
      obtain ⟨hlo, hhi⟩ := mem_itoaNat hb
      simp only [Bool.or_eq_true, decide_eq_true_eq, gt_iff_lt] at hrange
      rcases hrange with hlt | hlt
      · exact absurd hlt (UInt8.not_lt.mpr hlo)
      · exact absurd hlt (UInt8.not_lt.mpr hhi)
  unfold atoiDigits
  rw [if_neg hdigits]
  congr 1
  unfold itoaNat
  split_ifs with hzero
  · rw [hzero]
    rfl
  · -- the digits are read from the highest on, as `Nat.ofDigits` folds them
    rw [List.foldl_map, List.foldl_reverse]
    have hfold : ∀ l : List ℕ, (∀ d ∈ l, d < 10) →
        l.foldr (fun d n => 10 * n + ((digitByte d).toNat - 48)) 0 = Nat.ofDigits 10 l := by
      intro l hl
      induction l with
      | nil => rfl
      | cons d l ih =>
          obtain ⟨hd, hl⟩ := List.forall_mem_cons.mp hl
          rw [List.foldr_cons, ih hl, Nat.ofDigits_cons, digitByte_toNat hd]
          omega
    rw [hfold _ (fun d hd => Nat.digits_lt_base (by decide) hd), Nat.ofDigits_digits]

/-- A number is read back. -/
theorem atoi_itoa (n : ℤ) : atoi (itoa n) = some n := by
  rcases n with n | n
  · have hdigits := atoiDigits_itoaNat n
    rcases htext : itoaNat n with _ | ⟨b, rest⟩
    · exact absurd htext (itoaNat_ne_nil n)
    · have hb : b ∈ itoaNat n := by
        rw [htext]
        exact List.mem_cons_self
      obtain ⟨hlo, -⟩ := mem_itoaNat hb
      rw [htext] at hdigits
      rw [itoa, htext, atoi, hdigits]
      · rfl
      · rintro rest' heq
        cases heq
        exact absurd hlo (by decide)
      · rintro rest' heq
        cases heq
        exact absurd hlo (by decide)
  · rw [itoa, atoi, atoiDigits_itoaNat]
    rfl

/-- A number is on one line. -/
theorem itoa_oneLine (n : ℤ) : OneLine (itoa n) := by
  rintro ⟨a, b, hab⟩
  have hmem : (13 : UInt8) ∈ itoa n := by
    rw [← hab]
    simp [kTerminalSequence]
  rcases n with n | n
  · exact absurd (mem_itoaNat hmem).1 (by decide)
  · rcases List.mem_cons.mp hmem with heq | hmem
    · exact absurd heq (by decide)
    · exact absurd (mem_itoaNat hmem).1 (by decide)

theorem itoa_length_le {n : ℕ} (h : n < 10 ^ 16) : (itoa n).length ≤ 16 := by
  change (itoaNat n).length ≤ 16
  unfold itoaNat
  split_ifs
  · decide
  · rw [List.length_map, List.length_reverse]
    exact (Nat.digits_length_le_iff (by decide) n).mpr h

/-- A size below ten to the sixteenth is read as such. -/
theorem itoa_sizeLine {n : ℕ} (h : n < 10 ^ 16) : SizeLine (itoa n) n :=
  ⟨itoa_oneLine _, itoa_length_le h, atoi_itoa _⟩

theorem itoa_nullLine : SizeLine (itoa kNullSize) kNullSize :=
  ⟨itoa_oneLine _, by decide, atoi_itoa _⟩

/-! ## Values -/

inductive Value
  | simple (str : GoString)
  | error (str : GoString)
  | integer (n : ℤ)
  | bulk (payload : GoString)
  | nullBulk
  | array (elements : List Value)
  | nullArray

mutual

/-- The frame of the canonical encoding. -/
def Value.frame : Value → Frame
  | .simple str => .simple str
  | .error str => .error str
  | .integer n => .integer (itoa n)
  | .bulk payload => .bulk (itoa payload.length) payload kTerminalSequence
  | .nullBulk => .nullBulk (itoa kNullSize)
  | .array elements => .array (itoa elements.length) (Value.frames elements)
  | .nullArray => .nullArray (itoa kNullSize)

def Value.frames : List Value → List Frame
  | [] => []
  | v :: vs => v.frame :: Value.frames vs

end

/-- The canonical encoding of a value. -/
def Value.encode (v : Value) : GoString := v.frame.bytes

mutual

/-- The texts that encode a value, with their sizes in any decimal form. -/
def Value.Encoding : Value → GoString → Prop
  | .simple str, b => OneLine str ∧ b = lineBytes kSimpleStringMarker str
  | .error str, b => OneLine str ∧ b = lineBytes kErrorMarker str
  | .integer n, b =>
      ∃ line, OneLine line ∧ atoi line = some n ∧ b = lineBytes kIntegerMarker line
  | .bulk payload, b =>
      ∃ size, OneLine size ∧ atoi size = some (payload.length : ℤ)
        ∧ b = lineBytes kBulkStringsMarker size ++ (payload ++ kTerminalSequence)
  | .nullBulk, b =>
      ∃ size, OneLine size ∧ atoi size = some (-1) ∧ b = lineBytes kBulkStringsMarker size
  | .array elements, b =>
      ∃ size body, OneLine size ∧ atoi size = some (elements.length : ℤ)
        ∧ Value.EncodingAll elements body ∧ b = lineBytes kArrayMarker size ++ body
  | .nullArray, b =>
      ∃ size, OneLine size ∧ atoi size = some (-1) ∧ b = lineBytes kArrayMarker size

def Value.EncodingAll : List Value → GoString → Prop
  | [], b => b = []
  | v :: vs, b => ∃ b₁ b₂, v.Encoding b₁ ∧ Value.EncodingAll vs b₂ ∧ b = b₁ ++ b₂

end

mutual

/-- The values there are: no line ends inside, and a string has at most 512 MB. -/
def Value.Valid : Value → Prop
  | .simple str => OneLine str
  | .error str => OneLine str
  | .integer _ => True
  | .bulk payload => payload.length ≤ 512 * 1024 * 1024
  | .nullBulk => True
  | .array elements => Value.ValidAll elements
  | .nullArray => True

def Value.ValidAll : List Value → Prop
  | [] => True
  | v :: vs => v.Valid ∧ Value.ValidAll vs

end

mutual

/-- Every array has fewer than ten to the sixteenth elements. -/
def Value.Small : Value → Prop
  | .array elements => elements.length < 10 ^ 16 ∧ Value.SmallAll elements
  | _ => True

def Value.SmallAll : List Value → Prop
  | [] => True
  | v :: vs => v.Small ∧ Value.SmallAll vs

end

/-- The induction over values: for an array, what is claimed holds of its elements. -/
theorem Value.induction {P : Value → Prop} (simple : ∀ str, P (.simple str))
    (error : ∀ str, P (.error str)) (integer : ∀ n, P (.integer n))
    (bulk : ∀ payload, P (.bulk payload)) (nullBulk : P .nullBulk)
    (array : ∀ elements, (∀ v ∈ elements, P v) → P (.array elements)) (nullArray : P .nullArray)
    (v : Value) : P v := by
  refine @Value.rec P (fun vs => ∀ v ∈ vs, P v) simple error integer bulk nullBulk array nullArray
    ?_ ?_ v
  · intro v hv
    cases hv
  · intro v vs ihv ihvs
    exact List.forall_mem_cons.mpr ⟨ihv, ihvs⟩

theorem Value.frames_eq (vs : List Value) : Value.frames vs = vs.map Value.frame := by
  induction vs with
  | nil => rfl
  | cons v vs ih => rw [Value.frames, ih, List.map_cons]

theorem Value.validAll_iff {vs : List Value} : Value.ValidAll vs ↔ ∀ v ∈ vs, v.Valid := by
  induction vs with
  | nil => simp [Value.ValidAll]
  | cons v vs ih => rw [Value.ValidAll, ih, List.forall_mem_cons]

theorem Value.smallAll_iff {vs : List Value} : Value.SmallAll vs ↔ ∀ v ∈ vs, v.Small := by
  induction vs with
  | nil => simp [Value.SmallAll]
  | cons v vs ih => rw [Value.SmallAll, ih, List.forall_mem_cons]

/-- The parser takes the canonical frame of a value. -/
theorem Value.frame_taken {v : Value} (hvalid : v.Valid) (hsmall : v.Small) : v.frame.Taken := by
  induction v using Value.induction with
  | simple str => exact hvalid
  | error str => exact hvalid
  | integer n => exact itoa_oneLine n
  | bulk payload =>
      have hmax : payload.length ≤ 512 * 1024 * 1024 := hvalid
      exact ⟨itoa_sizeLine (by omega), hmax, rfl⟩
  | nullBulk => exact itoa_nullLine
  | array elements ih =>
      obtain ⟨hlen, hall⟩ := hsmall
      have hvalid := Value.validAll_iff.mp hvalid
      have hall := Value.smallAll_iff.mp hall
      have hframes : (Value.frames elements).length = elements.length := by
        rw [Value.frames_eq, List.length_map]
      refine ⟨?_, Frame.takenAll_iff.mpr ?_⟩
      · rw [hframes]
        exact itoa_sizeLine hlen
      · intro f hf
        rw [Value.frames_eq] at hf
        obtain ⟨v, hv, rfl⟩ := List.mem_map.mp hf
        exact ih v hv (hvalid v hv) (hall v hv)
  | nullArray => exact itoa_nullLine

/-! ## Complete messages -/

section Stream

variable {sb : StreamBuffer} {head : Buffer} {messageType : MessageType}

theorem parseStream_cut {f : Frame} (hf : f.Taken) (hhead : sb.head = some head)
    (hcut : Cut head.buf f.bytes) :
    parseStream sb messageType = .ok ⟨.needsMoreData, [], 0⟩ := by
  obtain ⟨e, he, hincomplete⟩ := @parseMessage_cut
    ((sb.findTimestampBySeq head.leftBoundary).getD 0) head.leftBoundary f hf head.buf.length
    (BinaryDecoder.new head.buf) hcut le_rfl
  unfold parseStream
  rw [hhead]
  dsimp only
  rw [he]
  rcases hincomplete with rfl | rfl
  · rfl
  · rfl

/-- A frame at the front of the head is read, and nothing else. -/
theorem parseStream_frame {f : Frame} (hf : f.Taken) (hhead : sb.head = some head)
    {rest : GoString} (hbuf : head.buf = f.bytes ++ rest) :
    ∃ ms, parseStream sb messageType =
      .ok ⟨if (sb.findTimestampBySeq head.leftBoundary).isNone then .ignore else .success, ms,
        f.bytes.length⟩ := by
  obtain ⟨m, d, hm, hd⟩ := @parseMessage_frame
    ((sb.findTimestampBySeq head.leftBoundary).getD 0) head.leftBoundary f hf head.buf.length
    (BinaryDecoder.new head.buf) rest hbuf le_rfl
  obtain ⟨hadv, hsize⟩ := parseMessage_counts hm
  have hcounted : d.readBytes + d.str.length = 0 + head.buf.length := hadv.counted
  have hread : m.base.byteSize = f.bytes.length := by
    rw [hd, hbuf, List.length_append] at hcounted
    rw [hsize]
    omega
  unfold parseStream
  rw [hhead]
  dsimp only
  rw [hm]
  dsimp only
  rw [hread]
  exact ⟨_, rfl⟩

/-- What a parse that succeeds has read is a frame. -/
theorem parseStream_sound {r : ParseResult RedisMessage} (hhead : sb.head = some head)
    (h : parseStream sb messageType = .ok r) (hstate : r.parseState = .success) :
    sb.findTimestampBySeq head.leftBoundary ≠ none
      ∧ ∃ f : Frame, f.Taken ∧ f.bytes <+: head.buf ∧ r.readBytes = f.bytes.length := by
  unfold parseStream at h
  rw [hhead] at h
  dsimp only at h
  split at h
  · cases h
  · cases h
    cases hstate
  · cases h
    cases hstate
  · rename_i m d hparse
    obtain ⟨f, hf, hbuf⟩ := parseMessage_sound hparse
    cases h
    refine ⟨?_, f, hf, ⟨d.str, hbuf.symm⟩, ?_⟩
    · intro hnone
      rw [hnone] at hstate
      cases hstate
    · obtain ⟨hadv, hsize⟩ := parseMessage_counts hparse
      have hcounted : d.readBytes + d.str.length = 0 + head.buf.length := hadv.counted
      have hlen : head.buf.length = f.bytes.length + d.str.length := by
        rw [← List.length_append]
        exact congrArg List.length hbuf
      dsimp only
      rw [hsize]
      omega

/-- **Complete messages.** The canonical encoding of a value is read to its last byte,
whatever lies behind it, and one that is cut waits for more. -/
theorem encode_complete (v : Value) (hvalid : v.Valid) (hsmall : v.Small) :
    (∀ (timestamp seq n : ℕ) (d : BinaryDecoder) (rest : GoString), d.str = v.encode ++ rest →
      d.str.length ≤ n → ∃ m d', parseMessage timestamp seq n d = .ok (m, d')
        ∧ d'.str = rest ∧ d'.readBytes = d.readBytes + v.encode.length)
    ∧ (∀ (sb : StreamBuffer) (head : Buffer) (messageType : MessageType) (rest : GoString),
      sb.head = some head → head.buf = v.encode ++ rest →
      sb.findTimestampBySeq head.leftBoundary ≠ none →
      ∃ ms, parseStream sb messageType = .ok ⟨.success, ms, v.encode.length⟩)
    ∧ ∀ (sb : StreamBuffer) (head : Buffer) (messageType : MessageType),
      sb.head = some head → Cut head.buf v.encode →
      parseStream sb messageType = .ok ⟨.needsMoreData, [], 0⟩ := by
  have hf := Value.frame_taken hvalid hsmall
  refine ⟨?_, ?_, ?_⟩
  · intro timestamp seq n d rest hstr hn
    obtain ⟨m, d', hm, hrest⟩ := parseMessage_frame hf n d
      rest hstr hn
    have hcounted := (parseMessage_counts hm).1.counted
    refine ⟨m, d', hm, hrest, ?_⟩
    rw [hrest, hstr, List.length_append] at hcounted
    omega
  · intro sb head messageType rest hhead hbuf hts
    obtain ⟨ms, hparse⟩ := parseStream_frame hf hhead hbuf
    rw [Option.isNone_eq_false_iff.mpr (Option.isSome_iff_ne_none.mpr hts)] at hparse
    exact ⟨ms, hparse⟩
  · intro sb head messageType hhead hcut
    exact parseStream_cut hf hhead hcut

end Stream

/-- A stream buffer with one head, whose first byte has a time. -/
def streamOf (buf : GoString) : StreamBuffer :=
  { buffers := [⟨buf, 0⟩], timestamps := SortedMap.empty.put 0 0, capacity := 1024 }

/-- A command, an array in an array, and a byte of the next message. -/
theorem encode_complete_sample :
    ∃ ms, parseStream (streamOf (text "*2\r\n$4\r\nPING\r\n*1\r\n:-5\r\n+")) .request
      = .ok ⟨.success, ms, 23⟩ := by
  have hline : (Value.array [.bulk (text "PING"), .array [.integer (-5)]]).encode
      = text "*2\r\n$4\r\nPING\r\n*1\r\n:-5\r\n" := by decide
  have hcomplete := (encode_complete (.array [.bulk (text "PING"), .array [.integer (-5)]])
    ⟨(by decide : (text "PING").length ≤ 512 * 1024 * 1024), ⟨trivial, trivial⟩, trivial⟩
    ⟨by decide, trivial, ⟨by decide, trivial, trivial⟩, trivial⟩).2.1
  have hparse := hcomplete (streamOf (text "*2\r\n$4\r\nPING\r\n*1\r\n:-5\r\n+")) _ .request
    (text "+") rfl (by rw [hline]; decide) (by decide)
  rw [hline] at hparse
  exact hparse

/-- The size line of an array that is not empty is a beginning of its encoding. -/
theorem sizeLine_cut {vs : List Value} (h : vs ≠ []) :
    Cut (lineBytes kArrayMarker (itoa vs.length)) (Value.array vs).encode := by
  have hbytes : (Value.array vs).encode =
      lineBytes kArrayMarker (itoa vs.length) ++ Frame.bytesAll (Value.frames vs) := rfl
  refine ⟨by rw [hbytes]; exact List.prefix_append _ _, ?_⟩
  obtain ⟨v, vs, rfl⟩ := List.exists_cons_of_ne_nil h
  have hpos := List.length_pos_iff.mpr v.frame.bytes_ne_nil
  rw [hbytes, Value.frames, Frame.bytesAll, List.length_append, List.length_append]
  omega

/-- The size of ten to the sixteenth elements has seventeen characters, and is refused. -/
theorem huge_array_invalid :
    ¬ ∀ v : Value, v.Valid → ∀ (sb : StreamBuffer) (head : Buffer) (messageType : MessageType),
      sb.head = some head → Cut head.buf v.encode →
      parseStream sb messageType = .ok ⟨.needsMoreData, [], 0⟩ := by
  intro h
  have hlen : (List.replicate (10 ^ 16) (Value.integer 0)).length = 10 ^ 16 :=
    List.length_replicate
  have hvalid : (Value.array (List.replicate (10 ^ 16) (.integer 0))).Valid := by
    refine Value.validAll_iff.mpr ?_
    intro v hv
    rw [List.eq_of_mem_replicate hv]
    trivial
  have hne : List.replicate (10 ^ 16) (Value.integer 0) ≠ [] := by
    rw [ne_eq, ← List.length_eq_zero_iff, hlen]
    norm_num
  have hcut := sizeLine_cut hne
  have hsize : lineBytes kArrayMarker (itoa ((10 ^ 16 : ℕ) : ℤ)) = text "*10000000000000000\r\n" := by
    decide
  rw [hlen, hsize] at hcut
  have hinvalid : parseStream (streamOf (text "*10000000000000000\r\n")) .request
      = .ok ⟨.invalid, [], 0⟩ := rfl
  have hparse := h _ hvalid (streamOf (text "*10000000000000000\r\n")) _ .request rfl hcut
  rw [hinvalid] at hparse
  cases hparse

/-! ## What is read is an encoding -/

mutual

/-- What the parser does not look at is in order: the two bytes behind every string, and the
text of every integer. -/
def Frame.Strict : Frame → Prop
  | .integer str => atoi str ≠ none
  | .bulk _ _ terminal => terminal = kTerminalSequence
  | .array _ elements => Frame.StrictAll elements
  | _ => True

def Frame.StrictAll : List Frame → Prop
  | [] => True
  | f :: fs => f.Strict ∧ Frame.StrictAll fs

end

theorem Frame.strictAll_iff {fs : List Frame} : Frame.StrictAll fs ↔ ∀ f ∈ fs, f.Strict := by
  induction fs with
  | nil => simp [Frame.StrictAll]
  | cons f fs ih => rw [Frame.StrictAll, ih, List.forall_mem_cons]

theorem encodingAll_of_forall {fs : List Frame} (h : ∀ f ∈ fs, ∃ v : Value, v.Encoding f.bytes) :
    ∃ vs, vs.length = fs.length ∧ Value.EncodingAll vs (Frame.bytesAll fs) := by
  induction fs with
  | nil => exact ⟨[], rfl, rfl⟩
  | cons f fs ih =>
      obtain ⟨⟨v, hv⟩, hfs⟩ := List.forall_mem_cons.mp h
      obtain ⟨vs, hlen, hvs⟩ := ih hfs
      exact ⟨v :: vs, by rw [List.length_cons, List.length_cons, hlen], _, _, hv, hvs, rfl⟩

/-- A frame that is in order encodes a value. -/
theorem Frame.exists_value {f : Frame} (hf : f.Taken) (hstrict : f.Strict) :
    ∃ v : Value, v.Encoding f.bytes := by
  induction f using Frame.induction with
  | simple str => exact ⟨.simple str, hf, rfl⟩
  | error str => exact ⟨.error str, hf, rfl⟩
  | integer str =>
      obtain ⟨n, hn⟩ := Option.ne_none_iff_exists'.mp hstrict
      exact ⟨.integer n, str, hf, hn, rfl⟩
  | bulk size payload terminal =>
      obtain ⟨⟨hline, -, hatoi⟩, -⟩ := hf
      have hterminal : terminal = kTerminalSequence := hstrict
      rw [hterminal]
      exact ⟨.bulk payload, size, hline, hatoi, rfl⟩
  | nullBulk size => exact ⟨.nullBulk, size, hf.1, hf.2.2, rfl⟩
  | array size elements ih =>
      obtain ⟨⟨hline, -, hatoi⟩, hall⟩ := hf
      have htaken := Frame.takenAll_iff.mp hall
      have hstrict := Frame.strictAll_iff.mp hstrict
      obtain ⟨vs, hlen, hvs⟩ :=
        encodingAll_of_forall (fun f hf => ih f hf (htaken f hf) (hstrict f hf))
      rw [← hlen] at hatoi
      exact ⟨.array vs, size, _, hline, hatoi, hvs, rfl⟩
  | nullArray size => exact ⟨.nullArray, size, hf.1, hf.2.2, rfl⟩

/-- Two lines at the front of one text are the same. -/
theorem line_unique {s s' r r' : GoString} (hs : OneLine s) (hs' : OneLine s')
    (h : s ++ (kTerminalSequence ++ r) = s' ++ (kTerminalSequence ++ r')) : s = s' ∧ r = r' := by
  have hidx := index_line hs r
  rw [h, index_line hs' r', Option.some.injEq] at hidx
  obtain ⟨rfl, hrest⟩ := List.append_inj h hidx.symm
  exact ⟨rfl, List.append_cancel_left hrest⟩

/-- The same behind their markers. -/
theorem lineBytes_unique {m m' : UInt8} {s s' r r' : GoString} (hs : OneLine s)
    (hs' : OneLine s') (h : lineBytes m s ++ r = lineBytes m' s' ++ r') :
    m = m' ∧ s = s' ∧ r = r' := by
  rw [lineBytes_append, lineBytes_append, List.cons.injEq] at h
  exact ⟨h.1, line_unique hs hs' h.2⟩

def Frame.marker : Frame → UInt8
  | .simple _ => kSimpleStringMarker
  | .error _ => kErrorMarker
  | .integer _ => kIntegerMarker
  | .bulk _ _ _ => kBulkStringsMarker
  | .nullBulk _ => kBulkStringsMarker
  | .array _ _ => kArrayMarker
  | .nullArray _ => kArrayMarker

def Value.marker : Value → UInt8
  | .simple _ => kSimpleStringMarker
  | .error _ => kErrorMarker
  | .integer _ => kIntegerMarker
  | .bulk _ => kBulkStringsMarker
  | .nullBulk => kBulkStringsMarker
  | .array _ => kArrayMarker
  | .nullArray => kArrayMarker

theorem Frame.head?_bytes (f : Frame) : f.bytes.head? = some f.marker := by
  rcases f with _ | _ | _ | _ | _ | _ | _ <;> rfl

theorem Value.Encoding.head? {v : Value} {b : GoString} (h : v.Encoding b) :
    b.head? = some v.marker := by
  rcases v with _ | _ | _ | _ | _ | _ | _
  · obtain ⟨-, rfl⟩ := h
    rfl
  · obtain ⟨-, rfl⟩ := h
    rfl
  · obtain ⟨line, -, -, rfl⟩ := h
    rfl
  · obtain ⟨size, -, -, rfl⟩ := h
    rfl
  · obtain ⟨size, -, -, rfl⟩ := h
    rfl
  · obtain ⟨size, body, -, -, -, rfl⟩ := h
    rfl
  · obtain ⟨size, -, -, rfl⟩ := h
    rfl

/-- What a frame and an encoding at the front of one text have in common. -/
def Agree (f : Frame) : Prop :=
  ∀ (v : Value) (b r r' : GoString), v.Encoding b → f.bytes ++ r = b ++ r' → f.Strict ∧ r = r'

theorem agree_all {fs : List Frame} (hfs : ∀ f ∈ fs, Agree f) {vs : List Value}
    (hlen : fs.length = vs.length) {b r r' : GoString} (hvs : Value.EncodingAll vs b)
    (h : Frame.bytesAll fs ++ r = b ++ r') : (∀ f ∈ fs, f.Strict) ∧ r = r' := by
  induction fs generalizing vs b with
  | nil =>
      rw [List.length_nil] at hlen
      obtain rfl := List.length_eq_zero_iff.mp hlen.symm
      obtain rfl : b = [] := hvs
      exact ⟨by simp, h⟩
  | cons f fs ih =>
      obtain ⟨hf, hfs⟩ := List.forall_mem_cons.mp hfs
      rcases vs with _ | ⟨v, vs⟩
      · cases hlen
      · obtain ⟨b₁, b₂, hv, hvs, rfl⟩ := hvs
        rw [Frame.bytesAll, List.append_assoc, List.append_assoc] at h
        obtain ⟨hstrict, hrest⟩ := hf v b₁ _ _ hv h
        obtain ⟨hall, hr⟩ := ih hfs (Nat.succ.inj hlen) hvs hrest
        exact ⟨List.forall_mem_cons.mpr ⟨hstrict, hall⟩, hr⟩

theorem Value.Encoding.marker {v : Value} {b : GoString} (h : v.Encoding b) {f : Frame}
    {r r' : GoString} (heq : f.bytes ++ r = b ++ r') : f.marker = v.marker := by
  have hhead := congrArg List.head? heq
  rw [List.head?_append, List.head?_append, Frame.head?_bytes, h.head?] at hhead
  exact Option.some.inj hhead

/-- **No frame can be read in two ways.** If a frame and the encoding of a value begin at the
same place, they are the same bytes, and the frame is in order. -/
theorem Frame.agree {f : Frame} (hf : f.Taken) : Agree f := by
  induction f using Frame.induction with
  | simple str =>
      intro v b r r' hv h
      have hmarker := hv.marker h
      rcases v with _ | _ | _ | _ | _ | _ | _ <;> try cases hmarker
      obtain ⟨hline, rfl⟩ := hv
      exact ⟨trivial, (lineBytes_unique hf hline h).2.2⟩
  | error str =>
      intro v b r r' hv h
      have hmarker := hv.marker h
      rcases v with _ | _ | _ | _ | _ | _ | _ <;> try cases hmarker
      obtain ⟨hline, rfl⟩ := hv
      exact ⟨trivial, (lineBytes_unique hf hline h).2.2⟩
  | integer str =>
      intro v b r r' hv h
      have hmarker := hv.marker h
      rcases v with _ | _ | n | _ | _ | _ | _ <;> try cases hmarker
      obtain ⟨line, hline, hatoi, rfl⟩ := hv
      obtain ⟨-, rfl, hrest⟩ := lineBytes_unique hf hline h
      refine ⟨?_, hrest⟩
      change atoi str ≠ none
      rw [hatoi]
      exact Option.some_ne_none n
  | bulk size payload terminal =>
      intro v b r r' hv h
      obtain ⟨⟨hline, -, hatoi⟩, -, hterminal⟩ := hf
      have hmarker := hv.marker h
      rw [Frame.bytes, List.append_assoc] at h
      rcases v with _ | _ | _ | payload' | _ | _ | _ <;> try cases hmarker
      · obtain ⟨size', hline', hatoi', rfl⟩ := hv
        simp only [List.append_assoc] at h
        obtain ⟨-, rfl, hrest⟩ := lineBytes_unique hline hline' h
        -- one size: the payloads are equally long, and so are the two bytes behind them
        rw [hatoi, Option.some.injEq, Nat.cast_inj] at hatoi'
        obtain ⟨-, hrest⟩ := List.append_inj hrest hatoi'
        exact List.append_inj hrest hterminal
      · obtain ⟨size', hline', hatoi', rfl⟩ := hv
        obtain ⟨-, rfl, -⟩ := lineBytes_unique hline hline' h
        rw [hatoi, Option.some.injEq] at hatoi'
        omega
  | nullBulk size =>
      intro v b r r' hv h
      obtain ⟨hline, -, hatoi⟩ := hf
      have hmarker := hv.marker h
      rcases v with _ | _ | _ | _ | _ | _ | _ <;> try cases hmarker
      · obtain ⟨size', hline', hatoi', rfl⟩ := hv
        rw [Frame.bytes, List.append_assoc] at h
        obtain ⟨-, rfl, -⟩ := lineBytes_unique hline hline' h
        rw [hatoi, Option.some.injEq] at hatoi'
        have hnull : (kNullSize : ℤ) = -1 := rfl
        omega
      · obtain ⟨size', hline', -, rfl⟩ := hv
        exact ⟨trivial, (lineBytes_unique hline hline' h).2.2⟩
  | array size elements ih =>
      intro v b r r' hv h
      obtain ⟨⟨hline, -, hatoi⟩, hall⟩ := hf
      have hmarker := hv.marker h
      rw [Frame.bytes, List.append_assoc] at h
      rcases v with _ | _ | _ | _ | _ | vs | _ <;> try cases hmarker
      · obtain ⟨size', body, hline', hatoi', hvs, rfl⟩ := hv
        rw [List.append_assoc] at h
        obtain ⟨-, rfl, hrest⟩ := lineBytes_unique hline hline' h
        rw [hatoi, Option.some.injEq, Nat.cast_inj] at hatoi'
        have htaken := Frame.takenAll_iff.mp hall
        obtain ⟨hstrict, hr⟩ := agree_all (fun f hf => ih f hf (htaken f hf)) hatoi' hvs hrest
        exact ⟨Frame.strictAll_iff.mpr hstrict, hr⟩
      · obtain ⟨size', hline', hatoi', rfl⟩ := hv
        obtain ⟨-, rfl, -⟩ := lineBytes_unique hline hline' h
        rw [hatoi, Option.some.injEq] at hatoi'
        omega
  | nullArray size =>
      intro v b r r' hv h
      obtain ⟨hline, -, hatoi⟩ := hf
      have hmarker := hv.marker h
      rcases v with _ | _ | _ | _ | _ | _ | _ <;> try cases hmarker
      · obtain ⟨size', body, hline', hatoi', -, rfl⟩ := hv
        rw [Frame.bytes, List.append_assoc] at h
        obtain ⟨-, rfl, -⟩ := lineBytes_unique hline hline' h
        rw [hatoi, Option.some.injEq] at hatoi'
        have hnull : (kNullSize : ℤ) = -1 := rfl
        omega
      · obtain ⟨size', hline', -, rfl⟩ := hv
        exact ⟨trivial, (lineBytes_unique hline hline' h).2.2⟩

/-- **Sound on this head**: what a successful parse has read is the encoding of a value. -/
def SoundOn (sb : StreamBuffer) (head : Buffer) (messageType : MessageType) : Prop :=
  ∀ r, parseStream sb messageType = .ok r → r.parseState = .success →
    ∃ v : Value, v.Encoding (head.buf.take r.readBytes.toNat)

/-- Every frame at the front of the text is in order. -/
def FrontStrict (b : GoString) : Prop := ∀ f : Frame, f.Taken → f.bytes <+: b → f.Strict

/-- **What is read is an encoding**, just when the frame in front is in order (a head whose
time is unknown is never reported). -/
theorem parseStream_sound_iff (sb : StreamBuffer) (head : Buffer) (messageType : MessageType)
    (hhead : sb.head = some head) :
    SoundOn sb head messageType
      ↔ sb.findTimestampBySeq head.leftBoundary = none ∨ FrontStrict head.buf := by
  constructor
  · intro hsound
    by_cases hts : sb.findTimestampBySeq head.leftBoundary = none
    · exact Or.inl hts
    · refine Or.inr ?_
      rintro f hf ⟨rest, hbuf⟩
      obtain ⟨ms, hparse⟩ := parseStream_frame hf hhead hbuf.symm
      rw [Option.isNone_eq_false_iff.mpr (Option.isSome_iff_ne_none.mpr hts)] at hparse
      obtain ⟨v, hv⟩ := hsound _ hparse rfl
      have htake : head.buf.take (f.bytes.length : ℤ).toNat = f.bytes := by
        rw [Int.toNat_natCast, ← hbuf, List.take_left]
      rw [htake] at hv
      exact (Frame.agree hf v f.bytes [] [] hv rfl).1
  · intro hcond r hparse hstate
    obtain ⟨hts, f, hf, hfront, hread⟩ := parseStream_sound hhead hparse hstate
    have hstrict : f.Strict := (hcond.resolve_left hts) f hf hfront
    obtain ⟨rest, hbuf⟩ := hfront
    rw [hread, Int.toNat_natCast, ← hbuf, List.take_left]
    exact Frame.exists_value hf hstrict

/-- An empty string, and two bytes that are no line end. -/
theorem unterminated_bulk_read :
    ¬ SoundOn (streamOf (text "$0\r\nab")) ⟨text "$0\r\nab", 0⟩ .request := by
  intro hsound
  have hparse : ∃ ms, parseStream (streamOf (text "$0\r\nab")) .request
      = .ok ⟨.success, ms, 6⟩ := ⟨_, rfl⟩
  obtain ⟨ms, hparse⟩ := hparse
  obtain ⟨v, hv⟩ := hsound _ hparse rfl
  have hf : (Frame.bulk (text "0") [] (text "ab")).Taken :=
    ⟨itoa_sizeLine (n := 0) (by decide), by decide, rfl⟩
  have hstrict : text "ab" = kTerminalSequence := (Frame.agree hf v _ [] [] hv rfl).1
  exact absurd hstrict (by decide)

/-- A head with a status line on it. -/
theorem parseStream_sound_iff_status :
    SoundOn (streamOf (text "+OK\r\n")) ⟨text "+OK\r\n", 0⟩ .response := by
  refine (parseStream_sound_iff (streamOf (text "+OK\r\n")) _ .response rfl).mpr (Or.inr ?_)
  intro f hf hfront
  have hmarker : f.marker = kSimpleStringMarker := by
    obtain ⟨rest, hbuf⟩ := hfront
    have hhead := congrArg List.head? hbuf
    rw [List.head?_append, Frame.head?_bytes] at hhead
    exact Option.some.inj hhead
  rcases f with _ | _ | _ | _ | _ | _ | _ <;> try cases hmarker
  trivial

end Kyanos.Redis
