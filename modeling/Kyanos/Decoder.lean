/-
Reading numbers and strings from bytes: `common/byte_util.go` and
`agent/protocol/decoder.go`.

Go's signed integers of width `w` are integers, reduced by `intOf w` wherever the code can
leave their range. An index or a slice out of range panics.

A `BinaryDecoder` reads from the front of a string and counts what it read. `Advances` is
all the parsers rely on: every extraction that succeeds takes as many bytes off the string
as it adds to the count, and one that fails changes nothing. Its composition is the
bookkeeping of a whole parse.
-/
import Kyanos.Messages
import Kyanos.StreamBuffer
import Kyanos.ParseStream

set_option autoImplicit false

open GoNum

namespace Kyanos

/-! ## Numbers and slices -/

/-- The value an integer keeps in a signed type of `w` bits. -/
def intOf (w : ℕ) (x : ℤ) : ℤ := Int.bmod x (2 ^ w)

/-- An ASCII text. -/
def text (s : String) : GoString := s.toList.map (fun c => UInt8.ofNat c.toNat)

/-- `s[i]`. -/
def byteAt (s : List UInt8) (i : ℤ) : Except Panic UInt8 :=
  if 0 ≤ i then
    match s[i.toNat]? with
    | some b => .ok b
    | none => .error .indexOutOfRange
  else .error .indexOutOfRange

theorem byteAt_append (front : List UInt8) (b : UInt8) (tail : List UInt8) :
    byteAt (front ++ b :: tail) front.length = .ok b := by
  rw [byteAt, if_pos (by omega), Int.toNat_natCast, List.getElem?_append_right le_rfl, Nat.sub_self]
  rfl

/-- `s[lo:hi]` of a string, or of a slice without spare capacity. -/
def slice (s : List UInt8) (lo hi : ℤ) : Except Panic (List UInt8) :=
  if 0 ≤ lo ∧ lo ≤ hi ∧ hi ≤ s.length then .ok ((s.drop lo.toNat).take (hi - lo).toNat)
  else .error .sliceOutOfRange

theorem slice_rest {s : List UInt8} {offset : ℤ} (hlo : 0 ≤ offset) (hhi : offset ≤ s.length) :
    slice s offset s.length = .ok (s.drop offset.toNat) := by
  rw [slice, if_pos ⟨hlo, hhi, le_rfl⟩, List.take_of_length_le]
  rw [List.length_drop]
  omega

theorem slice_append (front tail : List UInt8) :
    slice (front ++ tail) front.length (front ++ tail).length = .ok tail := by
  rw [slice_rest (by omega) (by rw [List.length_append]; omega), Int.toNat_natCast, List.drop_left]

theorem slice_middle (front mid tail : List UInt8) :
    slice (front ++ (mid ++ tail)) front.length (front ++ mid).length = .ok mid := by
  have hlen : (front ++ mid).length = front.length + mid.length := List.length_append
  have hall : (front ++ (mid ++ tail)).length = front.length + (mid.length + tail.length) := by
    rw [List.length_append, List.length_append]
  have hcount : (((front ++ mid).length : ℤ) - front.length).toNat = mid.length := by omega
  rw [slice, if_pos ⟨by omega, by omega, by omega⟩, Int.toNat_natCast, List.drop_left, hcount,
    List.take_left]

/-- `LEndianBytesToKInt` of a signed type of `w` bits. -/
def lEndianBytesToKInt (w : ℕ) (buf : List UInt8) (nBytes : ℕ) : ℤ × Bool :=
  if 8 * nBytes > w then (0, false)
  else if buf.length < nBytes then (0, false)
  else (intOf w (littleEndian (buf.take nBytes)), true)

theorem littleEndian_lt (bytes : List UInt8) : littleEndian bytes < 256 ^ bytes.length := by
  induction bytes with
  | nil => decide
  | cons b bytes ih =>
      change b.toNat + 256 * littleEndian bytes < 256 ^ (bytes.length + 1)
      have hb := b.toNat_lt
      rw [pow_succ]
      omega

/-- The `n` low bytes of a number, the lowest first. -/
def leBytes : ℕ → ℕ → List UInt8
  | 0, _ => []
  | n + 1, x => UInt8.ofNat x :: leBytes n (x / 256)

theorem leBytes_length (n x : ℕ) : (leBytes n x).length = n := by
  induction n generalizing x with
  | zero => rfl
  | succ n ih => rw [leBytes, List.length_cons, ih]

theorem littleEndian_leBytes (n x : ℕ) : littleEndian (leBytes n x) = x % 256 ^ n := by
  induction n generalizing x with
  | zero => exact (Nat.mod_one x).symm
  | succ n ih =>
      change (UInt8.ofNat x).toNat + 256 * littleEndian (leBytes n (x / 256)) = _
      have hpow : 256 ^ (n + 1) = 2 ^ 8 * 256 ^ n := pow_succ' 256 n
      rw [ih, UInt8.toNat_ofNat', hpow]
      exact Nat.mod_mul.symm

/-- The `n` low bytes of a number, the highest first. -/
def beBytes (n x : ℕ) : List UInt8 := (leBytes n x).reverse

theorem beBytes_length (n x : ℕ) : (beBytes n x).length = n := by
  rw [beBytes, List.length_reverse, leBytes_length]

theorem bigEndian_beBytes (n x : ℕ) : bigEndian (beBytes n x) = x % 256 ^ n := by
  rw [bigEndian, beBytes, List.reverse_reverse, littleEndian_leBytes]

/-- A number that fits a signed type is read as it is. -/
theorem intOf_of_lt {w : ℕ} {x : ℤ} (hlo : -2 ^ w ≤ 2 * x) (hhi : 2 * x < 2 ^ w) : intOf w x = x := by
  have hpow : ((2 ^ w : ℕ) : ℤ) = 2 ^ w := by push_cast; rfl
  apply Int.bmod_eq_of_le_mul_two
  · rw [hpow]
    omega
  · rw [hpow]
    omega

/-- A word that is read as signed. -/
theorem intOf_toNat {w : ℕ} (x : BitVec w) : intOf w x.toNat = x.toInt := by
  rw [BitVec.toInt_eq_toNat_bmod, intOf]

/-- What a signed type keeps is in its range. -/
theorem intOf_bounds {w : ℕ} (hw : 0 < w) (x : ℤ) :
    -2 ^ w ≤ 2 * intOf w x ∧ 2 * intOf w x < 2 ^ w := by
  have hpow : ((2 ^ w : ℕ) : ℤ) = 2 ^ w := by push_cast; rfl
  have hpos : 0 < 2 ^ w := Nat.two_pow_pos w
  have heven : (2 ^ w : ℕ) = 2 * 2 ^ (w - 1) := by
    rw [← pow_succ', Nat.sub_add_cancel hw]
  have hlo := @Int.le_bmod x (2 ^ w) hpos
  have hhi := @Int.bmod_lt x (2 ^ w) hpos
  unfold intOf
  omega

/-- What `LEndianBytesToKInt` reads of fewer bytes than the type has is not negative. -/
theorem lEndianBytesToKInt_bounds {w : ℕ} {buf : List UInt8} {n : ℕ} (h : 8 * n < w) :
    0 ≤ (lEndianBytesToKInt w buf n).1 ∧ (lEndianBytesToKInt w buf n).1 < 256 ^ n := by
  unfold lEndianBytesToKInt
  have hpos : (0 : ℤ) < 256 ^ n := by positivity
  split_ifs
  · exact ⟨le_rfl, hpos⟩
  · exact ⟨le_rfl, hpos⟩
  · rename_i hwide hlen
    have hlt := littleEndian_lt (buf.take n)
    rw [List.length_take, Nat.min_eq_left (Nat.le_of_not_lt hlen)] at hlt
    have hlt' : (littleEndian (buf.take n) : ℤ) < 256 ^ n := by exact_mod_cast hlt
    have hpow : (2 : ℤ) * 256 ^ n ≤ 2 ^ w := by
      calc (2 : ℤ) * 256 ^ n = 2 ^ (8 * n + 1) := by
            rw [pow_succ, pow_mul]
            norm_num
            ring
        _ ≤ 2 ^ w := pow_le_pow_right₀ (by norm_num) h
    -- Fewer bytes than the type has leave its highest bit alone.
    rw [intOf_of_lt (by omega) (by omega)]
    exact ⟨by omega, hlt'⟩

/-- `strings.Index`. -/
def index (s sentinel : List UInt8) : Option ℕ :=
  (List.range (s.length + 1)).find? (fun i => sentinel.isPrefixOf (s.drop i))

/-! ## Looking for a boundary -/

/-- What the body of a `FindBoundary` loop says about a position: it is one, go on, or give
up. -/
inductive Probe
  | found
  | next
  | stop
deriving DecidableEq

/-- The loop over the `n` positions from `i` on. -/
def scanLoop (probe : ℤ → Except Panic Probe) : ℕ → ℤ → Except Panic ℤ
  | 0, _ => .ok (-1)
  | n + 1, i => do
      match ← probe i with
      | .found => .ok i
      | .next => scanLoop probe n (i + 1)
      | .stop => .ok (-1)

/-- `for i := startPos; i < last; i++`. -/
def scan (probe : ℤ → Except Panic Probe) (startPos last : ℤ) : Except Panic ℤ :=
  scanLoop probe (last - startPos).toNat startPos

theorem scanLoop_bounds {probe : ℤ → Except Panic Probe} {n : ℕ} {i pos : ℤ}
    (h : scanLoop probe n i = .ok pos) : pos = -1 ∨ i ≤ pos ∧ pos < i + n := by
  induction n generalizing i with
  | zero =>
      cases h
      exact Or.inl rfl
  | succ n ih =>
      rw [scanLoop] at h
      obtain ⟨answer, -, h⟩ := Trace.bind_eq_ok.mp h
      rcases answer with _ | _ | _
      · cases h
        right
        omega
      · rcases ih h with hnone | hbounds
        · exact Or.inl hnone
        · right
          omega
      · cases h
        exact Or.inl rfl

/-- A boundary that is found lies among the positions that were looked at. -/
theorem scan_bounds {probe : ℤ → Except Panic Probe} {startPos last pos : ℤ}
    (h : scan probe startPos last = .ok pos) : pos = -1 ∨ startPos ≤ pos ∧ pos < last := by
  rcases scanLoop_bounds h with hnone | hbounds
  · exact Or.inl hnone
  · right
    omega

theorem scanLoop_none {probe : ℤ → Except Panic Probe} {n : ℕ} {i pos : ℤ}
    (hprobe : ∀ j answer, probe j = .ok answer → answer ≠ .found)
    (h : scanLoop probe n i = .ok pos) : pos = -1 := by
  induction n generalizing i with
  | zero =>
      cases h
      rfl
  | succ n ih =>
      rw [scanLoop] at h
      obtain ⟨answer, hanswer, h⟩ := Trace.bind_eq_ok.mp h
      rcases answer with _ | _ | _
      · exact absurd rfl (hprobe i .found hanswer)
      · exact ih h
      · cases h
        rfl

/-- Where no position is a boundary, none is found. -/
theorem scan_none {probe : ℤ → Except Panic Probe} {startPos last pos : ℤ}
    (hprobe : ∀ j answer, probe j = .ok answer → answer ≠ .found)
    (h : scan probe startPos last = .ok pos) : pos = -1 :=
  scanLoop_none hprobe h

/-! ## `BinaryDecoder` -/

structure BinaryDecoder where
  str : List UInt8
  readBytes : ℤ
deriving DecidableEq

/-- The errors the decoders tell apart: `ResourceNotAvailble`, `NotFound` and any other. -/
inductive DecodeError
  | resourceNotAvailble
  | notFound
  | invalidArgument
deriving DecidableEq

/-- How a decoding function can fail. -/
inductive Failure
  | panic (p : Panic)
  | err (e : DecodeError)
deriving DecidableEq

/-- An error of a function that does not panic. -/
def orFail {α : Type} (x : Except DecodeError α) : Except Failure α :=
  match x with
  | .error e => .error (.err e)
  | .ok a => .ok a

theorem orFail_eq_ok {α : Type} {x : Except DecodeError α} {a : α} (h : orFail x = .ok a) :
    x = .ok a := by
  rcases x with e | b
  · cases h
  · cases h
    rfl

namespace BinaryDecoder

def new (buf : List UInt8) : BinaryDecoder := { str := buf, readBytes := 0 }

def getSize (d : BinaryDecoder) : ℤ := d.str.length

/-- `RemovePrefix`, which does not count what it removes. -/
def removePrefix (d : BinaryDecoder) (size : ℤ) : Except Panic BinaryDecoder := do
  let str ← slice d.str size d.str.length
  .ok { d with str := str }

/-- The first `n` bytes are taken off the string. -/
def taking (d : BinaryDecoder) (n : ℕ) : BinaryDecoder :=
  { str := d.str.drop n, readBytes := d.readBytes + n }

def extractStringUntil (d : BinaryDecoder) (sentinel : List UInt8) :
    Except DecodeError (List UInt8 × BinaryDecoder) :=
  match index d.str sentinel with
  | none => .error .notFound
  | some idx => .ok (d.str.take idx, d.taking (idx + sentinel.length))

def extractString (d : BinaryDecoder) (length : ℤ) :
    Except Failure (List UInt8 × BinaryDecoder) :=
  if (d.str.length : ℤ) < length then .error (.err .resourceNotAvailble)
  -- The comparison is signed, so a length below zero gets as far as the slice.
  else if length < 0 then .error (.panic .sliceOutOfRange)
  else .ok (d.str.take length.toNat, d.taking length.toNat)

def extractByte (d : BinaryDecoder) : Except DecodeError (UInt8 × BinaryDecoder) :=
  match d.str with
  | [] => .error .resourceNotAvailble
  | x :: _ => .ok (x, d.taking 1)

/-- `ExtractBEInt`, of a type of `n` bytes, before it is read as signed. -/
def extractBE (d : BinaryDecoder) (n : ℕ) : Except DecodeError (ℕ × BinaryDecoder) :=
  if d.str.length < n then .error .resourceNotAvailble
  else .ok (bigEndian (d.str.take n), d.taking n)

/-- `ExtractBEInt` of a signed type of `n` bytes. -/
def extractBEInt (d : BinaryDecoder) (n : ℕ) : Except DecodeError (ℤ × BinaryDecoder) :=
  (d.extractBE n).map fun (x, d) => (intOf (8 * n) x, d)

/-- `ExtractLEInt` of an unsigned type of `n` bytes. -/
def extractLE (d : BinaryDecoder) (n : ℕ) : Except DecodeError (ℕ × BinaryDecoder) :=
  if d.str.length < n then .error .resourceNotAvailble
  else .ok (littleEndian (d.str.take n), d.taking n)

/-- `ExtractLEInt` of a signed type of `n` bytes. -/
def extractLEInt (d : BinaryDecoder) (n : ℕ) : Except DecodeError (ℤ × BinaryDecoder) :=
  (d.extractLE n).map fun (x, d) => (intOf (8 * n) x, d)

/-- `LEndianBytesToInt[int32]`, which leaves the number where it is. -/
def lEndianBytesToInt (d : BinaryDecoder) : ℤ :=
  if d.str.length < 4 then 0 else intOf 32 (littleEndian (d.str.take 4))

end BinaryDecoder

/-- `CreateFrameBase`, on the head of the stream buffer. -/
def createFrameBase (sb : StreamBuffer) (head : Buffer) (readBytes : ℤ) : Option FrameBase :=
  let seq := head.leftBoundary
  (sb.findTimestampBySeq seq).map fun ts =>
    { timestampNs := ts, byteSize := readBytes, seq := seq }

/-- A stream buffer of one run of bytes. -/
def bufferOf (buf : List UInt8) : StreamBuffer :=
  { buffers := [⟨buf, 0⟩], capacity := buf.length, timestamps := SortedMap.empty.put 0 1 }

/-! ## What an extraction does to the decoder -/

namespace BinaryDecoder

/-- As many bytes went off the string as were counted, and at least `n`. -/
structure Advances (n : ℤ) (d d' : BinaryDecoder) : Prop where
  counted : d'.readBytes + d'.str.length = d.readBytes + d.str.length
  moved : d.readBytes + n ≤ d'.readBytes

variable {d d₁ d' : BinaryDecoder} {m n : ℤ}

theorem Advances.refl (d : BinaryDecoder) : Advances 0 d d := ⟨rfl, by omega⟩

theorem Advances.trans (h : Advances m d d₁) (h' : Advances n d₁ d') : Advances (m + n) d d' := by
  refine ⟨h'.counted.trans h.counted, ?_⟩
  have := h.moved
  have := h'.moved
  omega

theorem Advances.weaken (h : Advances m d d') (hle : n ≤ m) : Advances n d d' := by
  refine ⟨h.counted, ?_⟩
  have := h.moved
  omega

theorem taking_advances {k : ℕ} (h : k ≤ d.str.length) : Advances k d (d.taking k) := by
  refine ⟨?_, ?_⟩
  · unfold taking
    dsimp only
    rw [List.length_drop]
    omega
  · unfold taking
    dsimp only
    omega

theorem index_le {s sentinel : List UInt8} {i : ℕ} (h : index s sentinel = some i) :
    i + sentinel.length ≤ s.length := by
  have hmem := List.mem_range.mp (List.mem_of_find?_eq_some h)
  have hfound : sentinel.isPrefixOf (s.drop i) = true :=
    @List.find?_some _ (fun j => sentinel.isPrefixOf (s.drop j)) i _ h
  have hlen := (List.isPrefixOf_iff_prefix.mp hfound).length_le
  rw [List.length_drop] at hlen
  omega

/-- `strings.Index` is the first place where the sentinel stands. -/
theorem index_eq_some_iff {s sentinel : List UInt8} {i : ℕ} :
    index s sentinel = some i
      ↔ sentinel <+: s.drop i ∧ i ≤ s.length ∧ ∀ j < i, ¬sentinel <+: s.drop j := by
  unfold index
  rw [List.find?_range_eq_some, List.isPrefixOf_iff_prefix, List.mem_range, Nat.lt_succ_iff]
  simp only [Bool.not_eq_true', Bool.eq_false_iff, ne_eq, List.isPrefixOf_iff_prefix]

theorem index_eq_none_iff {s sentinel : List UInt8} :
    index s sentinel = none ↔ ∀ i ≤ s.length, ¬sentinel <+: s.drop i := by
  unfold index
  rw [List.find?_eq_none]
  simp only [List.mem_range, Nat.lt_succ_iff, List.isPrefixOf_iff_prefix]

theorem extractStringUntil_advances {sentinel str : List UInt8}
    (h : d.extractStringUntil sentinel = .ok (str, d')) : Advances sentinel.length d d' := by
  unfold extractStringUntil at h
  rcases hidx : index d.str sentinel with _ | idx
  · rw [hidx] at h
    cases h
  · rw [hidx] at h
    cases h
    apply (taking_advances (index_le hidx)).weaken
    omega

theorem extractString_advances {length : ℤ} {str : List UInt8}
    (h : d.extractString length = .ok (str, d')) : Advances length d d' ∧ 0 ≤ length := by
  unfold extractString at h
  split_ifs at h with hshort hneg
  cases h
  refine ⟨?_, by omega⟩
  have htake : length.toNat ≤ d.str.length := by omega
  apply (taking_advances htake).weaken
  omega

theorem extractByte_advances {x : UInt8} (h : d.extractByte = .ok (x, d')) : Advances 1 d d' := by
  unfold extractByte at h
  rcases hstr : d.str with _ | ⟨y, rest⟩
  · rw [hstr] at h
    cases h
  · rw [hstr] at h
    cases h
    apply taking_advances
    rw [hstr]
    exact Nat.succ_pos _

theorem extractLE_advances {k x : ℕ} (h : d.extractLE k = .ok (x, d')) : Advances k d d' := by
  unfold extractLE at h
  split_ifs at h with hshort
  cases h
  exact taking_advances (by omega)

theorem extractLEInt_advances {k : ℕ} {x : ℤ} (h : d.extractLEInt k = .ok (x, d')) :
    Advances k d d' := by
  obtain ⟨⟨y, d₁⟩, hy, heq⟩ := Trace.map_eq_ok h
  cases heq
  exact extractLE_advances hy

theorem extractBEInt_bounds {n : ℕ} {x : ℤ} (hn : 0 < n)
    (h : d.extractBEInt n = .ok (x, d')) : -2 ^ (8 * n) ≤ 2 * x ∧ 2 * x < 2 ^ (8 * n) := by
  obtain ⟨⟨y, d₁⟩, -, heq⟩ := Trace.map_eq_ok h
  cases heq
  exact intOf_bounds (by omega) _

/-- What was read of a buffer lies in it. -/
theorem Advances.read_le {buf : List UInt8} (h : Advances n (new buf) d') :
    n ≤ d'.readBytes ∧ d'.readBytes ≤ buf.length := by
  have hcounted : d'.readBytes + d'.str.length = 0 + buf.length := h.counted
  have hmoved : 0 + n ≤ d'.readBytes := h.moved
  omega

end BinaryDecoder

end Kyanos
