/-
`agent/buffer/stream_buffer.go`, the `Buffer` half: one contiguous run of stream
bytes, and the two ways a new segment is fused onto it.

A `Buffer` is a start position and the bytes from there on. `FuseAsLeft` extends
a buffer at its right end (the buffer is the *left* neighbour of the segment) and
`FuseAsRight` at its left end; both trim the bytes the segment shares with the
buffer, and both panic when the segment does not touch it. Slices are values
here: every segment arrives in a slice of its own, so no two buffers share
memory and an `append` never writes over another buffer's bytes.

What the rest of the development uses is the last section: for a buffer whose
range does not wrap, the boundaries are plain sums, the two fuse predicates are
inequalities between them, and a fuse the predicate allows does not panic and has
the closed form `extend` or `prepend`.
-/
import Kyanos.Common
import Kyanos.Pieces

set_option autoImplicit false

open GoNum Pieces

namespace Kyanos

/-! ## Slices -/

/-- Go's `data[n:]`. -/
def sliceFrom (data : List UInt8) (n : ℕ) : Except Panic (List UInt8) :=
  if n ≤ data.length then .ok (data.drop n) else .error .sliceOutOfRange

/-- Go's `data[:n]`, for a slice without spare capacity. -/
def sliceTo (data : List UInt8) (n : ℕ) : Except Panic (List UInt8) :=
  if n ≤ data.length then .ok (data.take n) else .error .sliceOutOfRange

theorem sliceFrom_eq {data : List UInt8} {n : ℕ} (h : n ≤ data.length) :
    sliceFrom data n = .ok (data.drop n) := if_pos h

theorem sliceTo_eq {data : List UInt8} {n : ℕ} (h : n ≤ data.length) :
    sliceTo data n = .ok (data.take n) := if_pos h

/-! ## `Buffer` -/

/-- One contiguous run of bytes, starting at position `seq` of the stream. -/
structure Buffer where
  buf : List UInt8
  seq : ℕ
deriving DecidableEq, Repr

namespace Buffer

def len (b : Buffer) : ℕ := b.buf.length

def leftBoundary (b : Buffer) : ℕ := b.seq

/-- `RightBoundary`, the position after the last byte. -/
def rightBoundary (b : Buffer) : ℕ := u64 (b.seq + b.buf.length)

/-- `CanFuseAsLeft`: the segment starts inside the buffer or right after it, and
does not end before it. -/
def canFuseAsLeft (b : Buffer) (seq len : ℕ) : Bool :=
  let r := u64 (seq + len)
  b.rightBoundary ≥ seq && b.leftBoundary ≤ seq && r ≥ b.rightBoundary

/-- `CanFuseAsRight`: the segment ends inside the buffer or right before it, and
does not start after it. -/
def canFuseAsRight (b : Buffer) (seq len : ℕ) : Bool :=
  let r := u64 (seq + len)
  b.leftBoundary ≤ r && b.rightBoundary ≥ r && b.leftBoundary ≥ seq

/-- `FuseAsLeft`: append the part of the segment that lies beyond the buffer. -/
def fuseAsLeft (b : Buffer) (seq : ℕ) (data : List UInt8) : Except Panic Buffer :=
  let r := u64 (seq + data.length)
  if seq = b.rightBoundary then .ok { b with buf := b.buf ++ data }
  else if seq < b.rightBoundary ∧ seq ≥ b.leftBoundary then do
    let overlapSize := subU64 b.rightBoundary seq
    let data ← sliceFrom data overlapSize
    .ok { b with buf := b.buf ++ data }
  else .error (.fuse b.leftBoundary b.rightBoundary seq r)

/-- `FuseAsRight`: put the part of the segment that lies before the buffer in
front of it. -/
def fuseAsRight (b : Buffer) (seq : ℕ) (data : List UInt8) : Except Panic Buffer :=
  let r := u64 (seq + data.length)
  if r = b.leftBoundary then .ok { buf := data ++ b.buf, seq := seq }
  else if r > b.leftBoundary ∧ r ≤ b.rightBoundary then do
    let overlapSize := subU64 r b.leftBoundary
    let data ← sliceTo data (subU64 data.length overlapSize)
    .ok { buf := data ++ b.buf, seq := seq }
  else .error (.fuse b.leftBoundary b.rightBoundary seq r)

def removePrefix (b : Buffer) (len : ℤ) : Except Panic Buffer :=
  if (b.len : ℤ) > len then
    if len < 0 then .error .sliceOutOfRange
    else .ok { buf := b.buf.drop len.toNat, seq := u64 (b.seq + ofInt64 len) }
  else if (b.len : ℤ) = len then .ok b
  else .error .removeTooMuch

/-! ## Buffers whose range does not wrap -/

/-- A buffer with at least one byte and no wrap of its right boundary. -/
structure Fits (b : Buffer) : Prop where
  nonempty : b.buf ≠ []
  noWrap : b.seq + b.buf.length < 2 ^ 64

theorem Fits.length_pos {b : Buffer} (h : b.Fits) : 0 < b.buf.length :=
  List.length_pos_iff.mpr h.nonempty

theorem rightBoundary_eq {b : Buffer} (h : b.Fits) :
    b.rightBoundary = b.seq + b.buf.length := u64_of_lt h.noWrap

/-- The buffer as a piece of the stream. -/
def piece (b : Buffer) : ℕ × List UInt8 := (b.seq, b.buf)

/-- The buffer has a byte at position `p`. -/
def Covers (b : Buffer) (p : ℕ) : Prop := b.leftBoundary ≤ p ∧ p < b.rightBoundary

instance (b : Buffer) (p : ℕ) : Decidable (b.Covers p) := inferInstanceAs (Decidable (_ ∧ _))

theorem covers_iff {b : Buffer} (h : b.Fits) {p : ℕ} :
    b.Covers p ↔ b.seq ≤ p ∧ p < b.seq + b.buf.length := by
  rw [Covers, rightBoundary_eq h, leftBoundary]

/-! ## The closed forms of a fuse -/

/-- What `FuseAsLeft` leaves: the buffer, then the segment from its end on. -/
def extend (b : Buffer) (seq : ℕ) (data : List UInt8) : Buffer :=
  { b with buf := b.buf ++ data.drop (b.seq + b.buf.length - seq) }

/-- What `FuseAsRight` leaves: the segment up to the buffer's start, then the buffer. -/
def prepend (b : Buffer) (seq : ℕ) (data : List UInt8) : Buffer :=
  { buf := data.take (b.seq - seq) ++ b.buf, seq := seq }

@[simp] theorem extend_seq (b : Buffer) (seq : ℕ) (data : List UInt8) :
    (b.extend seq data).seq = b.seq := rfl

@[simp] theorem prepend_seq (b : Buffer) (seq : ℕ) (data : List UInt8) :
    (b.prepend seq data).seq = seq := rfl

section Fuse

variable {b : Buffer} {seq : ℕ} {data : List UInt8}

theorem canFuseAsLeft_iff (hb : b.Fits) (hs : seq + data.length < 2 ^ 64) :
    b.canFuseAsLeft seq data.length = true ↔
      b.seq ≤ seq ∧ seq ≤ b.seq + b.buf.length
        ∧ b.seq + b.buf.length ≤ seq + data.length := by
  rw [canFuseAsLeft, rightBoundary_eq hb, u64_of_lt hs, leftBoundary]
  simp only [ge_iff_le, Bool.and_eq_true, decide_eq_true_eq]
  omega

theorem canFuseAsRight_iff (hb : b.Fits) (hs : seq + data.length < 2 ^ 64) :
    b.canFuseAsRight seq data.length = true ↔
      seq ≤ b.seq ∧ b.seq ≤ seq + data.length
        ∧ seq + data.length ≤ b.seq + b.buf.length := by
  rw [canFuseAsRight, rightBoundary_eq hb, u64_of_lt hs, leftBoundary]
  simp only [ge_iff_le, Bool.and_eq_true, decide_eq_true_eq]
  omega

/-- A segment that meets `CanFuseAsLeft` is fused without a panic. -/
theorem fuseAsLeft_eq (hb : b.Fits) (hl : b.seq ≤ seq) (hr : seq ≤ b.seq + b.buf.length)
    (hend : b.seq + b.buf.length ≤ seq + data.length) :
    b.fuseAsLeft seq data = .ok (b.extend seq data) := by
  rw [fuseAsLeft, rightBoundary_eq hb, leftBoundary, extend]
  by_cases heq : seq = b.seq + b.buf.length
  · rw [if_pos heq, heq, Nat.sub_self, List.drop_zero]
  · have hwrap := hb.noWrap
    rw [if_neg heq, if_pos ⟨by omega, hl⟩]
    dsimp only
    rw [subU64_of_le hr hwrap, sliceFrom_eq (by omega)]
    rfl

/-- A segment that meets `CanFuseAsRight` is fused without a panic. -/
theorem fuseAsRight_eq (hb : b.Fits) (hs : seq + data.length < 2 ^ 64) (hl : seq ≤ b.seq)
    (hr : b.seq ≤ seq + data.length)
    (hend : seq + data.length ≤ b.seq + b.buf.length) :
    b.fuseAsRight seq data = .ok (b.prepend seq data) := by
  rw [fuseAsRight, rightBoundary_eq hb, leftBoundary, prepend, u64_of_lt hs]
  by_cases heq : seq + data.length = b.seq
  · rw [if_pos heq, List.take_of_length_le (by omega)]
  · have hover : subU64 (seq + data.length) b.seq = seq + data.length - b.seq :=
      subU64_of_le hr hs
    have hcut : subU64 data.length (seq + data.length - b.seq) = b.seq - seq := by
      rw [subU64_of_le (by omega) (by omega)]
      omega
    rw [if_neg heq, if_pos ⟨by omega, hend⟩]
    dsimp only
    rw [hover, hcut, sliceTo_eq (by omega)]
    rfl

theorem length_extend (hr : seq ≤ b.seq + b.buf.length)
    (hend : b.seq + b.buf.length ≤ seq + data.length) :
    b.seq + (b.extend seq data).buf.length = seq + data.length := by
  simp only [extend, List.length_append, List.length_drop]
  omega

theorem length_prepend (hl : seq ≤ b.seq) (hr : b.seq ≤ seq + data.length) :
    seq + (b.prepend seq data).buf.length = b.seq + b.buf.length := by
  simp only [prepend, List.length_append, List.length_take]
  omega

end Fuse

end Buffer

end Kyanos
