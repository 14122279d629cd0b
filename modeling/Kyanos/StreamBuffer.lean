/-
`agent/buffer/stream_buffer.go`: the reassembly buffer of one direction of a
connection.

A `StreamBuffer` keeps the received runs of bytes as a list of `Buffer`s and, in a
tree map, the timestamp of every segment under the position it started at. The
first half of this file is the source, function by function and under its names:
`Add` with its early returns (a start already seen, the three discard rules) and
its nine fuse branches (`place`), the capacity and timestamp cleaners, and the
removals. Pointers into `sb.buffers` are indices here.

The second half says once what each of them can do. `Placed` lists the four
shapes a segment can leave behind, and `place_placed` that the nine branches
produce exactly these and never panic. `add_added` is the inversion of `Add`, and
`removePrefix_invariant` the rule for removals. Every invariant of the
following files is a case split over these and unfolds nothing.
-/
import Kyanos.Buffer
import Kyanos.SortedMap
import Kyanos.Trace

set_option autoImplicit false

open GoNum Pieces

namespace Kyanos

/-! ## The state -/

def maxBytesGap : ℤ := 1024 * 1024 * 1

/-- `maxBytesGapIndicateTcpSeqOverflow`, that is `math.MaxUint32 / 2`. -/
def maxBytesGapIndicateTcpSeqOverflow : ℤ := 4294967295 / 2

def maxTimestampEntries : ℕ := 100000

structure StreamBuffer where
  buffers : List Buffer
  capacity : ℤ
  timestamps : SortedMap ℕ ℕ
deriving DecidableEq

namespace StreamBuffer

def new (capacity : ℤ) : StreamBuffer :=
  { buffers := [], capacity := capacity, timestamps := SortedMap.empty }

def isEmpty (sb : StreamBuffer) : Bool := sb.buffers.length == 0

/-- `Head`, which is `nil` on an empty buffer. -/
def head (sb : StreamBuffer) : Option Buffer := sb.buffers.head?

def position0 (sb : StreamBuffer) : ℕ :=
  match sb.buffers with
  | [] => 0
  | b :: _ => b.seq

def positionN (sb : StreamBuffer) : ℕ :=
  match sb.buffers.getLast? with
  | none => 0
  | some b => b.rightBoundary

def clear (sb : StreamBuffer) : StreamBuffer :=
  { sb with buffers := [], timestamps := SortedMap.empty }

/-! ## Cleaning the timestamp map -/

/-- `cleanTimestampMapBySeqNoMoreThan`, on the map: the keys are visited in
ascending order up to the first one that is not below `targetSeq`. -/
def cleanBySeq (timestamps : SortedMap ℕ ℕ) (targetSeq : ℕ) : SortedMap ℕ ℕ :=
  let needsDelete := timestamps.keys.takeWhile (fun seq => seq < targetSeq)
  timestamps.removeAll needsDelete

/-- `cleanOldTimestamps`: above the limit, the older half of the entries goes. -/
def cleanOldTimestamps (sb : StreamBuffer) : StreamBuffer :=
  if sb.timestamps.size ≤ maxTimestampEntries then sb
  else
    let removeCount := sb.timestamps.size / 2
    let needsDelete := sb.timestamps.keys.take removeCount
    { sb with timestamps := sb.timestamps.removeAll needsDelete }

def updateTimestamp (sb : StreamBuffer) (seq timestamp : ℕ) : StreamBuffer :=
  { sb with timestamps := sb.timestamps.put seq timestamp }

/-- `FindTimestampBySeq`; `none` is the result with `ok = false`. -/
def findTimestampBySeq (sb : StreamBuffer) (targetSeq : ℕ) : Option ℕ :=
  (sb.timestamps.floor targetSeq).map Prod.snd

/-! ## Removing from the front -/

/-- The loop of `RemovePrefix` over the remaining buffers. A head not longer than
`left` is dropped by `shrinkHeadBuffer`, which cleans the map up to its start;
when the buffers run out first, the next `head.Len()` has no receiver. -/
def removePrefixLoop : List Buffer → SortedMap ℕ ℕ → ℤ →
    Except Panic (List Buffer × SortedMap ℕ ℕ)
  | [], timestamps, left => if left = 0 then .ok ([], timestamps) else .error .nilDereference
  | head :: rest, timestamps, left =>
      if left = 0 then .ok (head :: rest, timestamps)
      else if (head.len : ℤ) > left then do
        let head ← head.removePrefix left
        .ok (head :: rest, timestamps)
      else removePrefixLoop rest (cleanBySeq timestamps head.seq) (left - head.len)

def removePrefix (sb : StreamBuffer) (length : ℤ) : Except Panic StreamBuffer :=
  if sb.isEmpty then .ok sb
  else do
    let (buffers, timestamps) ← removePrefixLoop sb.buffers sb.timestamps length
    .ok { sb with buffers := buffers, timestamps := timestamps }

def removeHead (sb : StreamBuffer) : Except Panic StreamBuffer :=
  match sb.head with
  | none => .error .nilDereference
  | some head => sb.removePrefix head.len

/-- The loop condition of `shrinkBufferUntilSizeBelowCapacity`. -/
def overCapacity (sb : StreamBuffer) : Bool :=
  !sb.isEmpty && subU64 sb.positionN sb.position0 > ofInt64 sb.capacity

/-- The loop of `shrinkBufferUntilSizeBelowCapacity`: the buffers it keeps, and
the last one it deleted. -/
def shrinkLoop (sb : StreamBuffer) : List Buffer → Option Buffer → List Buffer × Option Buffer
  | [], lastDelete => ([], lastDelete)
  | head :: rest, lastDelete =>
      if overCapacity { sb with buffers := head :: rest } then shrinkLoop sb rest (some head)
      else (head :: rest, lastDelete)

def shrinkBufferUntilSizeBelowCapacity (sb : StreamBuffer) : StreamBuffer :=
  match shrinkLoop sb sb.buffers none with
  | (buffers, none) => { sb with buffers := buffers }
  | (buffers, some lastDelete) =>
      { sb with buffers := buffers, timestamps := cleanBySeq sb.timestamps lastDelete.seq }

/-! ## `Add` -/

def findLeftLoop (seq : ℕ) : List Buffer → ℤ → Option Buffer → ℤ × Option Buffer
  | [], index, prev => (index - 1, prev)
  | each :: rest, index, prev =>
      if each.leftBoundary > seq then (index - 1, prev)
      else findLeftLoop seq rest (index + 1) (some each)

/-- `findLeftBufferBySeq`: the buffer before the first one that starts after `seq`. -/
def findLeftBufferBySeq (sb : StreamBuffer) (seq : ℕ) : ℤ × Option Buffer :=
  findLeftLoop seq sb.buffers 0 none

def findRightLoop (seq : ℕ) : List Buffer → ℤ → ℤ × Option Buffer
  | [], index => (index - 1, none)
  | each :: rest, index =>
      if each.leftBoundary > seq then (index, some each) else findRightLoop seq rest (index + 1)

/-- `findRightBufferBySeq`: the first buffer that starts after `seq`. -/
def findRightBufferBySeq (sb : StreamBuffer) (seq : ℕ) : ℤ × Option Buffer :=
  findRightLoop seq sb.buffers 0

/-- The nine branches of `Add` over the neighbours of the new segment. The fused
buffer replaces the one the source mutates through its pointer. -/
def place (sb : StreamBuffer) (seq : ℕ) (data : List UInt8) : Except Panic (List Buffer) :=
  let newBuffer : Buffer := { buf := data, seq := seq }
  let (leftIndex, leftBuffer) := sb.findLeftBufferBySeq seq
  let (rightIndex, rightBuffer) := sb.findRightBufferBySeq seq
  match leftBuffer, rightBuffer with
  | none, none => .ok (sb.buffers ++ [newBuffer])
  | none, some right =>
      if right.canFuseAsRight seq data.length then do
        let right ← right.fuseAsRight seq data
        .ok (sb.buffers.set rightIndex.toNat right)
      else .ok (sb.buffers.insertIdx 0 newBuffer)
  | some left, none =>
      if left.canFuseAsLeft seq data.length then do
        let left ← left.fuseAsLeft seq data
        .ok (sb.buffers.set leftIndex.toNat left)
      else .ok (sb.buffers ++ [newBuffer])
  | some left, some right =>
      -- The segment closes the gap: the right buffer takes the left one over.
      if left.canFuseAsLeft seq data.length && right.canFuseAsRight seq data.length then do
        let left ← left.fuseAsLeft seq data
        let right ← right.fuseAsRight left.seq left.buf
        .ok ((sb.buffers.set rightIndex.toNat right).eraseIdx leftIndex.toNat)
      else if left.canFuseAsLeft seq data.length && !right.canFuseAsRight seq data.length then do
        let left ← left.fuseAsLeft seq data
        .ok (sb.buffers.set leftIndex.toNat left)
      else if !left.canFuseAsLeft seq data.length && right.canFuseAsRight seq data.length then do
        let right ← right.fuseAsRight seq data
        .ok (sb.buffers.set rightIndex.toNat right)
      else .ok (sb.buffers.insertIdx (leftIndex + 1).toNat newBuffer)

/-- The first discard rule: the segment is far behind the end of the buffer. -/
def overflows (sb : StreamBuffer) (seq : ℕ) : Bool :=
  toInt64 (subU64 sb.positionN seq) ≥ maxBytesGapIndicateTcpSeqOverflow

/-- The second discard rule: the segment starts far before the buffer. -/
def tooOld (sb : StreamBuffer) (seq : ℕ) : Bool :=
  toInt64 (subU64 sb.position0 seq) ≥ maxBytesGap

/-- The third discard rule: the segment starts far behind the buffer. -/
def largeGap (sb : StreamBuffer) (seq : ℕ) : Bool :=
  toInt64 (subU64 seq sb.positionN) ≥ maxBytesGap

def add (sb : StreamBuffer) (seq : ℕ) (data : List UInt8) (timestamp : ℕ) :
    Except Panic (Bool × StreamBuffer) :=
  -- A segment with a start already seen is dropped whole, whatever its length.
  if (sb.timestamps.get? seq).isSome then .ok (false, sb)
  else
    let newBuffer : Buffer := { buf := data, seq := seq }
    if sb.isEmpty then
      let sb := sb.updateTimestamp seq timestamp
      .ok (true, { sb with buffers := sb.buffers ++ [newBuffer] })
    else if sb.overflows seq then
      -- The new data is much older, as after a wrap of the TCP sequence number.
      let sb := sb.clear
      let sb := { sb with buffers := sb.buffers ++ [newBuffer] }
      .ok (true, sb.updateTimestamp seq timestamp)
    -- Too old: reported as added, but nothing is stored.
    else if sb.tooOld seq then .ok (true, sb)
    else if sb.largeGap seq then
      -- A large gap: the buffered data is given up.
      let sb := sb.clear
      let sb := { sb with buffers := sb.buffers ++ [newBuffer] }
      .ok (true, sb.updateTimestamp seq timestamp)
    else do
      let buffers ← sb.place seq data
      let sb := { sb with buffers := buffers }
      let sb := sb.updateTimestamp seq timestamp
      let sb := sb.shrinkBufferUntilSizeBelowCapacity
      let sb := sb.cleanOldTimestamps
      .ok (true, sb)

/-! ## What the cleaners and the removals do -/

/-- `cleanTimestampMapBySeqNoMoreThan` forgets exactly the starts below its target. -/
theorem get?_cleanBySeq (m : SortedMap ℕ ℕ) (t j : ℕ) :
    (cleanBySeq m t).get? j = if j < t then none else m.get? j := by
  rw [cleanBySeq, SortedMap.get?_removeAll]
  by_cases hj : j < t
  · rw [if_pos hj]
    split_ifs with hmem
    · rfl
    · rw [SortedMap.mem_takeWhile_keys, SortedMap.mem_keys] at hmem
      exact Option.not_isSome_iff_eq_none.mp (fun h => hmem ⟨h, hj⟩)
  · rw [if_neg hj, if_neg (fun hmem => hj (SortedMap.mem_takeWhile_keys.mp hmem).2)]

theorem shrinkLoop_eq (sb : StreamBuffer) (l : List Buffer) (lastDelete : Option Buffer) :
    ∃ dropped, l = dropped ++ (shrinkLoop sb l lastDelete).1
      ∧ (shrinkLoop sb l lastDelete).2 = dropped.getLast?.or lastDelete := by
  induction l generalizing lastDelete with
  | nil => exact ⟨[], by simp [shrinkLoop]⟩
  | cons head rest ih =>
      rw [shrinkLoop]
      split_ifs with hover
      · obtain ⟨dropped, hl, hlast⟩ := ih (some head)
        refine ⟨head :: dropped, by rw [List.cons_append, ← hl], ?_⟩
        rw [hlast, List.getLast?_cons]
        cases dropped.getLast? <;> rfl
      · exact ⟨[], by simp⟩

/-- The capacity shrink drops buffers from the front; if it drops any, the starts
before the last one dropped are forgotten. -/
theorem shrink_cases (sb : StreamBuffer) :
    sb.shrinkBufferUntilSizeBelowCapacity = sb ∨
      ∃ dropped last kept, sb.buffers = dropped ++ last :: kept
        ∧ sb.shrinkBufferUntilSizeBelowCapacity
          = { sb with buffers := kept, timestamps := cleanBySeq sb.timestamps last.seq } := by
  obtain ⟨dropped, hl, hlast⟩ := shrinkLoop_eq sb sb.buffers none
  rw [shrinkBufferUntilSizeBelowCapacity]
  rcases List.eq_nil_or_concat dropped with rfl | ⟨pre, last, rfl⟩
  · left
    have hnone : (shrinkLoop sb sb.buffers none).2 = none := by simpa using hlast
    rw [show shrinkLoop sb sb.buffers none = (sb.buffers, none) from
      Prod.ext (by simpa using hl.symm) hnone]
  · right
    have hsome : (shrinkLoop sb sb.buffers none).2 = some last := by simpa using hlast
    refine ⟨pre, last, (shrinkLoop sb sb.buffers none).1, by simpa using hl, ?_⟩
    rw [show shrinkLoop sb sb.buffers none = ((shrinkLoop sb sb.buffers none).1, some last) from
      Prod.ext rfl hsome]

/-- Within the capacity nothing is dropped. -/
theorem shrink_of_not_overCapacity {sb : StreamBuffer} (h : sb.overCapacity = false) :
    sb.shrinkBufferUntilSizeBelowCapacity = sb := by
  have hloop : shrinkLoop sb sb.buffers none = (sb.buffers, none) := by
    cases hbs : sb.buffers with
    | nil => rfl
    | cons head rest =>
        rw [shrinkLoop, ← hbs, if_neg (by simp [h])]
  rw [shrinkBufferUntilSizeBelowCapacity, hloop]

/-- Up to the limit no timestamp is dropped for its age. -/
theorem cleanOldTimestamps_of_size_le {sb : StreamBuffer}
    (h : sb.timestamps.size ≤ maxTimestampEntries) : sb.cleanOldTimestamps = sb := if_pos h

@[simp] theorem cleanOldTimestamps_buffers (sb : StreamBuffer) :
    sb.cleanOldTimestamps.buffers = sb.buffers := by
  rw [cleanOldTimestamps]
  split_ifs <;> rfl

/-- The head of a buffer list after `k` of its bytes are removed. -/
def trimHead (b : Buffer) (k : ℕ) : Buffer := { buf := b.buf.drop k, seq := u64 (b.seq + k) }

/-- **The rule for removals.** `RemovePrefix` is made of two moves, dropping the
head together with the starts before it and trimming the head; what both keep, it
keeps. -/
theorem removePrefixLoop_invariant {I : List Buffer → SortedMap ℕ ℕ → Prop}
    (hdrop : ∀ b bs m, I (b :: bs) m → I bs (cleanBySeq m b.seq))
    (htrim : ∀ b bs m k, 0 < k → k < b.buf.length → I (b :: bs) m →
      I (trimHead b k :: bs) m)
    {bs bs' : List Buffer} {m m' : SortedMap ℕ ℕ} {n : ℤ}
    (hinv : I bs m) (h : removePrefixLoop bs m n = .ok (bs', m')) : I bs' m' := by
  induction bs generalizing m n with
  | nil =>
      rw [removePrefixLoop] at h
      split_ifs at h
      cases h
      exact hinv
  | cons b bs ih =>
      rw [removePrefixLoop] at h
      split_ifs at h with h0 hlt
      · cases h
        exact hinv
      · -- The head is longer than what is left to remove: it is trimmed.
        rw [Buffer.removePrefix, if_pos hlt] at h
        split_ifs at h with hneg
        · cases h
        · cases h
          rw [Buffer.len] at hlt
          rw [ofInt64_of_nonneg (by omega)]
          exact htrim b bs m' n.toNat (by omega) (by omega) hinv
      · exact ih (hdrop b bs m hinv) h

theorem removePrefix_invariant {I : List Buffer → SortedMap ℕ ℕ → Prop}
    (hdrop : ∀ b bs m, I (b :: bs) m → I bs (cleanBySeq m b.seq))
    (htrim : ∀ b bs m k, 0 < k → k < b.buf.length → I (b :: bs) m →
      I (trimHead b k :: bs) m)
    {sb sb' : StreamBuffer} {n : ℤ} (hinv : I sb.buffers sb.timestamps)
    (h : sb.removePrefix n = .ok sb') : I sb'.buffers sb'.timestamps := by
  unfold StreamBuffer.removePrefix at h
  split_ifs at h
  · cases h
    exact hinv
  · obtain ⟨⟨bs', m'⟩, hloop, hok⟩ := Trace.bind_eq_ok.mp h
    cases hok
    exact removePrefixLoop_invariant hdrop htrim hinv hloop

/-- The number of bytes in a list of buffers. -/
def totalBytes (bs : List Buffer) : ℕ := (bs.map Buffer.len).sum

@[simp] theorem totalBytes_cons (b : Buffer) (bs : List Buffer) :
    totalBytes (b :: bs) = b.buf.length + totalBytes bs := rfl

/-- A removal of at most what is there never panics, and removes just that much. -/
theorem removePrefixLoop_ok {bs : List Buffer} (m : SortedMap ℕ ℕ) {n : ℤ} (h0 : 0 ≤ n)
    (hn : n ≤ totalBytes bs) :
    ∃ bs' m', removePrefixLoop bs m n = .ok (bs', m') ∧ (totalBytes bs' : ℤ) = totalBytes bs - n := by
  induction bs generalizing m n with
  | nil =>
      have hz : n = 0 := by
        simp only [totalBytes, List.map_nil, List.sum_nil, Nat.cast_zero] at hn
        omega
      exact ⟨[], m, by rw [removePrefixLoop, if_pos hz], by simp [hz]⟩
  | cons b bs ih =>
      rw [totalBytes_cons] at hn ⊢
      rw [removePrefixLoop]
      split_ifs with hz hlt
      · exact ⟨b :: bs, m, rfl, by simp [hz]⟩
      · rw [Buffer.removePrefix, if_pos hlt, if_neg (by omega)]
        refine ⟨_, m, rfl, ?_⟩
        rw [Buffer.len] at hlt
        simp only [totalBytes_cons, List.length_drop]
        omega
      · -- The head goes whole, and what is left to remove is no more than what is behind it.
        rw [Buffer.len] at hlt ⊢
        obtain ⟨bs', m', heq, htot⟩ :=
          ih (cleanBySeq m b.seq) (n := n - b.buf.length) (by omega) (by omega)
        exact ⟨bs', m', heq, by omega⟩

/-- A removal that does not panic has removed just as much as it was asked for. -/
theorem totalBytes_of_removePrefixLoop {bs bs' : List Buffer} {m m' : SortedMap ℕ ℕ} {n : ℤ}
    (h : removePrefixLoop bs m n = .ok (bs', m')) : (totalBytes bs' : ℤ) = totalBytes bs - n := by
  induction bs generalizing m n with
  | nil =>
      rw [removePrefixLoop] at h
      split_ifs at h with hz
      cases h
      simp [hz]
  | cons b bs ih =>
      rw [removePrefixLoop] at h
      split_ifs at h with hz hlt
      · cases h
        simp [hz]
      · rw [Buffer.removePrefix, if_pos hlt] at h
        split_ifs at h with hneg
        · cases h
        · cases h
          rw [Buffer.len] at hlt
          simp only [totalBytes_cons, List.length_drop]
          omega
      · have htail := ih h
        rw [totalBytes_cons]
        rw [Buffer.len] at htail
        omega

/-- How much was removed can be read off the bytes that are left. -/
theorem removePrefix_totalBytes {sb sb' : StreamBuffer} {n : ℤ} (h : sb.removePrefix n = .ok sb') :
    sb.removePrefix (totalBytes sb.buffers - totalBytes sb'.buffers) = .ok sb' := by
  by_cases hempty : sb.isEmpty = true
  · unfold removePrefix at h ⊢
    rw [if_pos hempty] at h ⊢
    exact h
  · have hn : (totalBytes sb'.buffers : ℤ) = totalBytes sb.buffers - n := by
      unfold removePrefix at h
      rw [if_neg hempty] at h
      obtain ⟨⟨bs', m'⟩, hloop, hok⟩ := Trace.bind_eq_ok.mp h
      cases hok
      exact totalBytes_of_removePrefixLoop hloop
    rw [hn, sub_sub_cancel]
    exact h

/-! ## What `Add` does to the buffers -/

section Place

variable (seq : ℕ) (data : List UInt8)

/-- The new segment extends the buffer at its right end. -/
def FusesLeft (b : Buffer) : Prop :=
  b.seq ≤ seq ∧ seq ≤ b.seq + b.buf.length ∧ b.seq + b.buf.length ≤ seq + data.length

/-- The new segment extends the buffer at its left end. -/
def FusesRight (b : Buffer) : Prop :=
  seq ≤ b.seq ∧ b.seq ≤ seq + data.length ∧ seq + data.length ≤ b.seq + b.buf.length

/-- The buffers up to `xs` start at or before the segment, the next one after it. -/
structure Split (xs ys : List Buffer) : Prop where
  left : ∀ b ∈ xs, b.seq ≤ seq
  right : ∀ b ∈ ys.head?, seq < b.seq

/-- The buffer both neighbours and the segment between them are fused into. -/
def bridged (l r : Buffer) : Buffer := r.prepend l.seq (l.extend seq data).buf

/-- The four shapes `Add` leaves the buffers in. -/
inductive Placed : List Buffer → List Buffer → Prop
  | insert (xs ys : List Buffer) (split : Split seq xs ys)
      (hl : ∀ l ∈ xs.getLast?, ¬ FusesLeft seq data l)
      (hr : ∀ r ∈ ys.head?, ¬ FusesRight seq data r) :
      Placed (xs ++ ys) (xs ++ ⟨data, seq⟩ :: ys)
  | extendLeft (xs : List Buffer) (l : Buffer) (ys : List Buffer)
      (split : Split seq (xs ++ [l]) ys) (hl : FusesLeft seq data l)
      (hr : ∀ r ∈ ys.head?, ¬ FusesRight seq data r) :
      Placed (xs ++ l :: ys) (xs ++ l.extend seq data :: ys)
  | extendRight (xs : List Buffer) (r : Buffer) (ys : List Buffer)
      (split : Split seq xs (r :: ys)) (hl : ∀ l ∈ xs.getLast?, ¬ FusesLeft seq data l)
      (hr : FusesRight seq data r) :
      Placed (xs ++ r :: ys) (xs ++ r.prepend seq data :: ys)
  | bridge (xs : List Buffer) (l r : Buffer) (ys : List Buffer)
      (split : Split seq (xs ++ [l]) (r :: ys)) (hl : FusesLeft seq data l)
      (hr : FusesRight seq data r) :
      Placed (xs ++ l :: r :: ys) (xs ++ bridged seq data l r :: ys)

end Place

theorem exists_split (seq : ℕ) (bs : List Buffer) :
    ∃ xs ys, bs = xs ++ ys ∧ Split seq xs ys := by
  refine ⟨bs.takeWhile (fun b => b.seq ≤ seq), bs.dropWhile (fun b => b.seq ≤ seq),
    List.takeWhile_append_dropWhile.symm, ?_, ?_⟩
  · intro b hb
    simpa using List.mem_takeWhile_imp hb
  · intro b hb
    have hnot := List.head?_dropWhile_not (fun b : Buffer => decide (b.seq ≤ seq)) bs
    rw [Option.mem_def] at hb
    rw [hb] at hnot
    simpa using hnot

section Neighbours

variable {seq : ℕ} {xs ys : List Buffer}

theorem findLeftLoop_eq (hs : Split seq xs ys) (index : ℤ) (prev : Option Buffer) :
    findLeftLoop seq (xs ++ ys) index prev
      = (index + xs.length - 1, xs.getLast?.or prev) := by
  induction xs generalizing index prev with
  | nil =>
      cases ys with
      | nil => simp [findLeftLoop]
      | cons y ys =>
          have hy : seq < y.seq := hs.right y rfl
          simp [findLeftLoop, Buffer.leftBoundary, hy]
  | cons x xs ih =>
      have hx : ¬ seq < x.seq := not_lt.mpr (hs.left x List.mem_cons_self)
      have htail : Split seq xs ys :=
        ⟨fun b hb => hs.left b (List.mem_cons_of_mem _ hb), hs.right⟩
      rw [List.cons_append, findLeftLoop, Buffer.leftBoundary, if_neg hx, ih htail,
        List.getLast?_cons, List.length_cons]
      refine Prod.ext (by push_cast; ring) ?_
      cases xs.getLast? <;> rfl

theorem findRightLoop_eq (hs : Split seq xs ys) (index : ℤ) :
    (findRightLoop seq (xs ++ ys) index).2 = ys.head?
      ∧ (ys ≠ [] → (findRightLoop seq (xs ++ ys) index).1 = index + xs.length) := by
  induction xs generalizing index with
  | nil =>
      cases ys with
      | nil => simp [findRightLoop]
      | cons y ys =>
          have hy : seq < y.seq := hs.right y rfl
          simp [findRightLoop, Buffer.leftBoundary, hy]
  | cons x xs ih =>
      have hx : ¬ seq < x.seq := not_lt.mpr (hs.left x List.mem_cons_self)
      have htail : Split seq xs ys :=
        ⟨fun b hb => hs.left b (List.mem_cons_of_mem _ hb), hs.right⟩
      obtain ⟨h2, h1⟩ := ih htail (index + 1)
      rw [List.cons_append, findRightLoop, Buffer.leftBoundary, if_neg hx]
      refine ⟨h2, fun hne => ?_⟩
      rw [h1 hne, List.length_cons]
      push_cast
      ring

variable {sb : StreamBuffer}

theorem findLeft_eq (hs : Split seq xs ys) (hbs : sb.buffers = xs ++ ys) :
    sb.findLeftBufferBySeq seq = ((xs.length : ℤ) - 1, xs.getLast?) := by
  rw [findLeftBufferBySeq, hbs, findLeftLoop_eq hs]
  simp

theorem findRight_snd (hs : Split seq xs ys) (hbs : sb.buffers = xs ++ ys) :
    (sb.findRightBufferBySeq seq).2 = ys.head? := by
  rw [findRightBufferBySeq, hbs]
  exact (findRightLoop_eq hs 0).1

theorem findRight_eq_cons {y : Buffer} (hs : Split seq xs (y :: ys))
    (hbs : sb.buffers = xs ++ y :: ys) :
    sb.findRightBufferBySeq seq = ((xs.length : ℤ), some y) := by
  obtain ⟨h2, h1⟩ := findRightLoop_eq hs 0
  rw [findRightBufferBySeq, hbs]
  exact Prod.ext (by simpa using h1 (by simp)) h2

end Neighbours

section PlaceSpec

variable {sb : StreamBuffer} {seq : ℕ} {data : List UInt8}

theorem canFuseAsLeft_iff_fusesLeft {b : Buffer} (hb : b.Fits) (hs : seq + data.length < 2 ^ 64) :
    b.canFuseAsLeft seq data.length = true ↔ FusesLeft seq data b :=
  Buffer.canFuseAsLeft_iff hb hs

theorem canFuseAsRight_iff_fusesRight {b : Buffer} (hb : b.Fits)
    (hs : seq + data.length < 2 ^ 64) :
    b.canFuseAsRight seq data.length = true ↔ FusesRight seq data b :=
  Buffer.canFuseAsRight_iff hb hs

theorem fits_extend {b : Buffer} (hb : b.Fits) (hs : seq + data.length < 2 ^ 64)
    (h : FusesLeft seq data b) : (b.extend seq data).Fits := by
  obtain ⟨-, hr, hend⟩ := h
  have hlen := Buffer.length_extend hr hend
  refine ⟨by simp [Buffer.extend, hb.nonempty], ?_⟩
  rw [Buffer.extend_seq]
  omega

/-- Closing the gap: the left buffer, extended by the segment, is fused onto the
right one without a panic. -/
theorem fuseAsRight_bridged {l r : Buffer} (hr : r.Fits)
    (hs : seq + data.length < 2 ^ 64) (hfl : FusesLeft seq data l) (hfr : FusesRight seq data r) :
    r.fuseAsRight l.seq (l.extend seq data).buf = .ok (bridged seq data l r) := by
  have hlen := Buffer.length_extend hfl.2.1 hfl.2.2
  obtain ⟨hl1, hl2, hl3⟩ := hfl
  obtain ⟨hr1, hr2, hr3⟩ := hfr
  exact Buffer.fuseAsRight_eq hr (by omega) (by omega) (by omega) (by omega)

/-- No buffer starts at or before the segment. -/
theorem place_of_left_none {ys : List Buffer} (hfits : ∀ b ∈ sb.buffers, b.Fits)
    (hs : seq + data.length < 2 ^ 64) (hbs : sb.buffers = [] ++ ys) (hsplit : Split seq [] ys) :
    ∃ bs, sb.place seq data = .ok bs ∧ Placed seq data sb.buffers bs := by
  have hleft := findLeft_eq hsplit hbs
  cases ys with
  | nil =>
      have hright := findRight_snd hsplit hbs
      refine ⟨sb.buffers ++ [⟨data, seq⟩], ?_, ?_⟩
      · rw [place, hleft]
        simp only [hright, List.getLast?_nil, List.head?_nil]
      · rw [hbs]
        exact Placed.insert [] [] hsplit (by simp) (by simp)
  | cons r ys =>
      have hright := findRight_eq_cons hsplit hbs
      have hr : r.Fits := hfits r (by simp [hbs])
      rw [place, hleft, hright]
      simp only [List.getLast?_nil]
      by_cases hfr : FusesRight seq data r
      · rw [if_pos ((canFuseAsRight_iff_fusesRight hr hs).mpr hfr),
          Buffer.fuseAsRight_eq hr hs hfr.1 hfr.2.1 hfr.2.2, hbs]
        exact ⟨_, rfl, Placed.extendRight [] r ys hsplit (by simp) hfr⟩
      · rw [if_neg (fun h => hfr ((canFuseAsRight_iff_fusesRight hr hs).mp h)), hbs]
        exact ⟨_, rfl, Placed.insert [] (r :: ys) hsplit (by simp) (by simpa using hfr)⟩

/-- Every buffer starts at or before the segment. -/
theorem place_of_right_none {xs : List Buffer} {l : Buffer} (hfits : ∀ b ∈ sb.buffers, b.Fits)
    (hs : seq + data.length < 2 ^ 64) (hbs : sb.buffers = xs ++ [l] ++ [])
    (hsplit : Split seq (xs ++ [l]) []) :
    ∃ bs, sb.place seq data = .ok bs ∧ Placed seq data sb.buffers bs := by
  have hleft := findLeft_eq hsplit hbs
  have hright := findRight_snd hsplit hbs
  have hidx : (((xs ++ [l]).length : ℤ) - 1).toNat = xs.length := by simp
  have hl : l.Fits := hfits l (by simp [hbs])
  rw [place, hleft]
  simp only [hright, List.getLast?_concat, List.head?_nil, hidx]
  by_cases hfl : FusesLeft seq data l
  · rw [if_pos ((canFuseAsLeft_iff_fusesLeft hl hs).mpr hfl),
      Buffer.fuseAsLeft_eq hl hfl.1 hfl.2.1 hfl.2.2, hbs]
    refine ⟨_, rfl, ?_⟩
    simpa using Placed.extendLeft xs l [] hsplit hfl (by simp)
  · rw [if_neg (fun h => hfl ((canFuseAsLeft_iff_fusesLeft hl hs).mp h)), hbs]
    refine ⟨_, rfl, ?_⟩
    simpa using Placed.insert (xs ++ [l]) [] hsplit (by simpa using hfl) (by simp)

/-- The segment starts between two buffers, or inside the left one of them. -/
theorem place_of_both {xs : List Buffer} {l r : Buffer} {ys : List Buffer}
    (hfits : ∀ b ∈ sb.buffers, b.Fits) (hs : seq + data.length < 2 ^ 64)
    (hbs : sb.buffers = xs ++ [l] ++ r :: ys) (hsplit : Split seq (xs ++ [l]) (r :: ys)) :
    ∃ bs, sb.place seq data = .ok bs ∧ Placed seq data sb.buffers bs := by
  have hleft := findLeft_eq hsplit hbs
  have hright := findRight_eq_cons hsplit hbs
  have hidx : (((xs ++ [l]).length : ℤ) - 1).toNat = xs.length := by simp
  have hidx' : ((xs ++ [l]).length : ℤ).toNat = xs.length + 1 := by simp
  have hins : (((xs ++ [l]).length : ℤ) - 1 + 1).toNat = xs.length + 1 := by simp
  have hl : l.Fits := hfits l (by simp [hbs])
  have hr : r.Fits := hfits r (by simp [hbs])
  have hcanL : l.canFuseAsLeft seq data.length = true ↔ FusesLeft seq data l :=
    canFuseAsLeft_iff_fusesLeft hl hs
  have hcanR : r.canFuseAsRight seq data.length = true ↔ FusesRight seq data r :=
    canFuseAsRight_iff_fusesRight hr hs
  have hbs' : sb.buffers = xs ++ l :: r :: ys := by simpa using hbs
  rw [place, hleft, hright]
  simp only [List.getLast?_concat, hidx, hidx', hins]
  by_cases hfl : FusesLeft seq data l
  · have hfuse := Buffer.fuseAsLeft_eq hl hfl.1 hfl.2.1 hfl.2.2
    by_cases hfr : FusesRight seq data r
    · -- The gap is closed: the left buffer takes the segment, then both go into the right one.
      rw [if_pos (by simp [hcanL.mpr hfl, hcanR.mpr hfr]), hfuse, hbs']
      refine ⟨xs ++ bridged seq data l r :: ys, ?_, Placed.bridge xs l r ys hsplit hfl hfr⟩
      simp [bind, Except.bind, fuseAsRight_bridged hr hs hfl hfr, List.eraseIdx_append]
    · have hcan : r.canFuseAsRight seq data.length = false :=
        Bool.eq_false_iff.mpr (fun h => hfr (hcanR.mp h))
      rw [if_neg (by simp [hcan]), if_pos (by simp [hcanL.mpr hfl, hcan]), hfuse, hbs']
      refine ⟨xs ++ l.extend seq data :: r :: ys, ?_,
        Placed.extendLeft xs l (r :: ys) hsplit hfl (by simpa using hfr)⟩
      simp [bind, Except.bind]
  · -- The left buffer stays as it is, which rules out the first two branches.
    have hcan : l.canFuseAsLeft seq data.length = false :=
      Bool.eq_false_iff.mpr (fun h => hfl (hcanL.mp h))
    rw [if_neg (by simp [hcan]), if_neg (by simp [hcan])]
    by_cases hfr : FusesRight seq data r
    · rw [if_pos (by simp [hcan, hcanR.mpr hfr]),
        Buffer.fuseAsRight_eq hr hs hfr.1 hfr.2.1 hfr.2.2, hbs']
      refine ⟨xs ++ [l] ++ r.prepend seq data :: ys, ?_, ?_⟩
      · simp [bind, Except.bind]
      · simpa using Placed.extendRight (xs ++ [l]) r ys hsplit (by simpa using hfl) hfr
    · rw [if_neg (by simpa [hcan] using fun h => hfr (hcanR.mp h)), hbs]
      refine ⟨xs ++ [l] ++ ⟨data, seq⟩ :: r :: ys, ?_, ?_⟩
      · rw [show xs.length + 1 = (xs ++ [l]).length by simp, insertIdx_length_append]
      · simpa using Placed.insert (xs ++ [l]) (r :: ys) hsplit (by simpa using hfl)
          (by simpa using hfr)

/-- **The nine branches.** On buffers that do not wrap, placing a segment never
panics and leaves one of the four shapes. -/
theorem place_placed (hfits : ∀ b ∈ sb.buffers, b.Fits) (hs : seq + data.length < 2 ^ 64) :
    ∃ bs, sb.place seq data = .ok bs ∧ Placed seq data sb.buffers bs := by
  obtain ⟨xs, ys, hbs, hsplit⟩ := exists_split seq sb.buffers
  rcases List.eq_nil_or_concat xs with rfl | ⟨xs, l, rfl⟩
  · exact place_of_left_none hfits hs hbs hsplit
  · rw [List.concat_eq_append] at hbs hsplit
    cases ys with
    | nil => exact place_of_right_none hfits hs hbs hsplit
    | cons r ys => exact place_of_both hfits hs hbs hsplit

end PlaceSpec

/-! ## What `Add` does -/

/-- `Add` gets past its early returns: the start is new, the buffer is not empty
and no discard rule applies. -/
def reachesPlace (sb : StreamBuffer) (seq : ℕ) : Bool :=
  !(sb.timestamps.get? seq).isSome && !sb.isEmpty && !sb.overflows seq && !sb.tooOld seq
    && !sb.largeGap seq

/-- The state `Add` leaves when it starts over with the new segment alone. -/
def restarted (sb : StreamBuffer) (timestamps : SortedMap ℕ ℕ) (seq : ℕ) (data : List UInt8)
    (timestamp : ℕ) : StreamBuffer :=
  { sb with buffers := [⟨data, seq⟩], timestamps := timestamps.put seq timestamp }

/-- The state before the two cleaners at the end of `Add`. -/
def withPlaced (sb : StreamBuffer) (bs : List Buffer) (seq timestamp : ℕ) : StreamBuffer :=
  { sb with buffers := bs, timestamps := sb.timestamps.put seq timestamp }

/-- Everything `Add` can do: its result and the state it leaves. -/
inductive Added (sb : StreamBuffer) (seq : ℕ) (data : List UInt8) (timestamp : ℕ) :
    Bool → StreamBuffer → Prop
  | duplicate (seen : (sb.timestamps.get? seq).isSome) : Added sb seq data timestamp false sb
  | first (fresh : sb.timestamps.get? seq = none) (empty : sb.buffers = []) :
      Added sb seq data timestamp true (sb.restarted sb.timestamps seq data timestamp)
  | reset (fresh : sb.timestamps.get? seq = none) (nonempty : sb.buffers ≠ [])
      (rule : sb.overflows seq = true ∨ sb.tooOld seq = false ∧ sb.largeGap seq = true) :
      Added sb seq data timestamp true (sb.restarted SortedMap.empty seq data timestamp)
  | ignored (fresh : sb.timestamps.get? seq = none) (nonempty : sb.buffers ≠ [])
      (rule : sb.tooOld seq = true) : Added sb seq data timestamp true sb
  | placed (fresh : sb.timestamps.get? seq = none) (reached : sb.reachesPlace seq = true)
      {bs : List Buffer} (eq : sb.place seq data = .ok bs)
      (shape : Placed seq data sb.buffers bs) :
      Added sb seq data timestamp true
        (sb.withPlaced bs seq timestamp).shrinkBufferUntilSizeBelowCapacity.cleanOldTimestamps

theorem isEmpty_iff {sb : StreamBuffer} : sb.isEmpty = true ↔ sb.buffers = [] := by
  rw [isEmpty, beq_iff_eq, List.length_eq_zero_iff]

/-- **The inversion of `Add`.** On buffers that do not wrap it never panics, and
does one of five things. -/
theorem add_added {sb : StreamBuffer} {seq : ℕ} {data : List UInt8} (timestamp : ℕ)
    (hfits : ∀ b ∈ sb.buffers, b.Fits) (hs : seq + data.length < 2 ^ 64) :
    ∃ r sb', sb.add seq data timestamp = .ok (r, sb') ∧ Added sb seq data timestamp r sb' := by
  rw [add]
  -- The early returns in the order of the source; the fuse branches come last.
  by_cases hseen : (sb.timestamps.get? seq).isSome
  · rw [if_pos hseen]
    exact ⟨false, sb, rfl, .duplicate hseen⟩
  · have hfresh : sb.timestamps.get? seq = none := Option.not_isSome_iff_eq_none.mp hseen
    rw [if_neg hseen]
    by_cases hempty : sb.isEmpty = true
    · have hnil := isEmpty_iff.mp hempty
      rw [if_pos hempty]
      have hfirst : Added sb seq data timestamp true
          (sb.restarted sb.timestamps seq data timestamp) := .first hfresh hnil
      refine ⟨true, _, rfl, ?_⟩
      simpa [restarted, updateTimestamp, hnil] using hfirst
    · have hne : sb.buffers ≠ [] := fun h => hempty (isEmpty_iff.mpr h)
      rw [if_neg hempty]
      by_cases hover : sb.overflows seq = true
      · rw [if_pos hover]
        exact ⟨true, _, rfl, .reset hfresh hne (Or.inl hover)⟩
      · rw [if_neg hover]
        by_cases hold : sb.tooOld seq = true
        · rw [if_pos hold]
          exact ⟨true, sb, rfl, .ignored hfresh hne hold⟩
        · rw [if_neg hold]
          by_cases hgap : sb.largeGap seq = true
          · rw [if_pos hgap]
            exact ⟨true, _, rfl, .reset hfresh hne
              (Or.inr ⟨Bool.eq_false_iff.mpr hold, hgap⟩)⟩
          · rw [if_neg hgap]
            obtain ⟨bs, hplace, hshape⟩ := place_placed hfits hs
            have hreach : sb.reachesPlace seq = true := by
              simp [reachesPlace, hfresh, hempty, hover, hold, hgap]
            rw [hplace]
            exact ⟨true, _, rfl, .placed hfresh hreach hplace hshape⟩

end StreamBuffer

end Kyanos
