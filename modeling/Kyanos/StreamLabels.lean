/-
The stream buffer does not look at the bytes it holds.

`paint` overwrites every byte of a stream buffer by one and the same value. Every decision of
`Add` and `RemovePrefix` is about positions and lengths, so painting before and after comes to
the same (`add_paint`, `removePrefix_paint`). Two things follow. The same calls, made on two
buffers of the same shape, leave two buffers of the same shape, whatever bytes they carry:
run on labels in place of the data, the code itself tells where each byte came from. And a
buffer of one label stays one when only that label is added.
-/
import Kyanos.StreamBuffer

set_option autoImplicit false

open GoNum Trace

namespace Kyanos

/-! ## One buffer -/

namespace Buffer

/-- The buffer with every byte overwritten. -/
def paint (label : UInt8) (b : Buffer) : Buffer := ⟨List.replicate b.buf.length label, b.seq⟩

variable (label : UInt8) (b : Buffer)

@[simp] theorem paint_seq : (b.paint label).seq = b.seq := rfl

@[simp] theorem paint_len : (b.paint label).len = b.len := by simp [paint, len]

@[simp] theorem paint_leftBoundary : (b.paint label).leftBoundary = b.leftBoundary := rfl

@[simp] theorem paint_rightBoundary : (b.paint label).rightBoundary = b.rightBoundary := by
  simp [paint, rightBoundary]

@[simp] theorem paint_canFuseAsLeft (seq n : ℕ) :
    (b.paint label).canFuseAsLeft seq n = b.canFuseAsLeft seq n := by
  unfold canFuseAsLeft
  rw [paint_leftBoundary, paint_rightBoundary]

@[simp] theorem paint_canFuseAsRight (seq n : ℕ) :
    (b.paint label).canFuseAsRight seq n = b.canFuseAsRight seq n := by
  unfold canFuseAsRight
  rw [paint_leftBoundary, paint_rightBoundary]

theorem fuseAsLeft_paint (seq : ℕ) (data : List UInt8) :
    (b.fuseAsLeft seq data).map (paint label) =
      (b.paint label).fuseAsLeft seq (List.replicate data.length label) := by
  unfold fuseAsLeft sliceFrom
  simp only [paint_rightBoundary, paint_leftBoundary, List.length_replicate]
  split_ifs with h1 h2 h3
  · simp [Except.map, paint]
  · simp [Except.map, paint, bind, Except.bind]
  · simp [Except.map, bind, Except.bind]
  · simp [Except.map]

theorem fuseAsRight_paint (seq : ℕ) (data : List UInt8) :
    (b.fuseAsRight seq data).map (paint label) =
      (b.paint label).fuseAsRight seq (List.replicate data.length label) := by
  unfold fuseAsRight sliceTo
  simp only [paint_rightBoundary, paint_leftBoundary, List.length_replicate]
  split_ifs with h1 h2 h3
  · simp [Except.map, paint]
  · simp [Except.map, paint, bind, Except.bind]
  · simp [Except.map, bind, Except.bind]
  · simp [Except.map]

theorem removePrefix_paint (n : ℤ) :
    (b.removePrefix n).map (paint label) = (b.paint label).removePrefix n := by
  unfold removePrefix
  simp only [paint_len]
  split_ifs
  · simp [Except.map]
  · simp [Except.map, paint]
  · simp [Except.map]
  · simp [Except.map]

end Buffer

/-! ## The stream buffer -/

namespace StreamBuffer

variable (label : UInt8) (sb : StreamBuffer)

/-- The stream buffer with every byte overwritten. -/
def paint : StreamBuffer := { sb with buffers := sb.buffers.map (Buffer.paint label) }

@[simp] theorem paint_timestamps : (sb.paint label).timestamps = sb.timestamps := rfl

@[simp] theorem paint_capacity : (sb.paint label).capacity = sb.capacity := rfl

@[simp] theorem paint_isEmpty : (sb.paint label).isEmpty = sb.isEmpty := by
  simp [paint, isEmpty]

@[simp] theorem paint_position0 : (sb.paint label).position0 = sb.position0 := by
  unfold position0 paint
  rcases sb.buffers with _ | ⟨b, rest⟩ <;> rfl

@[simp] theorem paint_positionN : (sb.paint label).positionN = sb.positionN := by
  unfold positionN paint
  dsimp only
  rw [List.getLast?_map]
  rcases sb.buffers.getLast? with _ | b
  · rfl
  · exact Buffer.paint_rightBoundary label b

theorem removePrefixLoop_paint (bs : List Buffer) (m : SortedMap ℕ ℕ) (n : ℤ) :
    (removePrefixLoop bs m n).map (Prod.map (List.map (Buffer.paint label)) id) =
      removePrefixLoop (bs.map (Buffer.paint label)) m n := by
  induction bs generalizing m n with
  | nil =>
      simp only [removePrefixLoop, List.map_nil]
      split_ifs <;> rfl
  | cons b bs ih =>
      simp only [removePrefixLoop, List.map_cons, Buffer.paint_len, Buffer.paint_seq]
      split_ifs
      · rfl
      · rw [← Buffer.removePrefix_paint]
        rcases b.removePrefix n with _ | b' <;> rfl
      · exact ih _ _

/-- **Removing does not look at the bytes.** -/
theorem removePrefix_paint (n : ℤ) :
    (sb.removePrefix n).map (paint label) = (sb.paint label).removePrefix n := by
  unfold removePrefix
  rw [paint_isEmpty]
  split_ifs
  · rfl
  · have hloop := removePrefixLoop_paint label sb.buffers sb.timestamps n
    change _ = (removePrefixLoop (sb.buffers.map (Buffer.paint label)) sb.timestamps n >>= _)
    rw [← hloop]
    rcases removePrefixLoop sb.buffers sb.timestamps n with _ | ⟨bs, m⟩ <;> rfl

theorem overCapacity_paint : (sb.paint label).overCapacity = sb.overCapacity := by
  simp [overCapacity]

theorem shrinkLoop_paint (bs : List Buffer) (last : Option Buffer) :
    shrinkLoop (sb.paint label) (bs.map (Buffer.paint label)) (last.map (Buffer.paint label)) =
      Prod.map (List.map (Buffer.paint label)) (Option.map (Buffer.paint label))
        (shrinkLoop sb bs last) := by
  induction bs generalizing last with
  | nil => rfl
  | cons b bs ih =>
      -- the loop compares positions of the buffers that are left
      have hover := overCapacity_paint label { sb with buffers := b :: bs }
      simp only [shrinkLoop, List.map_cons]
      change (if overCapacity (paint label { sb with buffers := b :: bs }) = true then _ else _) = _
      rw [hover]
      split_ifs
      · exact ih (some b)
      · rfl

theorem shrink_paint : (sb.paint label).shrinkBufferUntilSizeBelowCapacity =
    sb.shrinkBufferUntilSizeBelowCapacity.paint label := by
  have hloop := shrinkLoop_paint label sb sb.buffers none
  unfold shrinkBufferUntilSizeBelowCapacity
  have hpainted : shrinkLoop (sb.paint label) (sb.paint label).buffers none =
      Prod.map (List.map (Buffer.paint label)) (Option.map (Buffer.paint label))
        (shrinkLoop sb sb.buffers none) := hloop
  rw [hpainted]
  rcases shrinkLoop sb sb.buffers none with ⟨bs, _ | last⟩ <;> rfl

theorem cleanOldTimestamps_paint :
    (sb.paint label).cleanOldTimestamps = sb.cleanOldTimestamps.paint label := by
  unfold cleanOldTimestamps
  rw [paint_timestamps]
  split_ifs <;> rfl

theorem findLeftLoop_paint (seq : ℕ) (bs : List Buffer) (index : ℤ) (prev : Option Buffer) :
    findLeftLoop seq (bs.map (Buffer.paint label)) index (prev.map (Buffer.paint label)) =
      Prod.map id (Option.map (Buffer.paint label)) (findLeftLoop seq bs index prev) := by
  induction bs generalizing index prev with
  | nil => rfl
  | cons b bs ih =>
      rw [List.map_cons, findLeftLoop, findLeftLoop, Buffer.paint_leftBoundary]
      split_ifs
      · rfl
      · exact ih (index + 1) (some b)

theorem findRightLoop_paint (seq : ℕ) (bs : List Buffer) (index : ℤ) :
    findRightLoop seq (bs.map (Buffer.paint label)) index =
      Prod.map id (Option.map (Buffer.paint label)) (findRightLoop seq bs index) := by
  induction bs generalizing index with
  | nil => rfl
  | cons b bs ih =>
      rw [List.map_cons, findRightLoop, findRightLoop, Buffer.paint_leftBoundary]
      split_ifs
      · rfl
      · exact ih (index + 1)

/-- What fusing and then storing comes to when the bytes are painted. -/
theorem map_bind_paint {x y : Except Panic Buffer} {f g : Buffer → List Buffer}
    (hxy : x.map (Buffer.paint label) = y)
    (hfg : ∀ b, (f b).map (Buffer.paint label) = g (b.paint label)) :
    (x >>= fun b => .ok (f b)).map (List.map (Buffer.paint label)) = (y >>= fun b => .ok (g b)) := by
  subst hxy
  rcases x with e | b
  · rfl
  · exact congrArg Except.ok (hfg b)

/-- The nine branches of `Add` decide by positions and lengths. -/
theorem place_paint (seq : ℕ) (data : List UInt8) :
    (sb.place seq data).map (List.map (Buffer.paint label)) =
      (sb.paint label).place seq (List.replicate data.length label) := by
  have hleft := findLeftLoop_paint label seq sb.buffers 0 none
  have hright := findRightLoop_paint label seq sb.buffers 0
  unfold place findLeftBufferBySeq findRightBufferBySeq
  simp only [paint, List.length_replicate] at hleft hright ⊢
  rw [Option.map_none] at hleft
  rw [hleft, hright]
  have hnew : Buffer.paint label ⟨data, seq⟩ = ⟨List.replicate data.length label, seq⟩ := rfl
  -- the neighbours are at the same places in both buffers
  rcases findLeftLoop seq sb.buffers 0 none with ⟨i, _ | left⟩ <;>
    rcases findRightLoop seq sb.buffers 0 with ⟨j, _ | right⟩ <;>
    simp only [Prod.map, Option.map_none, Option.map_some, id, Buffer.paint_canFuseAsLeft,
      Buffer.paint_canFuseAsRight]
  · rw [← hnew]
    simp [Except.map]
  · split_ifs
    · apply map_bind_paint label (Buffer.fuseAsRight_paint label right seq data)
      intro b
      exact List.map_set ..
    · rw [← hnew]
      simp [Except.map]
  · split_ifs
    · apply map_bind_paint label (Buffer.fuseAsLeft_paint label left seq data)
      intro b
      exact List.map_set ..
    · rw [← hnew]
      simp [Except.map]
  · split_ifs
    · -- The left buffer takes the segment, then the right one takes the left.
      rw [← Buffer.fuseAsLeft_paint]
      rcases left.fuseAsLeft seq data with e | l
      · rfl
      · have hbridge := Buffer.fuseAsRight_paint label right l.seq l.buf
        apply map_bind_paint label hbridge
        intro b
        rw [← List.eraseIdx_map, List.map_set]
    · apply map_bind_paint label (Buffer.fuseAsLeft_paint label left seq data)
      intro b
      exact List.map_set ..
    · apply map_bind_paint label (Buffer.fuseAsRight_paint label right seq data)
      intro b
      exact List.map_set ..
    · rw [← hnew]
      simp [Except.map, List.map_insertIdx]

theorem overflows_paint (seq : ℕ) : (sb.paint label).overflows seq = sb.overflows seq := by
  simp [overflows]

theorem tooOld_paint (seq : ℕ) : (sb.paint label).tooOld seq = sb.tooOld seq := by
  simp [tooOld]

theorem largeGap_paint (seq : ℕ) : (sb.paint label).largeGap seq = sb.largeGap seq := by
  simp [largeGap]

/-- **Adding does not look at the bytes.** -/
theorem add_paint (seq : ℕ) (data : List UInt8) (timestamp : ℕ) :
    (sb.add seq data timestamp).map (Prod.map id (paint label)) =
      (sb.paint label).add seq (List.replicate data.length label) timestamp := by
  have hplace := place_paint label sb seq data
  unfold add
  rw [paint_timestamps, paint_isEmpty, overflows_paint, tooOld_paint, largeGap_paint]
  split_ifs
  · rfl
  · simp [Except.map, paint, updateTimestamp, Buffer.paint]
  · rfl
  · rfl
  · rfl
  · rw [← hplace]
    rcases sb.place seq data with e | bs
    · rfl
    · have hshrink := shrink_paint label
        (updateTimestamp { sb with buffers := bs } seq timestamp)
      have hclean := cleanOldTimestamps_paint label
        (updateTimestamp { sb with buffers := bs } seq timestamp).shrinkBufferUntilSizeBelowCapacity
      rw [← hshrink] at hclean
      exact congrArg (fun sb' => Except.ok (true, sb')) hclean.symm

/-! ## Two buffers of one shape -/

/-- The buffers hold as many bytes in the same places. -/
def SameShape (a b : StreamBuffer) : Prop := a.paint 0 = b.paint 0

/-- Every byte of the buffer is the label. -/
def Uniform (label : UInt8) (sb : StreamBuffer) : Prop := sb.paint label = sb

variable {label : UInt8} {a b b' : StreamBuffer}

/-- Buffers of one shape stay so when as many bytes are added to both. -/
theorem SameShape.add (h : SameShape a b) {seq ts : ℕ} {data labels : List UInt8} {added : Bool}
    (hlen : labels.length = data.length) (hadd : b.add seq data ts = .ok (added, b')) :
    ∃ a', a.add seq labels ts = .ok (added, a') ∧ SameShape a' b' := by
  have ha := add_paint 0 a seq labels ts
  have hb := add_paint 0 b seq data ts
  rw [hlen, h, ← hb, hadd] at ha
  obtain ⟨⟨added', a'⟩, heq, hpaint⟩ := map_eq_ok ha
  obtain ⟨rfl, hshape⟩ := Prod.mk.inj hpaint
  exact ⟨a', heq, hshape⟩

/-- Buffers of one shape stay so when as many bytes are removed from both. -/
theorem SameShape.removePrefix (h : SameShape a b) {n : ℤ} (hrem : b.removePrefix n = .ok b') :
    ∃ a', a.removePrefix n = .ok a' ∧ SameShape a' b' := by
  have ha := removePrefix_paint 0 a n
  have hb := removePrefix_paint 0 b n
  rw [h, ← hb, hrem] at ha
  exact map_eq_ok ha

theorem SameShape.clear (h : SameShape a b) : SameShape a.clear b.clear := by
  have hcap : (a.paint 0).capacity = (b.paint 0).capacity := congrArg _ h
  rw [paint_capacity, paint_capacity] at hcap
  unfold SameShape StreamBuffer.clear
  rw [hcap]

/-- Only the label is added, so only the label is held. -/
theorem Uniform.add (h : Uniform label b) {seq ts n : ℕ} {added : Bool}
    (hadd : b.add seq (List.replicate n label) ts = .ok (added, b')) : Uniform label b' := by
  have hb := add_paint label b seq (List.replicate n label) ts
  rw [h, List.length_replicate, hadd] at hb
  exact congrArg Prod.snd (Except.ok.inj hb)

theorem Uniform.removePrefix (h : Uniform label b) {n : ℤ} (hrem : b.removePrefix n = .ok b') :
    Uniform label b' := by
  have hb := removePrefix_paint label b n
  rw [h, hrem] at hb
  exact Except.ok.inj hb

theorem Uniform.mem (h : Uniform label b) {run : Buffer} (hrun : run ∈ b.buffers) {byte : UInt8}
    (hbyte : byte ∈ run.buf) : byte = label := by
  have hbuffers : b.buffers.map (Buffer.paint label) = b.buffers := congrArg StreamBuffer.buffers h
  rw [← hbuffers] at hrun
  obtain ⟨run', -, rfl⟩ := List.mem_map.mp hrun
  exact List.eq_of_mem_replicate hbyte

end StreamBuffer

end Kyanos
