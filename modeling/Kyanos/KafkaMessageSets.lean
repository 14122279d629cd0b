/-
Where a message set leaves the decoder.

A set marks its end, and so does each batch in it and each record of a batch; who is done jumps to the
mark on top. A batch that cannot be read ends the set with one jump. If the batch failed before its own
end was marked, this is the jump to the end of the set. Else it is one to the end of the batch, or of
the record that failed in it, and the marks below stay, the set's among them.

So the decoder stands behind the set, with the marks it had, just if no batch fails behind its own
length (`Unbroken`).
-/
import Kyanos.KafkaLayouts

set_option autoImplicit false

open ByteReader

namespace Kyanos.Kafka

/-- From `offset` on, the batches get to the size of the set, or to one that fails before its end is
marked: its base offset or its length is not there, or the length is below zero or above what is
left. -/
inductive Unbroken (size : ℤ) : ℤ → GoString → Prop
  | filled {offset : ℤ} {b : GoString} (hsize : size ≤ offset) : Unbroken size offset b
  | batch {offset offset' : ℤ} {b rest : GoString} (hsize : offset < size)
      (hbatch : Layout.batch offset b = .read offset' rest) (hrest : Unbroken size offset' rest) :
      Unbroken size offset b
  | cut {offset : ℤ} {b : GoString} (hsize : offset < size) (hbatch : Layout.batch offset b = .cut) :
      Unbroken size offset b

/-- Behind `size` bytes, with the marks from before. -/
structure Positioned (size : ℤ) (pd : PacketDecoder) (b : GoString) (pd' : PacketDecoder) : Prop where
  fits : 0 ≤ size ∧ size ≤ b.length
  rest : pd'.binaryDecoder.str = b.drop size.toNat
  marks : pd'.markedBufs = pd.markedBufs

/-- How the loop over the batches of a set ends, whose end is `after`: at its size, with the end still
marked; at a jump to the end; or with the end left below. -/
inductive LoopEnd (size : ℤ) (after : GoString) (marks : List GoString) (offset : ℤ) (b : GoString) :
    Bool → PacketDecoder → Prop
  | whole {pd : PacketDecoder} (hunbroken : Unbroken size offset b)
      (hmarks : pd.markedBufs = after :: marks) : LoopEnd size after marks offset b true pd
  | jumped {pd : PacketDecoder} (hunbroken : Unbroken size offset b) (hmarks : pd.markedBufs = marks)
      (hrest : pd.binaryDecoder.str = after) : LoopEnd size after marks offset b false pd
  | broken {pd : PacketDecoder} (hbroken : ¬Unbroken size offset b) (deeper : List GoString)
      (hmarks : pd.markedBufs = deeper ++ after :: marks) : LoopEnd size after marks offset b false pd

section Loop

variable {size offset offset' : ℤ} {after : GoString} {marks : List GoString} {b rest : GoString}
  {whole : Bool} {pd : PacketDecoder}

theorem unbroken_read (hsize : offset < size) (hbatch : Layout.batch offset b = .read offset' rest) :
    Unbroken size offset b ↔ Unbroken size offset' rest := by
  constructor
  · rintro (hfilled | ⟨-, hread, hrest⟩ | ⟨-, hcut⟩)
    · omega
    · rw [hbatch] at hread
      cases hread
      exact hrest
    · rw [hbatch] at hcut
      cases hcut
  · exact .batch hsize hbatch

theorem not_unbroken (hsize : offset < size) (hbatch : Layout.batch offset b = .broken rest) :
    ¬Unbroken size offset b := by
  rintro (hfilled | ⟨-, hread, -⟩ | ⟨-, hcut⟩)
  · omega
  · rw [hbatch] at hread
    cases hread
  · rw [hbatch] at hcut
    cases hcut

/-- A batch that is read is one step of the loop. -/
theorem LoopEnd.batch (h : LoopEnd size after marks offset' rest whole pd) (hsize : offset < size)
    (hbatch : Layout.batch offset b = .read offset' rest) :
    LoopEnd size after marks offset b whole pd := by
  have hiff := unbroken_read hsize hbatch
  rcases h with ⟨hunbroken, hmarks⟩ | ⟨hunbroken, hmarks, hrest⟩ | ⟨hbroken, deeper, hmarks⟩
  · exact .whole (hiff.mpr hunbroken) hmarks
  · exact .jumped (hiff.mpr hunbroken) hmarks hrest
  · exact .broken (fun h => hbroken (hiff.mp h)) deeper hmarks

theorem extractRecordBatches_loopEnd {n : ℕ} (hn : pd.binaryDecoder.str.length < n)
    (hmarks : pd.markedBufs = after :: marks) : ∃ recordBatches whole pd',
      extractRecordBatches size n offset pd = .done (recordBatches, whole) pd'
        ∧ LoopEnd size after marks offset pd.binaryDecoder.str whole pd' := by
  induction n generalizing offset pd with
  | zero => exact absurd hn (Nat.not_lt_zero _)
  | succ n ih =>
      rw [extractRecordBatches]
      by_cases hsize : offset < size
      · rw [if_pos hsize]
        have hend := ends_batch offset pd
        rw [view_rest] at hend
        rcases hbatch : Layout.batch offset pd.binaryDecoder.str with ⟨offset', rest⟩ | _ | rest
        · rw [hbatch] at hend
          obtain ⟨⟨recordBatch, _⟩, pd₁, hdone, rfl, hview⟩ := hend
          have hrest : pd₁.binaryDecoder.str = rest := congrArg Cursor.rest hview
          have hmarks₁ : pd₁.markedBufs = after :: marks := (congrArg Cursor.marks hview).trans hmarks
          have hshorter := batch_shorter hbatch
          obtain ⟨recordBatches, whole, pd₂, hloop, hloopEnd⟩ := ih (by rw [hrest]; omega) hmarks₁
          rw [hrest] at hloopEnd
          refine ⟨recordBatch :: recordBatches, whole, pd₂, ?_, hloopEnd.batch hsize hbatch⟩
          rw [bind_done (attempt_done hdone)]
          dsimp only
          rw [bind_done hloop]
          rfl
        · rw [hbatch] at hend
          obtain ⟨e, pd₁, hfailed, hmarks₁, -⟩ := hend
          obtain ⟨pd₂, hjump, hview₂⟩ := markOffset_marks.jump pd₁ after marks (hmarks₁.trans hmarks)
          refine ⟨[], false, pd₂, ?_, .jumped (.cut hsize hbatch) ?_ ?_⟩
          · rw [bind_done (attempt_failed hfailed)]
            dsimp only
            rw [bind_done hjump]
            rfl
          · exact congrArg Cursor.marks hview₂
          · exact congrArg Cursor.rest hview₂
        · rw [hbatch] at hend
          obtain ⟨e, pd₁, deeper, hfailed, hmarks₁, -⟩ := hend
          obtain ⟨pd₂, hjump, hview₂⟩ := markOffset_marks.jump pd₁ rest _ hmarks₁
          refine ⟨[], false, pd₂, ?_, .broken (not_unbroken hsize hbatch) deeper ?_⟩
          · rw [bind_done (attempt_failed hfailed)]
            dsimp only
            rw [bind_done hjump]
            rfl
          · rw [← hmarks]
            exact congrArg Cursor.marks hview₂
      · rw [if_neg hsize]
        exact ⟨[], true, pd, rfl, .whole (.filled (by omega)) hmarks⟩

end Loop

section Sets

variable {size : ℤ} {pd pd' : PacketDecoder} {messageSet : MessageSet}

theorem messageSetBody_positioned_iff (h : messageSetBody size pd = .done messageSet pd') :
    messageSet.size = size
      ∧ (Positioned size pd pd.binaryDecoder.str pd' ↔ Unbroken size 0 pd.binaryDecoder.str) := by
  by_cases hsize : size < 0 ∨ ((PacketDecoder.view pd).rest.length : ℤ) < size
  · obtain ⟨e, hfailed⟩ := markOffset_marks.short size pd hsize
    rw [messageSetBody, bind_failed hfailed] at h
    cases h
  obtain ⟨pd₁, hmark, hview₁⟩ := markOffset_marks.mark size pd hsize
  have hstr₁ : pd₁.binaryDecoder.str = pd.binaryDecoder.str := congrArg Cursor.rest hview₁
  have hmarks₁ : pd₁.markedBufs = pd.binaryDecoder.str.drop size.toNat :: pd.markedBufs :=
    congrArg Cursor.marks hview₁
  have hfits : 0 ≤ size ∧ size ≤ pd.binaryDecoder.str.length := by
    rw [view_rest] at hsize
    omega
  have hlook : (look (fun pd => pd.binaryDecoder.str.length) : Extract ℕ) pd₁
      = .done pd.binaryDecoder.str.length pd₁ := by
    rw [look, hstr₁]
  obtain ⟨recordBatches, whole, pd₂, hloop, hend⟩ :=
    @extractRecordBatches_loopEnd size 0 _ _ pd₁ (pd.binaryDecoder.str.length + 1)
      (by rw [hstr₁]; omega) hmarks₁
  rw [hstr₁] at hend
  rw [messageSetBody, bind_done hmark, bind_done hlook, bind_done hloop] at h
  rcases hend with ⟨hunbroken, hmarks₂⟩ | ⟨hunbroken, hmarks₂, hrest₂⟩ | ⟨hbroken, deeper, hmarks₂⟩
  · -- The tagged fields leave the marks, and the jump takes the one of the set.
    have hkeeps := extractTagSection_keepsMarks pd₂
    dsimp only at h
    rw [if_pos rfl] at h
    obtain ⟨_, pd₃, htags, h⟩ := bind_eq_done h
    rw [htags] at hkeeps
    obtain ⟨pd₄, hjump, hview₄⟩ := markOffset_marks.jump pd₃ _ pd.markedBufs (hkeeps.trans hmarks₂)
    rw [bind_done hjump] at h
    cases h
    refine ⟨rfl, iff_of_true ⟨hfits, ?_, ?_⟩ hunbroken⟩
    · exact congrArg Cursor.rest hview₄
    · exact congrArg Cursor.marks hview₄
  · cases h
    exact ⟨rfl, iff_of_true ⟨hfits, hrest₂, hmarks₂⟩ hunbroken⟩
  · cases h
    refine ⟨rfl, iff_of_false ?_ hbroken⟩
    rintro ⟨-, -, hsame⟩
    have hlen := congrArg List.length (hmarks₂.symm.trans hsame)
    rw [List.length_append, List.length_cons] at hlen
    omega

/-- **Where a message set ends**: behind its size, with the marks from before, just if no batch of it
fails behind its own length. -/
theorem extractMessageSet_positioned_iff (h : extractMessageSet pd = .done messageSet pd') :
    ∃ pd₁, extractSetSize pd = .done messageSet.size pd₁
      ∧ (Positioned messageSet.size pd pd₁.binaryDecoder.str pd'
        ↔ Unbroken messageSet.size 0 pd₁.binaryDecoder.str) := by
  have h : (extractSetSize >>= messageSetBody) pd = .done messageSet pd' := h
  obtain ⟨size, pd₁, hread, hbody⟩ := bind_eq_done h
  obtain ⟨rfl, hiff⟩ := messageSetBody_positioned_iff hbody
  -- The size is read without a mark.
  have hkeeps : pd₁.markedBufs = pd.markedBufs := by
    have hsize : KeepsMarks PacketDecoder.view extractSetSize := by
      have hflexible : KeepsMarks PacketDecoder.view flexible := fun _ => rfl
      refine hflexible.bind fun isFlexible => ?_
      split_ifs
      · exact KeepsMarks.ofFront extractUnsignedVarint_fronts
      · exact KeepsMarks.ofFront (extractInt_fronts 4)
    have hmarks := hsize pd
    rw [hread] at hmarks
    exact hmarks
  refine ⟨pd₁, hread, ?_⟩
  rw [← hiff]
  constructor
  · rintro ⟨hfits, hrest, hmarks⟩
    exact ⟨hfits, hrest, hmarks.trans hkeeps.symm⟩
  · rintro ⟨hfits, hrest, hmarks⟩
    exact ⟨hfits, hrest, hmarks.trans hkeeps⟩

/-- A set without a batch. -/
def emptySet : PacketDecoder := PacketDecoder.new [0, 0, 0, 0, 1]

theorem extractMessageSet_positioned_iff_sample : ∃ messageSet pd' pd₁,
    extractMessageSet emptySet = .done messageSet pd'
      ∧ extractSetSize emptySet = .done messageSet.size pd₁
      ∧ (Positioned messageSet.size emptySet pd₁.binaryDecoder.str pd'
        ↔ Unbroken messageSet.size 0 pd₁.binaryDecoder.str) := by
  have hdone : (match extractMessageSet emptySet with
      | .done _ _ => true
      | _ => false) = true := by decide +kernel
  rcases h : extractMessageSet emptySet with ⟨messageSet, pd'⟩ | ⟨e, pd'⟩ | q
  · obtain ⟨pd₁, hread, hiff⟩ := extractMessageSet_positioned_iff h
    exact ⟨messageSet, pd', pd₁, rfl, hread, hiff⟩
  · rw [h] at hdone
    cases hdone
  · rw [h] at hdone
    cases hdone

/-- A set of twenty bytes with a batch of the old format, and three bytes behind it. -/
def oldBatch : PacketDecoder :=
  PacketDecoder.new [0, 0, 0, 20, 0, 0, 0, 0, 0, 0, 0, 0, 0, 0, 0, 5, 0, 0, 0, 0, 1, 7, 7, 7, 9]

/-- The decoder stands behind the batch, and the end of the set is still marked. -/
theorem old_batch_leaves_mark : ¬ ∀ pd pd' messageSet,
    extractMessageSet pd = .done messageSet pd' → ∃ pd₁,
      extractSetSize pd = .done messageSet.size pd₁
        ∧ Positioned messageSet.size pd pd₁.binaryDecoder.str pd' := by
  intro h
  have hmarks : (match extractMessageSet oldBatch with
      | .done _ pd' => decide (pd'.markedBufs = oldBatch.markedBufs)
      | _ => true) = false := by decide +kernel
  rcases hend : extractMessageSet oldBatch with ⟨messageSet, pd'⟩ | ⟨e, pd'⟩ | q
  · obtain ⟨pd₁, -, hpositioned⟩ := h oldBatch pd' messageSet hend
    rw [hend] at hmarks
    exact of_decide_eq_false hmarks hpositioned.marks
  · rw [hend] at hmarks
    cases hmarks
  · rw [hend] at hmarks
    cases hmarks

end Sets

end Kyanos.Kafka
