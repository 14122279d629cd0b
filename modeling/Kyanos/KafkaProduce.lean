/-
Produce requests on the wire, and what `ExtractProduceReq` makes of them.

A partition of a produce request has a message set: record batches one behind the other, each
with its length in front, and in a batch records with theirs. The decoder marks the end of the
set, of each batch and of each record before it reads them, and jumps there when it has what it
wants; so it is the lengths that keep it in step. `inverts_recordMessage`, `inverts_recordBatch`
and `moves_recordBatches` are one level each, and every level leaves the marks it found.
-/
import Kyanos.KafkaWire

set_option autoImplicit false

open ByteReader

namespace Kyanos.Kafka

/-! ## Requests on the wire -/

namespace Wire

structure RecordHeader where
  key : GoString
  value : Option GoString

structure Record where
  attributes : BitVec 8
  timestampDelta : BitVec 64
  offsetDelta : BitVec 32
  key : Option GoString
  value : Option GoString
  headers : List RecordHeader

/-- A record batch of magic 2, with its records as they are. -/
structure RecordBatch where
  baseOffset : BitVec 64
  partitionLeaderEpoch : BitVec 32
  crc : BitVec 32
  attributes : BitVec 16
  lastOffsetDelta : BitVec 32
  baseTimestamp : BitVec 64
  maxTimestamp : BitVec 64
  producerId : BitVec 64
  producerEpoch : BitVec 16
  baseSequence : BitVec 32
  records : List Record

structure ProducePartition where
  index : BitVec 32
  batches : List RecordBatch

structure ProduceTopic where
  name : ShortString
  partitions : List ProducePartition

structure ProduceRequest where
  transactionalId : Option ShortString
  acks : BitVec 16
  timeoutMs : BitVec 32
  topics : List ProduceTopic

def varint (x : ℤ) : GoString := varintBytes (unzigzag x)

def zigzagBytes : Option GoString → GoString
  | none => varint (-1)
  | some b => varint b.length ++ b

def RecordHeader.bytes (h : RecordHeader) : GoString :=
  [varint h.key.length, h.key, zigzagBytes h.value].flatten

/-- The number of headers, and the headers. -/
def Record.headerBytes (r : Record) : GoString :=
  varint r.headers.length ++ r.headers.flatMap RecordHeader.bytes

/-- A record behind its length. -/
def Record.body (r : Record) : GoString :=
  int8 r.attributes ++ (varint r.timestampDelta.toInt ++ (varint r.offsetDelta.toInt ++
    (zigzagBytes r.key ++ (zigzagBytes r.value ++ r.headerBytes))))

def Record.bytes (r : Record) : GoString := varint r.body.length ++ r.body

/-- A batch behind its length. -/
def RecordBatch.body (b : RecordBatch) : GoString :=
  int32 b.partitionLeaderEpoch ++ (int8 2 ++ (int32 b.crc ++ (int16 b.attributes ++
    (int32 b.lastOffsetDelta ++ (int64 b.baseTimestamp ++ (int64 b.maxTimestamp ++
      (int64 b.producerId ++ (int16 b.producerEpoch ++ (int32 b.baseSequence ++
        arrayBytes false Record.bytes b.records)))))))))

def RecordBatch.bytes (b : RecordBatch) : GoString :=
  int64 b.baseOffset ++ (int32 (BitVec.ofNat 32 b.body.length) ++ b.body)

def ProducePartition.recordBytes (p : ProducePartition) : GoString :=
  p.batches.flatMap RecordBatch.bytes

def ProducePartition.bytes (p : ProducePartition) : GoString :=
  int32 p.index ++ (int32 (BitVec.ofNat 32 p.recordBytes.length) ++ p.recordBytes)

def ProduceTopic.bytes (t : ProduceTopic) : GoString :=
  [stringBytes false t.name, arrayBytes false ProducePartition.bytes t.partitions].flatten

def ProduceRequest.bytes (r : ProduceRequest) : GoString :=
  [nullableStringBytes false r.transactionalId, int16 r.acks, int32 r.timeoutMs,
    arrayBytes false ProduceTopic.bytes r.topics].flatten

/-- The numbers of elements and the sizes of the message sets can be written. -/
structure ProduceRequest.Fits (r : ProduceRequest) : Prop where
  topics : r.topics.length < 2 ^ 31
  partitions : ∀ t ∈ r.topics, t.partitions.length < 2 ^ 31
  sets : ∀ t ∈ r.topics, ∀ p ∈ t.partitions, p.recordBytes.length < 2 ^ 31

def Record.decoded (r : Record) : RecordMessage :=
  { key := r.key.getD [], value := r.value.getD [] }

def RecordBatch.decoded (b : RecordBatch) : Kafka.RecordBatch :=
  { records := b.records.map Record.decoded }

def ProducePartition.decoded (p : ProducePartition) : ProduceReqPartition :=
  { index := p.index.toInt
    messageSet :=
      { size := p.recordBytes.length, recordBatches := p.batches.map RecordBatch.decoded } }

def ProduceTopic.decoded (t : ProduceTopic) : ProduceReqTopic :=
  { name := t.name.val, partitions := t.partitions.map ProducePartition.decoded }

def ProduceRequest.decoded (r : ProduceRequest) : ProduceReq :=
  { transactionalID := r.transactionalId.elim [] Subtype.val, acks := r.acks.toInt
    timeoutMs := r.timeoutMs.toInt, topics := r.topics.map ProduceTopic.decoded }

end Wire

/-! ## Records -/

open Wire

/-- A part of an encoding is no longer than the whole. -/
theorem length_le_flatMap {α : Type} {enc : α → GoString} {as : List α} {a : α} (h : a ∈ as) :
    (enc a).length ≤ (as.flatMap enc).length := by
  rw [List.length_flatMap]
  exact List.single_le_sum (by simp) _ (List.mem_map_of_mem h)

theorem length_le_flatMap_length {α : Type} {enc : α → GoString} {as : List α}
    (h : ∀ a ∈ as, 1 ≤ (enc a).length) : as.length ≤ (as.flatMap enc).length := by
  induction as with
  | nil => exact Nat.zero_le _
  | cons a as ih =>
      obtain ⟨ha, has⟩ := List.forall_mem_cons.mp h
      have := ih has
      rw [List.flatMap_cons, List.length_append, List.length_cons]
      omega

theorem varintBytes_ne_nil (x : ℕ) : varintBytes x ≠ [] := by
  rw [varintBytes]
  split_ifs <;> exact List.cons_ne_nil _ _

section Records

variable {c : ApiInfo} {tail : GoString} {marks : List GoString}

theorem inverts_varint_length {n : ℕ} (h : n < 2 ^ 31) :
    Inverts c extractVarint (varint n) n :=
  inverts_varint (by omega) (by omega)

theorem inverts_bytesZigZag {b : Option GoString} (h : ∀ str ∈ b, str.length < 2 ^ 31) :
    Inverts c extractBytesZigZag (zigzagBytes b) (b.getD []) := by
  rcases b with _ | str
  · rw [zigzagBytes, ← List.append_nil (varint (-1))]
    exact (inverts_varint (by norm_num) (by norm_num)).bind (Reads.pure [])
  · have hlen := h str rfl
    rw [zigzagBytes]
    refine (inverts_varint_length hlen).bind ?_
    rw [if_neg (by omega)]
    rcases str with _ | ⟨x, str⟩
    · exact Reads.pure []
    · rw [if_neg (by rw [List.length_cons]; omega)]
      exact inverts_bytes (x :: str)

theorem zigzagBytes_length {b : Option GoString} {str : GoString} (h : str ∈ b) :
    str.length ≤ (zigzagBytes b).length := by
  obtain rfl : b = some str := h
  rw [zigzagBytes, List.length_append]
  omega

/-- A record is read to its end, the headers being skipped. -/
theorem inverts_recordMessage {r : Wire.Record} (hfits : r.body.length < 2 ^ 31) :
    Inverts c extractRecordMessage r.bytes r.decoded := by
  have hbody := hfits
  unfold Record.body at hbody
  simp only [List.length_append] at hbody
  have hkey : ∀ str ∈ r.key, str.length < 2 ^ 31 := by
    intro str h
    have := zigzagBytes_length h
    omega
  have hvalue : ∀ str ∈ r.value, str.length < 2 ^ 31 := by
    intro str h
    have := zigzagBytes_length h
    omega
  intro tail marks
  rw [Record.bytes, List.append_assoc]
  refine (inverts_varint_length hfits _ _).bind ?_
  refine (moves_markOffset rfl).bind ?_
  unfold Record.body
  simp only [List.append_assoc]
  refine (inverts_int8 r.attributes _ _).bind ?_
  refine (inverts_varlong (BitVec.le_toInt _) BitVec.toInt_lt _ _).bind ?_
  refine (inverts_varint (BitVec.le_toInt _) BitVec.toInt_lt _ _).bind ?_
  refine (inverts_bytesZigZag hkey _ _).bind ?_
  refine (inverts_bytesZigZag hvalue _ _).bind ?_
  exact moves_jumpToOffset.bind (Moves.pure _)

theorem record_bytes_pos (r : Wire.Record) : 1 ≤ r.bytes.length := by
  have hpos := List.length_pos_iff.mpr (varintBytes_ne_nil (unzigzag r.body.length))
  rw [Record.bytes, varint, List.length_append]
  omega

/-- A batch is read to its end, and the offset is that much larger. -/
theorem inverts_recordBatch {b : Wire.RecordBatch} {offset : ℤ} (hoffset : 0 ≤ offset)
    (hfits : offset + b.bytes.length < 2 ^ 31) :
    Inverts c (extractRecordBatch offset) b.bytes (b.decoded, offset + b.bytes.length) := by
  have hlen : b.bytes.length = 12 + b.body.length := by
    unfold RecordBatch.bytes int64 int32
    rw [List.length_append, List.length_append, wordBytes_length, wordBytes_length]
    omega
  have hrecords : (b.records.flatMap Record.bytes).length ≤ b.body.length := by
    unfold RecordBatch.body arrayBytes
    simp only [List.length_append]
    omega
  have hcount := @length_le_flatMap_length _ Record.bytes b.records (fun r _ => record_bytes_pos r)
  obtain ⟨length, hlength, hbody⟩ : ∃ length : ℤ,
      (BitVec.ofNat 32 b.body.length).toInt = length ∧ length = b.body.length :=
    ⟨_, toInt_ofNat (by omega), rfl⟩
  have hnext : intOf 32 (offset + intOf 32 (length + kBaseOffsetLength + kLengthLength))
      = offset + b.bytes.length := by
    unfold kBaseOffsetLength kLengthLength
    rw [@intOf_of_lt 32 (length + 8 + 4) (by omega) (by omega), intOf_of_lt (by omega) (by omega)]
    omega
  have hrecord : ∀ r ∈ b.records, Inverts c extractRecordMessage r.bytes r.decoded := by
    intro r hr
    have hr : r.bytes.length ≤ _ := length_le_flatMap hr
    rw [Record.bytes, List.length_append] at hr
    exact inverts_recordMessage (by omega)
  intro tail marks
  rw [← hnext, RecordBatch.bytes, List.append_assoc, List.append_assoc]
  refine (inverts_int64 b.baseOffset _ _).bind ?_
  refine (inverts_int32 (BitVec.ofNat 32 b.body.length) _ _).bind ?_
  rw [hlength]
  refine (moves_markOffset hbody).bind ?_
  unfold RecordBatch.body
  simp only [List.append_assoc]
  refine (inverts_int32 b.partitionLeaderEpoch _ _).bind ?_
  refine (inverts_int8 2 _ _).bind ?_
  rw [if_neg (by decide), if_neg (by decide)]
  refine (inverts_int32 b.crc _ _).bind ?_
  refine (inverts_int16 b.attributes _ _).bind ?_
  refine (inverts_int32 b.lastOffsetDelta _ _).bind ?_
  refine (inverts_int64 b.baseTimestamp _ _).bind ?_
  refine (inverts_int64 b.maxTimestamp _ _).bind ?_
  refine (inverts_int64 b.producerId _ _).bind ?_
  refine (inverts_int16 b.producerEpoch _ _).bind ?_
  refine (inverts_int32 b.baseSequence _ _).bind ?_
  refine (inverts_regularArray (by omega) hrecord _ _).bind ?_
  exact moves_jumpToOffset.bind (Moves.pure _)

theorem recordBatch_bytes_pos (b : Wire.RecordBatch) : 1 ≤ b.bytes.length := by
  rw [RecordBatch.bytes, List.length_append, int64, wordBytes_length]
  omega

/-- **The batches of a set.** The loop reads one after the other, and ends at the size. -/
theorem moves_recordBatches {bs : List Wire.RecordBatch} {offset size : ℤ} {n : ℕ}
    (hoffset : 0 ≤ offset) (hsize : size = offset + (bs.flatMap RecordBatch.bytes).length)
    (hfits : size < 2 ^ 31) (hn : bs.length < n) :
    Moves PacketDecoder.view (extractRecordBatches size n offset)
      ⟨bs.flatMap RecordBatch.bytes ++ tail, marks, c⟩ (bs.map RecordBatch.decoded, true)
      ⟨tail, marks, c⟩ := by
  induction bs generalizing offset n with
  | nil =>
      obtain ⟨n, rfl⟩ := Nat.exists_eq_succ_of_ne_zero (Nat.ne_of_gt hn)
      have hend : ¬ offset < size := by
        rw [hsize]
        simp
      rw [extractRecordBatches, if_neg hend]
      exact Moves.pure _
  | cons b bs ih =>
      rw [List.length_cons] at hn
      obtain ⟨n, rfl⟩ := Nat.exists_eq_succ_of_ne_zero (by omega : n ≠ 0)
      have hpos := recordBatch_bytes_pos b
      rw [List.flatMap_cons, List.length_append, Nat.cast_add] at hsize
      rw [extractRecordBatches, if_pos (by omega), List.flatMap_cons, List.append_assoc]
      refine ((inverts_recordBatch hoffset (by omega)).attempt _ _).bind ?_
      refine (ih (by omega) (by omega) (by omega)).bind ?_
      exact Moves.pure _

end Records

/-! ## Message sets and requests -/

section Produce

variable {c : ApiInfo}

/-- A message set outside the flexible versions. -/
theorem inverts_messageSet (hregular : c.isFlexible = false) {p : ProducePartition}
    (hfits : p.recordBytes.length < 2 ^ 31) :
    Inverts c extractMessageSet
      (int32 (BitVec.ofNat 32 p.recordBytes.length) ++ p.recordBytes) p.decoded.messageSet := by
  have hlength : (BitVec.ofNat 32 p.recordBytes.length).toInt = p.recordBytes.length :=
    toInt_ofNat (by omega)
  have hcount := @length_le_flatMap_length _ RecordBatch.bytes p.batches
    (fun b _ => recordBatch_bytes_pos b)
  have hsetSize : Inverts c extractSetSize (int32 (BitVec.ofNat 32 p.recordBytes.length))
      p.recordBytes.length := by
    refine inverts_ite (fun h => by rw [hregular] at h; cases h) (fun _ => ?_)
    have hword := @inverts_int32 c (BitVec.ofNat 32 p.recordBytes.length)
    rwa [hlength] at hword
  intro tail marks
  rw [List.append_assoc]
  refine (hsetSize _ _).bind ?_
  refine (moves_markOffset rfl).bind ?_
  refine (Moves.look (x := (p.recordBytes ++ tail).length) (fun pd hpd => ?_)).bind ?_
  · rw [str_of_view hpd]
  have hsize : (p.recordBytes.length : ℤ)
      = 0 + (p.batches.flatMap RecordBatch.bytes).length := by
    rw [zero_add]
    rfl
  refine (moves_recordBatches le_rfl hsize (by omega) ?_).bind ?_
  · have hbytes : p.recordBytes.length = (p.batches.flatMap RecordBatch.bytes).length := rfl
    rw [List.length_append]
    omega
  have htags := @inverts_tagSection c ⟨[], by decide⟩
  rw [tagBytes, hregular] at htags
  refine (htags _ _).bind ?_
  refine moves_jumpToOffset.bind ?_
  exact Moves.pure _

theorem inverts_produceReqPartition (hregular : c.isFlexible = false) {p : ProducePartition}
    (hfits : p.recordBytes.length < 2 ^ 31) :
    Inverts c extractProduceReqPartition p.bytes p.decoded := by
  refine (inverts_int32 p.index).bind ?_
  exact (inverts_messageSet hregular hfits).map

theorem inverts_produceReqTopic (hregular : c.isFlexible = false) {t : ProduceTopic}
    (hcount : t.partitions.length < 2 ^ 31)
    (hsets : ∀ p ∈ t.partitions, p.recordBytes.length < 2 ^ 31) :
    Inverts c extractProduceReqTopic t.bytes t.decoded := by
  have htopic := @inverts_string c t.name
  have htags := @inverts_tagSection c ⟨[], by decide⟩
  have hpartitions : Inverts c (extractArray extractProduceReqPartition) _ _ :=
    inverts_array (by rw [CountFits, hregular]; exact hcount)
      (fun p hp => inverts_produceReqPartition hregular (hsets p hp))
  rw [hregular] at htopic hpartitions
  rw [tagBytes, hregular] at htags
  refine htopic.bind ?_
  refine hpartitions.bind ?_
  exact htags.bind (Reads.pure _)

/-- A request of a version from 3 on that is not flexible. -/
theorem inverts_produceReq (hregular : c.isFlexible = false) (hversion : 3 ≤ c.apiVersion)
    {r : ProduceRequest} (hfits : r.Fits) :
    Inverts c extractProduceReq r.bytes r.decoded := by
  have hid : Inverts c extractTransactionalID (nullableStringBytes false r.transactionalId)
      (r.transactionalId.elim [] Subtype.val) := by
    refine inverts_ite (fun h => by rw [hregular] at h; cases h) (fun _ => ?_)
    have hstring := @inverts_since c _ _ _ 3 [] _
      (fun _ => inverts_nullableString r.transactionalId)
    rwa [sinceBytes, if_pos hversion, if_pos hversion, hregular] at hstring
  have htopics : Inverts c (extractArray extractProduceReqTopic) _ _ :=
    inverts_array (by rw [CountFits, hregular]; exact hfits.topics)
      (fun t ht => inverts_produceReqTopic hregular (hfits.partitions t ht) (hfits.sets t ht))
  rw [hregular] at htopics
  refine hid.bind ?_
  refine (inverts_int16 r.acks).bind ?_
  refine (inverts_int32 r.timeoutMs).bind ?_
  exact htopics.bind (Reads.pure _)

end Produce

/-- **Produce requests are decoded** in the versions 3 to 8: every field and every record, and
behind it the bytes are where they were and no mark is pending. -/
theorem extractProduceReq_decoded {version : ℤ} (hlo : 3 ≤ version) (hhi : version ≤ 8)
    {r : ProduceRequest} (hfits : r.Fits) (tail : GoString) :
    ∃ pd, extractProduceReq ((PacketDecoder.new (r.bytes ++ tail)).setAPIInfo kProduce version)
        = .done r.decoded pd
      ∧ pd.binaryDecoder.str = tail ∧ pd.markedBufs = [] := by
  have hregular : isFlexible kProduce version = false := by
    have hflexible : isFlexible kProduce version = decide (9 ≤ version) := rfl
    rw [hflexible, decide_eq_false_iff_not]
    omega
  obtain ⟨pd, hdone, hpd⟩ := @inverts_produceReq ⟨version, isFlexible kProduce version⟩ hregular
    hlo r hfits tail [] ((PacketDecoder.new (r.bytes ++ tail)).setAPIInfo kProduce version) rfl
  exact ⟨pd, hdone, str_of_view hpd, congrArg Cursor.marks hpd⟩

/-- A batch with two records, the first without a key and the second with a header. -/
def sampleBatch : Wire.RecordBatch :=
  { baseOffset := 0, partitionLeaderEpoch := -1, crc := 0, attributes := 0, lastOffsetDelta := 1
    baseTimestamp := 0, maxTimestamp := 7, producerId := -1, producerEpoch := -1
    baseSequence := -1
    records := [
      { attributes := 0, timestampDelta := 0, offsetDelta := 0, key := none
        value := some (text "test"), headers := [] },
      { attributes := 0, timestampDelta := 7, offsetDelta := 1, key := some (text "k")
        value := some (text "Hola"), headers := [⟨text "h", none⟩] }] }

theorem sampleName_fits : (text "my-topic").length ≤ 32767 := by decide

def sampleProduce : ProduceRequest :=
  { transactionalId := none, acks := 1, timeoutMs := 30000
    topics := [{ name := ⟨text "my-topic", sampleName_fits⟩
                 partitions := [{ index := 0, batches := [sampleBatch, sampleBatch] },
                                { index := 1, batches := [] }] }] }

theorem extractProduceReq_sample :
    ∃ pd, extractProduceReq
        ((PacketDecoder.new (sampleProduce.bytes ++ [0])).setAPIInfo kProduce 7)
        = .done sampleProduce.decoded pd
      ∧ pd.binaryDecoder.str = [0] ∧ pd.markedBufs = [] := by
  apply extractProduceReq_decoded (by decide) (by decide)
  refine ⟨by decide, ?_, ?_⟩
  · intro t ht
    obtain rfl := List.mem_singleton.mp ht
    decide
  · intro t ht p hp
    obtain rfl := List.mem_singleton.mp ht
    rcases List.mem_cons.mp hp with rfl | hp
    · decide +kernel
    · obtain rfl := List.mem_singleton.mp hp
      decide

end Kyanos.Kafka
