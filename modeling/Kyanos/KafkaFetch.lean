/-
Fetch requests on the wire, and what `ExtractFetchReq` makes of them.

A request is written as the schema of its version has it: seven of its fields are there from a
version on, and version 12 has the flexible forms with tagged fields behind every structure.
The decoder inverts that in every version, but for one default: before version 7 there is no
session epoch, and where the other absent fields are set to -1 this one stays 0
(`extractFetchReq_iff`).
-/
import Kyanos.KafkaWire

set_option autoImplicit false

open ByteReader

namespace Kyanos.Kafka

/-! ## Requests on the wire -/

namespace Wire

structure FetchPartition where
  partition : BitVec 32
  currentLeaderEpoch : BitVec 32
  fetchOffset : BitVec 64
  lastFetchedEpoch : BitVec 32
  logStartOffset : BitVec 64
  partitionMaxBytes : BitVec 32
  tags : TagSection

structure FetchTopic where
  topic : ShortString
  partitions : List FetchPartition
  tags : TagSection

structure ForgottenTopic where
  topic : ShortString
  partitions : List (BitVec 32)
  tags : TagSection

structure FetchRequest where
  replicaId : BitVec 32
  maxWaitMs : BitVec 32
  minBytes : BitVec 32
  maxBytes : BitVec 32
  isolationLevel : BitVec 8
  sessionId : BitVec 32
  sessionEpoch : BitVec 32
  topics : List FetchTopic
  forgottenTopicsData : List ForgottenTopic
  rackId : ShortString
  tags : TagSection

section Bytes

variable (version : ℤ) (flexible : Bool)

def FetchPartition.bytes (p : FetchPartition) : GoString :=
  [int32 p.partition,
    sinceBytes version 9 (int32 p.currentLeaderEpoch),
    int64 p.fetchOffset,
    sinceBytes version 12 (int32 p.lastFetchedEpoch),
    sinceBytes version 5 (int64 p.logStartOffset),
    int32 p.partitionMaxBytes,
    tagBytes flexible p.tags].flatten

def FetchTopic.bytes (t : FetchTopic) : GoString :=
  [stringBytes flexible t.topic,
    arrayBytes flexible (FetchPartition.bytes version flexible) t.partitions,
    tagBytes flexible t.tags].flatten

def ForgottenTopic.bytes (t : ForgottenTopic) : GoString :=
  [stringBytes flexible t.topic,
    arrayBytes flexible int32 t.partitions,
    tagBytes flexible t.tags].flatten

def FetchRequest.bytes (r : FetchRequest) : GoString :=
  [int32 r.replicaId,
    int32 r.maxWaitMs,
    int32 r.minBytes,
    sinceBytes version 3 (int32 r.maxBytes),
    sinceBytes version 4 (int8 r.isolationLevel),
    sinceBytes version 7 (int32 r.sessionId),
    sinceBytes version 7 (int32 r.sessionEpoch),
    arrayBytes flexible (FetchTopic.bytes version flexible) r.topics,
    sinceBytes version 7 (arrayBytes flexible (ForgottenTopic.bytes flexible)
      r.forgottenTopicsData),
    sinceBytes version 11 (stringBytes flexible r.rackId),
    tagBytes flexible r.tags].flatten

/-- The numbers of elements can be written. -/
structure FetchRequest.Fits (r : FetchRequest) : Prop where
  topics : CountFits flexible r.topics.length
  partitions : ∀ t ∈ r.topics, CountFits flexible t.partitions.length
  forgotten : 7 ≤ version → CountFits flexible r.forgottenTopicsData.length
  forgottenPartitions : 7 ≤ version → ∀ t ∈ r.forgottenTopicsData,
    CountFits flexible t.partitions.length

end Bytes

/-! ## What they are decoded to -/

def FetchPartition.decoded (version : ℤ) (p : FetchPartition) : FetchReqPartition :=
  { index := p.partition.toInt
    currentLeaderEpoch := if 9 ≤ version then p.currentLeaderEpoch.toInt else -1
    fetchOffset := p.fetchOffset.toInt
    lastFetchedEpoch := if 12 ≤ version then p.lastFetchedEpoch.toInt else -1
    logStartOffset := if 5 ≤ version then p.logStartOffset.toInt else -1
    partitionMaxBytes := p.partitionMaxBytes.toInt }

def FetchTopic.decoded (version : ℤ) (t : FetchTopic) : FetchReqTopic :=
  { name := t.topic.val, partitions := t.partitions.map (FetchPartition.decoded version) }

def ForgottenTopic.decoded (t : ForgottenTopic) : FetchForgottenTopicsData :=
  { name := t.topic.val, partitionIndices := t.partitions.map BitVec.toInt }

/-- The fields of a request, with `noEpoch` for a session epoch that is absent. -/
def FetchRequest.decodedWith (noEpoch version : ℤ) (r : FetchRequest) : FetchReq :=
  { replicaID := r.replicaId.toInt
    sessionID := if 7 ≤ version then r.sessionId.toInt else 0
    sessionEpoch := if 7 ≤ version then r.sessionEpoch.toInt else noEpoch
    topics := r.topics.map (FetchTopic.decoded version)
    forgottenTopics :=
      if 7 ≤ version then r.forgottenTopicsData.map ForgottenTopic.decoded else []
    rackID := if 11 ≤ version then r.rackId.val else [] }

/-- The fields with their documented defaults: the epoch is -1 where there is no session. -/
def FetchRequest.decoded (version : ℤ) (r : FetchRequest) : FetchReq := r.decodedWith (-1) version

end Wire

/-! ## Decoding -/

section Decoding

variable {c : ApiInfo}

open Wire

theorem inverts_fetchReqPartition (p : FetchPartition) :
    Inverts c extractFetchReqPartition (p.bytes c.apiVersion c.isFlexible)
      (p.decoded c.apiVersion) := by
  refine (inverts_int32 p.partition).bind ?_
  refine (inverts_since fun _ => inverts_int32 p.currentLeaderEpoch).bind ?_
  refine (inverts_int64 p.fetchOffset).bind ?_
  refine (inverts_since fun _ => inverts_int32 p.lastFetchedEpoch).bind ?_
  refine (inverts_since fun _ => inverts_int64 p.logStartOffset).bind ?_
  refine (inverts_int32 p.partitionMaxBytes).bind ?_
  exact (inverts_tagSection p.tags).bind (Reads.pure _)

theorem inverts_fetchReqTopic {t : FetchTopic}
    (hfits : CountFits c.isFlexible t.partitions.length) :
    Inverts c extractFetchReqTopic (t.bytes c.apiVersion c.isFlexible)
      (t.decoded c.apiVersion) := by
  refine (inverts_string t.topic).bind ?_
  refine (inverts_array hfits fun p _ => inverts_fetchReqPartition p).bind ?_
  exact (inverts_tagSection t.tags).bind (Reads.pure _)

theorem inverts_fetchForgottenTopicsData {t : ForgottenTopic}
    (hfits : CountFits c.isFlexible t.partitions.length) :
    Inverts c extractFetchForgottenTopicsData (t.bytes c.isFlexible) t.decoded := by
  refine (inverts_string t.topic).bind ?_
  refine (inverts_array hfits fun x _ => inverts_int32 x).bind ?_
  exact (inverts_tagSection t.tags).bind (Reads.pure _)

/-- A request is read to its end. A session epoch that is not there is 0. -/
theorem inverts_fetchReq {r : FetchRequest} (hfits : r.Fits c.apiVersion c.isFlexible) :
    Inverts c extractFetchReq (r.bytes c.apiVersion c.isFlexible)
      (r.decodedWith 0 c.apiVersion) := by
  refine (inverts_int32 r.replicaId).bind ?_
  refine (inverts_int32 r.maxWaitMs).bind ?_
  refine (inverts_int32 r.minBytes).bind ?_
  refine (inverts_since fun _ => inverts_int32 r.maxBytes).bind ?_
  refine (inverts_since fun _ => inverts_int8 r.isolationLevel).bind ?_
  refine (inverts_since fun _ => inverts_int32 r.sessionId).bind ?_
  refine (inverts_since fun _ => inverts_int32 r.sessionEpoch).bind ?_
  refine (inverts_array hfits.topics fun t ht =>
    inverts_fetchReqTopic (hfits.partitions t ht)).bind ?_
  refine (inverts_since fun h7 => inverts_array (hfits.forgotten h7) fun t ht =>
    inverts_fetchForgottenTopicsData (hfits.forgottenPartitions h7 t ht)).bind ?_
  refine (inverts_since fun _ => inverts_string r.rackId).bind ?_
  exact (inverts_tagSection r.tags).bind (Reads.pure _)

end Decoding

open Wire

theorem isFlexible_kFetch {version : ℤ} :
    isFlexible kFetch version = decide (12 ≤ version) := rfl

/-- The two defaults of the session epoch differ where there is no session. -/
theorem decodedWith_zero_iff {r : FetchRequest} {version : ℤ} :
    r.decodedWith 0 version = r.decoded version ↔ 7 ≤ version := by
  unfold FetchRequest.decoded FetchRequest.decodedWith
  by_cases hsession : 7 ≤ version
  · rw [if_pos hsession, if_pos hsession, if_pos hsession, if_pos hsession]
    exact iff_of_true rfl hsession
  · rw [if_neg hsession, if_neg hsession, if_neg hsession, if_neg hsession, FetchReq.mk.injEq]
    exact iff_of_false (fun h => absurd h.2.2.1 (by decide)) hsession

/-- A decoder that is set to fetch requests of a version from 0 to 12, with a request of that
version in front. -/
structure FetchInput (version : ℤ) (r : FetchRequest) (tail : GoString) (pd : PacketDecoder) :
    Prop where
  known : 0 ≤ version ∧ version ≤ 12
  fits : r.Fits version (12 ≤ version)
  str_eq : pd.binaryDecoder.str = r.bytes version (12 ≤ version) ++ tail
  apiVersion_eq : pd.apiVersion = version
  isFlexible_eq : pd.isFlexible = isFlexible kFetch version

theorem FetchInput.done {version : ℤ} {r : FetchRequest} {tail : GoString} {pd : PacketDecoder}
    (h : FetchInput version r tail pd) :
    ∃ pd', extractFetchReq pd = .done (r.decodedWith 0 version) pd'
      ∧ pd'.binaryDecoder.str = tail ∧ pd'.markedBufs = pd.markedBufs := by
  have hview : pd.view = ⟨r.bytes version (12 ≤ version) ++ tail, pd.markedBufs,
      ⟨version, decide (12 ≤ version)⟩⟩ := by
    rw [PacketDecoder.view, h.str_eq, h.apiVersion_eq, h.isFlexible_eq, isFlexible_kFetch]
  obtain ⟨pd', hdone, hpd'⟩ :=
    @inverts_fetchReq ⟨version, decide (12 ≤ version)⟩ r h.fits tail pd.markedBufs pd hview
  exact ⟨pd', hdone, str_of_view hpd', congrArg Cursor.marks hpd'⟩

/-- The request is decoded to its fields, with the documented defaults, and what is behind it
is left. -/
def DecodesFetch (version : ℤ) (r : FetchRequest) (tail : GoString) (pd : PacketDecoder) : Prop :=
  ∃ pd', extractFetchReq pd = .done (r.decoded version) pd'
    ∧ pd'.binaryDecoder.str = tail ∧ pd'.markedBufs = pd.markedBufs

/-- **Fetch requests are decoded** in the versions 7 to 12. In those before, the session epoch
is not at its default. -/
theorem extractFetchReq_iff {version : ℤ} {r : FetchRequest} {tail : GoString}
    {pd : PacketDecoder} (h : FetchInput version r tail pd) :
    DecodesFetch version r tail pd ↔ 7 ≤ version := by
  obtain ⟨pd₁, hdone, hstr, hmarks⟩ := h.done
  rw [← @decodedWith_zero_iff r]
  constructor
  · rintro ⟨pd', hdone', -, -⟩
    rw [hdone, Outcome.done.injEq] at hdone'
    exact hdone'.1
  · intro hsame
    rw [hsame] at hdone
    exact ⟨pd₁, hdone, hstr, hmarks⟩

/-- A request for the offset 382 of one partition. -/
def sampleRequest : FetchRequest :=
  { replicaId := -1, maxWaitMs := 500, minBytes := 1, maxBytes := 52428800, isolationLevel := 0
    sessionId := 0, sessionEpoch := 0
    topics := [{ topic := ⟨text "my-topic", by decide⟩
                 partitions := [{ partition := 0, currentLeaderEpoch := -1, fetchOffset := 382
                                  lastFetchedEpoch := -1, logStartOffset := -1
                                  partitionMaxBytes := 1048576, tags := ⟨[], by decide⟩ }]
                 tags := ⟨[], by decide⟩ }]
    forgottenTopicsData := [], rackId := ⟨[], by decide⟩, tags := ⟨[], by decide⟩ }

/-- The request in front of one more byte. -/
def sampleInput (version : ℤ) : PacketDecoder :=
  (PacketDecoder.new (sampleRequest.bytes version (12 ≤ version) ++ [0])).setAPIInfo kFetch
    version

theorem sampleInput_fetch {version : ℤ} (hknown : 0 ≤ version ∧ version ≤ 12) :
    FetchInput version sampleRequest [0] (sampleInput version) := by
  refine ⟨hknown, ⟨?_, ?_, ?_, ?_⟩, rfl, rfl, rfl⟩
  · unfold CountFits
    split_ifs <;> decide
  · intro t ht
    obtain rfl := List.mem_singleton.mp ht
    unfold CountFits
    split_ifs <;> decide
  · intro _
    unfold CountFits
    split_ifs <;> decide
  · intro _ t ht
    cases ht

theorem extractFetchReq_iff_flexible :
    DecodesFetch 12 sampleRequest [0] (sampleInput 12) ↔ (7 : ℤ) ≤ 12 :=
  extractFetchReq_iff (sampleInput_fetch (by decide))

/-- Version 4 has no session, and the epoch that is returned is 0. -/
theorem no_session_epoch_zero : ¬ DecodesFetch 4 sampleRequest [0] (sampleInput 4) := by
  rintro ⟨pd', hdone', -, -⟩
  obtain ⟨pd₁, hdone, -, -⟩ := (@sampleInput_fetch 4 (by decide)).done
  rw [hdone, Outcome.done.injEq] at hdone'
  exact absurd (decodedWith_zero_iff.mp hdone'.1) (by decide)

end Kyanos.Kafka
