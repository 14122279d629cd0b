/-
The bodies of Kafka packets: `decoder/fetch.go`, `produce.go`, `join_group.go`, `sync_group.go`
and `metadata.go`, and what `kafka.go` does with them.

Each body is a structure of numbers, strings and arrays, and the version of the API says which
of its fields are there. A field that is not keeps the value its variable is declared with.
-/
import Kyanos.PacketDecoder
import Kyanos.Kafka

set_option autoImplicit false

open ByteReader

namespace Kyanos.Kafka

/-- `if pd.apiVersion >= version { field, err = ... }`; without it the field is `absent`. -/
def since {α : Type} (version : ℤ) (absent : α) (extractField : Extract α) : Extract α := do
  if version ≤ (← apiVersion) then extractField else pure absent

/-! ## Fetch requests -/

structure FetchReqPartition where
  index : ℤ
  currentLeaderEpoch : ℤ
  fetchOffset : ℤ
  lastFetchedEpoch : ℤ
  logStartOffset : ℤ
  partitionMaxBytes : ℤ
deriving DecidableEq

structure FetchReqTopic where
  name : GoString
  partitions : List FetchReqPartition
deriving DecidableEq

structure FetchForgottenTopicsData where
  name : GoString
  partitionIndices : List ℤ
deriving DecidableEq

structure FetchReq where
  replicaID : ℤ
  sessionID : ℤ
  sessionEpoch : ℤ
  topics : List FetchReqTopic
  forgottenTopics : List FetchForgottenTopicsData
  rackID : GoString
deriving DecidableEq

def extractFetchReqPartition : Extract FetchReqPartition := do
  let index ← extractInt32
  let currentLeaderEpoch ← since 9 (-1) extractInt32
  let fetchOffset ← extractInt64
  let lastFetchedEpoch ← since 12 (-1) extractInt32
  let logStartOffset ← since 5 (-1) extractInt64
  let partitionMaxBytes ← extractInt32
  extractTagSection
  pure { index := index, currentLeaderEpoch := currentLeaderEpoch, fetchOffset := fetchOffset
         lastFetchedEpoch := lastFetchedEpoch, logStartOffset := logStartOffset
         partitionMaxBytes := partitionMaxBytes }

def extractFetchReqTopic : Extract FetchReqTopic := do
  let name ← extractString
  let partitions ← extractArray extractFetchReqPartition
  extractTagSection
  pure { name := name, partitions := partitions }

def extractFetchForgottenTopicsData : Extract FetchForgottenTopicsData := do
  let name ← extractString
  let partitionIndices ← extractArray extractInt32
  extractTagSection
  pure { name := name, partitionIndices := partitionIndices }

def extractFetchReq : Extract FetchReq := do
  let replicaID ← extractInt32
  let _maxWaitMs ← extractInt32
  let _minBytes ← extractInt32
  let _maxBytes ← since 3 0 extractInt32
  let _isolationLevel ← since 4 0 extractInt8
  -- The session fields are not set before version 7, and so they are 0.
  let sessionID ← since 7 0 extractInt32
  let sessionEpoch ← since 7 0 extractInt32
  let topics ← extractArray extractFetchReqTopic
  let forgottenTopics ← since 7 [] (extractArray extractFetchForgottenTopicsData)
  let rackID ← since 11 [] extractString
  extractTagSection
  pure { replicaID := replicaID, sessionID := sessionID, sessionEpoch := sessionEpoch
         topics := topics, forgottenTopics := forgottenTopics, rackID := rackID }

/-! ## Fetch responses -/

structure FetchRespAbortedTransaction where
  producerID : ℤ
  firstOffset : ℤ
deriving DecidableEq

structure FetchRespPartition where
  index : ℤ
  errorCode : ℤ
  highWatermark : ℤ
  lastStableOffset : ℤ
  logStartOffset : ℤ
  abortedTransactions : List FetchRespAbortedTransaction
  preferredReadReplica : ℤ
  messageSet : MessageSet
deriving DecidableEq

structure FetchRespTopic where
  name : GoString
  partitions : List FetchRespPartition
deriving DecidableEq

structure FetchResp where
  throttleTimeMs : ℤ
  errorCode : ℤ
  sessionID : ℤ
  topics : List FetchRespTopic
deriving DecidableEq

def extractFetchRespAbortedTransaction : Extract FetchRespAbortedTransaction := do
  let producerID ← extractInt64
  let firstOffset ← extractInt64
  extractTagSection
  pure { producerID := producerID, firstOffset := firstOffset }

def extractFetchRespPartition : Extract FetchRespPartition := do
  let index ← extractInt32
  let errorCode ← extractInt16
  let highWatermark ← extractInt64
  let lastStableOffset ← since 4 (-1) extractInt64
  let logStartOffset ← since 5 (-1) extractInt64
  let abortedTransactions ← since 4 [] (extractArray extractFetchRespAbortedTransaction)
  let preferredReadReplica ← since 11 (-1) extractInt32
  let messageSet ← extractMessageSet
  pure { index := index, errorCode := errorCode, highWatermark := highWatermark
         lastStableOffset := lastStableOffset, logStartOffset := logStartOffset
         abortedTransactions := abortedTransactions
         preferredReadReplica := preferredReadReplica, messageSet := messageSet }

def extractFetchRespTopic : Extract FetchRespTopic := do
  let name ← extractString
  let partitions ← extractArray extractFetchRespPartition
  extractTagSection
  pure { name := name, partitions := partitions }

def extractFetchResp : Extract FetchResp := do
  let throttleTimeMs ← since 1 0 extractInt32
  let errorCode ← since 7 0 extractInt16
  let sessionID ← since 7 0 extractInt32
  let topics ← extractArray extractFetchRespTopic
  extractTagSection
  pure { throttleTimeMs := throttleTimeMs, errorCode := errorCode, sessionID := sessionID
         topics := topics }

/-! ## Produce requests -/

structure ProduceReqPartition where
  index : ℤ
  messageSet : MessageSet
deriving DecidableEq

structure ProduceReqTopic where
  name : GoString
  partitions : List ProduceReqPartition
deriving DecidableEq

structure ProduceReq where
  transactionalID : GoString
  acks : ℤ
  timeoutMs : ℤ
  topics : List ProduceReqTopic
deriving DecidableEq

def extractProduceReqPartition : Extract ProduceReqPartition := do
  let index ← extractInt32
  let messageSet ← extractMessageSet
  pure { index := index, messageSet := messageSet }

def extractProduceReqTopic : Extract ProduceReqTopic := do
  let name ← extractString
  let partitions ← extractArray extractProduceReqPartition
  extractTagSection
  pure { name := name, partitions := partitions }

def extractTransactionalID : Extract GoString := do
  if ← flexible then extractCompactNullableString
  else since 3 [] extractNullableString

def extractProduceReq : Extract ProduceReq := do
  let transactionalID ← extractTransactionalID
  let acks ← extractInt16
  let timeoutMs ← extractInt32
  let topics ← extractArray extractProduceReqTopic
  pure { transactionalID := transactionalID, acks := acks, timeoutMs := timeoutMs
         topics := topics }

/-! ## Produce responses -/

structure RecordError where
  batchIndex : ℤ
  errorMessage : GoString
deriving DecidableEq

structure ProduceRespPartition where
  index : ℤ
  errorCode : ℤ
  baseOffset : ℤ
  logAppendTimeMs : ℤ
  logStartOffset : ℤ
  recordErrors : List RecordError
  errorMessage : GoString
deriving DecidableEq

structure ProduceRespTopic where
  name : GoString
  partitions : List ProduceRespPartition
deriving DecidableEq

structure ProduceResp where
  topics : List ProduceRespTopic
  throttleTimeMs : ℤ
deriving DecidableEq

def extractRecordError : Extract RecordError := do
  let batchIndex ← extractInt32
  let errorMessage ← extractNullableString
  extractTagSection
  pure { batchIndex := batchIndex, errorMessage := errorMessage }

def extractProduceRespPartition : Extract ProduceRespPartition := do
  let index ← extractInt32
  let errorCode ← extractInt16
  let baseOffset ← extractInt64
  let logAppendTimeMs ← since 2 0 extractInt64
  let logStartOffset ← since 5 0 extractInt64
  let recordErrors ← since 8 [] (extractArray extractRecordError)
  let errorMessage ← since 8 [] extractNullableString
  extractTagSection
  pure { index := index, errorCode := errorCode, baseOffset := baseOffset
         logAppendTimeMs := logAppendTimeMs, logStartOffset := logStartOffset
         recordErrors := recordErrors, errorMessage := errorMessage }

/-- `ExtractProduceRespTopic`; outside the flexible versions it does not look for tagged
fields. -/
def extractProduceRespTopic : Extract ProduceRespTopic := do
  if ← flexible then
    let name ← extractCompactString
    let partitions ← extractCompactArray extractProduceRespPartition
    extractTagSection
    pure { name := name, partitions := partitions }
  else
    let name ← extractString
    let partitions ← extractArray extractProduceRespPartition
    pure { name := name, partitions := partitions }

def extractProduceResp : Extract ProduceResp := do
  let topics ← extractArray extractProduceRespTopic
  let throttleTimeMs ← since 1 0 extractInt32
  extractTagSection
  pure { topics := topics, throttleTimeMs := throttleTimeMs }

/-! ## Groups -/

structure JoinGroupProtocol where
  protocol : GoString
deriving DecidableEq

structure JoinGroupReq where
  groupID : GoString
  sessionTimeoutMs : ℤ
  rebalanceTimeoutMs : ℤ
  memberID : GoString
  groupInstanceID : GoString
  protocolType : GoString
  protocols : List JoinGroupProtocol
deriving DecidableEq

structure JoinGroupMember where
  memberID : GoString
  groupInstanceID : GoString
deriving DecidableEq

structure JoinGroupResp where
  throttleTimeMs : ℤ
  errorCode : ℤ
  generationID : ℤ
  protocolType : GoString
  protocolName : GoString
  leader : GoString
  memberID : GoString
  members : List JoinGroupMember
deriving DecidableEq

def extractJoinGroupProtocol : Extract JoinGroupProtocol := do
  let protocol ← extractString
  let _ ← extractBytes
  extractTagSection
  pure { protocol := protocol }

def extractJoinGroupMember : Extract JoinGroupMember := do
  let memberID ← extractString
  let groupInstanceID ← since 5 [] extractNullableString
  let _ ← extractBytes
  extractTagSection
  pure { memberID := memberID, groupInstanceID := groupInstanceID }

def extractJoinGroupReq : Extract JoinGroupReq := do
  let groupID ← extractString
  let sessionTimeoutMs ← extractInt32
  let rebalanceTimeoutMs ← since 1 0 extractInt32
  let memberID ← extractString
  let groupInstanceID ← since 5 [] extractNullableString
  let protocolType ← extractString
  let protocols ← extractArray extractJoinGroupProtocol
  pure { groupID := groupID, sessionTimeoutMs := sessionTimeoutMs
         rebalanceTimeoutMs := rebalanceTimeoutMs, memberID := memberID
         groupInstanceID := groupInstanceID, protocolType := protocolType
         protocols := protocols }

/-- A string that may be null from a version on. -/
def extractStringNullableSince (version : ℤ) : Extract GoString := do
  if version ≤ (← apiVersion) then extractNullableString else extractString

def extractJoinGroupResp : Extract JoinGroupResp := do
  let throttleTimeMs ← since 2 0 extractInt32
  let errorCode ← extractInt16
  let generationID ← extractInt32
  let protocolType ← extractStringNullableSince 7
  let protocolName ← extractStringNullableSince 7
  let leader ← extractString
  let memberID ← extractString
  let members ← extractArray extractJoinGroupMember
  pure { throttleTimeMs := throttleTimeMs, errorCode := errorCode, generationID := generationID
         protocolType := protocolType, protocolName := protocolName, leader := leader
         memberID := memberID, members := members }

structure SyncGroupAssignment where
  memberID : GoString
deriving DecidableEq

structure SyncGroupReq where
  groupID : GoString
  generationID : ℤ
  memberID : GoString
  groupInstanceID : GoString
  protocolType : GoString
  protocolName : GoString
  assignments : List SyncGroupAssignment
deriving DecidableEq

structure SyncGroupResp where
  throttleTimeMs : ℤ
  errorCode : ℤ
  protocolType : GoString
  protocolName : GoString
deriving DecidableEq

def extractSyncGroupAssignment : Extract SyncGroupAssignment := do
  let memberID ← extractString
  let _ ← extractBytes
  extractTagSection
  pure { memberID := memberID }

def extractSyncGroupReq : Extract SyncGroupReq := do
  let groupID ← extractString
  let generationID ← extractInt32
  let memberID ← extractString
  let groupInstanceID ← since 3 [] extractNullableString
  let protocolType ← since 5 [] extractNullableString
  let protocolName ← since 5 [] extractNullableString
  let assignments ← extractArray extractSyncGroupAssignment
  extractTagSection
  pure { groupID := groupID, generationID := generationID, memberID := memberID
         groupInstanceID := groupInstanceID, protocolType := protocolType
         protocolName := protocolName, assignments := assignments }

def extractSyncGroupResp : Extract SyncGroupResp := do
  let throttleTimeMs ← since 1 0 extractInt32
  let errorCode ← extractInt16
  let protocolType ← since 5 [] extractString
  let protocolName ← since 5 [] extractString
  let _ ← extractBytes
  extractTagSection
  pure { throttleTimeMs := throttleTimeMs, errorCode := errorCode, protocolType := protocolType
         protocolName := protocolName }

/-! ## Metadata requests -/

structure MetadataReqTopic where
  topicID : GoString
  name : GoString
deriving DecidableEq

structure MetadataReq where
  topics : List MetadataReqTopic
  allowAutoTopicCreation : Bool
  includeClusterAuthorizedOperations : Bool
  includeTopicAuthorizedOperations : Bool
deriving DecidableEq

def extractMetadataReqTopic : Extract MetadataReqTopic := do
  let topicID ← since 10 [] extractString
  let name ← extractStringNullableSince 10
  extractTagSection
  pure { topicID := topicID, name := name }

/-- The last flag of a metadata request, which versions 8 to 10 have. -/
def extractTopicAuthorized : Extract Bool := do
  if (← apiVersion) ≤ 10 then extractBool else pure false

def extractMetadataReq : Extract MetadataReq := do
  let topics ← extractArray extractMetadataReqTopic
  let allowAutoTopicCreation ← since 4 false extractBool
  let includeClusterAuthorizedOperations ← since 8 false extractBool
  let includeTopicAuthorizedOperations ← since 8 false extractTopicAuthorized
  extractTagSection
  pure { topics := topics, allowAutoTopicCreation := allowAutoTopicCreation
         includeClusterAuthorizedOperations := includeClusterAuthorizedOperations
         includeTopicAuthorizedOperations := includeTopicAuthorizedOperations }

/-! ## The bodies of requests and responses -/

/-- What `ProcessReq` reads behind the header, and what `OriginReq` then holds. -/
def extractReqBody (apiKey : ℤ) : Extract (Option OriginReq) :=
  if apiKey = kProduce then do
    let r ← extractProduceReq
    pure (some (.produceReq (r.topics.map ProduceReqTopic.name)))
  else if apiKey = kFetch then do
    let _ ← extractFetchReq
    pure (some .fetchReq)
  else if apiKey = kJoinGroup then do
    let _ ← extractJoinGroupReq
    pure none
  else if apiKey = kSyncGroup then do
    let _ ← extractSyncGroupReq
    pure none
  else if apiKey = kMetadata then do
    let _ ← extractMetadataReq
    pure none
  else pure none

/-- What `ProcessResp` reads behind the header, and what `OriginResp` then holds. -/
def extractRespBody (apiKey : ℤ) : Extract (Option OriginResp) :=
  if apiKey = kProduce then do
    let _ ← extractProduceResp
    pure (some .produceResp)
  else if apiKey = kFetch then do
    let r ← extractFetchResp
    pure (some (.fetchResp (r.topics.map FetchRespTopic.name)))
  else if apiKey = kJoinGroup then do
    let _ ← extractJoinGroupResp
    pure none
  else if apiKey = kSyncGroup then do
    let _ ← extractSyncGroupResp
    pure none
  else pure none

/-- A reader that is run on the bytes of a packet. -/
def onPacket {α : Type} (p : Extract α) (pd : PacketDecoder) : Except Panic (Option α) :=
  match p pd with
  | .done a _ => .ok (some a)
  | .failed _ _ => .ok none
  | .fault panic => .error panic

/-- The package `decoder`, as `ProcessReq` and `ProcessResp` use it. A body that cannot be
read leaves the message without its origin. -/
def packetDecoders : Decoders where
  reqHeader msg := onPacket extractReqHeader (PacketDecoder.new msg)
  reqBody msg := do
    let origin ← onPacket (do
      let header ← extractReqHeader
      extractReqBody header.1) (PacketDecoder.new msg)
    .ok origin.join
  respHeader msg apiKey apiVersion := do
    let header ← onPacket extractRespHeader ((PacketDecoder.new msg).setAPIInfo apiKey apiVersion)
    .ok header.isSome
  respBody msg apiKey apiVersion := do
    let origin ← onPacket (do
      extractRespHeader
      extractRespBody apiKey) ((PacketDecoder.new msg).setAPIInfo apiKey apiVersion)
    .ok origin.join

end Kyanos.Kafka
