/-
The messages of the seven protocols, as far as the matchers and the filters read them.

A Go string is a sequence of bytes and need not be UTF-8, so it is a list of bytes here.
Every message embeds a `FrameBase`; a value of the interface `protocol.ParsedMessage` is one
of the concrete types, and the type assertions of the source become pattern matches on
`Message`.
-/
import Kyanos.MatchByTimestamp

set_option autoImplicit false

namespace Kyanos

/-- A Go string. -/
abbrev GoString := List UInt8

/-- `bpf.AgentTrafficProtocolT`. -/
inductive TrafficProtocol
  | unset
  | unknown
  | http
  | http2
  | mysql
  | cql
  | pgsql
  | dns
  | redis
  | nats
  | mongo
  | kafka
  | mux
  | amqp
  | rocketMQ
deriving DecidableEq

/-- `ParsedHttpRequest`. -/
structure ParsedHttpRequest where
  base : FrameBase
  path : GoString
  host : GoString
  method : GoString
deriving DecidableEq

/-- `ParsedHttpResponse`. -/
structure ParsedHttpResponse where
  base : FrameBase
deriving DecidableEq

/-- `RedisMessage`. -/
structure RedisMessage where
  base : FrameBase
  payload : GoString
  command : GoString
  isReq : Bool
  status : ResponseStatus
deriving DecidableEq

/-- `MysqlPacket`. -/
structure MysqlPacket where
  base : FrameBase
  seqId : ℕ
  msg : GoString
  cmd : ℤ
  isReq : Bool
deriving DecidableEq

/-- `RespStatus`. -/
inductive RespStatus
  | unknown
  | none
  | ok
  | err
deriving DecidableEq

/-- `MysqlResponse`. -/
structure MysqlResponse where
  base : FrameBase
  respStatus : RespStatus
  msg : GoString
deriving DecidableEq

/-- What `OriginReq` of a Kafka request holds: a decoded produce request, with the names of
its topics, or a decoded fetch request. -/
inductive OriginReq
  | produceReq (topics : List GoString)
  | fetchReq
deriving DecidableEq

/-- What `OriginResp` of a Kafka response holds. -/
inductive OriginResp
  | produceResp
  | fetchResp (topics : List GoString)
deriving DecidableEq

/-- The Kafka `Request`. -/
structure KafkaRequest where
  base : FrameBase
  apikey : ℤ
  apiVersion : ℤ
  clientId : GoString
  originReq : Option OriginReq
deriving DecidableEq

/-- The Kafka `Response`. -/
structure KafkaResponse where
  base : FrameBase
  originResp : Option OriginResp
deriving DecidableEq

/-- The `Section` of a MongoDB frame; its documents are JSON texts. -/
structure MongoSection where
  kind : ℕ
  length : ℤ
  documents : List GoString
deriving DecidableEq

/-- `MongoDBFrame`. -/
structure MongoDBFrame where
  base : FrameBase
  length : ℤ
  requestId : ℤ
  responseTo : ℤ
  opCode : ℤ
  checksumPresent : Bool
  moreToCome : Bool
  exhaustAllowed : Bool
  sections : List MongoSection
  opMsgType : GoString
  frameBody : GoString
  checksum : ℕ
  isHandshake : Bool
  consumed : Bool
  isReq : Bool
deriving DecidableEq

/-- `RocketMQMessage`; the properties of a JSON header are left out. -/
structure RocketMQMessage where
  base : FrameBase
  requestCode : ℤ
  languageCode : ℕ
  versionFlag : ℤ
  opaqueId : ℤ
  requestFlag : ℤ
  remarkBuf : GoString := []
  propertiesBuf : GoString := []
  bodyBuf : GoString := []
  isReq : Bool
deriving DecidableEq

/-- `DNSRecord`. -/
structure DnsRecord where
  name : GoString
  cname : GoString
  type : ℕ
deriving DecidableEq

/-- `Frame` of DNS, with the `TXID` of its header. -/
structure DnsFrame where
  base : FrameBase
  txid : ℕ
  records : List DnsRecord
  consumed : Bool
  isRequest : Bool
deriving DecidableEq

/-- A `protocol.ParsedMessage` that is not `nil`. -/
inductive Message
  | httpRequest (m : ParsedHttpRequest)
  | httpResponse (m : ParsedHttpResponse)
  | redis (m : RedisMessage)
  | mysqlPacket (m : MysqlPacket)
  | mysqlResponse (m : MysqlResponse)
  | kafkaRequest (m : KafkaRequest)
  | kafkaResponse (m : KafkaResponse)
  | mongo (m : MongoDBFrame)
  | rocketMQ (m : RocketMQMessage)
  | dns (m : DnsFrame)

/-- The embedded `FrameBase`. -/
def Message.base : Message → FrameBase
  | httpRequest m => m.base
  | httpResponse m => m.base
  | redis m => m.base
  | mysqlPacket m => m.base
  | mysqlResponse m => m.base
  | kafkaRequest m => m.base
  | kafkaResponse m => m.base
  | mongo m => m.base
  | rocketMQ m => m.base
  | dns m => m.base

instance : TimestampNs Message := ⟨fun m => m.base.timestampNs⟩

/-- The record has both sides, and the request is not later than the response. -/
def Record.Forward {μ : Type} [TimestampNs μ] (record : Record μ) : Prop :=
  ∃ req resp, record.req = some req ∧ record.resp = some resp ∧ timestampNs req ≤ timestampNs resp

/-- What is matched by timestamp runs forward. -/
theorem matchByTimestamp_forward {μ : Type} [TimestampNs μ] (reqStream respStream : List μ) :
    ∀ record ∈ (matchByTimestamp reqStream respStream).records, record.Forward := by
  intro record hrecord
  rw [matchByTimestamp_records] at hrecord
  obtain ⟨req, resp, hreq, hresp, hlt⟩ :=
    (matchedRecords_sublist reqStream respStream).2.2 record hrecord
  exact ⟨req, resp, hreq, hresp, hlt.le⟩

/-- `ByteSize`, which a MongoDB frame takes from its own length. -/
def Message.byteSize : Message → ℤ
  | mongo m => m.length
  | m => m.base.byteSize

end Kyanos
