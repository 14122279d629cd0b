import Kyanos.GoNum
import Kyanos.SortedMap
import Kyanos.Trace
import Kyanos.Pieces
import Kyanos.Framing
import Kyanos.Common
import Kyanos.Buffer
import Kyanos.StreamBuffer
import Kyanos.StreamLabels
import Kyanos.StreamRuns
import Kyanos.StreamOrder
import Kyanos.StreamTimes
import Kyanos.StreamBounds
import Kyanos.RingBuffer
import Kyanos.KernEvents
import Kyanos.KernEventRuns
import Kyanos.KernEventTimes
import Kyanos.OrderedIndex
import Kyanos.KernSslEvents
import Kyanos.RecordsProcessor
import Kyanos.ParseStream
import Kyanos.RoleInference
import Kyanos.MatchByTimestamp
import Kyanos.TempQueues
import Kyanos.ConnManager
import Kyanos.Messages
import Kyanos.Filters
import Kyanos.Decoder
import Kyanos.Boundary
import Kyanos.MysqlPackets
import Kyanos.MysqlReadable
import Kyanos.Mysql
import Kyanos.MysqlRecords
import Kyanos.MysqlWaiting
import Kyanos.MysqlWire
import Kyanos.MysqlLengths
import Kyanos.MysqlBoundary
import Kyanos.MysqlResultsets
import Kyanos.MysqlStatements
import Kyanos.MysqlSafety
import Kyanos.MysqlReplies
import Kyanos.MysqlParams
import Kyanos.MysqlRows
import Kyanos.Redis
import Kyanos.RedisFrames
import Kyanos.Resp
import Kyanos.Kafka
import Kyanos.ByteReader
import Kyanos.PacketDecoder
import Kyanos.KafkaBodies
import Kyanos.KafkaWire
import Kyanos.KafkaFetch
import Kyanos.KafkaProduce
import Kyanos.KafkaGroups
import Kyanos.KafkaMatches
import Kyanos.KafkaLayouts
import Kyanos.KafkaSafety
import Kyanos.KafkaBoundary
import Kyanos.KafkaMessageSets
import Kyanos.RocketMQ
import Kyanos.RocketMQFrames
import Kyanos.ProtocolInference
import Kyanos.DataPath
import Kyanos.VectoredEvents
import Kyanos.StampedRuns
import Kyanos.StreamParsing
import Kyanos.Conversations
import Kyanos.LengthHeaders
import Kyanos.EventSlots
import Kyanos.ByteCounters
import Kyanos.ConnRecords
import Kyanos.ConnScratch
import Kyanos.Mongo
import Kyanos.MongoFrames
import Kyanos.MongoStitcher
import Kyanos.MongoOrder
import Kyanos.Dns
import Kyanos.DnsMatches
import Kyanos.Http
import Kyanos.HttpBoundary
import Kyanos.HttpRequests
import Kyanos.Overlaps
import Kyanos.FakeData
import Kyanos.ParserContract
import Kyanos.MatchTimes
import Kyanos.Aggregation
import Kyanos.RocketMQSafety
import Kyanos.RocketMQMatches
import Kyanos.MongoMoreToCome
import Kyanos.Samples
import Kyanos.RingCalls
import Kyanos.KafkaVarints
import Kyanos.Percentiles
import Kyanos.DurationMetrics
import Kyanos.LatencyBreakdown
import Kyanos.GoRegisterAbi
import Kyanos.RingSearch
import Kyanos.RedisStream
import Kyanos.SyscallMessages
import Kyanos.PacketEvents
import Kyanos.PacketLookups
import Kyanos.Ledger
import Kyanos.TlsCalls
import Kyanos.TracingState
import Kyanos.Stash
import Kyanos.SyscallProbes
import Kyanos.InferredEvents
