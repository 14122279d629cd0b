/-
`agent/protocol/redis..go`: the Redis parser.

A message is a marker and what the marker announces: a line, a string of a given length, or
an array of messages, which may hold arrays again. The recursion goes down with every marker
it reads, so it is structural in the number of bytes left (`parseMessage_enough`).

The size of a message is the count of its decoder, and the decoder counts what it reads, so
what a parse reports as read is at least the marker and at most the head
(`parseStream_read`).
-/
import Kyanos.Decoder

set_option autoImplicit false

open Trace

namespace Kyanos.Redis

def kSimpleStringMarker : UInt8 := 43
def kErrorMarker : UInt8 := 45
def kIntegerMarker : UInt8 := 58
def kBulkStringsMarker : UInt8 := 36
def kArrayMarker : UInt8 := 42

/-- A carriage return and a line feed. -/
def kTerminalSequence : GoString := [13, 10]

def kNullSize : ℤ := -1

/-! ## Command names -/

/-- The keys of `redisCommandsMap`. -/
def redisCommands : List String :=
  ["ACL LOAD", "ACL SAVE", "ACL LIST", "ACL USERS", "ACL GETUSER", "ACL SETUSER", "ACL DELUSER",
    "ACL CAT", "ACL GENPASS", "ACL WHOAMI", "ACL LOG", "ACL HELP", "APPEND", "AUTH",
    "BGREWRITEAOF", "BGSAVE", "BITCOUNT", "BITFIELD", "BITOP", "BITPOS", "BLPOP", "BRPOP",
    "BRPOPLPUSH", "BLMOVE", "BZPOPMIN", "BZPOPMAX", "CLIENT CACHING", "CLIENT ID", "CLIENT INFO",
    "CLIENT KILL", "CLIENT LIST", "CLIENT GETNAME", "CLIENT GETREDIR", "CLIENT UNPAUSE",
    "CLIENT PAUSE", "CLIENT REPLY", "CLIENT SETNAME", "CLIENT TRACKING", "CLIENT TRACKINGINFO",
    "CLIENT UNBLOCK", "CLUSTER ADDSLOTS", "CLUSTER BUMPEPOCH", "CLUSTER COUNT-FAILURE-REPORTS",
    "CLUSTER COUNTKEYSINSLOT", "CLUSTER DELSLOTS", "CLUSTER FAILOVER", "CLUSTER FLUSHSLOTS",
    "CLUSTER FORGET", "CLUSTER GETKEYSINSLOT", "CLUSTER INFO", "CLUSTER KEYSLOT", "CLUSTER MEET",
    "CLUSTER MYID", "CLUSTER NODES", "CLUSTER REPLICATE", "CLUSTER RESET", "CLUSTER SAVECONFIG",
    "CLUSTER SET-CONFIG-EPOCH", "CLUSTER SETSLOT", "CLUSTER SLAVES", "CLUSTER REPLICAS",
    "CLUSTER SLOTS", "COMMAND", "COMMAND COUNT", "COMMAND GETKEYS", "COMMAND INFO", "CONFIG GET",
    "CONFIG REWRITE", "CONFIG SET", "CONFIG RESETSTAT", "COPY", "DBSIZE", "DEBUG OBJECT",
    "DEBUG SEGFAULT", "DECR", "DECRBY", "DEL", "DISCARD", "DUMP", "ECHO", "EVAL", "EVALSHA",
    "EXEC", "EXISTS", "EXPIRE", "EXPIREAT", "FAILOVER", "FLUSHALL", "FLUSHDB", "GEOADD",
    "GEOHASH", "GEOPOS", "GEODIST", "GEORADIUS", "GEORADIUSBYMEMBER", "GEOSEARCH",
    "GEOSEARCHSTORE", "GET", "GETBIT", "GETDEL", "GETEX", "GETRANGE", "GETSET", "HDEL", "HELLO",
    "HEXISTS", "HGET", "HGETALL", "HINCRBY", "HINCRBYFLOAT", "HKEYS", "HLEN", "HMGET", "HMSET",
    "HSET", "HSETNX", "HRANDFIELD", "HSTRLEN", "HVALS", "INCR", "INCRBY", "INCRBYFLOAT", "INFO",
    "LOLWUT", "KEYS", "LASTSAVE", "LINDEX", "LINSERT", "LLEN", "LPOP", "LPOS", "LPUSH", "LPUSHX",
    "LRANGE", "LREM", "LSET", "LTRIM", "MEMORY DOCTOR", "MEMORY HELP", "MEMORY MALLOC-STATS",
    "MEMORY PURGE", "MEMORY STATS", "MEMORY USAGE", "MGET", "MIGRATE", "MODULE LIST",
    "MODULE LOAD", "MODULE UNLOAD", "MONITOR", "MOVE", "MSET", "MSETNX", "MULTI", "OBJECT",
    "PERSIST", "PEXPIRE", "PEXPIREAT", "PFADD", "PFCOUNT", "PFMERGE", "PING", "PSETEX",
    "PSUBSCRIBE", "PUBSUB", "PTTL", "PUBLISH", "PUNSUBSCRIBE", "QUIT", "RANDOMKEY", "READONLY",
    "READWRITE", "RENAME", "RENAMENX", "RESET", "RESTORE", "ROLE", "RPOP", "RPOPLPUSH", "LMOVE",
    "RPUSH", "RPUSHX", "SADD", "SAVE", "SCARD", "SCRIPT DEBUG", "SCRIPT EXISTS", "SCRIPT FLUSH",
    "SCRIPT KILL", "SCRIPT LOAD", "SDIFF", "SDIFFSTORE", "SELECT", "SET", "SETBIT", "SETEX",
    "SETNX", "SETRANGE", "SHUTDOWN", "SINTER", "SINTERSTORE", "SISMEMBER", "SMISMEMBER",
    "SLAVEOF", "REPLICAOF", "SLOWLOG", "SMEMBERS", "SMOVE", "SORT", "SPOP", "SRANDMEMBER", "SREM",
    "STRALGO", "STRLEN", "SUBSCRIBE", "SUNION", "SUNIONSTORE", "SWAPDB", "SYNC", "PSYNC", "TIME",
    "TOUCH", "TTL", "TYPE", "UNSUBSCRIBE", "UNLINK", "UNWATCH", "WAIT", "WATCH", "ZADD", "ZCARD",
    "ZCOUNT", "ZDIFF", "ZDIFFSTORE", "ZINCRBY", "ZINTER", "ZINTERSTORE", "ZLEXCOUNT", "ZPOPMAX",
    "ZPOPMIN", "ZRANDMEMBER", "ZRANGESTORE", "ZRANGE", "ZRANGEBYLEX", "ZREVRANGEBYLEX",
    "ZRANGEBYSCORE", "ZRANK", "ZREM", "ZREMRANGEBYLEX", "ZREMRANGEBYRANK", "ZREMRANGEBYSCORE",
    "ZREVRANGE", "ZREVRANGEBYSCORE", "ZREVRANK", "ZSCORE", "ZUNION", "ZMSCORE", "ZUNIONSTORE",
    "SCAN", "SSCAN", "HSCAN", "ZSCAN", "XINFO", "XADD", "XTRIM", "XDEL", "XRANGE", "XREVRANGE",
    "XLEN", "XREAD", "XGROUP", "XREADGROUP", "XACK", "XCLAIM", "XAUTOCLAIM", "XPENDING",
    "LATENCY DOCTOR", "LATENCY GRAPH", "LATENCY HISTORY", "LATENCY LATEST", "LATENCY RESET",
    "LATENCY HELP", "SENTINEL", "REPLCONF ACK"]

/-- `strings.ToUpper`, as far as a command name can tell: besides the ASCII letters there are
two letters whose upper case is ASCII, the dotless i and the long s. -/
def toUpper : GoString → GoString
  | 0xc4 :: 0xb1 :: rest => 73 :: toUpper rest
  | 0xc5 :: 0xbf :: rest => 83 :: toUpper rest
  | b :: rest => (if 97 ≤ b ∧ b ≤ 122 then b - 32 else b) :: toUpper rest
  | [] => []

def isCommand (candidateCmd : GoString) : Bool := redisCommands.any (fun c => text c == candidateCmd)

/-- The payloads, each with a blank behind it. -/
def joinPayloads (messages : List RedisMessage) : GoString :=
  messages.flatMap (fun m => m.payload ++ [32])

/-- The single-word half of `getCmdAndArgs`. -/
def getCmdAndArgsSingle (payloads : List RedisMessage) : GoString × GoString :=
  match payloads with
  | [] => ([], [])
  | firstMessage :: rest =>
      let candidateCmd := toUpper firstMessage.payload
      if isCommand candidateCmd then (candidateCmd, (joinPayloads rest).dropLast) else ([], [])

/-- `getCmdAndArgs`. A command of two words keeps the blank at its end. -/
def getCmdAndArgs (payloads : List RedisMessage) : GoString × GoString :=
  match payloads with
  | firstMessage :: secondMessage :: rest =>
      let candidateCmd := toUpper (firstMessage.payload ++ [32] ++ secondMessage.payload)
      if isCommand candidateCmd then (candidateCmd, joinPayloads rest)
      else getCmdAndArgsSingle payloads
  | _ => getCmdAndArgsSingle payloads

/-! ## Messages -/

/-- The digits of a number, or `none`. -/
def atoiDigits (str : GoString) : Option ℕ :=
  if str.length = 0 ∨ str.any (fun b => b < 48 || b > 57) then none
  else some (str.foldl (fun n b => 10 * n + (b.toNat - 48)) 0)

/-- `strconv.Atoi`, on a text that is too short to overflow. -/
def atoi (str : GoString) : Option ℤ :=
  match str with
  | 43 :: rest => (atoiDigits rest).map (fun n => (n : ℤ))
  | 45 :: rest => (atoiDigits rest).map (fun n => -(n : ℤ))
  | _ => (atoiDigits str).map (fun n => (n : ℤ))

def parseSize (decoder : BinaryDecoder) : Except Failure (ℤ × BinaryDecoder) := do
  let (str, decoder) ← orFail (decoder.extractStringUntil kTerminalSequence)
  -- So a size has at most sixteen characters, and never overflows.
  if str.length > 16 then .error (.err .invalidArgument)
  else
    match atoi str with
    | none => .error (.err .invalidArgument)
    | some size =>
        if size < kNullSize then .error (.err .invalidArgument) else .ok (size, decoder)

def parseBulkString (decoder : BinaryDecoder) : Except Failure (GoString × BinaryDecoder) := do
  let (length, decoder) ← parseSize decoder
  if length > 512 * 1024 * 1024 then .error (.err .invalidArgument)
  else if length = kNullSize then .ok (text "<NULL>", decoder)
  else
    -- The terminal sequence is read with the string and cut off again.
    let (str, decoder) ← decoder.extractString (length + 2)
    .ok (str.take length.toNat, decoder)

section

variable (timestamp seq : ℕ)

/-- A message that is no array, after `decoder` has read it. -/
def plainMessage (decoder : BinaryDecoder) (payload : GoString) (status : ResponseStatus) :
    RedisMessage :=
  { base := ⟨timestamp, decoder.readBytes, seq⟩
    payload := payload, command := [], isReq := false, status := status }

/-- The loop of `ParseArray` over the elements left. -/
def parseElements (parse : BinaryDecoder → Except Failure (RedisMessage × BinaryDecoder)) :
    ℕ → BinaryDecoder → Except Failure (List RedisMessage × BinaryDecoder)
  | 0, decoder => .ok ([], decoder)
  | n + 1, decoder => do
      let (message, decoder) ← parse decoder
      let (messages, decoder) ← parseElements parse n decoder
      .ok (message :: messages, decoder)

/-- `ParseArray`, with the parser of its elements. -/
def parseArray (parse : BinaryDecoder → Except Failure (RedisMessage × BinaryDecoder))
    (decoder : BinaryDecoder) : Except Failure (RedisMessage × BinaryDecoder) := do
  let (size, decoder) ← parseSize decoder
  if size = kNullSize then
    .ok (plainMessage timestamp seq decoder (text "[NULL]") .noneStatus, decoder)
  else
    let (messages, decoder) ← parseElements parse size.toNat decoder
    -- The position in the stream is overwritten by the caller.
    let (command, payload) := getCmdAndArgs messages
    .ok ({ base := ⟨timestamp, decoder.readBytes, decoder.readBytes.toNat⟩
           payload := payload, command := command, isReq := true, status := .noneStatus }, decoder)

/-- `ParseMessage`, over at most `n` bytes. -/
def parseMessage : ℕ → BinaryDecoder → Except Failure (RedisMessage × BinaryDecoder)
  | 0, _ => .error (.err .resourceNotAvailble)
  | n + 1, decoder => do
      let (typeMarker, decoder) ← orFail decoder.extractByte
      if typeMarker = kSimpleStringMarker then
        let (str, decoder) ← orFail (decoder.extractStringUntil kTerminalSequence)
        .ok (plainMessage timestamp seq decoder str .successStatus, decoder)
      else if typeMarker = kBulkStringsMarker then
        let (str, decoder) ← parseBulkString decoder
        .ok (plainMessage timestamp seq decoder str .successStatus, decoder)
      else if typeMarker = kErrorMarker then
        let (str, decoder) ← orFail (decoder.extractStringUntil kTerminalSequence)
        .ok (plainMessage timestamp seq decoder (45 :: str) .failStatus, decoder)
      else if typeMarker = kIntegerMarker then
        let (str, decoder) ← orFail (decoder.extractStringUntil kTerminalSequence)
        .ok (plainMessage timestamp seq decoder str .successStatus, decoder)
      else if typeMarker = kArrayMarker then
        parseArray timestamp seq (parseMessage n) decoder
      else .error (.err .invalidArgument)

end

/-- Whether a message is a request: the queue it is parsed for decides, and without one an
array that starts with a command. -/
def markRequest (messageType : MessageType) (m : RedisMessage) : Bool :=
  if messageType ≠ .unknown then messageType = .request
  else m.isReq && m.command ≠ []

/-- `ParseStream`, on the head of the stream buffer. -/
def parseStream (sb : StreamBuffer) (messageType : MessageType) :
    Except Panic (ParseResult RedisMessage) :=
  match sb.head with
  | none => .error .nilDereference
  | some head =>
      let seq := head.leftBoundary
      let ts := sb.findTimestampBySeq seq
      match parseMessage (ts.getD 0) seq head.buf.length (BinaryDecoder.new head.buf) with
      | .error (.panic p) => .error p
      | .error (.err .invalidArgument) => .ok ⟨.invalid, [], 0⟩
      | .error (.err _) => .ok ⟨.needsMoreData, [], 0⟩
      | .ok (m, _) =>
          let m := { m with
            isReq := markRequest messageType m
            base := { m.base with seq := seq } }
          -- Without a time for the head the message is read and thrown away.
          .ok ⟨if ts.isNone then .ignore else .success, [⟨m.isReq, 0, m⟩], m.base.byteSize⟩

/-- `FindBoundary`: the first marker from a position on. -/
def findBoundary (sb : StreamBuffer) (startPos : ℤ) : Except Panic ℤ :=
  match sb.head with
  | none => .error .nilDereference
  | some head =>
      let isMarker : UInt8 → Bool := fun b =>
        b == kSimpleStringMarker || b == kErrorMarker || b == kIntegerMarker
          || b == kBulkStringsMarker || b == kArrayMarker
      if startPos < 0 then .error .indexOutOfRange
      else
        match (head.buf.drop startPos.toNat).findIdx? isMarker with
        | some i => .ok (startPos + i)
        | none => .ok (-1)

/-- `Match`, on the queues of stream 0. -/
def matchStreams (reqStream respStream : List Message) : Matched Message :=
  matchByTimestamp reqStream respStream

/-! ## What was read -/

open BinaryDecoder

variable {d d' : BinaryDecoder} {timestamp seq : ℕ}

theorem parseSize_advances {size : ℤ} (h : parseSize d = .ok (size, d')) :
    Advances 0 d d' ∧ kNullSize ≤ size := by
  unfold parseSize at h
  obtain ⟨⟨str, d₁⟩, hstr, h⟩ := bind_eq_ok.mp h
  dsimp only at h
  split_ifs at h
  split at h
  · cases h
  · split_ifs at h with hsize
    cases h
    refine ⟨?_, Int.not_lt.mp hsize⟩
    apply (extractStringUntil_advances (orFail_eq_ok hstr)).weaken
    exact Int.natCast_nonneg _

theorem parseBulkString_advances {str : GoString} (h : parseBulkString d = .ok (str, d')) :
    Advances 0 d d' := by
  unfold parseBulkString at h
  obtain ⟨⟨length, d₁⟩, hsize, h⟩ := bind_eq_ok.mp h
  obtain ⟨hadv, -⟩ := parseSize_advances hsize
  dsimp only at h
  split_ifs at h
  · cases h
    exact hadv
  · obtain ⟨⟨str', d₂⟩, hstr, h⟩ := bind_eq_ok.mp h
    cases h
    obtain ⟨hadv', hnonneg⟩ := extractString_advances hstr
    exact hadv.trans (hadv'.weaken hnonneg)

/-- What is asked of a parser of elements: it moves on, and counts what it read. -/
def Counts (d : BinaryDecoder) (m : RedisMessage) (d' : BinaryDecoder) : Prop :=
  Advances 1 d d' ∧ m.base.byteSize = d'.readBytes

theorem parseElements_advances
    {parse : BinaryDecoder → Except Failure (RedisMessage × BinaryDecoder)}
    (hparse : ∀ {d m d'}, parse d = .ok (m, d') → Counts d m d') {n : ℕ}
    {messages : List RedisMessage} (h : parseElements parse n d = .ok (messages, d')) :
    Advances 0 d d' := by
  induction n generalizing d messages with
  | zero =>
      cases h
      exact Advances.refl _
  | succ n ih =>
      rw [parseElements] at h
      obtain ⟨⟨m, d₁⟩, hm, h⟩ := bind_eq_ok.mp h
      obtain ⟨⟨ms, d₂⟩, hms, h⟩ := bind_eq_ok.mp h
      cases h
      exact ((hparse hm).1.trans (ih hms)).weaken (by omega)

theorem parseArray_counts {parse : BinaryDecoder → Except Failure (RedisMessage × BinaryDecoder)}
    (hparse : ∀ {d m d'}, parse d = .ok (m, d') → Counts d m d') {m : RedisMessage}
    (h : parseArray timestamp seq parse d = .ok (m, d')) :
    Advances 0 d d' ∧ m.base.byteSize = d'.readBytes := by
  unfold parseArray at h
  obtain ⟨⟨size, d₁⟩, hsize, h⟩ := bind_eq_ok.mp h
  obtain ⟨hadv, -⟩ := parseSize_advances hsize
  dsimp only at h
  split_ifs at h
  · cases h
    exact ⟨hadv, rfl⟩
  · obtain ⟨⟨messages, d₂⟩, helements, h⟩ := bind_eq_ok.mp h
    cases h
    exact ⟨hadv.trans (parseElements_advances hparse helements), rfl⟩

/-- **A message is at least its marker, and its size is what the decoder counted.** -/
theorem parseMessage_counts {n : ℕ} {m : RedisMessage}
    (h : parseMessage timestamp seq n d = .ok (m, d')) : Counts d m d' := by
  induction n generalizing d m d' with
  | zero => cases h
  | succ n ih =>
      rw [parseMessage] at h
      obtain ⟨⟨marker, d₁⟩, hmarker, h⟩ := bind_eq_ok.mp h
      have hadv := extractByte_advances (orFail_eq_ok hmarker)
      have hline : ∀ {str : GoString} {d₂ : BinaryDecoder},
          orFail (d₁.extractStringUntil kTerminalSequence) = .ok (str, d₂) → Advances 1 d d₂ := by
        intro str d₂ hstr
        exact (hadv.trans (extractStringUntil_advances (orFail_eq_ok hstr))).weaken (by omega)
      dsimp only at h
      split_ifs at h
      · obtain ⟨⟨str, d₂⟩, hstr, h⟩ := bind_eq_ok.mp h
        cases h
        exact ⟨hline hstr, rfl⟩
      · obtain ⟨⟨str, d₂⟩, hstr, h⟩ := bind_eq_ok.mp h
        cases h
        exact ⟨hadv.trans (parseBulkString_advances hstr), rfl⟩
      · obtain ⟨⟨str, d₂⟩, hstr, h⟩ := bind_eq_ok.mp h
        cases h
        exact ⟨hline hstr, rfl⟩
      · obtain ⟨⟨str, d₂⟩, hstr, h⟩ := bind_eq_ok.mp h
        cases h
        exact ⟨hline hstr, rfl⟩
      · obtain ⟨hadv', hsize⟩ := parseArray_counts (fun hm => ih hm) h
        exact ⟨hadv.trans hadv', hsize⟩

theorem parseElements_congr
    {parse parse' : BinaryDecoder → Except Failure (RedisMessage × BinaryDecoder)}
    (hparse : ∀ {d m d'}, parse d = .ok (m, d') → Counts d m d') {k : ℕ}
    (heq : ∀ d : BinaryDecoder, d.str.length ≤ k → parse d = parse' d) {n : ℕ}
    (hd : d.str.length ≤ k) : parseElements parse n d = parseElements parse' n d := by
  induction n generalizing d with
  | zero => rfl
  | succ n ih =>
      rw [parseElements, parseElements, ← heq d hd]
      rcases hm : parse d with e | ⟨m, d₁⟩
      · rfl
      · have hadv := (hparse hm).1
        have hcounted := hadv.counted
        have hmoved := hadv.moved
        have hd₁ : d₁.str.length ≤ k := by omega
        change (parseElements parse n d₁ >>= _) = (parseElements parse' n d₁ >>= _)
        rw [ih hd₁]

/-- The bound on the recursion is never what ends it: a decoder of as many bytes needs no
more. -/
theorem parseMessage_enough {m n : ℕ} (hm : d.str.length ≤ m) (hn : d.str.length ≤ n) :
    parseMessage timestamp seq m d = parseMessage timestamp seq n d := by
  induction m generalizing n d with
  | zero =>
      rcases n with _ | n
      · rfl
      · have hnil : d.str = [] := List.length_eq_zero_iff.mp (Nat.le_zero.mp hm)
        rw [parseMessage, parseMessage]
        unfold extractByte
        rw [hnil]
        rfl
  | succ m ih =>
      rcases n with _ | n
      · have hnil : d.str = [] := List.length_eq_zero_iff.mp (Nat.le_zero.mp hn)
        rw [parseMessage, parseMessage]
        unfold extractByte
        rw [hnil]
        rfl
      · rw [parseMessage, parseMessage]
        rcases hmarker : orFail d.extractByte with e | ⟨marker, d₁⟩
        · rfl
        · -- Only an array goes on with the parser itself, and with a byte less.
          have hadv := extractByte_advances (orFail_eq_ok hmarker)
          have hcounted := hadv.counted
          have hmoved := hadv.moved
          have harray : parseArray timestamp seq (parseMessage timestamp seq m) d₁
              = parseArray timestamp seq (parseMessage timestamp seq n) d₁ := by
            unfold parseArray
            rcases hsize : parseSize d₁ with e | ⟨size, d₂⟩
            · rfl
            · obtain ⟨hadv₂, -⟩ := parseSize_advances hsize
              have hcounted₂ := hadv₂.counted
              have hmoved₂ := hadv₂.moved
              have helements : parseElements (parseMessage timestamp seq m) size.toNat d₂
                  = parseElements (parseMessage timestamp seq n) size.toNat d₂ := by
                refine parseElements_congr (k := min m n) (fun hm => parseMessage_counts hm) ?_ ?_
                · intro d hd
                  exact ih (by omega) (by omega)
                · omega
              change (if size = kNullSize then _ else parseElements _ size.toNat d₂ >>= _)
                = (if size = kNullSize then _ else parseElements _ size.toNat d₂ >>= _)
              rw [helements]
          change (if marker = kSimpleStringMarker then _ else _)
            = (if marker = kSimpleStringMarker then _ else _)
          rw [harray]

/-- What a parse reports as read lies in the head and is not empty. -/
theorem parseStream_read {sb : StreamBuffer} {head : Buffer} {messageType : MessageType}
    {r : ParseResult RedisMessage} (hhead : sb.head = some head)
    (h : parseStream sb messageType = .ok r)
    (hstate : r.parseState = .success ∨ r.parseState = .ignore) :
    1 ≤ r.readBytes ∧ r.readBytes ≤ head.len := by
  unfold parseStream at h
  rw [hhead] at h
  dsimp only at h
  split at h
  · cases h
  · cases h
    rcases hstate with hs | hs <;> cases hs
  · cases h
    rcases hstate with hs | hs <;> cases hs
  · rename_i m d hparse
    cases h
    obtain ⟨hadv, hsize⟩ := parseMessage_counts hparse
    dsimp only
    rw [hsize]
    exact hadv.read_le

theorem findBoundary_bounds {sb : StreamBuffer} {head : Buffer} {startPos pos : ℤ}
    (hhead : sb.head = some head) (h : findBoundary sb startPos = .ok pos) :
    pos = -1 ∨ startPos ≤ pos ∧ pos ≤ head.len := by
  unfold findBoundary at h
  rw [hhead] at h
  dsimp only at h
  split_ifs at h with hneg
  split at h
  · rename_i i hi
    cases h
    obtain ⟨hlt, -⟩ := List.findIdx?_eq_some_iff_getElem.mp hi
    rw [List.length_drop] at hlt
    right
    rw [Buffer.len]
    omega
  · cases h
    exact Or.inl rfl

end Kyanos.Redis
