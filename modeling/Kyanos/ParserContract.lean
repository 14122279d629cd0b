/-
What `parseStreamBuffer` relies on, for the parsers it calls: a frame that is taken off the
head is part of it and not empty, and a boundary lies between the position asked for and the
end of the head.

Every parser keeps to it on every input but one kind. MongoDB reads its length as signed
without looking at the sign, and the number of bytes it skips is a difference of 32 bits. A
head of 2 GiB and more can make that difference wrap (`Mongo.Wraps`).
-/
import Kyanos.Redis
import Kyanos.Mysql
import Kyanos.Kafka
import Kyanos.Mongo
import Kyanos.RocketMQ
import Kyanos.Http

set_option autoImplicit false

namespace Kyanos

/-- The parsers of messages that are read byte by byte. -/
inductive StreamParser
  | redis
  | mysql
  | kafka
  | mongo
  | rocketMQ
deriving DecidableEq, Repr

/-- What the parsers read besides the buffer: their states, the decoders of other packages,
a bound on the rounds of a loop that may not end, and the memory behind the head. -/
structure ParserSetting where
  kafka : Kafka.State
  mongo : Mongo.State
  rocketMQ : RocketMQ.State
  bson : GoString → Option Mongo.Document
  rounds : ℕ
  jsonHeader : GoString → Option RocketMQ.JsonHeader
  spare : ℕ

/-- The state and the bytes read of a parse that returns. -/
def returned {ε π : Type} : Except ε (ParseResult π) → Option (ParseState × ℤ)
  | .ok r => some (r.parseState, r.readBytes)
  | .error _ => none

/-- `ParseStream` of a parser. -/
def parseStreamOf (s : ParserSetting) (sb : StreamBuffer) (messageType : MessageType) :
    StreamParser → Option (ParseState × ℤ)
  | .redis => returned (Redis.parseStream sb messageType)
  | .mysql => returned (Mysql.parseStream sb messageType)
  | .kafka => returned ((Kafka.parseStream s.kafka sb messageType).map Prod.fst)
  | .mongo => returned ((Mongo.parseStream s.bson s.rounds s.mongo sb messageType).map Prod.fst)
  | .rocketMQ => returned (RocketMQ.parseStream s.jsonHeader s.spare sb messageType)

/-- `FindBoundary` of a parser. -/
def findBoundaryOf (s : ParserSetting) (sb : StreamBuffer) (messageType : MessageType)
    (startPos : ℕ) : StreamParser → Except Panic ℤ
  | .redis => Redis.findBoundary sb startPos
  | .mysql => Mysql.findBoundary sb messageType startPos
  | .kafka => Kafka.findBoundary s.kafka sb messageType startPos
  | .mongo => Mongo.findBoundary sb startPos
  | .rocketMQ => RocketMQ.findBoundary s.rocketMQ sb messageType startPos

/-- A boundary that was looked for from `startPos` on, on a head of `n` bytes. -/
def BoundaryIn (n startPos : ℕ) (pos : ℤ) : Prop := pos = -1 ∨ startPos ≤ pos ∧ pos ≤ n

/-- The contract of the parsers on a buffer with the given head. -/
structure ParserContract (s : ParserSetting) (sb : StreamBuffer) (head : Buffer)
    (messageType : MessageType) : Prop where
  read : ∀ parser state readBytes,
    parseStreamOf s sb messageType parser = some (state, readBytes) →
    state = .success ∨ state = .ignore → 1 ≤ readBytes ∧ readBytes ≤ head.len
  boundary : ∀ parser startPos pos, startPos = 0 ∨ startPos = 1 → startPos ≤ head.len →
    findBoundaryOf s sb messageType startPos parser = .ok pos → BoundaryIn head.len startPos pos
  httpBoundary : ∀ startPos pos, startPos = 0 ∨ startPos = 1 → startPos ≤ head.len →
    Http.findBoundary sb messageType startPos = .ok pos → BoundaryIn head.len startPos pos

section

variable {s : ParserSetting} {sb : StreamBuffer} {head : Buffer} {messageType : MessageType}

theorem returned_eq_some {ε π : Type} {x : Except ε (ParseResult π)} {state : ParseState}
    {readBytes : ℤ} (h : returned x = some (state, readBytes)) :
    ∃ r, x = .ok r ∧ r.parseState = state ∧ r.readBytes = readBytes := by
  rcases x with e | r
  · cases h
  · cases h
    exact ⟨r, rfl, rfl, rfl⟩

/-- Every parser but the MongoDB one reads in the head. -/
theorem parseStreamOf_read {parser : StreamParser} (hparser : parser ≠ .mongo)
    (hhead : sb.head = some head) {state : ParseState} {readBytes : ℤ}
    (h : parseStreamOf s sb messageType parser = some (state, readBytes))
    (hstate : state = .success ∨ state = .ignore) : 1 ≤ readBytes ∧ readBytes ≤ head.len := by
  rcases parser with _ | _ | _ | _ | _
  · obtain ⟨r, hr, rfl, rfl⟩ := returned_eq_some h
    exact Redis.parseStream_read hhead hr hstate
  · obtain ⟨r, hr, rfl, rfl⟩ := returned_eq_some h
    exact Mysql.parseStream_read hhead hr hstate
  · obtain ⟨r, hr, rfl, rfl⟩ := returned_eq_some h
    obtain ⟨⟨r', k'⟩, hparse, rfl⟩ := Trace.map_eq_ok hr
    exact Kafka.parseStream_read hhead hparse hstate
  · exact absurd rfl hparser
  · obtain ⟨r, hr, rfl, rfl⟩ := returned_eq_some h
    exact RocketMQ.parseStream_read hhead hr hstate

theorem findBoundaryOf_bounds {parser : StreamParser} {startPos : ℕ} {pos : ℤ}
    (hhead : sb.head = some head) (hstart : startPos ≤ head.len)
    (h : findBoundaryOf s sb messageType startPos parser = .ok pos) :
    BoundaryIn head.len startPos pos := by
  rcases parser with _ | _ | _ | _ | _
  · exact Redis.findBoundary_bounds hhead h
  · exact Mysql.findBoundary_bounds hhead h
  · exact Kafka.findBoundary_bounds hhead h
  · exact Mongo.findBoundary_bounds hhead (by exact_mod_cast hstart) h
  · exact RocketMQ.findBoundary_bounds hhead h

/-- A frame that wraps breaks the contract. -/
theorem ParserContract.not_wraps (h : ParserContract s sb head messageType)
    (hhead : sb.head = some head) : ¬ Mongo.Wraps head.buf messageType := by
  apply (@Mongo.parseStream_read_iff s.bson s.rounds s.mongo sb head messageType hhead).mp
  intro r m' hr hstate
  refine h.read .mongo r.parseState r.readBytes ?_ hstate
  change returned ((Mongo.parseStream s.bson s.rounds s.mongo sb messageType).map Prod.fst) = _
  rw [hr]
  rfl

/-- **The parsers keep their contract just when no skipped MongoDB frame wraps.** -/
theorem parserContract_iff (s : ParserSetting) (messageType : MessageType)
    (hhead : sb.head = some head) :
    ParserContract s sb head messageType ↔ ¬ Mongo.Wraps head.buf messageType := by
  constructor
  · intro hcontract
    exact hcontract.not_wraps hhead
  · intro hwraps
    refine ⟨?_, ?_, ?_⟩
    · intro parser state readBytes h hstate
      -- Only the MongoDB parser needs the condition.
      by_cases hmongo : parser = .mongo
      · subst hmongo
        obtain ⟨r, hr, rfl, rfl⟩ := returned_eq_some h
        obtain ⟨⟨r', m'⟩, hparse, rfl⟩ := Trace.map_eq_ok hr
        exact (Mongo.parseStream_read_iff hhead).mpr hwraps _ _ hparse hstate
      · exact parseStreamOf_read hmongo hhead h hstate
    · intro parser startPos pos _ hstart h
      exact findBoundaryOf_bounds hhead hstart h
    · intro startPos pos _ _ h
      exact Http.findBoundary_bounds hhead h

end

/-! ## The frame that wraps -/

/-- Parsers that have not seen anything yet, and decoders that accept nothing. -/
def freshSetting : ParserSetting :=
  { kafka := ⟨SortedMap.empty, []⟩, mongo := ⟨[]⟩, rocketMQ := ⟨SortedMap.empty⟩
    bson := fun _ => none, rounds := 0, jsonHeader := fun _ => none, spare := 0 }

/-- The contract holds on a head that is too short for a MongoDB frame. -/
theorem parserContract_iff_short :
    ParserContract freshSetting (bufferOf [43, 79, 75, 13, 10]) ⟨[43, 79, 75, 13, 10], 0⟩ .response :=
  (parserContract_iff freshSetting .response rfl).mpr fun h => absurd h.header (by decide)

/-- The header of a query that gives its length as `-2 ^ 31`, and what follows. -/
def negativeFrame (rest : List UInt8) : List UInt8 :=
  [0, 0, 0, 128, 0, 0, 0, 0, 0, 0, 0, 0, 212, 7, 0, 0] ++ rest

theorem lEndianBytesToInt_cons {d : BinaryDecoder} {b₀ b₁ b₂ b₃ : UInt8} {rest : List UInt8}
    (h : d.str = b₀ :: b₁ :: b₂ :: b₃ :: rest) :
    d.lEndianBytesToInt = intOf 32 (littleEndian [b₀, b₁, b₂, b₃]) := by
  unfold BinaryDecoder.lEndianBytesToInt
  rw [h, if_neg (by simp)]
  rfl

/-- Two gigabytes in all are enough for the length to wrap. -/
theorem negativeFrame_wraps {rest : List UInt8} (hrest : 16 + rest.length = 2 ^ 31) :
    Mongo.Wraps (negativeFrame rest) .request := by
  have hlength : (BinaryDecoder.new (negativeFrame rest)).lEndianBytesToInt = -2 ^ 31 :=
    (lEndianBytesToInt_cons rfl).trans (by decide)
  have hopCode : ((BinaryDecoder.new (negativeFrame rest)).taking 12).lEndianBytesToInt = 2004 :=
    (lEndianBytesToInt_cons rfl).trans (by decide)
  have hlen : (negativeFrame rest).length = 2 ^ 31 := by
    rw [← hrest, negativeFrame, List.length_append]
    rfl
  refine ⟨Or.inl rfl, ?_, ?_, ?_, ?_, ?_⟩
  · rw [hlen]
    norm_num
  · rw [hopCode]
    decide
  · rw [hlength]
    norm_num
  · rw [hlength]
    exact (Mongo.intOf_bounds _).1
  · rw [hlength, hlen]
    norm_num

/-- A query of `-2 ^ 31` bytes at the head of `2 ^ 31` is skipped by `-2 ^ 31` bytes. -/
theorem parserContract_broken :
    ¬ ∀ (s : ParserSetting) (sb : StreamBuffer) (head : Buffer) (messageType : MessageType),
      sb.head = some head → 0 < head.len → ParserContract s sb head messageType := by
  intro h
  have hwraps : Mongo.Wraps (negativeFrame (List.replicate (2 ^ 31 - 16) 0)) .request :=
    negativeFrame_wraps (by rw [List.length_replicate]; norm_num)
  refine (h freshSetting (bufferOf (negativeFrame (List.replicate (2 ^ 31 - 16) 0)))
    ⟨negativeFrame (List.replicate (2 ^ 31 - 16) 0), 0⟩ .request rfl ?_).not_wraps rfl hwraps
  have hheader := hwraps.header
  rw [Buffer.len]
  dsimp only
  omega

end Kyanos
