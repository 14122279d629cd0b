/-
`agent/protocol/kafka/decoder`: what the Kafka parser makes of the bytes of a packet.

A `PacketDecoder` reads numbers, strings and arrays off a `BinaryDecoder`. From the flexible
version of an API on, lengths are varints and every structure ends in a section of tagged
fields. A message set is read batch by batch and record by record, each behind its length: the
end is marked before, and jumped to once what is wanted has been read.

Go's `err` does not undo what was read before it, and two functions go on after one. So a
decoding function here is a reader whose failures keep the state.
-/
import Kyanos.ByteReader
import Kyanos.Decoder

set_option autoImplicit false

open GoNum ByteReader

namespace Kyanos.Kafka

/-- The errors of the decoders: those of the `BinaryDecoder`, and those that are made with a
text of their own. -/
inductive ExtractError
  | decode (e : DecodeError)
  | new (msg : GoString)
deriving DecidableEq

/-- `PacketDecoder`. The marks are kept with the last one first; `SubBuf` of the binary decoder
is what its string has left behind a length, as the string is always the end of the buffer. -/
structure PacketDecoder where
  markedBufs : List GoString
  binaryDecoder : BinaryDecoder
  apiKey : ℤ
  apiVersion : ℤ
  isFlexible : Bool
deriving DecidableEq

abbrev Extract (α : Type) := Reader PacketDecoder ExtractError Panic α

/-! ## Versions -/

def kProduce : ℤ := 0
def kFetch : ℤ := 1
def kMetadata : ℤ := 3
def kJoinGroup : ℤ := 11
def kSyncGroup : ℤ := 14

/-- `FlexibleVersion` in `APIVersionMap`, for the keys from `KProduce` on. -/
def flexibleVersions : List ℤ :=
  [9, 12, 6, 9, 4, 2, 6, 3, 8, 6, 3, 6, 4, 4, 4, 5, 3, -1, 3, 5, 4, 2, 2, 4, 3, 3, 3, 1, 3, 2, 2,
    2, 4, 2, 2, 2, 2, 2, 2, 2, 2, 2, 5, 2, 1, 0, 0, -1, 1, 1, 0, 0]

def flexibleVersion (apiKey : ℤ) : Option ℤ :=
  if apiKey < 0 then none
  else if [56, 57, 60, 61].contains apiKey then some 0
  else flexibleVersions[apiKey.toNat]?

def isFlexible (apiKey apiVersion : ℤ) : Bool :=
  match flexibleVersion apiKey with
  | none => false
  | some version => if version < 0 then false else version ≤ apiVersion

def PacketDecoder.new (buf : GoString) : PacketDecoder :=
  { markedBufs := [], binaryDecoder := BinaryDecoder.new buf, apiKey := 0, apiVersion := 0
    isFlexible := false }

def PacketDecoder.setAPIInfo (pd : PacketDecoder) (apiKey apiVersion : ℤ) : PacketDecoder :=
  { pd with
    apiKey := apiKey, apiVersion := apiVersion
    isFlexible := Kafka.isFlexible apiKey apiVersion }

/-- `errors.New`. -/
def failNew {α : Type} (msg : String) : Extract α := fail (.new (text msg))

def apiVersion : Extract ℤ := look PacketDecoder.apiVersion

def flexible : Extract Bool := look PacketDecoder.isFlexible

/-! ## Numbers -/

/-- A function of the binary decoder that does not panic. -/
def ofBinary {α : Type} (f : BinaryDecoder → Except DecodeError (α × BinaryDecoder)) :
    Extract α := fun pd =>
  match f pd.binaryDecoder with
  | .error e => .failed (.decode e) pd
  | .ok (a, d) => .done a { pd with binaryDecoder := d }

def extractByte : Extract UInt8 := ofBinary BinaryDecoder.extractByte

/-- `ExtractBEInt` of a signed type of `n` bytes. -/
def extractInt (n : ℕ) : Extract ℤ := ofBinary (fun d => d.extractBEInt n)

def extractInt8 : Extract ℤ := extractInt 1
def extractInt16 : Extract ℤ := extractInt 2
def extractInt32 : Extract ℤ := extractInt 4
def extractInt64 : Extract ℤ := extractInt 8

def extractBool : Extract Bool := do
  let val ← extractInt8
  pure (val ≠ 0)

def extractBytesCore (len : ℤ) : Extract GoString := fun pd =>
  match pd.binaryDecoder.extractString len with
  | .error (.panic p) => .fault p
  | .error (.err e) => .failed (.decode e) pd
  | .ok (str, d) => .done str { pd with binaryDecoder := d }

def kFirstBitMask : ℕ := 0x80
def kLastSevenBitMask : ℕ := 0x7f
def kByteLength : ℕ := 7

/-- The loop of `ExtractUnsignedVarintCore` from bit `i` on; the value is the bits of an
`int64`. -/
def varintLoop : ℕ → ℕ → ℕ → Extract ℕ
  | 0, _, _ => failNew "extract varint core failure"
  | n + 1, i, value => do
      let b ← extractByte
      if b.toNat &&& kFirstBitMask = 0 then pure (value ||| u64 (b.toNat <<< i))
      else varintLoop n (i + kByteLength) (value ||| u64 ((b.toNat &&& kLastSevenBitMask) <<< i))

def extractUnsignedVarintCore (maxLength : ℕ) : Extract ℕ :=
  varintLoop ((maxLength + kByteLength - 1) / kByteLength) 0 0

/-- `int64(uint64(value)>>1) ^ -(value & 1)`. -/
def zigzag (value : ℕ) : ℤ :=
  toInt64 ((value >>> 1) ^^^ (if value &&& 1 = 1 then 2 ^ 64 - 1 else 0))

def extractVarintCore (maxLength : ℕ) : Extract ℤ := do
  let value ← extractUnsignedVarintCore maxLength
  pure (zigzag value)

def kVarintMaxLength : ℕ := 35
def kVarlongMaxLength : ℕ := 70

def extractUnsignedVarint : Extract ℤ := do
  let val ← extractUnsignedVarintCore kVarintMaxLength
  pure (intOf 32 (toInt64 val))

def extractVarint : Extract ℤ := do
  let val ← extractVarintCore kVarintMaxLength
  pure (intOf 32 val)

def extractVarlong : Extract ℤ := extractVarintCore kVarlongMaxLength

/-! ## Strings -/

def extractRegularString : Extract GoString := do
  let len ← extractInt16
  extractBytesCore len

def extractRegularNullableString : Extract GoString := do
  let len ← extractInt16
  if len = -1 then pure [] else extractBytesCore len

/-- The length `N + 1` is encoded. -/
def extractCompact (msg : String) : Extract GoString := do
  let len ← extractUnsignedVarint
  let len := intOf 32 (len - 1)
  if len < 0 then failNew msg else extractBytesCore len

def extractCompactNullable (msg : String) : Extract GoString := do
  let len ← extractUnsignedVarint
  let len := intOf 32 (len - 1)
  if len < -1 then failNew msg else if len = -1 then pure [] else extractBytesCore len

def extractCompactString : Extract GoString :=
  extractCompact "Compact String has negative length."

def extractCompactNullableString : Extract GoString :=
  extractCompactNullable "Compact String has negative length."

def extractString : Extract GoString := do
  if ← flexible then extractCompactString else extractRegularString

def extractNullableString : Extract GoString := do
  if ← flexible then extractCompactNullableString else extractRegularNullableString

/-- `ExtractRegularBytes`; its length has 16 bits, like that of a string. -/
def extractRegularBytes : Extract GoString := do
  let len ← extractInt16
  extractBytesCore len

def extractCompactBytes : Extract GoString :=
  extractCompact "Compact Bytes has negative length."

def extractBytes : Extract GoString := do
  if ← flexible then extractCompactBytes else extractRegularBytes

def extractBytesZigZag : Extract GoString := do
  let len ← extractVarint
  if len < -1 then failNew "Not enough bytes in ExtractBytesZigZag."
  else if len = 0 ∨ len = -1 then pure [] else extractBytesCore len

/-! ## Tagged fields, headers and arrays -/

/-- `ExtractTaggedField`, which looks at the error of the length alone. -/
def extractTaggedField : Extract Unit := do
  let _ ← attempt extractUnsignedVarint
  let len ← extractUnsignedVarint
  let _ ← attempt (extractBytesCore len)
  pure ()

def extractTagSection : Extract Unit := do
  if ← flexible then
    let numFields ← extractUnsignedVarint
    let _ ← readN extractTaggedField numFields.toNat
    pure ()
  else pure ()

def setAPIInfo (apiKey apiVersion : ℤ) : Extract Unit :=
  fun pd => .done () (pd.setAPIInfo apiKey apiVersion)

/-- `ExtractReqHeader`: the API key, its version and the client id. -/
def extractReqHeader : Extract (ℤ × ℤ × GoString) := do
  let apiKey ← extractInt16
  let apiVersion ← extractInt16
  setAPIInfo apiKey apiVersion
  let _ ← extractInt32
  let clientId ← extractRegularNullableString
  extractTagSection
  pure (apiKey, apiVersion, clientId)

def extractRespHeader : Extract Unit := do
  let _ ← extractInt32
  extractTagSection

def kNullArray : ℤ := -1

def extractRegularArray {α : Type} (extractFunc : Extract α) : Extract (List α) := do
  let len ← extractInt32
  if len < kNullArray then failNew "length of array cannot be negative"
  else if len = kNullArray then pure []
  else readN extractFunc len.toNat

def extractCompactArray {α : Type} (extractFunc : Extract α) : Extract (List α) := do
  let len ← extractUnsignedVarint
  if len < 0 then failNew "length of array cannot be negative"
  else if len = 0 then pure []
  else readN extractFunc (len - 1).toNat

def extractArray {α : Type} (extractFunc : Extract α) : Extract (List α) := do
  if ← flexible then extractCompactArray extractFunc else extractRegularArray extractFunc

/-! ## Marks -/

def markOffset (len : ℤ) : Extract Unit := fun pd =>
  if len < 0 then .failed (.new (text "length cannot be negative")) pd
  else if len > pd.binaryDecoder.str.length then
    .failed (.new (text "not enough bytes in MarkOffset")) pd
  else
    .done () { pd with markedBufs := pd.binaryDecoder.str.drop len.toNat :: pd.markedBufs }

def jumpToOffset : Extract Unit := fun pd =>
  match pd.markedBufs with
  | [] => .failed (.new (text "no marked buffer to jump to")) pd
  | buf :: markedBufs =>
      .done () { pd with
        binaryDecoder := { pd.binaryDecoder with str := buf }, markedBufs := markedBufs }

/-! ## Message sets -/

structure RecordMessage where
  key : GoString
  value : GoString
deriving DecidableEq

structure RecordBatch where
  records : List RecordMessage
deriving DecidableEq

structure MessageSet where
  size : ℤ
  recordBatches : List RecordBatch
deriving DecidableEq

def extractRecordMessage : Extract RecordMessage := do
  let length ← extractVarint
  markOffset length
  let _ ← extractInt8
  let _ ← extractVarlong
  let _ ← extractVarint
  let key ← extractBytesZigZag
  let value ← extractBytesZigZag
  jumpToOffset
  pure { key := key, value := value }

def kBaseOffsetLength : ℤ := 8
def kLengthLength : ℤ := 4

/-- `ExtractRecordBatch`, and the offset behind the batch. -/
def extractRecordBatch (offset : ℤ) : Extract (RecordBatch × ℤ) := do
  let _ ← extractInt64
  let length ← extractInt32
  markOffset length
  let _ ← extractInt32
  let magic ← extractInt8
  if magic < 2 then failNew "old record batch (message set) format not supported"
  else if magic > 2 then failNew "unknown magic in ExtractRecordBatch"
  else
    let _ ← extractInt32
    let _ ← extractInt16
    let _ ← extractInt32
    let _ ← extractInt64
    let _ ← extractInt64
    let _ ← extractInt64
    let _ ← extractInt16
    let _ ← extractInt32
    let records ← extractRegularArray extractRecordMessage
    jumpToOffset
    pure ({ records := records },
      intOf 32 (offset + intOf 32 (length + kBaseOffsetLength + kLengthLength)))

/-- The loop of `ExtractMessageSet`, and whether it got to the size: a batch that cannot be
read ends it with a jump. Every batch is longer than nothing, so a bound above the number of
bytes is one the loop does not notice. -/
def extractRecordBatches (size : ℤ) : ℕ → ℤ → Extract (List RecordBatch × Bool)
  | 0, _ => pure ([], true)
  | n + 1, offset =>
      if offset < size then do
        match ← attempt (extractRecordBatch offset) with
        | .error _ =>
            jumpToOffset
            pure ([], false)
        | .ok (recordBatch, offset) =>
            let (recordBatches, whole) ← extractRecordBatches size n offset
            pure (recordBatch :: recordBatches, whole)
      else pure ([], true)

/-- The size of a message set. -/
def extractSetSize : Extract ℤ := do
  if ← flexible then extractUnsignedVarint else extractInt32

def extractMessageSet : Extract MessageSet := do
  let size ← extractSetSize
  markOffset size
  let remaining ← look (fun pd => pd.binaryDecoder.str.length)
  let (recordBatches, whole) ← extractRecordBatches size (remaining + 1) 0
  if whole then
    -- Outside the flexible versions the section is empty.
    extractTagSection
    jumpToOffset
    pure { size := size, recordBatches := recordBatches }
  else pure { size := size, recordBatches := recordBatches }

end Kyanos.Kafka
