/-
`agent/protocol/mysql/utils.go` and `types.go`, and the packet decoders of `handler.go`: what
a MySQL packet is, and the values in it.

The functions of the source that move an offset through a message take the offset and return
the new one; where they also report success, the flag is the last component. Some of them
move the offset before they fail, and that is kept. An index or a slice out of range panics,
as it does there.

`LEndianBytesToFloat` reads the header of a slice as a number, so what it returns depends on
where the slice lies in memory. The text of a floating point parameter is a parameter here.
-/
import Kyanos.Decoder

set_option autoImplicit false

open Trace

namespace Kyanos.Mysql

/-! ## Commands -/

def kMaxPacketLength : ℤ := 2 ^ 24 - 1

/-- `command`, the byte it is written as. -/
abbrev Command := ℤ

def kSleep : Command := 0x00
def kQuit : Command := 0x01
def kInitDB : Command := 0x02
def kQuery : Command := 0x03
def kFieldList : Command := 0x04
def kCreateDB : Command := 0x05
def kDropDB : Command := 0x06
def kRefresh : Command := 0x07
def kShutdown : Command := 0x08
def kStatistics : Command := 0x09
def kProcessInfo : Command := 0x0a
def kConnect : Command := 0x0b
def kProcessKill : Command := 0x0c
def kDebug : Command := 0x0d
def kPing : Command := 0x0e
def kTime : Command := 0x0f
def kDelayedInsert : Command := 0x10
def kChangeUser : Command := 0x11
def kBinlogDump : Command := 0x12
def kTableDump : Command := 0x13
def kConnectOut : Command := 0x14
def kRegisterSlave : Command := 0x15
def kStmtPrepare : Command := 0x16
def kStmtExecute : Command := 0x17
def kStmtSendLongData : Command := 0x18
def kStmtClose : Command := 0x19
def kStmtReset : Command := 0x1a
def kSetOption : Command := 0x1b
def kStmtFetch : Command := 0x1c
def kDaemon : Command := 0x1d
def kBinlogDumpGTID : Command := 0x1e
def kResetConnection : Command := 0x1f

def parseCommand (b : UInt8) : Command × Bool :=
  if (b.toNat : ℤ) ≥ kSleep ∧ (b.toNat : ℤ) ≤ kResetConnection then (b.toNat, true) else (-1, false)

/-- `InitCommandLengthRangs`: the payload lengths a command allows, by its number. -/
def commandLengthTable : List (ℤ × ℤ) :=
  [(1, 1), (1, 1), (1, kMaxPacketLength), (1, kMaxPacketLength), (2, kMaxPacketLength),
    (1, kMaxPacketLength), (1, kMaxPacketLength), (2, 2), (1, 2), (1, 1), (1, 1), (1, 1), (1, 5),
    (1, 1), (1, 1), (1, 1), (1, 1), (4, kMaxPacketLength), (11, kMaxPacketLength),
    (3, kMaxPacketLength), (1, 1), (18, kMaxPacketLength), (1, kMaxPacketLength),
    (10, kMaxPacketLength), (7, kMaxPacketLength), (5, 5), (5, 5), (3, 3), (9, 9), (1, 1), (19, 19),
    (1, 1)]

/-- `commandLengthRanges`; what is not in the map reads as zeros. -/
def commandLengthRanges (command : Command) : ℤ × ℤ :=
  if command < 0 then (0, 0) else commandLengthTable.getD command.toNat (0, 0)

/-! ## Column types -/

abbrev ColType := ℤ

def kDecimal : ColType := 0x00
def kTiny : ColType := 0x01
def kShort : ColType := 0x02
def kLong : ColType := 0x03
def kFloat : ColType := 0x04
def kDouble : ColType := 0x05
def kNull : ColType := 0x06
def kTimestamp : ColType := 0x07
def kLongLong : ColType := 0x08
def kInt24 : ColType := 0x09
def kDate : ColType := 0x0a
def kTimeColType : ColType := 0x0b
def kDateTime : ColType := 0x0c
def kYear : ColType := 0x0d
def kVarChar : ColType := 0x0f
def kBit : ColType := 0x10
def kNewDecimal : ColType := 0xf6
def kEnum : ColType := 0xf7
def kSet : ColType := 0xf8
def kTinyBlob : ColType := 0xf9
def kMediumBlob : ColType := 0xfa
def kLongBlob : ColType := 0xfb
def kBlob : ColType := 0xfc
def kVarString : ColType := 0xfd
def kString : ColType := 0xfe
def kGeometry : ColType := 0xff

/-- The types whose values are length-encoded strings. -/
def stringTypes : List ColType :=
  [kString, kVarChar, kVarString, kEnum, kSet, kLongBlob, kMediumBlob, kBlob, kTinyBlob, kGeometry,
    kBit, kDecimal, kNewDecimal]

structure ColDefinition where
  catalog : GoString
  schema : GoString
  table : GoString
  orgTable : GoString
  name : GoString
  orgName : GoString
  nextLength : ℤ
  characterSet : ℤ
  columnLength : ℤ
  columnType : ColType
  flags : ℤ
  decimals : ℤ
deriving DecidableEq

/-! ## Values in a message -/

/-- `processLengthEncodedInt`: the number, the new offset and whether there was one. -/
def processLengthEncodedInt (s : GoString) (offset : ℤ) : Except Panic (ℤ × ℤ × Bool) :=
  if s.length = 0 then .ok (-1, offset, false)
  else do
    let s ← slice s offset s.length
    -- A number of `n` bytes behind its mark.
    let wide : GoString → ℕ → ℤ × ℤ × Bool := fun s n =>
      if s.length < n then (-1, offset, false)
      else ((lEndianBytesToKInt 64 s n).1, offset + 1 + n, true)
    match s with
    | [] => .ok (-1, offset, false)
    | b :: rest =>
        -- The mark of a null value, read as a zero.
        if b = 0xfb then .ok (0, offset + 1, true)
        else if b = 0xfc then .ok (wide rest 2)
        else if b = 0xfd then .ok (wide rest 3)
        else if b = 0xfe then .ok (wide rest 8)
        else .ok (b.toNat, offset + 1, true)

/-- `DissectStringParam`. A string of length zero reads as `NULL`. -/
def dissectStringParam (s : GoString) (offset : ℤ) : Except Panic (GoString × ℤ × Bool) := do
  let (paramLength, offset, ok) ← processLengthEncodedInt s offset
  -- A length of eight bytes can make the sum wrap to a number below zero.
  if !ok || (s.length : ℤ) < intOf 64 (offset + paramLength) then .ok ([], offset, false)
  else if paramLength = 0 then .ok (text "NULL", offset, true)
  else
    let param ← slice s offset (intOf 64 (offset + paramLength))
    .ok (param, intOf 64 (offset + paramLength), true)

/-- `DissectInt` of a type of `w` bits. -/
def dissectInt (w : ℕ) (msg : GoString) (offset : ℤ) (length : ℕ) : Except Panic (ℤ × ℤ × Bool) :=
  if (msg.length : ℤ) < offset + length then .ok (0, offset, false)
  else do
    let rest ← slice msg offset msg.length
    .ok ((lEndianBytesToKInt w rest length).1, offset + length, true)

/-- `DissectIntParam`, which succeeds even if the number is not there. -/
def dissectIntParam (s : GoString) (offset : ℤ) (nbytes : ℕ) : Except Panic (GoString × ℤ) := do
  let (p, offset, _) ← dissectInt 64 s offset nbytes
  .ok (text (toString p), offset)

/-- `DissectFloatParam` of a type of `length` bytes. -/
def dissectFloatParam (floatText : GoString → GoString) (msg : GoString) (offset : ℤ)
    (length : ℕ) : Except Panic (GoString × ℤ × Bool) :=
  if (msg.length : ℤ) < offset + length then .ok ([], offset, false)
  else do
    let bytes ← slice msg offset (offset + length)
    .ok (floatText bytes, offset + length, true)

def dissectDateTimeParam (msg : GoString) (offset : ℤ) : Except Panic (GoString × ℤ × Bool) :=
  if (msg.length : ℤ) < offset + 1 then .ok ([], offset, false)
  else do
    let length ← byteAt msg offset
    let offset := offset + 1
    if (msg.length : ℤ) < offset + length.toNat then .ok ([], offset, false)
    else .ok (text "MySQL DateTime rendering not implemented yet", offset + length.toNat, true)

/-! ## Kinds of packets -/

def kRespHeaderEOF : UInt8 := 0xfe
def kRespHeaderErr : UInt8 := 0xff
def kRespHeaderOK : UInt8 := 0x00

def isErrPacket (packet : MysqlPacket) : Except Panic Bool := do
  let header ← byteAt packet.msg 0
  .ok (header == kRespHeaderErr && packet.msg.length > 3)

def isEOFPacket (packet : MysqlPacket) (protocol41 : Bool) : Except Panic Bool := do
  let expectedSize := if protocol41 then 5 else 1
  let header ← byteAt packet.msg 0
  .ok (header == kRespHeaderEOF && packet.msg.length == expectedSize)

def isEOFPacketAll (packet : MysqlPacket) : Except Panic Bool := do
  let long ← isEOFPacket packet true
  let short ← isEOFPacket packet false
  .ok (long || short)

def isOkPacket (packet : MysqlPacket) : Except Panic Bool := do
  let header ← byteAt packet.msg 0
  -- The affected rows and the last insert id.
  let (_, offset, ok) ← processLengthEncodedInt packet.msg 1
  if !ok then .ok false
  else
    let (_, offset, ok) ← processLengthEncodedInt packet.msg offset
    if !ok then .ok false
    else
      -- The status flag and the number of warnings.
      let (_, offset, ok) ← dissectInt 16 packet.msg offset 2
      if !ok then .ok false
      else
        let (_, _, ok) ← dissectInt 16 packet.msg offset 2
        if !ok then .ok false
        else if header == kRespHeaderOK && packet.msg.length ≥ 7 then .ok true
        else
          let eof ← isEOFPacketAll packet
          .ok (header == kRespHeaderEOF && packet.msg.length < 9 && !eof)

def isStmtPrepareOKPacket (packet : MysqlPacket) : Bool :=
  packet.msg.length == 12 && packet.msg[0]? == some 0 && packet.msg[9]? == some 0

def moreResultsExist (packet : MysqlPacket) : Except Panic Bool := do
  let ok ← isOkPacket packet
  if ok then
    let (_, pos, ok1) ← processLengthEncodedInt packet.msg 1
    let (_, pos, ok2) ← processLengthEncodedInt packet.msg pos
    if !ok1 || !ok2 then .ok false
    else
      let flags ← byteAt packet.msg pos
      .ok (flags &&& 8 != 0)
  else
    let eof ← isEOFPacket packet true
    if eof then
      let flags ← byteAt packet.msg 3
      .ok (flags &&& 8 != 0)
    else .ok false

/-! ## Packets of a resultset -/

/-- `ProcessColumnDefPacket`; `none` is the result with `false`. -/
def processColumnDefPacket (packet : MysqlPacket) : Except Panic (Option ColDefinition) := do
  let msg := packet.msg
  let (catalog, offset, ok) ← dissectStringParam msg 0
  if !ok || catalog ≠ text "def" then .ok none
  else
    let (schema, offset, ok) ← dissectStringParam msg offset
    if !ok then .ok none
    else
      let (table, offset, ok) ← dissectStringParam msg offset
      if !ok then .ok none
      else
        let (orgTable, offset, ok) ← dissectStringParam msg offset
        if !ok then .ok none
        else
          let (name, offset, ok) ← dissectStringParam msg offset
          if !ok then .ok none
          else
            let (orgName, offset, ok) ← dissectStringParam msg offset
            if !ok then .ok none
            else
              -- Whether the length was there is not checked, only its value.
              let (result, offset, _) ← processLengthEncodedInt msg offset
              let nextLength := intOf 8 result
              if nextLength ≠ 12 then .ok none
              else
                let (characterSet, offset, ok) ← dissectInt 16 msg offset 2
                if !ok then .ok none
                else
                  let (columnLength, offset, ok) ← dissectInt 32 msg offset 4
                  if !ok then .ok none
                  else
                    let (columnType, offset, ok) ← dissectInt 8 msg offset 1
                    if !ok then .ok none
                    else
                      let (flags, offset, ok) ← dissectInt 16 msg offset 2
                      if !ok then .ok none
                      else
                        let (decimals, _, ok) ← dissectInt 8 msg offset 1
                        if !ok then .ok none
                        else .ok (some ⟨catalog, schema, table, orgTable, name, orgName, nextLength,
                          characterSet, columnLength, columnType, flags, decimals⟩)

/-- The loop of `ProcessTextResultsetRowPacket` over the columns that are left. -/
def textRowLoop (msg : GoString) : ℕ → ℤ → Except Panic (Option ℤ)
  | 0, offset => .ok (some offset)
  | numCol + 1, offset => do
      let (_, offset, ok) ← dissectStringParam msg offset
      if !ok then .ok none else textRowLoop msg numCol offset

def processTextResultsetRowPacket (packet : MysqlPacket) (numCol : ℕ) : Except Panic Bool :=
  -- A row of one null value.
  if packet.msg = [0xfb] then .ok true
  else do
    match ← textRowLoop packet.msg numCol 0 with
    | none => .ok false
    | some offset => .ok (!(offset < (packet.msg.length : ℤ)))

/-- The value of a column in a binary row; `none` is a value that could not be read. -/
def dissectBinaryColumn (floatText : GoString → GoString) (columnType : ColType) (msg : GoString)
    (offset : ℤ) : Except Panic (Option ℤ) := do
  if columnType ∈ stringTypes then
    let (_, offset, ok) ← dissectStringParam msg offset
    .ok (if ok then some offset else none)
  else if columnType = kLongLong then
    let (_, offset) ← dissectIntParam msg offset 8
    .ok (some offset)
  else if columnType = kLong ∨ columnType = kInt24 then
    let (_, offset) ← dissectIntParam msg offset 4
    .ok (some offset)
  else if columnType = kShort ∨ columnType = kYear then
    let (_, offset) ← dissectIntParam msg offset 2
    .ok (some offset)
  else if columnType = kTiny then
    let (_, offset) ← dissectIntParam msg offset 1
    .ok (some offset)
  else if columnType = kDouble then
    let (_, offset, ok) ← dissectFloatParam floatText msg offset 8
    .ok (if ok then some offset else none)
  else if columnType = kFloat then
    let (_, offset, ok) ← dissectFloatParam floatText msg offset 4
    .ok (if ok then some offset else none)
  else if columnType = kDate ∨ columnType = kDateTime ∨ columnType = kTimestamp
      ∨ columnType = kTimeColType then
    let (_, offset, ok) ← dissectDateTimeParam msg offset
    .ok (if ok then some offset else none)
  else .ok (some offset)

/-- The loop of `ProcessBinaryResultsetRowPacket` from column `i` on. Every column is read by
the type of the first one. -/
def binaryRowLoop (floatText : GoString → GoString) (columnDefs : List ColDefinition)
    (nullBitmap msg : GoString) : ℕ → ℕ → ℤ → Except Panic (Option ℤ)
  | 0, _, offset => .ok (some offset)
  | left + 1, i, offset => do
      let byte ← byteAt nullBitmap ((i + 2) / 8 : ℕ)
      -- A column whose bit is set is null, and takes no bytes.
      if (byte >>> (UInt8.ofNat ((i + 2) % 8))) &&& 1 = 1 then
        binaryRowLoop floatText columnDefs nullBitmap msg left (i + 1) offset
      else
        match columnDefs.head? with
        | none => .error .indexOutOfRange
        | some first =>
            match ← dissectBinaryColumn floatText first.columnType msg offset with
            | none => .ok none
            | some offset => binaryRowLoop floatText columnDefs nullBitmap msg left (i + 1) offset

def processBinaryResultsetRowPacket (floatText : GoString → GoString) (packet : MysqlPacket)
    (columnDefs : List ColDefinition) : Except Panic Bool := do
  let header ← byteAt packet.msg 0
  if header ≠ 0 then .ok false
  else
    let nullBitmapLen : ℤ := (columnDefs.length + 7 + 2) / 8
    let nullBitmap ← slice packet.msg 1 (1 + nullBitmapLen)
    match ← binaryRowLoop floatText columnDefs nullBitmap packet.msg columnDefs.length 0
        (1 + nullBitmapLen) with
    | none => .ok false
    | some offset => .ok (offset == packet.msg.length)

/-! ## Reading within a message -/

section Reading

variable {s : GoString} {offset : ℤ} {packet : MysqlPacket}

/-- From an offset in the message a number is read, or not, and the offset stays in it. -/
theorem processLengthEncodedInt_returns (hlo : 0 ≤ offset) (hhi : offset ≤ s.length) :
    ∃ v offset' ok, processLengthEncodedInt s offset = .ok (v, offset', ok)
      ∧ offset ≤ offset' ∧ offset' ≤ s.length := by
  unfold processLengthEncodedInt
  by_cases hempty : s.length = 0
  · exact ⟨-1, offset, false, if_pos hempty, le_rfl, hhi⟩
  rw [if_neg hempty, slice_rest hlo hhi, ok_bind]
  have hlen : (s.drop offset.toNat).length = s.length - offset.toNat := List.length_drop
  rcases hrest : s.drop offset.toNat with _ | ⟨b, rest⟩
  · exact ⟨-1, offset, false, rfl, le_rfl, hhi⟩
  rw [hrest, List.length_cons] at hlen
  dsimp only
  split_ifs
  all_goals exact ⟨_, _, _, rfl, by omega, by omega⟩

theorem dissectInt_returns {w length : ℕ} (hlo : 0 ≤ offset) (hhi : offset ≤ s.length) :
    ∃ v offset' ok, dissectInt w s offset length = .ok (v, offset', ok)
      ∧ offset ≤ offset' ∧ offset' ≤ s.length ∧ (ok = true → offset' = offset + length) := by
  unfold dissectInt
  split_ifs with hshort
  · exact ⟨0, offset, false, rfl, le_rfl, hhi, by simp⟩
  · rw [slice_rest hlo hhi, ok_bind]
    exact ⟨_, _, _, rfl, by omega, by omega, fun _ => rfl⟩

theorem isErrPacket_cons {b : UInt8} {rest : GoString} (h : packet.msg = b :: rest) :
    isErrPacket packet = .ok (b == kRespHeaderErr && packet.msg.length > 3) := by
  unfold isErrPacket
  rw [h]
  rfl

theorem isEOFPacket_cons {b : UInt8} {rest : GoString} (protocol41 : Bool)
    (h : packet.msg = b :: rest) : isEOFPacket packet protocol41
      = .ok (b == kRespHeaderEOF && packet.msg.length == if protocol41 then 5 else 1) := by
  unfold isEOFPacket
  rw [h]
  rfl

theorem isEOFPacketAll_cons {b : UInt8} {rest : GoString} (h : packet.msg = b :: rest) :
    isEOFPacketAll packet = .ok (b == kRespHeaderEOF
      && (packet.msg.length == 5 || packet.msg.length == 1)) := by
  unfold isEOFPacketAll
  rw [isEOFPacket_cons true h, isEOFPacket_cons false h, ok_bind, ok_bind]
  rcases b == kRespHeaderEOF with _ | _ <;> rfl

/-- Of a packet that is not empty it is known whether it is an OK packet; one that is begins with
the byte of OK, or with that of end-of-file and has no length of such a packet. -/
theorem isOkPacket_cons {b : UInt8} {rest : GoString} (h : packet.msg = b :: rest) :
    ∃ ok, isOkPacket packet = .ok ok
      ∧ (ok = true → b = kRespHeaderOK ∨ b = kRespHeaderEOF ∧ packet.msg.length ≠ 5) := by
  have hbyte : byteAt packet.msg 0 = .ok b := by
    rw [h]
    rfl
  have hone : (1 : ℤ) ≤ packet.msg.length := by
    rw [h, List.length_cons]
    omega
  unfold isOkPacket
  rw [hbyte, ok_bind]
  obtain ⟨_, offset₁, ok₁, hread₁, hlo₁, hhi₁⟩ :=
    processLengthEncodedInt_returns (by decide : (0 : ℤ) ≤ 1) hone
  rw [hread₁, ok_bind]
  dsimp only
  rcases ok₁ with _ | _
  · exact ⟨false, rfl, by simp⟩
  obtain ⟨_, offset₂, ok₂, hread₂, hlo₂, hhi₂⟩ :=
    processLengthEncodedInt_returns (by omega : 0 ≤ offset₁) hhi₁
  rw [if_neg (by simp), hread₂, ok_bind]
  dsimp only
  rcases ok₂ with _ | _
  · exact ⟨false, rfl, by simp⟩
  obtain ⟨_, offset₃, ok₃, hread₃, hlo₃, hhi₃, -⟩ :=
    @dissectInt_returns packet.msg offset₂ 16 2 (by omega) hhi₂
  rw [if_neg (by simp), hread₃, ok_bind]
  dsimp only
  rcases ok₃ with _ | _
  · exact ⟨false, rfl, by simp⟩
  obtain ⟨_, offset₄, ok₄, hread₄, -⟩ :=
    @dissectInt_returns packet.msg offset₃ 16 2 (by omega) hhi₃
  rw [if_neg (by simp), hread₄, ok_bind]
  dsimp only
  rcases ok₄ with _ | _
  · exact ⟨false, rfl, by simp⟩
  rw [if_neg (by simp)]
  split_ifs with hok
  · refine ⟨true, rfl, fun _ => Or.inl ?_⟩
    simp only [Bool.and_eq_true, beq_iff_eq] at hok
    exact hok.1
  · rw [isEOFPacketAll_cons h, ok_bind]
    refine ⟨_, rfl, fun heof => Or.inr ?_⟩
    simp only [Bool.and_eq_true, beq_iff_eq] at heof
    refine ⟨heof.1.1, ?_⟩
    intro hfive
    rw [heof.1.1, hfive] at heof
    exact absurd heof.2 (by decide)

end Reading

end Kyanos.Mysql
