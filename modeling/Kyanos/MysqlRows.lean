/-
The rows of a binary resultset, as the protocol has them and as `ProcessBinaryResultsetRowPacket`
reads them.

A row is a header, a null bitmap and the values of the columns that are not null. The values of a
type are a language over the bytes, so behind the bitmap stands a word of a product of languages,
one for each column that is present.

The handler reads each value by the type of the first column, and that through a signed byte. What
it accepts is therefore a word of a power: as many values as there are columns present, all of one
language. That language is not the one of the type either, where the type is a number, which may be
missing, or a string, which may be the mark of a null value or, for a type from `0x80` on, nothing.
-/
import Mathlib.Computability.Language
import Kyanos.MysqlReadable
import Kyanos.MysqlParams

set_option autoImplicit false

open Trace

namespace Kyanos.Mysql

/-! ## Rows of the protocol -/

/-- How the values of a type are written. -/
inductive Layout
  | fixed (width : ℕ)
  | string
  | time
deriving DecidableEq

/-- The values of a layout. A date or a time has the number of its bytes in front. -/
def Layout.values : Layout → Language UInt8
  | .fixed width => {bytes | bytes.length = width}
  | .string => {bytes | ∃ str, bytes = lenencString str}
  | .time => {bytes | ∃ payload : GoString,
      payload.length < 256 ∧ bytes = UInt8.ofNat payload.length :: payload}

inductive Reading
  | string
  | number (width : ℕ)
  | float (width : ℕ)
  | time
  | nothing
deriving DecidableEq

def readingOf (columnType : ColType) : Reading :=
  if columnType ∈ stringTypes then .string
  else if columnType = kLongLong then .number 8
  else if columnType = kLong ∨ columnType = kInt24 then .number 4
  else if columnType = kShort ∨ columnType = kYear then .number 2
  else if columnType = kTiny then .number 1
  else if columnType = kDouble then .float 8
  else if columnType = kFloat then .float 4
  else if columnType = kDate ∨ columnType = kDateTime ∨ columnType = kTimestamp
      ∨ columnType = kTimeColType then .time
  else .nothing

/-- What `processLengthEncodedInt` takes for a number: the mark of a null value too, for a zero,
and the byte `0xff`. -/
inductive MarksLength : GoString → ℕ → Prop
  | null : MarksLength [0xfb] 0
  | small (b : UInt8) (hb : b ∉ [0xfb, 0xfc, 0xfd, 0xfe]) : MarksLength [b] b.toNat
  | wide (b : UInt8) (field : GoString)
      (hb : (b, field.length) ∈ [((0xfc : UInt8), 2), (0xfd, 3), (0xfe, 8)]) :
      MarksLength (b :: field) (littleEndian field)

/-- What is taken for a value. A number may be missing. -/
def Reading.taken : Reading → Language UInt8
  | .string => {bytes | ∃ mark payload, MarksLength mark payload.length ∧ bytes = mark ++ payload}
  | .number width => {bytes | bytes = [] ∨ bytes.length = width}
  | .float width => {bytes | bytes.length = width}
  | .time => Layout.time.values
  | .nothing => {bytes | bytes = []}

/-- The layout whose values are just what is taken, if there is one. -/
def Reading.layout : Reading → Option Layout
  | .string => none
  | .number _ => none
  | .float width => some (.fixed width)
  | .time => some .time
  | .nothing => some (.fixed 0)

section Values

variable {floatText : GoString → GoString} {front rest : GoString} {next : ℤ}

theorem littleEndian_field {b : UInt8} {field : GoString}
    (hb : (b, field.length) ∈ [((0xfc : UInt8), 2), (0xfd, 3), (0xfe, 8)]) :
    littleEndian field < 2 ^ 64 := by
  have hlt := littleEndian_lt field
  have hwidth : field.length ≤ 8 := by
    simp only [List.mem_cons, Prod.mk.injEq, List.not_mem_nil, or_false] at hb
    omega
  have hpow : 256 ^ field.length ≤ 256 ^ 8 := Nat.pow_le_pow_right (by decide) hwidth
  omega

theorem MarksLength.lt {mark : GoString} {n : ℕ} (h : MarksLength mark n) : n < 2 ^ 64 := by
  cases h with
  | null => decide
  | small b hb =>
      have hlt := b.toNat_lt
      omega
  | wide b field hb => exact littleEndian_field hb

end Values

/-! ## Reading all of them -/

section Loop

variable {floatText : GoString → GoString} {msg nullBitmap front rest : GoString}
  {columnDefs : List ColDefinition} {first : ColDefinition} {left i : ℕ}

end Loop

/-! ## Rows -/

section Rows

variable {floatText : GoString → GoString} {msg nullBitmap rest : GoString} {packet : MysqlPacket}
  {columnDefs : List ColDefinition} {numCol : ℕ} {values values' : GoString → Language UInt8}

end Rows

/-! ## Which types are read as they are written -/

section Types

variable {reading : Reading} {layout : Layout} {nullBitmap : GoString} {layouts : List Layout}
  {i column : ℕ}

end Types

/-! ## Which rows are accepted -/

/-- The definitions read from the packets of some columns. -/
def Defined (columns : List ColumnDef) (columnDefs : List ColDefinition) : Prop :=
  List.Forall₂ (fun c colDef => ∃ packet : MysqlPacket, packet.msg = c.val.bytes
    ∧ processColumnDefPacket packet = .ok (some colDef)) columns columnDefs

/-- How every value of a row is read: as the type of the first column has it, through a signed
byte. -/
def firstReading : List ColumnDef → Reading
  | [] => .nothing
  | c :: _ => readingOf c.val.columnType.toInt

section Accepting

variable {floatText : GoString → GoString} {columns : List ColumnDef}
  {columnDefs : List ColDefinition} {layouts : List Layout}

theorem Defined.first (h : Defined columns columnDefs) :
    ∀ first ∈ columnDefs.head?, readingOf first.columnType = firstReading columns := by
  cases h with
  | nil =>
      intro first hfirst
      cases hfirst
  | @cons c colDef columns columnDefs hdef _ =>
      rintro _ ⟨⟩
      obtain ⟨packet, hmsg, hread⟩ := hdef
      obtain ⟨colDef', hread', htype⟩ := processColumnDefPacket_type c hmsg
      rw [hread] at hread'
      cases hread'
      rw [htype]
      rfl

end Accepting

/-! Columns that are read alike, and two that are not. -/

/-- A packet of a server. -/
def responseOf (msg : GoString) : MysqlPacket :=
  { base := ⟨1, 4 + msg.length, 0⟩, seqId := 1, msg := msg, cmd := 0, isReq := false }

end Kyanos.Mysql
