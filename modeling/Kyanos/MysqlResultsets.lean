/-
The text resultsets of MySQL, and what `processQuery` makes of them.

A server answers a query with the number of the columns, their definitions, the rows and a
terminator. In the classic layout there is an end-of-file packet behind the columns, and another
one ends the rows; where the client deprecates those, an OK packet under the byte `0xfe` ends
them. The parser is not told the layout and goes by the content of the packets: a packet behind
the columns is a row if it can be read as one, else it has to be a terminator.

Both tests are sharp for what a server writes. A row begins with the length of its first cell,
which is below `2 ^ 24`, so neither with `0xfe` nor with `0xff`. A terminator begins with `0xfe`,
which announces a length of eight bytes, and is too short to hold them.
-/
import Kyanos.MysqlWire
import Kyanos.MysqlWaiting

set_option autoImplicit false

open Trace

namespace Kyanos.Mysql

/-! ## What a server writes -/

/-- The value of a cell; `none` is a null value. -/
abbrev Cell := Option { str : GoString // str.length < 2 ^ 24 }

def cellBytes : Cell → GoString
  | none => [0xfb]
  | some str => lenencString str

abbrev Row (n : ℕ) := { cells : List Cell // cells.length = n }

def rowBytes (cells : List Cell) : GoString := (cells.map cellBytes).flatten

/-- An end-of-file packet. -/
structure Eof where
  warnings : BitVec 16
  status : BitVec 16

def Eof.bytes (eof : Eof) : GoString :=
  kRespHeaderEOF :: (leBytes 2 eof.warnings.toNat ++ leBytes 2 eof.status.toNat)

/-- An OK packet in the place of an end-of-file packet. -/
structure OkFields where
  affectedRows : ℕ
  lastInsertId : ℕ
  status : BitVec 16
  warnings : BitVec 16
  info : GoString

def OkFields.bytes (ok : OkFields) : GoString :=
  kRespHeaderEOF :: (lenencInt ok.affectedRows ++ (lenencInt ok.lastInsertId
    ++ (leBytes 2 ok.status.toNat ++ (leBytes 2 ok.warnings.toNat ++ ok.info))))

/-- `SERVER_MORE_RESULTS_EXISTS` is not set. -/
def Final (status : BitVec 16) : Prop := status &&& 8 = 0

/-- An OK packet of seven or eight bytes that ends a resultset. -/
structure OkEnd extends OkFields where
  length : toOkFields.bytes.length = 7 ∨ toOkFields.bytes.length = 8
  final : Final status

/-- The last packet of a resultset, with what stands behind the columns in its layout. -/
inductive Ending
  | classic (middle last : Eof) (final : Final last.status)
  | deprecated (last : OkEnd)

/-- The packets between the columns and the rows. -/
def Ending.middle : Ending → List GoString
  | .classic middle _ _ => [middle.bytes]
  | .deprecated _ => []

def Ending.last : Ending → GoString
  | .classic _ last _ => last.bytes
  | .deprecated last => last.bytes

structure Resultset where
  columns : List ColumnDef
  nonempty : columns ≠ []
  few : columns.length < 2 ^ 24
  rows : List (Row columns.length)
  ending : Ending

/-- The packets behind the column definitions, by their messages. -/
def Resultset.body (rs : Resultset) : List GoString :=
  rs.ending.middle ++ (rs.rows.map (rowBytes ·.val) ++ [rs.ending.last])

def Resultset.messages (rs : Resultset) : List GoString :=
  lenencInt rs.columns.length :: (rs.columns.map (ColumnFields.bytes ·.val) ++ rs.body)

/-! ## Numbers and cells -/

/-- A number below `2 ^ 24` begins neither like a terminator nor like an error. -/
theorem lenencInt_cons {n : ℕ} (hn : n < 2 ^ 24) : ∃ b rest, lenencInt n = b :: rest
    ∧ b ≠ kRespHeaderEOF ∧ b ≠ kRespHeaderErr ∧ (n ≠ 0 → b ≠ kRespHeaderOK) := by
  unfold lenencInt
  split_ifs with hone htwo
  · have hnat : (UInt8.ofNat n).toNat = n := UInt8.toNat_ofNat_of_lt' (hone.trans (by decide))
    have hne : ∀ b : UInt8, n ≠ b.toNat → UInt8.ofNat n ≠ b := by
      intro b hb heq
      rw [← heq, hnat] at hb
      exact hb rfl
    have heof : kRespHeaderEOF.toNat = 254 := rfl
    have herr : kRespHeaderErr.toNat = 255 := rfl
    exact ⟨_, [], rfl, hne _ (by omega), hne _ (by omega), fun hzero => hne _ hzero⟩
  · exact ⟨0xfc, _, rfl, by decide, by decide, fun _ => by decide⟩
  · exact ⟨0xfd, _, rfl, by decide, by decide, fun _ => by decide⟩

theorem lenencInt_length_le (n : ℕ) : (lenencInt n).length ≤ 9 := by
  unfold lenencInt
  split_ifs <;> simp [leBytes_length]

theorem cellBytes_cons (cell : Cell) :
    ∃ b rest, cellBytes cell = b :: rest ∧ b ≠ kRespHeaderEOF ∧ b ≠ kRespHeaderErr := by
  rcases cell with _ | ⟨str, hstr⟩
  · exact ⟨0xfb, [], rfl, by decide, by decide⟩
  · obtain ⟨b, rest, hlen, heof, herr, -⟩ := lenencInt_cons hstr
    refine ⟨b, rest ++ str, ?_, heof, herr⟩
    rw [cellBytes, lenencString, hlen, List.cons_append]

theorem rowBytes_cons {cells : List Cell} (h : cells ≠ []) :
    ∃ b rest, rowBytes cells = b :: rest ∧ b ≠ kRespHeaderEOF ∧ b ≠ kRespHeaderErr := by
  rcases cells with _ | ⟨cell, cells⟩
  · exact absurd rfl h
  · obtain ⟨b, rest, hcell, hne⟩ := cellBytes_cons cell
    refine ⟨b, rest ++ rowBytes cells, ?_, hne⟩
    rw [rowBytes, List.map_cons, List.flatten_cons, hcell, List.cons_append]
    rfl

theorem cellBytes_length_le (cell : Cell) : (cellBytes cell).length ≤ 2 ^ 25 := by
  rcases cell with _ | ⟨str, hstr⟩
  · exact (by decide : (1 : ℕ) ≤ 2 ^ 25)
  · have hmark := lenencInt_length_le str.length
    rw [cellBytes, lenencString, List.length_append]
    dsimp only
    omega

theorem rowBytes_length_le (cells : List Cell) :
    (rowBytes cells).length ≤ cells.length * 2 ^ 25 := by
  unfold rowBytes
  induction cells with
  | nil => exact Nat.zero_le _
  | cons cell cells ih =>
      have hcell := cellBytes_length_le cell
      rw [List.map_cons, List.flatten_cons, List.length_append, List.length_cons]
      omega

/-! ## Rows and terminators -/

theorem dissectStringParam_cell {msg front tail : GoString} (cell : Cell)
    (h : msg = front ++ (cellBytes cell ++ tail)) (hfits : msg.length < 2 ^ 63) :
    (∃ value, dissectStringParam msg front.length
        = .ok (value, (front ++ cellBytes cell).length, true))
      ∧ msg = (front ++ cellBytes cell) ++ tail := by
  rcases cell with _ | ⟨str, hstr⟩
  · have hback : msg = (front ++ [0xfb]) ++ tail := by
      rw [h, List.append_assoc]
      rfl
    refine ⟨⟨text "NULL", ?_⟩, hback⟩
    rw [h]
    refine dissectStringParam_null ?_
    rw [hback, List.length_append] at hfits
    omega
  · obtain ⟨hread, hback⟩ := dissectStringParam_along h hfits
    exact ⟨⟨_, hread⟩, hback⟩

/-- The loop over the cells that are left gets to the end of the message. -/
theorem textRowLoop_cells {msg : GoString} (hfits : msg.length < 2 ^ 63) (cells : List Cell)
    {front : GoString} (h : msg = front ++ rowBytes cells) :
    textRowLoop msg cells.length front.length = .ok (some msg.length) := by
  induction cells generalizing front with
  | nil =>
      have hmsg : msg = front := by
        rw [h]
        exact List.append_nil front
      rw [hmsg]
      rfl
  | cons cell cells ih =>
      obtain ⟨⟨value, hread⟩, hback⟩ := dissectStringParam_cell cell h hfits
      rw [List.length_cons, textRowLoop, hread, ok_bind]
      exact ih hback

/-- **A row is read as one.** -/
theorem processTextResultsetRowPacket_row {packet : MysqlPacket} {n : ℕ} (row : Row n)
    (hn : n < 2 ^ 24) (h : packet.msg = rowBytes row.val) :
    processTextResultsetRowPacket packet n = .ok true := by
  obtain ⟨cells, rfl⟩ := row
  have hfits : packet.msg.length < 2 ^ 63 := by
    have hlen := rowBytes_length_le cells
    rw [h]
    dsimp only
    omega
  have hloop := @textRowLoop_cells packet.msg hfits cells [] h
  have hzero : textRowLoop packet.msg cells.length 0 = .ok (some packet.msg.length) := hloop
  unfold processTextResultsetRowPacket
  split_ifs
  · rfl
  · rw [hzero, ok_bind]
    simp

/-- A packet that begins with `0xfe` and has no eight bytes behind it is no row. -/
theorem processTextResultsetRowPacket_short {packet : MysqlPacket} {n : ℕ} {rest : GoString}
    (hn : n ≠ 0) (h : packet.msg = kRespHeaderEOF :: rest) (hshort : rest.length < 8) :
    processTextResultsetRowPacket packet n = .ok false := by
  obtain ⟨n, rfl⟩ := Nat.exists_eq_succ_of_ne_zero hn
  have hslice : slice packet.msg 0 packet.msg.length = .ok packet.msg :=
    slice_append [] packet.msg
  have hlength : processLengthEncodedInt packet.msg 0 = .ok (-1, 0, false) := by
    rw [processLengthEncodedInt, if_neg (by rw [h]; simp), hslice, ok_bind, h]
    dsimp only
    rw [if_neg (by decide), if_neg (by decide), if_neg (by decide),
      if_pos (show kRespHeaderEOF = 0xfe from rfl), if_pos hshort]
  have hstring : dissectStringParam packet.msg 0 = .ok ([], 0, false) := by
    rw [dissectStringParam, hlength, ok_bind]
    rfl
  unfold processTextResultsetRowPacket
  rw [if_neg (by rw [h, List.cons.injEq]; simp [kRespHeaderEOF]), textRowLoop, hstring]
  rfl

/-- What the packet that ends a resultset has to be. -/
structure Terminates (packet : MysqlPacket) : Prop where
  short : ∃ rest, packet.msg = kRespHeaderEOF :: rest ∧ rest.length < 8
  last : isLastPacket packet = .ok true
  final : moreResultsExist packet = .ok false

/-- The flag is in the low byte of the status. -/
theorem final_low {status : BitVec 16} (h : Final status) :
    (UInt8.ofNat status.toNat &&& 8 != 0) = false := by
  have hbits : status.toNat &&& 8 = 0 := congrArg BitVec.toNat h
  have hlow : UInt8.ofNat status.toNat &&& 8 = UInt8.ofNat (status.toNat &&& 8) :=
    (UInt8.ofNat_and status.toNat 8).symm
  rw [hlow, hbits]
  rfl

theorem Eof.bytes_length (eof : Eof) : eof.bytes.length = 5 := by
  rw [Eof.bytes, List.length_cons, List.length_append, leBytes_length, leBytes_length]

theorem Eof.isEOFPacketAll {eof : Eof} {packet : MysqlPacket} (h : packet.msg = eof.bytes) :
    isEOFPacketAll packet = .ok true := by
  have hlen : packet.msg.length = 5 := by
    rw [h, eof.bytes_length]
  rw [isEOFPacketAll_cons h, hlen]
  rfl

theorem Eof.terminates {eof : Eof} (hfinal : Final eof.status) {packet : MysqlPacket}
    (h : packet.msg = eof.bytes) : Terminates packet := by
  have hlen : packet.msg.length = 5 := by
    rw [h, eof.bytes_length]
  -- An end-of-file packet is no OK packet.
  obtain ⟨ok, hok, hkind⟩ := isOkPacket_cons h
  have hnot : ok = false := by
    rcases ok with _ | _
    · rfl
    · rcases hkind rfl with hzero | ⟨-, hne⟩
      · exact absurd hzero (by decide)
      · exact absurd hlen hne
  rw [hnot] at hok
  refine ⟨⟨_, h, ?_⟩, ?_, ?_⟩
  · rw [List.length_append, leBytes_length, leBytes_length]
    decide
  · unfold isLastPacket
    rw [isErrPacket_cons h, hok, Eof.isEOFPacketAll h]
    rfl
  · have hflags : byteAt packet.msg 3 = .ok (UInt8.ofNat eof.status.toNat) := by
      rw [h]
      rfl
    unfold moreResultsExist
    rw [hok, ok_bind, if_neg (by decide), isEOFPacket_cons true h, ok_bind, hlen, if_pos (by decide),
      hflags, ok_bind, final_low hfinal]

theorem OkEnd.isEOFPacketAll (end_ : OkEnd) {packet : MysqlPacket} (h : packet.msg = end_.bytes) :
    isEOFPacketAll packet = .ok false := by
  have hlen : packet.msg.length = 7 ∨ packet.msg.length = 8 := by
    rw [h]
    exact end_.length
  rw [isEOFPacketAll_cons h]
  rcases hlen with hlen | hlen
  · rw [hlen]
    rfl
  · rw [hlen]
    rfl

theorem OkEnd.terminates (end_ : OkEnd) {packet : MysqlPacket} (h : packet.msg = end_.bytes) :
    Terminates packet := by
  have hlen : packet.msg.length = 7 ∨ packet.msg.length = 8 := by
    rw [h]
    exact end_.length
  have hheader : byteAt packet.msg 0 = .ok kRespHeaderEOF := by
    rw [h]
    rfl
  have hnumber : ∀ n : ℕ, (lenencInt n).length < 8 → n < 2 ^ 63 := by
    intro n hn
    unfold lenencInt at hn
    split_ifs at hn
    · omega
    · omega
    · omega
    · rw [List.length_cons, leBytes_length] at hn
      omega
  have hbytes : packet.msg = [kRespHeaderEOF] ++ (lenencInt end_.affectedRows
      ++ (lenencInt end_.lastInsertId ++ (leBytes 2 end_.status.toNat
      ++ (leBytes 2 end_.warnings.toNat ++ end_.info)))) := h
  have hparts := congrArg List.length hbytes
  simp only [List.length_append, List.length_singleton, leBytes_length] at hparts
  obtain ⟨hrows, h₁⟩ := processLengthEncodedInt_along hbytes (hnumber _ (by omega))
  obtain ⟨hinsert, h₂⟩ := processLengthEncodedInt_along h₁ (hnumber _ (by omega))
  obtain ⟨hstatus, h₃⟩ := dissectInt_along (w := 16) h₂ (leBytes_length 2 _)
  obtain ⟨hwarnings, -⟩ := dissectInt_along (w := 16) h₃ (leBytes_length 2 _)
  have hone : processLengthEncodedInt packet.msg 1 = _ := hrows
  have heof : Mysql.isEOFPacketAll packet = .ok false := end_.isEOFPacketAll h
  have hok : isOkPacket packet = .ok true := by
    unfold isOkPacket
    rw [hheader, ok_bind, hone, ok_bind]
    dsimp only
    rw [if_neg (by simp), hinsert, ok_bind]
    dsimp only
    rw [if_neg (by simp), hstatus, ok_bind]
    dsimp only
    rw [if_neg (by simp), hwarnings, ok_bind]
    dsimp only
    rw [if_neg (by simp), if_neg (by simp [kRespHeaderEOF, kRespHeaderOK]), heof, ok_bind]
    rcases hlen with hlen | hlen
    · rw [hlen]
      rfl
    · rw [hlen]
      rfl
  refine ⟨⟨_, h, ?_⟩, ?_, ?_⟩
  · have hcons := congrArg List.length h
    rw [OkFields.bytes, List.length_cons] at hcons
    omega
  · unfold isLastPacket
    rw [isErrPacket_cons h, hok, heof]
    rfl
  · -- The status stands where the two numbers end.
    obtain ⟨before, hbefore⟩ : ∃ before, before
        = ([kRespHeaderEOF] ++ lenencInt end_.affectedRows) ++ lenencInt end_.lastInsertId :=
      ⟨_, rfl⟩
    rw [← hbefore] at hinsert h₂
    have hflags : byteAt packet.msg before.length = .ok (UInt8.ofNat end_.status.toNat) := by
      rw [h₂]
      exact byteAt_append before _ _
    unfold moreResultsExist
    rw [hok, ok_bind, if_pos rfl, hone, ok_bind]
    dsimp only
    rw [hinsert, ok_bind]
    dsimp only
    rw [if_neg (by simp), hflags, ok_bind, final_low end_.final]

theorem Ending.terminates (ending : Ending) {packet : MysqlPacket}
    (h : packet.msg = ending.last) : Terminates packet := by
  rcases ending with ⟨middle, last, hfinal⟩ | last
  · exact Eof.terminates hfinal h
  · exact last.terminates h

/-! ## The packets of a resultset -/

variable {floatText : GoString → GoString} {first req : MysqlPacket}
  {cols body rows rest : List MysqlPacket} {columns : List ColumnDef} {record : Exchange}

theorem takeColumnDefs_columns
    (h : cols.map MysqlPacket.msg = columns.map (ColumnFields.bytes ·.val)) :
    ∃ colDefs, takeColumnDefs columns.length (cols ++ rest) = .ok (.success, colDefs, rest)
      ∧ colDefs.length = columns.length := by
  induction columns generalizing cols with
  | nil =>
      cases List.map_eq_nil_iff.mp h
      exact ⟨[], rfl, rfl⟩
  | cons column columns ih =>
      obtain ⟨packet, cols, rfl, hpacket, hcols⟩ := List.map_eq_cons_iff.mp h
      obtain ⟨colDef, hread⟩ := processColumnDefPacket_bytes column hpacket
      obtain ⟨colDefs, htake, hlen⟩ := ih hcols
      refine ⟨colDef :: colDefs, ?_, ?_⟩
      · rw [List.cons_append, List.length_cons, takeColumnDefs, hread, ok_bind]
        dsimp only
        rw [htake]
        rfl
      · rw [List.length_cons, List.length_cons, hlen]

/-- Rows are taken up to where the rest stops. -/
theorem takeRows_rows {isRow : MysqlPacket → Except Panic Bool} {rest' : List MysqlPacket} {bytes : ℤ}
    {ok : Bool} (hrows : ∀ packet ∈ rows, isRow packet = .ok true)
    (h : takeRows isRow rest = .ok (0, bytes, rest', ok)) :
    ∃ bytes', takeRows isRow (rows ++ rest) = .ok (rows.length, bytes', rest', ok) := by
  induction rows with
  | nil => exact ⟨bytes, h⟩
  | cons packet rows ih =>
      obtain ⟨bytes', htake⟩ := ih fun p hp => hrows p (List.mem_cons_of_mem _ hp)
      refine ⟨packet.base.byteSize + bytes', ?_⟩
      rw [List.cons_append, takeRows, hrows packet List.mem_cons_self, ok_bind, if_pos rfl, htake]
      rfl

theorem takeRows_last {isRow : MysqlPacket → Except Panic Bool} {last : MysqlPacket}
    (hrow : isRow last = .ok false) (hlast : Terminates last) :
    takeRows isRow [last] = .ok (0, 0, [last], true) := by
  rw [takeRows, hrow, ok_bind, if_neg (by decide), hlast.last]
  rfl

/-- What stands behind the columns is left where it does not begin with an end-of-file packet. -/
theorem skipEOF_rows {ends : List MysqlPacket} {n : ℕ} (hn : n ≠ 0)
    (hrows : ∀ packet ∈ rows, ∃ row : Row n, packet.msg = rowBytes row.val)
    (hends : ∀ last ∈ ends.head?, isEOFPacketAll last = .ok false) :
    skipEOF (rows ++ ends) = .ok (rows ++ ends) := by
  rcases rows with _ | ⟨packet, rows⟩
  · rcases ends with _ | ⟨last, ends⟩
    · rfl
    · rw [List.nil_append, skipEOF, hends last rfl]
      rfl
  · obtain ⟨⟨cells, hlen⟩, hmsg⟩ := hrows packet List.mem_cons_self
    have hcells : cells ≠ [] := by
      rintro rfl
      exact hn hlen.symm
    obtain ⟨b, tail, hcons, hne, -⟩ := rowBytes_cons hcells
    rw [List.cons_append, skipEOF, isEOFPacketAll_cons (hmsg.trans hcons), beq_false_of_ne hne]
    rfl

/-- In either layout the rows, or as many of them as there are, begin behind the columns. -/
theorem skipEOF_body {ending : Ending} {middle ends : List MysqlPacket} {n : ℕ} (hn : n ≠ 0)
    (hmiddle : middle.map MysqlPacket.msg = ending.middle)
    (hrows : ∀ packet ∈ rows, ∃ row : Row n, packet.msg = rowBytes row.val)
    (hends : ∀ last ∈ ends.head?, last.msg = ending.last) :
    skipEOF (middle ++ (rows ++ ends)) = .ok (rows ++ ends) := by
  rcases ending with ⟨mid, last, hfinal⟩ | end_
  · obtain ⟨packet, none', rfl, hmsg, hnone⟩ := List.map_eq_cons_iff.mp hmiddle
    cases List.map_eq_nil_iff.mp hnone
    rw [List.singleton_append, skipEOF, Eof.isEOFPacketAll hmsg]
    rfl
  · cases List.map_eq_nil_iff.mp hmiddle
    refine @skipEOF_rows rows ends n hn hrows ?_
    intro last hlast
    exact end_.isEOFPacketAll (hends last hlast)

/-- The number of columns, read from the first packet. -/
theorem processLengthEncodedInt_first {n : ℕ} (hn : n < 2 ^ 24) (h : first.msg = lenencInt n) :
    processLengthEncodedInt first.msg 0 = .ok (n, first.msg.length, true) := by
  have hmsg : first.msg = [] ++ (lenencInt n ++ []) := by
    rw [h, List.append_nil, List.nil_append]
  obtain ⟨hread, -⟩ := processLengthEncodedInt_along hmsg (by omega)
  rw [h] at hread ⊢
  exact hread

/-- Before the last column definition, and the packet behind it, there is nothing to tell. -/
theorem handleResultset_short (hfew : columns.length < 2 ^ 24) (hne : columns.length ≠ 0)
    (hfirst : first.msg = lenencInt columns.length) (hshort : rest.length ≤ columns.length) :
    handleResultset floatText false false (first :: rest) record
      = .ok (.done .needsMoreData { record with resp := some (respOf first.base) }) := by
  have hfits : intOf 64 ((columns.length : ℤ) + 1) = columns.length + 1 :=
    intOf_of_lt (by omega) (by omega)
  unfold handleResultset endsResultsets
  dsimp only
  rw [if_neg (by decide), ok_bind, if_neg (by decide), processLengthEncodedInt_first hfew hfirst,
    ok_bind]
  dsimp only
  rw [if_neg (by simpa using hne), hfits, if_pos (by omega)]

/-- Behind the columns, what is left is that the rows are finished. -/
theorem handleResultset_rows {ends : List MysqlPacket} (hfew : columns.length < 2 ^ 24)
    (hne : columns.length ≠ 0) (hfirst : first.msg = lenencInt columns.length)
    (hcols : cols.map MysqlPacket.msg = columns.map (ColumnFields.bytes ·.val)) (hbody : body ≠ [])
    (hskip : skipEOF body = .ok (rows ++ ends))
    (hrows : ∀ packet ∈ rows, ∃ row : Row columns.length, packet.msg = rowBytes row.val)
    (hends : ends = [] ∨ ∃ last, ends = [last] ∧ Terminates last) :
    ∃ response, response.msg = []
      ∧ handleResultset floatText false false (first :: (cols ++ body)) record
        = finishResultset false ends response rows.length
            { record with resp := some (respOf first.base) } := by
  have hfits : intOf 64 ((columns.length : ℤ) + 1) = columns.length + 1 :=
    intOf_of_lt (by omega) (by omega)
  have hcount : cols.length = columns.length := by
    simpa using congrArg List.length hcols
  have hbehind : body.length ≠ 0 := fun h => hbody (List.length_eq_zero_iff.mp h)
  obtain ⟨colDefs, htake, hlen⟩ := @takeColumnDefs_columns cols body columns hcols
  -- The rows are taken as such, and the terminator is not.
  have hrow : ∀ packet ∈ rows, processTextResultsetRowPacket packet colDefs.length = .ok true := by
    intro packet hp
    obtain ⟨row, hmsg⟩ := hrows packet hp
    rw [hlen]
    exact processTextResultsetRowPacket_row row hfew hmsg
  obtain ⟨bytes, htakeRows⟩ : ∃ bytes,
      takeRows (fun p => processTextResultsetRowPacket p colDefs.length) (rows ++ ends)
        = .ok (rows.length, bytes, ends, true) := by
    rcases hends with rfl | ⟨last, rfl, hlast⟩
    · exact takeRows_rows hrow rfl
    · obtain ⟨tail, hmsg, hshort⟩ := hlast.short
      refine takeRows_rows hrow (takeRows_last ?_ hlast)
      rw [hlen]
      exact processTextResultsetRowPacket_short hne hmsg hshort
  refine ⟨respOf { first.base with byteSize := first.base.byteSize + bytes }, rfl, ?_⟩
  unfold handleResultset endsResultsets
  dsimp only
  rw [if_neg (by decide), ok_bind, if_neg (by decide), processLengthEncodedInt_first hfew hfirst,
    ok_bind]
  dsimp only
  rw [if_neg (by simpa using hne), hfits, if_neg (by rw [List.length_append]; omega),
    Int.toNat_natCast, htake, ok_bind]
  dsimp only
  rw [if_neg (by simp), if_neg hbehind, hskip, ok_bind, if_neg (by decide), htakeRows, ok_bind]
  rfl

theorem finishResultset_nil {response : MysqlResponse} {n : ℕ} :
    finishResultset false [] response n record
      = .ok (.done .needsMoreData { record with resp := some response }) := rfl

theorem finishResultset_last {response : MysqlResponse} {n : ℕ} {last : MysqlPacket}
    (hempty : response.msg = []) (hlast : Terminates last) :
    ∃ resp, finishResultset false [last] response n record
        = .ok (.done .success { record with resp := some resp })
      ∧ resp.msg = text ("Resultset rows = " ++ toString n)
      ∧ resp.base.timestampNs = last.base.timestampNs := by
  obtain ⟨tail, hmsg, -⟩ := hlast.short
  refine ⟨setTimeStamp { response with
    respStatus := .ok, msg := text ("Resultset rows = " ++ toString n) } last.base.timestampNs,
    ?_, rfl, rfl⟩
  unfold finishResultset
  dsimp only
  rw [isErrPacket_cons hmsg, ok_bind, if_neg (by simp [kRespHeaderEOF, kRespHeaderErr]),
    hlast.final, ok_bind, if_neg (by decide), hempty]
  rfl

/-! ## Queries -/

/-- A query that is answered by a resultset gets to its handler. -/
theorem processQuery_resultset {query : GoString} {n : ℕ} {state : ParseState} {record' : Exchange}
    (hreq : req.msg = 0x03 :: query) (hn : n < 2 ^ 24) (hne : n ≠ 0)
    (hfirst : first.msg = lenencInt n)
    (h : handleResultset floatText false false (first :: rest)
        { record with req := some { req with cmd := kQuery, msg := query } }
      = .ok (.done state record')) :
    processQuery floatText req (first :: rest) record = .ok (state, record') := by
  obtain ⟨b, tail, hcons, heof, herr, hok⟩ := lenencInt_cons hn
  rw [hcons] at hfirst
  have hrequest : handleStringRequest req = .ok { req with cmd := kQuery, msg := query } := by
    unfold handleStringRequest
    rw [hreq]
    rfl
  obtain ⟨ok, hisOk, hkind⟩ := isOkPacket_cons hfirst
  have hnot : ok = false := by
    rcases ok with _ | _
    · rfl
    · rcases hkind rfl with hzero | ⟨hlast, -⟩
      · exact absurd hzero (hok hne)
      · exact absurd hlast heof
  unfold processQuery
  rw [hrequest, ok_bind]
  dsimp only
  rw [isErrPacket_cons hfirst, ok_bind, beq_false_of_ne herr, Bool.false_and, if_neg (by decide),
    hisOk, ok_bind, hnot, if_neg (by decide), handleResultsetResponse, List.length_cons,
    handleResultsets, h]
  rfl

/-- The packets of a resultset, by what they are. -/
structure Resultset.Parts (rs : Resultset) (first : MysqlPacket) (cols middle rows : List MysqlPacket)
    (last : MysqlPacket) : Prop where
  count : first.msg = lenencInt rs.columns.length
  columns : cols.map MysqlPacket.msg = rs.columns.map (ColumnFields.bytes ·.val)
  middle : middle.map MysqlPacket.msg = rs.ending.middle
  isRow : ∀ packet ∈ rows, ∃ row : Row rs.columns.length, packet.msg = rowBytes row.val
  rowCount : rows.length = rs.rows.length
  last : last.msg = rs.ending.last

theorem Resultset.parts {rs : Resultset} {packets : List MysqlPacket}
    (h : packets.map MysqlPacket.msg = rs.messages) : ∃ first cols middle rows last,
      packets = first :: (cols ++ (middle ++ (rows ++ [last])))
        ∧ rs.Parts first cols middle rows last := by
  obtain ⟨first, behind, rfl, hfirst, hbehind⟩ := List.map_eq_cons_iff.mp h
  obtain ⟨cols, body, rfl, hcols, hbody⟩ := List.map_eq_append_iff.mp hbehind
  obtain ⟨middle, content, rfl, hmiddle, hcontent⟩ := List.map_eq_append_iff.mp hbody
  obtain ⟨rows, ends, rfl, hrowMsgs, hends⟩ := List.map_eq_append_iff.mp hcontent
  obtain ⟨last, none', rfl, hlast, hnone⟩ := List.map_eq_cons_iff.mp hends
  cases List.map_eq_nil_iff.mp hnone
  refine ⟨first, cols, middle, rows, last, rfl, hfirst, hcols, hmiddle, ?_, ?_, hlast⟩
  · intro packet hp
    have hmem : packet.msg ∈ rs.rows.map (rowBytes ·.val) := by
      rw [← hrowMsgs]
      exact List.mem_map_of_mem hp
    obtain ⟨row, -, hmsg⟩ := List.mem_map.mp hmem
    exact ⟨row, hmsg.symm⟩
  · simpa using congrArg List.length hrowMsgs

variable {rs : Resultset} {middle : List MysqlPacket} {last : MysqlPacket} {query : GoString}

theorem Resultset.columns_length_ne (rs : Resultset) : rs.columns.length ≠ 0 :=
  fun h => rs.nonempty (List.length_eq_zero_iff.mp h)

/-- All packets of a resultset are a success. -/
theorem Resultset.Parts.success (h : rs.Parts first cols middle rows last)
    (hreq : req.msg = 0x03 :: query) : ∃ record' resp,
      processQuery floatText req (first :: (cols ++ (middle ++ (rows ++ [last])))) record
        = .ok (.success, record')
      ∧ record'.resp = some resp
      ∧ resp.msg = text ("Resultset rows = " ++ toString rs.rows.length)
      ∧ resp.base.timestampNs = last.base.timestampNs := by
  have hterm : Terminates last := rs.ending.terminates h.last
  have hskip : skipEOF (middle ++ (rows ++ [last])) = .ok (rows ++ [last]) := by
    refine skipEOF_body rs.columns_length_ne h.middle h.isRow ?_
    rintro _ ⟨⟩
    exact h.last
  obtain ⟨response, hempty, hresult⟩ := @handleResultset_rows floatText first cols _ rows rs.columns
    { record with req := some { req with cmd := kQuery, msg := query } } [last] rs.few
    rs.columns_length_ne h.count h.columns (by simp) hskip h.isRow (Or.inr ⟨last, rfl, hterm⟩)
  obtain ⟨resp, hfinish, hmsg, htime⟩ := @finishResultset_last
    { req := some { req with cmd := kQuery, msg := query }, resp := some (respOf first.base) }
    response rows.length last hempty hterm
  rw [hfinish] at hresult
  rw [h.rowCount] at hmsg
  exact ⟨_, resp, processQuery_resultset hreq rs.few rs.columns_length_ne h.count hresult, rfl, hmsg,
    htime⟩

/-- In a layout at most one packet stands between the columns and the rows. -/
theorem Resultset.Parts.middle_length_le (h : rs.Parts first cols middle rows last) :
    middle.length ≤ 1 := by
  have hlen : middle.length = rs.ending.middle.length := by
    simpa using congrArg List.length h.middle
  rw [hlen]
  rcases rs.ending with _ | _
  · exact le_rfl
  · exact Nat.zero_le 1

/-- Fewer packets need more data. -/
theorem Resultset.Parts.needsMoreData (h : rs.Parts first cols middle rows last)
    (hreq : req.msg = 0x03 :: query) {k : ℕ}
    (hk : k < (first :: (cols ++ (middle ++ (rows ++ [last])))).length) : ∃ record',
      processQuery floatText req ((first :: (cols ++ (middle ++ (rows ++ [last])))).take k) record
        = .ok (.needsMoreData, record') := by
  rcases k with _ | k
  · -- Without a packet there is not even the number of columns.
    refine ⟨{ record with req := some { req with cmd := kQuery, msg := query } }, ?_⟩
    unfold processQuery handleStringRequest
    rw [hreq]
    rfl
  rw [List.take_succ_cons]
  simp only [List.length_cons, List.length_append, List.length_nil] at hk
  rcases Nat.lt_or_ge rs.columns.length k with hlong | hshort
  · -- The columns, and some of the packets behind them.
    obtain ⟨j, rfl⟩ := Nat.exists_eq_add_of_lt hlong
    have hcount : cols.length = rs.columns.length := by
      simpa using congrArg List.length h.columns
    have hmid := h.middle_length_le
    have hcut : (cols ++ (middle ++ (rows ++ [last]))).take (rs.columns.length + j + 1)
        = cols ++ (middle ++ (rows.take (j + 1 - middle.length) ++ [])) := by
      rw [add_assoc, ← hcount, List.take_length_add_append, List.take_append,
        List.take_of_length_le (by omega), List.take_append_of_le_length (by omega),
        List.append_nil]
    have hbody : middle ++ (rows.take (j + 1 - middle.length) ++ []) ≠ [] := by
      intro hnil
      have hlen := congrArg List.length hnil
      simp only [List.length_append, List.length_nil, List.length_take] at hlen
      omega
    have hsome : ∀ packet ∈ rows.take (j + 1 - middle.length),
        ∃ row : Row rs.columns.length, packet.msg = rowBytes row.val :=
      fun packet hp => h.isRow packet (List.mem_of_mem_take hp)
    have hskip := @skipEOF_body _ rs.ending middle [] _ rs.columns_length_ne h.middle hsome (by simp)
    rw [hcut]
    obtain ⟨response, -, hresult⟩ := @handleResultset_rows floatText first cols _ _ rs.columns
      { record with req := some { req with cmd := kQuery, msg := query } } [] rs.few
      rs.columns_length_ne h.count h.columns hbody hskip hsome (Or.inl rfl)
    exact ⟨_, processQuery_resultset hreq rs.few rs.columns_length_ne h.count
      (hresult.trans finishResultset_nil)⟩
  · refine ⟨_, processQuery_resultset hreq rs.few rs.columns_length_ne h.count
      (handleResultset_short rs.few rs.columns_length_ne h.count ?_)⟩
    rw [List.length_take]
    omega

/-- **A text resultset is recognised when it is complete**, in both layouts and for any content of
its rows: all its packets are a success, with the number of rows and the time of the terminator, and
fewer need more data. -/
theorem processQuery_complete (floatText : GoString → GoString) (rs : Resultset) (query : GoString)
    (req : MysqlPacket) (hreq : req.msg = 0x03 :: query) (packets : List MysqlPacket)
    (hpackets : packets.map MysqlPacket.msg = rs.messages) (record : Exchange) :
    (∃ record' resp last, processQuery floatText req packets record = .ok (.success, record')
        ∧ record'.resp = some resp
        ∧ resp.msg = text ("Resultset rows = " ++ toString rs.rows.length)
        ∧ packets.getLast? = some last ∧ resp.base.timestampNs = last.base.timestampNs)
      ∧ ∀ k < packets.length, ∃ record',
          processQuery floatText req (packets.take k) record = .ok (.needsMoreData, record') := by
  obtain ⟨first, cols, middle, rows, last, rfl, hparts⟩ := Resultset.parts hpackets
  have hsplit : first :: (cols ++ (middle ++ (rows ++ [last])))
      = (first :: (cols ++ (middle ++ rows))) ++ [last] := by simp
  constructor
  · obtain ⟨record', resp, hquery, hresp, hmsg, htime⟩ := hparts.success hreq
    refine ⟨record', resp, last, hquery, hresp, hmsg, ?_, htime⟩
    rw [hsplit, List.getLast?_concat]
  · intro k hk
    exact hparts.needsMoreData hreq hk

/-- `SELECT name` with the rows `NULL` and `ab`, in the classic layout. -/
def twoRows : Resultset where
  columns := [⟨{
    schema := text "s", table := text "t", orgTable := text "t", name := text "name"
    orgName := text "name", characterSet := 33, columnLength := 80, columnType := 0xfd
    flags := 0, decimals := 0, filler := [0, 0] }, by decide⟩]
  nonempty := by simp
  few := by decide
  rows := [⟨[none], rfl⟩, ⟨[some ⟨text "ab", by decide⟩], rfl⟩]
  ending := .classic ⟨0, 2⟩ ⟨0, 2⟩ rfl

theorem processQuery_complete_twoRows : ∃ packets : List MysqlPacket,
    (∃ record' resp last, processQuery id (requestAt 1 (3 :: text "SELECT name")) packets
        Exchange.empty = .ok (.success, record')
        ∧ record'.resp = some resp
        ∧ resp.msg = text ("Resultset rows = " ++ toString twoRows.rows.length)
        ∧ packets.getLast? = some last ∧ resp.base.timestampNs = last.base.timestampNs)
      ∧ packets.length = 6 := by
  refine ⟨twoRows.messages.map fun msg => { requestAt 2 msg with isReq := false },
    (processQuery_complete id twoRows (text "SELECT name") _ rfl _ ?_ _).1, rfl⟩
  rw [List.map_map]
  exact List.map_id _

end Kyanos.Mysql
