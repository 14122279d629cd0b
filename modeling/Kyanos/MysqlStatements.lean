/-
The prepared statements of a connection, as the server holds them, and the table that `Match` keeps
of them.

The server gives a statement its id when it is prepared, under the last text for that id, and
forgets it when it is closed. The parser keeps the same table: a response to `COM_STMT_PREPARE`
that is complete is put under its id, with the request and the number of parameters
(`processStmtPrepare_prefix`), and an error changes nothing. `HandleStmtCloseRequest` empties the
message of the request before it reads the id from it, so what it removes is statement zero, whatever
is closed (`close_tracks_iff`).

Packets arrive in the order of the wire, and `Match` may run between any two of them. A request that
waits stays in the queue; of one that is done, responses may still arrive. These are older than every
later request, so `syncRespQueue` drops them (`matchLoop_left`).
-/
import Kyanos.MysqlResultsets

set_option autoImplicit false

open Trace

namespace Kyanos.Mysql

/-! ## What a server writes -/

/-- The definitions of parameters or columns, and the end-of-file packet behind them, unless there is
nothing to end. -/
def definitions (deprecateEof : Bool) (defs : List ColumnDef) (eof : Eof) : List GoString :=
  defs.map (ColumnFields.bytes ·.val) ++ if deprecateEof ∨ defs = [] then [] else [eof.bytes]

/-- The response to a request to prepare a statement. -/
structure Prepared where
  id : BitVec 32
  params : List ColumnDef
  columns : List ColumnDef
  few : params.length < 2 ^ 16 ∧ columns.length < 2 ^ 16
  warnings : BitVec 16
  deprecateEof : Bool
  paramsEnd : Eof
  columnsEnd : Eof

def Prepared.head (stmt : Prepared) : GoString :=
  kRespHeaderOK :: (leBytes 4 stmt.id.toNat ++ (leBytes 2 stmt.columns.length
    ++ (leBytes 2 stmt.params.length ++ (0 :: leBytes 2 stmt.warnings.toNat))))

def Prepared.messages (stmt : Prepared) : List GoString :=
  stmt.head :: (definitions stmt.deprecateEof stmt.params stmt.paramsEnd
    ++ definitions stmt.deprecateEof stmt.columns stmt.columnsEnd)

/-- An error packet. -/
structure ErrFields where
  code : BitVec 16
  sqlState : { state : GoString // state.length = 5 }
  message : GoString

def ErrFields.bytes (err : ErrFields) : GoString :=
  kRespHeaderErr :: (leBytes 2 err.code.toNat ++ (0x23 :: (err.sqlState.val ++ err.message)))

/-- What is asked of the server, with its answer. -/
inductive Statement
  | prepare (query : GoString) (stmt : Prepared)
  | reject (query : GoString) (err : ErrFields)
  | execute (args : GoString) (answer : List GoString)
  | close (id : BitVec 32)

namespace Statement

def request : Statement → GoString
  | prepare query _ => 0x16 :: query
  | reject query _ => 0x16 :: query
  | execute args _ => 0x17 :: args
  | close id => 0x19 :: leBytes 4 id.toNat

def responses : Statement → List GoString
  | prepare _ stmt => stmt.messages
  | reject _ err => [err.bytes]
  | execute _ answer => answer
  | close _ => []

end Statement

/-- The statements a server holds: the text and the number of the parameters. -/
abbrev Server : Type := BitVec 32 → Option (GoString × ℕ)

def Server.serve (server : Server) : Statement → Server
  | .prepare query stmt => Function.update server stmt.id (some (query, stmt.params.length))
  | .reject _ _ => server
  | .execute _ _ => server
  | .close id => Function.update server id none

/-- The table has the statements of the server and no others. -/
structure Tracks (table : SortedMap ℤ PreparedStatement) (server : Server) : Prop where
  held : ∀ id : BitVec 32, (table.get? id.toInt).map
    (fun stmt => (stmt.request, stmt.response.header.numParams)) = server id
  only : ∀ key, (table.get? key).isSome → ∃ id : BitVec 32, key = id.toInt

section Tables

variable {table : SortedMap ℤ PreparedStatement} {server : Server}

theorem tracks_empty : Tracks SortedMap.empty fun _ => none :=
  ⟨fun _ => rfl, by simp⟩

theorem toInt_eq_zero_iff {id : BitVec 32} : id.toInt = 0 ↔ id = 0 := by
  rw [show (0 : ℤ) = (0 : BitVec 32).toInt from rfl, BitVec.toInt_inj]

/-- A statement that is prepared replaces the one under its id. -/
theorem Tracks.put (h : Tracks table server) {id : BitVec 32} {stmt : PreparedStatement} :
    Tracks (table.put id.toInt stmt)
      (Function.update server id (some (stmt.request, stmt.response.header.numParams))) := by
  refine ⟨fun j => ?_, fun key hkey => ?_⟩
  · rw [SortedMap.get?_put]
    by_cases hj : j = id
    · rw [hj, if_pos rfl, Function.update_self]
      rfl
    · rw [if_neg (fun heq => hj (BitVec.toInt_inj.mp heq)), Function.update_of_ne hj]
      exact h.held j
  · rw [SortedMap.get?_put] at hkey
    split_ifs at hkey with heq
    · exact ⟨id, heq⟩
    · exact h.only key hkey

/-- To close a statement does no harm where it is statement zero, or where neither it nor statement
zero is held. -/
def Server.HarmlessClose (server : Server) (id : BitVec 32) : Prop :=
  id = 0 ∨ server id = none ∧ server 0 = none

/-- What a statement does to the table is what it does to the server. -/
def Server.Harmless (server : Server) : Statement → Prop
  | .close id => server.HarmlessClose id
  | _ => True

/-- **What is removed is statement zero.** That is what the server does just in the harmless case. -/
theorem close_tracks_iff (h : Tracks table server) (id : BitVec 32) :
    Tracks (table.remove 0) (Function.update server id none) ↔ server.HarmlessClose id := by
  have hget : ∀ j : BitVec 32, ((table.remove 0).get? j.toInt).map
      (fun stmt => (stmt.request, stmt.response.header.numParams))
        = if j = 0 then none else server j := by
    intro j
    rw [SortedMap.get?_remove]
    by_cases hj : j = 0
    · rw [if_pos (toInt_eq_zero_iff.mpr hj), if_pos hj]
      rfl
    · rw [if_neg (fun heq => hj (toInt_eq_zero_iff.mp heq)), if_neg hj]
      exact h.held j
  constructor
  · intro htracks
    by_cases hid : id = 0
    · exact Or.inl hid
    refine Or.inr ⟨?_, ?_⟩
    · have hheld := htracks.held id
      rw [hget, if_neg hid, Function.update_self] at hheld
      exact hheld
    · have hheld := htracks.held 0
      rw [hget, if_pos rfl, Function.update_of_ne (Ne.symm hid)] at hheld
      exact hheld.symm
  · intro hharmless
    refine ⟨fun j => ?_, fun key hkey => ?_⟩
    · rw [hget]
      rcases hharmless with rfl | ⟨hnone, hzero⟩
      · by_cases hj : j = 0
        · rw [hj, if_pos rfl, Function.update_self]
        · rw [if_neg hj, Function.update_of_ne hj]
      · have hsame : Function.update server id none = server := by
          rw [← hnone, Function.update_eq_self]
        rw [hsame]
        split_ifs with hj
        · rw [hj, hzero]
        · rfl
    · rw [SortedMap.get?_remove] at hkey
      split_ifs at hkey
      · cases hkey
      · exact h.only key hkey

end Tables

/-! ## Preparing -/

section Preparing

variable {front tail : GoString}

/-- A number of as many bits as a header field has room for. -/
theorem headerField_word (id : BitVec 32) :
    headerField (front ++ (leBytes 4 id.toNat ++ tail)) front.length 4 = id.toInt := by
  have hlt : id.toNat < 256 ^ 4 := by
    have hid := id.isLt
    omega
  rw [headerField, List.drop_left, lEndianBytesToKInt_leBytes hlt (by decide), intOf_toNat]

theorem headerField_count {n : ℕ} (hn : n < 2 ^ 16) :
    headerField (front ++ (leBytes 2 n ++ tail)) front.length 2 = n := by
  rw [headerField, List.drop_left, lEndianBytesToKInt_leBytes hn (by decide),
    intOf_of_lt (by omega) (by omega)]

/-- The definition of a column begins with the length of its catalogue. -/
theorem ColumnFields.bytes_cons (c : ColumnFields) : ∃ rest, c.bytes = 3 :: rest :=
  ⟨_, rfl⟩

variable {packets rest : List MysqlPacket} {defs : List ColumnDef} {messages : List GoString}
  {resp : MysqlResponse}

/-- As many definitions are taken as there are. -/
theorem takeDefinitions_front
    (h : packets.map MysqlPacket.msg <+: defs.map (ColumnFields.bytes ·.val) ++ messages) :
    ∃ colDefs resp', takeDefinitions defs.length resp packets
      = .ok (if defs.length ≤ packets.length then .success else .needsMoreData, colDefs, resp',
          packets.drop defs.length) := by
  induction defs generalizing packets resp with
  | nil => exact ⟨[], resp, rfl⟩
  | cons c defs ih =>
      rcases packets with _ | ⟨packet, packets⟩
      · exact ⟨[], resp, rfl⟩
      · rw [List.map_cons, List.map_cons, List.cons_append, List.cons_prefix_cons] at h
        obtain ⟨colDef, hread⟩ := processColumnDefPacket_bytes c h.1
        obtain ⟨colDefs, resp', htake⟩ := @ih packets (setTimeStamp resp packet.base.timestampNs) h.2
        refine ⟨colDef :: colDefs, resp', ?_⟩
        rw [List.length_cons, takeDefinitions, hread, ok_bind]
        dsimp only
        rw [htake, List.length_cons]
        simp only [Nat.succ_le_succ_iff]
        rfl

/-- What follows definitions does not begin like an end-of-file packet: more definitions, or
nothing. -/
def Defines (messages : List GoString) : Prop :=
  ∀ msg ∈ messages.head?, ∃ c : ColumnFields, msg = c.bytes

theorem takeEOF_front {deprecateEof : Bool} {eof : Eof} (hmessages : Defines messages)
    (h : packets.map MysqlPacket.msg
      <+: (if deprecateEof ∨ defs = [] then [] else [eof.bytes]) ++ messages) :
    ∃ resp' rest, takeEOF defs.length resp packets = .ok (resp', rest)
      ∧ rest.map MysqlPacket.msg <+: messages
      ∧ packets.length
        ≤ (if deprecateEof ∨ defs = [] then [] else [eof.bytes]).length + rest.length := by
  rcases hdefs : defs with _ | ⟨c, cs⟩
  · rw [hdefs, if_pos (Or.inr rfl)] at h
    rw [if_pos (Or.inr rfl)]
    exact ⟨resp, packets, rfl, h, by simp⟩
  have hne : defs ≠ [] := by
    rw [hdefs]
    exact List.cons_ne_nil c cs
  rw [← hdefs]
  have hlen : defs.length ≠ 0 := fun heq => hne (List.length_eq_zero_iff.mp heq)
  unfold takeEOF
  rw [if_neg hlen]
  rcases packets with _ | ⟨packet, packets⟩
  · exact ⟨resp, [], rfl, List.nil_prefix, by simp⟩
  rcases deprecateEof with _ | _
  · rw [if_neg (by simp [hne]), List.map_cons, List.singleton_append, List.cons_prefix_cons] at h
    refine ⟨setTimeStamp resp packet.base.timestampNs, packets, ?_, h.2, ?_⟩
    · dsimp only
      rw [Eof.isEOFPacketAll h.1]
      rfl
    · rw [if_neg (by simp [hne]), List.length_cons, List.length_singleton]
      omega
  · rw [if_pos (Or.inl rfl), List.nil_append] at h
    refine ⟨resp, packet :: packets, ?_, h, by simp⟩
    -- A definition follows, and it begins with a three.
    obtain ⟨msg, messages', hcons⟩ : ∃ msg messages', messages = msg :: messages' := by
      rcases messages with _ | ⟨msg, messages'⟩
      · cases List.prefix_nil.mp h
      · exact ⟨msg, messages', rfl⟩
    rw [hcons, List.map_cons, List.cons_prefix_cons] at h
    obtain ⟨c, hc⟩ := hmessages msg (by rw [hcons]; rfl)
    obtain ⟨tail, hbytes⟩ := c.bytes_cons
    dsimp only
    rw [isEOFPacketAll_cons (h.1.trans (hc.trans hbytes)), ok_bind]
    rfl

theorem defines_definitions {deprecateEof : Bool} {eof : Eof} :
    Defines (definitions deprecateEof defs eof) := by
  intro msg hmsg
  rcases defs with _ | ⟨c, defs⟩
  · rw [definitions, if_pos (Or.inr rfl)] at hmsg
    cases hmsg
  · cases hmsg
    exact ⟨c.val, rfl⟩

/-- What the head of a response to a prepare request says. -/
structure Prepared.Headed (stmt : Prepared) (first : MysqlPacket) : Prop where
  ok : isStmtPrepareOKPacket first = true
  notErr : isErrPacket first = .ok false
  id : headerField first.msg 1 4 = stmt.id.toInt
  numCol : headerField first.msg 5 2 = stmt.columns.length
  numParam : headerField first.msg 7 2 = stmt.params.length

theorem Prepared.headed {stmt : Prepared} {first : MysqlPacket} (h : first.msg = stmt.head) :
    stmt.Headed first := by
  refine ⟨?_, ?_, ?_, ?_, ?_⟩
  · unfold isStmtPrepareOKPacket
    rw [h]
    rfl
  · rw [isErrPacket_cons h]
    rfl
  · rw [h]
    exact @headerField_word [kRespHeaderOK] _ stmt.id
  · rw [h]
    exact @headerField_count (kRespHeaderOK :: leBytes 4 stmt.id.toNat) _ _ stmt.few.2
  · rw [h]
    exact @headerField_count
      (kRespHeaderOK :: (leBytes 4 stmt.id.toNat ++ leBytes 2 stmt.columns.length)) _ _ stmt.few.1

/-- The statements with one that was prepared. -/
def Prepares (p p' : State) (query : GoString) (stmt : Prepared) : Prop :=
  ∃ statement : PreparedStatement, p'.preparedStatements
      = p.preparedStatements.put stmt.id.toInt statement
    ∧ statement.request = query ∧ statement.response.header.numParams = stmt.params.length

/-- **A response to a prepare request.** As far as it is there it needs more data, or the statement
is put under its id; a complete one is put. -/
theorem handleStmtPrepareOKResponse_prefix {stmt : Prepared} {p : State} {req first : MysqlPacket}
    {record : Exchange} (hreq : record.req = some req)
    (h : (first :: packets).map MysqlPacket.msg <+: stmt.messages) :
    (∃ record', handleStmtPrepareOKResponse p (first :: packets) record
        = .ok (.needsMoreData, record', p) ∧ (first :: packets).length < stmt.messages.length)
      ∨ ∃ record' p', handleStmtPrepareOKResponse p (first :: packets) record
        = .ok (.success, record', p') ∧ Prepares p p' req.msg stmt := by
  rw [Prepared.messages, List.map_cons, List.cons_prefix_cons] at h
  obtain ⟨hfirst, hpackets⟩ := h
  have hhead := Prepared.headed hfirst
  obtain ⟨hparams, hcolumns⟩ := stmt.few
  have hsum : intOf 32 ((stmt.columns.length : ℤ) + stmt.params.length)
      = stmt.columns.length + stmt.params.length := intOf_of_lt (by omega) (by omega)
  have hlength : stmt.messages.length = stmt.params.length
      + (if stmt.deprecateEof ∨ stmt.params = [] then [] else [stmt.paramsEnd.bytes]).length
      + (definitions stmt.deprecateEof stmt.columns stmt.columnsEnd).length + 1 := by
    rw [Prepared.messages, List.length_cons, List.length_append, definitions, List.length_append,
      List.length_map]
  have hcolumnsLe : stmt.columns.length
      ≤ (definitions stmt.deprecateEof stmt.columns stmt.columnsEnd).length := by
    rw [definitions, List.length_append, List.length_map]
    exact Nat.le_add_right _ _
  unfold handleStmtPrepareOKResponse
  dsimp only
  rw [hhead.ok, if_neg (by decide), hhead.id, hhead.numCol, hhead.numParam, hsum]
  split_ifs with hshort
  · refine Or.inl ⟨record, rfl, ?_⟩
    rw [List.length_cons, hlength]
    omega
  rw [definitions, List.append_assoc] at hpackets
  obtain ⟨paramDefs, resp₁, htakeParams⟩ := @takeDefinitions_front _ _ _ (respOf first.base) hpackets
  rw [if_pos (by omega)] at htakeParams
  -- Behind the parameters.
  have hbehind : (packets.drop stmt.params.length).map MysqlPacket.msg
      <+: (if stmt.deprecateEof ∨ stmt.params = [] then [] else [stmt.paramsEnd.bytes])
        ++ definitions stmt.deprecateEof stmt.columns stmt.columnsEnd := by
    rw [List.map_drop]
    have hdrop := hpackets.drop stmt.params.length
    rwa [List.drop_left' (List.length_map _)] at hdrop
  obtain ⟨resp₂, packets₂, htakeEOF, hpackets₂, hlen₂⟩ :=
    @takeEOF_front _ stmt.params _ resp₁ _ _ defines_definitions hbehind
  obtain ⟨colDefs, resp₃, htakeColumns⟩ := @takeDefinitions_front _ _ _ resp₂ hpackets₂
  rw [Int.toNat_natCast, Int.toNat_natCast, htakeParams, ok_bind]
  dsimp only
  rw [if_neg (by simp), htakeEOF, ok_bind]
  dsimp only
  rw [htakeColumns, ok_bind]
  dsimp only
  by_cases henough : stmt.columns.length ≤ packets₂.length
  · rw [if_pos henough, if_neg (by simp)]
    have hlast : (packets₂.drop stmt.columns.length).map MysqlPacket.msg
        <+: (if stmt.deprecateEof ∨ stmt.columns = [] then [] else [stmt.columnsEnd.bytes]) ++ [] := by
      rw [List.map_drop, List.append_nil]
      have hdrop := hpackets₂.drop stmt.columns.length
      rwa [definitions, List.drop_left' (List.length_map _)] at hdrop
    obtain ⟨resp₄, packets₄, htakeLast, -⟩ :=
      @takeEOF_front _ stmt.columns [] resp₃ _ _ (by rintro _ ⟨⟩) hlast
    rw [htakeLast, ok_bind]
    dsimp only
    rw [hreq]
    exact Or.inr ⟨_, _, rfl, _, rfl, rfl, rfl⟩
  · rw [if_neg henough, if_pos (by simp)]
    refine Or.inl ⟨_, rfl, ?_⟩
    rw [List.length_drop] at hlen₂
    rw [List.length_cons, hlength]
    omega

theorem handleStringRequest_prepare {query : GoString} {req : MysqlPacket}
    (hreq : req.msg = 0x16 :: query) :
    handleStringRequest req = .ok { req with cmd := kStmtPrepare, msg := query } := by
  unfold handleStringRequest
  rw [hreq]
  rfl

/-- What has been answered to a prepare request, in full or in part. -/
theorem processStmtPrepare_prefix {stmt : Prepared} {query : GoString} {p : State}
    {req : MysqlPacket} {record : Exchange} (hreq : req.msg = 0x16 :: query)
    (h : packets.map MysqlPacket.msg <+: stmt.messages) :
    (∃ record', processStmtPrepare p req packets record = .ok (.needsMoreData, record', p)
        ∧ packets.length < stmt.messages.length)
      ∨ ∃ record' p', processStmtPrepare p req packets record = .ok (.success, record', p')
        ∧ Prepares p p' query stmt := by
  unfold processStmtPrepare
  rw [handleStringRequest_prepare hreq, ok_bind]
  rcases packets with _ | ⟨first, packets⟩
  · exact Or.inl ⟨_, rfl, Nat.zero_lt_succ _⟩
  · have hfirst := h
    rw [Prepared.messages, List.map_cons, List.cons_prefix_cons] at hfirst
    dsimp only
    rw [(Prepared.headed hfirst.1).notErr, ok_bind, if_neg (by decide)]
    have hrecord : ({ record with req := some { req with cmd := kStmtPrepare, msg := query } }
        : Exchange).req = some { req with cmd := kStmtPrepare, msg := query } := rfl
    exact handleStmtPrepareOKResponse_prefix hrecord h

/-- An error changes nothing. -/
theorem processStmtPrepare_error {query : GoString} {err : ErrFields} {p : State}
    {req : MysqlPacket} {record : Exchange} (hreq : req.msg = 0x16 :: query)
    (h : packets.map MysqlPacket.msg <+: [err.bytes]) :
    (∃ record', processStmtPrepare p req packets record = .ok (.needsMoreData, record', p)
        ∧ packets = [])
      ∨ ∃ record', processStmtPrepare p req packets record = .ok (.success, record', p) := by
  unfold processStmtPrepare
  rw [handleStringRequest_prepare hreq, ok_bind]
  rcases packets with _ | ⟨first, packets⟩
  · exact Or.inl ⟨_, rfl, rfl⟩
  · rw [List.map_cons, List.cons_prefix_cons] at h
    have hlen : first.msg.length = 1 + (2 + (1 + (5 + err.message.length))) := by
      rw [h.1, ErrFields.bytes, List.length_cons, List.length_append, leBytes_length,
        List.length_cons, List.length_append, err.sqlState.property]
      omega
    have herr : isErrPacket first = .ok true := by
      rw [isErrPacket_cons h.1, decide_eq_true (by omega)]
      rfl
    dsimp only
    rw [herr, ok_bind, if_pos rfl]
    unfold handleErrMessage
    dsimp only
    unfold kMinErrPacketSize
    rw [if_neg (by omega)]
    exact Or.inr ⟨_, rfl⟩

end Preparing

/-! ## One statement -/

/-- A statement on the connection: the packet of the request, and the packets of the response that
have arrived. -/
structure Round where
  statement : Statement
  req : MysqlPacket
  resps : List MysqlPacket

/-- The response has arrived up to some point, later than the request and numbered from one on. -/
structure Round.Started (r : Round) : Prop where
  request : r.req.msg = r.statement.request
  responses : r.resps.map MysqlPacket.msg <+: r.statement.responses
  later : ∀ resp ∈ r.resps, r.req.base.timestampNs < resp.base.timestampNs
  numbered : ∀ k resp, r.resps[k]? = some resp → resp.seqId = (k + 1) % 256

def Round.Complete (r : Round) : Prop := r.resps.length = r.statement.responses.length

/-- The first byte is that of no request to prepare or to close a statement. -/
def Neutral (packet : MysqlPacket) : Prop :=
  ∃ first ∈ packet.msg.head?, first ≠ 0x16 ∧ first ≠ 0x19

/-- The packet in the queue is the request, or what waiting has made of a request to execute. -/
structure Waits (packet : MysqlPacket) (r : Round) : Prop where
  base : packet.base = r.req.base
  content : match r.statement with
    | .execute _ _ => Neutral packet
    | _ => packet = r.req

section Rounds

variable {floatText : GoString → GoString} {m : State} {packet : MysqlPacket} {r : Round}
  {view : List MysqlPacket} {res : Processed} {server : Server}

theorem parseCommand_prepare_iff :
    ∀ byte : UInt8, (parseCommand byte).1 = kStmtPrepare ↔ byte = 0x16 := by
  decide +kernel

theorem parseCommand_close_iff :
    ∀ byte : UInt8, (parseCommand byte).1 = kStmtClose ↔ byte = 0x19 := by
  decide +kernel

/-- **What is neutral changes no statement**, and stays neutral. -/
theorem processPackets_neutral (hneutral : Neutral packet)
    (h : processPackets floatText m packet view = .ok res) :
    res.state = m ∧ res.reqPacket.base = packet.base ∧ Neutral res.reqPacket := by
  obtain ⟨byte, hbyte, hhandled⟩ := processPackets_handled h
  have hne : byte ≠ 0x16 ∧ byte ≠ 0x19 := by
    obtain ⟨first, hfirst, hne⟩ := hneutral
    rw [Option.mem_def] at hbyte hfirst
    rw [hbyte] at hfirst
    rwa [Option.some.inj hfirst]
  rcases hhandled with ⟨hcommand, hcall⟩ | ⟨hcommand, hcall⟩ | ⟨hcommand, hcall⟩
    | ⟨hcommand, hcall⟩ | ⟨hcommand, hcall⟩ | ⟨hcommand, hcall⟩ | ⟨hcommand, hcall⟩
    | ⟨hcommand, hcall⟩ | hcommand
  · exact ⟨rfl, rfl, hneutral⟩
  · exact ⟨rfl, rfl, hneutral⟩
  · exact ⟨rfl, rfl, hneutral⟩
  · exact absurd ((parseCommand_prepare_iff byte).mp hcommand) hne.1
  · exact ⟨rfl, rfl, hneutral⟩
  · refine ⟨rfl, ?_⟩
    rcases processStmtExecute_packet hcall with ⟨-, hsame⟩ | ⟨first, rest, hover, hfirst⟩
    · rw [hsame]
      exact ⟨rfl, hneutral⟩
    · rw [hover]
      refine ⟨rfl, first, rfl, ?_⟩
      rcases hfirst with rfl | rfl
      · decide
      · decide
  · exact absurd ((parseCommand_close_iff byte).mp hcommand) hne.2
  · exact ⟨rfl, rfl, hneutral⟩
  · exact ⟨rfl, rfl, hneutral⟩

/-- A request to prepare a statement gets to its handler. -/
theorem processPackets_prepare {query : GoString} {state : ParseState} {record : Exchange}
    {p' : State} (hreq : packet.msg = 0x16 :: query)
    (hcall : processStmtPrepare m packet view Exchange.empty = .ok (state, record, p')) :
    processPackets floatText m packet view = .ok ⟨state, record, p', packet⟩ := by
  unfold processPackets
  rw [hreq]
  change (processStmtPrepare m packet view Exchange.empty >>= _) = _
  rw [hcall]
  rfl

theorem processPackets_close {id : BitVec 32} (hreq : packet.msg = 0x19 :: leBytes 4 id.toNat) :
    ∃ record packet', processPackets floatText m packet []
      = .ok ⟨.success, record, { m with preparedStatements := m.preparedStatements.remove 0 },
        packet'⟩ := by
  have hlen : packet.msg.length = 5 := by
    rw [hreq]
    rfl
  have hcall : ∃ record packet', processStmtClose m packet [] Exchange.empty
      = (.success, record, { m with preparedStatements := m.preparedStatements.remove 0 },
        packet') := by
    unfold processStmtClose handleStmtCloseRequest
    rw [if_neg (by rw [hlen]; decide)]
    exact ⟨_, _, rfl⟩
  obtain ⟨record, packet', hcall⟩ := hcall
  refine ⟨record, packet', ?_⟩
  unfold processPackets
  rw [hreq]
  exact congrArg (fun x : ParseState × Exchange × State × MysqlPacket =>
    (Except.ok ⟨x.1, x.2.1, x.2.2.1, x.2.2.2⟩ : Except Panic Processed)) hcall

/-- A statement on the connection, in the order of time: its request is not before, and its response is
over when the next request is made. -/
structure Round.Before (r r' : Round) : Prop where
  req : r.req.base.timestampNs ≤ r'.req.base.timestampNs
  resps : ∀ resp ∈ r.resps, resp.base.timestampNs < r'.req.base.timestampNs

theorem Tracks.prepares (h : Tracks m.preparedStatements server) {p' : State} {query : GoString}
    {stmt : Prepared} (hp : Prepares m p' query stmt) :
    Tracks p'.preparedStatements (server.serve (.prepare query stmt)) := by
  obtain ⟨statement, hput, hquery, hparams⟩ := hp
  rw [hput, Server.serve, ← hquery, ← hparams]
  exact h.put

/-- **A statement that is handled.** Waiting leaves the table, and when it is done, or its response
complete, the table has followed the server. -/
theorem processPackets_serves (hr : r.Started) (hwaits : Waits packet r)
    (h : processPackets floatText m packet r.resps = .ok res) :
    (res.parseState = .needsMoreData → res.state.preparedStatements = m.preparedStatements
        ∧ Waits res.reqPacket r)
      ∧ (res.parseState ≠ .needsMoreData ∨ r.Complete → Tracks m.preparedStatements server →
        server.Harmless r.statement →
          Tracks res.state.preparedStatements (server.serve r.statement)) := by
  have hrequest := hr.request
  have hresponses := hr.responses
  obtain ⟨hbase, hcontent⟩ := hwaits
  unfold Round.Complete
  rcases hstatement : r.statement with ⟨query, stmt⟩ | ⟨query, err⟩ | ⟨args, answer⟩ | id
  · -- prepared, or still to come
    rw [hstatement] at hrequest hresponses hcontent
    have hreq : packet.msg = 0x16 :: query := by
      rw [hcontent]
      exact hrequest
    rcases processStmtPrepare_prefix hreq hresponses with ⟨record, hcall, hshort⟩
      | ⟨record, p', hcall, hprepares⟩
    · rw [processPackets_prepare hreq hcall] at h
      cases h
      refine ⟨fun _ => ⟨rfl, hbase, ?_⟩, ?_⟩
      · rw [hstatement]
        exact hcontent
      · rintro (hne | hcomplete)
        · exact absurd rfl hne
        · exact absurd hcomplete hshort.ne
    · rw [processPackets_prepare hreq hcall] at h
      cases h
      exact ⟨fun hneeds => (by cases hneeds), fun _ htracks _ => htracks.prepares hprepares⟩
  · rw [hstatement] at hrequest hresponses hcontent
    have hreq : packet.msg = 0x16 :: query := by
      rw [hcontent]
      exact hrequest
    rcases processStmtPrepare_error hreq hresponses with ⟨record, hcall, -⟩ | ⟨record, hcall⟩
    · rw [processPackets_prepare hreq hcall] at h
      cases h
      refine ⟨fun _ => ⟨rfl, hbase, ?_⟩, fun _ htracks _ => htracks⟩
      rw [hstatement]
      exact hcontent
    · rw [processPackets_prepare hreq hcall] at h
      cases h
      exact ⟨fun hneeds => (by cases hneeds), fun _ htracks _ => htracks⟩
  · rw [hstatement] at hcontent
    obtain ⟨hstate, hbase', hneutral⟩ := processPackets_neutral hcontent h
    rw [hstate]
    refine ⟨fun _ => ⟨rfl, hbase'.trans hbase, ?_⟩, fun _ htracks _ => htracks⟩
    rw [hstatement]
    exact hneutral
  · rw [hstatement] at hrequest hresponses hcontent
    have hreq : packet.msg = 0x19 :: leBytes 4 id.toNat := by
      rw [hcontent]
      exact hrequest
    have hnone : r.resps = [] := List.map_eq_nil_iff.mp (List.prefix_nil.mp hresponses)
    obtain ⟨record, packet', hcall⟩ := @processPackets_close floatText m packet id hreq
    rw [hnone, hcall] at h
    cases h
    refine ⟨fun hneeds => (by cases hneeds), fun _ htracks hharmless => ?_⟩
    exact (close_tracks_iff htracks id).mpr hharmless

end Rounds

/-! ## Queues -/

section Queues

variable {floatText : GoString → GoString} {packet : MysqlPacket} {next : Option MysqlPacket}
  {reqStream respStream resps rest strays : List MysqlPacket} {rounds : List Round}

/-- What is older than the request goes, and what is not stays. -/
theorem syncRespQueue_strays
    (hstrays : ∀ d ∈ strays, d.base.timestampNs < packet.base.timestampNs)
    (hrest : ∀ resp ∈ rest, packet.base.timestampNs < resp.base.timestampNs) :
    syncRespQueue packet (strays ++ rest) = rest := by
  unfold syncRespQueue
  induction strays with
  | nil =>
      rcases rest with _ | ⟨resp, rest⟩
      · rfl
      · have hlate := hrest resp List.mem_cons_self
        rw [List.nil_append, List.dropWhile_cons_of_neg (by simpa using hlate.le)]
  | cons d strays ih =>
      have hold := hstrays d List.mem_cons_self
      rw [List.cons_append, List.dropWhile_cons_of_pos (by simpa using hold)]
      exact ih fun d' hd' => hstrays d' (List.mem_cons_of_mem _ hd')

/-- The packets up to the next request are the view, if they are numbered. -/
theorem respViewLoop_resps {count : ℕ}
    (hnumbered : ∀ k resp, resps[k]? = some resp → resp.seqId = (count + k + 1) % 256)
    (hnext : ∀ n ∈ next, ∀ resp ∈ resps, resp.base.timestampNs ≤ n.base.timestampNs)
    (hrest : ∀ resp ∈ rest, ∃ n ∈ next, n.base.timestampNs < resp.base.timestampNs) :
    respViewLoop next count (resps ++ rest) = resps := by
  induction resps generalizing count with
  | nil =>
      rcases rest with _ | ⟨resp, rest⟩
      · rfl
      · obtain ⟨n, hn, hlate⟩ := hrest resp List.mem_cons_self
        rw [List.nil_append, respViewLoop, Option.mem_def.mp hn,
          if_pos (by simpa using hlate)]
  | cons resp resps ih =>
      have hearly : ¬ next.any
          (fun n => decide (resp.base.timestampNs > n.base.timestampNs)) = true := by
        rcases next with _ | n
        · simp
        · simpa using hnext n rfl resp List.mem_cons_self
      rw [List.cons_append, respViewLoop, if_neg hearly,
        if_neg (not_not.mpr (hnumbered 0 resp rfl)), ih]
      · intro k resp' hk
        rw [hnumbered (k + 1) resp' (by simpa using hk)]
        congr 1
        omega
      · exact fun n hn resp' hresp' => hnext n hn resp' (List.mem_cons_of_mem _ hresp')

/-- The responses that have arrived. -/
def arrived (rounds : List Round) : List MysqlPacket := rounds.flatMap Round.resps

/-- The statements in the order of the connection: all but the last are over. -/
structure History (rounds : List Round) : Prop where
  started : ∀ r ∈ rounds, r.Started
  complete : ∀ r ∈ rounds.dropLast, r.Complete
  order : rounds.Pairwise Round.Before

theorem History.tail {r : Round} (h : History (r :: rounds)) : History rounds := by
  refine ⟨fun r' hr' => h.started r' (List.mem_cons_of_mem _ hr'), fun r' hr' => ?_,
    (List.pairwise_cons.mp h.order).2⟩
  rcases rounds with _ | ⟨r₁, rounds⟩
  · cases hr'
  · exact h.complete r' (by rw [List.dropLast_cons_cons]; exact List.mem_cons_of_mem _ hr')

/-- What has arrived is later than the first request. -/
theorem History.later {r : Round} (h : History (r :: rounds)) :
    ∀ resp ∈ arrived (r :: rounds), r.req.base.timestampNs < resp.base.timestampNs := by
  intro resp hresp
  obtain ⟨r', hr', hmem⟩ := List.mem_flatMap.mp hresp
  have hlater := (h.started r' hr').later resp hmem
  rcases List.mem_cons.mp hr' with rfl | hr'
  · exact hlater
  · exact lt_of_le_of_lt ((List.pairwise_cons.mp h.order).1 r' hr').req hlater

/-- **The view of a request is what has arrived of its response.** -/
theorem getRespView_history {r : Round} (h : History (r :: rounds))
    (hqueue : List.Forall₂ Waits (packet :: reqStream) (r :: rounds)) :
    getRespView (packet :: reqStream) (arrived (r :: rounds)) = r.resps := by
  have hsplit : arrived (r :: rounds) = r.resps ++ arrived rounds := rfl
  have hbefore := (List.pairwise_cons.mp h.order).1
  rw [hsplit, getRespView, List.getElem?_cons_succ]
  refine respViewLoop_resps ?_ ?_ ?_
  · intro k resp hk
    rw [(h.started r List.mem_cons_self).numbered k resp hk, Nat.zero_add]
  · intro n hn resp hresp
    rcases (List.forall₂_cons.mp hqueue).2 with _ | ⟨hwaits, -⟩
    · cases hn
    · cases hn
      rw [hwaits.base]
      exact ((hbefore _ List.mem_cons_self).resps resp hresp).le
  · intro resp hresp
    rcases (List.forall₂_cons.mp hqueue).2 with _ | ⟨hwaits, -⟩
    · cases hresp
    · refine ⟨_, rfl, ?_⟩
      rw [hwaits.base]
      exact h.tail.later resp hresp

/-- The server after some statements. -/
def Server.serveAll (server : Server) (statements : List Statement) : Server :=
  statements.foldl Server.serve server

/-- Each statement does to the table what it does to the server, where it is served. -/
def Server.HarmlessAll : Server → List Statement → Prop
  | _, [] => True
  | server, statement :: statements =>
      server.Harmless statement ∧ (server.serve statement).HarmlessAll statements

theorem Server.harmlessAll_append {server : Server} {front back : List Statement} :
    server.HarmlessAll (front ++ back)
      ↔ server.HarmlessAll front ∧ (server.serveAll front).HarmlessAll back := by
  induction front generalizing server with
  | nil => exact (iff_of_eq (true_and _)).symm
  | cons statement front ih =>
      rw [List.cons_append, HarmlessAll, HarmlessAll, ih, and_assoc]
      rfl

/-- What `Match` leaves of the queues: the requests that still wait, and behind some strays what has
arrived for them. The table has followed the server through the statements that are done. -/
structure Left (server : Server) (rounds : List Round) (strays : List MysqlPacket)
    (table : SortedMap ℤ PreparedStatement) (reqStream respStream : List MysqlPacket)
    (done left : List Round) (strays' : List MysqlPacket) : Prop where
  split : rounds = done ++ left
  waits : List.Forall₂ Waits reqStream left
  resps : respStream = strays' ++ arrived left
  strays : ∀ d ∈ strays', d ∈ strays
  tracks : Tracks table (server.serveAll (done.map Round.statement))

/-- **The loop of `Match`.** The induction is on the statements that wait. -/
theorem matchLoop_left {m m' : State} {server : Server} {records records' : List (Record Message)}
    {reqStream' respStream' : List MysqlPacket} (hhistory : History rounds)
    (hqueue : List.Forall₂ Waits reqStream rounds)
    (hstrays : ∀ d ∈ strays, ∀ r ∈ rounds, d.base.timestampNs < r.req.base.timestampNs)
    (hharmless : server.HarmlessAll (rounds.map Round.statement))
    (htracks : Tracks m.preparedStatements server)
    (h : matchLoop floatText m records reqStream (strays ++ arrived rounds)
      = .ok (m', records', reqStream', respStream')) : ∃ done left strays',
        Left server rounds strays m'.preparedStatements reqStream' respStream' done left strays' := by
  induction rounds generalizing m server records reqStream strays with
  | nil =>
      cases hqueue
      cases h
      exact ⟨[], [], strays, rfl, .nil, rfl, fun d hd => hd, htracks⟩
  | cons r rounds ih =>
      rcases hqueue with _ | ⟨hwaits, hqueue⟩
      rename_i packet reqStream
      have hview := getRespView_history hhistory (.cons hwaits hqueue)
      have hsync : syncRespQueue packet (strays ++ arrived (r :: rounds)) = arrived (r :: rounds) := by
        refine syncRespQueue_strays (fun d hd => ?_) (fun resp hresp => ?_)
        · rw [hwaits.base]
          exact hstrays d hd r List.mem_cons_self
        · rw [hwaits.base]
          exact hhistory.later resp hresp
      rw [matchLoop] at h
      obtain ⟨byte, -, h⟩ := bind_eq_ok.mp h
      dsimp only at h
      rw [hsync, hview] at h
      obtain ⟨res, hprocess, h⟩ := bind_eq_ok.mp h
      obtain ⟨hwaiting, hserves⟩ :=
        @processPackets_serves _ _ _ _ _ server (hhistory.started r List.mem_cons_self) hwaits hprocess
      obtain ⟨hfirst, hothers⟩ := hharmless
      generalize hm₁ : (if (!res.state.active && decide (res.parseState = ParseState.success)
        && confirmingCommands.contains (parseCommand byte).1) = true then
          ({ res.state with active := true } : State) else res.state) = m₁ at h
      have htable : m₁.preparedStatements = res.state.preparedStatements := by
        rw [← hm₁]
        split_ifs
        · rfl
        · rfl
      by_cases hlast : res.parseState = .needsMoreData ∧ reqStream = []
          ∧ r.resps.length = (arrived (r :: rounds)).length
      · -- the last request waits, and nothing is done
        rw [if_pos hlast] at h
        cases h
        obtain ⟨hsame, hwaits'⟩ := hwaiting hlast.1
        refine ⟨[], r :: rounds, [], rfl, .cons hwaits' hqueue, rfl, by simp, ?_⟩
        rw [htable, hsame]
        exact htracks
      · rw [if_neg hlast] at h
        have hdone : res.parseState ≠ .needsMoreData ∨ r.Complete := by
          rcases hrounds : rounds with _ | ⟨r', rounds'⟩
          · left
            intro hneeds
            rw [hrounds] at hqueue hlast
            cases hqueue
            exact hlast ⟨hneeds, rfl, by simp [arrived]⟩
          · right
            refine hhistory.complete r ?_
            rw [hrounds, List.dropLast_cons_cons]
            exact List.mem_cons_self
        have htracks₁ := hserves hdone htracks hfirst
        rw [← htable] at htracks₁
        have hdrop : (arrived (r :: rounds)).drop r.resps.length = [] ++ arrived rounds :=
          List.drop_left
        rw [hdrop] at h
        obtain ⟨done, left, strays', hleft⟩ :=
          ih hhistory.tail hqueue (by simp) hothers htracks₁ h
        refine ⟨r :: done, left, strays', ?_, hleft.waits, hleft.resps, ?_, hleft.tracks⟩
        · rw [hleft.split, List.cons_append]
        · intro d hd
          cases hleft.strays d hd

end Queues

/-! ## Runs -/

/-- The packets of a connection in the order of the wire. -/
def wire (rounds : List Round) : List Input :=
  rounds.flatMap fun r => .request r.req :: r.resps.map .response

def Input.isPacket : Input → Bool
  | .request _ => true
  | .response _ => true
  | .matchStreams => false

/-- The packets among the inputs of a session. -/
def sent (inputs : List Input) : List Input := inputs.filter Input.isPacket

/-- The statements that are done: those whose requests wait no longer. -/
def handled (rounds : List Round) (s : Session) : List Statement :=
  (rounds.take (rounds.length - s.reqStream.length)).map Round.statement

/-- The server of a new connection holds nothing. -/
def Server.new : Server := fun _ => none

section Sessions

variable {floatText : GoString → GoString} {rounds : List Round} {r : Round} {s s' : Session}

theorem wire_append (rounds rounds' : List Round) :
    wire (rounds ++ rounds') = wire rounds ++ wire rounds' := List.flatMap_append

theorem History.init (h : History (rounds ++ [r])) : History rounds := by
  refine ⟨fun r' hr' => h.started r' (List.mem_append_left _ hr'), fun r' hr' => ?_,
    (List.pairwise_append.mp h.order).1⟩
  refine h.complete r' ?_
  rw [List.dropLast_concat]
  exact List.dropLast_subset _ hr'

/-- One packet less has arrived of the last response. -/
theorem History.shorter {resps : List MysqlPacket} {resp : MysqlPacket}
    (h : History (rounds ++ [r])) (hresps : r.resps = resps ++ [resp]) :
    History (rounds ++ [{ r with resps := resps }]) := by
  have hlast := h.started r (by simp)
  refine ⟨fun r' hr' => ?_, fun r' hr' => ?_, ?_⟩
  · rcases List.mem_append.mp hr' with hr' | hr'
    · exact h.started r' (List.mem_append_left _ hr')
    · rw [List.mem_singleton.mp hr']
      have hfront : resps <+: r.resps := by
        rw [hresps]
        exact List.prefix_append _ _
      refine ⟨hlast.request, (hfront.map _).trans hlast.responses,
        fun q hq => hlast.later q (hfront.subset hq), fun k q hq => ?_⟩
      have hk := (List.getElem?_eq_some_iff.mp hq).1
      refine hlast.numbered k q ?_
      rw [hresps, List.getElem?_append_left hk]
      exact hq
  · rw [List.dropLast_concat] at hr'
    exact h.complete r' (by rwa [List.dropLast_concat])
  · obtain ⟨horder, -, hbefore⟩ := List.pairwise_append.mp h.order
    refine List.pairwise_append.mpr ⟨horder, List.pairwise_singleton _ _, fun r₁ hr₁ r₂ hr₂ => ?_⟩
    rw [List.mem_singleton.mp hr₂]
    have hb := hbefore r₁ hr₁ r (List.mem_singleton.mpr rfl)
    exact ⟨hb.req, hb.resps⟩

/-- What a session is while the statements of a connection go by: those that are done have made the
table, and of the others the packets are in the queues. -/
structure Session.Inv (rounds : List Round) (s : Session) (done left : List Round)
    (strays : List MysqlPacket) : Prop where
  split : rounds = done ++ left
  waits : List.Forall₂ Waits s.reqStream left
  resps : s.respStream = strays ++ arrived left
  strays : ∀ d ∈ strays, ∃ r ∈ done, d ∈ r.resps
  tracks : Tracks s.parser.preparedStatements (Server.new.serveAll (done.map Round.statement))

theorem Session.inv_new : Session.Inv [] Session.new [] [] [] :=
  ⟨rfl, .nil, rfl, by simp, tracks_empty⟩

/-- A request that arrives waits. -/
theorem Session.Inv.requested {done left : List Round} {strays : List MysqlPacket}
    (h : Session.Inv rounds s done left strays) (hstarted : r.Started) (hnone : r.resps = []) :
    Session.Inv (rounds ++ [r]) { s with reqStream := s.reqStream ++ [r.req] } done (left ++ [r])
      strays := by
  have hwaits : Waits r.req r := by
    refine ⟨rfl, ?_⟩
    have hrequest := hstarted.request
    rcases hstatement : r.statement with ⟨query, stmt⟩ | ⟨query, err⟩ | ⟨args, answer⟩ | id
    · rfl
    · rfl
    · rw [hstatement] at hrequest
      exact ⟨0x17, by rw [hrequest]; rfl, by decide⟩
    · rfl
  refine ⟨?_, List.rel_append h.waits (.cons hwaits .nil), ?_, h.strays, h.tracks⟩
  · rw [h.split, List.append_assoc]
  · have harrived : arrived (left ++ [r]) = arrived left := by
      rw [arrived, List.flatMap_append, List.flatMap_singleton, hnone, List.append_nil]
      rfl
    rw [harrived]
    exact h.resps

/-- What waits does so whatever has arrived for it. -/
theorem waits_last {reqStream resps : List MysqlPacket} {left : List Round}
    (h : List.Forall₂ Waits reqStream (left ++ [{ r with resps := resps }])) :
    List.Forall₂ Waits reqStream (left ++ [r]) := by
  induction left generalizing reqStream with
  | nil =>
      rcases h with _ | ⟨hwaits, hnil⟩
      exact .cons ⟨hwaits.base, hwaits.content⟩ hnil
  | cons r' left ih =>
      rcases h with _ | ⟨hwaits, hqueue⟩
      exact .cons hwaits (ih hqueue)

/-- A response that arrives belongs to the last request, whether that waits or is done. -/
theorem Session.Inv.responded {done left : List Round} {strays resps : List MysqlPacket}
    {resp : MysqlPacket} (h : Session.Inv (rounds ++ [{ r with resps := resps }]) s done left strays)
    (hresps : r.resps = resps ++ [resp]) : ∃ done' left' strays', Session.Inv (rounds ++ [r])
      { s with respStream := s.respStream ++ [resp] } done' left' strays' := by
  have hsplit := h.split
  rcases List.eq_nil_or_concat left with rfl | ⟨left, last, rfl⟩
  · -- it is done, and what still arrives is in the way
    rw [List.append_nil] at hsplit
    have hdone : done.map Round.statement = (rounds ++ [r]).map Round.statement := by
      rw [← hsplit, List.map_append, List.map_append]
      rfl
    refine ⟨rounds ++ [r], [], strays ++ [resp], by simp, h.waits, ?_, ?_, ?_⟩
    · have hold := h.resps
      dsimp only
      rw [hold, List.append_assoc, List.append_assoc]
      rfl
    · intro d hd
      rcases List.mem_append.mp hd with hd | hd
      · obtain ⟨r', hr', hmem⟩ := h.strays d hd
        rw [← hsplit] at hr'
        rcases List.mem_append.mp hr' with hr' | hr'
        · exact ⟨r', List.mem_append_left _ hr', hmem⟩
        · rw [List.mem_singleton.mp hr'] at hmem
          refine ⟨r, by simp, ?_⟩
          rw [hresps]
          exact List.mem_append_left _ hmem
      · rw [List.mem_singleton.mp hd]
        exact ⟨r, by simp, by simp [hresps]⟩
    · rw [← hdone]
      exact h.tracks
  · rw [List.concat_eq_append, ← List.append_assoc] at hsplit
    obtain ⟨rfl, hlast⟩ := List.append_inj' hsplit rfl
    obtain rfl : last = { r with resps := resps } := (List.cons.inj hlast).1.symm
    have hwaits := h.waits
    rw [List.concat_eq_append] at hwaits
    refine ⟨done, left ++ [r], strays, by rw [List.append_assoc], waits_last hwaits, ?_, h.strays,
      h.tracks⟩
    · have hold := h.resps
      dsimp only
      rw [hold, List.concat_eq_append, arrived, arrived, List.flatMap_append, List.flatMap_append,
        List.flatMap_singleton, List.flatMap_singleton, hresps]
      simp only [List.append_assoc]

/-- What `Match` leaves goes on from there. -/
theorem Session.Inv.matched {done left : List Round} {strays : List MysqlPacket}
    (h : Session.Inv rounds s done left strays) (hhistory : History rounds)
    (hharmless : Server.new.HarmlessAll (rounds.map Round.statement))
    (hstep : s.step floatText .matchStreams = .ok s') :
    ∃ done' left' strays', Session.Inv rounds s' done' left' strays' := by
  obtain ⟨⟨m', records, reqStream', respStream'⟩, hmatch, hstep⟩ := bind_eq_ok.mp hstep
  cases hstep
  obtain ⟨⟨m₁, records₁, reqStream₁, respStream₁⟩, hloop, hmatch⟩ := bind_eq_ok.mp hmatch
  cases hmatch
  rw [h.split] at hhistory hharmless
  rw [List.map_append, Server.harmlessAll_append] at hharmless
  obtain ⟨-, hbehind, hbefore⟩ := List.pairwise_append.mp hhistory.order
  have hleftHistory : History left := by
    refine ⟨fun r hr => hhistory.started r (List.mem_append_right _ hr), fun r hr => ?_, hbehind⟩
    refine hhistory.complete r ?_
    rcases left with _ | ⟨r₀, left⟩
    · cases hr
    · rw [List.dropLast_append_cons]
      exact List.mem_append_right _ hr
  have hstrays : ∀ d ∈ strays, ∀ r ∈ left, d.base.timestampNs < r.req.base.timestampNs := by
    intro d hd r hr
    obtain ⟨r', hr', hmem⟩ := h.strays d hd
    exact (hbefore r' hr' r hr).resps d hmem
  rw [h.resps] at hloop
  obtain ⟨done', left', strays', hleft⟩ :=
    matchLoop_left hleftHistory h.waits hstrays hharmless.2 h.tracks hloop
  refine ⟨done ++ done', left', strays', ?_, hleft.waits, hleft.resps, ?_, ?_⟩
  · rw [h.split, hleft.split, List.append_assoc]
  · intro d hd
    obtain ⟨r, hr, hmem⟩ := h.strays d (hleft.strays d hd)
    exact ⟨r, List.mem_append_left _ hr, hmem⟩
  · have htracks := hleft.tracks
    rw [List.map_append, Server.serveAll, List.foldl_append]
    exact htracks

/-- The last packet on the wire is the request of a statement, or belongs to its response. -/
theorem wire_snoc {packets : List Input} {input : Input}
    (h : packets ++ [input] = wire rounds) : ∃ front r, rounds = front ++ [r]
      ∧ (r.resps = [] ∧ input = .request r.req ∧ packets = wire front
        ∨ ∃ resps resp, r.resps = resps ++ [resp] ∧ input = .response resp
          ∧ packets = wire (front ++ [{ r with resps := resps }])) := by
  rcases List.eq_nil_or_concat rounds with rfl | ⟨front, r, rfl⟩
  · simp [wire] at h
  rw [List.concat_eq_append] at h ⊢
  refine ⟨front, r, rfl, ?_⟩
  rw [wire_append] at h
  rcases List.eq_nil_or_concat r.resps with hnone | ⟨resps, resp, hresps⟩
  · left
    have hlast : wire [r] = [.request r.req] := by
      rw [wire, List.flatMap_singleton, hnone]
      rfl
    rw [hlast] at h
    obtain ⟨hpackets, hinput⟩ := List.append_inj' h rfl
    exact ⟨hnone, (List.cons.inj hinput).1, hpackets⟩
  · right
    rw [List.concat_eq_append] at hresps
    have hlast : wire [r] = wire [{ r with resps := resps }] ++ [.response resp] := by
      rw [wire, wire, List.flatMap_singleton, List.flatMap_singleton, hresps, List.map_append]
      rfl
    rw [hlast, ← List.append_assoc] at h
    obtain ⟨hpackets, hinput⟩ := List.append_inj' h rfl
    refine ⟨resps, resp, hresps, (List.cons.inj hinput).1, ?_⟩
    rw [hpackets, wire_append]

theorem sent_snoc (inputs : List Input) (input : Input) :
    sent (inputs ++ [input]) = if input.isPacket then sent inputs ++ [input] else sent inputs := by
  unfold sent
  rw [List.filter_append, List.filter_singleton]
  rcases input.isPacket with _ | _
  · exact List.append_nil _
  · rfl

theorem run_inv {inputs : List Input}
    (hrun : Run (Session.step floatText) (fun _ _ => True) Session.new inputs s) :
    ∀ rounds, History rounds → Server.new.HarmlessAll (rounds.map Round.statement) →
      sent inputs = wire rounds → ∃ done left strays, Session.Inv rounds s done left strays := by
  induction hrun with
  | nil =>
      intro rounds _ _ hsent
      rcases rounds with _ | ⟨r, rounds⟩
      · exact ⟨[], [], [], Session.inv_new⟩
      · cases hsent
  | @snoc inputs s s' input _ _ hstep ih =>
      intro rounds hhistory hharmless hsent
      rw [sent_snoc] at hsent
      rcases input with packet | packet | _
      · cases hstep
        change sent inputs ++ [.request packet] = wire rounds at hsent
        obtain ⟨front, r, rfl, ⟨hnone, hinput, hfront⟩ | ⟨_, _, _, hinput, _⟩⟩ := wire_snoc hsent
        · cases hinput
          rw [List.map_append, Server.harmlessAll_append] at hharmless
          obtain ⟨done, left, strays, hinv⟩ := ih front hhistory.init hharmless.1 hfront
          exact ⟨done, left ++ [r], strays,
            hinv.requested (hhistory.started r (by simp)) hnone⟩
        · cases hinput
      · cases hstep
        change sent inputs ++ [.response packet] = wire rounds at hsent
        obtain ⟨front, r, rfl, ⟨_, hinput, _⟩ | ⟨resps, resp, hresps, hinput, hfront⟩⟩ :=
          wire_snoc hsent
        · cases hinput
        · cases hinput
          rw [List.map_append] at hharmless
          obtain ⟨done, left, strays, hinv⟩ := ih (front ++ [{ r with resps := resps }])
            (hhistory.shorter hresps) (by rw [List.map_append]; exact hharmless) hfront
          exact hinv.responded hresps
      · rw [if_neg (by decide)] at hsent
        obtain ⟨done, left, strays, hinv⟩ := ih rounds hhistory hharmless hsent
        exact hinv.matched hhistory hharmless hstep

/-- **The table of the parser tracks the server** in every state of every run over a connection, as
far as the statements are done, if each one that is closed is closed harmlessly. -/
theorem run_tracks {inputs : List Input} (hhistory : History rounds)
    (hharmless : Server.new.HarmlessAll (rounds.map Round.statement))
    (hrun : Run (Session.step floatText) (fun _ _ => True) Session.new inputs s)
    (hsent : sent inputs = wire rounds) :
    Tracks s.parser.preparedStatements (Server.new.serveAll (handled rounds s)) := by
  obtain ⟨done, left, strays, hinv⟩ := run_inv hrun rounds hhistory hharmless hsent
  have hlen := hinv.waits.length_eq
  have hhandled : handled rounds s = done.map Round.statement := by
    rw [handled, hlen, hinv.split, List.length_append, Nat.add_sub_cancel, List.take_left]
  rw [hhandled]
  exact hinv.tracks

end Sessions

/-! ## A statement that is closed -/

/-- A packet of a response, with its place in it. -/
def responseAt (time : ℕ) (x : GoString × ℕ) : MysqlPacket :=
  { base := ⟨time, 0, 0⟩, seqId := (x.2 + 1) % 256, msg := x.1, cmd := 0, isReq := false }

/-- A statement that is asked at a time and answered just afterwards. -/
def roundAt (time : ℕ) (statement : Statement) : Round :=
  { statement := statement, req := requestAt time statement.request
    resps := statement.responses.zipIdx.map (responseAt (time + 1)) }

theorem roundAt_started (time : ℕ) (statement : Statement) : (roundAt time statement).Started := by
  refine ⟨rfl, ?_, ?_, ?_⟩
  · have hmsgs : (roundAt time statement).resps.map MysqlPacket.msg = statement.responses := by
      change (statement.responses.zipIdx.map (responseAt (time + 1))).map MysqlPacket.msg = _
      rw [List.map_map]
      exact List.zipIdx_map_fst 0 _
    rw [hmsgs]
    exact List.prefix_refl _
  · intro resp hresp
    obtain ⟨x, -, rfl⟩ := List.mem_map.mp hresp
    exact Nat.lt_succ_self time
  · intro k resp hk
    change (statement.responses.zipIdx.map (responseAt (time + 1)))[k]? = some resp at hk
    rw [List.getElem?_map] at hk
    obtain ⟨x, hx, rfl⟩ := Option.map_eq_some_iff.mp hk
    rw [List.getElem?_zipIdx] at hx
    obtain ⟨msg, -, rfl⟩ := Option.map_eq_some_iff.mp hx
    change (0 + k + 1) % 256 = (k + 1) % 256
    rw [Nat.zero_add]

theorem roundAt_complete (time : ℕ) (statement : Statement) :
    (roundAt time statement).Complete := by
  change (statement.responses.zipIdx.map (responseAt (time + 1))).length = _
  rw [List.length_map, List.length_zipIdx]
  rfl

theorem roundAt_before {time time' : ℕ} {statement statement' : Statement} (h : time + 1 < time') :
    (roundAt time statement).Before (roundAt time' statement') := by
  refine ⟨show time ≤ time' by omega, fun resp hresp => ?_⟩
  obtain ⟨x, -, rfl⟩ := List.mem_map.mp hresp
  exact h

/-- `SELECT 1` under the id 1, without parameters and columns. -/
def selectOne : Statement :=
  .prepare (text "SELECT 1")
    { id := 1, params := [], columns := [], few := by decide, warnings := 0, deprecateEof := true
      paramsEnd := ⟨0, 0⟩, columnsEnd := ⟨0, 0⟩ }

/-- Statement 1 is prepared, and statement 7, which is not there, is closed. -/
def harmlessRounds : List Round := [roundAt 1 selectOne, roundAt 5 (.close 7)]

/-- Statement 1 is prepared and closed. -/
def closedRounds : List Round := [roundAt 1 selectOne, roundAt 5 (.close 1)]

theorem history_pair (statement statement' : Statement) :
    History [roundAt 1 statement, roundAt 5 statement'] := by
  refine ⟨fun r hr => ?_, fun r hr => ?_, ?_⟩
  · rcases List.mem_cons.mp hr with rfl | hr
    · exact roundAt_started 1 statement
    · rw [List.mem_singleton.mp hr]
      exact roundAt_started 5 statement'
  · rw [List.mem_singleton.mp hr]
    exact roundAt_complete 1 statement
  · exact List.pairwise_pair.mpr (roundAt_before (by decide))

theorem run_tracks_harmless : ∃ s, Run (Session.step id) (fun _ _ => True) Session.new
    (wire harmlessRounds ++ [.matchStreams]) s
      ∧ Tracks s.parser.preparedStatements (Server.new.serveAll (handled harmlessRounds s)) := by
  have hsome : (exec (Session.step id) (fun _ _ => True) Session.new
      (wire harmlessRounds ++ [.matchStreams])).isSome := by decide +kernel
  obtain ⟨s, hexec⟩ := Option.isSome_iff_exists.mp hsome
  have hrun := Run.of_exec hexec
  have hclose : (Server.new.serve selectOne).HarmlessClose 7 := Or.inr ⟨by decide, by decide⟩
  exact ⟨s, hrun, run_tracks (history_pair _ _) ⟨trivial, hclose, trivial⟩ hrun rfl⟩

/-- Behind its close the statement is still in the table. -/
theorem closed_statement_stays :
    ¬ ∀ floatText rounds inputs s, History rounds →
      Run (Session.step floatText) (fun _ _ => True) Session.new inputs s →
      sent inputs = wire rounds →
        Tracks s.parser.preparedStatements (Server.new.serveAll (handled rounds s)) := by
  intro h
  have htable : (exec (Session.step id) (fun _ _ => True) Session.new
      (wire closedRounds ++ [.matchStreams])).map
        (fun s => ((s.parser.preparedStatements.get? 1).isSome, s.reqStream.length))
        = some (true, 0) := by decide +kernel
  obtain ⟨s, hexec, hleft⟩ := Option.map_eq_some_iff.mp htable
  obtain ⟨hstays, hempty⟩ := Prod.mk.inj hleft
  have htracks := h id closedRounds _ s (history_pair _ _) (Run.of_exec hexec) rfl
  have hheld := htracks.held 1
  rw [handled, hempty] at hheld
  -- the server has forgotten it
  have hnone : Server.new.serveAll ((closedRounds.take (closedRounds.length - 0)).map
      Round.statement) 1 = none := by decide +kernel
  rw [hnone, Option.map_eq_none_iff] at hheld
  have hsame : (1 : BitVec 32).toInt = 1 := by decide
  rw [hsame] at hheld
  rw [hheld] at hstays
  cases hstays

end Kyanos.Mysql
