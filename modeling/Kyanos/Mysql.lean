/-
`agent/protocol/mysql/mysql.go` and `handler.go`: how the MySQL parser cuts packets out of a
stream, and how it pairs a request with the packets that answer it.

A handler fills in a record and says how far it got. The record is passed through; requests
are handled in place where the source writes through the pointer in the queue (the statement
handlers overwrite the message of the packet), so the handler returns the packet too.

A response may be many packets, and all of them lie in the view `getRespView` cuts for the
request at the front, behind the responses that are too old for it (`syncRespQueue`). So the
time a handler gives a response is that of a packet in the view, or of the request itself
where the command has no response (`Answers`). What a handler may not do is report success
without a response, and two of them do: `processQuery` and `ProcessStmtPrepare` ignore that
`handleErrMessage` rejects an error packet of less than nine bytes.
-/
import Kyanos.MysqlPackets

set_option autoImplicit false

open Trace

namespace Kyanos.Mysql

/-! ## The state -/

structure StmtPrepareRespHeader where
  stmtId : ℤ
  numColumns : ℕ
  numParams : ℕ
  warningCount : ℕ
deriving DecidableEq

structure StmtPrepareOKResponse where
  header : StmtPrepareRespHeader
  colDefs : List ColDefinition
  paramDefs : List ColDefinition
deriving DecidableEq

structure PreparedStatement where
  request : GoString
  response : StmtPrepareOKResponse
deriving DecidableEq

/-- `State` of the parser. -/
structure State where
  preparedStatements : SortedMap ℤ PreparedStatement
  active : Bool

/-- The record a handler fills in. -/
structure Exchange where
  req : Option MysqlPacket
  resp : Option MysqlResponse

def Exchange.empty : Exchange := ⟨none, none⟩

def Exchange.record (e : Exchange) : Record Message :=
  { req := e.req.map .mysqlPacket, resp := e.resp.map .mysqlResponse
    responseStatus := .noneStatus }

/-- `&MysqlResponse{FrameBase: base}`. -/
def respOf (base : FrameBase) : MysqlResponse := { base := base, respStatus := .unknown, msg := [] }

def setTimeStamp (resp : MysqlResponse) (ts : ℕ) : MysqlResponse :=
  { resp with base := { resp.base with timestampNs := ts } }

/-! ## Requests -/

def handleStringRequest (reqPacket : MysqlPacket) : Except Panic MysqlPacket :=
  match reqPacket.msg with
  | [] => .error .emptyRequest
  | b :: rest => .ok { reqPacket with cmd := (parseCommand b).1, msg := rest }

def handleNonStringRequest (reqPacket : MysqlPacket) : Except Panic MysqlPacket :=
  match reqPacket.msg with
  | [] => .error .emptyRequest
  | b :: _ => .ok { reqPacket with cmd := (parseCommand b).1 }

/-! ## Simple responses -/

def handleOkMessage (respPackets : List MysqlPacket) (record : Exchange) :
    Except Panic (ParseState × Exchange) :=
  match respPackets with
  | [] => .error .indexOutOfRange
  | resp :: rest =>
      if resp.msg.length < 7 then .ok (.invalid, record)
      else
        let record := { record with resp := some { respOf resp.base with msg := text "OK" } }
        .ok (if rest.length > 0 then .invalid else .success, record)

def handleNoResponse (reqPacket : MysqlPacket) (respView : List MysqlPacket) (record : Exchange) :
    ParseState × Exchange :=
  if respView.length > 0 then (.invalid, record)
  else
    (.success, { record with
      resp := some { respOf ⟨reqPacket.base.timestampNs, 0, 0⟩ with respStatus := .none } })

def kMinErrPacketSize : ℕ := 9

def handleErrMessage (respPackets : List MysqlPacket) (record : Exchange) :
    Except Panic (ParseState × Exchange) :=
  match respPackets with
  | [] => .error .indexOutOfRange
  | mysqlResp :: rest =>
      if mysqlResp.msg.length < kMinErrPacketSize then .ok (.invalid, record)
      else
        -- A response that is there already keeps its time; only the text is replaced.
        let resp := record.resp.getD (respOf mysqlResp.base)
        let record := { record with resp := some { resp with msg := mysqlResp.msg.drop 9 } }
        .ok (if rest.length > 0 then .invalid else .success, record)

/-- The request of a record, as a command with or without a string. -/
def handleRequest (stringReq : Bool) (reqPacket : MysqlPacket) : Except Panic MysqlPacket :=
  if stringReq then handleStringRequest reqPacket else handleNonStringRequest reqPacket

def processRequestWithBasicResponse (reqPacket : MysqlPacket) (stringReq : Bool)
    (respView : List MysqlPacket) (record : Exchange) : Except Panic (ParseState × Exchange) := do
  let resultReq ← handleRequest stringReq reqPacket
  let record := { record with req := some resultReq }
  match respView with
  | [] => .ok (.needsMoreData, record)
  | respPacket :: rest =>
      if rest.length > 0 then .ok (.invalid, record)
      else
        let record := { record with resp := some (respOf respPacket.base) }
        let isOk ← isOkPacket respPacket
        let isEOF ← isEOFPacketAll respPacket
        -- Both kinds are success, and the response set above stays.
        if isOk || isEOF then .ok (.success, record)
        else
          let isErr ← isErrPacket respPacket
          if isErr then handleErrMessage respView record
          else .ok (.invalid, record)

def processQuit (reqPacket : MysqlPacket) (respView : List MysqlPacket) (record : Exchange) :
    Except Panic (ParseState × Exchange) := do
  let resultReq ← handleNonStringRequest reqPacket
  let record := { record with req := some resultReq }
  match respView with
  | [] =>
      -- Usually there is no response: the record gets one with the time of the request.
      let response := setTimeStamp { respOf ⟨0, 0, 0⟩ with respStatus := .none }
        reqPacket.base.timestampNs
      .ok (.success, { record with resp := some response })
  | respPacket :: _ =>
      let isOk ← isOkPacket respPacket
      if isOk then
        .ok (.success, { record with resp := some { respOf respPacket.base with respStatus := .ok } })
      else .ok (.invalid, record)

/-! ## Resultsets -/

/-- The column definitions at the front of a list of packets, and the packets behind them. -/
def takeColumnDefs : ℕ → List MysqlPacket →
    Except Panic (ParseState × List ColDefinition × List MysqlPacket)
  | 0, packets => .ok (.success, [], packets)
  | _ + 1, [] => .ok (.needsMoreData, [], [])
  | n + 1, packet :: packets => do
      match ← processColumnDefPacket packet with
      | none => .ok (.invalid, [], packets)
      | some colDef =>
          let (state, colDefs, packets) ← takeColumnDefs n packets
          .ok (state, colDef :: colDefs, packets)

/-- An end-of-file packet at the front is taken off. -/
def skipEOF (packets : List MysqlPacket) : Except Panic (List MysqlPacket) :=
  match packets with
  | [] => .ok []
  | packet :: rest => do
      let isEOF ← isEOFPacketAll packet
      .ok (if isEOF then rest else packet :: rest)

def isLastPacket (packet : MysqlPacket) : Except Panic Bool := do
  let isErr ← isErrPacket packet
  let isOk ← isOkPacket packet
  let isEOF ← isEOFPacketAll packet
  .ok (isErr || isOk || isEOF)

/-- The rows at the front: their number, the bytes they add to the response and the packets
behind them. The flag is `false` when a packet is neither a row nor a last one. -/
def takeRows (isRow : MysqlPacket → Except Panic Bool) :
    List MysqlPacket → Except Panic (ℕ × ℤ × List MysqlPacket × Bool)
  | [] => .ok (0, 0, [], true)
  | packet :: packets => do
      let status ← isRow packet
      if status then
        let (rows, bytes, packets, ok) ← takeRows isRow packets
        .ok (rows + 1, packet.base.byteSize + bytes, packets, ok)
      else
        let last ← isLastPacket packet
        .ok (0, 0, packet :: packets, last)

/-- What one resultset comes to: the handler is done, or another one follows. -/
inductive ResultsetOutcome
  | done (state : ParseState) (record : Exchange)
  | more (respView : List MysqlPacket) (record : Exchange)

/-- `HandleResultsetResponse` from the rows on. -/
def finishResultset (multiResultset : Bool) (respView : List MysqlPacket)
    (response : MysqlResponse) (rows : ℕ) (record : Exchange) : Except Panic ResultsetOutcome :=
  match respView with
  | [] => .ok (.done .needsMoreData { record with resp := some response })
  | lastPacket :: rest => do
      let isErr ← isErrPacket lastPacket
      if isErr then
        let (state, record) ← handleErrMessage respView { record with resp := some response }
        .ok (.done state record)
      else
        let response := { response with
          msg := response.msg ++ (if multiResultset then text ", " else [])
            ++ text ("Resultset rows = " ++ toString rows) }
        -- The flag in the last packet announces another resultset.
        let more ← moreResultsExist lastPacket
        if more then .ok (.more rest { record with resp := some response })
        else
          let response := setTimeStamp { response with respStatus := .ok } lastPacket.base.timestampNs
          .ok (.done .success { record with resp := some response })

/-- `multiResultset && isOkPacket(firstResp)`. -/
def endsResultsets (multiResultset : Bool) (firstResp : MysqlPacket) : Except Panic Bool :=
  if multiResultset then isOkPacket firstResp else .ok false

/-- `HandleResultsetResponse` up to the call of itself. -/
def handleResultset (floatText : GoString → GoString) (binaryResultset multiResultset : Bool)
    (respView : List MysqlPacket) (record : Exchange) : Except Panic ResultsetOutcome :=
  match respView with
  | [] => .ok (.done .needsMoreData record)
  | firstResp :: respView => do
      let response := respOf firstResp.base
      let record := { record with resp := some response }
      let isOk ← endsResultsets multiResultset firstResp
      if isOk then
        .ok (.done .success { record with resp := some { response with respStatus := .ok } })
      else
        let (numCol, paramOffset, ok) ← processLengthEncodedInt firstResp.msg 0
        -- The first packet is nothing but the number of columns.
        if !ok || paramOffset ≠ firstResp.msg.length || numCol = 0 then .ok (.done .invalid record)
        -- As many definitions and at least one packet behind them.
        else if (respView.length : ℤ) < intOf 64 (numCol + 1) then .ok (.done .needsMoreData record)
        else
          let (state, colDefs, respView) ← takeColumnDefs numCol.toNat respView
          if state ≠ .success then .ok (.done state record)
          else if respView.length = 0 then .ok (.done .needsMoreData record)
          else
            let respView ← skipEOF respView
            let isRow : MysqlPacket → Except Panic Bool :=
              if binaryResultset then fun p => processBinaryResultsetRowPacket floatText p colDefs
              else fun p => processTextResultsetRowPacket p colDefs.length
            let (rows, bytes, respView, ok) ← takeRows isRow respView
            let response := { response with
              base := { response.base with byteSize := response.base.byteSize + bytes } }
            if !ok then .ok (.done .invalid { record with resp := some response })
            else finishResultset multiResultset respView response rows record

/-- `HandleResultsetResponse`, over at most `n` packets. A view of `n` packets cannot hold
more resultsets than that, and an empty one needs more data. -/
def handleResultsets (floatText : GoString → GoString) (binaryResultset : Bool) :
    ℕ → Bool → List MysqlPacket → Exchange → Except Panic (ParseState × Exchange)
  | 0, _, _, record => .ok (.needsMoreData, record)
  | n + 1, multiResultset, respView, record => do
      match ← handleResultset floatText binaryResultset multiResultset respView record with
      | .done state record => .ok (state, record)
      | .more respView record => handleResultsets floatText binaryResultset n true respView record

def handleResultsetResponse (floatText : GoString → GoString) (binaryResultset : Bool)
    (respView : List MysqlPacket) (record : Exchange) : Except Panic (ParseState × Exchange) :=
  handleResultsets floatText binaryResultset respView.length false respView record

/-! ## Prepared statements -/

def kStmtIDStartOffset : ℤ := 1
def kStmtIDBytes : ℕ := 4
def kFlagsBytes : ℤ := 1
def kIterationCountBytes : ℤ := 4

/-- The definitions at the front, the time of the last of them, and an end-of-file packet
behind them, as `handleStmtPrepareOKResponse` reads parameters and columns. -/
def takeDefinitions : ℕ → MysqlResponse → List MysqlPacket →
    Except Panic (ParseState × List ColDefinition × MysqlResponse × List MysqlPacket)
  | 0, resp, packets => .ok (.success, [], resp, packets)
  | _ + 1, resp, [] => .ok (.needsMoreData, [], resp, [])
  | n + 1, resp, packet :: packets => do
      match ← processColumnDefPacket packet with
      | none => .ok (.invalid, [], resp, packets)
      | some colDef =>
          let (state, colDefs, resp, packets) ←
            takeDefinitions n (setTimeStamp resp packet.base.timestampNs) packets
          .ok (state, colDef :: colDefs, resp, packets)

def takeEOF (num : ℕ) (resp : MysqlResponse) (packets : List MysqlPacket) :
    Except Panic (MysqlResponse × List MysqlPacket) :=
  if num = 0 then .ok (resp, packets)
  else
    match packets with
    | [] => .ok (resp, [])
    | packet :: rest => do
        let isEOF ← isEOFPacketAll packet
        if isEOF then .ok (setTimeStamp resp packet.base.timestampNs, rest)
        else .ok (resp, packet :: rest)

/-- A number of a packet of twelve bytes. -/
def headerField (msg : GoString) (pos nBytes : ℕ) : ℤ :=
  (lEndianBytesToKInt 32 (msg.drop pos) nBytes).1

/-- `handleStmtPrepareOKResponse`. -/
def handleStmtPrepareOKResponse (p : State) (respPackets : List MysqlPacket) (record : Exchange) :
    Except Panic (ParseState × Exchange × State) :=
  match respPackets with
  | [] => .ok (.needsMoreData, record, p)
  | firstResp :: respPackets =>
      if !isStmtPrepareOKPacket firstResp then .ok (.invalid, record, p)
      else
        let stmtId := headerField firstResp.msg 1 4
        let numCol := headerField firstResp.msg 5 2
        let numParam := headerField firstResp.msg 7 2
        let warningCount := headerField firstResp.msg 10 2
        -- The end-of-file packets are optional, so only the definitions are counted.
        if intOf 32 (numCol + numParam) > respPackets.length then .ok (.needsMoreData, record, p)
        else do
          let resp := respOf firstResp.base
          let (state, paramDefs, resp, respPackets) ←
            takeDefinitions numParam.toNat resp respPackets
          let record := { record with resp := some resp }
          if state ≠ .success then .ok (state, record, p)
          else
            let (resp, respPackets) ← takeEOF numParam.toNat resp respPackets
            let (state, colDefs, resp, respPackets) ←
              takeDefinitions numCol.toNat resp respPackets
            let record := { record with resp := some resp }
            if state ≠ .success then .ok (state, record, p)
            else
              let (resp, _) ← takeEOF numCol.toNat resp respPackets
              match record.req with
              -- The request is taken from the record with an unchecked assertion.
              | none => .error .interfaceConversion
              | some req =>
                  let statement : PreparedStatement :=
                    { request := req.msg
                      response :=
                        { header := ⟨stmtId, numCol.toNat, numParam.toNat, warningCount.toNat⟩
                          colDefs := colDefs, paramDefs := paramDefs } }
                  .ok (.success, { record with resp := some { resp with respStatus := .ok } },
                    { p with preparedStatements := p.preparedStatements.put stmtId statement })

def processStmtPrepare (p : State) (reqPacket : MysqlPacket) (respView : List MysqlPacket)
    (record : Exchange) : Except Panic (ParseState × Exchange × State) := do
  let resultReq ← handleStringRequest reqPacket
  let record := { record with req := some resultReq }
  match respView with
  | [] => .ok (.needsMoreData, record, p)
  | firstResp :: _ =>
      let isErr ← isErrPacket firstResp
      if isErr then
        -- What `handleErrMessage` reports is not looked at.
        let (_, record) ← handleErrMessage respView record
        .ok (.success, record, p)
      else handleStmtPrepareOKResponse p respView record

/-- `HandleStmtExecuteParam`: the text of the value, with the new position of the values. The
types `kShort`, `kLong`, `kDate` and `kDateTime` have a case of their own, which is empty. -/
def handleStmtExecuteParam (floatText : GoString → GoString) (msg : GoString)
    (typeOffset valOffset : ℤ) : Except Panic (Option (GoString × ℤ)) := do
  let byte ← byteAt msg typeOffset
  let colType : ColType := byte.toNat
  if colType ∈ stringTypes then
    let (value, valOffset, ok) ← dissectStringParam msg valOffset
    .ok (if ok then some (value, valOffset) else none)
  else if colType = kTiny then
    let (value, valOffset) ← dissectIntParam msg valOffset 1
    .ok (some (value, valOffset))
  else if colType = kYear then
    let (value, valOffset) ← dissectIntParam msg valOffset 2
    .ok (some (value, valOffset))
  else if colType = kInt24 then
    let (value, valOffset) ← dissectIntParam msg valOffset 4
    .ok (some (value, valOffset))
  else if colType = kLongLong then
    let (value, valOffset) ← dissectIntParam msg valOffset 8
    .ok (some (value, valOffset))
  else if colType = kFloat then
    let (value, valOffset, ok) ← dissectFloatParam floatText msg valOffset 4
    .ok (if ok then some (value, valOffset) else none)
  else if colType = kDouble then
    let (value, valOffset, ok) ← dissectFloatParam floatText msg valOffset 8
    .ok (if ok then some (value, valOffset) else none)
  else if colType = kTimestamp ∨ colType = kTimeColType then
    let (value, valOffset, ok) ← dissectDateTimeParam msg valOffset
    .ok (if ok then some (value, valOffset) else none)
  else if colType = kShort ∨ colType = kLong ∨ colType = kDate ∨ colType = kDateTime
      ∨ colType = kNull then .ok (some ([], valOffset))
  else .error (.fatal colType)

/-- The loop over the parameters of an execute request. -/
def executeParams (floatText : GoString → GoString) (msg : GoString) :
    ℕ → ℤ → ℤ → Except Panic (Option (List GoString))
  | 0, _, _ => .ok (some [])
  | n + 1, typeOffset, valOffset => do
      match ← handleStmtExecuteParam floatText msg typeOffset valOffset with
      | none => .ok none
      | some (value, valOffset) =>
          let params ← executeParams floatText msg n (typeOffset + 2) valOffset
          .ok (params.map (value :: ·))

/-- The parameters, when the request brings their types along. -/
def boundParams (floatText : GoString → GoString) (msg : GoString) (stmtBound : UInt8)
    (numParams : ℕ) (offset : ℤ) : Except Panic (Option (List GoString)) :=
  if stmtBound = 1 then executeParams floatText msg numParams offset (offset + 2 * numParams)
  else .ok (some [])

def combinePrepareExecute (stmtPrepareRequest : GoString) (params : List GoString) : GoString :=
  text "query=[" ++ stmtPrepareRequest ++ text "] params=["
    ++ (List.intersperse (text ", ") params).flatten ++ text "]"

/-- `HandleStmtExecuteRequest`. The record gets the packet in the queue, and its message is
overwritten there. -/
def handleStmtExecuteRequest (floatText : GoString → GoString) (p : State) (req : MysqlPacket)
    (record : Exchange) : Except Panic (ParseState × Exchange × MysqlPacket) :=
  if req.msg.length < 1 + kStmtIDBytes then .ok (.invalid, record, req)
  else
    let stmtId := headerField req.msg 1 kStmtIDBytes
    match p.preparedStatements.get? stmtId with
    | none =>
        -- Without the statement the request is still reported, by its id.
        let req := { req with msg := text ("Execute stmt_id=" ++ toString stmtId ++ ".") }
        .ok (.success, { record with req := some req }, req)
    | some stmt =>
        let numParams := stmt.response.header.numParams
        let offset := kStmtIDStartOffset + kStmtIDBytes + kFlagsBytes + kIterationCountBytes
        if (req.msg.length : ℤ) < offset then .ok (.invalid, { record with req := some req }, req)
        else do
          -- The bitmap of the parameters that are null.
          let offset := offset + ((numParams + 7) / 8 : ℕ)
          let stmtBound ← byteAt req.msg offset
          let offset := offset + 1
          let params ← boundParams floatText req.msg stmtBound numParams offset
          match params with
          | none => .ok (.invalid, { record with req := some req }, req)
          | some params =>
              let req := { req with msg := combinePrepareExecute stmt.request params }
              .ok (.success, { record with req := some req }, req)

def processStmtExecute (floatText : GoString → GoString) (p : State) (reqPacket : MysqlPacket)
    (respView : List MysqlPacket) (record : Exchange) :
    Except Panic (ParseState × Exchange × MysqlPacket) := do
  let (state, record, reqPacket) ← handleStmtExecuteRequest floatText p reqPacket record
  if state ≠ .success then .ok (state, record, reqPacket)
  else
    match respView with
    | [] => .ok (.needsMoreData, record, reqPacket)
    | firstResp :: _ =>
        let isErr ← isErrPacket firstResp
        if isErr then
          let (state, record) ← handleErrMessage respView record
          .ok (state, record, reqPacket)
        else
          let isOk ← isOkPacket firstResp
          if isOk then
            let (state, record) ← handleOkMessage respView record
            .ok (state, record, reqPacket)
          else
            let (state, record) ← handleResultsetResponse floatText true respView record
            .ok (state, record, reqPacket)

/-- `HandleStmtCloseRequest`. The message is emptied before the id is read from it, so it is
always statement zero that is forgotten. -/
def handleStmtCloseRequest (p : State) (reqPacket : MysqlPacket) (record : Exchange) :
    ParseState × Exchange × State × MysqlPacket :=
  if reqPacket.msg.length < 1 + kStmtIDBytes then (.invalid, record, p, reqPacket)
  else
    let reqPacket := { reqPacket with msg := [] }
    let stmtId : ℤ :=
      if (reqPacket.msg.length : ℤ) ≥ kStmtIDStartOffset + kStmtIDBytes then
        headerField reqPacket.msg 1 kStmtIDBytes
      else 0
    (.success, { record with req := some reqPacket },
      { p with preparedStatements := p.preparedStatements.remove stmtId }, reqPacket)

def processStmtClose (p : State) (reqPacket : MysqlPacket) (respView : List MysqlPacket)
    (record : Exchange) : ParseState × Exchange × State × MysqlPacket :=
  let (state, record, p, reqPacket) := handleStmtCloseRequest p reqPacket record
  if state ≠ .success then (state, record, p, reqPacket)
  else
    let (state, record) := handleNoResponse reqPacket respView record
    (state, record, p, reqPacket)

def processStmtSendLongData (reqPacket : MysqlPacket) (respView : List MysqlPacket)
    (record : Exchange) : Except Panic (ParseState × Exchange) := do
  let resultReq ← handleNonStringRequest reqPacket
  .ok (handleNoResponse reqPacket respView { record with req := some resultReq })

def processStmtFetch (reqPacket : MysqlPacket) (record : Exchange) :
    Except Panic (ParseState × Exchange) := do
  let resultReq ← handleNonStringRequest reqPacket
  .ok (.ignore, { record with req := some resultReq, resp := some (respOf ⟨0, 0, 0⟩) })

def processQuery (floatText : GoString → GoString) (reqPacket : MysqlPacket)
    (respView : List MysqlPacket) (record : Exchange) : Except Panic (ParseState × Exchange) := do
  let resultReq ← handleStringRequest reqPacket
  let record := { record with req := some resultReq }
  match respView with
  | [] => .ok (.needsMoreData, record)
  | firstResp :: _ =>
      let isErr ← isErrPacket firstResp
      if isErr then
        -- What `handleErrMessage` reports is not looked at.
        let (_, record) ← handleErrMessage respView record
        .ok (.success, record)
      else
        let isOk ← isOkPacket firstResp
        if isOk then handleOkMessage respView record
        else handleResultsetResponse floatText false respView record

/-! ## Matching -/

/-- What `processPackets` leaves: how far it got, the record, the state and the request packet
as it is in the queue now. -/
structure Processed where
  parseState : ParseState
  record : Exchange
  state : State
  reqPacket : MysqlPacket

/-- The commands answered by one packet, and whether their request holds a string. -/
def basicCommands : List (Command × Bool) :=
  [(kConnect, false), (kConnectOut, false), (kTime, false), (kDelayedInsert, false),
    (kDaemon, false), (kInitDB, true), (kCreateDB, true), (kDropDB, true), (kSleep, false),
    (kRegisterSlave, false), (kResetConnection, false), (kProcessKill, false), (kRefresh, false),
    (kPing, false), (kShutdown, false), (kSetOption, false), (kDebug, false), (kStmtReset, false)]

def processPackets (floatText : GoString → GoString) (p : State) (reqPacket : MysqlPacket)
    (respView : List MysqlPacket) : Except Panic Processed := do
  let byte ← byteAt reqPacket.msg 0
  let command := (parseCommand byte).1
  let record := Exchange.empty
  match basicCommands.lookup command with
  | some stringReq =>
      let (state, record) ← processRequestWithBasicResponse reqPacket stringReq respView record
      .ok ⟨state, record, p, reqPacket⟩
  | none =>
      if command = kQuit then
        let (state, record) ← processQuit reqPacket respView record
        .ok ⟨state, record, p, reqPacket⟩
      else if command = kQuery then
        let (state, record) ← processQuery floatText reqPacket respView record
        .ok ⟨state, record, p, reqPacket⟩
      else if command = kStmtPrepare then
        let (state, record, p) ← processStmtPrepare p reqPacket respView record
        .ok ⟨state, record, p, reqPacket⟩
      else if command = kStmtSendLongData then
        let (state, record) ← processStmtSendLongData reqPacket respView record
        .ok ⟨state, record, p, reqPacket⟩
      else if command = kStmtExecute then
        let (state, record, reqPacket) ← processStmtExecute floatText p reqPacket respView record
        .ok ⟨state, record, p, reqPacket⟩
      else if command = kStmtClose then
        let (state, record, p, reqPacket) := processStmtClose p reqPacket respView record
        .ok ⟨state, record, p, reqPacket⟩
      else if command = kStmtFetch then
        let (state, record) ← processStmtFetch reqPacket record
        .ok ⟨state, record, p, reqPacket⟩
      -- The rest is not implemented, or no command.
      else .ok ⟨.ignore, record, p, reqPacket⟩

/-- Which handler processed a request, by its command. -/
inductive Handled (floatText : GoString → GoString) (p : State) (reqPacket : MysqlPacket)
    (respView : List MysqlPacket) (command : Command) : Processed → Prop
  | basic {stringReq : Bool} {state : ParseState} {record : Exchange}
      (hcommand : basicCommands.lookup command = some stringReq)
      (h : processRequestWithBasicResponse reqPacket stringReq respView Exchange.empty
        = .ok (state, record)) : Handled floatText p reqPacket respView command
          ⟨state, record, p, reqPacket⟩
  | quit {state : ParseState} {record : Exchange} (hcommand : command = kQuit)
      (h : processQuit reqPacket respView Exchange.empty = .ok (state, record)) :
      Handled floatText p reqPacket respView command ⟨state, record, p, reqPacket⟩
  | query {state : ParseState} {record : Exchange} (hcommand : command = kQuery)
      (h : processQuery floatText reqPacket respView Exchange.empty = .ok (state, record)) :
      Handled floatText p reqPacket respView command ⟨state, record, p, reqPacket⟩
  | prepare {state : ParseState} {record : Exchange} {p' : State} (hcommand : command = kStmtPrepare)
      (h : processStmtPrepare p reqPacket respView Exchange.empty = .ok (state, record, p')) :
      Handled floatText p reqPacket respView command ⟨state, record, p', reqPacket⟩
  | sendLongData {state : ParseState} {record : Exchange} (hcommand : command = kStmtSendLongData)
      (h : processStmtSendLongData reqPacket respView Exchange.empty = .ok (state, record)) :
      Handled floatText p reqPacket respView command ⟨state, record, p, reqPacket⟩
  | execute {state : ParseState} {record : Exchange} {reqPacket' : MysqlPacket}
      (hcommand : command = kStmtExecute)
      (h : processStmtExecute floatText p reqPacket respView Exchange.empty
        = .ok (state, record, reqPacket')) :
      Handled floatText p reqPacket respView command ⟨state, record, p, reqPacket'⟩
  | close {state : ParseState} {record : Exchange} {p' : State} {reqPacket' : MysqlPacket}
      (hcommand : command = kStmtClose)
      (h : processStmtClose p reqPacket respView Exchange.empty
        = (state, record, p', reqPacket')) :
      Handled floatText p reqPacket respView command ⟨state, record, p', reqPacket'⟩
  | fetch {state : ParseState} {record : Exchange} (hcommand : command = kStmtFetch)
      (h : processStmtFetch reqPacket Exchange.empty = .ok (state, record)) :
      Handled floatText p reqPacket respView command ⟨state, record, p, reqPacket⟩
  | unimplemented (hcommand : command ∉ [kQuit, kQuery, kStmtPrepare, kStmtSendLongData,
      kStmtExecute, kStmtClose, kStmtFetch]) :
      Handled floatText p reqPacket respView command ⟨.ignore, Exchange.empty, p, reqPacket⟩

theorem head?_of_byteAt_zero {s : GoString} {byte : UInt8} (h : byteAt s 0 = .ok byte) :
    s.head? = some byte := by
  rcases s with _ | ⟨b, rest⟩
  · cases h
  · cases h
    rfl

/-- A request is processed by the handler of its first byte. -/
theorem processPackets_handled {floatText : GoString → GoString} {p : State}
    {reqPacket : MysqlPacket} {respView : List MysqlPacket} {r : Processed}
    (h : processPackets floatText p reqPacket respView = .ok r) :
    ∃ byte ∈ reqPacket.msg.head?,
      Handled floatText p reqPacket respView (parseCommand byte).1 r := by
  unfold processPackets at h
  obtain ⟨byte, hbyte, h⟩ := bind_eq_ok.mp h
  refine ⟨byte, head?_of_byteAt_zero hbyte, ?_⟩
  dsimp only at h
  generalize (parseCommand byte).1 = command at h ⊢
  split at h
  · rename_i stringReq hcommand
    obtain ⟨⟨state, record⟩, hcall, h⟩ := bind_eq_ok.mp h
    cases h
    exact .basic hcommand hcall
  · split_ifs at h with hquit hquery hprepare hlong hexecute hclose hfetch
    · obtain ⟨⟨state, record⟩, hcall, h⟩ := bind_eq_ok.mp h
      cases h
      exact .quit hquit hcall
    · obtain ⟨⟨state, record⟩, hcall, h⟩ := bind_eq_ok.mp h
      cases h
      exact .query hquery hcall
    · obtain ⟨⟨state, record, p'⟩, hcall, h⟩ := bind_eq_ok.mp h
      cases h
      exact .prepare hprepare hcall
    · obtain ⟨⟨state, record⟩, hcall, h⟩ := bind_eq_ok.mp h
      cases h
      exact .sendLongData hlong hcall
    · obtain ⟨⟨state, record, reqPacket'⟩, hcall, h⟩ := bind_eq_ok.mp h
      cases h
      exact .execute hexecute hcall
    · rcases hcall : processStmtClose p reqPacket respView Exchange.empty with
        ⟨state, record, p', reqPacket'⟩
      rw [hcall] at h
      cases h
      exact .close hclose hcall
    · obtain ⟨⟨state, record⟩, hcall, h⟩ := bind_eq_ok.mp h
      cases h
      exact .fetch hfetch hcall
    · cases h
      refine .unimplemented ?_
      simp only [List.mem_cons, List.not_mem_nil, or_false, not_or]
      exact ⟨hquit, hquery, hprepare, hlong, hexecute, hclose, hfetch⟩

/-- `syncRespQueue`: responses older than the request are dropped. -/
def syncRespQueue (reqPacket : MysqlPacket) (respStream : List MysqlPacket) : List MysqlPacket :=
  respStream.dropWhile (fun resp => resp.base.timestampNs < reqPacket.base.timestampNs)

/-- The loop of `getRespView`, after `count` packets. -/
def respViewLoop (next : Option MysqlPacket) : ℕ → List MysqlPacket → List MysqlPacket
  | _, [] => []
  | count, resp :: respStream =>
      if next.any (fun next => resp.base.timestampNs > next.base.timestampNs) then []
      else if resp.seqId ≠ (count + 1) % 256 then []
      else resp :: respViewLoop next (count + 1) respStream

/-- `getRespView`: the packets before the next request, as long as their numbers go up. -/
def getRespView (reqStream respStream : List MysqlPacket) : List MysqlPacket :=
  respViewLoop reqStream[1]? 0 respStream

/-- The commands whose success shows that this is MySQL. -/
def confirmingCommands : List Command :=
  [kConnect, kInitDB, kCreateDB, kDropDB, kQuery, kStmtPrepare, kStmtExecute]

/-- The loop of `Match`, with the records so far. -/
def matchLoop (floatText : GoString → GoString) (m : State) (records : List (Record Message)) :
    List MysqlPacket → List MysqlPacket →
    Except Panic (State × List (Record Message) × List MysqlPacket × List MysqlPacket)
  | [], respStream => .ok (m, records, [], respStream)
  | reqPacket :: reqStream, respStream => do
      let byte ← byteAt reqPacket.msg 0
      let command := (parseCommand byte).1
      -- The queue is cut to responses no older than the request before the view is.
      let respStream := syncRespQueue reqPacket respStream
      let respView := getRespView (reqPacket :: reqStream) respStream
      let r ← processPackets floatText m reqPacket respView
      let m :=
        if !r.state.active && r.parseState = .success && confirmingCommands.contains command then
          { r.state with active := true }
        else r.state
      -- Only the last request may wait for more; the packets of its view stay in the queue.
      if r.parseState = .needsMoreData ∧ reqStream = [] ∧ respView.length = respStream.length then
        .ok (m, records, r.reqPacket :: reqStream, respStream)
      else
        matchLoop floatText m
          -- A record that was not a success is dropped with its request and its view.
          (if r.parseState = .success then records ++ [r.record.record] else records)
          reqStream (respStream.drop respView.length)

/-- `Match`, on the queues of stream 0. -/
def matchStreams (floatText : GoString → GoString) (m : State)
    (reqStream respStream : List MysqlPacket) :
    Except Panic (State × List (Record Message) × List MysqlPacket × List MysqlPacket) := do
  let (m, records, reqStream, respStream) ← matchLoop floatText m [] reqStream respStream
  .ok (m, if m.active then records else [], reqStream, respStream)

/-! ## Sessions -/

/-- The parser that `ParsersMap` makes. -/
def State.new : State := { preparedStatements := SortedMap.empty, active := false }

/-- A parser with the queues of stream 0. -/
structure Session where
  parser : State
  reqStream : List MysqlPacket
  respStream : List MysqlPacket

def Session.new : Session := { parser := State.new, reqStream := [], respStream := [] }

/-- What happens to a session: a packet that was parsed goes to its queue, or the queues are
matched. Where one of the queues is not there yet, `Match` does nothing. -/
inductive Input
  | request (packet : MysqlPacket)
  | response (packet : MysqlPacket)
  | matchStreams

def Session.step (floatText : GoString → GoString) (s : Session) : Input → Except Panic Session
  | .request packet => .ok { s with reqStream := s.reqStream ++ [packet] }
  | .response packet => .ok { s with respStream := s.respStream ++ [packet] }
  | .matchStreams => do
      let (parser, _, reqStream, respStream) ←
        Mysql.matchStreams floatText s.parser s.reqStream s.respStream
      .ok { parser := parser, reqStream := reqStream, respStream := respStream }

/-! ## Parsing -/

def kPacketHeaderLength : ℕ := 4
def kPayloadLengthLength : ℕ := 3

/-- The payload length is out of the range of the command byte, or this is no command. -/
def rejectsCommand (commandByte : UInt8) (packetLength : ℤ) : Bool :=
  let (command, ok) := parseCommand commandByte
  let lengthRange := commandLengthRanges command
  !ok || packetLength < lengthRange.1 || packetLength > lengthRange.2

/-- `ParseStream`, on the head of the stream buffer. -/
def parseStream (sb : StreamBuffer) (messageType : MessageType) :
    Except Panic (ParseResult MysqlPacket) :=
  match sb.head with
  | none => .error .nilDereference
  | some head =>
      let buf := head.buf
      if buf.length < kPacketHeaderLength then .ok ⟨.needsMoreData, [], 0⟩
      else do
        let seqId ← byteAt buf 3
        let packetLength := (lEndianBytesToKInt 32 buf kPayloadLengthLength).1
        let early : Option (ParseResult MysqlPacket) :=
          if messageType = .request then
            match buf[kPacketHeaderLength]? with
            | none => some ⟨.needsMoreData, [], 0⟩
            | some commandByte =>
                if rejectsCommand commandByte packetLength then some ⟨.invalid, [], 0⟩ else none
          else none
        match early with
        | some result => .ok result
        | none =>
            if (buf.length : ℤ) < kPacketHeaderLength + packetLength then
              .ok ⟨.needsMoreData, [], 0⟩
            else
              let readBytes := kPacketHeaderLength + packetLength
              let msg ← slice buf kPacketHeaderLength readBytes
              match createFrameBase sb head readBytes with
              | none => .ok ⟨.ignore, [], readBytes⟩
              | some fb =>
                  let packet : MysqlPacket :=
                    { base := fb, seqId := seqId.toNat, msg := msg, cmd := 0
                      isReq := messageType = .request }
                  .ok ⟨.success, [⟨packet.isReq, 0, packet⟩], readBytes⟩

/-- The body of the loop of `FindBoundary`. -/
def probe (buf : List UInt8) (idx : ℤ) : Except Panic Probe := do
  let curBuf ← slice buf idx buf.length
  let packetLength := (lEndianBytesToKInt 32 curBuf kPayloadLengthLength).1
  -- The number of the packet at the front, whatever the position.
  let sequenceId ← byteAt buf kPayloadLengthLength
  let commandByte ← byteAt curBuf kPacketHeaderLength
  if sequenceId ≠ 0 || rejectsCommand commandByte packetLength then .ok .next else .ok .found

def findBoundary (sb : StreamBuffer) (messageType : MessageType) (startPos : ℤ) : Except Panic ℤ :=
  match sb.head with
  | none => .error .nilDereference
  | some head =>
      if head.buf.length < kPacketHeaderLength then .ok (-1)
      else if messageType = .response then .ok (-1)
      else scan (probe head.buf) startPos (head.buf.length - kPacketHeaderLength)

/-- A packet that is cut out lies in the head, and has at least its own header. -/
theorem parseStream_read {sb : StreamBuffer} {head : Buffer} {messageType : MessageType}
    {r : ParseResult MysqlPacket} (hhead : sb.head = some head)
    (h : parseStream sb messageType = .ok r)
    (hstate : r.parseState = .success ∨ r.parseState = .ignore) :
    1 ≤ r.readBytes ∧ r.readBytes ≤ head.len := by
  unfold parseStream at h
  rw [hhead] at h
  dsimp only at h
  split at h
  · cases h
    simp at hstate
  obtain ⟨seqId, -, h⟩ := bind_eq_ok.mp h
  split at h
  · -- A request that ends early is incomplete or no request.
    rename_i result hearly
    cases h
    split at hearly
    · split at hearly
      · cases hearly
        simp at hstate
      · split_ifs at hearly
        cases hearly
        simp at hstate
    · cases hearly
  split at h
  · cases h
    simp at hstate
  · rename_i hlen
    obtain ⟨msg, -, h⟩ := bind_eq_ok.mp h
    have hbounds := @lEndianBytesToKInt_bounds 32 head.buf kPayloadLengthLength (by decide)
    have hread : r.readBytes
        = kPacketHeaderLength + (lEndianBytesToKInt 32 head.buf kPayloadLengthLength).1 := by
      split at h <;> cases h <;> rfl
    rw [hread, Buffer.len]
    unfold kPacketHeaderLength at hlen ⊢
    omega

theorem findBoundary_bounds {sb : StreamBuffer} {head : Buffer} {messageType : MessageType}
    {startPos pos : ℤ} (hhead : sb.head = some head)
    (h : findBoundary sb messageType startPos = .ok pos) :
    pos = -1 ∨ startPos ≤ pos ∧ pos ≤ head.len := by
  unfold findBoundary at h
  rw [hhead] at h
  dsimp only at h
  split_ifs at h
  · cases h
    exact Or.inl rfl
  · cases h
    exact Or.inl rfl
  · rw [Buffer.len]
    rcases scan_bounds h with hnone | hbounds
    · exact Or.inl hnone
    · right
      omega

end Kyanos.Mysql
