/-
What a MySQL `Match` leaves when it waits for more packets.

The last request of the queue may wait for the rest of its response. It then stays in the queue
with the packets of its view, and the next `Match` handles it again from the start. So handling
must not have changed anything: not the request, and not the statements of the parser. The
handlers copy the request before they work on it (`handleStringRequest`,
`handleNonStringRequest`), and the statements are written once a response is complete; but
`HandleStmtExecuteRequest` writes the text it found into the packet in the queue.
-/
import Kyanos.Mysql

set_option autoImplicit false

open Trace

namespace Kyanos.Mysql

variable {floatText : GoString → GoString} {m m' p p' : State} {req req' reqPacket : MysqlPacket}
  {view : List MysqlPacket} {record record' : Exchange}

/-! ## Handlers that wait -/

/-- The statements are written when the response is a success. -/
theorem handleStmtPrepareOKResponse_state {state : ParseState}
    (h : handleStmtPrepareOKResponse p view record = .ok (state, record', p'))
    (hstate : state ≠ .success) : p' = p := by
  unfold handleStmtPrepareOKResponse at h
  rcases view with _ | ⟨first, view⟩
  · cases h
    rfl
  dsimp only at h
  split_ifs at h
  · cases h
    rfl
  · cases h
    rfl
  obtain ⟨⟨state₁, paramDefs, resp₁, packets₁⟩, -, h⟩ := bind_eq_ok.mp h
  dsimp only at h
  split_ifs at h
  · cases h
    rfl
  obtain ⟨⟨resp₂, packets₂⟩, -, h⟩ := bind_eq_ok.mp h
  obtain ⟨⟨state₃, colDefs, resp₃, packets₃⟩, -, h⟩ := bind_eq_ok.mp h
  dsimp only at h
  split_ifs at h
  · cases h
    rfl
  obtain ⟨⟨resp₄, packets₄⟩, -, h⟩ := bind_eq_ok.mp h
  dsimp only at h
  rcases hreq : record.req with _ | req
  · rw [hreq] at h
    cases h
  · rw [hreq] at h
    cases h
    exact absurd rfl hstate

theorem processStmtPrepare_state {state : ParseState}
    (h : processStmtPrepare p req view record = .ok (state, record', p'))
    (hstate : state ≠ .success) : p' = p := by
  obtain ⟨resultReq, -, h⟩ := bind_eq_ok.mp h
  rcases view with _ | ⟨first, view⟩
  · cases h
    rfl
  obtain ⟨isErr, -, h⟩ := bind_eq_ok.mp h
  split_ifs at h
  · obtain ⟨⟨_, record₁⟩, -, h⟩ := bind_eq_ok.mp h
    cases h
    rfl
  · exact handleStmtPrepareOKResponse_state h hstate

/-- A request to close a statement has no response to wait for. -/
theorem processStmtClose_state : (processStmtClose p req view record).1 ≠ .needsMoreData := by
  unfold processStmtClose handleStmtCloseRequest handleNoResponse
  split_ifs <;> simp

theorem text_append (s t : String) : text (s ++ t) = text s ++ text t := by
  simp [text, String.toList_append]

/-- The message does not begin with the byte of `COM_STMT_EXECUTE`. -/
def Overwritten (packet : MysqlPacket) : Prop :=
  ∃ first ∈ packet.msg.head?, first ≠ 0x17

/-- The request to execute a statement is overwritten by a text with an `E` or a `q` in front, unless
it is invalid. -/
theorem handleStmtExecuteRequest_packet {state : ParseState}
    (h : handleStmtExecuteRequest floatText p req record = .ok (state, record', req')) :
    state = .invalid ∧ req' = req ∨ state = .success
      ∧ ∃ first rest, req' = { req with msg := first :: rest } ∧ (first = 0x45 ∨ first = 0x71) := by
  unfold handleStmtExecuteRequest at h
  split_ifs at h
  · cases h
    exact Or.inl ⟨rfl, rfl⟩
  dsimp only at h
  rcases hstmt : p.preparedStatements.get? (headerField req.msg 1 kStmtIDBytes) with _ | stmt
  · rw [hstmt] at h
    cases h
    refine Or.inr ⟨rfl, 0x45, text "xecute stmt_id="
      ++ text (toString (headerField req.msg 1 kStmtIDBytes)) ++ text ".", ?_, Or.inl rfl⟩
    rw [text_append, text_append]
    rfl
  · rw [hstmt] at h
    dsimp only at h
    split_ifs at h
    · cases h
      exact Or.inl ⟨rfl, rfl⟩
    obtain ⟨stmtBound, -, h⟩ := bind_eq_ok.mp h
    obtain ⟨params, -, h⟩ := bind_eq_ok.mp h
    rcases params with _ | params
    · cases h
      exact Or.inl ⟨rfl, rfl⟩
    · cases h
      exact Or.inr ⟨rfl, 0x71, _, rfl, Or.inr rfl⟩

/-- Behind its request the packet is handed through. -/
theorem processStmtExecute_packet {state : ParseState}
    (h : processStmtExecute floatText p req view record = .ok (state, record', req')) :
    state = .invalid ∧ req' = req
      ∨ ∃ first rest, req' = { req with msg := first :: rest } ∧ (first = 0x45 ∨ first = 0x71) := by
  obtain ⟨⟨state₁, record₁, reqPacket⟩, hreq, h⟩ := bind_eq_ok.mp h
  dsimp only at h
  rcases handleStmtExecuteRequest_packet hreq with ⟨rfl, hsame⟩ | ⟨rfl, hover⟩
  · cases h
    exact Or.inl ⟨rfl, hsame⟩
  have hsame : req' = reqPacket := by
    rw [if_neg (by simp)] at h
    rcases view with _ | ⟨first, view⟩
    · cases h
      rfl
    obtain ⟨isErr, -, h⟩ := bind_eq_ok.mp h
    split_ifs at h
    · obtain ⟨⟨_, _⟩, -, h⟩ := bind_eq_ok.mp h
      cases h
      rfl
    obtain ⟨isOk, -, h⟩ := bind_eq_ok.mp h
    split_ifs at h
    · obtain ⟨⟨_, _⟩, -, h⟩ := bind_eq_ok.mp h
      cases h
      rfl
    · obtain ⟨⟨_, _⟩, -, h⟩ := bind_eq_ok.mp h
      cases h
      rfl
  rw [hsame]
  exact Or.inr hover

theorem processStmtExecute_overwrites
    (h : processStmtExecute floatText p req view record = .ok (.needsMoreData, record', req')) :
    Overwritten req' := by
  rcases processStmtExecute_packet h with ⟨hstate, -⟩ | ⟨first, rest, rfl, hfirst⟩
  · cases hstate
  · refine ⟨first, rfl, ?_⟩
    rcases hfirst with rfl | rfl
    · decide
    · decide

/-- The command of a request is `COM_STMT_EXECUTE`. -/
def Executes (req : MysqlPacket) : Prop := req.msg.head? = some 0x17

instance (req : MysqlPacket) : Decidable (Executes req) :=
  inferInstanceAs (Decidable (req.msg.head? = some 0x17))

theorem parseCommand_execute_iff :
    ∀ byte : UInt8, some byte = some 0x17 ↔ (parseCommand byte).1 = kStmtExecute := by
  decide +kernel

/-- **What waiting leaves**: any other request is as it was, and so are the statements. -/
theorem processPackets_waiting {r : Processed}
    (h : processPackets floatText m req view = .ok r) (hwaits : r.parseState = .needsMoreData) :
    if Executes req then Overwritten r.reqPacket else r.reqPacket = req ∧ r.state = m := by
  obtain ⟨byte, hbyte, hhandled⟩ := processPackets_handled h
  have hexecutes : Executes req ↔ (parseCommand byte).1 = kStmtExecute := by
    rw [Executes, Option.mem_def.mp hbyte]
    exact parseCommand_execute_iff byte
  rw [if_congr hexecutes rfl rfl]
  rcases hhandled with ⟨hcommand, hcall⟩ | ⟨hcommand, hcall⟩ | ⟨hcommand, hcall⟩
    | ⟨hcommand, hcall⟩ | ⟨hcommand, hcall⟩ | ⟨hcommand, hcall⟩ | ⟨hcommand, hcall⟩
    | ⟨hcommand, hcall⟩ | hcommand
  · rw [if_neg]
    · exact ⟨rfl, rfl⟩
    · intro heq
      rw [heq] at hcommand
      cases hcommand
  · rw [if_neg (by rw [hcommand]; decide)]
    exact ⟨rfl, rfl⟩
  · rw [if_neg (by rw [hcommand]; decide)]
    exact ⟨rfl, rfl⟩
  · rw [if_neg (by rw [hcommand]; decide)]
    refine ⟨rfl, processStmtPrepare_state hcall ?_⟩
    dsimp only at hwaits
    rw [hwaits]
    decide
  · rw [if_neg (by rw [hcommand]; decide)]
    exact ⟨rfl, rfl⟩
  · rw [if_pos hcommand]
    cases hwaits
    exact processStmtExecute_overwrites hcall
  · cases hwaits
    exact absurd (congrArg Prod.fst hcall) processStmtClose_state
  · rw [if_neg (by rw [hcommand]; decide)]
    exact ⟨rfl, rfl⟩
  · cases hwaits

/-! ## Matching again -/

theorem syncRespQueue_append (req : MysqlPacket) (early late : List MysqlPacket) :
    syncRespQueue req (syncRespQueue req early ++ late) = syncRespQueue req (early ++ late) := by
  unfold syncRespQueue
  induction early with
  | nil => rfl
  | cons resp early ih =>
      by_cases hold : resp.base.timestampNs < req.base.timestampNs
      · rw [List.dropWhile_cons_of_pos (by simpa using hold), List.cons_append,
          List.dropWhile_cons_of_pos (by simpa using hold)]
        exact ih
      · rw [List.dropWhile_cons_of_neg (by simpa using hold)]

/-- The responses that are too old make no difference. -/
theorem matchStreams_sync (respStream : List MysqlPacket) :
    matchStreams floatText m [req] (syncRespQueue req respStream)
      = matchStreams floatText m [req] respStream := by
  have hsync : syncRespQueue req (syncRespQueue req respStream) = syncRespQueue req respStream := by
    simpa using syncRespQueue_append req respStream []
  unfold matchStreams matchLoop
  rw [hsync]

/-- A request that is still in the queue was processed, and needs more data. -/
theorem matchStreams_waiting {respStream waiting reqs : List MysqlPacket}
    {records : List (Record Message)}
    (h : matchStreams floatText m [req] respStream = .ok (m', records, req' :: reqs, waiting)) :
    ∃ r view, processPackets floatText m req view = .ok r ∧ r.parseState = .needsMoreData
      ∧ records = [] ∧ reqs = [] ∧ req' = r.reqPacket ∧ m' = r.state
      ∧ waiting = syncRespQueue req respStream := by
  obtain ⟨⟨m₁, records₁, reqStream₁, respStream₁⟩, hloop, h⟩ := bind_eq_ok.mp h
  rw [matchLoop] at hloop
  obtain ⟨byte, -, hloop⟩ := bind_eq_ok.mp hloop
  obtain ⟨r, hprocess, hloop⟩ := bind_eq_ok.mp hloop
  dsimp only at hloop
  by_cases hwaits : r.parseState = .needsMoreData ∧ ([] : List MysqlPacket) = []
      ∧ (getRespView [req] (syncRespQueue req respStream)).length
        = (syncRespQueue req respStream).length
  · rw [if_pos hwaits] at hloop
    obtain ⟨hneeds, -, -⟩ := hwaits
    rw [if_neg (by rw [hneeds]; simp)] at hloop
    cases hloop
    cases h
    exact ⟨r, _, hprocess, hneeds, by simp, rfl, rfl, rfl, rfl⟩
  · rw [if_neg hwaits] at hloop
    cases hloop
    cases h

/-- **Waiting is transparent** just when the request is not one to execute a statement. Where it
is, the packet in the queue is no longer the request. -/
theorem waiting_transparent_iff {early waiting reqs : List MysqlPacket}
    {records : List (Record Message)}
    (hwait : matchStreams floatText m [req] early = .ok (m', records, req' :: reqs, waiting)) :
    (req' = req ∧ ∀ late, matchStreams floatText m' (req' :: reqs) (waiting ++ late)
      = matchStreams floatText m [req] (early ++ late)) ↔ ¬ Executes req := by
  obtain ⟨r, view, hprocess, hneeds, rfl, rfl, rfl, rfl, rfl⟩ := matchStreams_waiting hwait
  have hleaves := processPackets_waiting hprocess hneeds
  by_cases hexecutes : Executes req
  · rw [if_pos hexecutes] at hleaves
    refine iff_of_false ?_ (not_not.mpr hexecutes)
    rintro ⟨hsame, -⟩
    obtain ⟨first, hmsg, hfirst⟩ := hleaves
    rw [hsame, hexecutes] at hmsg
    exact hfirst (Option.some.inj hmsg).symm
  · rw [if_neg hexecutes] at hleaves
    obtain ⟨hreq, hstate⟩ := hleaves
    refine iff_of_true ⟨hreq, ?_⟩ hexecutes
    intro late
    rw [hreq, hstate, ← matchStreams_sync (syncRespQueue req early ++ late),
      ← matchStreams_sync (early ++ late), syncRespQueue_append]

/-! ## A statement that is executed, and a query -/

def requestAt (time : ℕ) (msg : GoString) : MysqlPacket :=
  { base := ⟨time, 0, 0⟩, seqId := 0, msg := msg, cmd := 0, isReq := true }

/-- `SELECT 1`, whose response is still to come, is left as it is. -/
theorem waiting_transparent_select :
    (requestAt 1 (3 :: text "SELECT 1") = requestAt 1 (3 :: text "SELECT 1")
      ∧ ∀ late, matchStreams id State.new [requestAt 1 (3 :: text "SELECT 1")] ([] ++ late)
        = matchStreams id State.new [requestAt 1 (3 :: text "SELECT 1")] ([] ++ late))
      ∧ ¬ Executes (requestAt 1 (3 :: text "SELECT 1")) := by
  have hwait : matchStreams id State.new [requestAt 1 (3 :: text "SELECT 1")] []
      = .ok (State.new, [], [requestAt 1 (3 :: text "SELECT 1")], []) := rfl
  have hnot : ¬ Executes (requestAt 1 (3 :: text "SELECT 1")) := by decide
  exact ⟨(waiting_transparent_iff hwait).mpr hnot, hnot⟩

/-- The request to execute statement 1 waits for its response under another text. -/
theorem execute_overwritten :
    ¬ ∀ floatText m req early m' records req' reqs waiting,
      matchStreams floatText m [req] early = .ok (m', records, req' :: reqs, waiting) →
        req' = req ∧ ∀ late, matchStreams floatText m' (req' :: reqs) (waiting ++ late)
          = matchStreams floatText m [req] (early ++ late) := by
  intro h
  have hqueue : (matchStreams id State.new [requestAt 1 [0x17, 1, 0, 0, 0, 0, 1, 0, 0, 0]] []).map
      (fun r => r.2.2.1.map MysqlPacket.msg) = .ok [text "Execute stmt_id=1."] := by decide +kernel
  obtain ⟨⟨m', records, reqStream, waiting⟩, hmatch, hmsgs⟩ := map_eq_ok hqueue
  rcases reqStream with _ | ⟨req', reqs⟩
  · cases hmsgs
  · obtain ⟨hsame, -⟩ := h _ _ _ _ _ _ _ _ _ hmatch
    have hmsg : req'.msg = text "Execute stmt_id=1." := (List.cons.inj hmsgs).1
    rw [hsame] at hmsg
    exact absurd hmsg (by decide +kernel)

end Kyanos.Mysql
