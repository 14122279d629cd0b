/-
What the response of a MySQL record tells about the reply: its status, and its extent in the stream.

`Status` is a success if the handler says so, and no handler says that a reply failed: an error
packet leaves the status unknown, which counts as failed but is not the status of a failure. An OK
packet leaves it unknown too, where the handler is the one of a basic command or `handleOkMessage`.

The size is that of the packet the response is made from, and of the rows behind it. The definitions,
the end-of-file packets and the packet that ends the reply are not counted, and another resultset
begins a response of its own. So the extent is that of the reply just when the reply is one packet.
-/
import Kyanos.Aggregation
import Kyanos.MysqlRecords
import Kyanos.MysqlSafety

set_option autoImplicit false

open Trace

namespace Kyanos.Mysql

/-! ## Status and extent -/

/-- `Status`. -/
def status (m : MysqlResponse) : ResponseStatus :=
  match m.respStatus with
  | .ok => .successStatus
  | .err => .failStatus
  | .unknown => .unknownStatus
  | .none => .noneStatus

/-- The bytes of the packets in the stream. -/
def streamSize (packets : List MysqlPacket) : ℤ := (packets.map fun packet => packet.base.byteSize).sum

/-- How a resultset may end: with the status of a success, or with an error packet, behind which
there is nothing. Some packet of the reply is not counted. -/
structure Counted (view : List MysqlPacket) (resp : MysqlResponse) : Prop where
  size : ∃ counted : List MysqlPacket, counted ≠ [] ∧ counted.Sublist view
    ∧ counted.length < view.length ∧ resp.base.byteSize = streamSize counted
  status : resp.respStatus = .ok ∨ resp.respStatus = .unknown
    ∧ ∃ last, view.getLast? = some last ∧ isErrPacket last = .ok true

section Sizes

variable {view counted rest : List MysqlPacket} {packet : MysqlPacket}

theorem streamSize_cons : streamSize (packet :: view) = packet.base.byteSize + streamSize view := by
  rw [streamSize, List.map_cons, List.sum_cons]
  rfl

/-- Every packet that is left out makes the size smaller. -/
theorem streamSize_sublist (h : counted.Sublist view) (hpos : ∀ packet ∈ view, 0 < packet.base.byteSize) :
    streamSize counted + (view.length - counted.length) ≤ streamSize view := by
  induction h with
  | slnil => exact le_rfl
  | cons packet h ih =>
      have hpacket := hpos packet List.mem_cons_self
      have hrest := ih fun p hp => hpos p (List.mem_cons_of_mem _ hp)
      rw [streamSize_cons, List.length_cons]
      push_cast
      omega
  | cons_cons packet h ih =>
      have hrest := ih fun p hp => hpos p (List.mem_cons_of_mem _ hp)
      rw [streamSize_cons, streamSize_cons, List.length_cons, List.length_cons]
      push_cast
      omega

theorem getLast?_of_suffix (h : [packet] <:+ view) : view.getLast? = some packet := by
  obtain ⟨front, rfl⟩ := h
  exact List.getLast?_concat

/-- The same reply behind more packets. -/
theorem Counted.suffix {resp : MysqlResponse} (h : Counted rest resp) (hsub : rest <:+ view) :
    Counted view resp := by
  obtain ⟨⟨counted, hne, hcounted, hlt, hsize⟩, hstatus⟩ := h
  refine ⟨⟨counted, hne, hcounted.trans hsub.sublist, hlt.trans_le hsub.length_le, hsize⟩, ?_⟩
  rcases hstatus with hok | ⟨hunknown, last, hlast, herr⟩
  · exact Or.inl hok
  · refine Or.inr ⟨hunknown, last, getLast?_of_suffix (List.IsSuffix.trans ?_ hsub), herr⟩
    obtain ⟨front, rfl⟩ := List.getLast?_eq_some_iff.mp hlast
    exact List.suffix_append front [last]

end Sizes

/-! ## Resultsets -/

section Resultsets

variable {floatText : GoString → GoString} {binary multi : Bool} {view rest : List MysqlPacket}
  {record record' : Exchange} {packet : MysqlPacket}

/-- The rows are the packets that are taken, and their sizes are what is added. -/
theorem takeRows_counted {isRow : MysqlPacket → Except Panic Bool} {n : ℕ} {bytes : ℤ} {ok : Bool}
    (h : takeRows isRow view = .ok (n, bytes, rest, ok)) :
    ∃ rows, view = rows ++ rest ∧ bytes = streamSize rows := by
  induction view generalizing n bytes with
  | nil =>
      cases h
      exact ⟨[], rfl, rfl⟩
  | cons packet packets ih =>
      obtain ⟨status, -, h⟩ := bind_eq_ok.mp h
      rcases status with _ | _
      · obtain ⟨last, -, h⟩ := bind_eq_ok.mp h
        cases h
        exact ⟨[], rfl, rfl⟩
      · obtain ⟨⟨n', bytes', rest', ok'⟩, htail, h⟩ := bind_eq_ok.mp h
        cases h
        obtain ⟨rows, rfl, rfl⟩ := ih htail
        exact ⟨packet :: rows, rfl, streamSize_cons.symm⟩

/-- An error packet changes the text of a response only. -/
theorem handleErrMessage_success {resp : MysqlResponse} (hresp : record.resp = some resp)
    (h : handleErrMessage view record = .ok (.success, record')) :
    ∃ last resp', view = [last] ∧ record'.resp = some resp' ∧ resp'.base = resp.base
      ∧ resp'.respStatus = resp.respStatus := by
  rcases view with _ | ⟨last, rest⟩
  · cases h
  unfold handleErrMessage at h
  dsimp only at h
  rw [hresp] at h
  split_ifs at h with hshort hmore
  · cases h
  · cases h
  · cases h
    obtain rfl : rest = [] := List.length_eq_zero_iff.mp (by omega)
    exact ⟨last, _, rfl, rfl, rfl, rfl⟩

/-- From the rows on: the packet in front ends the resultset. -/
theorem finishResultset_success {response : MysqlResponse} {rows : ℕ}
    (hunknown : response.respStatus = .unknown)
    (h : finishResultset multi view response rows record = .ok (.done .success record')) :
    ∃ last rest resp, view = last :: rest ∧ record'.resp = some resp
      ∧ resp.base.byteSize = response.base.byteSize
      ∧ (resp.respStatus = .ok
        ∨ resp.respStatus = .unknown ∧ rest = [] ∧ isErrPacket last = .ok true) := by
  unfold finishResultset at h
  rcases view with _ | ⟨last, rest⟩
  · cases h
  obtain ⟨isErr, herr, h⟩ := bind_eq_ok.mp h
  rcases isErr with _ | _
  · obtain ⟨more, -, h⟩ := bind_eq_ok.mp h
    rcases more with _ | _
    · cases h
      exact ⟨last, rest, _, rfl, rfl, rfl, Or.inl rfl⟩
    · cases h
  · obtain ⟨⟨state, record₁⟩, hmsg, h⟩ := bind_eq_ok.mp h
    cases h
    obtain ⟨last', resp, hview, hresp, hbase, hstatus⟩ := handleErrMessage_success rfl hmsg
    obtain ⟨rfl, rfl⟩ := List.cons.inj hview
    exact ⟨last, [], resp, rfl, hresp, by rw [hbase], Or.inr ⟨hstatus.trans hunknown, rfl, herr⟩⟩

/-- One resultset ends the reply: some of its packets are not counted, or it is an OK packet behind
another resultset. -/
theorem handleResultset_success
    (h : handleResultset floatText binary multi view record = .ok (.done .success record')) :
    ∃ resp, record'.resp = some resp ∧ (Counted view resp
      ∨ multi = true ∧ resp.respStatus = .ok ∧ ∃ first ∈ view.head?, resp.base = first.base) := by
  rcases view with _ | ⟨firstResp, respView⟩
  · cases h
  unfold handleResultset at h
  dsimp only at h
  obtain ⟨isOk, hok, h⟩ := bind_eq_ok.mp h
  rcases isOk with _ | _
  case true =>
    cases h
    refine ⟨_, rfl, Or.inr ⟨?_, rfl, firstResp, rfl, rfl⟩⟩
    rcases multi with _ | _
    · cases hok
    · rfl
  rw [if_neg Bool.false_ne_true] at h
  obtain ⟨⟨numCol, paramOffset, ok⟩, -, h⟩ := bind_eq_ok.mp h
  dsimp only at h
  split at h
  · cases h
  split at h
  · cases h
  obtain ⟨⟨state, colDefs, rest₁⟩, hcols, h⟩ := bind_eq_ok.mp h
  have hsub₁ := takeColumnDefs_suffix hcols
  dsimp only at h
  by_cases hstate : state ≠ .success
  · rw [if_pos hstate] at h
    cases h
    exact absurd rfl hstate
  rw [if_neg hstate] at h
  by_cases hnil : rest₁.length = 0
  · rw [if_pos hnil] at h
    cases h
  rw [if_neg hnil] at h
  obtain ⟨rest₂, heof, h⟩ := bind_eq_ok.mp h
  have hsub₂ := (skipEOF_suffix heof).trans hsub₁
  obtain ⟨⟨n, bytes, rest₃, ok₃⟩, hrows, h⟩ := bind_eq_ok.mp h
  obtain ⟨rows, hsplit, hbytes⟩ := takeRows_counted hrows
  dsimp only at h
  by_cases hbad : (!ok₃) = true
  · rw [if_pos hbad] at h
    cases h
  rw [if_neg hbad] at h
  obtain ⟨last, rest, resp, hlast, hresp, hsize, hstatus⟩ := finishResultset_success rfl h
  have hsub₃ : last :: rest <:+ firstResp :: respView := by
    rw [← hlast]
    have hrest : rest₃ <:+ rest₂ := hsplit ▸ List.suffix_append rows rest₃
    exact (hrest.trans hsub₂).trans (List.suffix_cons firstResp respView)
  refine ⟨resp, hresp, Or.inl ⟨⟨firstResp :: rows, List.cons_ne_nil _ _, ?_, ?_, ?_⟩, ?_⟩⟩
  · -- The rows lie behind the first packet, and in front of the last one.
    have hrows : rows.Sublist rest₂ := hsplit ▸ List.sublist_append_left rows rest₃
    exact (hrows.trans hsub₂.sublist).cons_cons firstResp
  · have hlen := hsub₂.length_le
    rw [hsplit, hlast, List.length_append, List.length_cons] at hlen
    rw [List.length_cons, List.length_cons]
    omega
  · rw [hsize, streamSize_cons, hbytes]
    rfl
  · rcases hstatus with hok | ⟨hunknown, rfl, herr⟩
    · exact Or.inl hok
    · exact Or.inr ⟨hunknown, last, getLast?_of_suffix hsub₃, herr⟩

/-- One resultset after another. -/
theorem handleResultsets_success {n : ℕ}
    (h : handleResultsets floatText binary n multi view record = .ok (.success, record')) :
    ∃ resp, record'.resp = some resp ∧ (Counted view resp
      ∨ multi = true ∧ resp.respStatus = .ok ∧ ∃ first ∈ view.head?, resp.base = first.base) := by
  induction n generalizing multi view record with
  | zero => cases h
  | succ n ih =>
      rw [handleResultsets] at h
      obtain ⟨outcome, hset, h⟩ := bind_eq_ok.mp h
      rcases outcome with ⟨state, record₁⟩ | ⟨rest, record₁⟩
      · cases h
        exact handleResultset_success hset
      · obtain ⟨-, hlt, hsub⟩ := @handleResultset_outcome 0 _ _ _ _ _ _ hset
        obtain ⟨resp, hresp, hcounted | ⟨-, hok, first, hfirst, hbase⟩⟩ := ih h
        · exact ⟨resp, hresp, Or.inl (hcounted.suffix hsub)⟩
        · refine ⟨resp, hresp, Or.inl ⟨⟨[first], List.cons_ne_nil _ _, ?_, ?_, ?_⟩, Or.inl hok⟩⟩
          · exact List.singleton_sublist.mpr (hsub.subset (List.mem_of_mem_head? hfirst))
          · rw [List.length_singleton]
            have hpos := List.length_pos_of_mem (List.mem_of_mem_head? hfirst)
            omega
          · rw [hbase, streamSize_cons]
            exact (add_zero _).symm

theorem handleResultsetResponse_success
    (h : handleResultsetResponse floatText binary view record = .ok (.success, record')) :
    ∃ resp, record'.resp = some resp ∧ Counted view resp := by
  obtain ⟨resp, hresp, hcounted | ⟨hmulti, -⟩⟩ := handleResultsets_success h
  · exact ⟨resp, hresp, hcounted⟩
  · cases hmulti

end Resultsets

/-! ## Replies -/

/-- What the response of a successful record is made from: the first packet of the reply alone, or a
resultset. -/
inductive Served (command : Command) (first : MysqlPacket) (rest : List MysqlPacket) :
    Option MysqlResponse → Prop
  | basic {resp : MysqlResponse} (hcommand : (basicCommands.lookup command).isSome)
      (hrest : rest = []) (hstatus : resp.respStatus = .unknown) :
      Served command first rest (some resp)
  | quit {resp : MysqlResponse} (hcommand : command = kQuit) (hstatus : resp.respStatus = .ok) :
      Served command first rest (some resp)
  | error {resp : Option MysqlResponse}
      (hcommand : command = kQuery ∨ command = kStmtPrepare ∨ command = kStmtExecute)
      (herr : isErrPacket first = .ok true)
      (hresp : ∀ r ∈ resp, r.base = first.base ∧ r.respStatus = .unknown)
      (hshort : resp = none ↔ first.msg.length < kMinErrPacketSize)
      (hexecute : command ≠ kQuery → command ≠ kStmtPrepare → rest = [] ∧ resp ≠ none) :
      Served command first rest resp
  | okMessage {resp : MysqlResponse} (hcommand : command = kQuery ∨ command = kStmtExecute)
      (herr : isErrPacket first = .ok false) (hok : isOkPacket first = .ok true) (hrest : rest = [])
      (hbase : resp.base = first.base) (hstatus : resp.respStatus = .unknown) :
      Served command first rest (some resp)
  | resultset {resp : MysqlResponse} (hcommand : command = kQuery ∨ command = kStmtExecute)
      (herr : isErrPacket first = .ok false) (hok : isOkPacket first = .ok false)
      (hcounted : Counted (first :: rest) resp) : Served command first rest (some resp)
  | prepared {resp : MysqlResponse} (hcommand : command = kStmtPrepare)
      (herr : isErrPacket first = .ok false) (hsize : resp.base.byteSize = first.base.byteSize)
      (hseq : resp.base.seq = first.base.seq) (hstatus : resp.respStatus = .ok) :
      Served command first rest (some resp)

section Replies

variable {floatText : GoString → GoString} {m m' : State} {req req' first : MysqlPacket}
  {rest : List MysqlPacket} {record record' : Exchange} {state : ParseState}

theorem handleErrMessage_none (hresp : record.resp = none)
    (h : handleErrMessage (first :: rest) record = .ok (state, record')) :
    (∀ r ∈ record'.resp, r.base = first.base ∧ r.respStatus = .unknown)
      ∧ (record'.resp = none ↔ first.msg.length < kMinErrPacketSize)
      ∧ (state = .success → rest = [] ∧ record'.resp ≠ none) := by
  unfold handleErrMessage at h
  dsimp only at h
  rw [hresp] at h
  by_cases hshort : first.msg.length < kMinErrPacketSize
  · rw [if_pos hshort] at h
    cases h
    rw [hresp]
    refine ⟨?_, iff_of_true rfl hshort, ?_⟩
    · rintro _ ⟨⟩
    · rintro ⟨⟩
  · rw [if_neg hshort] at h
    cases h
    refine ⟨?_, iff_of_false (by simp) hshort, ?_⟩
    · rintro _ ⟨⟩
      exact ⟨rfl, rfl⟩
    · intro hstate
      split_ifs at hstate with hmore
      exact ⟨List.length_eq_zero_iff.mp (by omega), by simp⟩

theorem handleOkMessage_success (h : handleOkMessage (first :: rest) record = .ok (.success, record')) :
    rest = [] ∧ ∃ resp, record'.resp = some resp ∧ resp.base = first.base
      ∧ resp.respStatus = .unknown := by
  unfold handleOkMessage at h
  dsimp only at h
  split_ifs at h with hshort hmore
  · cases h
  · cases h
  · cases h
    exact ⟨List.length_eq_zero_iff.mp (by omega), _, rfl, rfl, rfl⟩

theorem processRequestWithBasicResponse_success {stringReq : Bool}
    (h : processRequestWithBasicResponse req stringReq (first :: rest) record
      = .ok (.success, record')) :
    rest = [] ∧ ∃ resp, record'.resp = some resp ∧ resp.respStatus = .unknown := by
  unfold processRequestWithBasicResponse at h
  obtain ⟨resultReq, -, h⟩ := bind_eq_ok.mp h
  dsimp only at h
  split at h
  · cases h
  rename_i hmore
  have hrest : rest = [] := List.length_eq_zero_iff.mp (by omega)
  obtain ⟨isOk, -, h⟩ := bind_eq_ok.mp h
  obtain ⟨isEOF, -, h⟩ := bind_eq_ok.mp h
  split at h
  · cases h
    exact ⟨hrest, _, rfl, rfl⟩
  obtain ⟨isErr, -, h⟩ := bind_eq_ok.mp h
  split at h
  · obtain ⟨last, resp, -, hresp, -, hstatus⟩ := handleErrMessage_success rfl h
    exact ⟨hrest, resp, hresp, hstatus⟩
  · cases h

theorem processQuit_success (h : processQuit req (first :: rest) record = .ok (.success, record')) :
    ∃ resp, record'.resp = some resp ∧ resp.respStatus = .ok := by
  unfold processQuit at h
  obtain ⟨resultReq, -, h⟩ := bind_eq_ok.mp h
  obtain ⟨isOk, -, h⟩ := bind_eq_ok.mp h
  rcases isOk with _ | _
  · cases h
  · cases h
    exact ⟨_, rfl, rfl⟩

theorem processQuery_served {command : Command} (hcommand : command = kQuery)
    (h : processQuery floatText req (first :: rest) Exchange.empty = .ok (.success, record')) :
    Served command first rest record'.resp := by
  unfold processQuery at h
  obtain ⟨resultReq, -, h⟩ := bind_eq_ok.mp h
  obtain ⟨isErr, herr, h⟩ := bind_eq_ok.mp h
  rcases isErr with _ | _
  · obtain ⟨isOk, hok, h⟩ := bind_eq_ok.mp h
    rcases isOk with _ | _
    · obtain ⟨resp, hresp, hcounted⟩ := handleResultsetResponse_success h
      rw [hresp]
      exact .resultset (Or.inl hcommand) herr hok hcounted
    · obtain ⟨hrest, resp, hresp, hbase, hstatus⟩ := handleOkMessage_success h
      rw [hresp]
      exact .okMessage (Or.inl hcommand) herr hok hrest hbase hstatus
  · obtain ⟨⟨state, record₁⟩, hmsg, h⟩ := bind_eq_ok.mp h
    cases h
    obtain ⟨hresp, hshort, -⟩ := handleErrMessage_none rfl hmsg
    exact .error (Or.inl hcommand) herr hresp hshort (fun hne => absurd hcommand hne)

/-- The definitions move the time of the response, and nothing else of it. -/
theorem takeDefinitions_base {n : ℕ} {resp resp' : MysqlResponse} {colDefs : List ColDefinition}
    {packets packets' : List MysqlPacket}
    (h : takeDefinitions n resp packets = .ok (state, colDefs, resp', packets')) :
    resp'.base.byteSize = resp.base.byteSize ∧ resp'.base.seq = resp.base.seq := by
  induction n generalizing resp packets state colDefs with
  | zero =>
      cases h
      exact ⟨rfl, rfl⟩
  | succ n ih =>
      rcases packets with _ | ⟨packet, packets⟩
      · cases h
        exact ⟨rfl, rfl⟩
      · rw [takeDefinitions] at h
        obtain ⟨colDef, -, h⟩ := bind_eq_ok.mp h
        rcases colDef with _ | colDef
        · cases h
          exact ⟨rfl, rfl⟩
        · obtain ⟨⟨state', colDefs', resp'', rest'⟩, htake, h⟩ := bind_eq_ok.mp h
          cases h
          obtain ⟨hsize, hseq⟩ := ih htake
          exact ⟨hsize, hseq⟩

theorem takeEOF_base {n : ℕ} {resp resp' : MysqlResponse} {packets packets' : List MysqlPacket}
    (h : takeEOF n resp packets = .ok (resp', packets')) :
    resp'.base.byteSize = resp.base.byteSize ∧ resp'.base.seq = resp.base.seq := by
  unfold takeEOF at h
  split_ifs at h
  · cases h
    exact ⟨rfl, rfl⟩
  · rcases packets with _ | ⟨packet, packets⟩
    · cases h
      exact ⟨rfl, rfl⟩
    · obtain ⟨isEOF, -, h⟩ := bind_eq_ok.mp h
      split_ifs at h
      · cases h
        exact ⟨rfl, rfl⟩
      · cases h
        exact ⟨rfl, rfl⟩

/-- The size of the response is that of the packet in front. -/
theorem handleStmtPrepareOKResponse_success
    (h : handleStmtPrepareOKResponse m (first :: rest) record = .ok (.success, record', m')) :
    ∃ resp, record'.resp = some resp ∧ resp.base.byteSize = first.base.byteSize
      ∧ resp.base.seq = first.base.seq ∧ resp.respStatus = .ok := by
  unfold handleStmtPrepareOKResponse at h
  dsimp only at h
  split at h
  · cases h
  split at h
  · cases h
  obtain ⟨⟨state₁, paramDefs, resp₁, packets₁⟩, hparams, h⟩ := bind_eq_ok.mp h
  obtain ⟨hsize₁, hseq₁⟩ := takeDefinitions_base hparams
  dsimp only at h
  split at h
  · rename_i hne
    cases h
    exact absurd rfl hne
  obtain ⟨⟨resp₂, packets₂⟩, heof₁, h⟩ := bind_eq_ok.mp h
  obtain ⟨hsize₂, hseq₂⟩ := takeEOF_base heof₁
  obtain ⟨⟨state₃, colDefs, resp₃, packets₃⟩, hcols, h⟩ := bind_eq_ok.mp h
  obtain ⟨hsize₃, hseq₃⟩ := takeDefinitions_base hcols
  dsimp only at h
  split at h
  · rename_i hne
    cases h
    exact absurd rfl hne
  obtain ⟨⟨resp₄, packets₄⟩, heof₂, h⟩ := bind_eq_ok.mp h
  obtain ⟨hsize₄, hseq₄⟩ := takeEOF_base heof₂
  dsimp only at h
  split at h
  · cases h
  · cases h
    refine ⟨_, rfl, ?_, ?_, rfl⟩
    · exact hsize₄.trans (hsize₃.trans (hsize₂.trans hsize₁))
    · exact hseq₄.trans (hseq₃.trans (hseq₂.trans hseq₁))

theorem processStmtPrepare_served {command : Command} (hcommand : command = kStmtPrepare)
    (h : processStmtPrepare m req (first :: rest) Exchange.empty = .ok (.success, record', m')) :
    Served command first rest record'.resp := by
  unfold processStmtPrepare at h
  obtain ⟨resultReq, -, h⟩ := bind_eq_ok.mp h
  obtain ⟨isErr, herr, h⟩ := bind_eq_ok.mp h
  rcases isErr with _ | _
  · obtain ⟨resp, hresp, hsize, hseq, hstatus⟩ := handleStmtPrepareOKResponse_success h
    rw [hresp]
    exact .prepared hcommand herr hsize hseq hstatus
  · obtain ⟨⟨state, record₁⟩, hmsg, h⟩ := bind_eq_ok.mp h
    cases h
    obtain ⟨hresp, hshort, -⟩ := handleErrMessage_none rfl hmsg
    refine .error (Or.inr (Or.inl hcommand)) herr hresp hshort ?_
    intro _ hne
    exact absurd hcommand hne

theorem processStmtExecute_served {command : Command} (hcommand : command = kStmtExecute)
    (h : processStmtExecute floatText m req (first :: rest) Exchange.empty
      = .ok (.success, record', req')) : Served command first rest record'.resp := by
  unfold processStmtExecute at h
  obtain ⟨⟨state, record₁, req₁⟩, hreq, h⟩ := bind_eq_ok.mp h
  dsimp only at h
  split at h
  · rename_i hne
    cases h
    exact absurd rfl hne
  rename_i hstate
  obtain rfl : state = .success := not_not.mp hstate
  obtain ⟨hnone, -⟩ := handleStmtExecuteRequest_req hreq
  obtain ⟨isErr, herr, h⟩ := bind_eq_ok.mp h
  rcases isErr with _ | _
  · obtain ⟨isOk, hok, h⟩ := bind_eq_ok.mp h
    rcases isOk with _ | _
    · obtain ⟨⟨state₂, record₂⟩, hset, h⟩ := bind_eq_ok.mp h
      cases h
      obtain ⟨resp, hresp, hcounted⟩ := handleResultsetResponse_success hset
      rw [hresp]
      exact .resultset (Or.inr hcommand) herr hok hcounted
    · obtain ⟨⟨state₂, record₂⟩, hmsg, h⟩ := bind_eq_ok.mp h
      cases h
      obtain ⟨hrest, resp, hresp, hbase, hstatus⟩ := handleOkMessage_success hmsg
      rw [hresp]
      exact .okMessage (Or.inr hcommand) herr hok hrest hbase hstatus
  · obtain ⟨⟨state₂, record₂⟩, hmsg, h⟩ := bind_eq_ok.mp h
    cases h
    obtain ⟨hresp, hshort, hrest⟩ := handleErrMessage_none hnone hmsg
    refine .error (Or.inr (Or.inr hcommand)) herr hresp hshort ?_
    intro _ _
    exact hrest rfl

/-- **What a successful reply leaves in the record.** -/
theorem processPackets_served {r : Processed}
    (h : processPackets floatText m req (first :: rest) = .ok r) (hsuccess : r.parseState = .success) :
    ∃ byte ∈ req.msg.head?, Served (parseCommand byte).1 first rest r.record.resp := by
  obtain ⟨byte, hbyte, hhandled⟩ := processPackets_handled h
  refine ⟨byte, hbyte, ?_⟩
  rcases hhandled with ⟨hbasic, hcall⟩ | ⟨hquit, hcall⟩ | ⟨hquery, hcall⟩ | ⟨hprepare, hcall⟩
    | ⟨-, hcall⟩ | ⟨hexecute, hcall⟩ | ⟨-, hcall⟩ | ⟨-, hcall⟩ | -
  · cases hsuccess
    obtain ⟨hrest, resp, hresp, hstatus⟩ := processRequestWithBasicResponse_success hcall
    rw [hresp]
    exact .basic (Option.isSome_iff_exists.mpr ⟨_, hbasic⟩) hrest hstatus
  · cases hsuccess
    obtain ⟨resp, hresp, hstatus⟩ := processQuit_success hcall
    rw [hresp]
    exact .quit hquit hstatus
  · cases hsuccess
    exact processQuery_served hquery hcall
  · cases hsuccess
    exact processStmtPrepare_served hprepare hcall
  · -- A request without a response is not a success behind packets.
    cases hsuccess
    obtain ⟨resultReq, -, hnone⟩ := bind_eq_ok.mp hcall
    cases Except.ok.inj hnone
  · cases hsuccess
    exact processStmtExecute_served hexecute hcall
  · cases hsuccess
    unfold processStmtClose handleStmtCloseRequest at hcall
    by_cases hlen : req.msg.length < 1 + kStmtIDBytes
    · rw [if_pos hlen] at hcall
      cases hcall
    · rw [if_neg hlen] at hcall
      cases hcall
  · obtain ⟨resultReq, -, hignore⟩ := bind_eq_ok.mp hcall
    cases hignore
    cases hsuccess
  · cases hsuccess

end Replies

/-! ## The status of a reply -/

/-- The reply ends with an OK packet or an end-of-file packet. -/
def EndsWell (last : MysqlPacket) : Prop :=
  isOkPacket last = .ok true ∨ isEOFPacketAll last = .ok true

/-- The status is that of the packet the reply ends with, and the statistics count the record as failed
just if that is an error packet. -/
structure StatusReflects {F : Type} (ops : Analysis.FloatOps F) (opts : Analysis.AnalysisOptions)
    (last : MysqlPacket) (resp : Option MysqlResponse) : Prop where
  failure : isErrPacket last = .ok true → resp.map status = some .failStatus
  success : EndsWell last → resp.map status = some .successStatus
  counted : isErrPacket last = .ok true ∨ EndsWell last →
    ∀ (ρ : Type) (o : Analysis.Aggregator ρ F) (ar : Analysis.AnnotatedRecord ρ F),
      ar.status = resp.map status → (o.receive ops opts ar).failedCount
        = if isErrPacket last = .ok true then o.failedCount + 1 else o.failedCount

/-- The reply does not end with an error packet; and if it ends with one of the others, then its handler
says so: that of `kQuit`, that of a statement that is prepared, and that of a resultset. -/
def Told (command : Command) (first last : MysqlPacket) : Prop :=
  isErrPacket last ≠ .ok true ∧ (EndsWell last → command = kQuit
    ∨ isErrPacket first = .ok false ∧ (command = kStmtPrepare
      ∨ (command = kQuery ∨ command = kStmtExecute) ∧ isOkPacket first = .ok false))

section Status

variable {F : Type} {ops : Analysis.FloatOps F} {opts : Analysis.AnalysisOptions}
  {command : Command} {first last : MysqlPacket} {rest : List MysqlPacket}
  {resp : Option MysqlResponse}

/-- A packet begins with one byte. -/
theorem isErrPacket_of_endsWell (h : EndsWell last) : isErrPacket last ≠ .ok true := by
  rcases hmsg : last.msg with _ | ⟨b, rest⟩
  · intro herr
    unfold isErrPacket at herr
    rw [hmsg] at herr
    cases herr
  · rw [isErrPacket_cons hmsg]
    have hb : b = kRespHeaderOK ∨ b = kRespHeaderEOF := by
      rcases h with hok | heof
      · obtain ⟨ok, hread, hheader⟩ := isOkPacket_cons hmsg
        rw [hread] at hok
        cases hok
        exact (hheader rfl).imp_right And.left
      · rw [isEOFPacketAll_cons hmsg] at heof
        have heof := Except.ok.inj heof
        rw [Bool.and_eq_true, beq_iff_eq] at heof
        exact Or.inr heof.1
    rcases hb with rfl | rfl
    · simp [kRespHeaderOK, kRespHeaderErr]
    · simp [kRespHeaderEOF, kRespHeaderErr]

/-- What the statistics count follows from the status. -/
theorem statusReflects_iff : StatusReflects ops opts last resp
    ↔ (isErrPacket last = .ok true → resp.map status = some .failStatus)
      ∧ (EndsWell last → resp.map status = some .successStatus) := by
  constructor
  · rintro ⟨hfailure, hsuccess, -⟩
    exact ⟨hfailure, hsuccess⟩
  · rintro ⟨hfailure, hsuccess⟩
    refine ⟨hfailure, hsuccess, ?_⟩
    rintro hends ρ o ar har
    unfold Analysis.ConnStat.receive Analysis.AnnotatedRecord.failed
    rw [har]
    rcases hends with herr | hwell
    · rw [hfailure herr, if_pos herr]
      rfl
    · rw [hsuccess hwell, if_neg (isErrPacket_of_endsWell hwell)]
      rfl

/-- Of a response that says nothing the reply must not tell anything either. -/
theorem statusReflects_unknown (h : ∀ r ∈ resp, r.respStatus = .unknown) :
    StatusReflects ops opts last resp ↔ isErrPacket last ≠ .ok true ∧ ¬EndsWell last := by
  have hstatus : resp.map status ≠ some .failStatus ∧ resp.map status ≠ some .successStatus := by
    rcases resp with _ | r
    · simp
    · rw [Option.map_some, status, h r rfl]
      simp
  rw [statusReflects_iff]
  exact and_congr (imp_iff_not hstatus.1) (imp_iff_not hstatus.2)

theorem statusReflects_ok {r : MysqlResponse} (h : r.respStatus = .ok) :
    StatusReflects ops opts last (some r) ↔ isErrPacket last ≠ .ok true := by
  have hstatus : (some r).map status = some .successStatus := by
    rw [Option.map_some, status, h]
  rw [statusReflects_iff, hstatus]
  simp

theorem told_unknown (hquit : command ≠ kQuit) (h : isErrPacket first = .ok false →
    command ≠ kStmtPrepare ∧ (command = kQuery ∨ command = kStmtExecute → isOkPacket first ≠ .ok false)) :
    Told command first last ↔ isErrPacket last ≠ .ok true ∧ ¬EndsWell last := by
  refine and_congr_right fun _ => imp_iff_not ?_
  rintro (hcommand | ⟨herr, hprepare | ⟨hcommand, hok⟩⟩)
  · exact hquit hcommand
  · exact (h herr).1 hprepare
  · exact (h herr).2 hcommand hok

/-- Each command has one handler. -/
theorem basic_apart (h : (basicCommands.lookup command).isSome) :
    command ≠ kQuit ∧ command ≠ kStmtPrepare ∧ command ≠ kQuery ∧ command ≠ kStmtExecute := by
  refine ⟨?_, ?_, ?_, ?_⟩ <;> rintro rfl <;> revert h <;> decide

theorem not_quit (h : command = kQuery ∨ command = kStmtPrepare ∨ command = kStmtExecute) :
    command ≠ kQuit := by
  rintro rfl
  revert h
  decide

theorem not_prepare (h : command = kQuery ∨ command = kStmtExecute) : command ≠ kStmtPrepare := by
  rintro rfl
  revert h
  decide

theorem Served.statusReflects_iff (h : Served command first rest resp)
    (hlast : (first :: rest).getLast? = some last) :
    StatusReflects ops opts last resp ↔ Told command first last := by
  rcases h with ⟨hcommand, -, hstatus⟩ | ⟨hcommand, hstatus⟩ | ⟨hcommand, herr, hresp, -, -⟩
    | ⟨hcommand, -, hok, -, -, hstatus⟩ | ⟨hcommand, herr, hok, hcounted⟩ | ⟨hcommand, herr, -, -, hstatus⟩
  · obtain ⟨hquit, hprepare, hquery, hexecute⟩ := basic_apart hcommand
    rw [statusReflects_unknown (by rintro _ ⟨⟩; exact hstatus), told_unknown hquit]
    exact fun _ => ⟨hprepare, fun hor => absurd hor (not_or.mpr ⟨hquery, hexecute⟩)⟩
  · rw [statusReflects_ok hstatus]
    exact (and_iff_left fun _ => Or.inl hcommand).symm
  · rw [statusReflects_unknown fun r hr => (hresp r hr).2, told_unknown (not_quit hcommand)]
    intro hnot
    rw [herr] at hnot
    cases hnot
  · have hquit := not_quit (hcommand.imp_right Or.inr)
    rw [statusReflects_unknown (by rintro _ ⟨⟩; exact hstatus), told_unknown hquit]
    refine fun _ => ⟨not_prepare hcommand, fun _ => ?_⟩
    rw [hok]
    simp
  · rcases hcounted.status with hstatus | ⟨hstatus, last', hlast', hends⟩
    · rw [statusReflects_ok hstatus]
      exact (and_iff_left fun _ => Or.inr ⟨herr, Or.inr ⟨hcommand, hok⟩⟩).symm
    · -- The error packet comes behind the rows, and the response does not tell.
      rw [hlast] at hlast'
      cases hlast'
      rw [statusReflects_unknown (by rintro _ ⟨⟩; exact hstatus)]
      exact iff_of_false (fun h => h.1 hends) (fun h => h.1 hends)
  · rw [statusReflects_ok hstatus]
    exact (and_iff_left fun _ => Or.inr ⟨herr, Or.inl hcommand⟩).symm

/-- **The status reflects the reply** just if the handler of the command tells how the reply ended. -/
theorem processPackets_status_iff {floatText : GoString → GoString} {m : State} {req : MysqlPacket}
    {r : Processed} (h : processPackets floatText m req (first :: rest) = .ok r)
    (hsuccess : r.parseState = .success) (hlast : (first :: rest).getLast? = some last) :
    ∃ byte ∈ req.msg.head?, (StatusReflects ops opts last r.record.resp
      ↔ Told (parseCommand byte).1 first last) := by
  obtain ⟨byte, hbyte, hserved⟩ := processPackets_served h hsuccess
  exact ⟨byte, hbyte, hserved.statusReflects_iff hlast⟩

/-- The statistics of replies that are reflected count those that failed. -/
theorem failedCount_replies {ρ : Type} (o : Analysis.Aggregator ρ F)
    (replies : List (Analysis.AnnotatedRecord ρ F × MysqlPacket × Option MysqlResponse))
    (hreplies : ∀ e ∈ replies, e.1.status = e.2.2.map status ∧ StatusReflects ops opts e.2.1 e.2.2
      ∧ (isErrPacket e.2.1 = .ok true ∨ EndsWell e.2.1)) :
    (replies.foldl (fun o e => o.receive ops opts e.1) o).failedCount
      = o.failedCount + replies.countP fun e => isErrPacket e.2.1 = .ok true := by
  induction replies generalizing o with
  | nil => rfl
  | cons e replies ih =>
      obtain ⟨hstatus, hreflects, hends⟩ := hreplies e List.mem_cons_self
      have hstep := hreflects.counted hends ρ o e.1 hstatus
      have hrest := ih (o.receive ops opts e.1) fun e' he' => hreplies e' (List.mem_cons_of_mem _ he')
      rw [List.foldl_cons, hrest, hstep, List.countP_cons]
      by_cases herr : isErrPacket e.2.1 = .ok true
      · rw [if_pos herr, if_pos (by simpa using herr)]
        omega
      · rw [if_neg herr, if_neg (by simpa using herr)]
        omega

end Status

/-- A statement without parameters and columns. -/
def preparedReply : MysqlPacket := packetAt 2 1 false [0, 1, 0, 0, 0, 0, 0, 0, 0, 0, 0, 0]

def okReply : MysqlPacket := packetAt 2 1 false [0, 0, 0, 2, 0, 0, 0]

def countAll : Analysis.AnalysisOptions :=
  { enabledMetricTypeSet := fun _ => false, sampleLimit := 0, classfierType := .none
    subClassfierType := .none }

theorem processPackets_status_iff_sample : ∃ r,
    processPackets id State.new (packetAt 1 0 true (0x16 :: text "SELECT 1")) [preparedReply] = .ok r
      ∧ r.parseState = .success
      ∧ ∃ byte ∈ (0x16 :: text "SELECT 1").head?,
        (StatusReflects Analysis.wholeNumbers countAll preparedReply r.record.resp
          ↔ Told (parseCommand byte).1 preparedReply preparedReply) :=
  ⟨_, rfl, rfl, @processPackets_status_iff ℤ Analysis.wholeNumbers countAll preparedReply preparedReply []
    id State.new (packetAt 1 0 true (0x16 :: text "SELECT 1")) _ rfl rfl rfl⟩

/-- A ping that is answered has no status, and counts as failed. -/
theorem ping_counts_as_failed :
    ¬ ∀ (m : State) (req first last : MysqlPacket) (rest : List MysqlPacket) (r : Processed),
      Parsed .request req → (∀ packet ∈ first :: rest, Parsed .response packet) →
      processPackets id m req (first :: rest) = .ok r → r.parseState = .success →
      (first :: rest).getLast? = some last →
        StatusReflects Analysis.wholeNumbers countAll last r.record.resp := by
  intro h
  have hreq : Parsed .request (packetAt 1 0 true [0x0e]) := ⟨streamAt 1 0 [0x0e], 5, rfl⟩
  have hreply : Parsed .response okReply := ⟨streamAt 2 1 [0, 0, 0, 2, 0, 0, 0], 11, rfl⟩
  have hstatus := h State.new _ okReply okReply [] _ hreq (by simpa using hreply) rfl rfl rfl
  have hok : EndsWell okReply := Or.inl (by decide +kernel)
  cases hstatus.success hok

/-! ## The extent of a reply -/

/-- Each packet begins where the one in front of it ends. -/
def Contiguous (packets : List MysqlPacket) : Prop :=
  packets.IsChain fun a b => (b.base.seq : ℤ) = a.base.seq + a.base.byteSize

/-- The response begins with the reply and is as long as its packets; where these lie one behind
another, each of them is in it. -/
structure Covers (view : List MysqlPacket) (resp : MysqlResponse) : Prop where
  seq : ∀ first ∈ view.head?, resp.base.seq = first.base.seq
  size : resp.base.byteSize = streamSize view
  within : Contiguous view → ∀ packet ∈ view, resp.base.seq ≤ packet.base.seq
    ∧ (packet.base.seq : ℤ) + packet.base.byteSize ≤ resp.base.seq + resp.base.byteSize

section Extent

variable {command : Command} {first packet : MysqlPacket} {rest view : List MysqlPacket}

/-- The size in a frame is what was read of the stream. -/
theorem parseStream_size {sb : StreamBuffer} {messageType : MessageType} {r : ParseResult MysqlPacket}
    (h : parseStream sb messageType = .ok r) :
    ∀ message ∈ r.parsedMessages, message.payload.base.byteSize = r.readBytes := by
  unfold parseStream at h
  split at h
  · cases h
  dsimp only at h
  split at h
  · cases h
    exact fun _ hmem => absurd hmem List.not_mem_nil
  obtain ⟨seqId, -, h⟩ := bind_eq_ok.mp h
  split at h
  · rename_i result hearly
    cases h
    -- A request that ends early has no messages.
    have hnil : r.parsedMessages = [] := by
      split at hearly
      · split at hearly
        · cases hearly
          rfl
        · split_ifs at hearly
          cases hearly
          rfl
      · cases hearly
    rw [hnil]
    exact fun _ hmem => absurd hmem List.not_mem_nil
  split at h
  · cases h
    exact fun _ hmem => absurd hmem List.not_mem_nil
  obtain ⟨msg, -, h⟩ := bind_eq_ok.mp h
  split at h
  · cases h
    exact fun _ hmem => absurd hmem List.not_mem_nil
  · rename_i fb hframe
    cases h
    intro message hmem
    obtain rfl := List.mem_singleton.mp hmem
    obtain ⟨time, -, rfl⟩ := Option.map_eq_some_iff.mp hframe
    rfl

theorem Parsed.size_pos {messageType : MessageType} (h : Parsed messageType packet) :
    0 < packet.base.byteSize := by
  obtain ⟨sb, readBytes, h⟩ := h
  have hsize := parseStream_size h _ List.mem_cons_self
  dsimp only at hsize
  rw [hsize]
  rcases hhead : sb.head with _ | head
  · rw [parseStream, hhead] at h
    cases h
  · exact (parseStream_read hhead h (Or.inl rfl)).1

theorem streamSize_nonneg (hpos : ∀ packet ∈ view, 0 < packet.base.byteSize) : 0 ≤ streamSize view := by
  have hsize := streamSize_sublist (List.nil_sublist view) hpos
  rw [streamSize, List.map_nil, List.sum_nil, List.length_nil] at hsize
  omega

/-- Packets one behind another lie between the start of the first and the end of all of them. -/
theorem within_of_contiguous (h : Contiguous (first :: rest))
    (hpos : ∀ packet ∈ first :: rest, 0 < packet.base.byteSize) (hmem : packet ∈ first :: rest) :
    first.base.seq ≤ packet.base.seq
      ∧ (packet.base.seq : ℤ) + packet.base.byteSize ≤ first.base.seq + streamSize (first :: rest) := by
  induction rest generalizing first with
  | nil =>
      obtain rfl := List.mem_singleton.mp hmem
      refine ⟨le_rfl, ?_⟩
      rw [streamSize_cons]
      exact le_of_eq (by simp [streamSize])
  | cons next rest ih =>
      obtain ⟨hnext, hchain⟩ := List.isChain_cons_cons.mp h
      have hfirst := hpos first List.mem_cons_self
      have hrest : ∀ packet ∈ next :: rest, 0 < packet.base.byteSize :=
        fun p hp => hpos p (List.mem_cons_of_mem _ hp)
      rw [streamSize_cons]
      rcases List.mem_cons.mp hmem with rfl | hmem
      · have hsize := streamSize_nonneg hrest
        exact ⟨le_rfl, by omega⟩
      · have hin := ih hchain hrest hmem
        omega

/-- A response with the start and the size of a packet has the extent of the reply just if this is the
only one. -/
theorem covers_iff_single {resp : MysqlResponse}
    (hpos : ∀ packet ∈ first :: rest, 0 < packet.base.byteSize) (hseq : resp.base.seq = first.base.seq)
    (hsize : resp.base.byteSize = first.base.byteSize) : Covers (first :: rest) resp ↔ rest = [] := by
  constructor
  · rintro ⟨-, hcovers, -⟩
    rw [hsize, streamSize_cons] at hcovers
    by_contra hne
    have hrest := streamSize_sublist (List.nil_sublist rest) fun p hp => hpos p (List.mem_cons_of_mem _ hp)
    have hlen := List.length_pos_iff.mpr hne
    rw [List.length_nil, show streamSize [] = 0 from rfl] at hrest
    omega
  · rintro rfl
    have hall : resp.base.byteSize = streamSize [first] := by
      rw [hsize, streamSize_cons]
      exact (add_zero _).symm
    refine ⟨?_, hall, ?_⟩
    · rintro _ ⟨⟩
      exact hseq
    · intro hchain p hp
      rw [hall, hseq]
      exact within_of_contiguous hchain hpos hp

/-- A resultset always leaves a packet out. -/
theorem Counted.not_covers {resp : MysqlResponse} (h : Counted view resp)
    (hpos : ∀ packet ∈ view, 0 < packet.base.byteSize) : ¬Covers view resp := by
  rintro ⟨-, hcovers, -⟩
  obtain ⟨counted, -, hsub, hlt, hsize⟩ := h.size
  have hle := streamSize_sublist hsub hpos
  omega

theorem shortError_iff (herr : isErrPacket first = .ok true) :
    ShortError first ↔ first.msg.length < kMinErrPacketSize := by
  refine ⟨fun hshort => hshort.2.2, fun hlt => ?_⟩
  by_contra hshort
  exact absurd hlt (Nat.not_lt.mpr (isErrPacket_long herr hshort))

theorem not_shortError (herr : isErrPacket first = .ok false) : ¬ShortError first := by
  rintro ⟨hheader, hlen, -⟩
  rcases hmsg : first.msg with _ | ⟨b, rest⟩
  · rw [hmsg] at hheader
    cases hheader
  · rw [isErrPacket_cons hmsg] at herr
    rw [hmsg] at hheader
    cases hheader
    have hshort := Except.ok.inj herr
    simp only [beq_self_eq_true, Bool.true_and, decide_eq_false_iff_not] at hshort
    exact hshort hlen

theorem Served.covers_iff {resp : Option MysqlResponse} (h : Served command first rest resp)
    (hcommand : command = kQuery ∨ command = kStmtPrepare ∨ command = kStmtExecute)
    (hpos : ∀ packet ∈ first :: rest, 0 < packet.base.byteSize) :
    (∃ r ∈ resp, Covers (first :: rest) r) ↔ rest = [] ∧ ¬ShortError first := by
  rcases h with ⟨hbasic, -, -⟩ | ⟨hquit, -⟩ | ⟨-, herr, hresp, hshort, -⟩
    | ⟨-, herr, -, rfl, hbase, -⟩ | ⟨-, herr, -, hcounted⟩ | ⟨-, herr, hsize, hseq, -⟩
  · obtain ⟨-, hprepare, hquery, hexecute⟩ := basic_apart hbasic
    rcases hcommand with rfl | rfl | rfl <;> contradiction
  · exact absurd hquit (not_quit hcommand)
  · -- A short error packet leaves no response.
    rw [shortError_iff herr, ← hshort]
    rcases resp with _ | r
    · simp
    · obtain ⟨hbase, -⟩ := hresp r rfl
      have hsingle := covers_iff_single hpos (by rw [hbase]) (by rw [hbase] : r.base.byteSize = _)
      simpa using hsingle
  · have hsingle := covers_iff_single hpos (by rw [hbase]) (by rw [hbase])
    simpa [not_shortError herr] using hsingle.mpr rfl
  · refine iff_of_false ?_ ?_
    · rintro ⟨r, ⟨⟩, hcovers⟩
      exact hcounted.not_covers hpos hcovers
    · -- A resultset has a packet that is counted and one that is not.
      rintro ⟨rfl, -⟩
      obtain ⟨counted, hne, -, hlt, -⟩ := hcounted.size
      have hlen := List.length_pos_iff.mpr hne
      rw [List.length_singleton] at hlt
      omega
  · have hsingle := covers_iff_single hpos hseq hsize
    simpa [not_shortError herr] using hsingle

/-- **The response has the extent of the reply** just if the reply is one packet, and no error packet
that is too short for a response. -/
theorem processPackets_extent_iff {floatText : GoString → GoString} {m : State} {req : MysqlPacket}
    {r : Processed} {byte : UInt8} (hbyte : byte ∈ req.msg.head?)
    (hcommand : (parseCommand byte).1 = kQuery ∨ (parseCommand byte).1 = kStmtPrepare
      ∨ (parseCommand byte).1 = kStmtExecute)
    (hparsed : ∀ packet ∈ first :: rest, Parsed .response packet)
    (h : processPackets floatText m req (first :: rest) = .ok r) (hsuccess : r.parseState = .success) :
    (∃ resp ∈ r.record.resp, Covers (first :: rest) resp) ↔ rest = [] ∧ ¬ShortError first := by
  obtain ⟨byte', hbyte', hserved⟩ := processPackets_served h hsuccess
  obtain rfl : byte' = byte := Option.some.inj (hbyte'.symm.trans hbyte)
  exact hserved.covers_iff hcommand fun packet hpacket => (hparsed packet hpacket).size_pos

end Extent

theorem processPackets_extent_iff_sample : ∃ r,
    processPackets id State.new (packetAt 1 0 true (0x16 :: text "SELECT 1")) [preparedReply] = .ok r
      ∧ ((∃ resp ∈ r.record.resp, Covers [preparedReply] resp)
        ↔ ([] : List MysqlPacket) = [] ∧ ¬ShortError preparedReply) := by
  have hreply : Parsed .response preparedReply :=
    ⟨streamAt 2 1 [0, 1, 0, 0, 0, 0, 0, 0, 0, 0, 0, 0], 16, rfl⟩
  exact ⟨_, rfl, @processPackets_extent_iff preparedReply [] id State.new
    (packetAt 1 0 true (0x16 :: text "SELECT 1")) _ 0x16 rfl (Or.inr (Or.inl rfl))
    (by simpa using hreply) rfl rfl⟩

/-- The definition of a parameter. -/
def parameterDef : GoString :=
  [3, 0x64, 0x65, 0x66, 0, 0, 0, 1, 0x3f, 0, 0x0c, 0x3f, 0, 0, 0, 0, 0, 0xfd, 0x80, 0, 0, 0, 0]

/-- A statement with one parameter, and the definition of the parameter behind it. -/
def parameterReply : List MysqlPacket :=
  [packetAt 2 1 false [0, 1, 0, 0, 0, 0, 0, 1, 0, 0, 0, 0],
    { packetAt 2 2 false parameterDef with base := ⟨2, 27, 16⟩ }]

/-- The response is as long as its first packet. -/
theorem prepared_not_covered :
    ¬ ∀ (m : State) (req first : MysqlPacket) (rest : List MysqlPacket) (r : Processed) (byte : UInt8),
      byte ∈ req.msg.head? → (parseCommand byte).1 = kQuery ∨ (parseCommand byte).1 = kStmtPrepare
        ∨ (parseCommand byte).1 = kStmtExecute →
      Parsed .request req → (∀ packet ∈ first :: rest, Parsed .response packet) →
      Contiguous (first :: rest) → processPackets id m req (first :: rest) = .ok r →
      r.parseState = .success → ∃ resp ∈ r.record.resp, Covers (first :: rest) resp := by
  intro h
  have hreq : Parsed .request (packetAt 1 0 true (0x16 :: text "DO ?")) :=
    ⟨streamAt 1 0 (0x16 :: text "DO ?"), 9, rfl⟩
  have hreply : ∀ packet ∈ parameterReply, Parsed .response packet := by
    intro packet hpacket
    rcases List.mem_cons.mp hpacket with rfl | hpacket
    · exact ⟨streamAt 2 1 [0, 1, 0, 0, 0, 0, 0, 1, 0, 0, 0, 0], 16, rfl⟩
    · obtain rfl := List.mem_singleton.mp hpacket
      exact ⟨⟨[⟨23 :: 0 :: 0 :: 2 :: parameterDef, 16⟩], 1024, SortedMap.empty.put 16 2⟩, 27, rfl⟩
  have hchain : Contiguous parameterReply := List.isChain_pair.mpr rfl
  obtain ⟨resp, hresp, hcovers⟩ := h State.new _ _ _ _ 0x16 rfl (Or.inr (Or.inl rfl)) hreq hreply hchain
    rfl rfl
  cases hresp
  exact absurd hcovers.size (by decide +kernel)

end Kyanos.Mysql
