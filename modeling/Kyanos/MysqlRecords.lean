/-
The times of the records the MySQL matcher returns.

A handler that reports success has filled in both sides of the record (`Answers`): the
request is the packet at the front of its queue, and the response carries the time of a
packet in the view, or of the request when the command has no response. Every packet in the
view is at least as late as the request, because older ones were dropped before the view was
cut. So the records run forward in time.

The exception is a short error packet in answer to a query or a prepare request: there the
handler reports success and leaves the response empty.
-/
import Kyanos.Mysql

set_option autoImplicit false

open Trace

namespace Kyanos.Mysql

/-! ## What the handlers fill in -/

/-- The response has the time of the request or of a packet in the view. -/
def TimeIn (ts : ℕ) (view : List MysqlPacket) (resp : Option MysqlResponse) : Prop :=
  ∃ r, resp = some r
    ∧ (r.base.timestampNs = ts ∨ ∃ q ∈ view, r.base.timestampNs = q.base.timestampNs)

/-- The request stays as it is, and the response is there. -/
def Filled (ts : ℕ) (view : List MysqlPacket) (record record' : Exchange) : Prop :=
  record'.req = record.req ∧ TimeIn ts view record'.resp

variable {ts : ℕ} {view rest : List MysqlPacket} {record record' : Exchange} {state : ParseState}
  {floatText : GoString → GoString}

theorem TimeIn.mono {resp : Option MysqlResponse} (h : TimeIn ts rest resp)
    (hsub : ∀ q ∈ rest, q ∈ view) : TimeIn ts view resp := by
  obtain ⟨r, hr, htime⟩ := h
  refine ⟨r, hr, htime.imp_right ?_⟩
  rintro ⟨q, hq, heq⟩
  exact ⟨q, hsub q hq, heq⟩

/-- The time of a packet of the view, whatever else the response holds. -/
theorem timeIn_of_mem {q : MysqlPacket} (hq : q ∈ view) {r : MysqlResponse}
    (h : r.base.timestampNs = q.base.timestampNs) : TimeIn ts view (some r) :=
  ⟨r, rfl, Or.inr ⟨q, hq, h⟩⟩

theorem handleStringRequest_base {req p : MysqlPacket} (h : handleStringRequest req = .ok p) :
    p.base = req.base := by
  unfold handleStringRequest at h
  split at h
  · cases h
  · cases h
    rfl

theorem handleNonStringRequest_base {req p : MysqlPacket}
    (h : handleNonStringRequest req = .ok p) : p.base = req.base := by
  unfold handleNonStringRequest at h
  split at h
  · cases h
  · cases h
    rfl

theorem handleOkMessage_filled (h : handleOkMessage view record = .ok (.success, record')) :
    Filled ts view record record' := by
  unfold handleOkMessage at h
  split at h
  · cases h
  · rename_i resp rest
    split_ifs at h with hshort hmore
    · cases h
    · cases h
    · cases h
      exact ⟨rfl, timeIn_of_mem List.mem_cons_self rfl⟩

/-- An error packet that is long enough is a response, whatever follows it. -/
theorem handleErrMessage_long {first : MysqlPacket}
    (h : handleErrMessage (first :: rest) record = .ok (state, record'))
    (hlong : kMinErrPacketSize ≤ first.msg.length) (hmem : first ∈ view)
    (hresp : record.resp = none ∨ TimeIn ts view record.resp) : Filled ts view record record' := by
  unfold handleErrMessage at h
  dsimp only at h
  rw [if_neg (Nat.not_lt.mpr hlong)] at h
  cases h
  refine ⟨rfl, ?_⟩
  rcases hresp with hnone | ⟨r, hr, htime⟩
  · rw [hnone]
    exact timeIn_of_mem hmem rfl
  · rw [hr]
    exact ⟨_, rfl, htime⟩

theorem handleErrMessage_filled (h : handleErrMessage rest record = .ok (.success, record'))
    (hsub : ∀ q ∈ rest, q ∈ view) (hresp : record.resp = none ∨ TimeIn ts view record.resp) :
    Filled ts view record record' := by
  rcases rest with _ | ⟨first, rest⟩
  · cases h
  · refine handleErrMessage_long h ?_ (hsub first List.mem_cons_self) hresp
    -- A short packet would have been `Invalid`, so success means a long one.
    by_contra hshort
    unfold handleErrMessage at h
    dsimp only at h
    rw [if_pos (Nat.lt_of_not_le hshort)] at h
    cases h

theorem handleNoResponse_filled {req : MysqlPacket}
    (h : handleNoResponse req view record = (.success, record')) :
    Filled req.base.timestampNs view record record' := by
  unfold handleNoResponse at h
  split_ifs at h
  · cases h
  · cases h
    exact ⟨rfl, _, rfl, Or.inl rfl⟩

/-! ## Resultsets -/

theorem takeColumnDefs_suffix {n : ℕ} {colDefs : List ColDefinition}
    (h : takeColumnDefs n view = .ok (state, colDefs, rest)) : rest <:+ view := by
  induction n generalizing view state colDefs with
  | zero =>
      cases h
      exact List.suffix_refl _
  | succ n ih =>
      rcases view with _ | ⟨packet, packets⟩
      · cases h
        exact List.suffix_refl _
      · rw [takeColumnDefs] at h
        obtain ⟨colDef, -, h⟩ := bind_eq_ok.mp h
        rcases colDef with _ | colDef
        · cases h
          exact List.suffix_cons packet _
        · obtain ⟨⟨state', colDefs', rest'⟩, htake, h⟩ := bind_eq_ok.mp h
          cases h
          exact (ih htake).trans (List.suffix_cons packet packets)

theorem skipEOF_suffix (h : skipEOF view = .ok rest) : rest <:+ view := by
  unfold skipEOF at h
  split at h
  · cases h
    exact List.suffix_refl _
  · rename_i packet packets
    obtain ⟨isEOF, -, h⟩ := bind_eq_ok.mp h
    cases h
    split_ifs
    · exact List.suffix_cons packet packets
    · exact List.suffix_refl _

theorem takeRows_suffix {isRow : MysqlPacket → Except Panic Bool} {rows : ℕ} {bytes : ℤ} {ok : Bool}
    (h : takeRows isRow view = .ok (rows, bytes, rest, ok)) : rest <:+ view := by
  induction view generalizing rows bytes with
  | nil =>
      cases h
      exact List.suffix_refl _
  | cons packet packets ih =>
      rw [takeRows] at h
      obtain ⟨status, -, h⟩ := bind_eq_ok.mp h
      split_ifs at h
      · obtain ⟨⟨rows', bytes', rest', ok'⟩, htake, h⟩ := bind_eq_ok.mp h
        cases h
        exact (ih htake).trans (List.suffix_cons packet packets)
      · obtain ⟨last, -, h⟩ := bind_eq_ok.mp h
        cases h
        exact List.suffix_refl _

/-- What a resultset may come to: done with a response, or another one behind it. -/
def Outcome (ts : ℕ) (view : List MysqlPacket) (record : Exchange) : ResultsetOutcome → Prop
  | .done state record' => state = .success → Filled ts view record record'
  | .more rest record' => record'.req = record.req ∧ rest.length < view.length ∧ rest <:+ view

theorem finishResultset_outcome {multi : Bool} {response : MysqlResponse} {rows : ℕ}
    {outcome : ResultsetOutcome} (hresponse : TimeIn ts view (some response)) (hsub : rest <:+ view)
    (hlt : rest.length < view.length)
    (h : finishResultset multi rest response rows record = .ok outcome) :
    Outcome ts view record outcome := by
  unfold finishResultset at h
  split at h
  · cases h
    intro hstate
    cases hstate
  · rename_i last rest'
    have hmem : last ∈ view := hsub.subset List.mem_cons_self
    obtain ⟨isErr, -, h⟩ := bind_eq_ok.mp h
    by_cases herr : isErr = true
    · rw [if_pos herr] at h
      obtain ⟨⟨state, record'⟩, hmsg, h⟩ := bind_eq_ok.mp h
      cases h
      intro hstate
      subst hstate
      -- The error packet ends the resultset, whose response is already there.
      have hfilled : Filled ts view { record with resp := some response } record' :=
        handleErrMessage_filled hmsg hsub.subset (Or.inr hresponse)
      exact ⟨hfilled.1, hfilled.2⟩
    · rw [if_neg herr] at h
      obtain ⟨more, -, h⟩ := bind_eq_ok.mp h
      by_cases hmore : more = true
      · rw [if_pos hmore] at h
        cases h
        refine ⟨rfl, ?_, (List.suffix_cons last rest').trans hsub⟩
        rw [List.length_cons] at hlt
        omega
      · rw [if_neg hmore] at h
        cases h
        intro _
        exact ⟨rfl, timeIn_of_mem hmem rfl⟩

/-- **One resultset.** -/
theorem handleResultset_outcome {binary multi : Bool} {outcome : ResultsetOutcome}
    (h : handleResultset floatText binary multi view record = .ok outcome) :
    Outcome ts view record outcome := by
  unfold handleResultset at h
  split at h
  · cases h
    intro hstate
    cases hstate
  · rename_i first rest
    have hfirst : ∀ r : MysqlResponse, r.base.timestampNs = first.base.timestampNs →
        TimeIn ts (first :: rest) (some r) := fun r hr => timeIn_of_mem List.mem_cons_self hr
    -- Every way out without success has nothing to show.
    have hstop : ∀ state record', state ≠ .success →
        Outcome ts (first :: rest) record (.done state record') := fun _ _ hne hs => absurd hs hne
    obtain ⟨isOk, -, h⟩ := bind_eq_ok.mp h
    by_cases hok : isOk = true
    · rw [if_pos hok] at h
      cases h
      intro _
      exact ⟨rfl, hfirst _ rfl⟩
    · rw [if_neg hok] at h
      obtain ⟨⟨numCol, paramOffset, ok⟩, -, h⟩ := bind_eq_ok.mp h
      dsimp only at h
      split at h
      · cases h
        exact hstop _ _ (by decide)
      split at h
      · cases h
        exact hstop _ _ (by decide)
      obtain ⟨⟨state, colDefs, rest₁⟩, hcols, h⟩ := bind_eq_ok.mp h
      have hsub₁ := takeColumnDefs_suffix hcols
      dsimp only at h
      by_cases hstate : state ≠ .success
      · rw [if_pos hstate] at h
        cases h
        exact hstop _ _ hstate
      rw [if_neg hstate] at h
      by_cases hnil : rest₁.length = 0
      · rw [if_pos hnil] at h
        cases h
        exact hstop _ _ (by decide)
      rw [if_neg hnil] at h
      obtain ⟨rest₂, heof, h⟩ := bind_eq_ok.mp h
      have hsub₂ := (skipEOF_suffix heof).trans hsub₁
      obtain ⟨⟨rows, bytes, rest₃, ok₃⟩, hrows, h⟩ := bind_eq_ok.mp h
      have hsub₃ := (takeRows_suffix hrows).trans hsub₂
      dsimp only at h
      by_cases hbad : (!ok₃) = true
      · rw [if_pos hbad] at h
        cases h
        exact hstop _ _ (by decide)
      rw [if_neg hbad] at h
      have hlt : rest₃.length < (first :: rest).length := Nat.lt_succ_of_le hsub₃.length_le
      exact finishResultset_outcome (hfirst _ rfl) (hsub₃.trans (List.suffix_cons first rest)) hlt h

/-- The bound on the resultsets is never what ends the handler. -/
theorem handleResultsets_enough {binary multi : Bool} {m n : ℕ} (hm : view.length ≤ m)
    (hn : view.length ≤ n) :
    handleResultsets floatText binary m multi view record
      = handleResultsets floatText binary n multi view record := by
  induction m generalizing n multi view record with
  | zero =>
      obtain rfl : view = [] := List.length_eq_zero_iff.mp (Nat.le_zero.mp hm)
      rcases n with _ | n <;> rfl
  | succ m ih =>
      rcases n with _ | n
      · obtain rfl : view = [] := List.length_eq_zero_iff.mp (Nat.le_zero.mp hn)
        rfl
      · rw [handleResultsets, handleResultsets]
        rcases hset : handleResultset floatText binary multi view record with e | outcome
        · rfl
        · have houtcome := @handleResultset_outcome 0 _ _ _ _ _ _ hset
          rcases outcome with ⟨state, record'⟩ | ⟨rest, record'⟩
          · rfl
          · obtain ⟨-, hlt, -⟩ := houtcome
            exact ih (by omega) (by omega)

theorem handleResultsets_filled {binary multi : Bool} {n : ℕ}
    (h : handleResultsets floatText binary n multi view record = .ok (.success, record')) :
    Filled ts view record record' := by
  induction n generalizing multi view record with
  | zero => cases h
  | succ n ih =>
      rw [handleResultsets] at h
      obtain ⟨outcome, hset, h⟩ := bind_eq_ok.mp h
      have houtcome := @handleResultset_outcome ts _ _ _ _ _ _ hset
      rcases outcome with ⟨state, record₁⟩ | ⟨rest, record₁⟩
      · cases h
        exact houtcome rfl
      · obtain ⟨hreq, -, hsub⟩ := houtcome
        obtain ⟨hreq', htime⟩ := ih h
        exact ⟨hreq'.trans hreq, htime.mono hsub.subset⟩

/-! ## The handlers -/

/-- The record holds the request, and a response to it. -/
structure Answers (req : MysqlPacket) (view : List MysqlPacket) (e : Exchange) : Prop where
  request : ∃ p, e.req = some p ∧ p.base = req.base
  response : TimeIn req.base.timestampNs view e.resp

/-- An error packet that `handleErrMessage` takes for no error packet. -/
def ShortError (resp : MysqlPacket) : Prop :=
  resp.msg.head? = some kRespHeaderErr ∧ 3 < resp.msg.length ∧ resp.msg.length < kMinErrPacketSize

instance (resp : MysqlPacket) : Decidable (ShortError resp) :=
  inferInstanceAs (Decidable (_ ∧ _ ∧ _))

variable {req req' : MysqlPacket} {p p' : State}

theorem Filled.answers (h : Filled req.base.timestampNs view record record')
    (hreq : ∃ p, record.req = some p ∧ p.base = req.base) : Answers req view record' := by
  refine ⟨?_, h.2⟩
  rw [h.1]
  exact hreq

/-- An error packet that is not short has all that `handleErrMessage` wants. -/
theorem isErrPacket_long {first : MysqlPacket} (h : isErrPacket first = .ok true)
    (hshort : ¬ShortError first) : kMinErrPacketSize ≤ first.msg.length := by
  obtain ⟨header, hheader, h⟩ := bind_eq_ok.mp h
  have herr : (header == kRespHeaderErr && decide (first.msg.length > 3)) = true := Except.ok.inj h
  rw [Bool.and_eq_true, beq_iff_eq, decide_eq_true_iff] at herr
  obtain ⟨rfl, hlen⟩ := herr
  by_contra hlt
  apply hshort
  refine ⟨?_, hlen, Nat.lt_of_not_le hlt⟩
  rcases hmsg : first.msg with _ | ⟨b, rest⟩
  · rw [hmsg] at hlen
    cases hlen
  · rw [hmsg] at hheader
    cases hheader
    rfl

theorem handleRequest_base {stringReq : Bool} (h : handleRequest stringReq req = .ok req') :
    req'.base = req.base := by
  unfold handleRequest at h
  split_ifs at h
  · exact handleStringRequest_base h
  · exact handleNonStringRequest_base h

theorem processRequestWithBasicResponse_answers {stringReq : Bool}
    (h : processRequestWithBasicResponse req stringReq view record = .ok (.success, record')) :
    Answers req view record' := by
  unfold processRequestWithBasicResponse at h
  obtain ⟨resultReq, hreq, h⟩ := bind_eq_ok.mp h
  have hbase := handleRequest_base hreq
  rcases view with _ | ⟨first, rest⟩
  · cases h
  · dsimp only at h
    split at h
    · cases h
    · have hfirst : TimeIn req.base.timestampNs (first :: rest) (some (respOf first.base)) :=
        timeIn_of_mem List.mem_cons_self rfl
      obtain ⟨isOk, -, h⟩ := bind_eq_ok.mp h
      obtain ⟨isEOF, -, h⟩ := bind_eq_ok.mp h
      split at h
      · cases h
        exact ⟨⟨_, rfl, hbase⟩, hfirst⟩
      · obtain ⟨isErr, -, h⟩ := bind_eq_ok.mp h
        split at h
        · have hfilled := handleErrMessage_filled h (fun q hq => hq) (Or.inr hfirst)
          exact hfilled.answers ⟨_, rfl, hbase⟩
        · cases h

theorem processQuit_answers (h : processQuit req view record = .ok (.success, record')) :
    Answers req view record' := by
  unfold processQuit at h
  obtain ⟨resultReq, hreq, h⟩ := bind_eq_ok.mp h
  have hbase := handleNonStringRequest_base hreq
  rcases view with _ | ⟨first, rest⟩
  · cases h
    exact ⟨⟨_, rfl, hbase⟩, _, rfl, Or.inl rfl⟩
  · dsimp only at h
    obtain ⟨isOk, -, h⟩ := bind_eq_ok.mp h
    split at h
    · cases h
      exact ⟨⟨_, rfl, hbase⟩, timeIn_of_mem List.mem_cons_self rfl⟩
    · cases h

theorem processQuery_answers
    (h : processQuery floatText req view Exchange.empty = .ok (.success, record'))
    (hshort : ∀ first ∈ view.head?, ¬ShortError first) : Answers req view record' := by
  unfold processQuery at h
  obtain ⟨resultReq, hreq, h⟩ := bind_eq_ok.mp h
  have hbase : ∃ p, (some resultReq : Option MysqlPacket) = some p ∧ p.base = req.base :=
    ⟨_, rfl, handleStringRequest_base hreq⟩
  rcases view with _ | ⟨first, rest⟩
  · cases h
  · dsimp only at h
    obtain ⟨isErr, herr, h⟩ := bind_eq_ok.mp h
    rcases isErr with _ | _
    · obtain ⟨isOk, -, h⟩ := bind_eq_ok.mp h
      rcases isOk with _ | _
      · exact Filled.answers (handleResultsets_filled h) hbase
      · exact Filled.answers (handleOkMessage_filled h) hbase
    · obtain ⟨⟨state, record₁⟩, hmsg, h⟩ := bind_eq_ok.mp h
      cases h
      have hlong := isErrPacket_long herr (hshort first rfl)
      exact Filled.answers (handleErrMessage_long hmsg hlong List.mem_cons_self (Or.inl rfl)) hbase

theorem takeDefinitions_time {n : ℕ} {resp resp' : MysqlResponse} {colDefs : List ColDefinition}
    {packets : List MysqlPacket} (hresp : TimeIn ts view (some resp))
    (hsub : ∀ q ∈ packets, q ∈ view)
    (h : takeDefinitions n resp packets = .ok (state, colDefs, resp', rest)) :
    TimeIn ts view (some resp') ∧ ∀ q ∈ rest, q ∈ view := by
  induction n generalizing resp packets state colDefs with
  | zero =>
      cases h
      exact ⟨hresp, hsub⟩
  | succ n ih =>
      rcases packets with _ | ⟨packet, packets⟩
      · cases h
        exact ⟨hresp, hsub⟩
      · have hpacket := hsub packet List.mem_cons_self
        have hpackets : ∀ q ∈ packets, q ∈ view := fun q hq => hsub q (List.mem_cons_of_mem _ hq)
        rw [takeDefinitions] at h
        obtain ⟨colDef, -, h⟩ := bind_eq_ok.mp h
        rcases colDef with _ | colDef
        · cases h
          exact ⟨hresp, hpackets⟩
        · obtain ⟨⟨state', colDefs', resp'', rest'⟩, htake, h⟩ := bind_eq_ok.mp h
          cases h
          exact ih (timeIn_of_mem hpacket rfl) hpackets htake

theorem takeEOF_time {n : ℕ} {resp resp' : MysqlResponse} {packets : List MysqlPacket}
    (hresp : TimeIn ts view (some resp)) (hsub : ∀ q ∈ packets, q ∈ view)
    (h : takeEOF n resp packets = .ok (resp', rest)) :
    TimeIn ts view (some resp') ∧ ∀ q ∈ rest, q ∈ view := by
  unfold takeEOF at h
  split_ifs at h
  · cases h
    exact ⟨hresp, hsub⟩
  · split at h
    · cases h
      exact ⟨hresp, hsub⟩
    · rename_i packet packets
      obtain ⟨isEOF, -, h⟩ := bind_eq_ok.mp h
      split_ifs at h
      · cases h
        exact ⟨timeIn_of_mem (hsub packet List.mem_cons_self) rfl,
          fun q hq => hsub q (List.mem_cons_of_mem _ hq)⟩
      · cases h
        exact ⟨hresp, hsub⟩

theorem handleStmtPrepareOKResponse_filled
    (h : handleStmtPrepareOKResponse p view record = .ok (.success, record', p')) :
    Filled ts view record record' := by
  unfold handleStmtPrepareOKResponse at h
  split at h
  · cases h
  rename_i first packets
  split at h
  · cases h
  dsimp only at h
  split at h
  · cases h
  have hfirst : TimeIn ts (first :: packets) (some (respOf first.base)) :=
    timeIn_of_mem List.mem_cons_self rfl
  -- Parameters and columns in turn: each part moves the time of the response to a packet of
  -- the view and leaves packets of the view.
  obtain ⟨⟨state₁, paramDefs, resp₁, packets₁⟩, hparams, h⟩ := bind_eq_ok.mp h
  obtain ⟨hresp₁, hsub₁⟩ :=
    takeDefinitions_time hfirst (fun q hq => List.mem_cons_of_mem _ hq) hparams
  dsimp only at h
  split at h
  · rename_i hne
    cases h
    exact absurd rfl hne
  obtain ⟨⟨resp₂, packets₂⟩, heof₁, h⟩ := bind_eq_ok.mp h
  obtain ⟨hresp₂, hsub₂⟩ := takeEOF_time hresp₁ hsub₁ heof₁
  obtain ⟨⟨state₃, colDefs, resp₃, packets₃⟩, hcols, h⟩ := bind_eq_ok.mp h
  obtain ⟨hresp₃, hsub₃⟩ := takeDefinitions_time hresp₂ hsub₂ hcols
  dsimp only at h
  split at h
  · rename_i hne
    cases h
    exact absurd rfl hne
  obtain ⟨⟨resp₄, packets₄⟩, heof₂, h⟩ := bind_eq_ok.mp h
  obtain ⟨⟨r, hr, htime⟩, -⟩ := takeEOF_time hresp₃ hsub₃ heof₂
  cases hr
  dsimp only at h
  split at h
  · cases h
  · cases h
    exact ⟨rfl, _, rfl, htime⟩

theorem processStmtPrepare_answers
    (h : processStmtPrepare p req view Exchange.empty = .ok (.success, record', p'))
    (hshort : ∀ first ∈ view.head?, ¬ShortError first) : Answers req view record' := by
  unfold processStmtPrepare at h
  obtain ⟨resultReq, hreq, h⟩ := bind_eq_ok.mp h
  have hbase : ∃ p, (some resultReq : Option MysqlPacket) = some p ∧ p.base = req.base :=
    ⟨_, rfl, handleStringRequest_base hreq⟩
  rcases view with _ | ⟨first, rest⟩
  · cases h
  · dsimp only at h
    obtain ⟨isErr, herr, h⟩ := bind_eq_ok.mp h
    rcases isErr with _ | _
    · exact Filled.answers (handleStmtPrepareOKResponse_filled h) hbase
    · obtain ⟨⟨state, record₁⟩, hmsg, h⟩ := bind_eq_ok.mp h
      cases h
      have hlong := isErrPacket_long herr (hshort first rfl)
      exact Filled.answers (handleErrMessage_long hmsg hlong List.mem_cons_self (Or.inl rfl)) hbase

/-- An execute request that is understood stands in the record as it is in the queue. -/
theorem handleStmtExecuteRequest_req
    (h : handleStmtExecuteRequest floatText p req record = .ok (.success, record', req')) :
    record'.resp = record.resp ∧ ∃ q, record'.req = some q ∧ q.base = req.base := by
  unfold handleStmtExecuteRequest at h
  split at h
  · cases h
  dsimp only at h
  split at h
  · cases h
    exact ⟨rfl, _, rfl, rfl⟩
  split at h
  · cases h
  obtain ⟨stmtBound, -, h⟩ := bind_eq_ok.mp h
  obtain ⟨params, -, h⟩ := bind_eq_ok.mp h
  rcases params with _ | params
  · cases h
  · cases h
    exact ⟨rfl, _, rfl, rfl⟩

theorem processStmtExecute_answers
    (h : processStmtExecute floatText p req view Exchange.empty = .ok (.success, record', req')) :
    Answers req view record' := by
  unfold processStmtExecute at h
  obtain ⟨⟨state, record₁, req₁⟩, hreq, h⟩ := bind_eq_ok.mp h
  dsimp only at h
  split at h
  · rename_i hne
    cases h
    exact absurd rfl hne
  · rename_i hstate
    obtain rfl : state = .success := not_not.mp hstate
    obtain ⟨hresp, hbase⟩ := handleStmtExecuteRequest_req hreq
    rcases view with _ | ⟨first, rest⟩
    · cases h
    · dsimp only at h
      obtain ⟨isErr, -, h⟩ := bind_eq_ok.mp h
      rcases isErr with _ | _
      · obtain ⟨isOk, -, h⟩ := bind_eq_ok.mp h
        rcases isOk with _ | _
        · obtain ⟨⟨state₂, record₂⟩, hset, h⟩ := bind_eq_ok.mp h
          cases h
          exact Filled.answers (handleResultsets_filled hset) hbase
        · obtain ⟨⟨state₂, record₂⟩, hok, h⟩ := bind_eq_ok.mp h
          cases h
          exact Filled.answers (handleOkMessage_filled hok) hbase
      · obtain ⟨⟨state₂, record₂⟩, hmsg, h⟩ := bind_eq_ok.mp h
        cases h
        exact Filled.answers (handleErrMessage_filled hmsg (fun q hq => hq) (Or.inl hresp)) hbase

theorem processStmtClose_answers
    (h : processStmtClose p req view record = (.success, record', p', req')) :
    Answers req view record' := by
  unfold processStmtClose handleStmtCloseRequest at h
  by_cases hlen : req.msg.length < 1 + kStmtIDBytes
  · rw [if_pos hlen] at h
    cases h
  · rw [if_neg hlen] at h
    dsimp only at h
    rw [if_neg (not_not.mpr rfl)] at h
    obtain ⟨hstate, hrecord⟩ := Prod.mk.inj h
    obtain ⟨hrecord, -⟩ := Prod.mk.inj hrecord
    have hnone := handleNoResponse_filled (Prod.ext hstate hrecord)
    exact Filled.answers hnone ⟨_, rfl, rfl⟩

theorem processStmtSendLongData_answers
    (h : processStmtSendLongData req view record = .ok (.success, record')) :
    Answers req view record' := by
  unfold processStmtSendLongData at h
  obtain ⟨resultReq, hreq, h⟩ := bind_eq_ok.mp h
  have hnone := handleNoResponse_filled (Except.ok.inj h)
  exact Filled.answers hnone ⟨_, rfl, handleNonStringRequest_base hreq⟩

/-- A query or a request to prepare one. -/
def AsksQuery (req : MysqlPacket) : Prop :=
  ∃ byte ∈ req.msg.head?, (parseCommand byte).1 = kQuery ∨ (parseCommand byte).1 = kStmtPrepare

instance (req : MysqlPacket) : Decidable (AsksQuery req) :=
  inferInstanceAs (Decidable (∃ byte ∈ req.msg.head?, _ ∨ _))

/-- **Success means a record with both sides**, unless a short error packet answers a query. -/
theorem processPackets_answers {r : Processed}
    (h : processPackets floatText p req view = .ok r) (hsuccess : r.parseState = .success)
    (hshort : AsksQuery req → ∀ first ∈ view.head?, ¬ShortError first) :
    Answers req view r.record := by
  obtain ⟨byte, hbyte, hhandled⟩ := processPackets_handled h
  rcases hhandled with ⟨-, hcall⟩ | ⟨-, hcall⟩ | ⟨hquery, hcall⟩ | ⟨hprepare, hcall⟩ | ⟨-, hcall⟩
    | ⟨-, hcall⟩ | ⟨-, hcall⟩ | ⟨-, hcall⟩ | -
  · cases hsuccess
    exact processRequestWithBasicResponse_answers hcall
  · cases hsuccess
    exact processQuit_answers hcall
  · cases hsuccess
    exact processQuery_answers hcall (hshort ⟨byte, hbyte, Or.inl hquery⟩)
  · cases hsuccess
    exact processStmtPrepare_answers hcall (hshort ⟨byte, hbyte, Or.inr hprepare⟩)
  · cases hsuccess
    exact processStmtSendLongData_answers hcall
  · cases hsuccess
    exact processStmtExecute_answers hcall
  · cases hsuccess
    exact processStmtClose_answers hcall
  · obtain ⟨resultReq, -, hignore⟩ := bind_eq_ok.mp hcall
    cases hignore
    cases hsuccess
  · cases hsuccess

/-! ## The queues -/

/-- A queue in the order of its times. -/
def Ordered (queue : List MysqlPacket) : Prop :=
  queue.Pairwise (fun a b => a.base.timestampNs ≤ b.base.timestampNs)

/-- The packet is the first response to a request: nothing before it in its queue is later than
the request, it is itself no earlier than the request and no later than the next one, and it
has the number of a first response. -/
structure FirstResponse (req : MysqlPacket) (next : Option MysqlPacket) (old : List MysqlPacket)
    (resp : MysqlPacket) : Prop where
  before : ∀ d ∈ old, d.base.timestampNs ≤ req.base.timestampNs
  after : req.base.timestampNs ≤ resp.base.timestampNs
  next : ∀ n ∈ next, resp.base.timestampNs ≤ n.base.timestampNs
  number : resp.seqId = 1

/-- The first response to a query is no short error packet. -/
def NoShortError (reqStream respStream : List MysqlPacket) : Prop :=
  ∀ done req post, reqStream = done ++ req :: post → AsksQuery req →
    ∀ old resp new, respStream = old ++ resp :: new → FirstResponse req post.head? old resp →
      ¬ShortError resp

theorem le_of_mem_syncRespQueue {queue : List MysqlPacket} (h : Ordered queue) :
    ∀ resp ∈ syncRespQueue req queue, req.base.timestampNs ≤ resp.base.timestampNs := by
  induction queue with
  | nil =>
      intro resp hresp
      cases hresp
  | cons first queue ih =>
      intro resp hresp
      obtain ⟨hfirst, hqueue⟩ := List.pairwise_cons.mp h
      unfold syncRespQueue at hresp ih
      by_cases hold : first.base.timestampNs < req.base.timestampNs
      · rw [List.dropWhile_cons_of_pos (by simpa using hold)] at hresp
        exact ih hqueue resp hresp
      · rw [List.dropWhile_cons_of_neg (by simpa using hold)] at hresp
        rcases List.mem_cons.mp hresp with rfl | hmem
        · exact Nat.le_of_not_lt hold
        · exact (Nat.le_of_not_lt hold).trans (hfirst resp hmem)

/-- What is dropped before the view is cut is older than the request. -/
theorem exists_syncRespQueue (req : MysqlPacket) (queue : List MysqlPacket) :
    ∃ dropped, queue = dropped ++ syncRespQueue req queue
      ∧ ∀ d ∈ dropped, d.base.timestampNs ≤ req.base.timestampNs := by
  refine ⟨queue.takeWhile (fun resp => resp.base.timestampNs < req.base.timestampNs), ?_, ?_⟩
  · exact (List.takeWhile_append_dropWhile).symm
  · intro d hd
    have hlt := List.mem_takeWhile_imp hd
    exact Nat.le_of_lt (by simpa using hlt)

theorem respViewLoop_prefix {next : Option MysqlPacket} {count : ℕ} {queue : List MysqlPacket} :
    respViewLoop next count queue <+: queue := by
  induction queue generalizing count with
  | nil => exact List.prefix_refl _
  | cons resp queue ih =>
      rw [respViewLoop]
      split_ifs
      · exact List.nil_prefix
      · exact List.nil_prefix
      · exact List.cons_prefix_cons.mpr ⟨rfl, ih⟩

/-- Nothing in a view is later than the next request. -/
theorem respViewLoop_le {next : Option MysqlPacket} {count : ℕ} {queue : List MysqlPacket}
    {n resp : MysqlPacket} (hn : n ∈ next) (h : resp ∈ respViewLoop next count queue) :
    resp.base.timestampNs ≤ n.base.timestampNs := by
  induction queue generalizing count with
  | nil => cases h
  | cons first queue ih =>
      rw [respViewLoop] at h
      split_ifs at h with hlate
      · cases h
      · cases h
      · rcases List.mem_cons.mp h with rfl | hmem
        · rw [Option.mem_def.mp hn] at hlate
          simpa using hlate
        · exact ih hmem

/-- The first packet of a view has the number one. -/
theorem respViewLoop_head {next : Option MysqlPacket} {queue : List MysqlPacket} {first : MysqlPacket}
    (h : first ∈ (respViewLoop next 0 queue).head?) : first.seqId = 1 := by
  rcases queue with _ | ⟨resp, queue⟩
  · cases h
  · rw [respViewLoop] at h
    split_ifs at h with _ hseq
    · cases h
    · cases h
    · cases h
      exact not_not.mp hseq

/-- The record of a request runs forward in time. -/
theorem Answers.forward {e : Exchange} (h : Answers req view e)
    (hview : ∀ q ∈ view, req.base.timestampNs ≤ q.base.timestampNs) : e.record.Forward := by
  obtain ⟨p, hp, hbase⟩ := h.request
  obtain ⟨r, hr, htime⟩ := h.response
  refine ⟨.mysqlPacket p, .mysqlResponse r, ?_, ?_, ?_⟩
  · unfold Exchange.record
    rw [hp]
    rfl
  · unfold Exchange.record
    rw [hr]
    rfl
  · change p.base.timestampNs ≤ r.base.timestampNs
    rw [hbase]
    rcases htime with heq | ⟨q, hq, heq⟩
    · exact heq.ge
    · rw [heq]
      exact hview q hq

/-- The times of `processPackets`' record, when it is one. -/
theorem processPackets_forward {r : Processed} {queue : List MysqlPacket}
    (hqueue : ∀ q ∈ queue, req.base.timestampNs ≤ q.base.timestampNs) (hview : view <+: queue)
    (hshort : AsksQuery req → ∀ first ∈ view.head?, ¬ShortError first)
    (h : processPackets floatText p req view = .ok r) (hsuccess : r.parseState = .success) :
    r.record.record.Forward :=
  (processPackets_answers h hsuccess hshort).forward (fun q hq => hqueue q (hview.subset hq))

/-- **The loop of `Match`**: over queues in order, the records run forward. The induction is on
the requests; `done` and `old` are what went off the two queues, and nothing in `old` is later
than the request at the front. -/
theorem matchLoop_forward {m m' : State} {records records' : List (Record Message)}
    {done old reqs resps reqStream reqStream' respStream respStream' : List MysqlPacket}
    (hshort : NoShortError reqs resps) (hreqs : reqs = done ++ reqStream)
    (hresps : resps = old ++ respStream) (hreqOrder : Ordered reqStream)
    (hrespOrder : Ordered respStream)
    (hold : ∀ req ∈ reqStream.head?, ∀ d ∈ old, d.base.timestampNs ≤ req.base.timestampNs)
    (hrecords : ∀ r ∈ records, r.Forward)
    (h : matchLoop floatText m records reqStream respStream
      = .ok (m', records', reqStream', respStream')) : ∀ r ∈ records', r.Forward := by
  induction reqStream generalizing m records respStream done old with
  | nil =>
      cases h
      exact hrecords
  | cons req reqStream ih =>
      rw [matchLoop] at h
      obtain ⟨byte, -, h⟩ := bind_eq_ok.mp h
      obtain ⟨r, hprocess, h⟩ := bind_eq_ok.mp h
      have hsync : ∀ q ∈ syncRespQueue req respStream,
          req.base.timestampNs ≤ q.base.timestampNs := le_of_mem_syncRespQueue hrespOrder
      obtain ⟨dropped, hdropped, hearly⟩ := exists_syncRespQueue req respStream
      have holdReq := hold req rfl
      have hview : getRespView (req :: reqStream) (syncRespQueue req respStream)
          <+: syncRespQueue req respStream := respViewLoop_prefix
      have hnext : ∀ next ∈ reqStream.head?,
          ∀ q ∈ getRespView (req :: reqStream) (syncRespQueue req respStream),
            q.base.timestampNs ≤ next.base.timestampNs := by
        intro next hnext q hq
        apply respViewLoop_le _ hq
        rw [List.getElem?_cons_succ, ← List.head?_eq_getElem?]
        exact hnext
      generalize hsynced : syncRespQueue req respStream = synced at *
      generalize hcut : getRespView (req :: reqStream) synced = view at *
      obtain ⟨rest, rfl⟩ := hview
      -- What is left of the responses is what lies behind the view.
      obtain ⟨hreqLe, hreqOrder'⟩ := List.pairwise_cons.mp hreqOrder
      dsimp only at h
      split at h
      · cases h
        exact hrecords
      rw [List.drop_left] at h
      refine ih (?_ : reqs = (done ++ [req]) ++ reqStream)
        (?_ : resps = (old ++ dropped ++ view) ++ rest) hreqOrder' ?_ ?_ ?_ h
      · rw [hreqs, List.append_assoc]
        rfl
      · rw [hresps, hdropped, List.append_assoc, List.append_assoc]
      · rw [hdropped] at hrespOrder
        exact (List.pairwise_append.mp (List.pairwise_append.mp hrespOrder).2.1).2.1
      · intro next hmem d hd
        have hle : req.base.timestampNs ≤ next.base.timestampNs :=
          hreqLe next (List.mem_of_mem_head? hmem)
        rcases List.mem_append.mp hd with hd | hd
        · rcases List.mem_append.mp hd with hd | hd
          · exact (holdReq d hd).trans hle
          · exact (hearly d hd).trans hle
        · exact hnext next hmem d hd
      · intro record hrecord
        -- A new record is that of a request whose view starts with its first response.
        split_ifs at hrecord with hsuccess
        · rcases List.mem_append.mp hrecord with hmem | hnew
          · exact hrecords record hmem
          · cases List.mem_singleton.mp hnew
            refine processPackets_forward hsync (List.prefix_append _ _) ?_ hprocess hsuccess
            intro hasks first hfirst
            obtain ⟨tail, rfl⟩ : ∃ tail, view = first :: tail := by
              rcases view with _ | ⟨v, tail⟩
              · cases hfirst
              · cases hfirst
                exact ⟨tail, rfl⟩
            -- What lies before the view is no later than the request.
            apply hshort done req reqStream hreqs hasks (old ++ dropped) first (tail ++ rest)
            · rw [hresps, hdropped, List.append_assoc]
              rfl
            · refine ⟨?_, hsync first (by simp), ?_, ?_⟩
              · intro d hd
                rcases List.mem_append.mp hd with hd | hd
                · exact holdReq d hd
                · exact hearly d hd
              · intro next hmem
                exact hnext next hmem first List.mem_cons_self
              · unfold getRespView at hcut
                rw [← hcut] at hfirst
                exact respViewLoop_head hfirst
        · exact hrecords record hrecord

/-- **The records of the MySQL matcher run forward**, over queues in order whose queries do not
meet a short error packet. -/
theorem matchStreams_forward {m m' : State} {records : List (Record Message)}
    {reqStream reqStream' respStream respStream' : List MysqlPacket} (hreqs : Ordered reqStream)
    (hresps : Ordered respStream) (hshort : NoShortError reqStream respStream)
    (h : matchStreams floatText m reqStream respStream
      = .ok (m', records, reqStream', respStream')) : ∀ r ∈ records, r.Forward := by
  unfold matchStreams at h
  obtain ⟨⟨m₁, records₁, reqs₁, resps₁⟩, hloop, h⟩ := bind_eq_ok.mp h
  cases h
  split_ifs
  · have hall : reqStream = [] ++ reqStream ∧ respStream = [] ++ respStream := ⟨rfl, rfl⟩
    exact matchLoop_forward hshort hall.1 hall.2 hreqs hresps (by simp) (by simp) hloop
  · simp

end Kyanos.Mysql
