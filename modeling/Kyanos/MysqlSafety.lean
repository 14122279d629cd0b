/-
When `Match` of the MySQL parser panics.

A request is read with its view: the packets that answer it. What processing it asks for is a
condition on these packets, on the request itself and, for a statement that is executed, on the
number of parameters it was prepared with (`RequestReadable`). Packets behind the one at which a
handler stops are not looked at, so nothing is asked of them.

`Match` goes through the queue request by request (`Round`), and returns just when every request it
comes to can be read; a run of calls returns just when each of them does
(`matchCalls_returns_iff`). The statement that is executed without parameters shows that this is not
always so: its request ends where the code looks for the flag that says whether types follow.
-/
import Kyanos.MysqlReadable
import Kyanos.MysqlRecords
import Kyanos.MysqlWaiting

set_option autoImplicit false

open Trace

namespace Kyanos.Mysql

/-- A handler stops where a part of it was no success. -/
theorem returns_success_iff {α β : Type} {x : Except Panic (ParseState × α)}
    {stop next : ParseState × α → Except Panic β} (hstop : ∀ a, Returns (stop a)) :
    (∀ a, x = .ok a → Returns (if a.1 ≠ .success then stop a else next a))
      ↔ ∀ a, x = .ok (.success, a) → Returns (next (.success, a)) := by
  constructor
  · intro h a hx
    have hnext := h _ hx
    rwa [if_neg (not_not_intro rfl)] at hnext
  · rintro h ⟨state, a⟩ hx
    by_cases hstate : state ≠ .success
    · rw [if_pos hstate]
      exact hstop _
    · obtain rfl : state = .success := not_not.mp hstate
      rw [if_neg hstate]
      exact h a hx

/-! ## Resultsets -/

/-- The packet in front has a byte. -/
def FrontFilled (view : List MysqlPacket) : Prop := ∀ packet ∈ view.head?, packet.msg ≠ []

theorem forall_front_iff {packet : MysqlPacket} {rest : List MysqlPacket} {P : MysqlPacket → Prop} :
    (∀ first ∈ (packet :: rest).head?, P first) ↔ P packet := by
  constructor
  · intro h
    exact h packet rfl
  · rintro h _ ⟨⟩
    exact h

theorem frontFilled_cons {packet : MysqlPacket} {rest : List MysqlPacket} :
    FrontFilled (packet :: rest) ↔ packet.msg ≠ [] :=
  forall_front_iff (P := fun first => first.msg ≠ [])

theorem frontFilled_nil : FrontFilled [] := by
  rintro _ ⟨⟩

/-- Of the first `n` packets, those up to the first that is no definition can be read. -/
def DefinitionsReadable : ℕ → List MysqlPacket → Prop
  | 0, _ => True
  | _ + 1, [] => True
  | n + 1, packet :: packets => ColumnDefReadable packet
      ∧ ∀ colDef, processColumnDefPacket packet = .ok (some colDef) → DefinitionsReadable n packets

def RowReadable (binaryResultset : Bool) (colDefs : List ColDefinition) (packet : MysqlPacket) : Prop :=
  if binaryResultset then BinaryRowReadable packet colDefs
  else TextRowReadable packet colDefs.length

/-- A packet is read as a row of a resultset. -/
def rowStatus (floatText : GoString → GoString) (binaryResultset : Bool)
    (colDefs : List ColDefinition) : MysqlPacket → Except Panic Bool :=
  if binaryResultset then fun packet => processBinaryResultsetRowPacket floatText packet colDefs
  else fun packet => processTextResultsetRowPacket packet colDefs.length

/-- The rows in front can be read, and the packet that ends them has a byte. -/
def RowsReadable (floatText : GoString → GoString) (binaryResultset : Bool)
    (colDefs : List ColDefinition) : List MysqlPacket → Prop
  | [] => True
  | packet :: packets => RowReadable binaryResultset colDefs packet
      ∧ (rowStatus floatText binaryResultset colDefs packet = .ok true →
        RowsReadable floatText binaryResultset colDefs packets)
      ∧ (rowStatus floatText binaryResultset colDefs packet = .ok false → packet.msg ≠ [])

/-- The columns a resultset announces, if the packets they need are there. -/
def announcedColumns (firstResp : MysqlPacket) (respView : List MysqlPacket) : Option ℤ :=
  match processLengthEncodedInt firstResp.msg 0 with
  | .ok (numCol, paramOffset, true) =>
      if paramOffset ≠ firstResp.msg.length ∨ numCol = 0
        ∨ (respView.length : ℤ) < intOf 64 (numCol + 1) then none else some numCol
  | _ => none

/-- A resultset can be read: the packet in front if an OK packet may stand there, the definitions
it announces, the packet behind them and the rows. -/
def ResultsetReadable (floatText : GoString → GoString) (binaryResultset multiResultset : Bool) :
    List MysqlPacket → Prop
  | [] => True
  | firstResp :: respView => (multiResultset = true → firstResp.msg ≠ [])
      ∧ (endsResultsets multiResultset firstResp = .ok false →
        ∀ numCol ∈ announcedColumns firstResp respView,
          DefinitionsReadable numCol.toNat respView
            ∧ ∀ colDefs rest, takeColumnDefs numCol.toNat respView = .ok (.success, colDefs, rest) →
              FrontFilled rest
                ∧ ∀ rows, skipEOF rest = .ok rows → RowsReadable floatText binaryResultset colDefs rows)

section Resultsets

variable {floatText : GoString → GoString} {binary multi : Bool} {colDefs : List ColDefinition}
  {view packets : List MysqlPacket} {record : Exchange} {n : ℕ}

/-- One definition is read, and the others behind it if it is one. -/
theorem definition_returns_iff {β : Type} {packet : MysqlPacket}
    {next : Option ColDefinition → Except Panic β} (hstop : Returns (next none))
    (hnext : ∀ colDef, Returns (next (some colDef)) ↔ DefinitionsReadable n packets) :
    Returns (processColumnDefPacket packet >>= next)
      ↔ DefinitionsReadable (n + 1) (packet :: packets) := by
  rw [returns_bind_iff, processColumnDefPacket_returns_iff, DefinitionsReadable]
  refine and_congr_right fun _ => ?_
  constructor
  · intro h colDef hdef
    exact (hnext colDef).mp (h _ hdef)
  · rintro h (_ | colDef) hdef
    · exact hstop
    · exact (hnext colDef).mpr (h colDef hdef)

theorem takeColumnDefs_returns_iff :
    Returns (takeColumnDefs n packets) ↔ DefinitionsReadable n packets := by
  induction n generalizing packets with
  | zero => exact iff_of_true (returns_ok _) trivial
  | succ n ih =>
      rcases packets with _ | ⟨packet, packets⟩
      · exact iff_of_true (returns_ok _) trivial
      rw [takeColumnDefs]
      exact definition_returns_iff (returns_ok _) fun _ => (returns_bind fun _ _ => returns_ok _).trans ih

theorem skipEOF_returns_iff : Returns (skipEOF view) ↔ FrontFilled view := by
  rcases view with _ | ⟨packet, rest⟩
  · exact iff_of_true (returns_ok _) frontFilled_nil
  · rw [skipEOF, returns_bind fun _ _ => returns_ok _, isEOFPacketAll_returns_iff]
    exact frontFilled_cons.symm

theorem isLastPacket_returns_iff {packet : MysqlPacket} :
    Returns (isLastPacket packet) ↔ packet.msg ≠ [] := by
  unfold isLastPacket
  rw [returns_bind_iff, isErrPacket_returns_iff]
  refine ⟨And.left, fun hmsg => ⟨hmsg, fun _ _ => ?_⟩⟩
  rw [returns_bind_iff, isOkPacket_returns_iff]
  refine ⟨hmsg, fun _ _ => ?_⟩
  rw [returns_bind fun _ _ => returns_ok _, isEOFPacketAll_returns_iff]
  exact hmsg

theorem rowStatus_returns_iff {packet : MysqlPacket} :
    Returns (rowStatus floatText binary colDefs packet) ↔ RowReadable binary colDefs packet := by
  rcases binary with _ | _
  · exact processTextResultsetRowPacket_returns_iff
  · exact processBinaryResultsetRowPacket_returns_iff

theorem takeRows_returns_iff : Returns (takeRows (rowStatus floatText binary colDefs) packets)
    ↔ RowsReadable floatText binary colDefs packets := by
  induction packets with
  | nil => exact iff_of_true (returns_ok _) trivial
  | cons packet packets ih =>
      rw [takeRows, returns_bind_iff, rowStatus_returns_iff, RowsReadable]
      refine and_congr_right fun _ => ?_
      constructor
      · intro h
        refine ⟨fun hrow => ih.mp ?_, fun hlast => isLastPacket_returns_iff.mp ?_⟩
        · exact (returns_bind fun _ _ => returns_ok _).mp (h true hrow)
        · exact (returns_bind fun _ _ => returns_ok _).mp (h false hlast)
      · rintro ⟨hrow, hlast⟩ (_ | _) hstatus
        · exact (returns_bind fun _ _ => returns_ok _).mpr (isLastPacket_returns_iff.mpr (hlast hstatus))
        · exact (returns_bind fun _ _ => returns_ok _).mpr (ih.mpr (hrow hstatus))

/-- What is behind the rows has a byte in front. -/
theorem takeRows_front {isRow : MysqlPacket → Except Panic Bool} {rows : ℕ} {bytes : ℤ}
    {rest : List MysqlPacket} {ok : Bool} (h : takeRows isRow packets = .ok (rows, bytes, rest, ok)) :
    FrontFilled rest := by
  induction packets generalizing rows bytes with
  | nil =>
      cases h
      exact frontFilled_nil
  | cons packet packets ih =>
      obtain ⟨status, -, h⟩ := bind_eq_ok.mp h
      split_ifs at h
      · obtain ⟨⟨rows', bytes', rest', ok'⟩, htail, h⟩ := bind_eq_ok.mp h
        cases h
        exact ih htail
      · obtain ⟨last, hlast, h⟩ := bind_eq_ok.mp h
        cases h
        exact frontFilled_cons.mpr (isLastPacket_returns_iff.mp ⟨_, hlast⟩)

theorem handleErrMessage_returns (hview : view ≠ []) : Returns (handleErrMessage view record) := by
  rcases view with _ | ⟨first, rest⟩
  · exact absurd rfl hview
  · unfold handleErrMessage
    dsimp only
    split_ifs <;> exact returns_ok _

theorem finishResultset_returns {response : MysqlResponse} {rows : ℕ} (hview : FrontFilled view) :
    Returns (finishResultset multi view response rows record) := by
  rcases view with _ | ⟨last, rest⟩
  · exact returns_ok _
  have hmsg : last.msg ≠ [] := frontFilled_cons.mp hview
  refine returns_bind_iff.mpr ⟨isErrPacket_returns_iff.mpr hmsg, fun isErr _ => ?_⟩
  rcases isErr with _ | _
  · refine returns_bind_iff.mpr ⟨moreResultsExist_returns hmsg, fun more _ => ?_⟩
    rcases more with _ | _ <;> exact returns_ok _
  · exact (returns_bind fun _ _ => returns_ok _).mpr (handleErrMessage_returns (List.cons_ne_nil _ _))

theorem endsResultsets_returns_iff {firstResp : MysqlPacket} :
    Returns (endsResultsets multi firstResp) ↔ (multi = true → firstResp.msg ≠ []) := by
  unfold endsResultsets
  rcases multi with _ | _
  · exact iff_of_true (returns_ok false) (fun h => absurd h Bool.false_ne_true)
  · exact isOkPacket_returns_iff.trans ⟨fun h _ => h, fun h => h rfl⟩

theorem handleResultset_returns_iff : Returns (handleResultset floatText binary multi view record)
    ↔ ResultsetReadable floatText binary multi view := by
  rcases view with _ | ⟨firstResp, respView⟩
  · exact iff_of_true (returns_ok _) trivial
  unfold handleResultset ResultsetReadable
  dsimp only
  rw [returns_bind_iff, endsResultsets_returns_iff]
  -- Where an OK packet ends the resultsets there is nothing more to read.
  rw [Bool.forall_bool]
  refine and_congr_right fun _ => (and_iff_left fun _ => returns_ok _).trans (imp_congr_right fun _ => ?_)
  rw [if_neg Bool.false_ne_true]
  obtain ⟨numCol, paramOffset, ok, hread, -⟩ :=
    @processLengthEncodedInt_returns firstResp.msg 0 le_rfl (by omega)
  unfold announcedColumns
  rw [hread, ok_bind]
  rcases ok with _ | _
  · refine iff_of_true (returns_ok _) ?_
    rintro _ ⟨⟩
  dsimp only
  by_cases hinvalid : paramOffset ≠ firstResp.msg.length ∨ numCol = 0
  · rw [if_pos (by simpa using hinvalid), if_pos (hinvalid.imp id Or.inl)]
    refine iff_of_true (returns_ok _) ?_
    rintro _ ⟨⟩
  rw [if_neg (by simpa using hinvalid)]
  by_cases hfew : (respView.length : ℤ) < intOf 64 (numCol + 1)
  · rw [if_pos hfew, if_pos (Or.inr (Or.inr hfew))]
    refine iff_of_true (returns_ok _) ?_
    rintro _ ⟨⟩
  rw [if_neg hfew, if_neg (by rw [← or_assoc]; exact not_or.mpr ⟨hinvalid, hfew⟩), returns_bind_iff,
    takeColumnDefs_returns_iff]
  constructor
  · rintro ⟨hdefs, h⟩ _ ⟨⟩
    refine ⟨hdefs, fun colDefs rest htake => ?_⟩
    have hrest := h _ htake
    rw [if_neg (not_not_intro rfl)] at hrest
    by_cases hnone : rest.length = 0
    · obtain rfl := List.length_eq_zero_iff.mp hnone
      refine ⟨frontFilled_nil, ?_⟩
      rintro _ ⟨⟩
      trivial
    · rw [if_neg hnone] at hrest
      obtain ⟨hskip, hrows⟩ := returns_bind_iff.mp hrest
      refine ⟨skipEOF_returns_iff.mp hskip, fun rows hrow => ?_⟩
      exact takeRows_returns_iff.mp (returns_bind_iff.mp (hrows rows hrow)).1
  · intro h
    obtain ⟨hdefs, hrest⟩ := h numCol rfl
    refine ⟨hdefs, ?_⟩
    rintro ⟨state, colDefs, rest⟩ htake
    dsimp only
    by_cases hstate : state ≠ .success
    · rw [if_pos hstate]
      exact returns_ok _
    by_cases hnone : rest.length = 0
    · rw [if_neg hstate, if_pos hnone]
      exact returns_ok _
    rw [if_neg hstate, if_neg hnone]
    obtain rfl : state = .success := not_not.mp hstate
    obtain ⟨hfront, hrows⟩ := hrest colDefs rest htake
    refine returns_bind_iff.mpr ⟨skipEOF_returns_iff.mpr hfront, fun rows hskip => ?_⟩
    refine returns_bind_iff.mpr ⟨takeRows_returns_iff.mpr (hrows rows hskip), ?_⟩
    rintro ⟨number, bytes, behind, ok⟩ htaken
    rcases ok with _ | _
    · exact returns_ok _
    · exact finishResultset_returns (takeRows_front htaken)

end Resultsets

/-- A call of `HandleResultsetResponse`: whether a resultset came before, the packets and the
record. -/
structure ResultsetCall where
  multiResultset : Bool
  respView : List MysqlPacket
  record : Exchange

/-- The last packet of a resultset announces another one. -/
inductive NextResultset (floatText : GoString → GoString) (binaryResultset : Bool) :
    ResultsetCall → ResultsetCall → Prop
  | more {multiResultset : Bool} {respView rest : List MysqlPacket} {record record' : Exchange}
      (h : handleResultset floatText binaryResultset multiResultset respView record
        = .ok (.more rest record')) :
      NextResultset floatText binaryResultset ⟨multiResultset, respView, record⟩ ⟨true, rest, record'⟩

/-- Every resultset the response comes to can be read. -/
def ResultsetsReadable (floatText : GoString → GoString) (binaryResultset : Bool)
    (call : ResultsetCall) : Prop :=
  ∀ next, Relation.ReflTransGen (NextResultset floatText binaryResultset) call next →
    ResultsetReadable floatText binaryResultset next.multiResultset next.respView

/-- The packet in front has a byte, and if it is neither an error nor an OK packet, the resultsets
can be read. -/
def AnswerReadable (floatText : GoString → GoString) (binaryResultset : Bool)
    (view : List MysqlPacket) (record : Exchange) : Prop :=
  ∀ first ∈ view.head?, first.msg ≠ [] ∧ (isErrPacket first = .ok false →
    isOkPacket first = .ok false → ResultsetsReadable floatText binaryResultset ⟨false, view, record⟩)

section Responses

variable {floatText : GoString → GoString} {binary multi : Bool} {view : List MysqlPacket}
  {record : Exchange} {req : MysqlPacket} {n : ℕ}

/-- Over at most as many resultsets as there are packets. -/
theorem handleResultsets_returns_iff (hn : view.length ≤ n) :
    Returns (handleResultsets floatText binary n multi view record)
      ↔ ResultsetsReadable floatText binary ⟨multi, view, record⟩ := by
  induction n generalizing multi view record with
  | zero =>
      obtain rfl : view = [] := List.length_eq_zero_iff.mp (Nat.le_zero.mp hn)
      refine iff_of_true (returns_ok _) (forall_reflTransGen_iff.mpr ⟨trivial, ?_⟩)
      rintro _ ⟨h⟩
      cases h
  | succ n ih =>
      rw [handleResultsets, returns_bind_iff, handleResultset_returns_iff, ResultsetsReadable,
        forall_reflTransGen_iff]
      refine and_congr_right fun _ => ?_
      constructor
      · rintro h _ ⟨hmore⟩
        obtain ⟨-, hlt, -⟩ := @handleResultset_outcome 0 _ _ _ _ _ _ hmore
        exact (ih (by omega)).mp (h _ hmore)
      · rintro h (⟨state, record'⟩ | ⟨rest, record'⟩) hset
        · exact returns_ok _
        · obtain ⟨-, hlt, -⟩ := @handleResultset_outcome 0 _ _ _ _ _ _ hset
          exact (ih (by omega)).mpr (h _ ⟨hset⟩)

theorem handleOkMessage_returns (hview : view ≠ []) : Returns (handleOkMessage view record) := by
  rcases view with _ | ⟨first, rest⟩
  · exact absurd rfl hview
  · unfold handleOkMessage
    dsimp only
    split_ifs <;> exact returns_ok _

theorem handleStringRequest_returns (hreq : req.msg ≠ []) : Returns (handleStringRequest req) := by
  unfold handleStringRequest
  rcases hmsg : req.msg with _ | ⟨b, rest⟩
  · exact absurd hmsg hreq
  · exact returns_ok _

theorem handleNonStringRequest_returns (hreq : req.msg ≠ []) :
    Returns (handleNonStringRequest req) := by
  unfold handleNonStringRequest
  rcases hmsg : req.msg with _ | ⟨b, rest⟩
  · exact absurd hmsg hreq
  · exact returns_ok _

theorem handleRequest_returns {stringReq : Bool} (hreq : req.msg ≠ []) :
    Returns (handleRequest stringReq req) := by
  rcases stringReq with _ | _
  · exact handleNonStringRequest_returns hreq
  · exact handleStringRequest_returns hreq

theorem processRequestWithBasicResponse_returns_iff {stringReq : Bool} (hreq : req.msg ≠ []) :
    Returns (processRequestWithBasicResponse req stringReq view record)
      ↔ ∀ resp, view = [resp] → resp.msg ≠ [] := by
  unfold processRequestWithBasicResponse
  obtain ⟨req', hreq'⟩ := @handleRequest_returns req stringReq hreq
  rw [hreq', ok_bind]
  rcases view with _ | ⟨resp, _ | ⟨second, rest⟩⟩
  · refine iff_of_true (returns_ok _) ?_
    rintro _ ⟨⟩
  · dsimp only
    rw [if_neg (by simp), returns_bind_iff, isOkPacket_returns_iff]
    constructor
    · rintro ⟨hmsg, -⟩ _ ⟨⟩
      exact hmsg
    · intro h
      have hmsg : resp.msg ≠ [] := h resp rfl
      refine ⟨hmsg, fun isOk _ => ?_⟩
      refine returns_bind_iff.mpr ⟨isEOFPacketAll_returns_iff.mpr hmsg, fun isEOF _ => ?_⟩
      rcases hbasic : (isOk || isEOF) with _ | _
      · refine returns_bind_iff.mpr ⟨isErrPacket_returns_iff.mpr hmsg, fun isErr _ => ?_⟩
        rcases isErr with _ | _
        · exact returns_ok _
        · exact handleErrMessage_returns (List.cons_ne_nil _ _)
      · exact returns_ok _
  · refine iff_of_true (returns_ok _) ?_
    rintro _ ⟨⟩

theorem processQuit_returns_iff (hreq : req.msg ≠ []) :
    Returns (processQuit req view record) ↔ FrontFilled view := by
  unfold processQuit
  obtain ⟨req', hreq'⟩ := handleNonStringRequest_returns hreq
  rw [hreq', ok_bind]
  rcases view with _ | ⟨resp, rest⟩
  · refine iff_of_true (returns_ok _) ?_
    rintro _ ⟨⟩
  · dsimp only
    rw [returns_bind fun isOk _ => by rcases isOk with _ | _ <;> exact returns_ok _,
      isOkPacket_returns_iff]
    exact frontFilled_cons.symm

theorem handleResultsetResponse_returns_iff :
    Returns (handleResultsetResponse floatText binary view record)
      ↔ ResultsetsReadable floatText binary ⟨false, view, record⟩ :=
  handleResultsets_returns_iff le_rfl

/-- The answer to a query or to a statement: an error packet, an OK packet, or resultsets. -/
theorem answer_returns_iff {α : Type} {first : MysqlPacket} {rest : List MysqlPacket}
    {onErr onOk onResultset : Except Panic α} (herr : Returns onErr) (hok : Returns onOk)
    (hset : Returns onResultset ↔ ResultsetsReadable floatText binary ⟨false, first :: rest, record⟩) :
    Returns (do
      let isErr ← isErrPacket first
      if isErr then onErr
      else
        let isOk ← isOkPacket first
        if isOk then onOk else onResultset)
      ↔ AnswerReadable floatText binary (first :: rest) record := by
  unfold AnswerReadable
  rw [forall_front_iff, returns_bind_iff, isErrPacket_returns_iff]
  refine and_congr_right fun hmsg => ?_
  constructor
  · intro h hisErr hisOk
    have hrest := h false hisErr
    rw [if_neg Bool.false_ne_true, hisOk, ok_bind, if_neg Bool.false_ne_true] at hrest
    exact hset.mp hrest
  · rintro h (_ | _) hisErr
    · refine returns_bind_iff.mpr ⟨isOkPacket_returns_iff.mpr hmsg, ?_⟩
      rintro (_ | _) hisOk
      · exact hset.mpr (h hisErr hisOk)
      · exact hok
    · exact herr

theorem processQuery_returns_iff {b : UInt8} {msg : GoString} (hreq : req.msg = b :: msg) :
    Returns (processQuery floatText req view record)
      ↔ AnswerReadable floatText false view
        { record with req := some { req with cmd := (parseCommand b).1, msg := msg } } := by
  unfold processQuery handleStringRequest
  rw [hreq]
  rw [ok_bind]
  rcases view with _ | ⟨first, rest⟩
  · refine iff_of_true (returns_ok _) ?_
    rintro _ ⟨⟩
  · refine answer_returns_iff ?_ ?_ handleResultsetResponse_returns_iff
    · exact (returns_bind fun _ _ => returns_ok _).mpr (handleErrMessage_returns (List.cons_ne_nil _ _))
    · exact handleOkMessage_returns (List.cons_ne_nil _ _)

end Responses

/-! ## Prepared statements -/

/-- The definitions of the parameters and of the columns can be read, and so can the packet behind
each kind that is there at all. -/
def StatementReadable (numParam numCol : ℕ) (resp : MysqlResponse) (packets : List MysqlPacket) :
    Prop :=
  DefinitionsReadable numParam packets ∧ ∀ paramDefs resp₁ rest₁,
    takeDefinitions numParam resp packets = .ok (.success, paramDefs, resp₁, rest₁) →
      (numParam ≠ 0 → FrontFilled rest₁) ∧ ∀ resp₂ rest₂,
        takeEOF numParam resp₁ rest₁ = .ok (resp₂, rest₂) →
          DefinitionsReadable numCol rest₂ ∧ ∀ colDefs resp₃ rest₃,
            takeDefinitions numCol resp₂ rest₂ = .ok (.success, colDefs, resp₃, rest₃) →
              numCol ≠ 0 → FrontFilled rest₃

/-- The packet in front has a byte, and where it is the packet of a prepared statement and the
definitions it counts are there, they can be read. -/
def PrepareReadable : List MysqlPacket → Prop
  | [] => True
  | firstResp :: rest => firstResp.msg ≠ [] ∧ (isErrPacket firstResp = .ok false →
      isStmtPrepareOKPacket firstResp = true →
        ¬ intOf 32 (headerField firstResp.msg 5 2 + headerField firstResp.msg 7 2) > rest.length →
          StatementReadable (headerField firstResp.msg 7 2).toNat
            (headerField firstResp.msg 5 2).toNat (respOf firstResp.base) rest)

section Prepare

variable {m : State} {req : MysqlPacket} {view packets : List MysqlPacket} {record : Exchange}
  {resp : MysqlResponse} {n : ℕ}

theorem takeDefinitions_returns_iff :
    Returns (takeDefinitions n resp packets) ↔ DefinitionsReadable n packets := by
  induction n generalizing packets resp with
  | zero => exact iff_of_true (returns_ok _) trivial
  | succ n ih =>
      rcases packets with _ | ⟨packet, packets⟩
      · exact iff_of_true (returns_ok _) trivial
      rw [takeDefinitions]
      exact definition_returns_iff (returns_ok _) fun _ => (returns_bind fun _ _ => returns_ok _).trans ih

theorem takeEOF_returns_iff : Returns (takeEOF n resp packets) ↔ (n ≠ 0 → FrontFilled packets) := by
  unfold takeEOF
  by_cases hn : n = 0
  · rw [if_pos hn]
    exact iff_of_true (returns_ok _) (fun h => absurd hn h)
  rw [if_neg hn]
  rcases packets with _ | ⟨packet, rest⟩
  · exact iff_of_true (returns_ok _) (fun _ => frontFilled_nil)
  · dsimp only
    rw [returns_bind fun isEOF _ => by rcases isEOF with _ | _ <;> exact returns_ok _,
      isEOFPacketAll_returns_iff, frontFilled_cons]
    exact ⟨fun h _ => h, fun h => h hn⟩

theorem handleStmtPrepareOKResponse_returns_iff {firstResp : MysqlPacket} {rest : List MysqlPacket}
    (hreq : record.req = some req) :
    Returns (handleStmtPrepareOKResponse m (firstResp :: rest) record)
      ↔ (isStmtPrepareOKPacket firstResp = true →
        ¬ intOf 32 (headerField firstResp.msg 5 2 + headerField firstResp.msg 7 2) > rest.length →
          StatementReadable (headerField firstResp.msg 7 2).toNat
            (headerField firstResp.msg 5 2).toNat (respOf firstResp.base) rest) := by
  unfold handleStmtPrepareOKResponse StatementReadable
  dsimp only
  by_cases hprepare : isStmtPrepareOKPacket firstResp = true
  swap
  · rw [if_pos (by simpa using hprepare)]
    exact iff_of_true (returns_ok _) (fun h => absurd h hprepare)
  rw [if_neg (by simpa using hprepare)]
  by_cases hfew : intOf 32 (headerField firstResp.msg 5 2 + headerField firstResp.msg 7 2) > rest.length
  · rw [if_pos hfew]
    exact iff_of_true (returns_ok _) (fun _ h => absurd hfew h)
  rw [if_neg hfew, forall_prop_of_true hprepare, forall_prop_of_true hfew, returns_bind_iff,
    takeDefinitions_returns_iff]
  refine and_congr_right fun _ => (returns_success_iff fun _ => returns_ok _).trans ?_
  rw [Prod.forall, forall_congr' fun _ => Prod.forall]
  refine forall_congr' fun paramDefs => forall₃_congr fun resp₁ rest₁ _ => ?_
  dsimp only
  rw [returns_bind_iff, takeEOF_returns_iff]
  refine and_congr_right fun _ => Prod.forall.trans (forall₃_congr fun resp₂ rest₂ _ => ?_)
  rw [returns_bind_iff, takeDefinitions_returns_iff]
  refine and_congr_right fun _ => (returns_success_iff fun _ => returns_ok _).trans ?_
  rw [Prod.forall, forall_congr' fun _ => Prod.forall]
  refine forall_congr' fun colDefs => forall₃_congr fun resp₃ rest₃ _ => ?_
  dsimp only
  rw [hreq, returns_bind fun _ _ => returns_ok _, takeEOF_returns_iff]

theorem processStmtPrepare_returns_iff (hreq : req.msg ≠ []) :
    Returns (processStmtPrepare m req view record) ↔ PrepareReadable view := by
  unfold processStmtPrepare
  obtain ⟨req', hreq'⟩ := handleStringRequest_returns hreq
  rw [hreq', ok_bind]
  rcases view with _ | ⟨firstResp, rest⟩
  · exact iff_of_true (returns_ok _) trivial
  dsimp only
  rw [PrepareReadable, returns_bind_iff, isErrPacket_returns_iff, Bool.forall_bool]
  refine and_congr_right fun _ => (and_iff_left fun _ => ?_).trans (imp_congr_right fun _ => ?_)
  · exact (returns_bind fun _ _ => returns_ok _).mpr (handleErrMessage_returns (List.cons_ne_nil _ _))
  · exact handleStmtPrepareOKResponse_returns_iff rfl

end Prepare

/-- The types a parameter may have. -/
def paramTypes : List ColType :=
  stringTypes ++ [kTiny, kYear, kInt24, kLongLong, kFloat, kDouble, kTimestamp, kTimeColType, kShort,
    kLong, kDate, kDateTime, kNull]

/-- The type of a parameter is there and known, and if it is that of strings, the value begins in
the message and is not overlong. -/
def ParamReadable (msg : GoString) (typeOffset valOffset : ℤ) : Prop :=
  ∃ byte, byteAt msg typeOffset = .ok byte ∧ (byte.toNat : ColType) ∈ paramTypes
    ∧ ((byte.toNat : ColType) ∈ stringTypes → valOffset ≤ msg.length ∧ overlong msg valOffset = false)

/-- The parameters can be read, each where the one before it ends. -/
def ParamsReadable (floatText : GoString → GoString) (msg : GoString) : ℕ → ℤ → ℤ → Prop
  | 0, _, _ => True
  | n + 1, typeOffset, valOffset => ParamReadable msg typeOffset valOffset
      ∧ ∀ value next, handleStmtExecuteParam floatText msg typeOffset valOffset
          = .ok (some (value, next)) → ParamsReadable floatText msg n (typeOffset + 2) next

/-- A request to execute a prepared statement reaches beyond its null bitmap, and if it brings the
types of the parameters, these can be read. -/
def ExecuteReadable (floatText : GoString → GoString) (m : State) (msg : GoString) : Prop :=
  ∀ stmt, m.preparedStatements.get? (headerField msg 1 kStmtIDBytes) = some stmt →
    10 ≤ msg.length →
      ∃ stmtBound, byteAt msg (10 + ((stmt.response.header.numParams + 7) / 8 : ℕ)) = .ok stmtBound
        ∧ (stmtBound = 1 → ParamsReadable floatText msg stmt.response.header.numParams
          (11 + ((stmt.response.header.numParams + 7) / 8 : ℕ))
          (11 + ((stmt.response.header.numParams + 7) / 8 : ℕ) + 2 * stmt.response.header.numParams))

section Execute

variable {floatText : GoString → GoString} {m : State} {req : MysqlPacket}
  {view : List MysqlPacket} {record : Exchange} {msg : GoString} {typeOffset valOffset : ℤ} {n : ℕ}

/-- Behind the message there is no string, not even the place of one. -/
theorem dissectStringParam_behind (hmsg : msg ≠ []) (h : (msg.length : ℤ) < valOffset) :
    dissectStringParam msg valOffset = .error .sliceOutOfRange := by
  unfold dissectStringParam processLengthEncodedInt
  rw [if_neg (fun hlen => hmsg (List.length_eq_zero_iff.mp hlen)), slice, if_neg (by omega)]
  rfl

theorem paramReadable_iff {byte : UInt8} (hbyte : byteAt msg typeOffset = .ok byte) :
    ParamReadable msg typeOffset valOffset ↔ (byte.toNat : ColType) ∈ paramTypes
      ∧ ((byte.toNat : ColType) ∈ stringTypes → valOffset ≤ msg.length ∧ overlong msg valOffset = false) := by
  unfold ParamReadable
  rw [hbyte]
  constructor
  · rintro ⟨_, ⟨⟩, h⟩
    exact h
  · intro h
    exact ⟨byte, rfl, h⟩

/-- A number of a known type is read. -/
theorem number_returns {x : Except Panic (GoString × ℤ)} {valOffset : ℤ} {size : ℕ}
    (h : ∃ value next, x = .ok (value, next) ∧ 0 ≤ next ∧ (valOffset ≤ size → next ≤ size)) :
    ∃ read, (do
      let (value, valOffset) ← x
      .ok (some (value, valOffset)) : Except Panic (Option (GoString × ℤ))) = .ok read
        ∧ ∀ value next, read = some (value, next) → 0 ≤ next := by
  obtain ⟨value, next, rfl, hnext, -⟩ := h
  refine ⟨some (value, next), rfl, ?_⟩
  rintro _ _ ⟨⟩
  exact hnext

/-- A value of a known type is read if it is there. -/
theorem value_returns {x : Except Panic (GoString × ℤ × Bool)} {valOffset : ℤ} {size : ℕ}
    (h : ∃ value next ok, x = .ok (value, next, ok)
      ∧ 0 ≤ next ∧ (valOffset ≤ size → next ≤ size)) :
    ∃ read, (do
      let (value, valOffset, ok) ← x
      .ok (if ok then some (value, valOffset) else none) : Except Panic (Option (GoString × ℤ)))
        = .ok read ∧ ∀ value next, read = some (value, next) → 0 ≤ next := by
  obtain ⟨value, next, ok, rfl, hnext, -⟩ := h
  refine ⟨if ok then some (value, next) else none, rfl, ?_⟩
  rcases ok with _ | _
  · rintro _ _ ⟨⟩
  · rintro _ _ ⟨⟩
    exact hnext

/-- A parameter cannot be read and the handler panics, or it is read, or it is not there. -/
theorem handleStmtExecuteParam_cases (hmsg : msg ≠ []) (hlo : 0 ≤ valOffset) :
    (¬ ParamReadable msg typeOffset valOffset
      ∧ ∃ e, handleStmtExecuteParam floatText msg typeOffset valOffset = .error e)
      ∨ ParamReadable msg typeOffset valOffset
        ∧ ∃ read, handleStmtExecuteParam floatText msg typeOffset valOffset = .ok read
          ∧ ∀ value next, read = some (value, next) → 0 ≤ next := by
  rcases hbyte : byteAt msg typeOffset with e | byte
  · refine Or.inl ⟨?_, e, ?_⟩
    · rintro ⟨byte, hok, -⟩
      rw [hbyte] at hok
      cases hok
    · rw [handleStmtExecuteParam, hbyte, error_bind]
  rw [paramReadable_iff hbyte, handleStmtExecuteParam, hbyte, ok_bind]
  dsimp only
  generalize (byte.toNat : ColType) = colType
  by_cases hstring : colType ∈ stringTypes
  · rw [if_pos hstring]
    by_cases hhi : valOffset ≤ msg.length
    · rcases dissectStringParam_cases hlo hhi with
        ⟨hlong, e, hread⟩ | ⟨hlong, value, next, ok, hread, hle, hlen⟩
      · refine Or.inl ⟨?_, e, by rw [hread, error_bind]⟩
        rintro ⟨-, h⟩
        rw [(h hstring).2] at hlong
        cases hlong
      · refine Or.inr ⟨⟨List.mem_append_left _ hstring, fun _ => ⟨hhi, hlong⟩⟩, ?_⟩
        exact @value_returns _ valOffset _ ⟨value, next, ok, hread, hlo.trans hle, fun _ => hlen⟩
    · rw [dissectStringParam_behind hmsg (by omega)]
      exact Or.inl ⟨fun h => hhi (h.2 hstring).1, _, rfl⟩
  rw [if_neg hstring]
  by_cases hknown : colType ∈ paramTypes
  · refine Or.inr ⟨⟨hknown, fun h => absurd h hstring⟩, ?_⟩
    split_ifs with h₁ h₂ h₃ h₄ h₅ h₆ h₇ h₈
    · exact number_returns (dissectIntParam_returns hlo)
    · exact number_returns (dissectIntParam_returns hlo)
    · exact number_returns (dissectIntParam_returns hlo)
    · exact number_returns (dissectIntParam_returns hlo)
    · exact value_returns (dissectFloatParam_returns hlo)
    · exact value_returns (dissectFloatParam_returns hlo)
    · exact value_returns (dissectDateTimeParam_returns hlo)
    · refine ⟨some ([], valOffset), rfl, ?_⟩
      rintro _ _ ⟨⟩
      exact hlo
    · simp only [paramTypes, List.mem_append, List.mem_cons, List.not_mem_nil, or_false] at hknown
      tauto
  · refine Or.inl ⟨fun h => hknown h.1, .fatal colType, ?_⟩
    simp only [paramTypes, List.mem_append, List.mem_cons, List.not_mem_nil, or_false, not_or] at hknown
    obtain ⟨-, h₁, h₂, h₃, h₄, h₅, h₆, h₇, h₈, h₉, h₁₀, h₁₁, h₁₂, h₁₃⟩ := hknown
    simp only [h₁, h₂, h₃, h₄, h₅, h₆, h₇, h₈, h₉, h₁₀, h₁₁, h₁₂, h₁₃, if_false, or_false]

theorem executeParams_returns_iff (hmsg : msg ≠ []) (hlo : 0 ≤ valOffset) :
    Returns (executeParams floatText msg n typeOffset valOffset)
      ↔ ParamsReadable floatText msg n typeOffset valOffset := by
  induction n generalizing typeOffset valOffset with
  | zero => exact iff_of_true (returns_ok _) trivial
  | succ n ih =>
      rw [executeParams, ParamsReadable]
      rcases @handleStmtExecuteParam_cases floatText msg typeOffset valOffset hmsg hlo with
        ⟨hparam, e, hread⟩ | ⟨hparam, read, hread, hnext⟩
      · rw [hread, error_bind]
        exact iff_of_false (not_returns_error e) (fun h => hparam h.1)
      rw [hread, ok_bind, and_iff_right hparam]
      rcases read with _ | ⟨value, next⟩
      · refine iff_of_true (returns_ok none) ?_
        rintro _ _ ⟨⟩
      · dsimp only
        rw [returns_bind fun _ _ => returns_ok _, ih (hnext value next rfl)]
        constructor
        · rintro h _ _ ⟨⟩
          exact h
        · intro h
          exact h value next rfl

theorem handleStmtExecuteRequest_returns_iff :
    Returns (handleStmtExecuteRequest floatText m req record)
      ↔ ExecuteReadable floatText m req.msg := by
  unfold handleStmtExecuteRequest ExecuteReadable
  dsimp only
  by_cases hid : req.msg.length < 1 + kStmtIDBytes
  · rw [if_pos hid]
    refine iff_of_true (returns_ok _) (fun _ _ hlen => ?_)
    unfold kStmtIDBytes at hid
    omega
  rw [if_neg hid]
  rcases m.preparedStatements.get? (headerField req.msg 1 kStmtIDBytes) with _ | stmt
  · refine iff_of_true (returns_ok _) ?_
    rintro _ ⟨⟩
  have hoffset : kStmtIDStartOffset + (kStmtIDBytes : ℤ) + kFlagsBytes + kIterationCountBytes = 10 := rfl
  simp only [hoffset, Option.some.injEq, forall_eq']
  by_cases hshort : (req.msg.length : ℤ) < 10
  · rw [if_pos hshort]
    exact iff_of_true (returns_ok _) (fun h => by omega)
  have hmsg : req.msg ≠ [] := by
    intro hnil
    rw [hnil] at hshort
    exact hshort (by decide)
  rw [if_neg hshort, forall_prop_of_true (by omega)]
  rcases hbound : byteAt req.msg (10 + ((stmt.response.header.numParams + 7) / 8 : ℕ)) with e | stmtBound
  · refine iff_of_false (not_returns_error e) ?_
    rintro ⟨_, ⟨⟩, -⟩
  rw [ok_bind, returns_bind (by rintro (_ | params) _ <;> exact returns_ok _)]
  have heleven : (10 : ℤ) + ((stmt.response.header.numParams + 7) / 8 : ℕ) + 1
      = 11 + ((stmt.response.header.numParams + 7) / 8 : ℕ) := by omega
  have hparams := @executeParams_returns_iff floatText req.msg
    (11 + ((stmt.response.header.numParams + 7) / 8 : ℕ))
    (11 + ((stmt.response.header.numParams + 7) / 8 : ℕ) + 2 * stmt.response.header.numParams)
    stmt.response.header.numParams hmsg (by omega)
  unfold boundParams
  rw [heleven]
  constructor
  · intro h
    refine ⟨stmtBound, rfl, fun hone => ?_⟩
    rw [if_pos hone] at h
    exact hparams.mp h
  · rintro ⟨_, ⟨⟩, h⟩
    by_cases hone : stmtBound = 1
    · rw [if_pos hone]
      exact hparams.mpr (h hone)
    · rw [if_neg hone]
      exact returns_ok _

/-- The response is looked at only behind a request that was decoded. -/
theorem processStmtExecute_returns_iff :
    Returns (processStmtExecute floatText m req view record)
      ↔ ExecuteReadable floatText m req.msg ∧ ∀ record' req',
        handleStmtExecuteRequest floatText m req record = .ok (.success, record', req') →
          AnswerReadable floatText true view record' := by
  unfold processStmtExecute
  rw [returns_bind_iff, handleStmtExecuteRequest_returns_iff]
  refine and_congr_right fun _ => (returns_success_iff fun _ => returns_ok _).trans ?_
  refine Prod.forall.trans (forall₃_congr fun record' req' _ => ?_)
  dsimp only
  rcases view with _ | ⟨first, rest⟩
  · refine iff_of_true (returns_ok _) ?_
    rintro _ ⟨⟩
  · refine answer_returns_iff ?_ ?_ ?_
    · exact (returns_bind fun _ _ => returns_ok _).mpr (handleErrMessage_returns (List.cons_ne_nil _ _))
    · exact (returns_bind fun _ _ => returns_ok _).mpr (handleOkMessage_returns (List.cons_ne_nil _ _))
    · exact (returns_bind fun _ _ => returns_ok _).trans handleResultsetResponse_returns_iff

end Execute

/-! ## Requests -/

/-- What processing a request asks of its view, and of the request and the statements where a
statement is executed. -/
def RequestReadable (floatText : GoString → GoString) (m : State) (req : MysqlPacket)
    (view : List MysqlPacket) : Prop :=
  match req.msg with
  | [] => False
  | byte :: msg =>
      let command := (parseCommand byte).1
      if (basicCommands.lookup command).isSome then ∀ resp, view = [resp] → resp.msg ≠ []
      else if command = kQuit then FrontFilled view
      else if command = kQuery then
        AnswerReadable floatText false view ⟨some { req with cmd := command, msg := msg }, none⟩
      else if command = kStmtPrepare then PrepareReadable view
      else if command = kStmtExecute then
        ExecuteReadable floatText m req.msg ∧ ∀ record req',
          handleStmtExecuteRequest floatText m req Exchange.empty = .ok (.success, record, req') →
            AnswerReadable floatText true view record
      else True

section Requests

variable {floatText : GoString → GoString} {m : State} {req : MysqlPacket} {view : List MysqlPacket}

theorem processPackets_returns_iff :
    Returns (processPackets floatText m req view) ↔ RequestReadable floatText m req view := by
  unfold processPackets RequestReadable
  rcases hmsg : req.msg with _ | ⟨byte, msg⟩
  · exact iff_of_false (not_returns_error _) id
  have hreq : req.msg ≠ [] := by
    rw [hmsg]
    exact List.cons_ne_nil byte msg
  have hbyte : byteAt (byte :: msg) 0 = .ok byte := rfl
  rw [hbyte, ok_bind]
  dsimp only
  generalize hcommand : (parseCommand byte).1 = command
  rcases basicCommands.lookup command with _ | stringReq
  · dsimp only [Option.isSome]
    rw [if_neg Bool.false_ne_true]
    by_cases hquit : command = kQuit
    · rw [if_pos hquit, if_pos hquit]
      exact (returns_bind fun _ _ => returns_ok _).trans (processQuit_returns_iff hreq)
    rw [if_neg hquit, if_neg hquit]
    by_cases hquery : command = kQuery
    · rw [if_pos hquery, if_pos hquery, ← hcommand]
      exact (returns_bind fun _ _ => returns_ok _).trans (processQuery_returns_iff hmsg)
    rw [if_neg hquery, if_neg hquery]
    by_cases hprepare : command = kStmtPrepare
    · rw [if_pos hprepare, if_pos hprepare]
      exact (returns_bind fun _ _ => returns_ok _).trans (processStmtPrepare_returns_iff hreq)
    rw [if_neg hprepare, if_neg hprepare]
    by_cases hexecute : command = kStmtExecute
    · rw [if_neg (by rw [hexecute]; decide), if_pos hexecute, if_pos hexecute, ← hmsg]
      exact (returns_bind fun _ _ => returns_ok _).trans processStmtExecute_returns_iff
    rw [if_neg hexecute, if_neg hexecute]
    -- The other commands look at their request only.
    refine iff_of_true ?_ trivial
    split_ifs
    · refine (returns_bind fun _ _ => returns_ok _).mpr ?_
      exact (returns_bind fun _ _ => returns_ok _).mpr (handleNonStringRequest_returns hreq)
    · exact returns_ok _
    · refine (returns_bind fun _ _ => returns_ok _).mpr ?_
      exact (returns_bind fun _ _ => returns_ok _).mpr (handleNonStringRequest_returns hreq)
    · exact returns_ok _
  · rw [if_pos Option.isSome_some]
    exact (returns_bind fun _ _ => returns_ok _).trans (processRequestWithBasicResponse_returns_iff hreq)

end Requests

/-! ## Matching -/

/-- The state that the loop goes on with. -/
def confirm (r : Processed) (command : Command) : State :=
  if !r.state.active && r.parseState = .success && confirmingCommands.contains command then
    { r.state with active := true }
  else r.state

/-- The loop of `Match` stops, and waits for more packets. -/
def LoopWaits (r : Processed) (reqStream respStream respView : List MysqlPacket) : Prop :=
  r.parseState = .needsMoreData ∧ reqStream = [] ∧ respView.length = respStream.length

/-- Every request the loop comes to can be read with its view, and with the statements that are
prepared by then. -/
def MatchReadable (floatText : GoString → GoString) :
    State → List MysqlPacket → List MysqlPacket → Prop
  | _, [], _ => True
  | m, reqPacket :: reqStream, respStream =>
      let respStream := syncRespQueue reqPacket respStream
      let respView := getRespView (reqPacket :: reqStream) respStream
      RequestReadable floatText m reqPacket respView
        ∧ ∀ byte r, byteAt reqPacket.msg 0 = .ok byte →
          processPackets floatText m reqPacket respView = .ok r →
            ¬ LoopWaits r reqStream respStream respView →
              MatchReadable floatText (confirm r (parseCommand byte).1) reqStream
                (respStream.drop respView.length)

section Matching

variable {floatText : GoString → GoString} {m : State} {records : List (Record Message)}
  {reqStream respStream : List MysqlPacket}

/-- A request that lacks packets keeps a byte, so its text can be sliced for the log. -/
theorem processPackets_logged {req : MysqlPacket} {view : List MysqlPacket} {r : Processed}
    (h : processPackets floatText m req view = .ok r) (hstate : r.parseState = .needsMoreData) :
    r.reqPacket.msg ≠ [] := by
  have hwaiting := processPackets_waiting h hstate
  split_ifs at hwaiting
  · obtain ⟨first, hfirst, -⟩ := hwaiting
    intro hnil
    rw [hnil] at hfirst
    cases hfirst
  · obtain ⟨byte, hbyte, -⟩ := processPackets_handled h
    rw [hwaiting.1]
    intro hnil
    rw [hnil] at hbyte
    cases hbyte

theorem matchLoop_returns_iff : Returns (matchLoop floatText m records reqStream respStream)
    ↔ MatchReadable floatText m reqStream respStream := by
  induction reqStream generalizing m records respStream with
  | nil => exact iff_of_true (returns_ok _) trivial
  | cons reqPacket reqStream ih =>
      rw [matchLoop, MatchReadable]
      dsimp only
      generalize syncRespQueue reqPacket respStream = respStream
      generalize getRespView (reqPacket :: reqStream) respStream = respView
      rcases hbyte : byteAt reqPacket.msg 0 with e | byte
      · refine iff_of_false (not_returns_error e) (fun h => ?_)
        have hreturns := processPackets_returns_iff.mpr h.1
        rw [processPackets, hbyte] at hreturns
        exact not_returns_error e hreturns
      rw [ok_bind, returns_bind_iff, processPackets_returns_iff]
      refine and_congr_right fun _ => ?_
      constructor
      · rintro h _ r ⟨⟩ hr hgoes
        have hrest := h r hr
        unfold LoopWaits at hgoes
        rw [if_neg hgoes] at hrest
        exact ih.mp hrest
      · intro h r hr
        by_cases hwaits : LoopWaits r reqStream respStream respView
        · unfold LoopWaits at hwaits
          rw [if_pos hwaits]
          exact returns_ok _
        · have hrest := h byte r rfl hr hwaits
          unfold LoopWaits at hwaits
          rw [if_neg hwaits]
          exact ih.mpr hrest

theorem matchStreams_returns_iff : Returns (matchStreams floatText m reqStream respStream)
    ↔ MatchReadable floatText m reqStream respStream :=
  (returns_bind fun _ _ => returns_ok _).trans matchLoop_returns_iff

end Matching

/-- A call of `Match`, with the queues of stream 0. -/
structure MatchCall where
  reqStream : List MysqlPacket
  respStream : List MysqlPacket

/-- What a call leaves of the parser. -/
def State.matchCall (floatText : GoString → GoString) (m : State) (call : MatchCall) :
    Except Panic State := do
  let (m, _, _, _) ← matchStreams floatText m call.reqStream call.respStream
  .ok m

/-- **The parser returns** from every call of a run just when, in the state before each of them, the
requests it comes to can be read. -/
theorem matchCalls_returns_iff (floatText : GoString → GoString) (calls : List MatchCall) :
    (∃ m, Run (State.matchCall floatText) (fun _ _ => True) State.new calls m)
      ↔ ∀ front call back m, calls = front ++ call :: back →
        Run (State.matchCall floatText) (fun _ _ => True) State.new front m →
          MatchReadable floatText m call.reqStream call.respStream :=
  Run.exists_iff (fun _ _ => (returns_bind fun _ _ => returns_ok _).trans matchStreams_returns_iff) calls

/-! ## A statement without parameters -/

/-- `ParseStream` returns the packet. -/
def Parsed (messageType : MessageType) (packet : MysqlPacket) : Prop :=
  ∃ sb readBytes, parseStream sb messageType
    = .ok ⟨.success, [⟨packet.isReq, 0, packet⟩], readBytes⟩

/-- A packet as `ParseStream` cuts it out of `streamAt`. -/
def packetAt (time : ℕ) (seqId : UInt8) (isReq : Bool) (msg : GoString) : MysqlPacket :=
  { base := ⟨time, msg.length + 4, 0⟩, seqId := seqId.toNat, msg := msg, cmd := 0, isReq := isReq }

/-- A short packet in a head of a time. -/
def streamAt (time : ℕ) (seqId : UInt8) (msg : GoString) : StreamBuffer :=
  { buffers := [⟨UInt8.ofNat msg.length :: 0 :: 0 :: seqId :: msg, 0⟩]
    timestamps := SortedMap.empty.put 0 time, capacity := 1024 }

/-- Statement 1 is prepared; it has no parameter. -/
def prepareCall : MatchCall :=
  { reqStream := [packetAt 1 0 true (0x16 :: text "SELECT 1")]
    respStream := [packetAt 2 1 false [0, 1, 0, 0, 0, 0, 0, 0, 0, 0, 0, 0]] }

/-- Statement 1 is executed once; nothing follows the iteration count. -/
def executeCall : MatchCall :=
  { reqStream := [packetAt 3 0 true [0x17, 1, 0, 0, 0, 0, 1, 0, 0, 0]]
    respStream := [packetAt 4 1 false [0, 0, 0, 2, 0, 0, 0]] }

/-- The flag behind the null bitmap is not there, and `Match` panics. -/
theorem execute_without_parameters_panics :
    ¬ ∀ floatText calls m,
      (∀ call : MatchCall, call ∈ calls → (∀ req ∈ call.reqStream, Parsed .request req)
        ∧ ∀ resp ∈ call.respStream, Parsed .response resp) →
      Run (State.matchCall floatText) (fun _ _ => True) State.new calls m →
      ∀ reqStream respStream, (∀ req ∈ reqStream, Parsed .request req) →
        (∀ resp ∈ respStream, Parsed .response resp) →
          ∃ r, matchStreams floatText m reqStream respStream = .ok r := by
  intro h
  have hpanic : (exec (State.matchCall id) (fun _ _ => True) State.new [prepareCall]).map (fun m =>
      match matchStreams id m executeCall.reqStream executeCall.respStream with
      | .ok _ => none
      | .error p => some p) = some (some .indexOutOfRange) := by decide +kernel
  obtain ⟨m, hexec, herror⟩ := Option.map_eq_some_iff.mp hpanic
  have hprepare : (∀ req ∈ prepareCall.reqStream, Parsed .request req)
      ∧ ∀ resp ∈ prepareCall.respStream, Parsed .response resp := by
    constructor
    · rintro req hreq
      obtain rfl := List.mem_singleton.mp hreq
      exact ⟨streamAt 1 0 (0x16 :: text "SELECT 1"), 13, rfl⟩
    · rintro resp hresp
      obtain rfl := List.mem_singleton.mp hresp
      exact ⟨streamAt 2 1 [0, 1, 0, 0, 0, 0, 0, 0, 0, 0, 0, 0], 16, rfl⟩
  obtain ⟨r, hr⟩ := h id [prepareCall] m (by
      intro call hcall
      obtain rfl := List.mem_singleton.mp hcall
      exact hprepare) (Run.of_exec hexec) executeCall.reqStream executeCall.respStream (by
      rintro req hreq
      obtain rfl := List.mem_singleton.mp hreq
      exact ⟨streamAt 3 0 [0x17, 1, 0, 0, 0, 0, 1, 0, 0, 0], 14, rfl⟩) (by
      rintro resp hresp
      obtain rfl := List.mem_singleton.mp hresp
      exact ⟨streamAt 4 1 [0, 0, 0, 2, 0, 0, 0], 11, rfl⟩)
  rw [hr] at herror
  cases herror

end Kyanos.Mysql
