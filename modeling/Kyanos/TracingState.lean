/-
`UpdateConnectionTraceable` of `agent/conn/conntrack.go`, and what the kernel does meanwhile.

The agent tells the kernel whether a connection is to be traced by writing into its entries of two maps.
No map has an operation on one field: the entry is looked up, changed and written back whole. Each of
these is one operation, and between two of them the system calls of the connection go on, which count in
the same record; the descriptor may even be closed and belong to another connection.

`updates_kept_iff` says which runs lose nothing by it, and that the kernel has the agent's word whenever
no update is under way.
-/
import Kyanos.ByteCounters
import Kyanos.ConnRecords

set_option autoImplicit false

open GoNum Trace

namespace Kyanos.Bpf

/-! ## The agent and the kernel -/

/-- Before which operation on a map `UpdateConnectionTraceable` is, with the entry that it writes. -/
inductive Phase
  | idle
  | lookupConnId
  | updateConnId (connIds : ConnIdS)
  | lookupConnInfo
  | updateConnInfo (connInfo : ConnInfo)

/-- A connection of the agent, and the entries under its key and its descriptor. Beside them is how much
the connection of the record has moved, now and when the agent looked the record up last. -/
structure Tracing where
  tracable : TraceState
  phase : Phase
  connId : Option ConnIdS
  connInfo : Option ConnInfo
  cpu : Cpu
  moved : Direction → ℕ
  seen : Direction → ℕ

inductive TracingOp
  | call (traceableState : TraceState)
  | resume
  | syscall (call : DataSyscall)
  | created (connInfo : ConnInfo)
  | closed
  | onClose

/-- A system call leaves the agent's word alone. -/
theorem DataSyscall.run_noTrace (call : DataSyscall) (c : ConnInfo) (cpu : Cpu) :
    (call.run c cpu).1.noTrace = c.noTrace := by
  have hset : ∀ isSsl : Bool, (if isSsl then { c with ssl := true } else c).noTrace = c.noTrace := by
    intro isSsl
    cases isSsl
    · rfl
    · rfl
  have hadd : ∀ (c : ConnInfo) (direct : Direction) (count : ℕ),
      (c.addBytes direct count).noTrace = c.noTrace := by
    intro c direct count
    cases direct
    · rfl
    · rfl
  unfold DataSyscall.run
  split
  · rfl
  · split
    · unfold processSyscallData
      split
      · rfl
      · dsimp only
        rw [hadd, (processData_kept _).noTrace, hset]
    · unfold processSyscallDataVecs
      split
      · rfl
      · dsimp only
        rw [hadd, processVecs_kept.noTrace, hset]

namespace Tracing

/-- `UpdateConnectionTraceable`, up to its first operation on a map. -/
def updateConnectionTraceable (s : Tracing) (traceableState : TraceState) : Tracing :=
  if s.tracable = traceableState then s
  else { s with tracable := traceableState, phase := .lookupConnId }

/-- The next operation on a map. `Update` is given `UpdateExist`, and what is not found is not written.
-/
def resume (s : Tracing) : Tracing :=
  match s.phase with
  | .idle => s
  | .lookupConnId =>
      match s.connId with
      | none => { s with phase := .lookupConnInfo }
      | some connIds => { s with phase := .updateConnId { connIds with noTrace := s.tracable } }
  | .updateConnId connIds =>
      { s with connId := s.connId.map fun _ => connIds, phase := .lookupConnInfo }
  | .lookupConnInfo =>
      match s.connInfo with
      | none => { s with phase := .idle }
      | some connInfo =>
          { s with phase := .updateConnInfo { connInfo with noTrace := s.tracable }, seen := s.moved }
  | .updateConnInfo connInfo =>
      { s with connInfo := s.connInfo.map fun _ => connInfo, phase := .idle }

/-- A data system call on the descriptor. -/
def syscall (s : Tracing) (call : DataSyscall) : Tracing :=
  match s.connInfo with
  | none => s
  | some connInfo =>
      { s with
        connInfo := some (call.run connInfo s.cpu).1
        cpu := (call.run connInfo s.cpu).2
        moved := fun d => s.moved d + if d = call.direct then call.outcome.total else 0 }

/-- `create_conn_info` stores a new record over what was there. The entry under the key is that of
another connection. -/
def created (s : Tracing) (connInfo : ConnInfo) : Tracing :=
  { s with connInfo := some connInfo, moved := fun _ => 0 }

def step (s : Tracing) : TracingOp → Except Empty Tracing
  | .call traceableState => .ok (s.updateConnectionTraceable traceableState)
  | .resume => .ok s.resume
  | .syscall call => .ok (s.syscall call)
  | .created connInfo => .ok (s.created connInfo)
  -- `process_syscall_close` deletes both entries, and `OnClose` the one under the key.
  | .closed => .ok { s with connInfo := none, connId := none }
  | .onClose => .ok { s with connId := none }

/-- The events of a connection are handled one after the other, so that a call ends before the next. The
system calls are ones whose bytes are all counted. -/
def Allows (s : Tracing) : TracingOp → Prop
  | .call _ => s.phase = .idle
  | .syscall call => call.Given ∧ call.Counted
  | .created connInfo => ∀ d, connInfo.bytes d = 0
  | _ => True

/-- The counters are where the stream is. -/
def Followed (s : Tracing) : Prop := ∀ c ∈ s.connInfo, ∀ d, c.bytes d = u64 (s.moved d)

/-- The entries say what the agent last said. -/
def Told (s : Tracing) : Prop :=
  (∀ c ∈ s.connInfo, c.noTrace = s.tracable) ∧ ∀ i ∈ s.connId, i.noTrace = s.tracable

/-- If a record is written over, the connection has moved as much as when it was looked up. -/
def Undisturbed (s : Tracing) : TracingOp → Prop
  | .resume => ∀ copy, s.phase = .updateConnInfo copy → s.connInfo ≠ none →
      ∀ d, u64 (s.seen d) = u64 (s.moved d)
  | _ => True

/-! ## One operation -/

/-- The copy that is to be written has the counters of the lookup. -/
def CopyOf (s : Tracing) : Prop :=
  ∀ copy, s.phase = .updateConnInfo copy → ∀ d, copy.bytes d = u64 (s.seen d)

variable {s s' : Tracing} {op : TracingOp}

theorem Followed.syscall (hs : s.Followed) {call : DataSyscall} (hgiven : call.Given)
    (hcounted : call.Counted) : (s.syscall call).Followed := by
  unfold Tracing.syscall
  rcases hconn : s.connInfo with _ | c
  · exact hs
  · intro c' hc' d
    cases hc'
    have hbytes := hs c hconn
    have hword : ∀ d, u64 (c.bytes d) = c.bytes d := by
      intro d
      rw [hbytes d]
      exact Nat.mod_mod _ _
    have hadded : call.added = call.outcome.total := by
      have hsum := call.added_add_missed
      have hmissed := (call.missed_eq_zero_iff).mpr hcounted
      omega
    dsimp only
    rw [DataSyscall.run_bytes hgiven hword, hadded, hbytes d]
    split_ifs
    · exact Nat.mod_add_mod _ _ _
    · rfl

/-- What an operation keeps of a copy. -/
theorem CopyOf.step (hcopy : s.CopyOf) (hs : s.Followed) (hstep : s.step op = .ok s') : s'.CopyOf := by
  rcases op with traceableState | _ | call | connInfo | _ | _
  · cases hstep
    unfold updateConnectionTraceable
    split_ifs
    · exact hcopy
    · intro copy hphase
      cases hphase
  · cases hstep
    unfold Tracing.resume
    rcases hphase : s.phase with _ | _ | connIds | _ | connInfo
    · exact hcopy
    · dsimp only
      rcases s.connId with _ | connIds
      · intro copy hphase
        cases hphase
      · intro copy hphase
        cases hphase
    · intro copy hphase
      cases hphase
    · dsimp only
      rcases hconn : s.connInfo with _ | c
      · intro copy hphase
        cases hphase
      -- The lookup itself: here the copy and what is counted beside it are made.
      · intro copy hphase d
        cases hphase
        exact hs c hconn d
    · intro copy hphase
      cases hphase
  · cases hstep
    unfold Tracing.syscall
    rcases s.connInfo with _ | c
    · exact hcopy
    · exact hcopy
  · cases hstep
    exact hcopy
  · cases hstep
    exact hcopy
  · cases hstep
    exact hcopy

/-- **One operation**: the counters still follow the stream, unless a record is written over that has
counted since it was looked up. -/
theorem step_followed_iff (hs : s.Followed ∧ s.CopyOf) (hallows : s.Allows op)
    (hstep : s.step op = .ok s') : s'.Followed ∧ s'.CopyOf ↔ s.Undisturbed op := by
  obtain ⟨hs, hcopy⟩ := hs
  rw [and_iff_left (hcopy.step hs hstep)]
  rcases op with traceableState | _ | call | connInfo | _ | _
  · cases hstep
    refine iff_of_true ?_ trivial
    unfold updateConnectionTraceable
    split_ifs
    · exact hs
    · exact hs
  · cases hstep
    unfold Tracing.resume Undisturbed
    rcases hphase : s.phase with _ | _ | connIds | _ | copy
    · exact iff_of_true hs fun copy h => by cases h
    · refine iff_of_true ?_ fun copy h => by cases h
      dsimp only
      rcases s.connId with _ | connIds
      · exact hs
      · exact hs
    · exact iff_of_true hs fun copy h => by cases h
    · refine iff_of_true ?_ fun copy h => by cases h
      dsimp only
      unfold Followed at hs ⊢
      rcases hconn : s.connInfo with _ | c
      · intro c hc
        cases hc
      · rw [hconn] at hs
        exact hs
    -- The write of the record, the one operation that may set the counters back.
    · have hbytes := hcopy copy hphase
      dsimp only
      rcases hconn : s.connInfo with _ | c
      · refine iff_of_true (fun c hc => ?_) fun copy _ hne => absurd rfl hne
        cases hc
      · constructor
        · rintro hfollowed copy' ⟨rfl⟩ - d
          rw [← hbytes d]
          exact hfollowed copy rfl d
        -- The copy counts as far as the stream then, which is as far as now.
        · rintro hundisturbed c' ⟨rfl⟩ d
          exact (hbytes d).trans (hundisturbed copy rfl (by simp) d)
  · cases hstep
    exact iff_of_true (hs.syscall hallows.1 hallows.2) trivial
  · cases hstep
    refine iff_of_true (fun c hc d => ?_) trivial
    cases hc
    exact hallows d
  · cases hstep
    refine iff_of_true (fun c hc => ?_) trivial
    cases hc
  · cases hstep
    exact iff_of_true hs trivial

/-- What an update under way has still to say. -/
def Telling (s : Tracing) : Prop :=
  match s.phase with
  | .idle => s.Told
  | .lookupConnId => True
  | .updateConnId connIds => connIds.noTrace = s.tracable
  | .lookupConnInfo => ∀ i ∈ s.connId, i.noTrace = s.tracable
  | .updateConnInfo copy => copy.noTrace = s.tracable ∧ ∀ i ∈ s.connId, i.noTrace = s.tracable

theorem Telling.resume (hs : s.Telling) : s.resume.Telling := by
  unfold Telling at hs
  unfold Tracing.resume
  rcases hphase : s.phase with _ | _ | connIds | _ | copy
  · rw [hphase] at hs
    unfold Telling
    dsimp only
    rw [hphase]
    exact hs
  · dsimp only
    rcases hid : s.connId with _ | connIds
    · intro i hi
      cases hi
    -- What is looked up is changed to the word at once.
    · exact rfl
  · rw [hphase] at hs
    intro i hi
    obtain ⟨_, -, rfl⟩ := Option.map_eq_some_iff.mp hi
    exact hs
  · rw [hphase] at hs
    dsimp only
    rcases hconn : s.connInfo with _ | c
    · refine ⟨fun c hc => ?_, hs⟩
      cases hc
    · exact ⟨rfl, hs⟩
  · rw [hphase] at hs
    refine ⟨fun c hc => ?_, hs.2⟩
    obtain ⟨_, -, rfl⟩ := Option.map_eq_some_iff.mp hc
    exact hs.1

/-- What is said of the entries of a state is said of those that have the same word, or are gone. -/
theorem Telling.mono (hs : s.Telling) (htracable : s'.tracable = s.tracable)
    (hphase : s'.phase = s.phase)
    (hid : ∀ i ∈ s'.connId, i ∈ s.connId)
    (hconn : ∀ c ∈ s'.connInfo, ∃ c' ∈ s.connInfo, c.noTrace = c'.noTrace) : s'.Telling := by
  unfold Telling Told at hs ⊢
  rw [hphase, htracable]
  generalize s.phase = phase at hs
  rcases phase with _ | _ | connIds | _ | copy
  · refine ⟨fun c hc => ?_, fun i hi => hs.2 i (hid i hi)⟩
    obtain ⟨c', hc', hsame⟩ := hconn c hc
    exact hsame.trans (hs.1 c' hc')
  · trivial
  · exact hs
  · exact fun i hi => hs i (hid i hi)
  · exact ⟨hs.1, fun i hi => hs.2 i (hid i hi)⟩

theorem Telling.step (hs : s.Telling) (hold : ∀ c, op ≠ .created c)
    (hstep : s.step op = .ok s') : s'.Telling := by
  rcases op with traceableState | _ | call | connInfo | _ | _
  · cases hstep
    unfold updateConnectionTraceable
    split_ifs
    · exact hs
    · exact trivial
  · cases hstep
    exact hs.resume
  · cases hstep
    unfold Tracing.syscall
    rcases hconn : s.connInfo with _ | c
    · exact hs
    · refine hs.mono rfl rfl (fun i hi => hi) fun c' hc' => ⟨c, hconn, ?_⟩
      cases hc'
      exact DataSyscall.run_noTrace call c s.cpu
  · exact absurd rfl (hold connInfo)
  · cases hstep
    refine hs.mono rfl rfl (fun i hi => ?_) fun c hc => ?_
    · cases hi
    · cases hc
  · cases hstep
    refine hs.mono rfl rfl (fun i hi => ?_) fun c hc => ⟨c, hc, rfl⟩
    cases hi

/-! ## All operations -/

/-- In a run that follows the stream all along, a copy has the counters of its lookup. -/
theorem copyOf_of_run {s₀ : Tracing} (hidle : s₀.phase = .idle) {ops : List TracingOp}
    (h : Run step Allows s₀ ops s)
    (hall : ∀ front s', front <+: ops → Run step Allows s₀ front s' → s'.Followed) : s.CopyOf := by
  induction h with
  | nil =>
      intro copy hphase
      rw [hidle] at hphase
      cases hphase
  | snoc prev allowed stepped ih =>
      have hfront := ih fun front s' hfront => hall front s' (hfront.trans (List.prefix_append _ _))
      exact hfront.step (hall _ _ (List.prefix_append _ _) prev) stepped

/-- **Updates that lose nothing.** The counters of a connection follow its stream all along a run if and
only if, whenever the agent writes over the record, the connection under the descriptor has moved as
much as when the agent looked the record up. And as long as no record is made anew, both entries have
the agent's word whenever no update is under way. -/
theorem updates_kept_iff {s₀ : Tracing} (hidle : s₀.phase = .idle) (hfollowed : s₀.Followed)
    (htold : s₀.Told) {ops : List TracingOp} (h : Run step Allows s₀ ops s) :
    ((∀ front s', front <+: ops → Run step Allows s₀ front s' → s'.Followed)
      ↔ Run step (fun s op => s.Allows op ∧ s.Undisturbed op) s₀ ops s)
    ∧ ((∀ op ∈ ops, ∀ c, op ≠ .created c) → s.phase = .idle → s.Told) := by
  have hcopy : s₀.CopyOf := by
    intro copy hphase
    rw [hidle] at hphase
    cases hphase
  constructor
  · have hiff := Run.invariant_iff
      (fun s op s' hs hallows hstep => step_followed_iff hs hallows hstep) h
    -- The clause of the copy follows along a run, so that it need not be asked for.
    rw [and_iff_right ⟨hfollowed, hcopy⟩] at hiff
    rw [← hiff]
    constructor
    · intro hall front s' hfront hrun
      refine ⟨hall front s' hfront hrun, copyOf_of_run hidle hrun ?_⟩
      exact fun front' s'' hfront' => hall front' s'' (hfront'.trans hfront)
    · exact fun hall front s' hfront hrun => (hall front s' hfront hrun).1
  · intro hold hphase
    have htelling : (∀ op ∈ ops, ∀ c, op ≠ .created c) → s.Telling := by
      refine h.history (I := fun ops s => (∀ op ∈ ops, ∀ c, op ≠ .created c) → s.Telling) ?_ ?_
      · intro _
        unfold Telling
        rw [hidle]
        exact htold
      · intro ops s op s' hs _ hstep hold
        refine (hs fun op hop => hold op (List.mem_append_left _ hop)).step ?_ hstep
        exact hold op (List.mem_append_right _ (List.mem_singleton_self _))
    have hs := htelling hold
    unfold Telling at hs
    rw [hphase] at hs
    exact hs

end Tracing

/-- A connection that the agent has just heard of, and that has moved nothing. -/
def newTracing : Tracing :=
  { tracable := .unset, phase := .idle, connId := some ⟨3, .unset⟩
    connInfo := some { unknownConn with readBytes := 0, noTrace := .unset }, cpu := freshCpu
    moved := fun _ => 0, seen := fun _ => 0 }

/-- The agent begins to turn tracing off and looks the record up, 18 bytes are read, and it writes. -/
def racingUpdate : List TracingOp :=
  [.call .other, .resume, .resume, .resume, .syscall readCall, .resume]

namespace Tracing

def after (s : Tracing) (op : TracingOp) : Tracing :=
  match s.step op with
  | .ok s' => s'
  | .error e => e.elim

theorem run_after {s₀ s : Tracing} {ops : List TracingOp} (h : Run step Allows s₀ ops s) (op : TracingOp)
    (hallows : s.Allows op) : Run step Allows s₀ (ops ++ [op]) (s.after op) :=
  h.snoc hallows (by cases op <;> rfl)

end Tracing

theorem racing_run : Run Tracing.step Tracing.Allows newTracing racingUpdate
    (racingUpdate.foldl Tracing.after newTracing) := by
  have hcalled := Tracing.run_after Run.nil (.call .other) (rfl : newTracing.phase = .idle)
  have hlooked := Tracing.run_after (Tracing.run_after (Tracing.run_after hcalled .resume trivial)
      .resume
    trivial) .resume trivial
  have hread := Tracing.run_after hlooked (.syscall readCall) ⟨readCall_given, fun _ => by decide⟩
  exact Tracing.run_after hread .resume trivial

theorem updates_kept_iff_racing :
    ((∀ front s', front <+: racingUpdate → Run Tracing.step Tracing.Allows newTracing front s' →
        s'.Followed)
      ↔ Run Tracing.step (fun s op => s.Allows op ∧ s.Undisturbed op) newTracing racingUpdate
        (racingUpdate.foldl Tracing.after newTracing))
    ∧ ((∀ op ∈ racingUpdate, ∀ c, op ≠ .created c) →
        (racingUpdate.foldl Tracing.after newTracing).phase = .idle →
        (racingUpdate.foldl Tracing.after newTracing).Told) := by
  have hfollowed : newTracing.Followed := by
    rintro c ⟨rfl⟩ d
    cases d
    · rfl
    · rfl
  have htold : newTracing.Told := by
    refine ⟨?_, ?_⟩
    · rintro c ⟨rfl⟩
      rfl
    · rintro i ⟨rfl⟩
      rfl
  exact Tracing.updates_kept_iff rfl hfollowed htold racing_run

/-- The 18 bytes are lost to the counter. -/
example : (racingUpdate.foldl Tracing.after newTracing).connInfo.map ConnInfo.readBytes = some 0
    ∧ (racingUpdate.foldl Tracing.after newTracing).moved .ingress = 18 := by
  decide +kernel

end Kyanos.Bpf
