/-
`bpf/openssl.h`: calls of the TLS library, and the system calls they make.

What an application reads or writes is seen where the library's call returns, what goes over the wire in
the system calls the library makes meanwhile. The probe at the entry puts a record under the thread,
every data system call of the thread adds its bytes to it (`propagate_fd_to_uprobe`), and the probe at
the return reports the plaintext together with the range of the stream that carried it: the last bytes
of the connection's direction, as many as the record has.

Threads interleave, and the library may read to write. `range_exact_iff` says when the range is that of
the bytes which the call moved: nothing of it went elsewhere, and nobody else moved bytes behind it.
-/
import Kyanos.ByteCounters
import Kyanos.ConnRecords
import Kyanos.Decoder
import Kyanos.Ledger

set_option autoImplicit false

open GoNum Trace

namespace Kyanos.Bpf

/-! ## The probes -/

def kInvalidFD : ℤ := -1

/-- `get_fd`, for the number behind `ssl`. -/
def getFd (rbioNum : ℤ) : ℤ := if rbioNum ≠ kInvalidFD ∧ rbioNum > 2 then rbioNum else kInvalidFD

/-- `nested_syscall_fd_t`. -/
structure NestedSyscallFd where
  fd : ℤ
  mismatchedFds : Bool
  syscallLen : ℕ

/-- `update_fd_and_syscall_len_to_uprobe`. -/
def updateFdAndSyscallLen (fd len : ℤ) (nested : NestedSyscallFd) : NestedSyscallFd :=
  let nested :=
    if nested.fd = kInvalidFD then { nested with fd := fd }
    else if nested.fd ≠ fd then { nested with mismatchedFds := true }
    else nested
  if len > 0 then { nested with syscallLen := (nested.syscallLen + len.toNat) % 2 ^ 32 } else nested

/-- The arguments of a call of the library. The `_ex` variants are given a place for the length. -/
structure SslArgs where
  args : DataArgs
  hasExLen : Bool

/-- The maps, and what the CPU has. -/
structure TlsState where
  sslUserSpaceCallMap : ℕ → Option NestedSyscallFd
  activeSslReadArgsMap : ℕ → Option SslArgs
  activeSslWriteArgsMap : ℕ → Option SslArgs
  connInfoMap : ℕ → Option ConnInfo
  cpu : Cpu

namespace TlsState

def activeArgs (s : TlsState) (direct : Direction) : ℕ → Option SslArgs :=
  if direct = .egress then s.activeSslWriteArgsMap else s.activeSslReadArgsMap

def putActiveArgs (s : TlsState) (direct : Direction) (id : ℕ) (args : SslArgs) : TlsState :=
  if direct = .egress then
    { s with activeSslWriteArgsMap := Function.update s.activeSslWriteArgsMap id (some args) }
  else { s with activeSslReadArgsMap := Function.update s.activeSslReadArgsMap id (some args) }

end TlsState

/-- `do_SSL_read_entry` and `do_SSL_write_entry`; `now` is the reading of the clock. -/
def doSslEntry (direct : Direction) (id : ℕ) (rbioNum : ℤ) (buf : Memory) (isExCall : Bool) (now : ℕ)
    (s : TlsState) : TlsState :=
  let nested : NestedSyscallFd := { fd := getFd rbioNum, mismatchedFds := false, syscallLen := 0 }
  let s := { s with sslUserSpaceCallMap := Function.update s.sslUserSpaceCallMap id (some nested) }
  s.putActiveArgs direct id
    { args :=
        { sourceFn := if direct = .egress then .sslWrite else .sslRead, fd := 0, buf := buf, iov := []
          startTs := now, endTs := 0 }
      hasExLen := isExCall }

def ConnInfo.addSslBytes (c : ConnInfo) (direct : Direction) (count : ℕ) : ConnInfo :=
  if direct = .egress then { c with sslWriteBytes := u64 (c.sslWriteBytes + count) }
  else { c with sslReadBytes := u64 (c.sslReadBytes + count) }

/-- How much a call of the library moved; one with a place for the length returns 1. -/
def sslBytesCount (sslArgs : SslArgs) (ret : Returned) (exBytes : Moved) : Option Moved :=
  if ret.value = 1 ∧ sslArgs.hasExLen = true then some exBytes else ret.moved

/-- The descriptor of a thread's process. -/
def fdOfThread (id : ℕ) (fd : ℤ) : ℕ := genTgidFd (id / 2 ^ 32) fd

/-- `process_ssl_data`, from the count on. The length is passed on as one with a sign. -/
def processSslData (maps : Maps) (id : ℕ) (direct : Direction) (args : DataArgs) (bytesCount : Moved)
    (syscallLen : ℕ) (s : TlsState) : TlsState :=
  let tgidFd := fdOfThread id args.fd
  match s.connInfoMap tgidFd with
  | none => s
  | some connInfo =>
      let (connInfo, cpu) := processSyscallDataWithConnInfo maps args tgidFd direct bytesCount
        (intOf 32 syscallLen) true true { connInfo with ssl := true } s.cpu
      { s with
        connInfoMap := Function.update s.connInfoMap tgidFd
          (some (connInfo.addSslBytes direct bytesCount.count))
        cpu := cpu }

/-- `do_SSL_read_ret` and `do_SSL_write_ret`. -/
def doSslRet (maps : Maps) (direct : Direction) (id : ℕ) (ret : Returned) (exBytes : Moved) (now : ℕ)
    (s : TlsState) : TlsState :=
  match s.sslUserSpaceCallMap id with
  | none => s
  | some nested =>
      let s := { s with sslUserSpaceCallMap := Function.update s.sslUserSpaceCallMap id none }
      match s.activeArgs direct id with
      | none => s
      | some sslArgs =>
          let args := { sslArgs.args with endTs := now, fd := nested.fd }
          let s := s.putActiveArgs direct id { sslArgs with args := args }
          match sslBytesCount sslArgs ret exBytes with
          | none => s
          | some bytesCount => processSslData maps id direct args bytesCount nested.syscallLen s

/-- The count that the exit of a data system call hands to `propagate_fd_to_uprobe`; one with no message
does not call it. -/
def Outcome.propagated : Outcome → Option ℤ
  | .plain ret => some ret.value
  | .vectored ret => some ret.value
  | .multiMessage [] => none
  | .multiMessage (first :: _) => some first.1

/-- `propagate_fd_to_uprobe`, for a thread that runs no goroutine. -/
def propagateFdToUprobe (id : ℕ) (fd len : ℤ) (s : TlsState) : TlsState :=
  { s with
    sslUserSpaceCallMap := Function.update s.sslUserSpaceCallMap id
      ((s.sslUserSpaceCallMap id).map (updateFdAndSyscallLen fd len)) }

/-- The exit of a data system call, on a descriptor whose record is there or is not made. -/
def exitDataSyscall (id : ℕ) (call : DataSyscall) (s : TlsState) : TlsState :=
  match call.outcome.propagated with
  | none => s
  | some bytesCount =>
      let s := propagateFdToUprobe id call.args.fd bytesCount s
      let tgidFd := fdOfThread id call.args.fd
      match s.connInfoMap tgidFd with
      | none => s
      | some connInfo =>
          let (connInfo, cpu) :=
            ({ call with tgidFd := tgidFd, isNestedSsl := false } : DataSyscall).run connInfo s.cpu
          { s with connInfoMap := Function.update s.connInfoMap tgidFd (some connInfo), cpu := cpu }

/-! ## Runs -/

/-- What threads do: they enter the library, make data system calls, and return from it. -/
inductive TlsOp
  | entry (direct : Direction) (id : ℕ) (rbioNum : ℤ) (buf : Memory) (isExCall : Bool) (now : ℕ)
  | ret (maps : Maps) (direct : Direction) (id : ℕ) (ret : Returned) (exBytes : Moved) (now : ℕ)
  | syscall (id : ℕ) (call : DataSyscall)

/-- Bytes that went over a connection, and the call of the library that moved them, if one did. -/
structure Move where
  call : Option ℕ
  tgidFd : ℕ
  direct : Direction
  count : ℕ

/-- The maps, and beside them what moved: how many calls of the library there were, which one a thread is
in, the bytes of the system calls, and those of the library's calls. -/
structure TlsRun where
  tls : TlsState
  calls : ℕ
  current : ℕ → Option ℕ
  moves : List Move
  plain : List Move

/-- The plaintext that a return brings. -/
def TlsState.returning (s : TlsState) (call : Option ℕ) (direct : Direction) (id : ℕ) (ret : Returned)
    (exBytes : Moved) : Option Move :=
  match s.sslUserSpaceCallMap id, s.activeArgs direct id with
  | some nested, some sslArgs =>
      (sslBytesCount sslArgs ret exBytes).map fun bytesCount =>
        ⟨call, fdOfThread id nested.fd, direct, bytesCount.count⟩
  | _, _ => none

namespace TlsRun

def start (tls : TlsState) : TlsRun :=
  { tls := tls, calls := 0, current := fun _ => none, moves := [], plain := [] }

def step (s : TlsRun) : TlsOp → Except Empty TlsRun
  | .entry direct id rbioNum buf isExCall now =>
      .ok { s with
        tls := doSslEntry direct id rbioNum buf isExCall now s.tls
        calls := s.calls + 1
        current := Function.update s.current id (some s.calls) }
  | .ret maps direct id ret exBytes now =>
      .ok { s with
        tls := doSslRet maps direct id ret exBytes now s.tls
        current := Function.update s.current id none
        plain := s.plain ++ (s.tls.returning (s.current id) direct id ret exBytes).toList }
  | .syscall id call =>
      .ok { s with
        tls := exitDataSyscall id call s.tls
        moves := s.moves
          ++ [⟨s.current id, fdOfThread id call.args.fd, call.direct, call.outcome.total⟩] }

/-- The system calls are ones whose bytes are all counted. -/
def Allows (_ : TlsRun) : TlsOp → Prop
  | .syscall _ call => call.Given ∧ call.Counted
  | _ => True

end TlsRun

/-! ## One call -/

/-- The counters of the two are the same. -/
structure SameCounts (c c' : ConnInfo) : Prop where
  bytes : ∀ d, c'.bytes d = c.bytes d
  sslBytes : ∀ d, c'.sslBytes d = c.sslBytes d

theorem SameCounts.refl (c : ConnInfo) : SameCounts c c := ⟨fun _ => rfl, fun _ => rfl⟩

theorem ConnInfo.addBytes_sslBytes (c : ConnInfo) (direct d : Direction) (count : ℕ) :
    (c.addBytes direct count).sslBytes d = c.sslBytes d := by
  cases direct <;> rfl

theorem ConnInfo.addSslBytes_bytes (c : ConnInfo) (direct d : Direction) (count : ℕ) :
    (c.addSslBytes direct count).bytes d = c.bytes d := by
  cases direct <;> rfl

theorem ConnInfo.addSslBytes_sslBytes (c : ConnInfo) (direct d : Direction) (count : ℕ) :
    (c.addSslBytes direct count).sslBytes d
      = if d = direct then u64 (c.sslBytes d + count) else c.sslBytes d := by
  cases direct <;> cases d <;> rfl

theorem inferConn_sslBytes (maps : Maps) (direct : Direction) (buf : Memory) (count totalCount : ℕ)
    (c : ConnInfo) (cpu : Cpu) (d : Direction) :
    (inferConn maps direct buf count totalCount c cpu).2.1.sslBytes d = c.sslBytes d := by
  obtain ⟨pending, hconn⟩ := recognise_conn buf count totalCount
    { c with prependLengthHeader := false } (traceProtocol maps)
  have hinfer : ∀ d, (inferProtocol buf count totalCount c (traceProtocol maps)).2.sslBytes d
      = c.sslBytes d := by
    intro d
    unfold inferProtocol
    dsimp only
    rw [hconn]
    rfl
  unfold inferConn applyInference
  dsimp only
  split
  · exact hinfer d
  · exact hinfer d

theorem inferConn_same (maps : Maps) (direct : Direction) (buf : Memory) (count totalCount : ℕ)
    (c : ConnInfo) (cpu : Cpu) : SameCounts c (inferConn maps direct buf count totalCount c cpu).2.1 :=
  ⟨(inferConn_spec maps direct buf count totalCount c cpu rfl).1.bytes,
    inferConn_sslBytes maps direct buf count totalCount c cpu⟩

/-- The events that the second CPU has more than the first are all of a kind. -/
def Sends (kind : Event → Prop) (cpu cpu' : Cpu) : Prop :=
  ∃ more, cpu'.events = cpu.events ++ more ∧ ∀ e ∈ more, kind e

theorem Sends.refl {kind : Event → Prop} (cpu : Cpu) : Sends kind cpu cpu :=
  ⟨[], (List.append_nil _).symm, fun e he => by cases he⟩

theorem Sends.trans {kind : Event → Prop} {cpu cpu' cpu'' : Cpu} (h : Sends kind cpu cpu')
    (h' : Sends kind cpu' cpu'') : Sends kind cpu cpu'' := by
  obtain ⟨more, hmore, hkind⟩ := h
  obtain ⟨more', hmore', hkind'⟩ := h'
  refine ⟨more ++ more', by rw [hmore', hmore, List.append_assoc], fun e he => ?_⟩
  rcases List.mem_append.mp he with he | he
  · exact hkind e he
  · exact hkind' e he

/-- An event of plaintext, with the range it tells. -/
structure SslEvt where
  tgidFd : ℕ
  step : AgentStepT
  seq : ℕ
  len : ℕ
  syscallSeq : ℕ
  syscallLen : ℕ

def Event.sslEvt : Event → Option SslEvt
  | .ssl ke syscallSeq syscallLen _ => some ⟨ke.tgidFd, ke.step, ke.seq, ke.len, syscallSeq, syscallLen⟩
  | _ => none

/-- **A report of plaintext** is one event, with its own position and that of the range. -/
theorem reportSslBuf_sends (o : Origin) (seq len : ℕ) (buf : Memory) (syscallSeq syscallLen : ℕ)
    (cpu : Cpu) :
    Sends (fun e => ∀ evt ∈ e.sslEvt,
        evt = ⟨o.tgidFd, o.step, seq % 2 ^ 32, len % 2 ^ 32, syscallSeq % 2 ^ 32,
          syscallLen % 2 ^ 32⟩) cpu
      (reportSslBuf o seq len buf syscallSeq syscallLen cpu) := by
  unfold reportSslBuf
  split_ifs
  · exact Sends.refl cpu
  · obtain ⟨ts, tsDelta, cpu', hstamp, hevents⟩ := cpu.stamp_spec o (cpu.sslSlot.fill o seq len)
    rw [hstamp, Sends, ← hevents]
    refine ⟨[_], rfl, fun e he evt hevt => ?_⟩
    rw [List.mem_singleton] at he
    subst he
    cases hevt
    rfl

/-- **The plaintext of a call** leaves the counters alone, and is reported behind what was counted. -/
theorem processSsl_spec (maps : Maps) (args : DataArgs) (tgidFd : ℕ) (direct : Direction)
    (bytesCount : Moved) (syscallLen : ℤ) (c : ConnInfo) (cpu : Cpu) :
    SameCounts c
        (processSyscallDataWithConnInfo maps args tgidFd direct bytesCount syscallLen true true c cpu).1
      ∧ Sends (fun e => ∀ evt ∈ e.sslEvt,
          evt = ⟨tgidFd, sslStep direct, (c.sslBytes direct + 1) % 2 ^ 32, bytesCount.count % 2 ^ 32,
            (if syscallLen < 0 then 0 else subU64 (c.bytes direct + 1) syscallLen.toNat) % 2 ^ 32,
            syscallLen.toNat % 2 ^ 32⟩) cpu
        (processSyscallDataWithConnInfo maps args tgidFd direct bytesCount syscallLen true true c
          cpu).2 := by
  unfold processSyscallDataWithConnInfo
  rcases hcall : (if c.inferring && true then
      inferConn maps direct args.buf bytesCount.count bytesCount.count c cpu
    else (false, c, cpu)) with ⟨inferred, c', cpu'⟩
  -- An inference on the way sends no event of the library and counts nothing.
  have hinfer : SameCounts c c' ∧ Sends (fun e => e.sslEvt = none) cpu cpu' := by
    split at hcall
    · have hsame := inferConn_same maps direct args.buf bytesCount.count bytesCount.count c cpu
      have hquiet : Sends (fun e => e.sslEvt = none) cpu
          (inferConn maps direct args.buf bytesCount.count bytesCount.count c cpu).2.2 := by
        unfold inferConn applyInference
        dsimp only
        split
        · refine ⟨[_], rfl, fun e he => ?_⟩
          rw [List.mem_singleton.mp he]
          rfl
        · exact Sends.refl cpu
      rw [hcall] at hsame hquiet
      exact ⟨hsame, hquiet⟩
    · cases hcall
      exact ⟨SameCounts.refl c, Sends.refl cpu⟩
  obtain ⟨hsame, more, hmore, hquiet⟩ := hinfer
  dsimp only
  rw [hsame.bytes, hsame.sslBytes]
  -- So of these events only the one of the plaintext is left to look at.
  have hstart : ∀ kind : SslEvt → Prop, Sends (fun e => ∀ evt ∈ e.sslEvt, kind evt) cpu cpu' := by
    refine fun kind => ⟨more, hmore, fun e he evt hevt => ?_⟩
    rw [hquiet e he] at hevt
    cases hevt
  split
  · rw [if_pos rfl, if_pos rfl]
    exact ⟨hsame, (hstart _).trans (reportSslBuf_sends _ _ _ _ _ _ _)⟩
  · exact ⟨hsame, hstart _⟩

section OneCall

variable {maps : Maps} {args : DataArgs} {tgidFd : ℕ} {direct : Direction} {bytesCount : Moved}
  {c : ConnInfo} {cpu : Cpu}

theorem processData_sslBytes (withData : Bool) (d : Direction) :
    (processSyscallDataWithConnInfo maps args tgidFd direct bytesCount 0 false withData c
      cpu).1.sslBytes d = c.sslBytes d := by
  unfold processSyscallDataWithConnInfo
  rcases hcall : (if c.inferring && withData then
      inferConn maps direct args.buf bytesCount.count bytesCount.count c cpu
    else (false, c, cpu)) with ⟨inferred, c', cpu'⟩
  have hsame : c'.sslBytes d = c.sslBytes d := by
    split at hcall
    · have hinfer := inferConn_sslBytes maps direct args.buf bytesCount.count bytesCount.count c cpu d
      rw [hcall] at hinfer
      exact hinfer
    · cases hcall
      rfl
  dsimp only
  split
  · split
    · exact hsame
    · split
      · exact hsame
      · exact hsame
  · exact hsame

theorem processVecs_sslBytes (d : Direction) :
    (processVecsWithConnInfo maps args tgidFd direct bytesCount c cpu).1.sslBytes d
      = c.sslBytes d := by
  have hsame : (inferFromVecs maps args direct bytesCount c cpu).1.sslBytes d = c.sslBytes d := by
    unfold inferFromVecs
    split
    · rfl
    · dsimp only
      split
      · exact inferConn_sslBytes _ _ _ _ _ _ _ _
      · rfl
  unfold processVecsWithConnInfo
  dsimp only
  split
  · split
    · exact hsame
    · exact hsame
  · rfl

theorem ConnInfo.setSsl_sslBytes (isSsl : Bool) (d : Direction) :
    (if isSsl then { c with ssl := true } else c).sslBytes d = c.sslBytes d := by
  cases isSsl <;> rfl

end OneCall

/-- A data system call leaves the counters of plaintext alone. -/
theorem DataSyscall.run_sslBytes (call : DataSyscall) (c : ConnInfo) (cpu : Cpu) (d : Direction) :
    (call.run c cpu).1.sslBytes d = c.sslBytes d := by
  unfold DataSyscall.run
  split
  · rfl
  · split
    · unfold processSyscallData
      split
      · rfl
      · dsimp only
        rw [ConnInfo.addBytes_sslBytes, processData_sslBytes, ConnInfo.setSsl_sslBytes]
    · unfold processSyscallDataVecs
      split
      · rfl
      · dsimp only
        rw [ConnInfo.addBytes_sslBytes, processVecs_sslBytes, ConnInfo.setSsl_sslBytes]

/-- A call whose bytes are all counted hands on as much as it moved. -/
theorem DataSyscall.propagated_total {call : DataSyscall} (hcounted : call.Counted) :
    (call.outcome.propagated.getD 0).toNat = call.outcome.total := by
  unfold DataSyscall.Counted at hcounted
  rcases houtcome : call.outcome with ret | ret | msgLens
  · rfl
  · rfl
  · rw [houtcome] at hcounted
    rcases msgLens with _ | ⟨first, rest⟩
    · rfl
    · have hrest : (rest.map Subtype.val).sum = 0 := by
        rw [List.sum_eq_zero_iff, List.forall_mem_map]
        exact hcounted
      change (first.1 : ℤ).toNat = first.1 + (rest.map Subtype.val).sum
      omega

theorem updateFdAndSyscallLen_syscallLen (fd len : ℤ) (nested : NestedSyscallFd)
    (hlt : nested.syscallLen < 2 ^ 32) :
    (updateFdAndSyscallLen fd len nested).syscallLen = (nested.syscallLen + len.toNat) % 2 ^ 32 := by
  unfold updateFdAndSyscallLen
  dsimp only
  by_cases hpos : len > 0
  · simp only [if_pos hpos]
    split_ifs
    · rfl
    · rfl
    · rfl
  · simp only [if_neg hpos]
    rw [Int.toNat_of_nonpos (not_lt.mp hpos), Nat.add_zero, Nat.mod_eq_of_lt hlt]
    split_ifs
    · rfl
    · rfl
    · rfl

/-! ## What moved -/

/-- It was moved by this call of the library. -/
def Move.isOf (n : ℕ) (m : Move) : Bool := m.call == some n

/-- What went over a connection, one way. -/
def lane (tgidFd : ℕ) (direct : Direction) (moves : List Move) : List Move :=
  moves.filter fun m => m.tgidFd = tgidFd ∧ m.direct = direct

/-- How much moves are together. -/
abbrev bytesOf (moves : List Move) : ℕ := Ledger.total Move.count moves

theorem lane_append (tgidFd : ℕ) (direct : Direction) (moves more : List Move) :
    lane tgidFd direct (moves ++ more) = lane tgidFd direct moves ++ lane tgidFd direct more :=
  List.filter_append _ _

theorem bytesOf_lane_append (tgidFd : ℕ) (direct : Direction) (moves more : List Move) :
    bytesOf (lane tgidFd direct (moves ++ more))
      = bytesOf (lane tgidFd direct moves) + bytesOf (lane tgidFd direct more) := by
  rw [lane_append]
  exact Ledger.total_append _ _ _

theorem bytesOf_lane_singleton (tgidFd : ℕ) (direct : Direction) (m : Move) :
    bytesOf (lane tgidFd direct [m])
      = if m.tgidFd = tgidFd ∧ m.direct = direct then m.count else 0 := by
  unfold lane
  split_ifs with h
  · rw [List.filter_cons_of_pos (by simpa using h)]
    exact Ledger.total_singleton m
  · rw [List.filter_cons_of_neg (by simpa using h)]
    rfl

namespace TlsState

variable (s : TlsState) (direct : Direction) (id : ℕ) (args : SslArgs)

@[simp] theorem putActiveArgs_calls :
    (s.putActiveArgs direct id args).sslUserSpaceCallMap = s.sslUserSpaceCallMap := by
  unfold putActiveArgs
  split_ifs
  · rfl
  · rfl

@[simp] theorem putActiveArgs_conns :
    (s.putActiveArgs direct id args).connInfoMap = s.connInfoMap := by
  unfold putActiveArgs
  split_ifs
  · rfl
  · rfl

@[simp] theorem putActiveArgs_cpu : (s.putActiveArgs direct id args).cpu = s.cpu := by
  unfold putActiveArgs
  split_ifs
  · rfl
  · rfl

end TlsState

/-! ## One probe -/

section Ret

variable {maps : Maps} {direct : Direction} {id : ℕ} {ret : Returned} {exBytes : Moved} {now : ℕ}
  {s : TlsState}

theorem processSslData_calls (args : DataArgs) (bytesCount : Moved) (syscallLen : ℕ) :
    (processSslData maps id direct args bytesCount syscallLen s).sslUserSpaceCallMap
      = s.sslUserSpaceCallMap := by
  unfold processSslData
  dsimp only
  split
  · rfl
  · rfl

/-- A return takes the record of its own thread away. -/
theorem doSslRet_calls {id' : ℕ} (hne : id' ≠ id) :
    (doSslRet maps direct id ret exBytes now s).sslUserSpaceCallMap id' = s.sslUserSpaceCallMap id' := by
  unfold doSslRet
  split
  · rfl
  · dsimp only
    split
    · exact Function.update_of_ne hne _ _
    · split
      · rw [TlsState.putActiveArgs_calls]
        exact Function.update_of_ne hne _ _
      · rw [processSslData_calls, TlsState.putActiveArgs_calls]
        exact Function.update_of_ne hne _ _

/-- The event of a connection's plaintext, from where its counters stand. -/
def sslEvtOf (tgidFd : ℕ) (direct : Direction) (count syscallLen : ℕ) (c : ConnInfo) : SslEvt :=
  { tgidFd := tgidFd, step := sslStep direct, seq := (c.sslBytes direct + 1) % 2 ^ 32
    len := count % 2 ^ 32
    syscallSeq := (if intOf 32 syscallLen < 0 then 0
      else subU64 (c.bytes direct + 1) (intOf 32 syscallLen).toNat) % 2 ^ 32
    syscallLen := (intOf 32 syscallLen).toNat % 2 ^ 32 }

/-- **What the count of a return does** to a connection and what it tells of it. -/
theorem processSslData_spec {tgidFd : ℕ} {c : ConnInfo} (hc : s.connInfoMap tgidFd = some c)
    (hword : ∀ d, u64 (c.sslBytes d) = c.sslBytes d) (call : Option ℕ) (args : DataArgs)
    (bytesCount : Moved) (syscallLen : ℕ) :
    (∃ c', (processSslData maps id direct args bytesCount syscallLen s).connInfoMap tgidFd = some c'
        ∧ (∀ d, c'.bytes d = c.bytes d)
        ∧ ∀ d, c'.sslBytes d = u64 (c.sslBytes d + bytesOf
          (lane tgidFd d [⟨call, fdOfThread id args.fd, direct, bytesCount.count⟩])))
      ∧ Sends (fun e => ∀ evt ∈ e.sslEvt, evt.tgidFd = tgidFd → fdOfThread id args.fd = tgidFd
          ∧ evt = sslEvtOf tgidFd direct bytesCount.count syscallLen c) s.cpu
        (processSslData maps id direct args bytesCount syscallLen s).cpu := by
  simp only [bytesOf_lane_singleton]
  unfold processSslData
  -- The descriptor of the call is that of the connection, or of another one.
  by_cases hkey : fdOfThread id args.fd = tgidFd
  · subst hkey
    dsimp only
    rw [hc]
    dsimp only
    obtain ⟨hsame, more, hmore, hkind⟩ := processSsl_spec maps args (fdOfThread id args.fd) direct
      bytesCount (intOf 32 syscallLen) { c with ssl := true } s.cpu
    refine ⟨⟨_, Function.update_self _ _ _, fun d => ?_, fun d => ?_⟩, more, hmore, ?_⟩
    · rw [ConnInfo.addSslBytes_bytes, hsame.bytes]
      rfl
    · rw [ConnInfo.addSslBytes_sslBytes, hsame.sslBytes]
      by_cases hd : d = direct
      · subst hd
        rw [if_pos rfl, if_pos ⟨rfl, rfl⟩]
        rfl
      · rw [if_neg hd, if_neg fun h => hd h.2.symm, Nat.add_zero, hword]
        rfl
    · exact fun e he evt hevt _ => ⟨rfl, hkind e he evt hevt⟩
  · have hzero : ∀ d, c.sslBytes d = u64 (c.sslBytes d
        + if fdOfThread id args.fd = tgidFd ∧ direct = d then bytesCount.count else 0) := by
      intro d
      rw [if_neg fun h => hkey h.1, Nat.add_zero, hword]
    dsimp only
    split
    · exact ⟨⟨c, hc, fun _ => rfl, hzero⟩, Sends.refl _⟩
    · rename_i other hother
      dsimp only
      obtain ⟨-, more, hmore, hkind⟩ := processSsl_spec maps args (fdOfThread id args.fd) direct
        bytesCount (intOf 32 syscallLen) { other with ssl := true } s.cpu
      refine ⟨⟨c, ?_, fun _ => rfl, hzero⟩, more, hmore, fun e he evt hevt hmine => ?_⟩
      · rw [Function.update_of_ne (Ne.symm hkey)]
        exact hc
      · -- The event is one of the other connection.
        rw [hkind e he evt hevt] at hmine
        exact absurd hmine hkey

/-- **What a return does** to a connection and what it tells of it. -/
theorem doSslRet_spec {tgidFd : ℕ} {c : ConnInfo} (hc : s.connInfoMap tgidFd = some c)
    (hword : ∀ d, u64 (c.sslBytes d) = c.sslBytes d) (call : Option ℕ) :
    (∃ c', (doSslRet maps direct id ret exBytes now s).connInfoMap tgidFd = some c'
        ∧ (∀ d, c'.bytes d = c.bytes d)
        ∧ ∀ d, c'.sslBytes d = u64 (c.sslBytes d + bytesOf
          (lane tgidFd d (s.returning call direct id ret exBytes).toList)))
      ∧ Sends (fun e => ∀ evt ∈ e.sslEvt, evt.tgidFd = tgidFd →
          ∃ nested move, s.sslUserSpaceCallMap id = some nested
            ∧ s.returning call direct id ret exBytes = some move
            ∧ move.tgidFd = tgidFd ∧ move.direct = direct ∧ move.count < 2 ^ 31
            ∧ evt = sslEvtOf tgidFd direct move.count nested.syscallLen c) s.cpu
        (doSslRet maps direct id ret exBytes now s).cpu := by
  have hnone : ∀ d, c.sslBytes d = u64 (c.sslBytes d + bytesOf (lane tgidFd d [])) := by
    intro d
    exact (hword d).symm
  unfold doSslRet TlsState.returning
  -- A return without a record, without arguments or without a count does nothing.
  rcases hnested : s.sslUserSpaceCallMap id with _ | nested
  · exact ⟨⟨c, hc, fun _ => rfl, hnone⟩, Sends.refl _⟩
  · have hactive : TlsState.activeArgs
        { s with sslUserSpaceCallMap := Function.update s.sslUserSpaceCallMap id none } direct id
          = s.activeArgs direct id := rfl
    dsimp only
    rw [hactive]
    rcases s.activeArgs direct id with _ | sslArgs
    · exact ⟨⟨c, hc, fun _ => rfl, hnone⟩, Sends.refl _⟩
    · dsimp only
      rcases sslBytesCount sslArgs ret exBytes with _ | bytesCount
      · dsimp only
        rw [TlsState.putActiveArgs_conns, TlsState.putActiveArgs_cpu]
        exact ⟨⟨c, hc, fun _ => rfl, hnone⟩, Sends.refl _⟩
      · dsimp only
        generalize hput : TlsState.putActiveArgs _ direct id _ = s'
        have hconn : s'.connInfoMap tgidFd = some c := by
          rw [← hput, TlsState.putActiveArgs_conns]
          exact hc
        have hcpu : s'.cpu = s.cpu := by
          rw [← hput, TlsState.putActiveArgs_cpu]
        obtain ⟨hcounts, more, hmore, hkind⟩ := @processSslData_spec maps direct id s' tgidFd c
          hconn hword call { sslArgs.args with endTs := now, fd := nested.fd } bytesCount
          nested.syscallLen
        rw [hcpu] at hmore
        refine ⟨hcounts, more, hmore, fun e he evt hevt hmine => ?_⟩
        obtain ⟨hkey, hevt⟩ := hkind e he evt hevt hmine
        exact ⟨nested, _, rfl, rfl, hkey, rfl, bytesCount.lt, hevt⟩

end Ret

section Exit

variable {id : ℕ} {call : DataSyscall} {s : TlsState}

theorem exitDataSyscall_calls :
    (exitDataSyscall id call s).sslUserSpaceCallMap
      = match call.outcome.propagated with
        | none => s.sslUserSpaceCallMap
        | some bytesCount =>
            (propagateFdToUprobe id call.args.fd bytesCount s).sslUserSpaceCallMap := by
  unfold exitDataSyscall
  split
  · rfl
  · dsimp only
    split
    · rfl
    · rfl

/-- A system call adds to the record of its own thread only. -/
theorem exitDataSyscall_others {id' : ℕ} (hne : id' ≠ id) :
    (exitDataSyscall id call s).sslUserSpaceCallMap id' = s.sslUserSpaceCallMap id' := by
  rw [exitDataSyscall_calls]
  rcases call.outcome.propagated with _ | bytesCount
  · rfl
  · exact Function.update_of_ne hne _ _

/-- What it adds there is what it moved. -/
theorem exitDataSyscall_own (hcounted : call.Counted) {nested : NestedSyscallFd}
    (hnested : s.sslUserSpaceCallMap id = some nested) (hlt : nested.syscallLen < 2 ^ 32) :
    ∃ nested', (exitDataSyscall id call s).sslUserSpaceCallMap id = some nested'
      ∧ nested'.syscallLen = (nested.syscallLen + call.outcome.total) % 2 ^ 32 := by
  have htotal := call.propagated_total hcounted
  rw [exitDataSyscall_calls, ← htotal]
  rcases call.outcome.propagated with _ | bytesCount
  · exact ⟨nested, hnested, (Nat.mod_eq_of_lt hlt).symm⟩
  · refine ⟨updateFdAndSyscallLen call.args.fd bytesCount nested, ?_, ?_⟩
    · unfold propagateFdToUprobe
      rw [hnested]
      exact Function.update_self _ _ _
    · exact updateFdAndSyscallLen_syscallLen _ _ _ hlt

/-- **What a system call does** to the counters of a connection. -/
theorem exitDataSyscall_conn {tgidFd : ℕ} {c : ConnInfo} (hc : s.connInfoMap tgidFd = some c)
    (hgiven : call.Given) (hcounted : call.Counted) (hword : ∀ d, u64 (c.bytes d) = c.bytes d)
    (current : Option ℕ) :
    ∃ c', (exitDataSyscall id call s).connInfoMap tgidFd = some c'
      ∧ (∀ d, c'.sslBytes d = c.sslBytes d)
      ∧ ∀ d, c'.bytes d = u64 (c.bytes d + bytesOf (lane tgidFd d
        [⟨current, fdOfThread id call.args.fd, call.direct, call.outcome.total⟩])) := by
  simp only [bytesOf_lane_singleton]
  have hadded : call.added = call.outcome.total := by
    have hsum := call.added_add_missed
    have hmissed := (call.missed_eq_zero_iff).mpr hcounted
    omega
  have htotal := call.propagated_total hcounted
  unfold exitDataSyscall
  rcases hpropagated : call.outcome.propagated with _ | bytesCount
  · -- Nothing was handed on, so nothing was moved.
    have hzero : call.outcome.total = 0 := by
      rw [← htotal, hpropagated]
      rfl
    refine ⟨c, hc, fun _ => rfl, fun d => ?_⟩
    rw [hzero, ite_self, Nat.add_zero, hword]
  · dsimp only
    change ∃ c', TlsState.connInfoMap (match s.connInfoMap (fdOfThread id call.args.fd) with
      | none => _
      | some connInfo => _) tgidFd = some c' ∧ _
    -- On another descriptor the record stays as it is.
    by_cases hkey : fdOfThread id call.args.fd = tgidFd
    · subst hkey
      rw [hc]
      refine ⟨_, Function.update_self _ _ _, fun d => DataSyscall.run_sslBytes _ _ _ _, fun d => ?_⟩
      have hgiven' : ({ call with
          tgidFd := fdOfThread id call.args.fd, isNestedSsl := false } : DataSyscall).Given :=
        ⟨hgiven.fd, hgiven.sourceFn, hgiven.iov, hgiven.numMsgs⟩
      rw [DataSyscall.run_bytes hgiven' hword]
      change (if d = call.direct then u64 (c.bytes d + call.added) else c.bytes d) = _
      by_cases hd : d = call.direct
      · subst hd
        rw [if_pos rfl, if_pos ⟨rfl, rfl⟩, hadded]
      · rw [if_neg hd, if_neg fun h => hd h.2.symm, Nat.add_zero, hword]
    · refine ⟨c, ?_, fun _ => rfl, fun d => ?_⟩
      · split
        · exact hc
        · exact (Function.update_of_ne (Ne.symm hkey) _ _).trans hc
      · rw [if_neg fun h => hkey h.1, Nat.add_zero, hword]

end Exit

/-! ## All probes -/

namespace TlsRun

/-- How much a call of the library has moved. -/
abbrev movedBy (s : TlsRun) (n : ℕ) : ℕ := bytesOf (s.moves.filter (Move.isOf n))

/-- The counters of the connection are what moved over it, and a call's record has what it moved. -/
structure Kept (tgidFd : ℕ) (s : TlsRun) : Prop where
  conn : ∃ c, s.tls.connInfoMap tgidFd = some c
    ∧ (∀ d, c.bytes d = u64 (bytesOf (lane tgidFd d s.moves)))
    ∧ ∀ d, c.sslBytes d = u64 (bytesOf (lane tgidFd d s.plain))
  moveOld : ∀ m ∈ s.moves, ∀ n, m.call = some n → n < s.calls
  currentOld : ∀ id n, s.current id = some n → n < s.calls
  currentInj : ∀ id id' n, s.current id = some n → s.current id' = some n → id = id'
  syscallLen : ∀ id n, s.current id = some n → ∃ nested, s.tls.sslUserSpaceCallMap id = some nested
    ∧ nested.syscallLen = s.movedBy n % 2 ^ 32

variable {tgidFd : ℕ} {s : TlsRun}

theorem Kept.start {tls : TlsState} {c : ConnInfo} (hc : tls.connInfoMap tgidFd = some c)
    (hfresh : ∀ d, c.bytes d = 0 ∧ c.sslBytes d = 0) : Kept tgidFd (.start tls) where
  conn := ⟨c, hc, fun d => (hfresh d).1, fun d => (hfresh d).2⟩
  moveOld := fun m hm => by cases hm
  currentOld := fun id n h => by cases h
  currentInj := fun id id' n h => by cases h
  syscallLen := fun id n h => by cases h

theorem Kept.step_entry (hs : Kept tgidFd s) (direct : Direction) (id : ℕ) (rbioNum : ℤ) (buf : Memory)
    (isExCall : Bool) (now : ℕ) {s' : TlsRun}
    (hstep : s.step (.entry direct id rbioNum buf isExCall now) = .ok s') : Kept tgidFd s' := by
  cases hstep
  have hothers : ∀ id' n, id' ≠ id →
      Function.update s.current id (some s.calls) id' = some n → s.current id' = some n := by
    intro id' n hne h
    rwa [Function.update_of_ne hne] at h
  have hself : ∀ n, Function.update s.current id (some s.calls) id = some n → n = s.calls := by
    intro n h
    rw [Function.update_self] at h
    exact (Option.some.inj h).symm
  refine ⟨?_, fun m hm n h => Nat.lt_succ_of_lt (hs.moveOld m hm n h), fun id' n h => ?_,
    fun id₁ id₂ n h₁ h₂ => ?_, fun id' n h => ?_⟩
  · obtain ⟨c, hc, hbytes, hssl⟩ := hs.conn
    refine ⟨c, ?_, hbytes, hssl⟩
    change (doSslEntry direct id rbioNum buf isExCall now s.tls).connInfoMap tgidFd = some c
    unfold doSslEntry
    rw [TlsState.putActiveArgs_conns]
    exact hc
  · by_cases hne : id' = id
    · subst hne
      rw [hself n h]
      exact Nat.lt_succ_self _
    · exact Nat.lt_succ_of_lt (hs.currentOld id' n (hothers id' n hne h))
  · by_cases hne₁ : id₁ = id
    · by_cases hne₂ : id₂ = id
      · rw [hne₁, hne₂]
      · subst hne₁
        have := hs.currentOld id₂ n (hothers id₂ n hne₂ h₂)
        rw [hself n h₁] at this
        exact absurd this (lt_irrefl _)
    · by_cases hne₂ : id₂ = id
      · subst hne₂
        have := hs.currentOld id₁ n (hothers id₁ n hne₁ h₁)
        rw [hself n h₂] at this
        exact absurd this (lt_irrefl _)
      · exact hs.currentInj id₁ id₂ n (hothers id₁ n hne₁ h₁) (hothers id₂ n hne₂ h₂)
  · change ∃ nested, (doSslEntry direct id rbioNum buf isExCall now s.tls).sslUserSpaceCallMap id'
      = some nested ∧ nested.syscallLen = s.movedBy n % 2 ^ 32
    unfold doSslEntry
    rw [TlsState.putActiveArgs_calls]
    by_cases hne : id' = id
    · subst hne
      rw [hself n h]
      refine ⟨_, Function.update_self _ _ _, ?_⟩
      -- Nothing has been moved by a call that was not there.
      have hnone : s.moves.filter (Move.isOf s.calls) = [] := by
        refine List.filter_eq_nil_iff.mpr fun m hm hof => ?_
        have := hs.moveOld m hm s.calls (by simpa [Move.isOf] using hof)
        exact lt_irrefl _ this
      unfold movedBy
      rw [hnone]
      rfl
    · obtain ⟨nested, hnested, hlen⟩ := hs.syscallLen id' n (hothers id' n hne h)
      exact ⟨nested, (Function.update_of_ne hne _ _).trans hnested, hlen⟩

theorem Kept.step_ret (hs : Kept tgidFd s) (maps : Maps) (direct : Direction) (id : ℕ) (ret : Returned)
    (exBytes : Moved) (now : ℕ) {s' : TlsRun}
    (hstep : s.step (.ret maps direct id ret exBytes now) = .ok s') : Kept tgidFd s' := by
  cases hstep
  -- The other threads are in the calls they were in.
  have hothers : ∀ id' n, Function.update s.current id none id' = some n →
      id' ≠ id ∧ s.current id' = some n := by
    intro id' n h
    by_cases hne : id' = id
    · subst hne
      rw [Function.update_self] at h
      cases h
    · rw [Function.update_of_ne hne] at h
      exact ⟨hne, h⟩
  refine ⟨?_, hs.moveOld, fun id' n h => hs.currentOld id' n (hothers id' n h).2,
    fun id₁ id₂ n h₁ h₂ => hs.currentInj id₁ id₂ n (hothers id₁ n h₁).2 (hothers id₂ n h₂).2,
    fun id' n h => ?_⟩
  · obtain ⟨c, hc, hbytes, hssl⟩ := hs.conn
    have hword : ∀ d, u64 (c.sslBytes d) = c.sslBytes d := by
      intro d
      rw [hssl d]
      exact Nat.mod_mod _ _
    obtain ⟨⟨c', hc', hbytes', hssl'⟩, -⟩ := @doSslRet_spec maps direct id ret exBytes now s.tls
      tgidFd c hc hword (s.current id)
    refine ⟨c', hc', fun d => (hbytes' d).trans (hbytes d), fun d => ?_⟩
    dsimp only
    rw [hssl' d, hssl d, bytesOf_lane_append]
    unfold u64
    exact Nat.mod_add_mod _ _ _
  · obtain ⟨hne, hcurrent⟩ := hothers id' n h
    obtain ⟨nested, hnested, hlen⟩ := hs.syscallLen id' n hcurrent
    exact ⟨nested, (doSslRet_calls hne).trans hnested, hlen⟩

theorem Kept.step_syscall (hs : Kept tgidFd s) (id : ℕ) (call : DataSyscall) (hgiven : call.Given)
    (hcounted : call.Counted) {s' : TlsRun} (hstep : s.step (.syscall id call) = .ok s') :
    Kept tgidFd s' := by
  cases hstep
  refine ⟨?_, fun m hm n h => ?_, hs.currentOld, hs.currentInj, fun id' n h => ?_⟩
  · obtain ⟨c, hc, hbytes, hssl⟩ := hs.conn
    have hword : ∀ d, u64 (c.bytes d) = c.bytes d := by
      intro d
      rw [hbytes d]
      exact Nat.mod_mod _ _
    obtain ⟨c', hc', hssl', hbytes'⟩ := @exitDataSyscall_conn id call s.tls tgidFd c hc hgiven
      hcounted hword (s.current id)
    refine ⟨c', hc', fun d => ?_, fun d => (hssl' d).trans (hssl d)⟩
    dsimp only
    rw [hbytes' d, hbytes d, bytesOf_lane_append]
    unfold u64
    exact Nat.mod_add_mod _ _ _
  · rcases List.mem_append.mp hm with hm | hm
    · exact hs.moveOld m hm n h
    · rw [List.mem_singleton.mp hm] at h
      exact hs.currentOld id n h
  · obtain ⟨nested, hnested, hlen⟩ := hs.syscallLen id' n h
    have hmoved : bytesOf ((s.moves ++ [(⟨s.current id, fdOfThread id call.args.fd, call.direct,
          call.outcome.total⟩ : Move)]).filter (Move.isOf n))
        = s.movedBy n + if id' = id then call.outcome.total else 0 := by
      -- A call is of one thread, so the bytes are its own just if the thread is.
      have hof : s.current id = some n ↔ id' = id :=
        ⟨fun hid => hs.currentInj id' id n h hid, fun hid => hid ▸ h⟩
      rw [List.filter_append, bytesOf, Ledger.total_append]
      by_cases hid : id' = id
      · rw [if_pos hid, List.filter_cons_of_pos (by simpa [Move.isOf] using hof.mpr hid)]
        exact congrArg _ (Ledger.total_singleton _)
      · rw [if_neg hid,
          List.filter_cons_of_neg (by simpa [Move.isOf] using fun hcur => hid (hof.mp hcur))]
        rfl
    change ∃ nested, (exitDataSyscall id call s.tls).sslUserSpaceCallMap id' = some nested
      ∧ nested.syscallLen = bytesOf _ % 2 ^ 32
    rw [hmoved]
    by_cases hid : id' = id
    · subst hid
      have hlt : nested.syscallLen < 2 ^ 32 := by omega
      obtain ⟨nested', hnested', hlen'⟩ := exitDataSyscall_own hcounted hnested hlt
      refine ⟨nested', hnested', ?_⟩
      rw [hlen', hlen, if_pos rfl]
      exact Nat.mod_add_mod _ _ _
    · rw [if_neg hid]
      exact ⟨nested, (exitDataSyscall_others hid).trans hnested, hlen⟩

/-- In every run the counters and the records are kept. -/
theorem Kept.of_run {tls : TlsState} {c : ConnInfo} (hc : tls.connInfoMap tgidFd = some c)
    (hfresh : ∀ d, c.bytes d = 0 ∧ c.sslBytes d = 0) {ops : List TlsOp}
    (hrun : Run step Allows (.start tls) ops s) : Kept tgidFd s := by
  refine hrun.invariant (Kept.start hc hfresh) ?_
  rintro s (⟨direct, id, rbioNum, buf, isExCall, now⟩ | ⟨maps, direct, id, ret, exBytes, now⟩
    | ⟨id, call⟩) s' hs hallows hstep
  · exact hs.step_entry direct id rbioNum buf isExCall now hstep
  · exact hs.step_ret maps direct id ret exBytes now hstep
  · exact hs.step_syscall id call hallows.1 hallows.2 hstep

end TlsRun

/-! ## The range of a call -/

/-- What a call moved is what it moved over one connection one way, if none of it went elsewhere. -/
theorem bytesOf_lane_eq_iff (tgidFd : ℕ) (direct : Direction) (n : ℕ) (moves : List Move) :
    bytesOf ((lane tgidFd direct moves).filter (Move.isOf n)) = bytesOf (moves.filter (Move.isOf n))
      ↔ ∀ m ∈ moves, m.isOf n = true → 0 < m.count → m.tgidFd = tgidFd ∧ m.direct = direct := by
  have hcomm : (lane tgidFd direct moves).filter (Move.isOf n)
      = lane tgidFd direct (moves.filter (Move.isOf n)) := by
    unfold lane
    rw [List.filter_filter, List.filter_filter]
    exact List.filter_congr fun m _ => Bool.and_comm _ _
  rw [hcomm]
  refine (Ledger.total_filter_eq_iff _ _ _).trans ?_
  simp only [List.mem_filter, decide_eq_true_eq, and_imp]

/-- **The range behind the counter**, of a length below 2 GiB: it has the positions of the entries of a
kind just if these are as large as it, and the last. -/
theorem range_iff {moves : List Move} {kind : Move → Bool} {len : ℕ} (hlen : len < 2 ^ 31)
    (htotal : bytesOf moves + 1 < 2 ^ 32) {syscallSeq : ℕ}
    (hseq : syscallSeq = subU64 (u64 (bytesOf moves) + 1) len % 2 ^ 32) :
    (∀ p, syscallSeq ≤ p ∧ p < syscallSeq + len ↔ Ledger.Holds Move.count kind moves p)
      ↔ bytesOf (moves.filter kind) = len ∧ Ledger.Closing Move.count kind moves := by
  have hle := Ledger.total_filter_le Move.count kind moves
  change bytesOf (moves.filter kind) ≤ bytesOf moves at hle
  unfold subU64 u64 at hseq
  by_cases hin : len ≤ bytesOf moves
  · have hstart : syscallSeq = bytesOf moves + 1 - len := by omega
    have hrange : ∀ p, (syscallSeq ≤ p ∧ p < syscallSeq + len)
        ↔ Ledger.total Move.count moves < p + len ∧ p ≤ Ledger.total Move.count moves := by
      intro p
      change _ ↔ bytesOf moves < p + len ∧ p ≤ bytesOf moves
      omega
    rw [← Ledger.last_iff hin]
    refine forall_congr' fun p => ?_
    rw [hrange p]
    exact Iff.comm
  · -- More than ever went over the connection: the range starts where nothing is.
    refine iff_of_false (fun hall => ?_) fun h => by omega
    obtain ⟨before, m, after, heq, -, hlt, hm⟩ := (hall syscallSeq).mp ⟨le_refl _, by omega⟩
    have hpos := (Ledger.Holds.le_total ((hall syscallSeq).mp ⟨le_refl _, by omega⟩))
    change syscallSeq ≤ bytesOf moves at hpos
    omega

/-- **The range of a call of the TLS library.** The event of a return has the position of its plaintext,
and the range it tells is just where the call's bytes are in the stream if and only if the call moved
nothing over another connection or the other way, and nobody else moved bytes of this lane behind its
first. -/
theorem range_exact_iff {tgidFd : ℕ} {tls : TlsState} {c : ConnInfo}
    (hc : tls.connInfoMap tgidFd = some c) (hfresh : ∀ d, c.bytes d = 0 ∧ c.sslBytes d = 0)
    {ops : List TlsOp} {s s' : TlsRun}
    (hrun : Run TlsRun.step TlsRun.Allows (.start tls) ops s) {maps : Maps} {direct : Direction}
    {id : ℕ} {ret : Returned} {exBytes : Moved} {now : ℕ}
    (hstep : s.step (.ret maps direct id ret exBytes now) = .ok s') {n : ℕ}
    (hcurrent : s.current id = some n) {more : List Event}
    (hmore : s'.tls.cpu.events = s.tls.cpu.events ++ more) {e : Event} (he : e ∈ more) {evt : SslEvt}
    (hevt : evt ∈ e.sslEvt) (hmine : evt.tgidFd = tgidFd)
    (hlane : bytesOf (lane tgidFd direct s.moves) + 1 < 2 ^ 32) (hmoved : s.movedBy n < 2 ^ 31) :
    (∃ move, s'.plain = s.plain ++ [move] ∧ move.tgidFd = tgidFd ∧ move.direct = direct
        ∧ evt.step = sslStep direct ∧ evt.len = move.count
        ∧ evt.seq = (bytesOf (lane tgidFd direct s.plain) + 1) % 2 ^ 32)
      ∧ ((∀ p, evt.syscallSeq ≤ p ∧ p < evt.syscallSeq + evt.syscallLen
            ↔ Ledger.Holds Move.count (Move.isOf n) (lane tgidFd direct s.moves) p)
        ↔ (∀ m ∈ s.moves, m.isOf n = true → 0 < m.count → m.tgidFd = tgidFd ∧ m.direct = direct)
          ∧ Ledger.Closing Move.count (Move.isOf n) (lane tgidFd direct s.moves)) := by
  have hkept := TlsRun.Kept.of_run hc hfresh hrun
  obtain ⟨c', hc', hbytes, hssl⟩ := hkept.conn
  have hword : ∀ d, u64 (c'.sslBytes d) = c'.sslBytes d := by
    intro d
    rw [hssl d]
    exact Nat.mod_mod _ _
  obtain ⟨-, more', hmore', hkind⟩ := @doSslRet_spec maps direct id ret exBytes now s.tls tgidFd c'
    hc' hword (s.current id)
  have hsame : more' = more := by
    cases hstep
    exact List.append_cancel_left (hmore'.symm.trans hmore)
  subst hsame
  -- The event is that of the record, whose length is what the call moved.
  obtain ⟨nested, move, hnested, hmove, hkey, hdirect, hcount, rfl⟩ := hkind e he evt hevt hmine
  obtain ⟨nested', hnested', hlen⟩ := hkept.syscallLen id n hcurrent
  rw [hnested] at hnested'
  cases hnested'
  have hlen : nested.syscallLen = s.movedBy n := by
    rw [hlen]
    omega
  -- Below 2 GiB neither conversion changes the length.
  have hint : intOf 32 nested.syscallLen = s.movedBy n := by
    rw [hlen]
    exact intOf_of_lt (by omega) (by omega)
  have hevtLen : (sslEvtOf tgidFd direct move.count nested.syscallLen c').syscallLen = s.movedBy n := by
    unfold sslEvtOf
    dsimp only
    rw [hint, Int.toNat_natCast]
    exact Nat.mod_eq_of_lt (by omega)
  have hevtSeq : (sslEvtOf tgidFd direct move.count nested.syscallLen c').syscallSeq
      = subU64 (u64 (bytesOf (lane tgidFd direct s.moves)) + 1) (s.movedBy n) % 2 ^ 32 := by
    unfold sslEvtOf
    dsimp only
    rw [hint, if_neg (by omega), Int.toNat_natCast, hbytes direct]
  constructor
  · refine ⟨move, ?_, hkey, hdirect, rfl, ?_, ?_⟩
    · cases hstep
      dsimp only
      rw [hmove]
      rfl
    · exact Nat.mod_eq_of_lt (by omega)
    · change (c'.sslBytes direct + 1) % 2 ^ 32 = _
      rw [hssl direct]
      unfold u64
      omega
  -- That nothing went elsewhere is that the lane has all of it.
  · rw [← bytesOf_lane_eq_iff, hevtLen]
    exact range_iff hmoved hlane hevtSeq

/-! ## A write -/

/-- Thread 1 of process 7. -/
def writer : ℕ := 7 * 2 ^ 32 + 1

def httpConn : ConnInfo :=
  { unknownConn with readBytes := 0, protocol := .http, noTrace := .traceable }

/-- The process has one connection, on descriptor 3. -/
def oneConn : TlsState :=
  { sslUserSpaceCallMap := fun _ => none, activeSslReadArgsMap := fun _ => none
    activeSslWriteArgsMap := fun _ => none
    connInfoMap := Function.update (fun _ => none) (fdOfThread writer 3) (some httpConn)
    cpu := freshCpu }

/-- A `write` of nine bytes. -/
def sealedWrite : DataSyscall :=
  { outcome := .plain ⟨9, by decide⟩, direct := .egress, maps := noMaps, task := someTask
    args := { getArgs with sourceFn := .syscallWrite }, tgidFd := 0, isNestedSsl := false }

/-- Five bytes are handed to the library, and nine leave. -/
def sealing : List TlsOp :=
  [.entry .egress writer 3 (memoryOf (text "hello")) false 4, .syscall writer sealedWrite]

def sealedReturn : TlsOp := .ret noMaps .egress writer ⟨5, by decide⟩ getMoved 9

namespace TlsRun

def after (s : TlsRun) (op : TlsOp) : TlsRun :=
  match s.step op with
  | .ok s' => s'
  | .error e => e.elim

theorem step_after (s : TlsRun) (op : TlsOp) : s.step op = .ok (s.after op) := by
  cases op <;> rfl

end TlsRun

def sealedRun : TlsRun := sealing.foldl TlsRun.after (.start oneConn)

/-- What is reported of it. -/
def sealedEvt : Event :=
  .ssl ⟨.unknown, 4, 5, 1, 5, false, 0, fdOfThread writer 3, sslStep .egress⟩ 1 9 (text "hello")

def sealedSslEvt : SslEvt := ⟨fdOfThread writer 3, sslStep .egress, 1, 5, 1, 9⟩

theorem sealed_run : Run TlsRun.step TlsRun.Allows (.start oneConn) sealing sealedRun := by
  have hgiven : sealedWrite.Given :=
    ⟨by decide, by decide, fun _ h => absurd h (by decide), fun _ h => by cases h⟩
  have hcounted : sealedWrite.Counted := fun _ => by decide
  exact (Run.nil.snoc trivial (TlsRun.step_after _ _)).snoc ⟨hgiven, hcounted⟩ (TlsRun.step_after _ _)

theorem range_exact_iff_sealed :
    (∃ move, (sealedRun.after sealedReturn).plain = sealedRun.plain ++ [move]
        ∧ move.tgidFd = fdOfThread writer 3 ∧ move.direct = .egress
        ∧ sealedSslEvt.step = sslStep .egress ∧ sealedSslEvt.len = move.count
        ∧ sealedSslEvt.seq = (bytesOf (lane (fdOfThread writer 3) .egress sealedRun.plain) + 1) % 2 ^ 32)
      ∧ ((∀ p, sealedSslEvt.syscallSeq ≤ p ∧ p < sealedSslEvt.syscallSeq + sealedSslEvt.syscallLen
            ↔ Ledger.Holds Move.count (Move.isOf 0)
              (lane (fdOfThread writer 3) .egress sealedRun.moves) p)
        ↔ (∀ m ∈ sealedRun.moves, m.isOf 0 = true → 0 < m.count →
            m.tgidFd = fdOfThread writer 3 ∧ m.direct = .egress)
          ∧ Ledger.Closing Move.count (Move.isOf 0)
            (lane (fdOfThread writer 3) .egress sealedRun.moves)) := by
  have hconn : oneConn.connInfoMap (fdOfThread writer 3) = some httpConn := rfl
  have hfresh : ∀ d, httpConn.bytes d = 0 ∧ httpConn.sslBytes d = 0 := by
    intro d
    cases d
    · exact ⟨rfl, rfl⟩
    · exact ⟨rfl, rfl⟩
  have hevents : (sealedRun.after sealedReturn).tls.cpu.events
      = sealedRun.tls.cpu.events ++ [sealedEvt] := by
    decide +kernel
  exact range_exact_iff hconn hfresh sealed_run (TlsRun.step_after sealedRun sealedReturn) rfl hevents
    (List.mem_singleton_self sealedEvt) rfl rfl (by decide +kernel) (by decide +kernel)

end Kyanos.Bpf
