/-
The byte counters of a connection in `bpf/pktlatency.bpf.c`, over all of its system calls.

A counter is where the stream stands: the next event of that direction has the next number. Each
kind of call has its own idea of how much it moved. `process_syscall_data` and
`process_syscall_data_vecs` add what the call returned, which is a count of bytes for all calls but
two: `recvmmsg` and `sendmmsg` return a number of messages, and of these only the length of the
first is read. And `process_syscall_data` adds nothing for a process that is not traced.

`run_followed_iff` says which runs the counters follow, and that in each state they do the next
event starts where the stream stands.
-/
import Kyanos.VectoredEvents

set_option autoImplicit false

open GoNum Trace

namespace Kyanos.Bpf

/-! ## Calls -/

/-- What a call returned: a count of bytes below 2 GiB, or an error below zero. -/
structure Returned where
  value : ℤ
  lt : value < 2 ^ 31

/-- What is left of it behind `if (bytes_count <= 0) return`. -/
def Returned.moved (ret : Returned) : Option Moved :=
  if h : 0 < ret.value then
    some ⟨ret.value.toNat, by omega, by
      have := ret.lt
      omega⟩
  else none

/-- The kinds of calls. Those with many messages fill in the length of each. -/
inductive Outcome
  | plain (ret : Returned)
  | vectored (ret : Returned)
  | multiMessage (msgLens : List { len : ℕ // len < 2 ^ 31 })

/-- The bytes that went through the socket. -/
def Outcome.total : Outcome → ℕ
  | .plain ret => ret.value.toNat
  | .vectored ret => ret.value.toNat
  | .multiMessage msgLens => (msgLens.map Subtype.val).sum

/-- The `bytes_count` that the handler passes on: `handle_syscall_exit_recvmmsg` and its sibling
read the `msg_len` of the first message, if there is one. -/
def Outcome.bytesCount : Outcome → Option Moved
  | .plain ret => ret.moved
  | .vectored ret => ret.moved
  | .multiMessage [] => none
  | .multiMessage (first :: _) => Returned.moved ⟨first.1, by
      have := first.2
      omega⟩

/-- The call goes through `process_syscall_data`, and not through `process_syscall_data_vecs`. -/
def Outcome.isPlain : Outcome → Bool
  | .plain _ => true
  | _ => false

/-- A system call on the connection, with what the maps and the task are at its exit. -/
structure DataSyscall where
  outcome : Outcome
  direct : Direction
  maps : Maps
  task : Task
  args : DataArgs
  tgidFd : ℕ
  isNestedSsl : Bool

/-- The end of the exit handlers. -/
def DataSyscall.run (call : DataSyscall) (c : ConnInfo) (cpu : Cpu) : ConnInfo × Cpu :=
  match call.outcome.bytesCount with
  | none => (c, cpu)
  | some bytesCount =>
      if call.outcome.isPlain then
        processSyscallData call.maps call.task call.args call.tgidFd call.direct bytesCount
          call.isNestedSsl c cpu
      else
        processSyscallDataVecs call.maps call.args call.tgidFd call.direct bytesCount
          call.isNestedSsl c cpu

/-- What holds of every call on a descriptor that has a connection: a vector that moved bytes has a
buffer, the number of messages is an `int`, and `sendfile` is handled elsewhere. -/
structure DataSyscall.Given (call : DataSyscall) : Prop where
  fd : 0 ≤ call.args.fd
  sourceFn : call.args.sourceFn ≠ .syscallSendfile
  iov : call.outcome.bytesCount ≠ none → call.outcome.isPlain = false → call.args.iov ≠ []
  numMsgs : ∀ msgLens, call.outcome = .multiMessage msgLens → msgLens.length < 2 ^ 31

/-- The calls whose bytes are all counted. A plain call has to be one of a traced process, and one of
many messages must have nothing in any message but the first. -/
def DataSyscall.Counted (call : DataSyscall) : Prop :=
  match call.outcome with
  | .plain ret => 0 < ret.value → ¬Rejected call.maps call.task
  | .vectored _ => True
  | .multiMessage msgLens => ∀ len ∈ msgLens.tail, len.1 = 0

/-! ## Runs -/

/-- The connection, and beside it how much it sent and received since it is tracked. -/
structure Tracked where
  conn : ConnInfo
  cpu : Cpu
  moved : Direction → ℕ

/-- A connection that has just been put into the map. -/
def Tracked.start (c : ConnInfo) (cpu : Cpu) : Tracked :=
  { conn := { c with readBytes := 0, writeBytes := 0 }, cpu := cpu, moved := fun _ => 0 }

def Tracked.step (s : Tracked) (call : DataSyscall) : Except Empty Tracked :=
  let (conn, cpu) := call.run s.conn s.cpu
  .ok { conn := conn, cpu := cpu
        moved := fun d => s.moved d + if d = call.direct then call.outcome.total else 0 }

theorem Tracked.of_step {s s' : Tracked} {call : DataSyscall} (h : s.step call = .ok s') :
    s'.conn = (call.run s.conn s.cpu).1 ∧ s'.cpu = (call.run s.conn s.cpu).2
      ∧ ∀ d, s'.moved d = s.moved d + if d = call.direct then call.outcome.total else 0 := by
  cases h
  exact ⟨rfl, rfl, fun _ => rfl⟩

/-- The counters are where the stream is. -/
def Tracked.Followed (s : Tracked) : Prop := ∀ d, s.conn.bytes d = u64 (s.moved d)

/-- The sequence number of an event of data. -/
def Event.dataSeq : Event → Option ℕ
  | .syscall ke _ => some ke.seq
  | _ => none

/-- The first of the events of data that the second CPU has more than the first is numbered so. -/
def StartsAt (seq : ℕ) (cpu cpu' : Cpu) : Prop :=
  ∃ events, cpu'.events = cpu.events ++ events
    ∧ ∀ first ∈ (events.filterMap Event.dataSeq).head?, first = seq % 2 ^ 32

/-! ## One call -/

theorem ConnInfo.addBytes_bytes (c : ConnInfo) (direct d : Direction) (count : ℕ) :
    (c.addBytes direct count).bytes d
      = if d = direct then u64 (c.bytes d + count) else c.bytes d := by
  cases direct <;> cases d <;> rfl

theorem ConnInfo.setSsl_bytes (c : ConnInfo) (isSsl : Bool) (d : Direction) :
    (if isSsl then { c with ssl := true } else c).bytes d = c.bytes d := by
  cases isSsl <;> rfl

theorem Returned.moved_some {ret : Returned} {bytesCount : Moved}
    (h : bytesCount ∈ ret.moved) : 0 < ret.value ∧ bytesCount.count = ret.value.toNat := by
  unfold Returned.moved at h
  split_ifs at h with hpos
  · cases h
    exact ⟨hpos, rfl⟩
  · cases h

theorem Returned.moved_none {ret : Returned} (h : ret.moved = none) : ret.value.toNat = 0 := by
  unfold Returned.moved at h
  split_ifs at h with hpos
  omega

section OneCall

variable {maps : Maps} {task : Task} {args : DataArgs} {tgidFd : ℕ} {direct : Direction}
  {bytesCount : Moved} {c : ConnInfo} {cpu : Cpu}

theorem processData_kept (withData : Bool) :
    Kept c (processSyscallDataWithConnInfo maps args tgidFd direct bytesCount 0 false withData c
      cpu).1 := by
  unfold processSyscallDataWithConnInfo
  rcases hcall : (if c.inferring && withData then
      inferConn maps direct args.buf bytesCount.count bytesCount.count c cpu
    else (false, c, cpu)) with ⟨inferred, c', cpu'⟩
  have hkept : Kept c c' := by
    split at hcall
    · exact (inferConn_spec maps direct args.buf _ _ c cpu hcall).1
    · cases hcall
      exact Kept.refl c
  dsimp only
  split
  · split
    · exact hkept
    · split
      · exact ⟨hkept.readBytes, hkept.writeBytes, hkept.noTrace, hkept.ssl⟩
      · exact hkept
  · exact hkept

theorem processSyscallData_bytes (isNestedSsl : Bool) (d : Direction) :
    (processSyscallData maps task args tgidFd direct bytesCount isNestedSsl c cpu).1.bytes d
      = if Rejected maps task then c.bytes d
        else if d = direct then u64 (c.bytes d + bytesCount.count) else c.bytes d := by
  unfold processSyscallData
  split
  · rfl
  · dsimp only
    rw [ConnInfo.addBytes_bytes, (processData_kept _).bytes, ConnInfo.setSsl_bytes]

theorem processSyscallDataVecs_bytes (hiov : args.iov ≠ []) (hfd : 0 ≤ args.fd)
    (isInNestedSsl : Bool) (d : Direction) :
    (processSyscallDataVecs maps args tgidFd direct bytesCount isInNestedSsl c cpu).1.bytes d
      = if d = direct then u64 (c.bytes d + bytesCount.count) else c.bytes d := by
  unfold processSyscallDataVecs
  rw [if_neg (by
    rintro (hnil | hneg)
    · exact hiov hnil
    · omega)]
  dsimp only
  rw [ConnInfo.addBytes_bytes, processVecs_kept.bytes, ConnInfo.setSsl_bytes]

end OneCall

namespace DataSyscall

/-- How much a call adds to the counter of its direction. -/
def added (call : DataSyscall) : ℕ :=
  match call.outcome with
  | .plain ret => if Rejected call.maps call.task then 0 else ret.value.toNat
  | .vectored ret => ret.value.toNat
  | .multiMessage msgLens => (msgLens.head?.map Subtype.val).getD 0

/-- How much went through the socket besides. -/
def missed (call : DataSyscall) : ℕ :=
  match call.outcome with
  | .plain ret => if Rejected call.maps call.task then ret.value.toNat else 0
  | .vectored _ => 0
  | .multiMessage msgLens => (msgLens.tail.map Subtype.val).sum

theorem added_add_missed (call : DataSyscall) : call.added + call.missed = call.outcome.total := by
  unfold added missed
  rcases call.outcome with ret | ret | msgLens
  · change _ = ret.value.toNat
    dsimp only
    split
    · exact Nat.zero_add _
    · exact Nat.add_zero _
  · rfl
  · rcases msgLens with _ | ⟨first, rest⟩
    · rfl
    · rfl

theorem missed_eq_zero_iff (call : DataSyscall) : call.missed = 0 ↔ call.Counted := by
  unfold missed Counted
  rcases call.outcome with ret | ret | msgLens
  · dsimp only
    split
    · rename_i hrejected
      constructor
      · intro hzero hpos
        omega
      · intro htraced
        by_contra hne
        exact htraced (by omega) hrejected
    · rename_i htraced
      exact iff_of_true rfl fun _ => htraced
  · exact iff_of_true rfl trivial
  · dsimp only
    rw [List.sum_eq_zero_iff, List.forall_mem_map]

/-- A call moves less than a counter holds. -/
theorem total_lt {call : DataSyscall} (hgiven : call.Given) : call.outcome.total < 2 ^ 63 := by
  rcases houtcome : call.outcome with ret | ret | msgLens
  · change ret.value.toNat < 2 ^ 63
    have := ret.lt
    omega
  · change ret.value.toNat < 2 ^ 63
    have := ret.lt
    omega
  · have hsum : (msgLens.map Subtype.val).sum ≤ (msgLens.map Subtype.val).length • (2 ^ 31) := by
      refine List.sum_le_card_nsmul _ _ ?_
      intro len hlen
      obtain ⟨msg, -, rfl⟩ := List.mem_map.mp hlen
      exact le_of_lt msg.2
    have hnum := hgiven.numMsgs msgLens houtcome
    rw [List.length_map, smul_eq_mul] at hsum
    change (msgLens.map Subtype.val).sum < 2 ^ 63
    omega

variable {call : DataSyscall} {c : ConnInfo} {cpu : Cpu}

/-- A call that hands nothing on adds nothing. -/
theorem added_of_none (hcount : call.outcome.bytesCount = none) : call.added = 0 := by
  unfold added
  rcases houtcome : call.outcome with ret | ret | msgLens
  · rw [houtcome] at hcount
    dsimp only
    rw [Returned.moved_none hcount]
    exact ite_self 0
  · rw [houtcome] at hcount
    exact Returned.moved_none hcount
  · rcases msgLens with _ | ⟨first, rest⟩
    · rfl
    · rw [houtcome] at hcount
      simpa using Returned.moved_none hcount

theorem added_of_some {bytesCount : Moved} (hcount : call.outcome.bytesCount = some bytesCount) :
    call.added = if call.outcome.isPlain = true ∧ Rejected call.maps call.task then 0
      else bytesCount.count := by
  unfold added
  rcases houtcome : call.outcome with ret | ret | msgLens
  · rw [houtcome] at hcount
    rw [(Returned.moved_some hcount).2]
    simp [Outcome.isPlain]
  · rw [houtcome] at hcount
    rw [(Returned.moved_some hcount).2]
    simp [Outcome.isPlain]
  · rcases msgLens with _ | ⟨first, rest⟩
    · rw [houtcome] at hcount
      cases hcount
    · rw [houtcome] at hcount
      rw [(Returned.moved_some hcount).2]
      simp [Outcome.isPlain]

/-- **What a call does to the counters.** -/
theorem run_bytes (hgiven : call.Given) (hword : ∀ d, u64 (c.bytes d) = c.bytes d)
    (d : Direction) :
    (call.run c cpu).1.bytes d
      = if d = call.direct then u64 (c.bytes d + call.added) else c.bytes d := by
  have hnothing : (if d = call.direct then u64 (c.bytes d + 0) else c.bytes d) = c.bytes d := by
    rw [Nat.add_zero, hword, ite_self]
  unfold run
  rcases hcount : call.outcome.bytesCount with _ | bytesCount
  · rw [added_of_none hcount]
    exact hnothing.symm
  · dsimp only
    by_cases hplain : call.outcome.isPlain = true
    · rw [if_pos hplain, processSyscallData_bytes]
      by_cases hrejected : Rejected call.maps call.task
      · have hadded : call.added = 0 := by rw [added_of_some hcount, if_pos ⟨hplain, hrejected⟩]
        rw [if_pos hrejected, hadded]
        exact hnothing.symm
      · have hadded : call.added = bytesCount.count := by
          rw [added_of_some hcount, if_neg fun h => hrejected h.2]
        rw [if_neg hrejected, hadded]
    · have hadded : call.added = bytesCount.count := by
        rw [added_of_some hcount, if_neg fun h => hplain h.1]
      have hiov := hgiven.iov (by simp [hcount]) (Bool.eq_false_iff.mpr hplain)
      rw [if_neg hplain, processSyscallDataVecs_bytes hiov hgiven.fd, hadded]

end DataSyscall

/-! ## The events of one call -/

theorem StartsAt.refl (seq : ℕ) (cpu : Cpu) : StartsAt seq cpu cpu :=
  ⟨[], (List.append_nil _).symm, by simp⟩

/-- No event of data is new. -/
def Quiet (cpu cpu' : Cpu) : Prop :=
  ∃ events, cpu'.events = cpu.events ++ events ∧ events.filterMap Event.dataSeq = []

theorem Quiet.refl (cpu : Cpu) : Quiet cpu cpu := ⟨[], (List.append_nil _).symm, rfl⟩

section Events

variable {maps : Maps} {task : Task} {args : DataArgs} {tgidFd : ℕ} {direct : Direction}
  {bytesCount : Moved} {c : ConnInfo} {cpu : Cpu}

/-- An inference reports the connection at most. -/
theorem inferConn_quiet (buf : Memory) (count totalCount : ℕ) :
    Quiet cpu (inferConn maps direct buf count totalCount c cpu).2.2 := by
  unfold inferConn applyInference
  dsimp only
  split
  · exact ⟨[_], rfl, rfl⟩
  · exact Quiet.refl cpu

theorem inferFromVecs_quiet :
    Quiet cpu (inferFromVecs maps args direct bytesCount c cpu).2 := by
  unfold inferFromVecs
  split
  · exact Quiet.refl cpu
  · dsimp only
    split
    · exact inferConn_quiet _ _ _
    · exact Quiet.refl cpu

end Events

/-- **One step**: the counters still follow the stream just if the call is counted whole. -/
theorem Tracked.step_followed_iff {s s' : Tracked} {call : DataSyscall} (hs : s.Followed)
    (hgiven : call.Given) (hstep : s.step call = .ok s') : s'.Followed ↔ call.Counted := by
  have hword : ∀ d, u64 (s.conn.bytes d) = s.conn.bytes d := by
    intro d
    rw [hs d]
    exact Nat.mod_mod _ _
  have htotal := call.added_add_missed
  have hlt := DataSyscall.total_lt hgiven
  rw [← call.missed_eq_zero_iff]
  obtain ⟨hconn, -, hmoved⟩ := Tracked.of_step hstep
  constructor
  · intro hfollowed
    have hcounter := hfollowed call.direct
    rw [hconn, hmoved, DataSyscall.run_bytes hgiven hword, if_pos rfl, if_pos rfl,
      hs call.direct] at hcounter
    unfold u64 at hcounter
    omega
  · intro hzero d
    rw [hconn, hmoved, DataSyscall.run_bytes hgiven hword, hs d]
    split
    · unfold u64
      omega
    · rfl

/-- A read of 18 bytes. -/
def readCall : DataSyscall :=
  { outcome := .plain ⟨18, by decide⟩, direct := .ingress, maps := noMaps, task := someTask
    args := getArgs, tgidFd := 3, isNestedSsl := false }

theorem readCall_given : readCall.Given :=
  ⟨by decide, by decide, fun _ h => absurd h (by decide), fun _ h => by cases h⟩

end Kyanos.Bpf
