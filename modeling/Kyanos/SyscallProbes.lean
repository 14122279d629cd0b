/-
`bpf/pktlatency.bpf.c`: the probes at the entry and the exit of system calls.

What a call is given is known where it enters, what it moved where it exits. The entry puts the arguments
into a map under the thread, and the exit of the same call looks them up, hands them on and deletes them.
A probe in the kernel's own path of a socket marks them in between (`sock_event`), and the calls that can
also be made on a file are handed on only if they have the mark.

Six maps are shared by the fourteen calls of all threads. A call may never come back, and what it was
given then waits for the next call of its thread that looks into the same map. `handed_own_iff` says in
which runs each exit hands on just what its own call was given.
-/
import Kyanos.DataPath
import Kyanos.Stash
import Kyanos.Trace

set_option autoImplicit false

open Trace

namespace Kyanos.Bpf

/-! ## Arguments -/

/-- `data_args` in the map: what is in the buffers is read at the exit. -/
structure StashedArgs where
  sourceFn : SourceFunction
  sockEvent : Bool
  fd : ℤ
  buf : ℕ
  iov : ℕ
  iovlen : ℕ
  msgLen : ℕ
  startTs : ℕ
  endTs : ℕ
deriving DecidableEq

/-- `struct data_args args = {0}`. -/
def StashedArgs.zero : StashedArgs := ⟨.unknown, false, 0, 0, 0, 0, 0, 0, 0⟩

structure ConnectArgs where
  addr : ℕ
  fd : ℤ
  startTs : ℕ
deriving DecidableEq

/-- A `sock_alloc_socket` of 0 is none. -/
structure AcceptArgs where
  addr : ℕ
  sockAllocSocket : ℕ
deriving DecidableEq

structure CloseArgs where
  fd : ℕ
deriving DecidableEq

structure SendfileArgs where
  outFd : ℤ
  inFd : ℤ
  count : ℕ
  startTs : ℕ
  endTs : ℕ
deriving DecidableEq

/-- `my_user_msghdr`, as it is in the memory of the process. -/
structure MsgHdr where
  msgName : ℕ
  msgIov : ℕ
  msgIovlen : ℕ

/-- `read_args_map` and its siblings. -/
inductive ArgsMap
  | readArgs
  | writeArgs
  | connectArgs
  | acceptArgs
  | closeArgs
  | activeSendfileArgs
deriving DecidableEq

@[reducible] def ArgsMap.Value : ArgsMap → Type
  | .readArgs => StashedArgs
  | .writeArgs => StashedArgs
  | .connectArgs => ConnectArgs
  | .acceptArgs => AcceptArgs
  | .closeArgs => CloseArgs
  | .activeSendfileArgs => SendfileArgs

/-- What an entry puts into the maps, under its thread. -/
abbrev Puts := List (Σ m : ArgsMap, m.Value)

/-! ## Entries -/

/-- `(flags & MSG_OOB) || (flags & MSG_PEEK)` -/
def oobOrPeek (flags : ℕ) : Bool := flags &&& 1 ≠ 0 || flags &&& 2 ≠ 0

/-- The address of a call that may be the first on its socket. -/
def connectArgsOf (fd : ℤ) (addr : ℕ) : Puts :=
  if addr ≠ 0 then [⟨.connectArgs, ⟨addr, fd, 0⟩⟩] else []

def handleSyscallEnterRecvfrom (fd : ℤ) (buf srcAddr flags now : ℕ) : Puts :=
  if oobOrPeek flags then []
  else connectArgsOf fd srcAddr
    ++ [⟨.readArgs, { StashedArgs.zero with
          fd := fd, buf := buf, sourceFn := .syscallRecvFrom, startTs := now }⟩]

def handleSyscallEnterRead (fd : ℤ) (buf now : ℕ) : Puts :=
  [⟨.readArgs, { StashedArgs.zero with
          fd := fd, buf := buf, sourceFn := .syscallRead, startTs := now }⟩]

/-- The header of a message takes 56 bytes, and its length follows. -/
def msgLenOffset : ℕ := 56

def handleSyscallEnterRecvmmsg (sockfd : ℤ) (msgvec vlen : ℕ) (hdr : MsgHdr) (now : ℕ) : Puts :=
  if msgvec ≠ 0 ∧ vlen ≥ 1 then
    connectArgsOf sockfd hdr.msgName
      ++ [⟨.readArgs, { StashedArgs.zero with
            fd := sockfd, iov := hdr.msgIov, iovlen := hdr.msgIovlen, msgLen := msgvec + msgLenOffset
            sourceFn := .syscallRecvMMsg, startTs := now }⟩]
  else []

def handleSyscallEnterRecvmsg (sockfd : ℤ) (msghdr flags : ℕ) (hdr : MsgHdr) (now : ℕ) : Puts :=
  if oobOrPeek flags then []
  else if msghdr ≠ 0 then
    connectArgsOf sockfd hdr.msgName
      ++ [⟨.readArgs, { StashedArgs.zero with
            fd := sockfd, iov := hdr.msgIov, iovlen := hdr.msgIovlen, sourceFn := .syscallRecvMsg
            startTs := now }⟩]
  else []

def handleSyscallEnterReadv (fd : ℤ) (iov iovlen now : ℕ) : Puts :=
  if iov = 0 then []
  else [⟨.readArgs, { StashedArgs.zero with
          fd := fd, iov := iov, iovlen := iovlen, sourceFn := .syscallReadV, startTs := now }⟩]

def handleSyscallEnterSendto (fd : ℤ) (buf destAddr now : ℕ) : Puts :=
  if buf = 0 then []
  else connectArgsOf fd destAddr
    ++ [⟨.writeArgs, { StashedArgs.zero with
          fd := fd, buf := buf, sourceFn := .syscallSendTo, startTs := now }⟩]

def handleSyscallEnterWrite (fd : ℤ) (buf now : ℕ) : Puts :=
  if buf = 0 then []
  else [⟨.writeArgs, { StashedArgs.zero with
          fd := fd, buf := buf, sourceFn := .syscallWrite, startTs := now }⟩]

def handleSyscallEnterSendmmsg (sockfd : ℤ) (msgvec vlen : ℕ) (hdr : MsgHdr) (now : ℕ) : Puts :=
  if msgvec ≠ 0 ∧ vlen ≥ 1 then
    connectArgsOf sockfd hdr.msgName
      ++ [⟨.writeArgs, { StashedArgs.zero with
            fd := sockfd, iov := hdr.msgIov, iovlen := hdr.msgIovlen
            msgLen := msgvec + msgLenOffset
            sourceFn := .syscallSendMMsg, startTs := now }⟩]
  else []

def handleSyscallEnterSendmsg (sockfd : ℤ) (msghdr : ℕ) (hdr : MsgHdr) (now : ℕ) : Puts :=
  if msghdr ≠ 0 then
    connectArgsOf sockfd hdr.msgName
      ++ [⟨.writeArgs, { StashedArgs.zero with
            fd := sockfd, iov := hdr.msgIov, iovlen := hdr.msgIovlen, sourceFn := .syscallSendMsg
            startTs := now }⟩]
  else []

/-- The one entry that leaves the source function as it is. -/
def handleSyscallEnterWritev (fd : ℤ) (iov iovlen now : ℕ) : Puts :=
  [⟨.writeArgs, { StashedArgs.zero with fd := fd, iov := iov, iovlen := iovlen, startTs := now }⟩]

def handleSyscallEnterSendfile (outFd inFd : ℤ) (count now : ℕ) : Puts :=
  if outFd < 0 ∨ inFd < 0 then [] else [⟨.activeSendfileArgs, ⟨outFd, inFd, count, now, 0⟩⟩]

def handleSyscallEnterConnect (sockfd : ℤ) (addr now : ℕ) : Puts :=
  [⟨.connectArgs, ⟨addr, sockfd, now⟩⟩]

def handleSyscallEnterAccept4 (addr : ℕ) : Puts := [⟨.acceptArgs, ⟨addr, 0⟩⟩]

def handleSyscallEnterClose (fd : ℤ) : Puts := [⟨.closeArgs, ⟨(fd % 2 ^ 32).toNat⟩⟩]

/-! ## In between -/

/-- `handle_security_socket_sendmsg`, on what a thread has in a map. -/
def handleSecuritySocketSendmsg : (m : ArgsMap) → m.Value → m.Value
  | .writeArgs, args => { args with sockEvent := true }
  | _, args => args

/-- `handle_security_socket_recvmsg`. -/
def handleSecuritySocketRecvmsg : (m : ArgsMap) → m.Value → m.Value
  | .readArgs, args => { args with sockEvent := true }
  | _, args => args

/-- `sock_alloc_ret`: the first socket counts. -/
def sockAllocRet (sk : ℕ) : (m : ArgsMap) → m.Value → m.Value
  | .acceptArgs, args =>
      if args.sockAllocSocket = 0 then { args with sockAllocSocket := sk } else args
  | _, args => args

/-! ## Exits -/

/-- What an exit hands on to be processed. -/
inductive Handed
  | implicitConn (id : ℕ) (args : ConnectArgs) (sourceFn : SourceFunction) (role : Role)
  | data (id : ℕ) (args : StashedArgs) (direct : Direction) (bytesCount : ℤ)
  | dataVecs (id : ℕ) (args : StashedArgs) (direct : Direction) (bytesCount : ℤ)
  | sendfile (id : ℕ) (args : SendfileArgs) (bytesCount : ℤ)
  | connect (id : ℕ) (args : ConnectArgs) (retVal : ℤ)
  | accept (id : ℕ) (args : AcceptArgs) (ret : ℤ)
  | close (id : ℕ) (args : CloseArgs) (retVal : ℤ)
deriving DecidableEq

/-- What a thread has in the maps. -/
abbrev ArgsRow := Stash.Row ArgsMap.Value

/-- What is found in a map is handed on if it is ready. -/
def handOn {α : Type} (found : Option α) (ready : α → Bool) (hand : α → Handed) : List Handed :=
  ((found.filter ready).map hand).toList

section Exits

variable (id : ℕ) (row : ArgsRow) (ret : ℤ) (mem : ℕ → ℕ) (now : ℕ)

/-- The implicit connection of a call that moved something. -/
def exitImplicitConn (sourceFn : SourceFunction) (role : Role) : List Handed :=
  handOn (row .connectArgs) (fun _ => ret > 0) fun args => .implicitConn id args sourceFn role

def handleSyscallExitRecvfrom : List Handed :=
  exitImplicitConn id row ret .syscallRecvFrom .server
    ++ handOn (row .readArgs) (fun _ => true) fun args =>
      .data id { args with endTs := now } .ingress ret

def handleSyscallExitRead : List Handed :=
  handOn (row .readArgs) StashedArgs.sockEvent fun args =>
    .data id { args with endTs := now } .ingress ret

/-- `mem` is what there is of an `unsigned int` at a place of the memory. -/
def handleSyscallExitRecvmmsg : List Handed :=
  exitImplicitConn id row ret .syscallRecvMMsg .server
    ++ handOn (row .readArgs) (fun _ => ret > 0) fun args =>
      .dataVecs id { args with endTs := now } .ingress (mem args.msgLen)

def handleSyscallExitRecvmsg : List Handed :=
  exitImplicitConn id row ret .syscallRecvMsg .server
    ++ handOn (row .readArgs) (fun _ => true) fun args =>
      .dataVecs id { args with endTs := now } .ingress ret

def handleSyscallExitReadv : List Handed :=
  handOn (row .readArgs) StashedArgs.sockEvent fun args =>
    .dataVecs id { args with endTs := now } .ingress ret

def handleSyscallExitSendto : List Handed :=
  exitImplicitConn id row ret .syscallSendTo .client
    ++ handOn (row .writeArgs) (fun _ => true) fun args =>
      .data id { args with endTs := now } .egress ret

def handleSyscallExitWrite : List Handed :=
  handOn (row .writeArgs) StashedArgs.sockEvent fun args =>
    .data id { args with endTs := now } .egress ret

def handleSyscallExitSendmmsg : List Handed :=
  exitImplicitConn id row ret .syscallSendMMsg .client
    ++ handOn (row .writeArgs) (fun _ => ret > 0) fun args =>
      .dataVecs id { args with endTs := now } .egress (mem args.msgLen)

/-- The other calls on messages do not ask for the mark. -/
def handleSyscallExitSendmsg : List Handed :=
  exitImplicitConn id row ret .syscallSendMsg .client
    ++ handOn (row .writeArgs) StashedArgs.sockEvent fun args =>
      .dataVecs id { args with endTs := now } .egress ret

def handleSyscallExitWritev : List Handed :=
  handOn (row .writeArgs) StashedArgs.sockEvent fun args =>
    .dataVecs id { args with endTs := now } .egress ret

def handleSyscallExitSendfile64 : List Handed :=
  handOn (row .activeSendfileArgs) (fun _ => true) fun args =>
    .sendfile id { args with endTs := now } ret

def handleSyscallExitConnect : List Handed :=
  handOn (row .connectArgs) (fun _ => true) fun args => .connect id args ret

def handleSyscallExitAccept4 : List Handed :=
  handOn (row .acceptArgs) (fun _ => true) fun args => .accept id args ret

def handleSyscallExitClose : List Handed :=
  handOn (row .closeArgs) (fun _ => true) fun args => .close id args ret

end Exits

/-! ## Calls -/

inductive SyscallKind
  | recvfrom
  | read
  | recvmmsg
  | recvmsg
  | readv
  | sendto
  | write
  | sendmmsg
  | sendmsg
  | writev
  | sendfile64
  | connect
  | accept4
  | close
deriving DecidableEq

/-- The maps that an exit deletes the entry of its thread from. -/
def SyscallKind.deletes : SyscallKind → List ArgsMap
  | .recvfrom | .recvmmsg | .recvmsg => [.connectArgs, .readArgs]
  | .read | .readv => [.readArgs]
  | .sendto | .sendmmsg | .sendmsg => [.connectArgs, .writeArgs]
  | .write | .writev => [.writeArgs]
  | .sendfile64 => [.activeSendfileArgs]
  | .connect => [.connectArgs]
  | .accept4 => [.acceptArgs]
  | .close => [.closeArgs]

/-- What an exit hands on of what it finds. -/
def SyscallKind.exit (kind : SyscallKind) (id : ℕ) (row : ArgsRow) (ret : ℤ) (mem : ℕ → ℕ) (now : ℕ) :
    List Handed :=
  match kind with
  | .recvfrom => handleSyscallExitRecvfrom id row ret now
  | .read => handleSyscallExitRead id row ret now
  | .recvmmsg => handleSyscallExitRecvmmsg id row ret mem now
  | .recvmsg => handleSyscallExitRecvmsg id row ret now
  | .readv => handleSyscallExitReadv id row ret now
  | .sendto => handleSyscallExitSendto id row ret now
  | .write => handleSyscallExitWrite id row ret now
  | .sendmmsg => handleSyscallExitSendmmsg id row ret mem now
  | .sendmsg => handleSyscallExitSendmsg id row ret now
  | .writev => handleSyscallExitWritev id row ret now
  | .sendfile64 => handleSyscallExitSendfile64 id row ret now
  | .connect => handleSyscallExitConnect id row ret
  | .accept4 => handleSyscallExitAccept4 id row ret
  | .close => handleSyscallExitClose id row ret

/-- A call with what it is given. -/
inductive SyscallEntry
  | recvfrom (fd : ℤ) (buf srcAddr flags now : ℕ)
  | read (fd : ℤ) (buf now : ℕ)
  | recvmmsg (sockfd : ℤ) (msgvec vlen : ℕ) (hdr : MsgHdr) (now : ℕ)
  | recvmsg (sockfd : ℤ) (msghdr flags : ℕ) (hdr : MsgHdr) (now : ℕ)
  | readv (fd : ℤ) (iov iovlen now : ℕ)
  | sendto (fd : ℤ) (buf destAddr now : ℕ)
  | write (fd : ℤ) (buf now : ℕ)
  | sendmmsg (sockfd : ℤ) (msgvec vlen : ℕ) (hdr : MsgHdr) (now : ℕ)
  | sendmsg (sockfd : ℤ) (msghdr : ℕ) (hdr : MsgHdr) (now : ℕ)
  | writev (fd : ℤ) (iov iovlen now : ℕ)
  | sendfile64 (outFd inFd : ℤ) (count now : ℕ)
  | connect (sockfd : ℤ) (addr now : ℕ)
  | accept4 (addr : ℕ)
  | close (fd : ℤ)

namespace SyscallEntry

def kind : SyscallEntry → SyscallKind
  | recvfrom .. => .recvfrom
  | read .. => .read
  | recvmmsg .. => .recvmmsg
  | recvmsg .. => .recvmsg
  | readv .. => .readv
  | sendto .. => .sendto
  | write .. => .write
  | sendmmsg .. => .sendmmsg
  | sendmsg .. => .sendmsg
  | writev .. => .writev
  | sendfile64 .. => .sendfile64
  | connect .. => .connect
  | accept4 .. => .accept4
  | close .. => .close

def puts : SyscallEntry → Puts
  | recvfrom fd buf srcAddr flags now => handleSyscallEnterRecvfrom fd buf srcAddr flags now
  | read fd buf now => handleSyscallEnterRead fd buf now
  | recvmmsg sockfd msgvec vlen hdr now => handleSyscallEnterRecvmmsg sockfd msgvec vlen hdr now
  | recvmsg sockfd msghdr flags hdr now => handleSyscallEnterRecvmsg sockfd msghdr flags hdr now
  | readv fd iov iovlen now => handleSyscallEnterReadv fd iov iovlen now
  | sendto fd buf destAddr now => handleSyscallEnterSendto fd buf destAddr now
  | write fd buf now => handleSyscallEnterWrite fd buf now
  | sendmmsg sockfd msgvec vlen hdr now => handleSyscallEnterSendmmsg sockfd msgvec vlen hdr now
  | sendmsg sockfd msghdr hdr now => handleSyscallEnterSendmsg sockfd msghdr hdr now
  | writev fd iov iovlen now => handleSyscallEnterWritev fd iov iovlen now
  | sendfile64 outFd inFd count now => handleSyscallEnterSendfile outFd inFd count now
  | connect sockfd addr now => handleSyscallEnterConnect sockfd addr now
  | accept4 addr => handleSyscallEnterAccept4 addr
  | close fd => handleSyscallEnterClose fd

end SyscallEntry

/-- A place in the kernel that a call may come through. -/
inductive Hook
  | securitySocketSendmsg
  | securitySocketRecvmsg
  | sockAlloc (sk : ℕ)

def Hook.run : Hook → (m : ArgsMap) → m.Value → m.Value
  | .securitySocketSendmsg => handleSecuritySocketSendmsg
  | .securitySocketRecvmsg => handleSecuritySocketRecvmsg
  | .sockAlloc sk => sockAllocRet sk

/-- An entry that may make a connection puts into two maps at most. -/
theorem mem_connectArgsOf {fd : ℤ} {addr : ℕ} {m m' : ArgsMap} {v : m'.Value}
    (hm : m ∈ (connectArgsOf fd addr ++ [⟨m', v⟩] : Puts).map Sigma.fst) : m ∈ [.connectArgs, m'] := by
  rw [List.map_append, List.mem_append, List.map_singleton, List.mem_singleton] at hm
  rcases hm with hm | rfl
  · unfold connectArgsOf at hm
    split_ifs at hm
    · rw [List.map_singleton, List.mem_singleton] at hm
      rw [hm]
      exact List.mem_cons_self
    · cases hm
  · exact List.mem_cons_of_mem _ List.mem_cons_self

/-- An entry that puts nothing leaves nothing behind. -/
theorem mem_of_skip {skips : Prop} [Decidable skips] {puts : Puts} {m : ArgsMap} {deletes : List ArgsMap}
    (hputs : m ∈ puts.map Sigma.fst → m ∈ deletes)
    (hm : m ∈ (if skips then [] else puts : Puts).map Sigma.fst) : m ∈ deletes := by
  split_ifs at hm
  · cases hm
  · exact hputs hm

theorem mem_of_guard {goes : Prop} [Decidable goes] {puts : Puts} {m : ArgsMap} {deletes : List ArgsMap}
    (hputs : m ∈ puts.map Sigma.fst → m ∈ deletes)
    (hm : m ∈ (if goes then puts else [] : Puts).map Sigma.fst) : m ∈ deletes := by
  split_ifs at hm
  · exact hputs hm
  · cases hm

/-- **An exit deletes what its entry puts.** -/
theorem SyscallEntry.puts_deleted (e : SyscallEntry) {m : ArgsMap} (hm : m ∈ e.puts.map Sigma.fst) :
    m ∈ e.kind.deletes := by
  cases e
  case recvfrom => exact mem_of_skip mem_connectArgsOf hm
  case recvmmsg => exact mem_of_guard mem_connectArgsOf hm
  case recvmsg => exact mem_of_skip (mem_of_guard mem_connectArgsOf) hm
  case readv => exact mem_of_skip id hm
  case sendto => exact mem_of_skip mem_connectArgsOf hm
  case write => exact mem_of_skip id hm
  case sendmmsg => exact mem_of_guard mem_connectArgsOf hm
  case sendmsg => exact mem_of_guard mem_connectArgsOf hm
  case sendfile64 => exact mem_of_skip id hm
  all_goals exact hm

/-! ## What an exit finds -/

section Found

variable {own row : ArgsRow} (h : own.Within row)
include h

/-- Beside its own an exit hands on what it finds of others. -/
theorem handOn_split (m : ArgsMap) (ready : m.Value → Bool) (hand : m.Value → Handed) :
    handOn (row m) ready hand
      = handOn (own m) ready hand ++ handOn (own.beyond row m) ready hand := by
  rcases h.slot m with ⟨hrow, hbeyond⟩ | ⟨hown, hbeyond⟩
  · rw [hrow, hbeyond]
    exact (List.append_nil _).symm
  · rw [hown, hbeyond]
    rfl

theorem handOn_eq_iff (m : ArgsMap) (ready : m.Value → Bool) (hand : m.Value → Handed) :
    handOn (row m) ready hand = handOn (own m) ready hand
      ↔ handOn (own.beyond row m) ready hand = [] := by
  rw [handOn_split h, List.append_right_eq_self]

theorem handOn_both_iff (m m' : ArgsMap) (ready : m.Value → Bool) (hand : m.Value → Handed)
    (ready' : m'.Value → Bool) (hand' : m'.Value → Handed) :
    handOn (row m) ready hand ++ handOn (row m') ready' hand'
        = handOn (own m) ready hand ++ handOn (own m') ready' hand'
      ↔ handOn (own.beyond row m) ready hand ++ handOn (own.beyond row m') ready' hand' = [] := by
  rw [handOn_split h m, handOn_split h m', List.append_eq_nil_iff]
  constructor
  · intro heq
    -- Two lists that only grew have the same length just if they did not grow.
    have hlen := congrArg List.length heq
    simp only [List.length_append] at hlen
    constructor
    · exact List.eq_nil_of_length_eq_zero (by omega)
    · exact List.eq_nil_of_length_eq_zero (by omega)
  · rintro ⟨hm, hm'⟩
    rw [hm, hm', List.append_nil, List.append_nil]

/-- **What an exit hands on is its own** just if of what others left it would hand on nothing. -/
theorem SyscallKind.exit_eq_iff (kind : SyscallKind) (id : ℕ) (ret : ℤ) (mem : ℕ → ℕ) (now : ℕ) :
    kind.exit id row ret mem now = kind.exit id own ret mem now
      ↔ kind.exit id (own.beyond row) ret mem now = [] := by
  -- The calls with an address look into the arguments of `connect`, too; the others into one map.
  cases kind
  case recvfrom => exact handOn_both_iff h .connectArgs .readArgs _ _ _ _
  case recvmmsg => exact handOn_both_iff h .connectArgs .readArgs _ _ _ _
  case recvmsg => exact handOn_both_iff h .connectArgs .readArgs _ _ _ _
  case sendto => exact handOn_both_iff h .connectArgs .writeArgs _ _ _ _
  case sendmmsg => exact handOn_both_iff h .connectArgs .writeArgs _ _ _ _
  case sendmsg => exact handOn_both_iff h .connectArgs .writeArgs _ _ _ _
  all_goals exact handOn_eq_iff h _ _ _

end Found

/-! ## Runs -/

/-- The maps and the calls that are under way, what the exits handed on, and what each call would have
handed on if the others had left nothing. -/
structure Probes where
  stash : Stash.State ℕ SyscallKind ArgsMap.Value
  handed : List Handed
  given : List Handed

inductive ProbeOp
  | enter (id : ℕ) (entry : SyscallEntry)
  | hook (id : ℕ) (hook : Hook)
  | exit (id : ℕ) (kind : SyscallKind) (ret : ℤ) (mem : ℕ → ℕ) (now : ℕ)

namespace Probes

def start : Probes := { stash := .start, handed := [], given := [] }

def step (s : Probes) : ProbeOp → Except Empty Probes
  | .enter id entry => .ok { s with stash := s.stash.enter id entry.kind entry.puts }
  | .hook id hook => .ok { s with stash := s.stash.touch id hook.run }
  | .exit id kind ret mem now =>
      .ok { stash := s.stash.leave id kind.deletes
            handed := s.handed ++ kind.exit id (s.stash.rows id) ret mem now
            given := s.given ++ kind.exit id (s.stash.own id) ret mem now }

/-- A thread leaves the call that it entered. -/
def Allows (s : Probes) : ProbeOp → Prop
  | .exit id kind _ _ _ => ∀ call own, s.stash.current id = some (call, own) → call = kind
  | _ => True

/-- An exit would hand on nothing of what others left. -/
def Clean (s : Probes) : ProbeOp → Prop
  | .exit id kind ret mem now =>
      kind.exit id ((s.stash.own id).beyond (s.stash.rows id)) ret mem now = []
  | _ => True

/-- A thread enters no call before its last came back. -/
def Returned (s : Probes) : ProbeOp → Prop
  | .enter id _ => s.stash.current id = none
  | _ => True

def Own (s : Probes) : Prop := s.handed = s.given ∧ s.stash.Kept

variable {s s' : Probes} {op : ProbeOp}

theorem step_kept (hs : s.stash.Kept) (hstep : step s op = .ok s') : s'.stash.Kept := by
  rcases op with ⟨id, entry⟩ | ⟨id, hook⟩ | ⟨id, kind, ret, mem, now⟩
  · cases hstep
    exact hs.enter entry.kind entry.puts
  · cases hstep
    exact hs.touch hook.run
  · cases hstep
    exact hs.leave kind.deletes

theorem step_own_iff (hs : s.Own) (hstep : step s op = .ok s') : s'.Own ↔ s.Clean op := by
  obtain ⟨hsame, hkept⟩ := hs
  have hkept' := step_kept hkept hstep
  unfold Own
  rw [and_iff_left hkept']
  rcases op with ⟨id, entry⟩ | ⟨id, hook⟩ | ⟨id, kind, ret, mem, now⟩
  · cases hstep
    exact iff_of_true hsame trivial
  · cases hstep
    exact iff_of_true hsame trivial
  · -- Only an exit hands on.
    cases hstep
    change s.handed ++ _ = s.given ++ _ ↔ _
    rw [hsame, List.append_cancel_left_eq]
    exact kind.exit_eq_iff (hkept id) id ret mem now

/-- What each call puts is deleted at its exit, and nothing else is there. -/
structure Alone (s : Probes) : Prop where
  same : s.handed = s.given
  tidy : s.stash.Tidy
  covered : s.stash.Covered SyscallKind.deletes

theorem Alone.step (hs : s.Alone) (hallows : s.Allows op) (hreturned : s.Returned op)
    (hstep : step s op = .ok s') : s'.Alone := by
  rcases op with ⟨id, entry⟩ | ⟨id, hook⟩ | ⟨id, kind, ret, mem, now⟩
  · cases hstep
    exact ⟨hs.same, hs.tidy.enter hreturned entry.kind entry.puts,
      hs.covered.enter fun m hm => entry.puts_deleted hm⟩
  · cases hstep
    exact ⟨hs.same, hs.tidy.touch hook.run, hs.covered.touch hook.run⟩
  · -- The exit deletes all that the call put, whichever call the thread is in.
    have hall : ∀ m, s.stash.own id m ≠ none → m ∈ kind.deletes := by
      intro m hm
      unfold Stash.State.own at hm
      rcases hcurrent : s.stash.current id with _ | ⟨call, own⟩
      · rw [hcurrent] at hm
        exact absurd rfl hm
      · rw [hcurrent] at hm
        rw [← hallows call own hcurrent]
        exact hs.covered id call own hcurrent m hm
    cases hstep
    refine ⟨?_, hs.tidy.leave hall, hs.covered.leave kind.deletes⟩
    change s.handed ++ _ = s.given ++ _
    rw [hs.same, hs.tidy id]

end Probes

/-- **Each exit hands on its own.** In every run of the calls of any threads, what the exits hand on is
what each call alone would, all along the run, if and only if no exit would hand on something of what
calls left that did not come back. And if all come back before their thread makes the next, the maps hold
nothing but what the calls that are under way were given. -/
theorem handed_own_iff {ops : List ProbeOp} {s : Probes}
    (h : Run Probes.step Probes.Allows Probes.start ops s) :
    ((∀ front s', front <+: ops → Run Probes.step Probes.Allows Probes.start front s' →
        s'.handed = s'.given)
      ↔ Run Probes.step (fun s op => s.Allows op ∧ s.Clean op) Probes.start ops s)
    ∧ (Run Probes.step (fun s op => s.Allows op ∧ s.Returned op) Probes.start ops s →
      s.handed = s.given ∧ s.stash.Tidy) := by
  have hstart : Probes.start.Own := ⟨rfl, Stash.State.Kept.start⟩
  constructor
  · -- `Own` holds all along the run just if every step was clean.
    have hiff := Run.invariant_iff
      (fun s op s' hs _ hstep => Probes.step_own_iff hs hstep) h
    rw [and_iff_right hstart] at hiff
    rw [← hiff]
    constructor
    · intro hall front s' hfront hrun
      have hkept := hrun.invariant (I := fun s => s.stash.Kept) hstart.2
        fun s op s' hs _ hstep => Probes.step_kept hs hstep
      exact ⟨hall front s' hfront hrun, hkept⟩
    · exact fun hall front s' hfront hrun => (hall front s' hfront hrun).1
  · -- If every call came back there is nothing of others to find.
    intro hreturned
    have halone := hreturned.invariant (I := Probes.Alone)
      ⟨rfl, Stash.State.Tidy.start, Stash.State.Covered.start⟩
      fun s op s' hs hpre hstep => hs.step hpre.1 hpre.2 hstep
    exact ⟨halone.same, halone.tidy⟩

/-! ### A thread that reads -/

def enterRead : ProbeOp := .enter 7 (.read 3 4096 10)

def markRead : ProbeOp := .hook 7 .securitySocketRecvmsg

def exitRead : ProbeOp := .exit 7 .read 5 (fun _ => 0) 20

theorem reading_run : ∃ s, Run Probes.step (fun s op => s.Allows op ∧ s.Returned op) Probes.start
      [enterRead, markRead, exitRead] s
    ∧ s.handed = [.data 7 ⟨.syscallRead, true, 3, 4096, 0, 0, 0, 10, 20⟩ .ingress 5] := by
  have hentered : Run Probes.step (fun s op => s.Allows op ∧ s.Returned op) Probes.start
      [enterRead] _ := Run.nil.snoc ⟨trivial, rfl⟩ rfl
  have hmarked := hentered.snoc (i := markRead) ⟨trivial, trivial⟩ rfl
  refine ⟨_, hmarked.snoc (i := exitRead) ⟨?_, trivial⟩ rfl, rfl⟩
  intro call own hcurrent
  cases hcurrent
  rfl

theorem handed_own_iff_reading : ∃ s : Probes,
    s.handed = [.data 7 ⟨.syscallRead, true, 3, 4096, 0, 0, 0, 10, 20⟩ .ingress 5]
      ∧ s.handed = s.given ∧ s.stash.Tidy := by
  obtain ⟨s, hrun, hhanded⟩ := reading_run
  exact ⟨s, hhanded, (handed_own_iff (hrun.mono fun _ _ h => h.1)).2 hrun⟩

end Kyanos.Bpf
