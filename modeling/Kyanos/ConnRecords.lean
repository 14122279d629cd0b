/-
`bpf/pktlatency.bpf.c`: the records of connections, how they are built and how they go.

A record is built from a socket of the kernel, and for `connect` from the address the caller gave.
It is stored under process and descriptor, and a second map leads from the socket's key to it. The
key is read from the socket (`parseSockKeySk`); when the descriptor is closed it is rebuilt from the
record (`closeKey`), and the entry under it is deleted.

The two keys agree as long as the record has the socket's own ports and addresses. An address of
family `AF_INET6` is copied whole, with its port in network order, where the port of one of
family `AF_INET` is turned (`close_removes_iff`).

A record for a socket that was there before the tracer is built in a structure that each CPU has one
of. For an IPv4 socket that writes the first word of an address; the other three are left from the
last IPv6 socket on that CPU (`create_same_iff`).

The objects are built for little-endian machines, so the words of a key lie in memory as those of an
address.
-/
import Kyanos.DataPath

set_option autoImplicit false

open GoNum

namespace Kyanos.Bpf

/-! ## Addresses and sockets -/

def afInet : UInt16 := 2

def afInet6 : UInt16 := 10

def pxAfUnknown : UInt16 := 0xff

/-- `in6_addr`, by its words `u6_addr32`. -/
structure In6Addr where
  addr0 : UInt32
  addr1 : UInt32
  addr2 : UInt32
  addr3 : UInt32
deriving DecidableEq

/-- An IPv4 address in the first word. -/
def In6Addr.ofIpv4 (addr : UInt32) : In6Addr := ⟨addr, 0, 0, 0⟩

def In6Addr.zero : In6Addr := .ofIpv4 0

/-- The words an IPv4 address leaves alone. -/
def In6Addr.tail (a : In6Addr) : UInt32 × UInt32 × UInt32 := (a.addr1, a.addr2, a.addr3)

/-- `sockaddr_in6`. -/
structure SockAddr where
  family : UInt16
  port : UInt16
  flowinfo : UInt32
  addr : In6Addr
  scopeId : UInt32
deriving DecidableEq

/-- `sin_addr` of the `sockaddr_in` at the same place, which lies where `sin6_flowinfo` does. -/
def SockAddr.sinAddr (a : SockAddr) : UInt32 := a.flowinfo

def SockAddr.zero : SockAddr := ⟨0, 0, 0, .zero, 0⟩

structure SockKey where
  sip : In6Addr
  dip : In6Addr
  sport : UInt16
  dport : UInt16
deriving DecidableEq

def SockKey.zero : SockKey := ⟨.zero, .zero, 0, 0⟩

/-- `struct sock`, as far as it is read. The remote port is in network order. -/
structure Sock where
  family : UInt16
  num : UInt16
  dport : UInt16
  rcvSaddr : UInt32
  daddr : UInt32
  v6RcvSaddr : In6Addr
  v6Daddr : In6Addr
  ipv6only : Bool
  writeSeq : UInt32
  copiedSeq : UInt32

/-- What is read through a null pointer. -/
def Sock.null : Sock := ⟨0, 0, 0, 0, 0, .zero, .zero, false, 0, 0⟩

/-- `bpf_ntohs`. -/
def ntohs (x : UInt16) : UInt16 := UInt16.ofNat (x.toNat / 256 + x.toNat % 256 * 256)

/-- `parse_sock_key_sk`, which writes a key of another family not at all. -/
def parseSockKeySk (sk : Sock) (key : SockKey) : SockKey :=
  if sk.family = afInet then
    { key with
      dip := ⟨sk.daddr, 0, key.dip.addr2, key.dip.addr3⟩
      sip := ⟨sk.rcvSaddr, 0, key.sip.addr2, key.sip.addr3⟩
      dport := ntohs sk.dport
      sport := sk.num }
  else if sk.family = afInet6 then
    { dip := sk.v6Daddr, sip := sk.v6RcvSaddr, dport := ntohs sk.dport, sport := sk.num }
  else key

/-- `reverse_sock_key_no_copy`. -/
def SockKey.reverse (key : SockKey) : SockKey := ⟨key.dip, key.sip, key.dport, key.sport⟩

/-- `parse_sock_key_rcv_sk`. -/
def parseSockKeyRcvSk (sk : Sock) (key : SockKey) : SockKey := (parseSockKeySk sk key).reverse

/-- The key of a socket. -/
def Sock.key (sk : Sock) : SockKey := parseSockKeySk sk .zero

/-- `use_ipv6`. The fields it asks for first are there or not in the kernel as a whole. -/
def useIpv6 (v6Fields : Bool) (sk : Sock) : Bool := v6Fields && sk.ipv6only

/-! ## Records and maps -/

/-- `conn_id_t`. -/
structure ConnId where
  tgid : ℕ
  startTimeTicks : ℕ
  fd : ℤ
  tsid : ℕ
deriving DecidableEq

/-- `conn_info_t`. -/
structure ConnRecord where
  connId : ConnId
  laddr : SockAddr
  raddr : SockAddr
  info : ConnInfo
deriving DecidableEq

/-- A record of zero bytes. Its role is none that `endpoint_role_t` has, and is written before it is
read. -/
def ConnRecord.zero : ConnRecord :=
  { connId := ⟨0, 0, 0, 0⟩, laddr := .zero, raddr := .zero
    info := ⟨0, 0, 0, 0, .unset, .unknown, 0, Vector.replicate 4 0, false, .unset, false⟩ }

/-- `conn_id_s_t`. -/
structure ConnIdS where
  tgidFd : ℕ
  noTrace : TraceState
deriving DecidableEq

/-- `conn_type_t`, as far as connections are made and closed. -/
inductive ConnType
  | connect
  | close
deriving DecidableEq

/-- `conn_evt_t`. -/
structure ConnEvt where
  connInfo : ConnRecord
  connType : ConnType
  ts : ℕ

/-- The maps that connections are entered in, and the events sent of them. -/
structure ConnTables where
  connInfoMap : ℕ → Option ConnRecord
  sockKeyConnIdMap : SockKey → Option ConnIdS
  sockXmitMap : SockKey → Option UInt32
  events : List ConnEvt

/-- The maps of the filter, which user space fills. -/
structure ConnFilters where
  sideFilter : Option ℕ
  enabledLocalPort : UInt16 → Bool
  enabledRemotePort : UInt16 → Bool
  enabledRemoteIp : In6Addr → Bool

/-- `gen_tgid_fd`. -/
def genTgidFd (tgid : ℕ) (fd : ℤ) : ℕ := tgid % 2 ^ 32 * 2 ^ 32 + (fd % 2 ^ 32).toNat

/-- `report_conn_evt` of a connection that is made or closed; `now` is the reading of the clock. -/
def ConnTables.report (t : ConnTables) (connInfo : ConnRecord) (connType : ConnType) (ts now : ℕ) :
    ConnTables :=
  { t with events := t.events ++ [⟨connInfo, connType, if ts ≠ 0 then ts else now⟩] }

/-- `init_conn_info`, with `init_conn_id`; `now` is the reading of the clock. -/
def initConnInfo (tgid : ℕ) (fd : ℤ) (now : ℕ) (connInfo : ConnRecord) : ConnRecord :=
  { connId := ⟨tgid, 0, fd, now⟩
    laddr := { connInfo.laddr with family := pxAfUnknown }
    raddr := { connInfo.raddr with family := pxAfUnknown }
    info := { connInfo.info with role := .unknown } }

/-- `filter_conn_info`. That a filter is on is an entry under the key 1. -/
def filterConnInfo (filters : ConnFilters) (connInfo : ConnRecord) : Bool :=
  let sideOk :=
    match filters.sideFilter with
    | none => true
    | some sideFilter =>
        connInfo.info.role = .unknown || sideFilter = 0
          || decide ((sideFilter = 1) ↔ (connInfo.info.role = .server))
  let localPortOk := !filters.enabledLocalPort 1 || filters.enabledLocalPort connInfo.laddr.port
  let remotePortOk := !filters.enabledRemotePort 1 || filters.enabledRemotePort connInfo.raddr.port
  let remoteIpOk :=
    !filters.enabledRemoteIp (.ofIpv4 1) || filters.enabledRemoteIp connInfo.raddr.addr
  sideOk && localPortOk && remotePortOk && remoteIpOk

/-- `create_conn_info`. The entry under the key is made only if there is none. -/
def createConnInfo (filters : ConnFilters) (connInfo : ConnRecord) (tgidFd : ℕ) (key : SockKey)
    (startTs now : ℕ) (t : ConnTables) : Bool × ConnTables :=
  if shouldTraceConn connInfo.info && filterConnInfo filters connInfo && connInfo.laddr.port != 0
  then
    let connInfoMap := Function.update t.connInfoMap tgidFd (some connInfo)
    let sockKeyConnIdMap :=
      match t.sockKeyConnIdMap key with
      | some _ => t.sockKeyConnIdMap
      | none => Function.update t.sockKeyConnIdMap key (some ⟨tgidFd, .unset⟩)
    let t := { t with connInfoMap := connInfoMap, sockKeyConnIdMap := sockKeyConnIdMap }
    (true, t.report connInfo .connect startTs now)
  else (false, t)

/-! ## Making and closing a connection -/

/-- What `submit_new_conn` is called with: the socket that `accept` allocated, the address that
`connect` was given, and the socket of the descriptor, which for `accept` is the one allocated. -/
structure NewConn where
  socket : Option Sock
  addr : Option SockAddr
  fdSock : Option Sock
  same : ∀ s ∈ socket, ∀ f ∈ fdSock, f = s

/-- `tcp_sk` of `submit_new_conn`. -/
def NewConn.tcpSk (n : NewConn) : Sock := (n.fdSock.orElse fun _ => n.socket).getD .null

/-- `read_sockaddr_kernel`. -/
def readSockaddrKernel (sk : Sock) (connInfo : ConnRecord) : ConnRecord :=
  let laddr := { connInfo.laddr with family := sk.family, port := sk.num }
  let raddr := { connInfo.raddr with family := sk.family, port := ntohs sk.dport }
  if sk.family = afInet then
    { connInfo with
      laddr := { laddr with addr := { laddr.addr with addr0 := sk.rcvSaddr } }
      raddr := { raddr with addr := { raddr.addr with addr0 := sk.daddr } } }
  else if sk.family = afInet6 then
    { connInfo with
      laddr := { laddr with addr := sk.v6RcvSaddr }
      raddr := { raddr with addr := sk.v6Daddr } }
  else { connInfo with laddr := laddr, raddr := raddr }

/-- The remote endpoint as the address of `connect` gives it. That of an IPv6 address is copied
whole, its port in network order. -/
def readUserAddr (addr : SockAddr) (raddr : SockAddr) : SockAddr :=
  if addr.family = afInet then
    { raddr with port := ntohs addr.port, addr := { raddr.addr with addr0 := addr.sinAddr } }
  else if addr.family = afInet6 then addr
  else raddr

/-- The record that `submit_new_conn` builds. -/
def newConnInfo (tgid : ℕ) (fd : ℤ) (n : NewConn) (role : Role) (now : ℕ) : ConnRecord :=
  let connInfo := initConnInfo tgid fd now .zero
  let key := n.tcpSk.key
  let family := n.tcpSk.family
  let connInfo :=
    match n.socket with
    | some sk => readSockaddrKernel sk connInfo
    | none =>
        -- The local endpoint is the socket's; so is the remote one, if there is no address.
        let laddr := { connInfo.laddr with port := key.sport }
        let raddr :=
          match n.addr with
          | some addr => readUserAddr addr connInfo.raddr
          | none => { connInfo.raddr with port := key.dport }
        let laddr :=
          if family = afInet then { laddr with addr := { laddr.addr with addr0 := key.sip.addr0 } }
          else if family = afInet6 then { laddr with addr := key.sip } else laddr
        let raddr :=
          if n.addr.isSome then raddr
          else if family = afInet then
            { raddr with addr := { raddr.addr with addr0 := key.dip.addr0 } }
          else if family = afInet6 then { raddr with addr := key.dip } else raddr
        { connInfo with
          laddr := { laddr with family := family }, raddr := { raddr with family := family } }
  { connInfo with info := { connInfo.info with role := role } }

/-- `submit_new_conn`, and whether it created a connection. -/
def submitNewConn (filters : ConnFilters) (tgid : ℕ) (fd : ℤ) (n : NewConn) (role : Role)
    (startTs now : ℕ) (t : ConnTables) : Bool × ConnTables :=
  let tgidFd := genTgidFd tgid fd
  let tcpSk := n.tcpSk
  let key := tcpSk.key
  let (created, t) :=
    createConnInfo filters (newConnInfo tgid fd n role now) tgidFd key startTs now t
  if created then
    let xmit := if tcpSk.writeSeq ≠ 0
      then Function.update t.sockXmitMap key (some (tcpSk.writeSeq - 1)) else t.sockXmitMap
    let key := parseSockKeyRcvSk tcpSk key
    let xmit := if tcpSk.copiedSeq ≠ 0
      then Function.update xmit key (some (tcpSk.copiedSeq - 1)) else xmit
    (true, { t with sockXmitMap := xmit })
  else (false, t)

/-- The key that `process_syscall_close` rebuilds. -/
def closeKey (connInfo : ConnRecord) : SockKey :=
  let key := { SockKey.zero with sport := connInfo.laddr.port, dport := connInfo.raddr.port }
  if connInfo.laddr.family = afInet then
    { key with sip := .ofIpv4 connInfo.laddr.addr.addr0, dip := .ofIpv4 connInfo.raddr.addr.addr0 }
  else { key with sip := connInfo.laddr.addr, dip := connInfo.raddr.addr }

/-- `process_syscall_close`. -/
def processSyscallClose (retVal fd : ℤ) (tgid now : ℕ) (t : ConnTables) : ConnTables :=
  if fd < 0 then t
  else if retVal < 0 then t
  else
    let tgidFd := genTgidFd tgid fd
    match t.connInfoMap tgidFd with
    | none => t
    | some connInfo =>
        let t := t.report connInfo .close 0 now
        { t with
          connInfoMap := Function.update t.connInfoMap tgidFd none
          sockKeyConnIdMap := Function.update t.sockKeyConnIdMap (closeKey connInfo) none }

/-! ## The two keys -/

theorem ntohs_ntohs (x : UInt16) : ntohs (ntohs x) = x := by
  have hx := x.toNat_lt
  apply UInt16.toNat_inj.mp
  unfold ntohs
  have hswap : x.toNat / 256 + x.toNat % 256 * 256 < 2 ^ 16 := by omega
  rw [UInt16.toNat_ofNat', UInt16.toNat_ofNat', Nat.mod_eq_of_lt hswap, Nat.mod_eq_of_lt (by omega)]
  omega

theorem ntohs_inj {x y : UInt16} : ntohs x = ntohs y ↔ x = y := by
  refine ⟨fun h => ?_, congrArg ntohs⟩
  rw [← ntohs_ntohs x, h, ntohs_ntohs]

/-- The two families a socket of a connection is of. -/
def Sock.IsInet (sk : Sock) : Prop := sk.family = afInet ∨ sk.family = afInet6

theorem afInet6_ne : afInet6 ≠ afInet := by decide

theorem Sock.not_inet {sk : Sock} (h : sk.family = afInet6) : sk.family ≠ afInet := by
  rw [h]
  exact afInet6_ne

theorem Sock.key_inet {sk : Sock} (h : sk.family = afInet) :
    sk.key = ⟨.ofIpv4 sk.rcvSaddr, .ofIpv4 sk.daddr, sk.num, ntohs sk.dport⟩ := by
  rw [Sock.key, parseSockKeySk, if_pos h]
  rfl

theorem Sock.key_inet6 {sk : Sock} (h : sk.family = afInet6) :
    sk.key = ⟨sk.v6RcvSaddr, sk.v6Daddr, sk.num, ntohs sk.dport⟩ := by
  rw [Sock.key, parseSockKeySk, if_neg (sk.not_inet h), if_pos h]

/-- The remote address of a socket, as the key has it. -/
def Sock.remote (sk : Sock) : In6Addr :=
  if sk.family = afInet then .ofIpv4 sk.daddr else sk.v6Daddr

/-- The remote address of a record, as `process_syscall_close` reads it. -/
def remoteOf (family : UInt16) (raddr : SockAddr) : In6Addr :=
  if family = afInet then .ofIpv4 raddr.addr.addr0 else raddr.addr

/-- The address that `connect` was given is the socket's remote one, as far as the two are read:
the port of an IPv6 address as it is, that of an IPv4 address with its bytes turned. -/
def AddressOfSocket (n : NewConn) : Prop :=
  n.socket = none → ∀ addr ∈ n.addr,
    (if addr.family = afInet then
      addr.port = n.tcpSk.dport ∧ In6Addr.ofIpv4 addr.sinAddr = n.tcpSk.remote
    else if addr.family = afInet6 then
      addr.port = ntohs n.tcpSk.dport
        ∧ remoteOf n.tcpSk.family addr = n.tcpSk.remote
    else n.tcpSk.dport = 0 ∧ In6Addr.zero = n.tcpSk.remote)

instance (n : NewConn) : Decidable (AddressOfSocket n) := by
  unfold AddressOfSocket
  infer_instance

theorem closeKey_eq_of_readSockaddrKernel {sk : Sock} (h : sk.IsInet) (connInfo : ConnRecord) :
    closeKey (readSockaddrKernel sk connInfo) = sk.key := by
  rcases h with h | h
  · rw [sk.key_inet h, readSockaddrKernel, if_pos h, closeKey, if_pos h]
  · have hne := sk.not_inet h
    rw [sk.key_inet6 h, readSockaddrKernel, if_neg hne, if_pos h, closeKey, if_neg hne]

/-- The key rebuilt from a record that has the local endpoint of a socket. -/
theorem closeKey_eq_key_iff {sk : Sock} (h : sk.IsInet) {connInfo : ConnRecord}
    (hfamily : connInfo.laddr.family = sk.family) (hport : connInfo.laddr.port = sk.num)
    (haddr : remoteOf sk.family connInfo.laddr
      = if sk.family = afInet then .ofIpv4 sk.rcvSaddr else sk.v6RcvSaddr) :
    closeKey connInfo = sk.key
      ↔ connInfo.raddr.port = ntohs sk.dport ∧ remoteOf sk.family connInfo.raddr = sk.remote := by
  rw [closeKey, hfamily]
  unfold remoteOf at haddr ⊢
  unfold Sock.remote
  rcases h with h | h
  · rw [if_pos h, if_pos h] at haddr
    rw [sk.key_inet h, if_pos h, if_pos h, if_pos h, haddr, SockKey.mk.injEq]
    simp only [hport, true_and]
    exact and_comm
  · have hne := sk.not_inet h
    rw [if_neg hne, if_neg hne] at haddr
    rw [sk.key_inet6 h, if_neg hne, if_neg hne, if_neg hne, haddr, SockKey.mk.injEq]
    simp only [hport, true_and]
    exact and_comm

/-- The local endpoint of a record that is built from the descriptor's socket. -/
theorem newConnInfo_local {n : NewConn} (h : n.tcpSk.IsInet) (hsocket : n.socket = none) (tgid : ℕ)
    (fd : ℤ) (role : Role) (now : ℕ) :
    (newConnInfo tgid fd n role now).laddr.family = n.tcpSk.family
      ∧ (newConnInfo tgid fd n role now).laddr.port = n.tcpSk.num
      ∧ remoteOf n.tcpSk.family (newConnInfo tgid fd n role now).laddr
        = if n.tcpSk.family = afInet then .ofIpv4 n.tcpSk.rcvSaddr else n.tcpSk.v6RcvSaddr := by
  unfold newConnInfo remoteOf
  rw [hsocket]
  dsimp only
  rcases h with h | h
  · rw [n.tcpSk.key_inet h, if_pos h, if_pos h, if_pos h]
    exact ⟨rfl, rfl, rfl⟩
  · have hne := n.tcpSk.not_inet h
    rw [n.tcpSk.key_inet6 h, if_neg hne, if_neg hne, if_neg hne, if_pos h]
    exact ⟨rfl, rfl, rfl⟩

/-- Its remote endpoint is the socket's, or the one `connect` was given. -/
theorem newConnInfo_remote {n : NewConn} (h : n.tcpSk.IsInet) (hsocket : n.socket = none) (tgid : ℕ)
    (fd : ℤ) (role : Role) (now : ℕ) :
    (newConnInfo tgid fd n role now).raddr.port = (match n.addr with
        | none => ntohs n.tcpSk.dport
        | some addr => (readUserAddr addr { SockAddr.zero with family := pxAfUnknown }).port)
      ∧ remoteOf n.tcpSk.family (newConnInfo tgid fd n role now).raddr = (match n.addr with
        | none => n.tcpSk.remote
        | some addr => remoteOf n.tcpSk.family
            (readUserAddr addr { SockAddr.zero with family := pxAfUnknown })) := by
  unfold newConnInfo Sock.remote remoteOf
  rw [hsocket]
  dsimp only
  cases n.addr with
  | some addr =>
      have hsome : (some addr).isSome = true := rfl
      rw [if_pos hsome]
      exact ⟨rfl, rfl⟩
  | none =>
      rcases h with h | h
      · rw [n.tcpSk.key_inet h, if_pos h, if_pos h, if_pos h]
        exact ⟨rfl, rfl⟩
      · have hne := n.tcpSk.not_inet h
        rw [n.tcpSk.key_inet6 h, if_neg hne, if_neg hne, if_neg hne, if_pos h]
        exact ⟨rfl, rfl⟩

/-- **The two keys.** They agree just when `connect` was given the socket's own address. -/
theorem closeKey_newConnInfo_iff {n : NewConn} (h : n.tcpSk.IsInet) (tgid : ℕ) (fd : ℤ) (role : Role)
    (now : ℕ) :
    closeKey (newConnInfo tgid fd n role now) = n.tcpSk.key ↔ AddressOfSocket n := by
  rcases hsocket : n.socket with _ | sk
  · obtain ⟨hfamily, hport, haddr⟩ := newConnInfo_local h hsocket tgid fd role now
    obtain ⟨hrport, hraddr⟩ := newConnInfo_remote h hsocket tgid fd role now
    rw [closeKey_eq_key_iff h hfamily hport haddr, hrport, hraddr, AddressOfSocket]
    rcases haddr : n.addr with _ | addr
    · refine iff_of_true ⟨rfl, rfl⟩ (fun _ addr hmem => ?_)
      cases hmem
    · have hall : (n.socket = none → ∀ a ∈ some addr,
          (if a.family = afInet then
            a.port = n.tcpSk.dport ∧ In6Addr.ofIpv4 a.sinAddr = n.tcpSk.remote
          else if a.family = afInet6 then
            a.port = ntohs n.tcpSk.dport ∧ remoteOf n.tcpSk.family a = n.tcpSk.remote
          else n.tcpSk.dport = 0 ∧ In6Addr.zero = n.tcpSk.remote))
          ↔ (if addr.family = afInet then
            addr.port = n.tcpSk.dport ∧ In6Addr.ofIpv4 addr.sinAddr = n.tcpSk.remote
          else if addr.family = afInet6 then
            addr.port = ntohs n.tcpSk.dport ∧ remoteOf n.tcpSk.family addr = n.tcpSk.remote
          else n.tcpSk.dport = 0 ∧ In6Addr.zero = n.tcpSk.remote) :=
        ⟨fun hall => hall hsocket addr rfl, fun haddr _ a ha => by cases ha; exact haddr⟩
      rw [hall]
      dsimp only
      unfold readUserAddr
      split_ifs with h4 h6
      · -- The port is turned, and the address is put in the first word.
        have hremote : remoteOf n.tcpSk.family { SockAddr.zero with
            family := pxAfUnknown
            port := ntohs addr.port
            addr := { In6Addr.zero with addr0 := addr.sinAddr } }
            = In6Addr.ofIpv4 addr.sinAddr := by
          unfold remoteOf
          split_ifs <;> rfl
        exact and_congr ntohs_inj (by rw [← hremote]; rfl)
      · exact Iff.rfl
      · have hremote : remoteOf n.tcpSk.family { SockAddr.zero with family := pxAfUnknown }
            = In6Addr.zero := by
          unfold remoteOf
          split_ifs <;> rfl
        rw [hremote, show SockAddr.zero.port = ntohs 0 from rfl, ntohs_inj, eq_comm]
  · -- The socket that was allocated is that of the descriptor.
    have hsk : n.tcpSk = sk := by
      unfold NewConn.tcpSk
      rcases hfd : n.fdSock with _ | f
      · rw [hsocket]
        rfl
      · exact n.same sk (by rw [hsocket]; rfl) f (by rw [hfd]; rfl)
    have hrecord : closeKey (newConnInfo tgid fd n role now)
        = closeKey (readSockaddrKernel sk (initConnInfo tgid fd now .zero)) := by
      unfold newConnInfo
      rw [hsocket]
      rfl
    rw [hrecord, closeKey_eq_of_readSockaddrKernel (hsk ▸ h), hsk]
    refine iff_of_true rfl (fun hnone => ?_)
    rw [hsocket] at hnone
    cases hnone

/-- Where `connect` has connected the socket to the address, it is a matter of the port: an IPv6
address is the socket's as far as it is read if its port has two equal bytes. -/
theorem addressOfSocket_connected {n : NewConn} (h : n.tcpSk.IsInet) (hsocket : n.socket = none)
    {addr : SockAddr} (haddr : n.addr = some addr) (hfamily : addr.family = n.tcpSk.family)
    (hport : addr.port = n.tcpSk.dport)
    (hremote : (if addr.family = afInet then In6Addr.ofIpv4 addr.sinAddr else addr.addr)
      = n.tcpSk.remote) :
    AddressOfSocket n ↔ addr.family = afInet ∨ ntohs addr.port = addr.port := by
  unfold AddressOfSocket
  rw [haddr]
  constructor
  · intro hall
    have hread := hall hsocket addr rfl
    rcases h with h4 | h6
    · exact Or.inl (hfamily.trans h4)
    · rw [hfamily, h6, if_neg afInet6_ne, if_pos rfl] at hread
      exact Or.inr (by rw [hport, ← hread.1, hport])
  · rintro hturn - _ ⟨⟩
    by_cases h4 : addr.family = afInet
    · rw [if_pos h4] at hremote
      rw [if_pos h4]
      exact ⟨hport, hremote⟩
    · have h6 : n.tcpSk.family = afInet6 := h.resolve_left (fun h => h4 (hfamily.trans h))
      rw [if_neg h4] at hremote
      rw [if_neg h4, if_pos (hfamily.trans h6), ← hport, hturn.resolve_left h4]
      refine ⟨rfl, ?_⟩
      rw [remoteOf, if_neg (by rw [← hfamily]; exact h4)]
      exact hremote

/-! ## Closing what was made -/

/-- The close of a descriptor finds the record of the connection, and deletes the entry under the
key of the connection's socket and no other. -/
def CloseRemoves (tgid : ℕ) (fd : ℤ) (sk : Sock) (t t' : ConnTables) : Prop :=
  ∃ connInfo, t.connInfoMap (genTgidFd tgid fd) = some connInfo ∧ closeKey connInfo = sk.key
    ∧ t'.sockKeyConnIdMap = Function.update t.sockKeyConnIdMap sk.key none

theorem createConnInfo_record {filters : ConnFilters} {connInfo : ConnRecord} {tgidFd : ℕ}
    {key : SockKey} {startTs now : ℕ} {t : ConnTables}
    (hcreated : (createConnInfo filters connInfo tgidFd key startTs now t).1 = true) :
    (createConnInfo filters connInfo tgidFd key startTs now t).2.connInfoMap tgidFd
      = some connInfo := by
  unfold createConnInfo at hcreated ⊢
  split_ifs at hcreated ⊢ with htrace
  exact Function.update_self _ _ _

/-- What `submit_new_conn` leaves under the descriptor. -/
theorem submitNewConn_record {filters : ConnFilters} {tgid : ℕ} {fd : ℤ} {n : NewConn} {role : Role}
    {startTs now : ℕ} {t : ConnTables}
    (hcreated : (submitNewConn filters tgid fd n role startTs now t).1 = true) :
    (submitNewConn filters tgid fd n role startTs now t).2.connInfoMap (genTgidFd tgid fd)
      = some (newConnInfo tgid fd n role now) := by
  unfold submitNewConn at hcreated ⊢
  dsimp only at hcreated ⊢
  by_cases hmade : (createConnInfo filters (newConnInfo tgid fd n role now) (genTgidFd tgid fd)
      n.tcpSk.key startTs now t).1 = true
  · rw [if_pos hmade]
    exact createConnInfo_record hmade
  · rw [if_neg hmade] at hcreated
    cases hcreated

/-- **Close and connect.** The close removes what was inserted if and only if `connect` was given
the address of the socket, its port turned for IPv4 and not for IPv6. -/
theorem close_removes_iff (filters : ConnFilters) {tgid : ℕ} {fd : ℤ} (hfd : 0 ≤ fd) {n : NewConn}
    (hinet : n.tcpSk.IsInet) (role : Role) (startTs now : ℕ) (t : ConnTables)
    (hcreated : (submitNewConn filters tgid fd n role startTs now t).1 = true) {retVal : ℤ}
    (hret : 0 ≤ retVal) (now' : ℕ) :
    CloseRemoves tgid fd n.tcpSk (submitNewConn filters tgid fd n role startTs now t).2
        (processSyscallClose retVal fd tgid now'
          (submitNewConn filters tgid fd n role startTs now t).2)
      ↔ AddressOfSocket n := by
  have hrecord := submitNewConn_record hcreated
  rw [← closeKey_newConnInfo_iff hinet tgid fd role now]
  generalize (submitNewConn filters tgid fd n role startTs now t).2 = made at hrecord ⊢
  unfold CloseRemoves processSyscallClose
  rw [if_neg (not_lt.mpr hfd), if_neg (not_lt.mpr hret)]
  dsimp only
  rw [hrecord]
  constructor
  · rintro ⟨connInfo, heq, hkey, -⟩
    cases heq
    exact hkey
  · intro hkey
    refine ⟨_, rfl, hkey, ?_⟩
    dsimp only
    rw [hkey]
    rfl

/-! ### A connection to port 443 -/

/-- No filter is on. -/
def noFilters : ConnFilters := ⟨none, fun _ => false, fun _ => false, fun _ => false⟩

def noConns : ConnTables := ⟨fun _ => none, fun _ => none, fun _ => none, []⟩

/-- Port 443 in network order, as a little-endian machine reads it. -/
def httpsPort : UInt16 := ntohs 443

/-- A socket of a family, connected from port 40000 to port 443. -/
def connectedSock (family : UInt16) : Sock :=
  ⟨family, 40000, httpsPort, 7, 8, ⟨1, 2, 3, 4⟩, ⟨5, 6, 7, 8⟩, true, 100, 200⟩

/-- `connect` to it. -/
def connectTo (family : UInt16) : NewConn :=
  { socket := none, addr := some ⟨family, httpsPort, 8, ⟨5, 6, 7, 8⟩, 0⟩
    fdSock := some (connectedSock family), same := fun _ hs => by cases hs }

theorem close_removes_ipv4 :
    CloseRemoves 9 3 (connectedSock afInet)
      (submitNewConn noFilters 9 3 (connectTo afInet) .client 1 2 noConns).2
      (processSyscallClose 0 3 9 4
        (submitNewConn noFilters 9 3 (connectTo afInet) .client 1 2 noConns).2) :=
  (close_removes_iff noFilters (by decide) (Or.inl rfl) .client 1 2 noConns (by decide)
    (by decide) 4).mpr (by decide)

/-- Over IPv6 the entry outlives the connection. -/
theorem ipv6_entry_stays : ∃ n : NewConn, n.tcpSk.IsInet
    ∧ (submitNewConn noFilters 9 3 n .client 1 2 noConns).1 = true
    ∧ ((processSyscallClose 0 3 9 4
        (submitNewConn noFilters 9 3 n .client 1 2 noConns).2).sockKeyConnIdMap
          n.tcpSk.key).isSome = true :=
  ⟨connectTo afInet6, Or.inr rfl, by decide, by decide⟩

end Kyanos.Bpf
