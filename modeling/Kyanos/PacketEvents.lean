/-
`bpf/pktlatency.bpf.c`: packets on their way, and where in the stream they are.

A packet is seen at several places between the application and the device. `parse_skb` reads its
headers, where the kernel has no socket beside it, translates the addresses back if the device sees
others than the application, looks up the sequence number the stream starts at, and reports the payload
by its distance from there. `__ip_queue_xmit` and the copy to user space have their own ways to the same
numbers.

Where a stream starts is entered when the connection is, or by the first packet the device receives:
the number of a SYN, or one before that of any other packet. So the positions count from 1, as those of
the system calls do.

`packets_at_positions` says that over every run the events of a connection are its packets, and
each is at its place in the stream.
-/
import Kyanos.ConnScratch
import Kyanos.LatencyBreakdown

set_option autoImplicit false

open GoNum

namespace Kyanos

namespace AgentStepT

def ipOut : AgentStepT := 4

def ipIn : AgentStepT := 10

end AgentStepT

namespace Bpf

/-! ## Reading headers -/

/-- A `u16` as a little-endian machine reads it. -/
def readU16 (m : Memory) (offset : ℕ) : UInt16 := UInt16.ofNat (littleEndian (m.read offset 2))

def readU32 (m : Memory) (offset : ℕ) : UInt32 := UInt32.ofNat (littleEndian (m.read offset 4))

def readIn6Addr (m : Memory) (offset : ℕ) : In6Addr :=
  ⟨readU32 m offset, readU32 m (offset + 4), readU32 m (offset + 8), readU32 m (offset + 12)⟩

/-- `bpf_ntohl` of a word. -/
def ntohl32 (x : UInt32) : UInt32 := UInt32.ofNat (ntohl x.toNat)

def ethPIp : UInt16 := 0x0800

def ethPIpv6 : UInt16 := 0x86DD

def ipprotoIpip : UInt8 := 4

def ipprotoTcp : UInt8 := 6

/-- `sk_buff`, as far as it is read. `addrpair` is that of its socket, and not zero. -/
structure SkBuff where
  head : Memory
  networkHeader : UInt16
  macHeader : UInt16
  transportHeader : UInt16
  protocol : UInt16
  sk : Option Sock
  addrpair : Bool
  ifindex : ℕ

/-- `skb_l2_check`, which fails where there is a link layer header. -/
def skbL2Check (header : UInt16) : Bool := header == 0 || header == 0xFFFF

/-- `skb_l4_check`, which fails where the transport header is known. -/
def skbL4Check (l4 l3 : UInt16) : Bool := l4 == 0xFFFF || l4 ≤ l3

/-- `get_ip_header_len`. -/
def getIpHeaderLen (h : UInt8) : ℕ := max (h.toNat % 16 * 4) 20

/-- The two protocols that go on. -/
def ipOnly (protocol : UInt16) : Option UInt16 :=
  if protocol = ethPIp ∨ protocol = ethPIpv6 then some protocol else none

/-- What `parse_skb` takes the network protocol from: a link layer header that does not lie behind the
network header, and the packet itself where there is none. -/
def SkBuff.l3Proto (skb : SkBuff) : Option UInt16 :=
  if !skbL2Check skb.macHeader then
    -- On a tunnel device the two headers are one, and the packet is taken to be one of IPv4.
    if skb.networkHeader ≠ 0 ∧ skb.networkHeader ≤ skb.macHeader then some ethPIp
    else if skb.macHeader ≠ skb.networkHeader then
      ipOnly (ntohs (readU16 skb.head (skb.macHeader.toNat + 12)))
    else none
  else ipOnly (ntohs skb.protocol)

/-- What the network header says: where it is, where the transport header is, the protocol of that and
how long the two are. -/
structure NetworkView where
  ip : ℕ
  l4 : ℕ
  protoL4 : UInt8
  tcpLen : UInt32

/-- The part of `parse_skb` that reads the network header. Behind one of IPv4 in IPv4 the second header
is taken to be as long as the first. -/
def SkBuff.network (skb : SkBuff) (l3Proto : UInt16) : NetworkView :=
  let ip := skb.networkHeader.toNat
  let l4 :=
    if skbL4Check skb.transportHeader skb.networkHeader then none else some skb.transportHeader.toNat
  if l3Proto = ethPIp then
    let len := UInt32.ofNat (ntohs (readU16 skb.head (ip + 2))).toNat
    let ipHdrLen := getIpHeaderLen (skb.head ip)
    let tcpLen := len - UInt32.ofNat ipHdrLen
    if skb.head (ip + 9) = ipprotoIpip then
      { ip := ip + ipHdrLen, l4 := ip + ipHdrLen + ipHdrLen, protoL4 := skb.head (ip + ipHdrLen + 9)
        tcpLen := tcpLen - UInt32.ofNat ipHdrLen }
    else { ip := ip, l4 := l4.getD (ip + ipHdrLen), protoL4 := skb.head (ip + 9), tcpLen := tcpLen }
  else
    { ip := ip, l4 := l4.getD (ip + 40), protoL4 := skb.head (ip + 6)
      tcpLen := UInt32.ofNat (ntohs (readU16 skb.head (ip + 4))).toNat }

/-- `parse_sock_key_from_ipv4_tcp_hdr` and `parse_sock_key_from_ipv6_tcp_hdr`. -/
def headerKey (m : Memory) (l3Proto : UInt16) (v : NetworkView) (key : SockKey) : SockKey :=
  let sport := ntohs (readU16 m v.l4)
  let dport := ntohs (readU16 m (v.l4 + 2))
  if l3Proto = ethPIp then
    { sip := ⟨readU32 m (v.ip + 12), 0, key.sip.addr2, key.sip.addr3⟩
      dip := ⟨readU32 m (v.ip + 16), 0, key.dip.addr2, key.dip.addr3⟩, sport := sport, dport := dport }
  else
    { sip := readIn6Addr m (v.ip + 8), dip := readIn6Addr m (v.ip + 24), sport := sport, dport := dport }

/-! ## Events -/

/-- `kern_evt`, as far as the packets write it. -/
structure PacketEvt where
  connIdS : ConnIdS
  ts : ℕ
  seq : UInt32
  len : UInt32
  flags : UInt8
  ifindex : ℕ
  step : AgentStepT

/-- `first_packet_evt`. -/
structure FirstPacketEvt where
  key : SockKey
  ts : ℕ
  len : UInt32
  flags : UInt8
  ifindex : ℕ
  step : AgentStepT

/-- What is sent to user space. -/
inductive NetEvent
  | kern (evt : PacketEvt)
  | firstPacket (evt : FirstPacketEvt)

/-- The maps, the part of `kern_evt_t_map` that a report may leave, and what was sent. -/
structure NetState where
  tables : ConnTables
  natFlowMap : SockKey → Option SockKey
  slotFlags : UInt8
  slotIfindex : ℕ
  sent : List NetEvent

/-- The connection of a key, if its events are asked for. -/
def ConnTables.reported (t : ConnTables) (key : SockKey) : Option ConnIdS :=
  match t.sockKeyConnIdMap key with
  | none => none
  | some connIdS =>
      if connIdS.noTrace.atMostTraceable then
        match t.connInfoMap connIdS.tgidFd with
        | none => none
        | some connInfo => if connInfo.info.protocol = .unknown then none else some connIdS
      else none

/-- `parse_kern_evt_body`, which leaves the flags and the interface of the event before. -/
def parseKernEvtBody (key : SockKey) (curSeq len : UInt32) (step : AgentStepT) (now : ℕ) (s : NetState) :
    NetState :=
  match s.tables.reported key with
  | none => s
  | some connIdS =>
      { s with sent := s.sent ++ [.kern
          { connIdS := connIdS, ts := now, seq := curSeq, len := len, flags := s.slotFlags
            ifindex := s.slotIfindex, step := step }] }

/-- `report_kern_evt`, for the TCP header at an offset. -/
def reportKernEvt (initalSeq : UInt32) (key : SockKey) (m : Memory) (tcp : ℕ) (len : UInt32)
    (step : AgentStepT) (ifindex now : ℕ) (s : NetState) : NetState :=
  let relativeSeq := ntohl32 (readU32 m (tcp + 4)) - initalSeq
  let hdrLen := (m (tcp + 12)).toNat / 16 * 4
  let lenMinusHdr := len - UInt32.ofNat hdrLen
  let flags := m (tcp + 13)
  match s.tables.reported key with
  | some connIdS =>
      { s with
        slotFlags := flags, slotIfindex := ifindex
        sent := s.sent ++ [.kern
          { connIdS := connIdS, ts := now, seq := relativeSeq, len := lenMinusHdr, flags := flags
            ifindex := ifindex, step := step }] }
  | none =>
      if s.tables.sockKeyConnIdMap key = none ∧ relativeSeq = 1 ∧ lenMinusHdr > 0
          ∧ (step = AgentStepT.devIn ∨ step = AgentStepT.tcpIn) then
        { s with sent := s.sent ++ [.firstPacket
            { key := key, ts := now, len := lenMinusHdr, flags := flags, ifindex := ifindex
              step := step }] }
      else s

/-! ## The probes -/

/-- The key and the start of the stream of a packet that has its socket already; none, if the socket has
no entry. A packet without one has key and start 0. -/
def skOrigin (skb : SkBuff) (skNotReady : Bool) (s : NetState) : Option (SockKey × UInt32) :=
  match skb.sk with
  | none => some (.zero, 0)
  | some sk =>
      if skb.addrpair && !skNotReady then (s.tables.sockXmitMap sk.key).map fun seq => (sk.key, seq)
      else some (.zero, 0)

/-- The start of a stream that is seen for the first time. A SYN is before its first byte. -/
def firstSeq (m : Memory) (tcp : ℕ) : UInt32 :=
  let seq := ntohl32 (readU32 m (tcp + 4))
  if m (tcp + 13) &&& 2 = 0 then seq - 1 else seq

/-- The same by the headers. What the device receives is entered, if there is no entry. -/
def headerOrigin (skb : SkBuff) (l3Proto : UInt16) (v : NetworkView) (key : SockKey) (step : AgentStepT)
    (s : NetState) : Option (SockKey × UInt32 × NetState) :=
  let key := headerKey skb.head l3Proto v key
  let key :=
    if step = AgentStepT.devIn ∨ step = AgentStepT.devOut then (s.natFlowMap key).getD key else key
  match s.tables.sockXmitMap key with
  | some seq => some (key, seq, s)
  | none =>
      if step = AgentStepT.devIn then
        let seq := firstSeq skb.head v.l4
        let xmit := Function.update s.tables.sockXmitMap key (some seq)
        some (key, seq, { s with tables := { s.tables with sockXmitMap := xmit } })
      else none

/-- `parse_skb`. -/
def parseSkb (skb : SkBuff) (skNotReady : Bool) (step : AgentStepT) (now : ℕ) (s : NetState) :
    NetState :=
  match skOrigin skb skNotReady s with
  | none => s
  | some (key, initalSeq) =>
      match skb.l3Proto with
      | none => s
      | some l3Proto =>
          let v := skb.network l3Proto
          if v.protoL4 = ipprotoTcp then
            match if initalSeq = 0 then headerOrigin skb l3Proto v key step s
              else some (key, initalSeq, s) with
            | none => s
            | some (key, initalSeq, s) =>
                let key := if step ≥ AgentStepT.nicIn then key.reverse else key
                reportKernEvt initalSeq key skb.head v.l4 v.tcpLen step skb.ifindex now s
          else s

/-- `handle_ip_queue_xmit`, for a packet of a socket whose TCP header is at `data`. -/
def handleIpQueueXmit (sk : Sock) (data : Memory) (len : UInt32) (now : ℕ) (s : NetState) : NetState :=
  match s.tables.sockXmitMap sk.key with
  | none => s
  | some initalSeq => reportKernEvt initalSeq sk.key data 0 len AgentStepT.ipOut 0 now s

/-- `handle_skb_data_copy`, for a packet that starts with the sequence number `cbSeq`. -/
def handleSkbDataCopy (sk : Sock) (cbSeq offset len : UInt32) (now : ℕ) (s : NetState) : NetState :=
  let key := parseSockKeyRcvSk sk .zero
  match s.tables.sockXmitMap key with
  | none => s
  | some initalSeq =>
      parseKernEvtBody key.reverse (cbSeq + offset - initalSeq) len AgentStepT.userCopy now s

/-- `nf_conntrack_tuple`, its ports in network order. -/
structure NfConntrackTuple where
  src : In6Addr
  dst : In6Addr
  srcPort : UInt16
  dstPort : UInt16

/-- `parse_conntrack_tuple`. -/
def parseConntrackTuple (tuple : NfConntrackTuple) : SockKey :=
  ⟨tuple.src, tuple.dst, ntohs tuple.srcPort, ntohs tuple.dstPort⟩

/-- `handle_nat`, for the two tuples of a tracked connection. Either flow before the translation leads to
the one behind it. -/
def handleNat (origTuple replyTuple : NfConntrackTuple) (nat : SockKey → Option SockKey) :
    SockKey → Option SockKey :=
  let orig := parseConntrackTuple origTuple
  let reply := parseConntrackTuple replyTuple
  let nat := Function.update nat orig.reverse (some reply)
  Function.update nat orig (some reply.reverse)

/-- `tcp_destroy_sock`. The local port is read from the other place that has it. -/
def tcpDestroySock (sk : Sock) (inetSport : UInt16) (now : ℕ) (t : ConnTables) : ConnTables :=
  let key := { sk.key with sport := ntohs inetSport }
  let t := { t with sockXmitMap := Function.update t.sockXmitMap key none }
  match t.sockKeyConnIdMap key with
  | none => t
  | some connIdS =>
      let t :=
        match t.connInfoMap connIdS.tgidFd with
        | none => t
        | some connInfo => t.report connInfo .close 0 now
      { t with
        connInfoMap := Function.update t.connInfoMap connIdS.tgidFd none
        sockKeyConnIdMap := Function.update t.sockKeyConnIdMap key none }

/-! ## Packets -/

/-- The bytes lie in memory from an offset on. -/
def Lies (m : Memory) (offset : ℕ) (bytes : List UInt8) : Prop := m.read offset bytes.length = bytes

/-- A TCP segment. -/
structure TcpSegment where
  source : UInt16
  dest : UInt16
  seq : UInt32
  ack : Vector UInt8 4
  doff : ℕ
  reserved : ℕ
  flags : UInt8
  windowOn : Vector UInt8 6
  options : List UInt8
  payload : List UInt8
  doff_le : doff ≤ 15
  reserved_lt : reserved < 16
  options_length : 20 + options.length = doff * 4

/-- An IPv4 header, but for the length and the protocol. -/
structure Ipv4Header where
  ihl : ℕ
  tos : UInt8
  identOn : Vector UInt8 5
  checksum : Vector UInt8 2
  saddr : UInt32
  daddr : UInt32
  options : List UInt8
  ihl_le : ihl ≤ 15
  options_length : 20 + options.length = ihl * 4

/-- An IPv6 header, but for the length and the protocol. -/
structure Ipv6Header where
  versionOn : Vector UInt8 4
  hopLimit : UInt8
  saddr : In6Addr
  daddr : In6Addr

def In6Addr.bytes (a : In6Addr) : List UInt8 :=
  leBytes 4 a.addr0.toNat ++ (leBytes 4 a.addr1.toNat
    ++ (leBytes 4 a.addr2.toNat ++ leBytes 4 a.addr3.toNat))

def TcpSegment.bytes (t : TcpSegment) : List UInt8 :=
  beBytes 2 t.source.toNat ++ (beBytes 2 t.dest.toNat ++ (beBytes 4 t.seq.toNat ++ (t.ack.toList
    ++ (UInt8.ofNat (t.doff * 16 + t.reserved) :: t.flags
      :: (t.windowOn.toList ++ (t.options ++ t.payload))))))

def Ipv4Header.bytes (h : Ipv4Header) (total : ℕ) (protocol : UInt8) : List UInt8 :=
  UInt8.ofNat (64 + h.ihl) :: h.tos :: (beBytes 2 total ++ (h.identOn.toList
    ++ (protocol :: (h.checksum.toList ++ (leBytes 4 h.saddr.toNat ++ (leBytes 4 h.daddr.toNat
      ++ h.options))))))

def Ipv6Header.bytes (h : Ipv6Header) (payloadLen : ℕ) (nexthdr : UInt8) : List UInt8 :=
  h.versionOn.toList ++ (beBytes 2 payloadLen ++ (nexthdr :: h.hopLimit
    :: (h.saddr.bytes ++ h.daddr.bytes)))

/-- What a TCP segment is carried in. -/
inductive Carrier
  | ipv4 (h : Ipv4Header)
  | ipv6 (h : Ipv6Header)
  | ipip (outer inner : Ipv4Header)

/-- How long the headers before that of TCP are. -/
def Carrier.length : Carrier → ℕ
  | .ipv4 h => h.ihl * 4
  | .ipv6 _ => 40
  | .ipip outer inner => outer.ihl * 4 + inner.ihl * 4

/-- The headers before a segment of a length. -/
def Carrier.bytes : Carrier → ℕ → List UInt8
  | .ipv4 h, len => h.bytes (h.ihl * 4 + len) ipprotoTcp
  | .ipv6 h, len => h.bytes len ipprotoTcp
  | .ipip outer inner, len =>
      outer.bytes (outer.ihl * 4 + (inner.ihl * 4 + len)) ipprotoIpip
        ++ inner.bytes (inner.ihl * 4 + len) ipprotoTcp

/-- The protocol that the link layer has for it. -/
def Carrier.l3Proto : Carrier → UInt16
  | .ipv6 _ => ethPIpv6
  | _ => ethPIp

/-- The addresses of the packet, those of the inner header for one in another. -/
def Carrier.addresses : Carrier → In6Addr × In6Addr
  | .ipv4 h => (.ofIpv4 h.saddr, .ofIpv4 h.daddr)
  | .ipv6 h => (h.saddr, h.daddr)
  | .ipip _ inner => (.ofIpv4 inner.saddr, .ofIpv4 inner.daddr)

/-- A TCP packet. -/
structure TcpPacket where
  carrier : Carrier
  tcp : TcpSegment

/-- The flow of a packet: from where to where. -/
def TcpPacket.key (p : TcpPacket) : SockKey :=
  ⟨p.carrier.addresses.1, p.carrier.addresses.2, p.tcp.source, p.tcp.dest⟩

/-- A packet as the kernel has it in a buffer: its network header at the offset, the header of TCP known
or not, and its protocol in front or beside it. A packet in another has two headers of one length. -/
structure SkBuff.Has (skb : SkBuff) (p : TcpPacket) : Prop where
  lies : Lies skb.head skb.networkHeader.toNat (p.carrier.bytes p.tcp.bytes.length ++ p.tcp.bytes)
  short : p.carrier.length + p.tcp.bytes.length < 2 ^ 16
  l3Proto : skb.l3Proto = some p.carrier.l3Proto
  l4 : skbL4Check skb.transportHeader skb.networkHeader = false →
    skb.transportHeader.toNat = skb.networkHeader.toNat + p.carrier.length
  sameLength : ∀ outer inner, p.carrier = .ipip outer inner → inner.ihl = outer.ihl

/-! ## Reading them back -/

section Memory

variable {m : Memory} {offset : ℕ}

theorem lies_nil : Lies m offset [] := rfl

theorem lies_cons {b : UInt8} {bytes : List UInt8} :
    Lies m offset (b :: bytes) ↔ m offset = b ∧ Lies m (offset + 1) bytes := by
  unfold Lies Memory.read
  have htail : (List.range bytes.length).map ((fun j => m (offset + j)) ∘ Nat.succ)
      = (List.range bytes.length).map fun j => m (offset + 1 + j) :=
    List.map_congr_left fun j _ => congrArg m (show offset + (j + 1) = offset + 1 + j by omega)
  rw [List.length_cons, List.range_succ_eq_map, List.map_cons, List.map_map, List.cons.injEq,
    Nat.add_zero,
    htail]

theorem lies_append {a b : List UInt8} :
    Lies m offset (a ++ b) ↔ Lies m offset a ∧ Lies m (offset + a.length) b := by
  induction a generalizing offset with
  | nil => simp [lies_nil]
  | cons x a ih =>
      rw [List.cons_append, lies_cons, lies_cons, ih, List.length_cons, and_assoc,
        show offset + 1 + a.length = offset + (a.length + 1) by omega]

theorem readU32_leBytes {x : UInt32} (h : Lies m offset (leBytes 4 x.toNat)) : readU32 m offset = x := by
  unfold Lies at h
  rw [leBytes_length] at h
  unfold readU32
  rw [h, littleEndian_leBytes, Nat.mod_eq_of_lt (by have := x.toNat_lt; omega), UInt32.ofNat_toNat]

theorem readIn6Addr_bytes {a : In6Addr} (h : Lies m offset a.bytes) : readIn6Addr m offset = a := by
  unfold In6Addr.bytes at h
  simp only [lies_append, leBytes_length] at h
  obtain ⟨h0, h1, h2, h3⟩ := h
  unfold readIn6Addr
  rw [readU32_leBytes h0, readU32_leBytes h1, readU32_leBytes h2, readU32_leBytes h3]

/-- A number is written as the bytes it was read from. -/
theorem leBytes_littleEndian (bytes : List UInt8) :
    leBytes bytes.length (littleEndian bytes) = bytes := by
  induction bytes with
  | nil => rfl
  | cons b bytes ih =>
      have hb := b.toNat_lt
      have hvalue : littleEndian (b :: bytes) = b.toNat + 256 * littleEndian bytes := rfl
      have hfirst : UInt8.ofNat (b.toNat + 256 * littleEndian bytes) = b := by
        apply UInt8.toNat_inj.mp
        rw [UInt8.toNat_ofNat']
        omega
      rw [List.length_cons, leBytes, hvalue, hfirst,
        show (b.toNat + 256 * littleEndian bytes) / 256 = littleEndian bytes by omega, ih]

/-- Four bytes in network order. -/
theorem ntohl32_readU32 {x : UInt32} (h : Lies m offset (beBytes 4 x.toNat)) :
    ntohl32 (readU32 m offset) = x := by
  have hx := x.toNat_lt
  unfold Lies at h
  rw [beBytes_length] at h
  have hlt := littleEndian_lt (beBytes 4 x.toNat)
  have hback := leBytes_littleEndian (beBytes 4 x.toNat)
  rw [beBytes_length] at hlt hback
  unfold ntohl32 readU32 ntohl
  rw [h, UInt32.toNat_ofNat', Nat.mod_eq_of_lt (lt_of_lt_of_eq hlt (by norm_num)), hback,
    bigEndian_beBytes,
    Nat.mod_eq_of_lt (by omega), UInt32.ofNat_toNat]

/-- Two bytes in network order. -/
theorem ntohs_readU16 {x : ℕ} (h : Lies m offset (beBytes 2 x)) :
    (ntohs (readU16 m offset)).toNat = x % 2 ^ 16 := by
  unfold Lies at h
  rw [beBytes_length] at h
  have hvalue :
      littleEndian (beBytes 2 x) = (UInt8.ofNat (x / 256)).toNat + 256 * (UInt8.ofNat x).toNat := rfl
  unfold ntohs readU16
  have hsplit : x % 2 ^ 16 = x % 2 ^ 8 + 256 * (x / 256 % 2 ^ 8) := by omega
  have hlow : x % 2 ^ 8 < 256 := Nat.mod_lt _ (by decide)
  have hhigh : x / 256 % 2 ^ 8 < 256 := Nat.mod_lt _ (by decide)
  rw [h, hvalue, hsplit]
  simp only [UInt8.toNat_ofNat', UInt16.toNat_ofNat']
  generalize x % 2 ^ 8 = low at hlow ⊢
  generalize x / 256 % 2 ^ 8 = high at hhigh ⊢
  have hdiv : (high + 256 * low) / 256 = low := by omega
  have hmod : (high + 256 * low) % 256 = high := by omega
  rw [Nat.mod_eq_of_lt (show high + 256 * low < 2 ^ 16 by omega), hdiv, hmod,
    Nat.mod_eq_of_lt (by omega), Nat.mul_comm]

/-- What a TCP header says. -/
structure ReadsTcp (m : Memory) (tcp : ℕ) (t : TcpSegment) : Prop where
  source : ntohs (readU16 m tcp) = t.source
  dest : ntohs (readU16 m (tcp + 2)) = t.dest
  seq : ntohl32 (readU32 m (tcp + 4)) = t.seq
  doff : (m (tcp + 12)).toNat / 16 = t.doff
  flags : m (tcp + 13) = t.flags

theorem ntohs_readU16_port {x : UInt16} (h : Lies m offset (beBytes 2 x.toNat)) :
    ntohs (readU16 m offset) = x := by
  have hx := x.toNat_lt
  apply UInt16.toNat_inj.mp
  rw [ntohs_readU16 h, Nat.mod_eq_of_lt hx]

/-- **A TCP header is read as it was written.** -/
theorem readsTcp {t : TcpSegment} (h : Lies m offset t.bytes) : ReadsTcp m offset t := by
  have hdoff := t.doff_le
  have hreserved := t.reserved_lt
  unfold TcpSegment.bytes at h
  simp only [lies_append, lies_cons, beBytes_length, Vector.length_toList, Nat.add_assoc] at h
  obtain ⟨hsource, hdest, hseq, -, hoff, hflags, -⟩ := h
  refine ⟨ntohs_readU16_port hsource, ntohs_readU16_port hdest, ntohl32_readU32 hseq, ?_, hflags⟩
  rw [hoff, UInt8.toNat_ofNat']
  omega

theorem TcpSegment.bytes_length (t : TcpSegment) :
    t.bytes.length = t.doff * 4 + t.payload.length := by
  have hoptions := t.options_length
  unfold TcpSegment.bytes
  simp only [List.length_append, List.length_cons, beBytes_length, Vector.length_toList]
  omega

/-- What an IPv4 header says. -/
structure ReadsIpv4 (m : Memory) (ip : ℕ) (h : Ipv4Header) (total : ℕ) (protocol : UInt8) : Prop where
  length : getIpHeaderLen (m ip) = h.ihl * 4
  total : (ntohs (readU16 m (ip + 2))).toNat = total % 2 ^ 16
  protocol : m (ip + 9) = protocol
  saddr : readU32 m (ip + 12) = h.saddr
  daddr : readU32 m (ip + 16) = h.daddr

theorem Ipv4Header.bytes_length (h : Ipv4Header) (total : ℕ) (protocol : UInt8) :
    (h.bytes total protocol).length = h.ihl * 4 := by
  have hoptions := h.options_length
  unfold Ipv4Header.bytes
  simp only [List.length_append, List.length_cons, beBytes_length, leBytes_length, Vector.length_toList]
  omega

/-- **An IPv4 header is read as it was written.** -/
theorem readsIpv4 {h : Ipv4Header} {total : ℕ} {protocol : UInt8}
    (hlies : Lies m offset (h.bytes total protocol)) : ReadsIpv4 m offset h total protocol := by
  have hihl := h.ihl_le
  have hoptions := h.options_length
  unfold Ipv4Header.bytes at hlies
  simp only [lies_append, lies_cons, beBytes_length, leBytes_length, Vector.length_toList,
    Nat.add_assoc] at hlies
  obtain ⟨hfirst, -, htotal, -, hprotocol, -, hsaddr, hdaddr, -⟩ := hlies
  refine ⟨?_, ntohs_readU16 htotal, hprotocol, readU32_leBytes hsaddr, readU32_leBytes hdaddr⟩
  unfold getIpHeaderLen
  rw [hfirst, UInt8.toNat_ofNat']
  omega

/-- What an IPv6 header says. -/
structure ReadsIpv6 (m : Memory) (ip : ℕ) (h : Ipv6Header) (payloadLen : ℕ) (nexthdr : UInt8) :
    Prop where
  payloadLen : (ntohs (readU16 m (ip + 4))).toNat = payloadLen % 2 ^ 16
  nexthdr : m (ip + 6) = nexthdr
  saddr : readIn6Addr m (ip + 8) = h.saddr
  daddr : readIn6Addr m (ip + 24) = h.daddr

theorem In6Addr.bytes_length (a : In6Addr) : a.bytes.length = 16 := by
  unfold In6Addr.bytes
  simp only [List.length_append, leBytes_length]

theorem Ipv6Header.bytes_length (h : Ipv6Header) (payloadLen : ℕ) (nexthdr : UInt8) :
    (h.bytes payloadLen nexthdr).length = 40 := by
  unfold Ipv6Header.bytes
  simp only [List.length_append, List.length_cons, beBytes_length, Vector.length_toList,
    In6Addr.bytes_length]

/-- **An IPv6 header is read as it was written.** -/
theorem readsIpv6 {h : Ipv6Header} {payloadLen : ℕ} {nexthdr : UInt8}
    (hlies : Lies m offset (h.bytes payloadLen nexthdr)) :
    ReadsIpv6 m offset h payloadLen nexthdr := by
  unfold Ipv6Header.bytes at hlies
  simp only [lies_append, lies_cons, beBytes_length, Vector.length_toList, In6Addr.bytes_length,
    Nat.add_assoc] at hlies
  obtain ⟨-, hlen, hnext, -, hsaddr, hdaddr⟩ := hlies
  exact ⟨ntohs_readU16 hlen, hnext, readIn6Addr_bytes hsaddr, readIn6Addr_bytes hdaddr⟩

end Memory

theorem Carrier.bytes_length (c : Carrier) (len : ℕ) : (c.bytes len).length = c.length := by
  rcases c with h | h | ⟨outer, inner⟩
  · exact h.bytes_length _ _
  · exact h.bytes_length _ _
  · rw [Carrier.bytes, List.length_append, outer.bytes_length, inner.bytes_length]
    rfl

/-- A length without that of what comes first. -/
theorem ofNat_add_sub (a b : ℕ) : UInt32.ofNat (a + b) - UInt32.ofNat a = UInt32.ofNat b := by
  rw [UInt32.ofNat_add, UInt32.add_comm, UInt32.add_sub_cancel]

/-- What `parse_skb` finds out about a packet: where its segment is, and how long, and its flow. -/
structure Viewed (skb : SkBuff) (p : TcpPacket) (v : NetworkView) : Prop where
  protoL4 : v.protoL4 = ipprotoTcp
  tcpLen : v.tcpLen = UInt32.ofNat p.tcp.bytes.length
  tcp : ReadsTcp skb.head v.l4 p.tcp
  key : headerKey skb.head p.carrier.l3Proto v .zero = p.key

/-- **The network header of a packet leads to its segment**, in each of the three carriers. -/
theorem SkBuff.Has.viewed {skb : SkBuff} {p : TcpPacket} (h : skb.Has p) :
    Viewed skb p (skb.network p.carrier.l3Proto) := by
  obtain ⟨hlies, hshort, -, hl4, hsame⟩ := h
  rw [lies_append, Carrier.bytes_length] at hlies
  obtain ⟨hheader, hsegment⟩ := hlies
  have htcp := readsTcp hsegment
  -- A transport header that is set is the one behind the carrier.
  have hl4 : (if skbL4Check skb.transportHeader skb.networkHeader then none
      else some skb.transportHeader.toNat).getD (skb.networkHeader.toNat + p.carrier.length)
        = skb.networkHeader.toNat + p.carrier.length := by
    split_ifs with hcheck
    · rfl
    · exact hl4 (Bool.eq_false_iff.mpr hcheck)
  unfold SkBuff.network
  generalize hip : skb.networkHeader.toNat = ip at hheader htcp hl4 ⊢
  dsimp only
  obtain ⟨carrier, tcp⟩ := p
  dsimp only at hheader htcp hl4 hshort hsame ⊢
  have hother : ¬ethPIpv6 = ethPIp := by decide
  cases carrier with
  | ipv4 h =>
      have hip4 := readsIpv4 hheader
      have hnot : ¬skb.head (ip + 9) = ipprotoIpip := by
        rw [hip4.protocol]
        decide
      have hproto : (Carrier.ipv4 h).l3Proto = ethPIp := rfl
      change (_ : Option ℕ).getD (ip + h.ihl * 4) = _ at hl4
      have hlength : (Carrier.ipv4 h).length = h.ihl * 4 := rfl
      rw [hlength] at hshort
      rw [if_pos hproto, if_neg hnot, hip4.length, hl4]
      refine ⟨hip4.protocol, ?_, htcp, ?_⟩
      · dsimp only
        rw [hip4.total, Nat.mod_eq_of_lt hshort, ofNat_add_sub]
      · unfold headerKey
        rw [if_pos hproto]
        dsimp only
        rw [htcp.source, htcp.dest, hip4.saddr, hip4.daddr]
        rfl
  | ipv6 h =>
      have hip6 := readsIpv6 hheader
      have hproto : ¬(Carrier.ipv6 h).l3Proto = ethPIp := hother
      change (_ : Option ℕ).getD (ip + 40) = _ at hl4
      rw [if_neg hproto, hl4]
      refine ⟨hip6.nexthdr, ?_, htcp, ?_⟩
      · dsimp only
        rw [hip6.payloadLen, Nat.mod_eq_of_lt (by omega)]
      · unfold headerKey
        rw [if_neg hproto]
        dsimp only
        rw [htcp.source, htcp.dest, hip6.saddr, hip6.daddr]
        rfl
  | ipip outer inner =>
      -- The source takes the inner header to be as long as the outer one.
      have hihl := hsame outer inner rfl
      rw [Carrier.bytes, lies_append, outer.bytes_length] at hheader
      have hout := readsIpv4 hheader.1
      have hin := readsIpv4 hheader.2
      have hproto : (Carrier.ipip outer inner).l3Proto = ethPIp := rfl
      have hlength : (Carrier.ipip outer inner).length = outer.ihl * 4 + inner.ihl * 4 := rfl
      rw [hlength] at hshort htcp
      rw [hihl, ← Nat.add_assoc] at htcp
      rw [hihl] at hshort hin hout
      rw [if_pos hproto, if_pos hout.protocol, hout.length]
      refine ⟨hin.protocol, ?_, htcp, ?_⟩
      · dsimp only
        rw [hout.total, Nat.mod_eq_of_lt (by omega), ofNat_add_sub, ofNat_add_sub]
      · unfold headerKey
        rw [if_pos hproto]
        dsimp only
        rw [htcp.source, htcp.dest, hin.saddr, hin.daddr]
        rfl

/-! ## Runs -/

/-- How a connection is entered: by the call that makes it, or by the first one that moves data. -/
inductive Entry
  | made (filters : ConnFilters) (tgid : ℕ) (fd : ℤ) (n : NewConn) (role : Role) (startTs now : ℕ)
  | found (filters : ConnFilters) (v6Fields : Bool) (c : Creation) (newConnInfo : ConnRecord)

namespace Entry

def run : Entry → ConnTables → Bool × ConnTables
  | .made filters tgid fd n role startTs now, t => submitNewConn filters tgid fd n role startTs now t
  | .found filters v6Fields c newConnInfo, t =>
      let made := createConnInfoInDataSyscall filters v6Fields c newConnInfo t
      (made.1, made.2.2)

def sk : Entry → Sock
  | .made _ _ _ n _ _ _ => n.tcpSk
  | .found _ _ c _ => c.sk

def tgidFd : Entry → ℕ
  | .made _ tgid fd _ _ _ _ => genTgidFd tgid fd
  | .found _ _ c _ => c.tgidFd

def connInfo : Entry → ConnRecord
  | .made _ tgid fd n role _ now => newConnInfo tgid fd n role now
  | .found _ v6Fields c newConnInfo => fillConnInfo v6Fields c newConnInfo

/-- The number of the first byte that is sent once the connection is there. The call that finds one has
moved its bytes already. -/
def write : Entry → UInt32
  | .found _ _ c _ =>
      if c.direct = .egress then c.sk.writeSeq - UInt32.ofNat c.bytesCount else c.sk.writeSeq
  | e => e.sk.writeSeq

/-- That of the first byte that is received. -/
def copied : Entry → UInt32
  | .found _ _ c _ =>
      if c.direct = .egress then c.sk.copiedSeq else c.sk.copiedSeq - UInt32.ofNat c.bytesCount
  | e => e.sk.copiedSeq

/-- The kernel has numbers for the two streams. A call that moved bytes shows that it has. -/
def Numbered : Entry → Prop
  | .made _ _ _ n _ _ _ => n.tcpSk.writeSeq ≠ 0 ∧ n.tcpSk.copiedSeq ≠ 0
  | .found _ _ _ _ => True

end Entry

/-- What happens to the maps: a packet at one of the probes of `parse_skb`, one that a socket sends, one
that is copied to user space, a connection entered, closed or destroyed, a translation of addresses, and
what the system calls write into a record. Beside a buffer stands the packet that is in it. -/
inductive NetOp
  | buffer (skb : SkBuff) (packet : TcpPacket) (skNotReady : Bool) (step : AgentStepT) (now : ℕ)
  | ipQueueXmit (sk : Sock) (data : Memory) (segment : TcpSegment) (now : ℕ)
  | copy (sk : Sock) (cbSeq offset len : UInt32) (now : ℕ)
  | enter (e : Entry)
  | close (retVal fd : ℤ) (tgid now : ℕ)
  | destroy (sk : Sock) (inetSport : UInt16) (now : ℕ)
  | nat (orig reply : NfConntrackTuple)
  | record (tgidFd : ℕ) (connInfo : ConnRecord)

def NetState.withTables (s : NetState) (tables : ConnTables) : NetState := { s with tables := tables }

def NetOp.run (op : NetOp) (s : NetState) : NetState :=
  match op with
  | .buffer skb _ skNotReady step now => parseSkb skb skNotReady step now s
  | .ipQueueXmit sk data segment now =>
      handleIpQueueXmit sk data (UInt32.ofNat segment.bytes.length) now s
  | .copy sk cbSeq offset len now => handleSkbDataCopy sk cbSeq offset len now s
  | .enter e => s.withTables (e.run s.tables).2
  | .close retVal fd tgid now => s.withTables (processSyscallClose retVal fd tgid now s.tables)
  | .destroy sk inetSport now => s.withTables (tcpDestroySock sk inetSport now s.tables)
  | .nat orig reply => { s with natFlowMap := handleNat orig reply s.natFlowMap }
  | .record tgidFd connInfo =>
      s.withTables
        { s.tables with connInfoMap := Function.update s.tables.connInfoMap tgidFd (some connInfo) }

/-- One step, which does not fail. -/
def NetOp.step (s : NetState) (op : NetOp) : Except Empty NetState := .ok (op.run s)

/-- A connection: its key, its descriptor, and the numbers of the first bytes of its two streams. -/
structure Flow where
  key : SockKey
  tgidFd : ℕ
  write : UInt32
  copied : UInt32

def Entry.flow (e : Entry) : Flow := ⟨e.sk.key, e.tgidFd, e.write, e.copied⟩

/-- Where on its way a packet was seen and when, where its payload is in the stream and how long it is.
-/
structure Place where
  step : AgentStepT
  ts : ℕ
  seq : UInt32
  len : UInt32
deriving DecidableEq

/-- The place that an event of a connection tells. -/
def NetEvent.place (tgidFd : ℕ) : NetEvent → Option Place
  | .kern e => if e.connIdS.tgidFd = tgidFd then some ⟨e.step, e.ts, e.seq, e.len⟩ else none
  | .firstPacket _ => none

/-- The places that were reported of a connection. -/
def NetState.places (s : NetState) (tgidFd : ℕ) : List Place := s.sent.filterMap (NetEvent.place tgidFd)

/-! ### What a connection's packets are to tell -/

/-- What is known of a connection: whether its protocol is, which addresses are translated, and the
places of the packets seen since. -/
structure Told where
  known : Bool
  nat : SockKey → Option SockKey
  places : List Place

/-- The flow that a packet is taken to be of. At the device the addresses are translated back, unless the
kernel has the socket beside the packet. -/
def SkBuff.seen (skb : SkBuff) (nat : SockKey → Option SockKey) (p : TcpPacket) (skNotReady : Bool)
    (step : AgentStepT) : SockKey :=
  if (skb.sk.isSome && skb.addrpair && !skNotReady) = false
      ∧ (step = AgentStepT.devIn ∨ step = AgentStepT.devOut) then
    (nat p.key).getD p.key
  else p.key

/-- **The place of a packet of the connection**: the first byte of a stream is at position 1. -/
def Flow.place (f : Flow) (nat : SockKey → Option SockKey) : NetOp → Option Place
  | .buffer skb packet skNotReady step now =>
      let len := UInt32.ofNat packet.tcp.payload.length
      let key := skb.seen nat packet skNotReady step
      if step ≥ AgentStepT.nicIn then
        if key = f.key.reverse then some ⟨step, now, packet.tcp.seq - f.copied + 1, len⟩ else none
      else if key = f.key then some ⟨step, now, packet.tcp.seq - f.write + 1, len⟩ else none
  | .ipQueueXmit sk _ segment now =>
      if sk.key = f.key then
        some ⟨AgentStepT.ipOut, now, segment.seq - f.write + 1, UInt32.ofNat segment.payload.length⟩
      else none
  | .copy sk cbSeq offset len now =>
      if sk.key = f.key then some ⟨AgentStepT.userCopy, now, cbSeq + offset - f.copied + 1, len⟩
      else none
  | _ => none

/-- What is known one step later. A packet counts once the protocol is known. -/
def Flow.tell (f : Flow) (told : Told) (op : NetOp) : Told :=
  match op with
  | .record tgidFd connInfo =>
      if tgidFd = f.tgidFd then { told with known := decide (connInfo.info.protocol ≠ .unknown) }
      else told
  | .nat orig reply => { told with nat := handleNat orig reply told.nat }
  | op => { told with places := told.places ++ if told.known then (f.place told.nat op).toList else [] }

/-- What is asked of the packets, and of what happens to other connections. -/
def Flow.Allows (f : Flow) (s : NetState) : NetOp → Prop
  | .buffer skb packet skNotReady _ _ =>
      skb.Has packet
        ∧ (skNotReady = false →
          ∀ sk ∈ skb.sk, sk.key = packet.key ∧ s.tables.sockXmitMap sk.key ≠ some 0)
  | .ipQueueXmit _ data segment _ => Lies data 0 segment.bytes
  | .enter e => e.tgidFd ≠ f.tgidFd ∧ e.sk.key ≠ f.key ∧ e.sk.key ≠ f.key.reverse
  | .close _ fd tgid _ =>
      genTgidFd tgid fd ≠ f.tgidFd
        ∧ ∀ r, s.tables.connInfoMap (genTgidFd tgid fd) = some r → closeKey r ≠ f.key
  | .destroy sk inetSport _ =>
      ({ sk.key with sport := ntohs inetSport } : SockKey) ≠ f.key
        ∧ ({ sk.key with sport := ntohs inetSport } : SockKey) ≠ f.key.reverse
  | _ => True

/-- **The maps have the connection**, and its events tell what they are to: it is traced, no other key
leads to it, and its streams start before their first bytes. -/
structure Flow.Entered (f : Flow) (told : Told) (s : NetState) : Prop where
  entry : s.tables.sockKeyConnIdMap f.key = some ⟨f.tgidFd, .unset⟩
  record : ∃ r, s.tables.connInfoMap f.tgidFd = some r
    ∧ (told.known = true ↔ r.info.protocol ≠ .unknown)
  only : ∀ key i, s.tables.sockKeyConnIdMap key = some i → i.tgidFd = f.tgidFd → key = f.key
  out : s.tables.sockXmitMap f.key = some (f.write - 1)
  inn : s.tables.sockXmitMap f.key.reverse = some (f.copied - 1)
  nat : s.natFlowMap = told.nat
  places : s.places f.tgidFd = told.places


section Steps

variable {f : Flow} {told : Told} {s : NetState}

theorem SockKey.reverse_eq_iff {key key' : SockKey} : key.reverse = key' ↔ key = key'.reverse :=
  ⟨fun h => by rw [← h]; rfl, fun h => by rw [h]; rfl⟩

theorem sub_pred (a b : UInt32) : a - (b - 1) = a - b + 1 := by
  grind

/-- The key of the connection leads to it, once its protocol is known. -/
theorem Flow.Entered.reported (h : f.Entered told s) :
    s.tables.reported f.key = if told.known then some ⟨f.tgidFd, .unset⟩ else none := by
  obtain ⟨r, hr, hknown⟩ := h.record
  unfold ConnTables.reported
  rw [h.entry]
  dsimp only
  rw [if_pos (by decide), hr]
  dsimp only
  by_cases hprotocol : r.info.protocol = .unknown
  · rw [if_pos hprotocol, if_neg (fun hk => hknown.mp hk hprotocol)]
  · rw [if_neg hprotocol, if_pos (hknown.mpr hprotocol)]

/-- No other does. -/
theorem Flow.Entered.reported_other (h : f.Entered told s) {key : SockKey} {i : ConnIdS}
    (hi : s.tables.reported key = some i) (hkey : key ≠ f.key) : i.tgidFd ≠ f.tgidFd := by
  intro hsame
  unfold ConnTables.reported at hi
  rcases hentry : s.tables.sockKeyConnIdMap key with _ | j
  · rw [hentry] at hi
    cases hi
  · rw [hentry] at hi
    dsimp only at hi
    split_ifs at hi
    rcases hrecord : s.tables.connInfoMap j.tgidFd with _ | r
    · rw [hrecord] at hi
      cases hi
    · rw [hrecord] at hi
      dsimp only at hi
      split_ifs at hi
      cases hi
      exact hkey (h.only key i hentry hsame)

/-- An event that is sent is one place, or none. -/
theorem Flow.Entered.send (h : f.Entered told s) (evt : NetEvent) (slotFlags : UInt8) (slotIfindex : ℕ)
    {more : List Place} (hplace : (evt.place f.tgidFd).toList = more) :
    f.Entered { told with places := told.places ++ more }
      { s with slotFlags := slotFlags, slotIfindex := slotIfindex, sent := s.sent ++ [evt] } := by
  obtain ⟨hentry, hrecord, honly, hout, hinn, hnat, hplaces⟩ := h
  refine ⟨hentry, hrecord, honly, hout, hinn, hnat, ?_⟩
  unfold NetState.places at hplaces ⊢
  dsimp only
  rw [List.filterMap_append, hplaces, ← hplace]
  rcases hevt : evt.place f.tgidFd with _ | place
  · rw [List.filterMap_cons_none hevt]
    rfl
  · rw [List.filterMap_cons_some hevt]
    rfl

theorem Flow.Entered.same (h : f.Entered told s) :
    f.Entered { told with places := told.places ++ [] } s := by
  rw [List.append_nil]
  exact h

theorem place_self (f : Flow) (e : PacketEvt) (he : e.connIdS = ⟨f.tgidFd, .unset⟩) :
    (NetEvent.place f.tgidFd (.kern e)).toList = [⟨e.step, e.ts, e.seq, e.len⟩] := by
  unfold NetEvent.place
  dsimp only
  rw [he, if_pos rfl]
  rfl

theorem place_other (f : Flow) (e : PacketEvt) (he : e.connIdS.tgidFd ≠ f.tgidFd) :
    (NetEvent.place f.tgidFd (.kern e)).toList = [] := by
  unfold NetEvent.place
  dsimp only
  rw [if_neg he]
  rfl

/-- **A report** is one event of the connection just if it is made under its key. -/
theorem Flow.Entered.report (h : f.Entered told s) (initalSeq : UInt32) (key : SockKey) {m : Memory}
    {tcp : ℕ} {t : TcpSegment} (ht : ReadsTcp m tcp t) (step : AgentStepT) (ifindex now : ℕ) :
    f.Entered
      { told with
        places := told.places ++ if told.known = true ∧ key = f.key then
          [⟨step, now, t.seq - initalSeq, UInt32.ofNat t.payload.length⟩] else [] }
      (reportKernEvt initalSeq key m tcp (UInt32.ofNat t.bytes.length) step ifindex now s) := by
  -- The length that is told is that of the payload.
  have hpayload : UInt32.ofNat t.bytes.length - UInt32.ofNat ((m (tcp + 12)).toNat / 16 * 4)
      = UInt32.ofNat t.payload.length := by
    rw [t.bytes_length, ht.doff, ofNat_add_sub]
  unfold reportKernEvt
  dsimp only
  rw [hpayload, ht.seq]
  by_cases hkey : key = f.key
  · subst hkey
    rw [h.reported]
    by_cases hknown : told.known = true
    · rw [if_pos hknown, if_pos ⟨hknown, rfl⟩]
      exact h.send _ _ _ (place_self f _ rfl)
    · rw [if_neg hknown, if_neg (fun hk => hknown hk.1), h.entry]
      exact h.same
  · rw [if_neg (fun hk => hkey hk.2)]
    -- Of another key: an event of another connection, a first packet, or nothing.
    rcases hreported : s.tables.reported key with _ | i
    · dsimp only
      split_ifs
      · exact h.send _ _ _ rfl
      · exact h.same
    · exact h.send _ _ _ (place_other f _ (h.reported_other hreported hkey))

/-- The same for a report without a header. -/
theorem Flow.Entered.body (h : f.Entered told s) (key : SockKey) (curSeq len : UInt32)
    (step : AgentStepT)
    (now : ℕ) :
    f.Entered
      { told with
        places :=
          told.places ++ if told.known = true ∧ key = f.key then [⟨step, now, curSeq, len⟩] else [] }
      (parseKernEvtBody key curSeq len step now s) := by
  unfold parseKernEvtBody
  by_cases hkey : key = f.key
  · subst hkey
    rw [h.reported]
    by_cases hknown : told.known = true
    · rw [if_pos hknown, if_pos ⟨hknown, rfl⟩]
      exact h.send _ _ _ (place_self f _ rfl)
    · rw [if_neg hknown, if_neg (fun hk => hknown hk.1)]
      exact h.same
  · rw [if_neg (fun hk => hkey hk.2)]
    rcases hreported : s.tables.reported key with _ | i
    · exact h.same
    · exact h.send _ _ _ (place_other f _ (h.reported_other hreported hkey))

/-- The start that is found under the key of a flow, if it is one of the connection's. -/
structure Flow.Starts (f : Flow) (key : SockKey) (seq : UInt32) : Prop where
  out : key = f.key → seq = f.write - 1
  inn : key = f.key.reverse → seq = f.copied - 1

/-- An entry for a key that has none changes nothing of the connection. -/
theorem Flow.Entered.enterSeq (h : f.Entered told s) {key : SockKey}
    (hkey : s.tables.sockXmitMap key = none) (seq : UInt32) :
    f.Entered told
      { s with
        tables :=
          { s.tables with sockXmitMap := Function.update s.tables.sockXmitMap key (some seq) } } := by
  obtain ⟨hentry, hrecord, honly, hout, hinn, hnat, hplaces⟩ := h
  refine ⟨hentry, hrecord, honly, ?_, ?_, hnat, hplaces⟩
  · dsimp only
    rw [Function.update_of_ne, hout]
    rintro rfl
    rw [hout] at hkey
    cases hkey
  · dsimp only
    rw [Function.update_of_ne, hinn]
    rintro rfl
    rw [hinn] at hkey
    cases hkey

/-- The flow of a packet that is told by its headers. -/
def headersSeen (nat : SockKey → Option SockKey) (p : TcpPacket) (step : AgentStepT) : SockKey :=
  if step = AgentStepT.devIn ∨ step = AgentStepT.devOut then (nat p.key).getD p.key else p.key

/-- By its headers a packet is found under its flow, or there is no start. -/
theorem headerOrigin_cases (h : f.Entered told s) {skb : SkBuff} {p : TcpPacket} {v : NetworkView}
    (hv : Viewed skb p v) (step : AgentStepT) :
    (headerOrigin skb p.carrier.l3Proto v .zero step s = none
        ∧ s.tables.sockXmitMap (headersSeen told.nat p step) = none)
      ∨ ∃ seq s', headerOrigin skb p.carrier.l3Proto v .zero step s
          = some (headersSeen told.nat p step, seq, s') ∧ f.Entered told s'
          ∧ f.Starts (headersSeen told.nat p step) seq := by
  have hseen : (if step = AgentStepT.devIn ∨ step = AgentStepT.devOut then
      (s.natFlowMap p.key).getD p.key else p.key) = headersSeen told.nat p step := by
    rw [h.nat]
    rfl
  unfold headerOrigin
  dsimp only
  rw [hv.key, hseen]
  generalize headersSeen told.nat p step = seen
  rcases hfound : s.tables.sockXmitMap seen with _ | seq
  -- The two keys of the connection have their starts, so a new one is of another.
  · have hout : seen ≠ f.key := fun heq => by
      rw [heq, h.out] at hfound
      cases hfound
    have hinn : seen ≠ f.key.reverse := fun heq => by
      rw [heq, h.inn] at hfound
      cases hfound
    dsimp only
    split_ifs
    · exact Or.inr ⟨_, _, rfl, h.enterSeq hfound _, ⟨fun hk => absurd hk hout, fun hk => absurd hk hinn⟩⟩
    · exact Or.inl ⟨rfl, rfl⟩
  · refine Or.inr ⟨seq, s, rfl, h, ⟨fun hk => ?_, fun hk => ?_⟩⟩
    · rw [hk, h.out] at hfound
      exact (Option.some.inj hfound).symm
    · rw [hk, h.inn] at hfound
      exact (Option.some.inj hfound).symm

/-- Flow and start give the place of a packet. -/
theorem Flow.Starts.place {seen : SockKey} {seq : UInt32} (hstarts : f.Starts seen seq) {skb : SkBuff}
    {p : TcpPacket} {skNotReady : Bool} {step : AgentStepT}
    (hseen : skb.seen told.nat p skNotReady step = seen) (now : ℕ) :
    (if told.known = true ∧ (if step ≥ AgentStepT.nicIn then seen.reverse else seen) = f.key then
        [⟨step, now, p.tcp.seq - seq, UInt32.ofNat p.tcp.payload.length⟩] else [])
      = if told.known = true then
          (f.place told.nat (.buffer skb p skNotReady step now)).toList else [] := by
  unfold Flow.place
  dsimp only
  rw [hseen]
  by_cases hknown : told.known = true
  · by_cases hin : step ≥ AgentStepT.nicIn
    · rw [if_pos hin, if_pos hin, if_pos hknown]
      by_cases hkey : seen = f.key.reverse
      · rw [if_pos ⟨hknown, SockKey.reverse_eq_iff.mpr hkey⟩, if_pos hkey, hstarts.inn hkey, sub_pred]
        rfl
      · rw [if_neg (fun hk => hkey (SockKey.reverse_eq_iff.mp hk.2)), if_neg hkey]
        rfl
    · rw [if_neg hin, if_neg hin, if_pos hknown]
      by_cases hkey : seen = f.key
      · rw [if_pos ⟨hknown, hkey⟩, if_pos hkey, hstarts.out hkey, sub_pred]
        rfl
      · rw [if_neg (fun hk => hkey hk.2), if_neg hkey]
        rfl
  · rw [if_neg (fun hk => hknown hk.1), if_neg hknown]

/-- A packet whose flow has no start is not one of the connection. -/
theorem Flow.Entered.no_place (h : f.Entered told s) {skb : SkBuff} {p : TcpPacket} {skNotReady : Bool}
    {step : AgentStepT} {seen : SockKey} (hseen : skb.seen told.nat p skNotReady step = seen)
    (hnone : s.tables.sockXmitMap seen = none) (now : ℕ) :
    f.place told.nat (.buffer skb p skNotReady step now) = none := by
  have hout : seen ≠ f.key := fun heq => by
    rw [heq, h.out] at hnone
    cases hnone
  have hinn : seen ≠ f.key.reverse := fun heq => by
    rw [heq, h.inn] at hnone
    cases hnone
  unfold Flow.place
  dsimp only
  rw [hseen, if_neg hout, if_neg hinn, ite_self]

theorem Flow.Entered.quiet (h : f.Entered told s) {place : Option Place} (hplace : place = none) :
    f.Entered
      { told with places := told.places ++ if told.known = true then place.toList else [] } s := by
  rw [hplace, Option.toList_none, ite_self]
  exact h.same

/-- Where `parse_skb` starts: from nothing, or from the entry of the socket beside the packet. -/
theorem skOrigin_cases (skb : SkBuff) (skNotReady : Bool) (s : NetState) :
    ((skb.sk.isSome && skb.addrpair && !skNotReady) = false
        ∧ skOrigin skb skNotReady s = some (.zero, 0))
      ∨ (skb.sk.isSome && skb.addrpair && !skNotReady) = true ∧ skNotReady = false
        ∧ ∃ sk ∈ skb.sk,
          skOrigin skb skNotReady s = (s.tables.sockXmitMap sk.key).map fun seq => (sk.key, seq) := by
  unfold skOrigin
  rcases skb.sk with _ | sk
  · exact Or.inl ⟨rfl, rfl⟩
  · dsimp only
    rw [Option.isSome_some, Bool.true_and]
    split_ifs with hready
    · refine Or.inr ⟨hready, ?_, sk, rfl, rfl⟩
      rw [Bool.and_eq_true] at hready
      simpa using hready.2
    · exact Or.inl ⟨Bool.eq_false_iff.mpr hready, rfl⟩

/-- A packet at a probe of `parse_skb`. -/
theorem Flow.Entered.buffer (h : f.Entered told s) {skb : SkBuff} {p : TcpPacket} (hhas : skb.Has p)
    {skNotReady : Bool}
    (hsk : skNotReady = false → ∀ sk ∈ skb.sk, sk.key = p.key ∧ s.tables.sockXmitMap sk.key ≠ some 0)
    (step : AgentStepT) (now : ℕ) :
    f.Entered (f.tell told (.buffer skb p skNotReady step now))
      (parseSkb skb skNotReady step now s) := by
  have hv := hhas.viewed
  unfold parseSkb
  rw [hhas.l3Proto]
  rcases skOrigin_cases skb skNotReady s with ⟨hready, horigin⟩ | ⟨hready, hnotReady, sk, hmem, horigin⟩
  · -- By the headers.
    have hseen : skb.seen told.nat p skNotReady step = headersSeen told.nat p step := by
      unfold SkBuff.seen headersSeen
      simp only [hready, true_and]
    rw [horigin]
    dsimp only
    rw [if_pos hv.protoL4, if_pos rfl]
    rcases headerOrigin_cases h hv step with ⟨horigin, hnone⟩ | ⟨seq, s', horigin, h', hstarts⟩
    · rw [horigin]
      exact h.quiet (h.no_place hseen hnone now)
    · rw [horigin]
      have hsent := h'.report seq
        (if step ≥ AgentStepT.nicIn then (headersSeen told.nat p step).reverse
          else headersSeen told.nat p step) hv.tcp step skb.ifindex now
      rw [hstarts.place hseen now, ← hv.tcpLen] at hsent
      exact hsent
  · -- By the socket, which is that of the packet.
    obtain ⟨hkey, hzero⟩ := hsk hnotReady sk hmem
    rw [hkey] at hzero horigin
    have hseen : skb.seen told.nat p skNotReady step = p.key := by
      unfold SkBuff.seen
      rw [if_neg (fun hk => by rw [hready] at hk; cases hk.1)]
    rw [horigin]
    rcases hfound : s.tables.sockXmitMap p.key with _ | seq
    · exact h.quiet (h.no_place hseen hfound now)
    · have hstarts : f.Starts p.key seq := by
        refine ⟨fun hk => ?_, fun hk => ?_⟩
        · rw [hk, h.out] at hfound
          exact (Option.some.inj hfound).symm
        · rw [hk, h.inn] at hfound
          exact (Option.some.inj hfound).symm
      have hne : ¬seq = 0 := fun hk => hzero (hfound.trans (congrArg some hk))
      rw [Option.map_some]
      dsimp only
      rw [if_pos hv.protoL4, if_neg hne]
      have hsent := h.report seq (if step ≥ AgentStepT.nicIn then p.key.reverse else p.key) hv.tcp step
        skb.ifindex now
      rw [hstarts.place hseen now, ← hv.tcpLen] at hsent
      exact hsent

/-- A packet that a socket sends. -/
theorem Flow.Entered.ipQueueXmit (h : f.Entered told s) (sk : Sock) {data : Memory} {t : TcpSegment}
    (hlies : Lies data 0 t.bytes) (now : ℕ) :
    f.Entered (f.tell told (.ipQueueXmit sk data t now))
      (handleIpQueueXmit sk data (UInt32.ofNat t.bytes.length) now s) := by
  have htcp := readsTcp hlies
  change f.Entered
    { told with places := told.places ++ if told.known = true then
      (if sk.key = f.key then
        some ⟨AgentStepT.ipOut, now, t.seq - f.write + 1, UInt32.ofNat t.payload.length⟩
          else none).toList else [] } _
  unfold handleIpQueueXmit
  rcases hfound : s.tables.sockXmitMap sk.key with _ | seq
  -- Without a start it is not a packet of the connection.
  · have hne : sk.key ≠ f.key := fun hk => by
      rw [hk, h.out] at hfound
      cases hfound
    exact h.quiet (if_neg hne)
  · have hsent := h.report seq sk.key htcp AgentStepT.ipOut 0 now
    by_cases hkey : sk.key = f.key
    · rw [hkey, h.out] at hfound
      cases hfound
      rw [if_pos hkey]
      simp only [hkey, and_true, sub_pred] at hsent
      rw [hkey]
      exact hsent
    · rw [if_neg hkey, Option.toList_none, ite_self]
      rw [if_neg (fun hk => hkey hk.2)] at hsent
      exact hsent

/-- A packet that is copied to user space. -/
theorem Flow.Entered.copy (h : f.Entered told s) (sk : Sock) (cbSeq offset len : UInt32) (now : ℕ) :
    f.Entered (f.tell told (.copy sk cbSeq offset len now))
      (handleSkbDataCopy sk cbSeq offset len now s) := by
  change f.Entered
    { told with places := told.places ++ if told.known = true then
      (if sk.key = f.key then
        some ⟨AgentStepT.userCopy, now, cbSeq + offset - f.copied + 1, len⟩ else none).toList else [] } _
  unfold handleSkbDataCopy
  dsimp only
  -- The probe looks under the key of the other direction.
  have hrcv : parseSockKeyRcvSk sk .zero = sk.key.reverse := rfl
  rw [hrcv]
  rcases hfound : s.tables.sockXmitMap sk.key.reverse with _ | seq
  · have hne : sk.key ≠ f.key := fun hk => by
      rw [hk, h.inn] at hfound
      cases hfound
    exact h.quiet (if_neg hne)
  · have hsent := h.body sk.key (cbSeq + offset - seq) len AgentStepT.userCopy now
    by_cases hkey : sk.key = f.key
    · rw [hkey, h.inn] at hfound
      cases hfound
      rw [if_pos hkey]
      simp only [hkey, and_true, sub_pred] at hsent
      rw [hkey]
      change f.Entered _
        (parseKernEvtBody f.key (cbSeq + offset - (f.copied - 1)) len AgentStepT.userCopy now s)
      rw [sub_pred]
      exact hsent
    · rw [if_neg hkey, Option.toList_none, ite_self]
      rw [if_neg (fun hk => hkey hk.2)] at hsent
      exact hsent

/-- The maps of a connection stay, whatever else changes. -/
theorem Flow.Entered.withTables (h : f.Entered told s) {t : ConnTables}
    (hkey : t.sockKeyConnIdMap f.key = s.tables.sockKeyConnIdMap f.key)
    (hrecord : t.connInfoMap f.tgidFd = s.tables.connInfoMap f.tgidFd)
    (honly : ∀ key i, t.sockKeyConnIdMap key = some i → i.tgidFd = f.tgidFd →
      s.tables.sockKeyConnIdMap key = some i)
    (hout : t.sockXmitMap f.key = s.tables.sockXmitMap f.key)
    (hinn : t.sockXmitMap f.key.reverse = s.tables.sockXmitMap f.key.reverse) :
    f.Entered told (s.withTables t) := by
  refine ⟨hkey.trans h.entry, ?_, fun key i hi hsame => h.only key i (honly key i hi hsame) hsame,
    hout.trans h.out, hinn.trans h.inn, h.nat, h.places⟩
  obtain ⟨r, hr, hknown⟩ := h.record
  exact ⟨r, hrecord.trans hr, hknown⟩

/-- `create_conn_info` writes a record and an entry, if there is none. -/
theorem createConnInfo_cases (filters : ConnFilters) (connInfo : ConnRecord) (tgidFd : ℕ) (key : SockKey)
    (startTs now : ℕ) (t : ConnTables) :
    createConnInfo filters connInfo tgidFd key startTs now t = (false, t)
      ∨ ∃ t', createConnInfo filters connInfo tgidFd key startTs now t = (true, t')
        ∧ t'.connInfoMap = Function.update t.connInfoMap tgidFd (some connInfo)
        ∧ t'.sockKeyConnIdMap = (match t.sockKeyConnIdMap key with
          | some _ => t.sockKeyConnIdMap
          | none => Function.update t.sockKeyConnIdMap key (some ⟨tgidFd, .unset⟩))
        ∧ t'.sockXmitMap = t.sockXmitMap := by
  unfold createConnInfo
  split_ifs
  · exact Or.inr ⟨_, rfl, rfl, rfl, rfl⟩
  · exact Or.inl rfl

theorem parseSockKeyRcvSk_key (sk : Sock) : parseSockKeyRcvSk sk sk.key = sk.key.reverse := by
  unfold parseSockKeyRcvSk Sock.key parseSockKeySk
  split_ifs <;> rfl

/-- What it is to enter a connection in the maps. -/
structure Entry.Enters (e : Entry) (t t' : ConnTables) : Prop where
  connInfoMap : t'.connInfoMap = Function.update t.connInfoMap e.tgidFd (some e.connInfo)
  sockKeyConnIdMap : t'.sockKeyConnIdMap = (match t.sockKeyConnIdMap e.sk.key with
    | some _ => t.sockKeyConnIdMap
    | none => Function.update t.sockKeyConnIdMap e.sk.key (some ⟨e.tgidFd, .unset⟩))
  xmit_other : ∀ key, key ≠ e.sk.key → key ≠ e.sk.key.reverse → t'.sockXmitMap key = t.sockXmitMap key
  out : e.Numbered → e.sk.key.reverse ≠ e.sk.key → t'.sockXmitMap e.sk.key = some (e.write - 1)
  inn : e.Numbered → t'.sockXmitMap e.sk.key.reverse = some (e.copied - 1)

/-- Either call enters the connection, or leaves the maps as they were. -/
theorem Entry.run_cases (e : Entry) (t : ConnTables) :
    e.run t = (false, t) ∨ ∃ t', e.run t = (true, t') ∧ e.Enters t t' := by
  cases e with
  | made filters tgid fd n role startTs now =>
      unfold Entry.run submitNewConn
      dsimp only
      rcases createConnInfo_cases filters (newConnInfo tgid fd n role now) (genTgidFd tgid fd)
          n.tcpSk.key
        startTs now t with hcreate | ⟨t', hcreate, hinfo, hentry, hxmit⟩
      · rw [hcreate]
        exact Or.inl rfl
      · rw [hcreate]
        refine Or.inr ⟨_, rfl, hinfo, hentry, ?_, ?_, ?_⟩
        · intro key hkey hreverse
          dsimp only [Entry.sk] at hkey hreverse ⊢
          rw [parseSockKeyRcvSk_key]
          split_ifs <;> simp [hkey, hreverse, hxmit]
        -- The second of the two writes leaves the first, as the keys differ.
        · intro hnumbered hself
          dsimp only [Entry.sk, Entry.write] at hnumbered hself ⊢
          rw [parseSockKeyRcvSk_key, if_pos hnumbered.1, if_pos hnumbered.2,
            Function.update_of_ne hself.symm, Function.update_self]
        · intro hnumbered
          dsimp only [Entry.sk, Entry.copied] at hnumbered ⊢
          rw [parseSockKeyRcvSk_key, if_pos hnumbered.2, Function.update_self]
  | found filters v6Fields c newConnInfo =>
      unfold Entry.run createConnInfoInDataSyscall
      dsimp only
      rcases createConnInfo_cases filters (fillConnInfo v6Fields c newConnInfo) c.tgidFd c.sk.key c.ts
          c.now
        t with hcreate | ⟨t', hcreate, hinfo, hentry, hxmit⟩
      · rw [hcreate]
        exact Or.inl rfl
      · rw [hcreate]
        refine Or.inr ⟨_, rfl, hinfo, hentry, ?_, ?_, ?_⟩
        · intro key hkey hreverse
          dsimp only [Entry.sk] at hkey hreverse ⊢
          rw [parseSockKeyRcvSk_key]
          simp [hkey, hreverse, hxmit]
        · intro _ hself
          dsimp only [Entry.sk, Entry.write] at hself ⊢
          simp only [Bool.not_true, Bool.false_eq_true, if_false]
          rw [parseSockKeyRcvSk_key, Function.update_of_ne hself.symm, Function.update_self]
          split_ifs <;> rfl
        · intro _
          dsimp only [Entry.sk, Entry.copied]
          simp only [Bool.not_true, Bool.false_eq_true, if_false]
          rw [parseSockKeyRcvSk_key, Function.update_self]
          split_ifs <;> rfl

/-- Another connection that is entered. -/
theorem Flow.Entered.enter (h : f.Entered told s) {e : Entry} (htgidFd : e.tgidFd ≠ f.tgidFd)
    (hkey : e.sk.key ≠ f.key) (hreverse : e.sk.key ≠ f.key.reverse) :
    f.Entered told (s.withTables (e.run s.tables).2) := by
  rcases e.run_cases s.tables with hrun | ⟨t', hrun, henters⟩
  · rw [hrun]
    exact h
  · have hback : f.key ≠ e.sk.key.reverse := fun hk => hreverse (SockKey.reverse_eq_iff.mp hk.symm)
    rw [hrun]
    refine h.withTables ?_ ?_ ?_ (henters.xmit_other _ hkey.symm hback)
      (henters.xmit_other _ hreverse.symm fun hk => hkey (SockKey.reverse_eq_iff.mp hk).symm)
    · rw [henters.sockKeyConnIdMap]
      split
      · rfl
      · exact Function.update_of_ne hkey.symm _ _
    · rw [henters.connInfoMap, Function.update_of_ne htgidFd.symm]
    · intro key i hi hsame
      rw [henters.sockKeyConnIdMap] at hi
      split at hi
      · exact hi
      · by_cases hk : key = e.sk.key
        · rw [hk, Function.update_self] at hi
          cases hi
          exact absurd hsame htgidFd
        · rwa [Function.update_of_ne hk] at hi

/-- Another connection that is closed. -/
theorem Flow.Entered.close (h : f.Entered told s) {fd : ℤ} {tgid : ℕ}
    (htgidFd : genTgidFd tgid fd ≠ f.tgidFd)
    (hclose : ∀ r, s.tables.connInfoMap (genTgidFd tgid fd) = some r → closeKey r ≠ f.key) (retVal : ℤ)
    (now : ℕ) : f.Entered told (s.withTables (processSyscallClose retVal fd tgid now s.tables)) := by
  unfold processSyscallClose
  split_ifs
  · exact h
  · exact h
  · dsimp only
    rcases hrecord : s.tables.connInfoMap (genTgidFd tgid fd) with _ | r
    · exact h
    · refine h.withTables (Function.update_of_ne (hclose r hrecord).symm _ _)
        (Function.update_of_ne htgidFd.symm _ _) ?_ rfl rfl
      intro key i hi _
      dsimp only at hi
      by_cases hk : key = closeKey r
      · rw [hk, Function.update_self] at hi
        cases hi
      · rwa [Function.update_of_ne hk] at hi

/-- Another socket that is destroyed. -/
theorem Flow.Entered.destroy (h : f.Entered told s) {sk : Sock} {inetSport : UInt16}
    (hkey : ({ sk.key with sport := ntohs inetSport } : SockKey) ≠ f.key)
    (hreverse : ({ sk.key with sport := ntohs inetSport } : SockKey) ≠ f.key.reverse) (now : ℕ) :
    f.Entered told (s.withTables (tcpDestroySock sk inetSport now s.tables)) := by
  unfold tcpDestroySock
  dsimp only
  generalize ({ sk.key with sport := ntohs inetSport } : SockKey) = key at hkey hreverse ⊢
  have hout := Function.update_of_ne hkey.symm (none : Option UInt32) s.tables.sockXmitMap
  have hinn := Function.update_of_ne hreverse.symm (none : Option UInt32) s.tables.sockXmitMap
  rcases hentry : s.tables.sockKeyConnIdMap key with _ | i
  · exact h.withTables rfl rfl (fun _ _ hi _ => hi) hout hinn
  -- The entry is of another connection, and so is the record it leads to.
  · have htgidFd : i.tgidFd ≠ f.tgidFd := fun hsame => hkey (h.only key i hentry hsame)
    have honly : ∀ key' i', Function.update s.tables.sockKeyConnIdMap key none key' = some i' →
        i'.tgidFd = f.tgidFd → s.tables.sockKeyConnIdMap key' = some i' := by
      intro key' i' hi _
      by_cases hk : key' = key
      · rw [hk, Function.update_self] at hi
        cases hi
      · rwa [Function.update_of_ne hk] at hi
    dsimp only
    rcases s.tables.connInfoMap i.tgidFd with _ | r
    · exact h.withTables (Function.update_of_ne hkey.symm _ _) (Function.update_of_ne htgidFd.symm _ _)
        honly hout hinn
    · exact h.withTables (Function.update_of_ne hkey.symm _ _) (Function.update_of_ne htgidFd.symm _ _)
        honly hout hinn

/-- What the system calls write into a record. -/
theorem Flow.Entered.recordWrite (h : f.Entered told s) (tgidFd : ℕ) (connInfo : ConnRecord) :
    f.Entered (f.tell told (.record tgidFd connInfo)) (NetOp.run (.record tgidFd connInfo) s) := by
  unfold Flow.tell NetOp.run
  dsimp only
  by_cases hfd : tgidFd = f.tgidFd
  · obtain ⟨hentry, -, honly, hout, hinn, hnat, hplaces⟩ := h
    rw [if_pos hfd, hfd]
    exact ⟨hentry, ⟨connInfo, Function.update_self _ _ _, decide_eq_true_iff⟩, honly, hout, hinn, hnat,
      hplaces⟩
  · rw [if_neg hfd]
    exact h.withTables rfl (Function.update_of_ne (Ne.symm hfd) _ _) (fun _ _ hi _ => hi) rfl rfl

/-- **One step**: whatever happens, the events tell what they are to. -/
theorem Flow.Entered.step (h : f.Entered told s) {op : NetOp} (hallowed : f.Allows s op) :
    f.Entered (f.tell told op) (op.run s) := by
  have hquiet : ∀ {s' : NetState}, f.Entered told s' → f.Entered
      { told with places := told.places ++
        if told.known = true then (none : Option Place).toList else [] } s' :=
    fun h' => h'.quiet rfl
  cases op with
  | buffer skb packet skNotReady step now => exact h.buffer hallowed.1 hallowed.2 step now
  | ipQueueXmit sk data segment now => exact h.ipQueueXmit sk hallowed now
  | copy sk cbSeq offset len now => exact h.copy sk cbSeq offset len now
  | enter e => exact hquiet (h.enter hallowed.1 hallowed.2.1 hallowed.2.2)
  | close retVal fd tgid now => exact hquiet (h.close hallowed.1 hallowed.2 retVal now)
  | destroy sk inetSport now => exact hquiet (h.destroy hallowed.1 hallowed.2 now)
  | nat orig reply =>
      obtain ⟨hentry, hrecord, honly, hout, hinn, hnat, hplaces⟩ := h
      exact ⟨hentry, hrecord, honly, hout, hinn, congrArg (handleNat orig reply) hnat, hplaces⟩
  | record tgidFd connInfo => exact h.recordWrite tgidFd connInfo

end Steps

/-- What is known when a connection is entered. -/
def Entry.told (e : Entry) (s₀ : NetState) : Told :=
  ⟨decide (e.connInfo.info.protocol ≠ .unknown), s₀.natFlowMap, s₀.places e.tgidFd⟩

/-- A connection is entered where neither its key nor its descriptor has an entry. -/
theorem Entry.entered {e : Entry} {s₀ : NetState} (hmade : (e.run s₀.tables).1 = true)
    (hnumbered : e.Numbered) (hself : e.sk.key.reverse ≠ e.sk.key)
    (hnew : ∀ key i, s₀.tables.sockKeyConnIdMap key = some i → key ≠ e.sk.key ∧ i.tgidFd ≠ e.tgidFd) :
    e.flow.Entered (e.told s₀) (s₀.withTables (e.run s₀.tables).2) := by
  rcases e.run_cases s₀.tables with hrun | ⟨t', hrun, henters⟩
  · rw [hrun] at hmade
    cases hmade
  · rw [hrun]
    -- `BPF_NOEXIST` stores the entry, for there was none.
    have hnone : s₀.tables.sockKeyConnIdMap e.sk.key = none := by
      rcases hentry : s₀.tables.sockKeyConnIdMap e.sk.key with _ | i
      · rfl
      · exact absurd rfl (hnew _ _ hentry).1
    have hentries := henters.sockKeyConnIdMap
    rw [hnone] at hentries
    dsimp only at hentries
    have hrecord : t'.connInfoMap e.tgidFd = some e.connInfo := by
      rw [henters.connInfoMap, Function.update_self]
    refine ⟨?_, ⟨e.connInfo, hrecord, decide_eq_true_iff⟩, ?_, henters.out hnumbered hself,
      henters.inn hnumbered, rfl, rfl⟩
    · exact (congrFun hentries _).trans (Function.update_self _ _ _)
    · intro key i hi hsame
      change t'.sockKeyConnIdMap key = some i at hi
      by_contra hkey
      rw [hentries] at hi
      exact (hnew key i ((Function.update_of_ne hkey _ _).symm.trans hi)).2 hsame

/-- **A connection in the maps.** Over every run its events tell what they are to. -/
theorem Entry.run_entered {e : Entry} {s₀ : NetState} (hmade : (e.run s₀.tables).1 = true)
    (hnumbered : e.Numbered) (hself : e.sk.key.reverse ≠ e.sk.key)
    (hnew : ∀ key i, s₀.tables.sockKeyConnIdMap key = some i → key ≠ e.sk.key ∧ i.tgidFd ≠ e.tgidFd)
    {ops : List NetOp} {s : NetState}
    (hrun : Trace.Run NetOp.step e.flow.Allows (s₀.withTables (e.run s₀.tables).2) ops s) :
    e.flow.Entered (ops.foldl e.flow.tell (e.told s₀)) s := by
  refine hrun.history (I := fun ops s => e.flow.Entered (ops.foldl e.flow.tell (e.told s₀)) s)
    (Entry.entered hmade hnumbered hself hnew) (fun ops s op s' h hallowed hstep => ?_)
  cases hstep
  rw [List.foldl_concat]
  exact h.step hallowed

/-- **Packets at their positions.** From the moment a connection is entered, and whatever happens to
others, its events are one for each of its packets that is seen after its protocol is known. Each tells
the place of the packet's payload in the stream, under whatever addresses the packet came. -/
theorem packets_at_positions {e : Entry} {s₀ : NetState} (hmade : (e.run s₀.tables).1 = true)
    (hnumbered : e.Numbered) (hself : e.sk.key.reverse ≠ e.sk.key)
    (hnew : ∀ key i, s₀.tables.sockKeyConnIdMap key = some i → key ≠ e.sk.key ∧ i.tgidFd ≠ e.tgidFd)
    {ops : List NetOp} {s : NetState}
    (hrun : Trace.Run NetOp.step e.flow.Allows (s₀.withTables (e.run s₀.tables).2) ops s) :
    s.places e.tgidFd = (ops.foldl e.flow.tell (e.told s₀)).places :=
  (Entry.run_entered hmade hnumbered hself hnew hrun).places

/-! ### A packet to a translated address -/

theorem five_le : 5 ≤ 15 := by decide

theorem zero_lt_nibble : 0 < 16 := by decide

/-- Three bytes from port 443 of a remote host to port 80 of an address that is translated. -/
def toService : TcpPacket :=
  { carrier := .ipv4 ⟨5, 0, Vector.replicate 5 0, Vector.replicate 2 0, 8, 9, [], five_le, rfl⟩
    tcp := ⟨443, 80, 200, Vector.replicate 4 0, 5, 0, 0x18, Vector.replicate 6 0, [], [1, 2, 3], five_le,
      zero_lt_nibble, rfl⟩ }

/-- The packet as the device receives it. -/
def receivedSkb : SkBuff :=
  { head := fun i => (toService.carrier.bytes 23 ++ toService.tcp.bytes).getD i 0, networkHeader := 0
    macHeader := 0, transportHeader := 0xFFFF, protocol := ntohs ethPIp, sk := none, addrpair := false
    ifindex := 2 }

theorem receivedSkb_has : receivedSkb.Has toService where
  lies := rfl
  short := by decide
  l3Proto := by decide
  l4 := by decide
  sameLength := fun _ _ h => by cases h

def connected : Entry := .made noFilters 9 3 (connectTo afInet) .client 1 2

/-- The protocol is found out, the address translated, and the packet received. -/
def receiving : List NetOp :=
  [.record connected.tgidFd { connected.connInfo with
      info := { connected.connInfo.info with protocol := .http } },
    .nat ⟨.ofIpv4 8, .ofIpv4 9, ntohs 443, ntohs 80⟩ ⟨.ofIpv4 7, .ofIpv4 8, ntohs 40000, ntohs 443⟩,
    .buffer receivedSkb toService true AgentStepT.devIn 5]

def beforeReceiving : NetState :=
  NetState.withTables ⟨noConns, fun _ => none, 0, 0, []⟩ (connected.run noConns).2

def afterReceiving : NetState := receiving.foldl (fun s op => op.run s) beforeReceiving

theorem receiving_run :
    Trace.Run NetOp.step connected.flow.Allows beforeReceiving receiving afterReceiving :=
  ((Trace.Run.nil.snoc trivial rfl).snoc trivial rfl).snoc
    ⟨receivedSkb_has, fun h => Bool.noConfusion h⟩ rfl

theorem packets_at_positions_service :
    afterReceiving.places connected.tgidFd = [⟨AgentStepT.devIn, 5, 1, 3⟩] :=
  (packets_at_positions (e := connected) (by decide) ⟨by decide, by decide⟩ (by decide)
    (fun _ _ h => by cases h) receiving_run).trans (by decide)

end Bpf

end Kyanos
