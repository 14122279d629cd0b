/-
`create_conn_info_in_data_syscall`: the record of a connection that was there before the tracer,
built in a structure that each CPU has one of.

The function sets every field it has a value for, and for an IPv4 socket that is the first word of
each address. The three others keep what the last IPv6 socket on that CPU had there. The record is
stored with them, and `filter_conn_info` looks the remote address up by all four. `submit_new_conn`
starts from a record of zeros instead.

`Creation.written` is how much of an address a socket writes, `residue` what earlier sockets leave of
it, and `create_same_iff` says when two histories give the same record and the same decision.
-/
import Kyanos.ConnRecords

set_option autoImplicit false

open GoNum

namespace Kyanos.Bpf

/-! ## The function -/

/-- A call of `create_conn_info_in_data_syscall`: the socket, its process and descriptor, what was
moved and when, and the readings of the clock for the identifier and for the event. -/
structure Creation where
  sk : Sock
  tgidFd : ℕ
  direct : Direction
  bytesCount : ℕ
  ts : ℕ
  tsid : ℕ
  now : ℕ

/-- The record that is built in `newConnInfo`. -/
def fillConnInfo (v6Fields : Bool) (c : Creation) (newConnInfo : ConnRecord) : ConnRecord :=
  let newConnInfo :=
    initConnInfo (c.tgidFd / 2 ^ 32) (intOf 32 (c.tgidFd % 2 ^ 32 : ℕ)) c.tsid newConnInfo
  let key := c.sk.key
  let laddr := { newConnInfo.laddr with port := key.sport }
  let raddr := { newConnInfo.raddr with port := key.dport }
  let family := if useIpv6 v6Fields c.sk then c.sk.family else afInet
  let laddr :=
    if family = afInet then { laddr with addr := { laddr.addr with addr0 := key.sip.addr0 } }
    else if family = afInet6 then { laddr with addr := key.sip } else laddr
  let raddr :=
    if family = afInet then { raddr with addr := { raddr.addr with addr0 := key.dip.addr0 } }
    else if family = afInet6 then { raddr with addr := key.dip } else raddr
  { newConnInfo with
    laddr := { laddr with family := family }, raddr := { raddr with family := family } }

/-- `create_conn_info_in_data_syscall`: whether the connection is traced, the record, and the maps.
The initial sequence numbers are those of before the call. -/
def createConnInfoInDataSyscall (filters : ConnFilters) (v6Fields : Bool) (c : Creation)
    (newConnInfo : ConnRecord) (t : ConnTables) : Bool × ConnRecord × ConnTables :=
  let key := c.sk.key
  let newConnInfo := fillConnInfo v6Fields c newConnInfo
  let (created, t) := createConnInfo filters newConnInfo c.tgidFd key c.ts c.now t
  if !created then (false, newConnInfo, t)
  else
    let bytesCount := UInt32.ofNat c.bytesCount
    let sendInitialSeq :=
      if c.direct = .egress then c.sk.writeSeq - bytesCount - 1 else c.sk.writeSeq - 1
    let rcvInitialSeq :=
      if c.direct = .egress then c.sk.copiedSeq - 1 else c.sk.copiedSeq - bytesCount - 1
    let xmit := Function.update t.sockXmitMap key (some sendInitialSeq)
    let xmit := Function.update xmit (parseSockKeyRcvSk c.sk key) (some rcvInitialSeq)
    (true, newConnInfo, { t with sockXmitMap := xmit })

/-- The calls on one CPU, one after the other. `process_syscall_data` and its sibling unset the
protocol before each. -/
def create (filters : ConnFilters) (v6Fields : Bool) (s : Bool × ConnRecord × ConnTables)
    (c : Creation) : Bool × ConnRecord × ConnTables :=
  let newConnInfo := { s.2.1 with info := { s.2.1.info with protocol := .unset } }
  createConnInfoInDataSyscall filters v6Fields c newConnInfo s.2.2

/-- The state of a CPU whose structure is zero. -/
def fresh (t : ConnTables) : Bool × ConnRecord × ConnTables := (false, .zero, t)

/-! ## What a socket writes, and what earlier ones leave -/

/-- How much of the addresses is written: all of it, the first word, or nothing. -/
inductive Written
  | address
  | firstWord
  | nothing
deriving DecidableEq

def Creation.written (v6Fields : Bool) (c : Creation) : Written :=
  let family := if useIpv6 v6Fields c.sk then c.sk.family else afInet
  if family = afInet then .firstWord else if family = afInet6 then .address else .nothing

/-- The words behind the first one of the local and of the remote address that the last socket which
wrote them had. -/
def residue (v6Fields : Bool) (earlier : List Creation) :
    (UInt32 × UInt32 × UInt32) × UInt32 × UInt32 × UInt32 :=
  match (earlier.filter (fun c => c.written v6Fields = .address)).getLast? with
  | none => (In6Addr.zero.tail, In6Addr.zero.tail)
  | some c => (c.sk.key.sip.tail, c.sk.key.dip.tail)

/-- The first words, of the last socket that wrote them. -/
def firstWords (v6Fields : Bool) (earlier : List Creation) : UInt32 × UInt32 :=
  match (earlier.filter (fun c => c.written v6Fields ≠ .nothing)).getLast? with
  | none => (0, 0)
  | some c => (c.sk.key.sip.addr0, c.sk.key.dip.addr0)

/-- The two histories leave the same where the call does not write. -/
def SameLeft (v6Fields : Bool) (earlier earlier' : List Creation) (c : Creation) : Prop :=
  match c.written v6Fields with
  | .address => True
  | .firstWord => residue v6Fields earlier = residue v6Fields earlier'
  | .nothing => residue v6Fields earlier = residue v6Fields earlier'
      ∧ firstWords v6Fields earlier = firstWords v6Fields earlier'

/-! ## The structure between the calls -/

variable {v6Fields : Bool}

theorem In6Addr.ext_iff {a b : In6Addr} : a = b ↔ a.addr0 = b.addr0 ∧ a.tail = b.tail := by
  constructor
  · rintro rfl
    exact ⟨rfl, rfl⟩
  · obtain ⟨a0, a1, a2, a3⟩ := a
    obtain ⟨b0, b1, b2, b3⟩ := b
    simp only [In6Addr.tail, Prod.mk.injEq]
    rintro ⟨rfl, rfl, rfl, rfl⟩
    rfl

/-- The two addresses of a record. -/
def ConnRecord.addrs (r : ConnRecord) : In6Addr × In6Addr := (r.laddr.addr, r.raddr.addr)

/-- What a call makes of the addresses in the structure. -/
theorem fillConnInfo_addrs (c : Creation) (r : ConnRecord) :
    (fillConnInfo v6Fields c r).addrs = match c.written v6Fields with
      | .address => (c.sk.key.sip, c.sk.key.dip)
      | .firstWord => ({ r.laddr.addr with addr0 := c.sk.key.sip.addr0 },
          { r.raddr.addr with addr0 := c.sk.key.dip.addr0 })
      | .nothing => r.addrs := by
  unfold fillConnInfo Creation.written ConnRecord.addrs
  dsimp only
  generalize (if useIpv6 v6Fields c.sk = true then c.sk.family else afInet) = family
  split_ifs <;> rfl

/-- The fields that no call writes are zero. -/
structure Unwritten (r : ConnRecord) : Prop where
  laddr : r.laddr.flowinfo = 0 ∧ r.laddr.scopeId = 0
  raddr : r.raddr.flowinfo = 0 ∧ r.raddr.scopeId = 0
  info : r.info = ConnRecord.zero.info

/-- The record of a call, but for the addresses. -/
def recordOf (v6Fields : Bool) (c : Creation) (addrs : In6Addr × In6Addr) : ConnRecord :=
  let family := if useIpv6 v6Fields c.sk then c.sk.family else afInet
  { connId := ⟨c.tgidFd / 2 ^ 32, 0, intOf 32 (c.tgidFd % 2 ^ 32 : ℕ), c.tsid⟩
    laddr := ⟨family, c.sk.key.sport, 0, addrs.1, 0⟩
    raddr := ⟨family, c.sk.key.dport, 0, addrs.2, 0⟩
    info := ConnRecord.zero.info }

theorem fillConnInfo_eq {r : ConnRecord} (h : Unwritten r) (c : Creation) :
    fillConnInfo v6Fields c r = recordOf v6Fields c (fillConnInfo v6Fields c r).addrs := by
  obtain ⟨connId, ⟨_, _, lflow, laddr, lscope⟩, ⟨_, _, rflow, raddr, rscope⟩, info⟩ := r
  obtain ⟨⟨rfl, rfl⟩, ⟨rfl, rfl⟩, rfl⟩ := h
  unfold fillConnInfo recordOf ConnRecord.addrs
  dsimp only
  generalize (if useIpv6 v6Fields c.sk = true then c.sk.family else afInet) = family
  split_ifs <;> rfl

theorem recordOf_unwritten (c : Creation) (addrs : In6Addr × In6Addr) :
    Unwritten (recordOf v6Fields c addrs) := ⟨⟨rfl, rfl⟩, ⟨rfl, rfl⟩, rfl⟩

/-! ## Histories -/

/-- The structure after some calls: its addresses are those that were written last. -/
structure Left (v6Fields : Bool) (earlier : List Creation) (r : ConnRecord) : Prop where
  unwritten : Unwritten r
  residue : (r.laddr.addr.tail, r.raddr.addr.tail) = residue v6Fields earlier
  firstWords : (r.laddr.addr.addr0, r.raddr.addr.addr0) = firstWords v6Fields earlier

/-- One more call, on the last words. -/
theorem residue_snoc (earlier : List Creation) (c : Creation) :
    residue v6Fields (earlier ++ [c]) = if c.written v6Fields = .address
      then (c.sk.key.sip.tail, c.sk.key.dip.tail) else residue v6Fields earlier := by
  unfold residue
  rw [List.filter_append]
  split_ifs with hc
  · rw [List.filter_cons_of_pos (by simpa using hc), List.filter_nil, List.getLast?_concat]
  · rw [List.filter_cons_of_neg (by simpa using hc), List.filter_nil, List.append_nil]

/-- One more call, on the first words. -/
theorem firstWords_snoc (earlier : List Creation) (c : Creation) :
    firstWords v6Fields (earlier ++ [c]) = if c.written v6Fields ≠ .nothing
      then (c.sk.key.sip.addr0, c.sk.key.dip.addr0) else firstWords v6Fields earlier := by
  unfold firstWords
  rw [List.filter_append]
  split_ifs with hc
  · rw [List.filter_cons_of_pos (by simpa using hc), List.filter_nil, List.getLast?_concat]
  · rw [List.filter_cons_of_neg (by simpa using hc), List.filter_nil, List.append_nil]

/-- Whether a record is traced is a matter of the record and the filter. -/
def traced (filters : ConnFilters) (r : ConnRecord) : Bool :=
  shouldTraceConn r.info && filterConnInfo filters r && r.laddr.port != 0

theorem createConnInfo_fst (filters : ConnFilters) (r : ConnRecord) (tgidFd : ℕ) (key : SockKey)
    (startTs now : ℕ) (t : ConnTables) :
    (createConnInfo filters r tgidFd key startTs now t).1 = traced filters r := by
  unfold createConnInfo traced
  split_ifs with htraced
  · exact htraced.symm
  · exact (Bool.eq_false_iff.mpr htraced).symm

/-- What a call gives. -/
theorem create_eq (filters : ConnFilters) {s : Bool × ConnRecord × ConnTables}
    (h : Unwritten s.2.1) (c : Creation) :
    (create filters v6Fields s c).1 = traced filters (fillConnInfo v6Fields c s.2.1)
      ∧ (create filters v6Fields s c).2.1 = fillConnInfo v6Fields c s.2.1 := by
  have hunset : { s.2.1 with info := { s.2.1.info with protocol := .unset } } = s.2.1 := by
    rw [h.info]
    exact congrArg (fun info => { s.2.1 with info := info }) h.info.symm
  have hdecision := createConnInfo_fst filters (fillConnInfo v6Fields c s.2.1) c.tgidFd c.sk.key
    c.ts c.now s.2.2
  unfold create createConnInfoInDataSyscall
  dsimp only
  rw [hunset]
  generalize createConnInfo filters (fillConnInfo v6Fields c s.2.1) c.tgidFd c.sk.key c.ts c.now
    s.2.2 = made at hdecision ⊢
  obtain ⟨created, t⟩ := made
  cases created <;> exact ⟨hdecision, rfl⟩

theorem Left.create {filters : ConnFilters} {earlier : List Creation}
    {s : Bool × ConnRecord × ConnTables} (h : Left v6Fields earlier s.2.1) (c : Creation) :
    Left v6Fields (earlier ++ [c]) (create filters v6Fields s c).2.1 := by
  rw [(create_eq filters h.unwritten c).2]
  have haddrs := @fillConnInfo_addrs v6Fields c s.2.1
  rw [fillConnInfo_eq h.unwritten, haddrs]
  refine ⟨recordOf_unwritten c _, ?_, ?_⟩
  · rw [residue_snoc, ← h.residue]
    cases hwritten : c.written v6Fields <;> rfl
  · rw [firstWords_snoc, ← h.firstWords]
    cases hwritten : c.written v6Fields <;> rfl

theorem left_run (filters : ConnFilters) (t : ConnTables) (earlier : List Creation) :
    Left v6Fields earlier (earlier.foldl (create filters v6Fields) (fresh t)).2.1 := by
  induction earlier using List.reverseRecOn with
  | nil => exact ⟨⟨⟨rfl, rfl⟩, ⟨rfl, rfl⟩, rfl⟩, rfl, rfl⟩
  | append_singleton earlier c ih =>
      rw [List.foldl_append]
      exact ih.create c

/-- The addresses of the next record agree just when the words that it does not write do. -/
theorem Left.addrs_iff {earlier earlier' : List Creation} {r r' : ConnRecord}
    (h : Left v6Fields earlier r) (h' : Left v6Fields earlier' r') (c : Creation) :
    (fillConnInfo v6Fields c r).addrs = (fillConnInfo v6Fields c r').addrs
      ↔ SameLeft v6Fields earlier earlier' c := by
  rw [fillConnInfo_addrs, fillConnInfo_addrs, SameLeft, ← h.residue, ← h'.residue, ← h.firstWords,
    ← h'.firstWords]
  cases c.written v6Fields with
  | address => exact iff_of_true rfl trivial
  | firstWord =>
      dsimp only
      rw [Prod.mk.injEq, Prod.mk.injEq, In6Addr.ext_iff, In6Addr.ext_iff]
      exact ⟨fun h => ⟨h.1.2, h.2.2⟩, fun h => ⟨⟨rfl, h.1⟩, ⟨rfl, h.2⟩⟩⟩
  | nothing =>
      dsimp only [ConnRecord.addrs]
      simp only [Prod.mk.injEq, In6Addr.ext_iff]
      tauto

/-- **Records and histories.** After two histories a call gives the same record and the same decision
if and only if these leave the same in the words that the socket does not write. -/
theorem create_same_iff (filters : ConnFilters) (v6Fields : Bool) (t t' : ConnTables)
    (earlier earlier' : List Creation) (c : Creation) :
    ((create filters v6Fields (earlier.foldl (create filters v6Fields) (fresh t)) c).1
        = (create filters v6Fields (earlier'.foldl (create filters v6Fields) (fresh t')) c).1
      ∧ (create filters v6Fields (earlier.foldl (create filters v6Fields) (fresh t)) c).2.1
        = (create filters v6Fields (earlier'.foldl (create filters v6Fields) (fresh t')) c).2.1)
      ↔ SameLeft v6Fields earlier earlier' c := by
  have hleft := @left_run v6Fields filters t earlier
  have hleft' := @left_run v6Fields filters t' earlier'
  obtain ⟨hdecision, hrecord⟩ := create_eq filters hleft.unwritten c
  obtain ⟨hdecision', hrecord'⟩ := create_eq filters hleft'.unwritten c
  rw [hdecision, hrecord, hdecision', hrecord', ← hleft.addrs_iff hleft' c]
  constructor
  · rintro ⟨-, hsame⟩
    rw [hsame]
  · intro haddrs
    have hsame : fillConnInfo v6Fields c (earlier.foldl (create filters v6Fields) (fresh t)).2.1
        = fillConnInfo v6Fields c
          (earlier'.foldl (create filters v6Fields) (fresh t')).2.1 := by
      rw [fillConnInfo_eq hleft.unwritten, fillConnInfo_eq hleft'.unwritten, haddrs]
    exact ⟨by rw [hsame], hsame⟩

/-! ### One IPv6 socket before an IPv4 one -/

/-- The remote addresses that are let through: the IPv4 address 8, and the one that turns the
filter on. -/
def onlyEight : ConnFilters :=
  { noFilters with enabledRemoteIp := fun a => a = .ofIpv4 8 || a = .ofIpv4 1 }

/-- Data on a socket of a family, seen for the first time. -/
def dataOn (family : UInt16) : Creation :=
  ⟨{ connectedSock family with ipv6only := family = afInet6 }, 5, .egress, 10, 1, 2, 3⟩

/-- The connection to the address 8 is traced on a new CPU, and not after the other one. -/
theorem ipv6_residue_changes_decision :
    (create onlyEight true ([].foldl (create onlyEight true) (fresh noConns)) (dataOn afInet)).1
        = true
      ∧ (create onlyEight true ([dataOn afInet6].foldl (create onlyEight true) (fresh noConns))
          (dataOn afInet)).1 = false := by
  decide

end Kyanos.Bpf
