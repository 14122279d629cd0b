/-
`agent/conn/conntrack.go`, the two indexes of connections, and the part of `Processor.run`
that maintains them.

`ConnManager.connMap` finds a connection by process and file descriptor, the global
`ConnectionMap` by the addresses of its socket. A descriptor is reused, so the connection
under it is the latest incarnation, and the earlier ones hang on its `prevConn`, oldest
first. Connections are shared pointers: here they live in a heap and are named by their
place in it, so that "the very object" is equality of names.

Left out are the fields no function here reads (buffers, queues, filters, the temporary
events that move from one incarnation to the next) and the BPF maps.

Two results stand at the end. `LookupConnection4ByTimestamp` returns the right incarnation
exactly when its own test of the current connection agrees with `timeBoundCheck`
(`lookup_eq_rightIncarnation_iff`). And the indexes agree on the live connections as long as
no step stores or deletes the key of another live connection, which nothing in the code
prevents (`indexes_agree`).
-/
import Kyanos.ParseStream
import Kyanos.SortedMap
import Kyanos.Trace

set_option autoImplicit false

open GoNum

namespace Kyanos.ConnManager

/-! ## Connections and their keys -/

/-- `ConnStatus`. -/
inductive ConnStatus
  | connected
  | closed
deriving DecidableEq, Repr

/-- `bpf.AgentSockKey`. -/
structure SockKey where
  sip : ℕ × ℕ
  dip : ℕ × ℕ
  sport : ℕ
  dport : ℕ
deriving DecidableEq, Repr

/-- `Connection4`, as far as the indexes read it. A `prevConn` holds heap places. -/
structure Connection4 where
  localIp : List UInt8
  remoteIp : List UInt8
  localPort : ℕ
  remotePort : ℕ
  protocol : ℕ
  role : Role
  tgidFd : ℕ
  status : ConnStatus
  connectStartTs : ℕ
  closeTs : ℕ
  prevConn : List ℕ
deriving DecidableEq, Repr

/-- `BytesToInt` of a `width`-byte type: 0 when there are too few bytes, the rest unread when
there are too many. -/
def bytesToInt (width : ℕ) (bytes : List UInt8) : ℕ :=
  if bytes.length < width then 0 else littleEndian (bytes.take width)

/-- `BytesToSockKey`. -/
def bytesToSockKey (ip : List UInt8) : ℕ × ℕ :=
  if ip.length = 16 then (bytesToInt 8 (ip.take 8), bytesToInt 8 (ip.drop 8))
  else (bytesToInt 4 ip, 0)

namespace Connection4

/-- `extractSockKeys`, the first of the two. -/
def sockKey (c : Connection4) : SockKey :=
  { sip := bytesToSockKey c.localIp
    dip := bytesToSockKey c.remoteIp
    sport := c.localPort
    dport := c.remotePort }

/-- `IsIpPortEqualsWith`. -/
def isIpPortEqualsWith (c o : Connection4) : Bool :=
  c.localIp = o.localIp && c.remoteIp = o.remoteIp && c.remotePort = o.remotePort &&
    c.localPort = o.localPort

/-- `timeBoundCheck`. -/
def timeBoundCheck (c : Connection4) (toCheck : ℕ) : Bool :=
  if c.connectStartTs = 0 then true
  else if toCheck < c.connectStartTs then false
  else if c.closeTs ≠ 0 ∧ toCheck > c.closeTs then false
  else true

/-- The connection without its list of incarnations, which is all the keys, the status and
the times depend on. -/
def core (c : Connection4) : Connection4 := { c with prevConn := [] }

theorem sockKey_congr {c d : Connection4} (h : c.core = d.core) : c.sockKey = d.sockKey :=
  (congrArg sockKey h : c.core.sockKey = d.core.sockKey)

theorem status_congr {c d : Connection4} (h : c.core = d.core) : c.status = d.status :=
  (congrArg status h : c.core.status = d.core.status)

end Connection4

/-! ## Connection events -/

/-- `bpf.AgentConnTypeT`. -/
inductive ConnType
  | connect
  | close
  | protocolInfer
deriving DecidableEq, Repr

/-- `common.AF_INET6`. -/
def afInet6 : ℕ := 10

/-- `bpf.AgentConnEvtT`: the addresses are the 16 bytes of a `sockaddr_in6`, of which an IPv4
address takes the first four. -/
structure ConnEvt where
  connType : ConnType
  ts : ℕ
  pid : ℕ
  fd : ℤ
  family : ℕ
  laddr : Vector UInt8 16
  raddr : Vector UInt8 16
  lport : ℕ
  rport : ℕ
  protocol : ℕ
  role : Role
deriving DecidableEq, Repr

/-- `BytesToNetIP`. -/
def bytesToNetIP (addr : List UInt8) (isIpv6 : Bool) : List UInt8 :=
  if isIpv6 then addr else addr.take 4

namespace ConnEvt

/-- `uint64(Pid)<<32 | uint64(Fd)`; the conversion of a negative descriptor extends its sign. -/
def tgidFd (event : ConnEvt) : ℕ := u64 (event.pid <<< 32) ||| ofInt64 event.fd

/-- The connection `NewConnFromEvent` builds. -/
def conn (launchEpochTime : ℕ) (event : ConnEvt) : Connection4 :=
  let isIpv6 : Bool := event.family = afInet6
  { localIp := bytesToNetIP event.laddr.toList isIpv6
    remoteIp := bytesToNetIP event.raddr.toList isIpv6
    localPort := event.lport
    remotePort := event.rport
    protocol := event.protocol
    role := event.role
    tgidFd := event.tgidFd
    status := .connected
    connectStartTs := u64 (event.ts + launchEpochTime)
    closeTs := 0
    prevConn := [] }

end ConnEvt

/-! ## The maps -/

/-- `ConnectionMap`, which is stored to, deleted from and looked up but never ranged over. -/
abbrev ConnectionMap := SockKey → Option ℕ

namespace ConnectionMap

def store (m : ConnectionMap) (key : SockKey) (conn : ℕ) : ConnectionMap :=
  fun k => if k = key then some conn else m k

def delete (m : ConnectionMap) (key : SockKey) : ConnectionMap :=
  fun k => if k = key then none else m k

theorem foldl_delete (m : ConnectionMap) (keys : List SockKey) (k : SockKey) :
    keys.foldl delete m k = if k ∈ keys then none else m k := by
  induction keys generalizing m with
  | nil => simp
  | cons key keys ih =>
      rw [List.foldl_cons, ih]
      by_cases hk : k ∈ keys
      · simp [hk]
      · by_cases hkey : k = key
        · simp [delete, hkey]
        · simp [delete, hk, hkey]

end ConnectionMap

/-- The heap of connections, the two indexes, the counters of the manager, and the
goroutines that wait to call `OnClose`. -/
structure State where
  heap : ℕ → Connection4
  next : ℕ
  connMap : SortedMap ℕ ℕ
  connectionMap : ConnectionMap
  connectionAdded : ℕ
  connectionClosed : ℕ
  closing : List ℕ

namespace State

/-- An unused place of the heap. -/
def unused : Connection4 :=
  { localIp := [], remoteIp := [], localPort := 0, remotePort := 0, protocol := 0,
    role := .unknown, tgidFd := 0, status := .connected, connectStartTs := 0, closeTs := 0,
    prevConn := [] }

/-- The state `InitConnManager` leaves. -/
def init : State :=
  { heap := fun _ => unused, next := 0, connMap := SortedMap.empty,
    connectionMap := fun _ => none, connectionAdded := 0, connectionClosed := 0, closing := [] }

/-- Write to one connection. -/
def modify (s : State) (conn : ℕ) (f : Connection4 → Connection4) : State :=
  { s with heap := fun id => if id = conn then f (s.heap id) else s.heap id }

/-- `NewConnFromEvent`: the new connection goes into `ConnectionMap` at once. -/
def newConnFromEvent (launchEpochTime : ℕ) (event : ConnEvt) (s : State) : ℕ × State :=
  let conn := event.conn launchEpochTime
  (s.next,
    { s with
      heap := fun id => if id = s.next then conn else s.heap id
      next := s.next + 1
      connectionMap := s.connectionMap.store conn.sockKey s.next })

/-- The keys `RemoveConnFromSockKeyMap` deletes. -/
def sockKeys (s : State) (conn : ℕ) : List SockKey :=
  (s.heap conn).sockKey :: (s.heap conn).prevConn.map (fun prev => (s.heap prev).sockKey)

/-- `RemoveConnFromSockKeyMap`. -/
def removeConnFromSockKeyMap (s : State) (conn : ℕ) : State :=
  { s with connectionMap := (s.sockKeys conn).foldl ConnectionMap.delete s.connectionMap }

/-- A loop `for idx := n-1; idx >= 0; idx--` that stops at the first element with the
property. -/
def lastIdx (p : ℕ → Bool) (l : List ℕ) : ℕ → Option ℕ
  | 0 => none
  | idx + 1 =>
      match l[idx]? with
      | none => none
      | some c => if p c then some idx else lastIdx p l idx

/-- `FindConnection4Exactly`. -/
def findConnection4Exactly (s : State) (tgidFd : ℕ) : Option ℕ := s.connMap.get? tgidFd

/-- The number of connections at the front of a `prevConn` that `AddConnection4` deletes:
everything up to the last closed one. -/
def deleteEnd (s : State) (prevConn : List ℕ) : ℕ :=
  match lastIdx (fun c => (s.heap c).status = .closed) prevConn prevConn.length with
  | none => 0
  | some deleteEndIdx => deleteEndIdx + 1

/-- `AddConnection4`. -/
def addConnection4 (s : State) (tgidFd conn : ℕ) : State :=
  match s.findConnection4Exactly tgidFd with
  | some existedConn =>
      if (s.heap existedConn).isIpPortEqualsWith (s.heap conn) then s
      else
        let prevConn := (s.heap existedConn).prevConn
        let s := s.modify existedConn (fun c => { c with prevConn := [] })
        let deleted := prevConn.take (s.deleteEnd prevConn)
        let kept := prevConn.drop (s.deleteEnd prevConn)
        let s := deleted.foldl removeConnFromSockKeyMap s
        let s := s.modify conn (fun c => { c with prevConn := kept ++ [existedConn] })
        { s with
          connMap := s.connMap.put tgidFd conn
          connectionClosed := s.connectionClosed + deleted.length
          connectionAdded := s.connectionAdded + 1 }
  | none =>
      { s with
        connMap := s.connMap.put tgidFd conn
        connectionAdded := s.connectionAdded + 1 }

/-- `LookupConnection4ByTimestamp`. -/
def lookupConnection4ByTimestamp (s : State) (tgidFd ts : ℕ) : Option ℕ :=
  match s.connMap.get? tgidFd with
  | none => none
  | some connection =>
      if (s.heap connection).connectStartTs < ts then some connection
      else
        let curConnList := (s.heap connection).prevConn
        match lastIdx (fun c => (s.heap c).timeBoundCheck ts) curConnList curConnList.length with
        | none => none
        | some idx => curConnList[idx]?

/-! ## The events -/

/-- A connection made for an event and put under its descriptor. -/
def create (launchEpochTime : ℕ) (event : ConnEvt) (s : State) : State :=
  let (conn, s) := s.newConnFromEvent launchEpochTime event
  s.addConnection4 event.tgidFd conn

/-- The role an infer event gives a connection that has none. -/
def inferredRole (event : ConnEvt) (c : Connection4) : Connection4 :=
  if c.role = .unknown ∧ event.role ≠ .unknown then { c with role := event.role } else c

/-- The case `<-p.connEvents` of `Processor.run`. -/
def onConnEvent (launchEpochTime : ℕ) (event : ConnEvt) (s : State) : State :=
  match event.connType with
  | .connect => s.create launchEpochTime event
  | .close =>
      match s.findConnection4Exactly event.tgidFd with
      | none => s
      | some conn =>
          let s := s.modify conn (fun c => { c with closeTs := u64 (event.ts + launchEpochTime) })
          { s with closing := s.closing ++ [conn] }
  | .protocolInfer =>
      match s.lookupConnection4ByTimestamp event.tgidFd (u64 (event.ts + launchEpochTime)) with
      | some conn =>
          if (s.heap conn).status ≠ .closed then
            s.modify conn (fun c => inferredRole event { c with protocol := event.protocol })
          else s
      -- the role of the new connection is already the event's
      | none => s.create launchEpochTime event

/-- `OnClose`, which one of the waiting goroutines calls. -/
def onClose (conn : ℕ) (s : State) : State :=
  let s := s.modify conn (fun c => { c with status := .closed })
  { s with closing := s.closing.erase conn }

/-- The descriptors whose connection is closed; `Range` visits them in no particular order,
and the deletions below do not depend on it. -/
def needsDelete (s : State) : List ℕ :=
  (s.connMap.entries.filter (fun e => (s.heap e.2).status = .closed)).map Prod.fst

/-- The body of the loop over `_needsDelete`. -/
def loadAndDelete (s : State) (tgidFd : ℕ) : State :=
  match s.connMap.get? tgidFd with
  | none => s
  | some conn => removeConnFromSockKeyMap { s with connMap := s.connMap.remove tgidFd } conn

/-- The cleanup of `InitConnManager`, every 15 seconds. -/
def tick (s : State) : State :=
  let s' := s.needsDelete.foldl loadAndDelete s
  { s' with connectionClosed := s'.connectionClosed + s.needsDelete.length }

end State

/-- What happens to the connection tracker. -/
inductive Act
  | connEvent (event : ConnEvt)
  | onClose (conn : ℕ)
  | tick
deriving DecidableEq, Repr

def step (launchEpochTime : ℕ) (s : State) : Act → Except Panic State
  | .connEvent event => .ok (s.onConnEvent launchEpochTime event)
  | .onClose conn => .ok (s.onClose conn)
  | .tick => .ok s.tick

/-- `OnClose` is only called by a goroutine that a close event started. -/
def Enabled (s : State) : Act → Prop
  | .onClose conn => conn ∈ s.closing
  | _ => True

/-- The runs of the connection tracker. -/
def Runs (launchEpochTime : ℕ) : List Act → State → Prop :=
  Trace.Run (step launchEpochTime) Enabled State.init

theorem Runs.snoc {launchEpochTime : ℕ} {acts : List Act} {act : Act} {s s' : State}
    (h : Runs launchEpochTime acts s) (henabled : Enabled s act)
    (hstep : step launchEpochTime s act = .ok s') : Runs launchEpochTime (acts ++ [act]) s' :=
  Trace.Run.snoc h henabled hstep

namespace State

/-! ## How the heap grows -/

/-- Places are used in order: what the indexes hold has been allocated, and an incarnation
hangs only on later ones. -/
structure WellLinked (s : State) : Prop where
  allocated : ∀ tgidFd conn, s.connMap.get? tgidFd = some conn → conn < s.next
  earlier : ∀ conn prev, prev ∈ (s.heap conn).prevConn → prev < conn

theorem modify_heap (s : State) (conn : ℕ) (f : Connection4 → Connection4) (id : ℕ) :
    (s.modify conn f).heap id = if id = conn then f (s.heap id) else s.heap id := rfl

theorem wellLinked_init : init.WellLinked := by
  constructor
  · intro tgidFd conn h
    simp [init, SortedMap.empty, SortedMap.get?] at h
  · intro conn prev h
    simp [init, unused] at h

theorem foldl_removeConn_eq (l : List ℕ) (s : State) :
    l.foldl removeConnFromSockKeyMap s =
      { s with
        connectionMap := (l.flatMap s.sockKeys).foldl ConnectionMap.delete s.connectionMap } := by
  induction l generalizing s with
  | nil => rfl
  | cons conn l ih =>
      rw [List.foldl_cons, ih, List.flatMap_cons, List.foldl_append]
      rfl

/-! ## What `AddConnection4` does -/

/-- The event's connection takes the place of another under the same descriptor. -/
def Replaces (s : State) (launchEpochTime : ℕ) (event : ConnEvt) (existedConn : ℕ) : Prop :=
  s.connMap.get? event.tgidFd = some existedConn ∧
    (s.heap existedConn).isIpPortEqualsWith (event.conn launchEpochTime) = false

/-- The incarnations that `AddConnection4` lets go of. -/
def deletedConns (s : State) (existedConn : ℕ) : List ℕ :=
  (s.heap existedConn).prevConn.take (s.deleteEnd (s.heap existedConn).prevConn)

/-- The keys that a new connection for this event makes `AddConnection4` delete. -/
def deletedKeys (s : State) (launchEpochTime : ℕ) (event : ConnEvt) : List SockKey :=
  match s.connMap.get? event.tgidFd with
  | none => []
  | some existedConn =>
      if (s.heap existedConn).isIpPortEqualsWith (event.conn launchEpochTime) then []
      else (s.deletedConns existedConn).flatMap s.sockKeys

theorem lastIdx_congr {p q : ℕ → Bool} {l : List ℕ} (h : ∀ c ∈ l, p c = q c) (n : ℕ) :
    lastIdx p l n = lastIdx q l n := by
  induction n with
  | zero => rfl
  | succ n ih =>
      rw [lastIdx, lastIdx]
      rcases hn : l[n]? with _ | c
      · rfl
      · simp only [h c (List.mem_of_getElem? hn), ih]

section Create

variable {s : State} {launchEpochTime : ℕ} {event : ConnEvt}

/-- The state after `NewConnFromEvent`. -/
def allocate (s : State) (launchEpochTime : ℕ) (event : ConnEvt) : State :=
  (s.newConnFromEvent launchEpochTime event).2

theorem allocate_heap (id : ℕ) : (s.allocate launchEpochTime event).heap id =
    if id = s.next then event.conn launchEpochTime else s.heap id := rfl

theorem allocate_heap_of_lt {id : ℕ} (hid : id < s.next) :
    (s.allocate launchEpochTime event).heap id = s.heap id := by
  rw [allocate_heap, if_neg (by omega)]

/-- The heap `AddConnection4` reads the incarnations of the old connection from: the new
connection is in it and the old one's list is cleared, but the incarnations are as before. -/
theorem cleared_heap_of_lt {existedConn id : ℕ} (hex : existedConn < s.next)
    (hid : id < existedConn) :
    ((s.allocate launchEpochTime event).modify existedConn
      (fun c => { c with prevConn := [] })).heap id = s.heap id := by
  rw [modify_heap, if_neg (by omega), allocate_heap_of_lt (by omega)]

theorem cleared_deleteEnd (hs : s.WellLinked) {existedConn : ℕ} (hex : existedConn < s.next) :
    ((s.allocate launchEpochTime event).modify existedConn
      (fun c => { c with prevConn := [] })).deleteEnd (s.heap existedConn).prevConn =
      s.deleteEnd (s.heap existedConn).prevConn := by
  unfold deleteEnd
  rw [lastIdx_congr]
  intro c hc
  rw [cleared_heap_of_lt hex (hs.earlier _ c hc)]

theorem cleared_sockKeys (hs : s.WellLinked) {existedConn id : ℕ} (hex : existedConn < s.next)
    (hid : id < existedConn) :
    ((s.allocate launchEpochTime event).modify existedConn
      (fun c => { c with prevConn := [] })).sockKeys id = s.sockKeys id := by
  unfold sockKeys
  rw [cleared_heap_of_lt hex hid]
  congr 1
  apply List.map_congr_left
  intro prev hprev
  rw [cleared_heap_of_lt hex (by have := hs.earlier id prev hprev; omega)]

theorem cleared_deletedKeys (hs : s.WellLinked) {existedConn : ℕ} (hex : existedConn < s.next) :
    (s.deletedConns existedConn).flatMap
      ((s.allocate launchEpochTime event).modify existedConn
        (fun c => { c with prevConn := [] })).sockKeys =
      (s.deletedConns existedConn).flatMap s.sockKeys := by
  apply List.flatMap_congr
  intro id hid
  exact cleared_sockKeys hs hex (hs.earlier _ id (List.mem_of_mem_take hid))

/-- `AddConnection4` without an older connection. -/
theorem create_of_none (h : s.connMap.get? event.tgidFd = none) :
    s.create launchEpochTime event =
      { s.allocate launchEpochTime event with
        connMap := s.connMap.put event.tgidFd s.next
        connectionAdded := s.connectionAdded + 1 } := by
  have hfind : (s.allocate launchEpochTime event).findConnection4Exactly event.tgidFd = none := h
  change (s.allocate launchEpochTime event).addConnection4 event.tgidFd s.next = _
  rw [addConnection4, hfind]
  rfl

/-- `AddConnection4` with an older connection between the same addresses: the new one stays
outside `connMap`, although `ConnectionMap` has it already. -/
theorem create_of_same (hs : s.WellLinked) {existedConn : ℕ}
    (h : s.connMap.get? event.tgidFd = some existedConn)
    (hsame : (s.heap existedConn).isIpPortEqualsWith (event.conn launchEpochTime) = true) :
    s.create launchEpochTime event = s.allocate launchEpochTime event := by
  have hex := hs.allocated _ _ h
  have hfind : (s.allocate launchEpochTime event).findConnection4Exactly event.tgidFd =
      some existedConn := h
  change (s.allocate launchEpochTime event).addConnection4 event.tgidFd s.next = _
  rw [addConnection4, hfind]
  simp only [allocate_heap_of_lt hex, allocate_heap s.next, if_true, hsame]

/-- `AddConnection4` with an older connection between other addresses. -/
theorem create_of_replaces (hs : s.WellLinked) {existedConn : ℕ}
    (h : s.Replaces launchEpochTime event existedConn) :
    s.create launchEpochTime event =
      { s.allocate launchEpochTime event with
        heap := fun id =>
          if id = s.next then
            { event.conn launchEpochTime with
              prevConn := (s.heap existedConn).prevConn.drop
                (s.deleteEnd (s.heap existedConn).prevConn) ++ [existedConn] }
          else if id = existedConn then { s.heap id with prevConn := [] }
          else s.heap id
        connMap := s.connMap.put event.tgidFd s.next
        connectionMap :=
          ((s.deletedConns existedConn).flatMap s.sockKeys).foldl ConnectionMap.delete
            (s.allocate launchEpochTime event).connectionMap
        connectionClosed := s.connectionClosed + (s.deletedConns existedConn).length
        connectionAdded := s.connectionAdded + 1 } := by
  obtain ⟨hget, hdiff⟩ := h
  have hex := hs.allocated _ _ hget
  have hfind : (s.allocate launchEpochTime event).findConnection4Exactly event.tgidFd =
      some existedConn := hget
  change (s.allocate launchEpochTime event).addConnection4 event.tgidFd s.next = _
  rw [addConnection4, hfind]
  simp only [allocate_heap_of_lt hex, allocate_heap s.next, if_true, hdiff, Bool.false_eq_true,
    if_false, cleared_deleteEnd hs hex]
  rw [foldl_removeConn_eq]
  -- the keys are read after the old connection was cleared, which they do not depend on
  have hdel := @cleared_deletedKeys s launchEpochTime event hs existedConn hex
  unfold deletedConns at hdel ⊢
  rw [hdel]
  congr 1
  funext id
  simp only [modify_heap, allocate_heap]
  by_cases hnext : id = s.next
  · have hne : id ≠ existedConn := by omega
    simp [hnext, Nat.ne_of_gt hex]
  · by_cases hid : id = existedConn
    · simp [hid, Nat.ne_of_lt hex]
    · simp [hnext, hid]

/-- Whether the new connection goes into `connMap`. -/
def Stores (s : State) (launchEpochTime : ℕ) (event : ConnEvt) : Prop :=
  ∀ existedConn, s.connMap.get? event.tgidFd = some existedConn →
    (s.heap existedConn).isIpPortEqualsWith (event.conn launchEpochTime) = false

/-- What a new connection changes, read off the two indexes and the heap. -/
structure Created (s : State) (launchEpochTime : ℕ) (event : ConnEvt) (s' : State) : Prop where
  next : s'.next = s.next + 1
  core : ∀ id, (s'.heap id).core =
    if id = s.next then (event.conn launchEpochTime).core else (s.heap id).core
  earlier : ∀ conn prev, prev ∈ (s'.heap conn).prevConn → prev < conn
  stored : s.Stores launchEpochTime event →
    ∀ t, s'.connMap.get? t = if t = event.tgidFd then some s.next else s.connMap.get? t
  dropped : ¬ s.Stores launchEpochTime event → s'.connMap = s.connMap
  connectionMap : ∀ k, s'.connectionMap k =
    if k ∈ s.deletedKeys launchEpochTime event then none
    else if k = (event.conn launchEpochTime).sockKey then some s.next
    else s.connectionMap k

theorem allocate_core (id : ℕ) : ((s.allocate launchEpochTime event).heap id).core =
    if id = s.next then (event.conn launchEpochTime).core else (s.heap id).core := by
  rw [allocate_heap]
  split_ifs <;> rfl

theorem allocate_earlier (hs : s.WellLinked) (conn prev : ℕ)
    (hprev : prev ∈ ((s.allocate launchEpochTime event).heap conn).prevConn) : prev < conn := by
  rw [allocate_heap] at hprev
  split_ifs at hprev with hid
  · simp [ConnEvt.conn] at hprev
  · exact hs.earlier conn prev hprev

theorem create_spec (hs : s.WellLinked) :
    s.Created launchEpochTime event (s.create launchEpochTime event) := by
  -- the branches of `AddConnection4`: no connection yet, the same one, another one
  rcases hget : s.connMap.get? event.tgidFd with _ | existedConn
  · have hstores : s.Stores launchEpochTime event := by
      intro existedConn h
      rw [hget] at h
      cases h
    rw [create_of_none hget]
    refine ⟨rfl, allocate_core, allocate_earlier hs, fun _ t => SortedMap.get?_put _ _ _ _,
      fun h => absurd hstores h, ?_⟩
    intro k
    simp only [deletedKeys, hget, List.not_mem_nil, if_false]
    rfl
  · have hex := hs.allocated _ _ hget
    by_cases hsame : (s.heap existedConn).isIpPortEqualsWith (event.conn launchEpochTime) = true
    · have hstores : ¬ s.Stores launchEpochTime event := by
        intro h
        rw [h existedConn hget] at hsame
        cases hsame
      rw [create_of_same hs hget hsame]
      refine ⟨rfl, allocate_core, allocate_earlier hs, fun h => absurd h hstores,
        fun _ => rfl, ?_⟩
      intro k
      simp only [deletedKeys, hget, hsame, if_true, List.not_mem_nil, if_false]
      rfl
    · rw [Bool.not_eq_true] at hsame
      have hstores : s.Stores launchEpochTime event := by
        intro c hc
        rw [hget, Option.some.injEq] at hc
        rw [← hc]
        exact hsame
      rw [create_of_replaces hs ⟨hget, hsame⟩]
      refine ⟨rfl, ?_, ?_, fun _ t => SortedMap.get?_put _ _ _ _, fun h => absurd hstores h, ?_⟩
      · intro id
        dsimp only
        split_ifs <;> rfl
      · intro conn prev hprev
        dsimp only at hprev
        -- the new connection inherits the incarnations, the old one keeps none
        split_ifs at hprev with hnext hid
        · rcases List.mem_append.mp hprev with hprev | hprev
          · have := hs.earlier existedConn prev (List.mem_of_mem_drop hprev)
            omega
          · rw [List.mem_singleton] at hprev
            omega
        · simp at hprev
        · exact hs.earlier conn prev hprev
      · intro k
        dsimp only
        rw [ConnectionMap.foldl_delete]
        simp only [deletedKeys, hget, hsame, Bool.false_eq_true, if_false]
        rfl

theorem WellLinked.create (hs : s.WellLinked) : (s.create launchEpochTime event).WellLinked := by
  have hc : s.Created launchEpochTime event (s.create launchEpochTime event) := create_spec hs
  refine ⟨?_, hc.earlier⟩
  intro t conn hget
  rw [hc.next]
  by_cases hstores : s.Stores launchEpochTime event
  · rw [hc.stored hstores] at hget
    split_ifs at hget with ht
    · rw [Option.some.injEq] at hget
      omega
    · have := hs.allocated t conn hget
      omega
  · rw [hc.dropped hstores] at hget
    have := hs.allocated t conn hget
    omega

end Create

/-! ## What a tick does -/

/-- The keys a tick deletes. -/
def expiredKeys (s : State) : List SockKey :=
  (s.connMap.entries.filter (fun e => (s.heap e.2).status = .closed)).flatMap
    (fun e => s.sockKeys e.2)

theorem foldl_loadAndDelete_eq (s : State) (l : List (ℕ × ℕ))
    (hl : l.Pairwise (fun a b => a.1 ≠ b.1)) (hget : ∀ e ∈ l, s.connMap.get? e.1 = some e.2) :
    (l.map Prod.fst).foldl loadAndDelete s =
      { s with
        connMap := s.connMap.removeAll (l.map Prod.fst)
        connectionMap :=
          (l.flatMap (fun e => s.sockKeys e.2)).foldl ConnectionMap.delete s.connectionMap } := by
  induction l generalizing s with
  | nil => rfl
  | cons e l ih =>
      obtain ⟨hne, hl⟩ := List.pairwise_cons.mp hl
      have hload : s.loadAndDelete e.1 =
          removeConnFromSockKeyMap { s with connMap := s.connMap.remove e.1 } e.2 := by
        rw [loadAndDelete, hget e List.mem_cons_self]
      rw [List.map_cons, List.foldl_cons, hload, ih _ hl]
      · rw [List.flatMap_cons, List.foldl_append]
        rfl
      -- the descriptors differ, so the ones to come are still in the map
      · intro e' he'
        change (s.connMap.remove e.1).get? e'.1 = some e'.2
        rw [SortedMap.get?_remove, if_neg (hne e' he').symm, hget e' (List.mem_cons_of_mem _ he')]

/-- A tick removes the closed connections and the keys of their incarnations. -/
theorem tick_eq (s : State) :
    s.tick =
      { s with
        connMap := s.connMap.removeAll s.needsDelete
        connectionMap := s.expiredKeys.foldl ConnectionMap.delete s.connectionMap
        connectionClosed := s.connectionClosed + s.needsDelete.length } := by
  have hfold := s.foldl_loadAndDelete_eq
    (s.connMap.entries.filter (fun e => (s.heap e.2).status = .closed))
    ((s.connMap.sorted.filter _).imp (fun h => Nat.ne_of_lt h))
    (fun e he => SortedMap.mem_entries.mp (List.mem_filter.mp he).1)
  unfold tick needsDelete expiredKeys
  rw [hfold]

theorem mem_needsDelete {s : State} {tgidFd : ℕ} : tgidFd ∈ s.needsDelete ↔
    ∃ conn, s.connMap.get? tgidFd = some conn ∧ (s.heap conn).status = .closed := by
  unfold needsDelete
  simp only [List.mem_map, List.mem_filter, decide_eq_true_eq]
  constructor
  · rintro ⟨⟨t, conn⟩, ⟨hmem, hclosed⟩, rfl⟩
    exact ⟨conn, SortedMap.mem_entries.mp hmem, hclosed⟩
  · rintro ⟨conn, hget, hclosed⟩
    exact ⟨(tgidFd, conn), ⟨SortedMap.mem_entries.mpr hget, hclosed⟩, rfl⟩

theorem WellLinked.tick {s : State} (hs : s.WellLinked) : s.tick.WellLinked := by
  rw [tick_eq]
  refine ⟨?_, hs.earlier⟩
  intro t conn hget
  dsimp only at hget ⊢
  rw [SortedMap.get?_removeAll] at hget
  split_ifs at hget
  exact hs.allocated t conn hget

/-- Whether an event makes a new connection. -/
def Creates (s : State) (launchEpochTime : ℕ) (event : ConnEvt) : Prop :=
  event.connType = .connect ∨
    event.connType = .protocolInfer ∧
      s.lookupConnection4ByTimestamp event.tgidFd (u64 (event.ts + launchEpochTime)) = none

/-- Nothing changes that the indexes depend on. -/
structure Quiet (s s' : State) : Prop where
  next : s'.next = s.next
  connMap : s'.connMap = s.connMap
  connectionMap : s'.connectionMap = s.connectionMap
  prevConn : ∀ id, (s'.heap id).prevConn = (s.heap id).prevConn
  sockKey : ∀ id, (s'.heap id).sockKey = (s.heap id).sockKey
  status : ∀ id, (s'.heap id).status = (s.heap id).status

theorem quiet_refl (s : State) : s.Quiet s :=
  ⟨rfl, rfl, rfl, fun _ => rfl, fun _ => rfl, fun _ => rfl⟩

theorem quiet_modify (s : State) (conn : ℕ) (f : Connection4 → Connection4)
    (hf : ∀ c, (f c).prevConn = c.prevConn ∧ (f c).sockKey = c.sockKey ∧ (f c).status = c.status) :
    s.Quiet (s.modify conn f) := by
  refine ⟨rfl, rfl, rfl, ?_, ?_, ?_⟩
  all_goals
    intro id
    rw [modify_heap]
    split_ifs
  · exact (hf _).1
  · rfl
  · exact (hf _).2.1
  · rfl
  · exact (hf _).2.2
  · rfl

theorem inferredRole_quiet (event : ConnEvt) (c : Connection4) :
    (inferredRole event c).prevConn = c.prevConn ∧
      (inferredRole event c).sockKey = c.sockKey ∧
      (inferredRole event c).status = c.status := by
  unfold inferredRole
  split_ifs <;> exact ⟨rfl, rfl, rfl⟩

/-- What a connection event can do: make a connection, or write to one in a way the indexes
do not see. -/
theorem onConnEvent_cases (s : State) (launchEpochTime : ℕ) (event : ConnEvt) :
    (s.Creates launchEpochTime event ∧
      s.onConnEvent launchEpochTime event = s.create launchEpochTime event) ∨
    (¬ s.Creates launchEpochTime event ∧ s.Quiet (s.onConnEvent launchEpochTime event)) := by
  rcases htype : event.connType
  · left
    exact ⟨Or.inl htype, by rw [onConnEvent, htype]⟩
  -- a close event only writes the time of closing; the status follows later
  · right
    refine ⟨by simp [Creates, htype], ?_⟩
    rw [onConnEvent, htype]
    rcases hfind : s.findConnection4Exactly event.tgidFd with _ | conn
    · exact s.quiet_refl
    · have hq := s.quiet_modify conn
        (fun c => { c with closeTs := u64 (event.ts + launchEpochTime) })
        (fun c => ⟨rfl, rfl, rfl⟩)
      exact ⟨rfl, rfl, rfl, hq.prevConn, hq.sockKey, hq.status⟩
  -- an inferred protocol makes a connection only when the lookup finds none
  · rcases hlook : s.lookupConnection4ByTimestamp event.tgidFd
      (u64 (event.ts + launchEpochTime)) with _ | conn
    · left
      refine ⟨Or.inr ⟨htype, hlook⟩, ?_⟩
      rw [onConnEvent, htype]
      simp only [hlook]
    · right
      refine ⟨by simp [Creates, htype, hlook], ?_⟩
      rw [onConnEvent, htype]
      simp only [hlook]
      split_ifs
      · exact s.quiet_modify conn _ (fun c => inferredRole_quiet event _)
      · exact s.quiet_refl

theorem WellLinked.quiet {s s' : State} (hs : s.WellLinked) (hq : s.Quiet s') :
    s'.WellLinked := by
  constructor
  · intro t conn hget
    rw [hq.connMap] at hget
    rw [hq.next]
    exact hs.allocated t conn hget
  · intro conn prev hprev
    rw [hq.prevConn] at hprev
    exact hs.earlier conn prev hprev

end State

open State

theorem step_wellLinked {launchEpochTime : ℕ} {s s' : State} {act : Act} (hs : s.WellLinked)
    (hstep : step launchEpochTime s act = .ok s') : s'.WellLinked := by
  rcases act with event | conn | _
  · rw [step, Except.ok.injEq] at hstep
    subst hstep
    rcases s.onConnEvent_cases launchEpochTime event with ⟨-, h⟩ | ⟨-, hq⟩
    · rw [h]
      exact hs.create
    · exact hs.quiet hq
  · rw [step, Except.ok.injEq] at hstep
    subst hstep
    refine ⟨hs.allocated, ?_⟩
    intro id prev hprev
    change prev ∈ ((s.modify conn (fun c => { c with status := .closed })).heap id).prevConn
      at hprev
    rw [modify_heap] at hprev
    split_ifs at hprev <;> exact hs.earlier id prev hprev
  · rw [step, Except.ok.injEq] at hstep
    subst hstep
    exact hs.tick

theorem Runs.wellLinked {launchEpochTime : ℕ} {acts : List Act} {s : State}
    (h : Runs launchEpochTime acts s) : s.WellLinked :=
  Trace.Run.invariant wellLinked_init (fun _ _ _ hs _ hstep => step_wellLinked hs hstep) h

/-! ## The right incarnation -/

namespace State

/-- The incarnations under a descriptor, latest first. -/
def incarnations (s : State) (tgidFd : ℕ) : List ℕ :=
  match s.connMap.get? tgidFd with
  | none => []
  | some connection => connection :: (s.heap connection).prevConn.reverse

/-- The latest incarnation whose life the time falls into. -/
def rightIncarnation (s : State) (tgidFd ts : ℕ) : Option ℕ :=
  (s.incarnations tgidFd).find? (fun c => (s.heap c).timeBoundCheck ts)

/-- The backward loop finds the latest element with the property. -/
theorem lastIdx_eq_find? (p : ℕ → Bool) (l : List ℕ) {n : ℕ} (hn : n ≤ l.length) :
    (lastIdx p l n).bind (fun idx => l[idx]?) = (l.take n).reverse.find? p := by
  induction n with
  | zero => rfl
  | succ n ih =>
      have hget : l[n]? = some l[n] := List.getElem?_eq_getElem hn
      have htake : (l.take (n + 1)).reverse = l[n] :: (l.take n).reverse := by
        rw [List.take_succ_eq_append_getElem hn, List.reverse_append]
        rfl
      rw [htake, List.find?_cons, lastIdx, hget]
      rcases hp : p l[n]
      · simpa [hp] using ih (by omega)
      · simp [hp, hget]

theorem lookup_of_some {s : State} {tgidFd connection : ℕ} (ts : ℕ)
    (hget : s.connMap.get? tgidFd = some connection) :
    s.lookupConnection4ByTimestamp tgidFd ts =
      if (s.heap connection).connectStartTs < ts then some connection
      else (s.heap connection).prevConn.reverse.find? (fun c => (s.heap c).timeBoundCheck ts) := by
  have hloop := lastIdx_eq_find? (fun c => (s.heap c).timeBoundCheck ts)
    (s.heap connection).prevConn (le_refl _)
  rw [List.take_length] at hloop
  rw [lookupConnection4ByTimestamp, hget, ← hloop]
  dsimp only
  congr 1
  rcases lastIdx (fun c => (s.heap c).timeBoundCheck ts) (s.heap connection).prevConn
    (s.heap connection).prevConn.length <;> rfl

theorem rightIncarnation_of_some {s : State} {tgidFd connection : ℕ} (ts : ℕ)
    (hget : s.connMap.get? tgidFd = some connection) :
    s.rightIncarnation tgidFd ts =
      if (s.heap connection).timeBoundCheck ts then some connection
      else (s.heap connection).prevConn.reverse.find? (fun c => (s.heap c).timeBoundCheck ts) := by
  rw [rightIncarnation, incarnations, hget, List.find?_cons]
  rcases (s.heap connection).timeBoundCheck ts <;> rfl

end State

/-- The bounds of the current connection are no obstacle to the lookup: the time is not the
start of a connection still in its bounds, and a connection that started before is not closed
before. -/
def BoundsAgree (c : Connection4) (ts : ℕ) : Prop :=
  (c.connectStartTs = ts → c.connectStartTs ≠ 0 ∧ c.closeTs ≠ 0 ∧ c.closeTs < ts) ∧
    (c.connectStartTs < ts → c.connectStartTs = 0 ∨ c.closeTs = 0 ∨ ts ≤ c.closeTs)

theorem boundsAgree_iff {c : Connection4} {ts : ℕ} :
    BoundsAgree c ts ↔ (c.connectStartTs < ts ↔ c.timeBoundCheck ts = true) := by
  unfold BoundsAgree Connection4.timeBoundCheck
  split_ifs with h0 h1 h2 <;> simp <;> omega

/-- **The lookup by time.** In every state the tracker reaches, the lookup returns the right
incarnation exactly when the bounds of the current connection agree with the strict
comparison the code makes instead. -/
theorem lookup_eq_rightIncarnation_iff (launchEpochTime : ℕ) (acts : List Act) (s : State)
    (h : Runs launchEpochTime acts s) (tgidFd ts : ℕ) :
    s.lookupConnection4ByTimestamp tgidFd ts = s.rightIncarnation tgidFd ts ↔
      ∀ connection, s.connMap.get? tgidFd = some connection →
        BoundsAgree (s.heap connection) ts := by
  rcases hget : s.connMap.get? tgidFd with _ | connection
  · simp [lookupConnection4ByTimestamp, rightIncarnation, incarnations, hget]
  · have hself : connection ∉ (s.heap connection).prevConn :=
      fun hmem => lt_irrefl _ (h.wellLinked.earlier _ _ hmem)
    simp only [Option.some.injEq, forall_eq']
    rw [boundsAgree_iff, lookup_of_some ts hget, rightIncarnation_of_some ts hget]
    by_cases hlt : (s.heap connection).connectStartTs < ts
    · by_cases hb : (s.heap connection).timeBoundCheck ts = true
      · simp [hlt, hb]
      -- the code returns the current connection, which is out of its bounds
      · rw [Bool.not_eq_true] at hb
        simp only [hlt, hb, if_true, Bool.false_eq_true, if_false, iff_false,
          not_true_eq_false]
        intro hfind
        have := List.find?_some hfind.symm
        rw [hb] at this
        cases this
    · by_cases hb : (s.heap connection).timeBoundCheck ts = true
      -- the code passes over the current connection, and no earlier one is the same object
      · simp only [hlt, hb, if_true, if_false, false_iff, not_true_eq_false, iff_false]
        intro hfind
        exact hself (List.mem_reverse.mp (List.mem_of_find?_eq_some hfind))
      · simp [hlt, hb]

/-- An event of process 1 on a connection from 127.0.0.1 to 10.0.0.1. -/
def sampleEvt (connType : ConnType) (ts : ℕ) (fd : ℤ) (lport : ℕ) : ConnEvt :=
  { connType := connType, ts := ts, pid := 1, fd := fd, family := 2
    laddr := #v[127, 0, 0, 1, 0, 0, 0, 0, 0, 0, 0, 0, 0, 0, 0, 0]
    raddr := #v[10, 0, 0, 1, 0, 0, 0, 0, 0, 0, 0, 0, 0, 0, 0, 0]
    lport := lport, rport := 80, protocol := 0, role := .client }

/-- The state after one connect event. -/
def sampleConnected : State := State.init.onConnEvent 1000 (sampleEvt .connect 5 3 40000)

theorem runs_sampleConnected :
    Runs 1000 [.connEvent (sampleEvt .connect 5 3 40000)] sampleConnected :=
  Runs.snoc Trace.Run.nil trivial rfl

theorem sampleConnected_get? :
    sampleConnected.connMap.get? (sampleEvt .connect 5 3 40000).tgidFd = some 0 := by decide

/-- A nanosecond after its start the connection is found. -/
theorem lookup_after_start :
    sampleConnected.lookupConnection4ByTimestamp (sampleEvt .connect 5 3 40000).tgidFd 1006 =
      sampleConnected.rightIncarnation (sampleEvt .connect 5 3 40000).tgidFd 1006 := by
  refine (lookup_eq_rightIncarnation_iff 1000 _ _ runs_sampleConnected _ _).mpr ?_
  intro connection hget
  rw [sampleConnected_get?, Option.some.injEq] at hget
  rw [← hget]
  unfold BoundsAgree
  decide

/-- At its start it is not, although it is within its bounds there. -/
theorem lookup_at_start_differs :
    ¬ ∀ (launchEpochTime : ℕ) (acts : List Act) (s : State), Runs launchEpochTime acts s →
      ∀ tgidFd ts,
        s.lookupConnection4ByTimestamp tgidFd ts = s.rightIncarnation tgidFd ts := by
  intro h
  have hstart := h 1000 _ _ runs_sampleConnected (sampleEvt .connect 5 3 40000).tgidFd 1005
  revert hstart
  decide

/-! ## Agreement of the indexes -/

namespace State

/-- A connection found by its descriptor that is not closed. -/
def Live (s : State) (tgidFd conn : ℕ) : Prop :=
  s.connMap.get? tgidFd = some conn ∧ (s.heap conn).status ≠ .closed

/-- Every live connection is the one its own key finds. -/
def Agreement (s : State) : Prop :=
  ∀ tgidFd conn, s.Live tgidFd conn → s.connectionMap (s.heap conn).sockKey = some conn

/-- A new connection for the event takes no live connection's key, except that of the one it
replaces, and neither its own key nor a live connection's is among those deleted with the old
incarnations. -/
def CreatesSafely (s : State) (launchEpochTime : ℕ) (event : ConnEvt) : Prop :=
  (∀ tgidFd conn, s.Live tgidFd conn →
      (s.heap conn).sockKey = (event.conn launchEpochTime).sockKey →
      tgidFd = event.tgidFd ∧ s.Stores launchEpochTime event) ∧
    (event.conn launchEpochTime).sockKey ∉ s.deletedKeys launchEpochTime event ∧
    ∀ tgidFd conn, s.Live tgidFd conn → tgidFd ≠ event.tgidFd →
      (s.heap conn).sockKey ∉ s.deletedKeys launchEpochTime event

/-- The steps that hit no live connection's entry of `ConnectionMap`. -/
def Spares (launchEpochTime : ℕ) (s : State) : Act → Prop
  | .connEvent event => s.Creates launchEpochTime event → s.CreatesSafely launchEpochTime event
  | .onClose _ => True
  | .tick => ∀ tgidFd conn, s.Live tgidFd conn → (s.heap conn).sockKey ∉ s.expiredKeys

theorem agreement_init : init.Agreement := by
  intro tgidFd conn h
  have hget := h.1
  simp [init, SortedMap.empty, SortedMap.get?] at hget

theorem Agreement.quiet {s s' : State} (ha : s.Agreement) (hq : s.Quiet s') : s'.Agreement := by
  rintro tgidFd conn ⟨hget, hlive⟩
  rw [hq.connMap] at hget
  rw [hq.status] at hlive
  rw [hq.sockKey, hq.connectionMap]
  exact ha tgidFd conn ⟨hget, hlive⟩

theorem Agreement.onClose {s : State} (ha : s.Agreement) (conn : ℕ) :
    (s.onClose conn).Agreement := by
  rintro tgidFd c ⟨hget, hlive⟩
  change ((s.modify conn (fun c => { c with status := .closed })).heap c).status ≠ .closed at hlive
  change s.connectionMap
    ((s.modify conn (fun c => { c with status := .closed })).heap c).sockKey = some c
  rw [modify_heap] at hlive ⊢
  split_ifs at hlive ⊢ with hc
  · exact absurd rfl hlive
  · exact ha tgidFd c ⟨hget, hlive⟩

theorem agreement_tick_iff {s : State} (ha : s.Agreement) :
    s.tick.Agreement ↔
      ∀ tgidFd conn, s.Live tgidFd conn → (s.heap conn).sockKey ∉ s.expiredKeys := by
  -- a tick keeps the live connections of `connMap` and deletes keys
  have hlive : ∀ tgidFd conn, s.tick.Live tgidFd conn ↔ s.Live tgidFd conn := by
    intro tgidFd conn
    rw [tick_eq]
    unfold Live
    dsimp only
    rw [SortedMap.get?_removeAll]
    split_ifs with hdel
    · obtain ⟨c, hget, hclosed⟩ := mem_needsDelete.mp hdel
      constructor
      · rintro ⟨h, -⟩
        cases h
      · rintro ⟨h, hopen⟩
        rw [hget, Option.some.injEq] at h
        rw [h] at hclosed
        exact absurd hclosed hopen
    · exact Iff.rfl
  have hheap : s.tick.heap = s.heap := by rw [tick_eq]
  have hmap : ∀ k, s.tick.connectionMap k =
      if k ∈ s.expiredKeys then none else s.connectionMap k := by
    intro k
    rw [tick_eq]
    exact ConnectionMap.foldl_delete _ _ _
  unfold Agreement
  simp only [hlive, hheap, hmap]
  constructor
  · intro h tgidFd conn hl hmem
    have := h tgidFd conn hl
    rw [if_pos hmem] at this
    cases this
  · intro h tgidFd conn hl
    rw [if_neg (h tgidFd conn hl)]
    exact ha tgidFd conn hl

section Create

variable {s s' : State} {launchEpochTime : ℕ} {event : ConnEvt}

theorem deletedKeys_of_not_stores (h : ¬ s.Stores launchEpochTime event) :
    s.deletedKeys launchEpochTime event = [] := by
  unfold Stores at h
  push Not at h
  obtain ⟨existedConn, hget, hsame⟩ := h
  rw [deletedKeys, hget]
  simp only [Bool.not_eq_false] at hsame
  simp [hsame]

theorem Created.sockKey_new (hc : s.Created launchEpochTime event s') :
    (s'.heap s.next).sockKey = (event.conn launchEpochTime).sockKey := by
  have hcore := hc.core s.next
  rw [if_pos rfl] at hcore
  exact Connection4.sockKey_congr hcore

theorem Created.core_of_lt (hc : s.Created launchEpochTime event s') {conn : ℕ}
    (hlt : conn < s.next) : (s'.heap conn).core = (s.heap conn).core := by
  rw [hc.core, if_neg (by omega)]

/-- The live connections after a new one: the new one if it was stored, and the old ones
except that under the same descriptor. -/
theorem Created.live_iff (hs : s.WellLinked) (hc : s.Created launchEpochTime event s')
    {tgidFd conn : ℕ} :
    s'.Live tgidFd conn ↔
      (s.Stores launchEpochTime event ∧ tgidFd = event.tgidFd ∧ conn = s.next) ∨
      ((tgidFd = event.tgidFd → ¬ s.Stores launchEpochTime event) ∧ s.Live tgidFd conn) := by
  have hold : ∀ {c}, s.connMap.get? tgidFd = some c →
      ((s'.heap c).status ≠ .closed ↔ (s.heap c).status ≠ .closed) := by
    intro c hget
    rw [Connection4.status_congr (hc.core_of_lt (hs.allocated _ _ hget))]
  unfold Live
  by_cases hstores : s.Stores launchEpochTime event
  · rw [hc.stored hstores]
    by_cases ht : tgidFd = event.tgidFd
    · have hnew : (s'.heap s.next).status = .connected := by
        have hcore := hc.core s.next
        rw [if_pos rfl] at hcore
        exact Connection4.status_congr hcore
      simp only [ht, if_true, hstores, true_and, not_true_eq_false, imp_false, false_and,
        or_false, Option.some.injEq]
      constructor
      · rintro ⟨rfl, -⟩
        rfl
      · rintro rfl
        refine ⟨rfl, ?_⟩
        rw [hnew]
        decide
    · simp only [ht, if_false, false_and, and_false, false_or, false_imp_iff, true_and]
      exact and_congr_right hold
  · rw [hc.dropped hstores]
    simp only [hstores, false_and, false_or, not_false_eq_true, implies_true, true_and]
    exact and_congr_right hold

/-- A new connection keeps the indexes in agreement exactly when it is made safely. -/
theorem agreement_create_iff (hs : s.WellLinked) (ha : s.Agreement) :
    (s.create launchEpochTime event).Agreement ↔ s.CreatesSafely launchEpochTime event := by
  have hc : s.Created launchEpochTime event (s.create launchEpochTime event) := create_spec hs
  have hkey : ∀ {t c}, s.Live t c →
      ((s.create launchEpochTime event).heap c).sockKey = (s.heap c).sockKey :=
    fun hl => Connection4.sockKey_congr (hc.core_of_lt (hs.allocated _ _ hl.1))
  constructor
  · intro h
    refine ⟨?_, ?_, ?_⟩
    -- another live connection under the new one's key would lose its entry to it
    · intro t c hl hk
      by_contra hne
      have hne' : t = event.tgidFd → ¬ s.Stores launchEpochTime event :=
        fun ht hst => hne ⟨ht, hst⟩
      have hfound := h t c ((hc.live_iff hs).mpr (Or.inr ⟨hne', hl⟩))
      rw [hkey hl, hk, hc.connectionMap] at hfound
      simp only [if_true] at hfound
      split_ifs at hfound
      rw [Option.some.injEq] at hfound
      have := hs.allocated _ _ hl.1
      omega
    -- the entry of the new connection is stored before the old keys are deleted
    · intro hmem
      by_cases hst : s.Stores launchEpochTime event
      · have hfound := h event.tgidFd s.next ((hc.live_iff hs).mpr (Or.inl ⟨hst, rfl, rfl⟩))
        rw [hc.sockKey_new, hc.connectionMap, if_pos hmem] at hfound
        cases hfound
      · rw [deletedKeys_of_not_stores hst] at hmem
        simp at hmem
    · intro t c hl ht hmem
      have hfound := h t c ((hc.live_iff hs).mpr (Or.inr ⟨fun h => absurd h ht, hl⟩))
      rw [hkey hl, hc.connectionMap, if_pos hmem] at hfound
      cases hfound
  · rintro ⟨hown, hnew, hdel⟩ t c hl
    -- a live connection afterwards is the new one or was live before
    rcases (hc.live_iff hs).mp hl with ⟨hst, rfl, rfl⟩ | ⟨hkeep, hl⟩
    · rw [hc.sockKey_new, hc.connectionMap, if_neg hnew, if_pos rfl]
    · have hk : (s.heap c).sockKey ≠ (event.conn launchEpochTime).sockKey := by
        intro hk
        obtain ⟨ht, hst⟩ := hown t c hl hk
        exact hkeep ht hst
      have hmem : (s.heap c).sockKey ∉ s.deletedKeys launchEpochTime event := by
        by_cases ht : t = event.tgidFd
        · rw [deletedKeys_of_not_stores (hkeep ht)]
          simp
        · exact hdel t c hl ht
      rw [hkey hl, hc.connectionMap, if_neg hmem, if_neg hk]
      exact ha t c hl

end Create

end State

/-- From a state in which the indexes agree, a step keeps them so exactly when it spares the
live connections. -/
theorem step_agreement_iff {launchEpochTime : ℕ} {s s' : State} {act : Act} (hs : s.WellLinked)
    (ha : s.Agreement) (hstep : step launchEpochTime s act = .ok s') :
    s'.Agreement ↔ Spares launchEpochTime s act := by
  rcases act with event | conn | _
  · rw [step, Except.ok.injEq] at hstep
    subst hstep
    rcases s.onConnEvent_cases launchEpochTime event with ⟨hcr, h⟩ | ⟨hcr, hq⟩
    · rw [h, agreement_create_iff hs ha]
      simp only [Spares, hcr, true_imp_iff]
    · simp only [Spares, hcr, false_imp_iff, iff_true]
      exact ha.quiet hq
  · rw [step, Except.ok.injEq] at hstep
    subst hstep
    simp only [Spares, iff_true]
    exact ha.onClose conn
  · rw [step, Except.ok.injEq] at hstep
    subst hstep
    exact agreement_tick_iff ha

/-- The runs whose every step spares the live connections. -/
def SparingRuns (launchEpochTime : ℕ) : List Act → State → Prop :=
  Trace.Run (step launchEpochTime) (fun s act => Enabled s act ∧ Spares launchEpochTime s act)
    State.init

/-- **The two indexes.** In every run whose steps spare the live connections, every live
connection is the object `ConnectionMap` has under its key; and the first step that does not
spare them ends that. -/
theorem indexes_agree (launchEpochTime : ℕ) (acts : List Act) (s : State)
    (h : SparingRuns launchEpochTime acts s) :
    s.Agreement ∧ ∀ act s', step launchEpochTime s act = .ok s' →
      (s'.Agreement ↔ Spares launchEpochTime s act) := by
  have hinv : s.WellLinked ∧ s.Agreement := by
    refine Trace.Run.invariant (I := fun s => s.WellLinked ∧ s.Agreement)
      ⟨wellLinked_init, agreement_init⟩ ?_ h
    rintro s act s' ⟨hs, ha⟩ ⟨-, hspares⟩ hstep
    exact ⟨step_wellLinked hs hstep, (step_agreement_iff hs ha hstep).mpr hspares⟩
  exact ⟨hinv.2, fun act s' hstep => step_agreement_iff hinv.1 hinv.2 hstep⟩

/-- With one entry in `connMap`, a live connection is that one. -/
theorem sampleConnected_live {tgidFd conn : ℕ} (h : sampleConnected.Live tgidFd conn) :
    tgidFd = (sampleEvt .connect 5 3 40000).tgidFd ∧ conn = 0 := by
  have hentries : sampleConnected.connMap.entries =
      [((sampleEvt .connect 5 3 40000).tgidFd, 0)] := by decide
  have hmem := SortedMap.mem_entries.mpr h.1
  rw [hentries, List.mem_singleton, Prod.mk.injEq] at hmem
  exact hmem

/-- A descriptor reused for a connection from another port: both steps spare the live
connections, and the indexes agree on the new one. -/
theorem indexes_agree_reused :
    (sampleConnected.onConnEvent 1000 (sampleEvt .connect 7 3 40001)).Agreement := by
  have hinit : ∀ t c, ¬ State.init.Live t c := by
    intro t c h
    have hget := h.1
    simp [State.init, SortedMap.empty, SortedMap.get?] at hget
  have h1 : SparingRuns 1000 [.connEvent (sampleEvt .connect 5 3 40000)] sampleConnected := by
    refine Trace.Run.snoc Trace.Run.nil ⟨trivial, fun _ => ⟨?_, by decide, ?_⟩⟩ rfl
    · exact fun t c hl => absurd hl (hinit t c)
    · exact fun t c hl => absurd hl (hinit t c)
  have h2 : SparingRuns 1000 [.connEvent (sampleEvt .connect 5 3 40000),
      .connEvent (sampleEvt .connect 7 3 40001)]
      (sampleConnected.onConnEvent 1000 (sampleEvt .connect 7 3 40001)) := by
    refine Trace.Run.snoc h1 ⟨trivial, fun _ => ⟨?_, by decide, ?_⟩⟩ rfl
    · intro t c hl hk
      obtain ⟨-, rfl⟩ := sampleConnected_live hl
      exact absurd hk (by decide)
    · intro t c hl ht
      exact absurd (sampleConnected_live hl).1 ht
  exact (indexes_agree 1000 _ _ h2).1

/-- The addresses of a closed connection are used again on another descriptor before the
cleanup. -/
def reusedAddresses : List Act :=
  [.connEvent (sampleEvt .connect 5 3 40000), .connEvent (sampleEvt .close 6 3 40000),
    .onClose 0, .connEvent (sampleEvt .connect 7 4 40000), .tick]

def afterReusedAddresses : State :=
  State.tick (State.onConnEvent 1000 (sampleEvt .connect 7 4 40000)
    (State.onClose 0 (State.onConnEvent 1000 (sampleEvt .close 6 3 40000) sampleConnected)))

/-- Cleaning up the closed connection deletes the entry of the live one. -/
theorem cleanup_deletes_live :
    ¬ ∀ (launchEpochTime : ℕ) (acts : List Act) (s : State), Runs launchEpochTime acts s →
      s.Agreement := by
  intro h
  have h2 : Runs 1000 (reusedAddresses.take 2)
      (State.onConnEvent 1000 (sampleEvt .close 6 3 40000) sampleConnected) :=
    runs_sampleConnected.snoc trivial rfl
  have hclosing : 0 ∈
      (State.onConnEvent 1000 (sampleEvt .close 6 3 40000) sampleConnected).closing := by decide
  have h3 : Runs 1000 (reusedAddresses.take 3) (State.onClose 0
      (State.onConnEvent 1000 (sampleEvt .close 6 3 40000) sampleConnected)) :=
    h2.snoc hclosing rfl
  have h4 : Runs 1000 (reusedAddresses.take 4)
      (State.onConnEvent 1000 (sampleEvt .connect 7 4 40000) (State.onClose 0
        (State.onConnEvent 1000 (sampleEvt .close 6 3 40000) sampleConnected))) :=
    h3.snoc trivial rfl
  have hrun : Runs 1000 reusedAddresses afterReusedAddresses := h4.snoc trivial rfl
  have hlive : afterReusedAddresses.Live (sampleEvt .connect 7 4 40000).tgidFd 1 :=
    ⟨by decide, by decide⟩
  have hfound := h 1000 _ _ hrun _ _ hlive
  revert hfound
  decide

end Kyanos.ConnManager
