/-
`agent/conn/processor.go`, around the inference of a protocol: what becomes of the data events of a
connection.

Events arrive before it is known what the connection speaks. They are put aside with the connection, and
when the kernel tells the protocol those within its life are played, in their order; later ones are
handled as they come. A connection of no interest, or of the other side, is not followed any more, and
its events are dropped.

Events of system calls and those of TLS libraries wait in two lists, with the same rules but for two
places: an event of a system call has to be within the life of the connection also where it is handled
at once, and one of a TLS library waits also where the protocol is unknown.

`events_in_order_iff` says in which runs every event is handled or waits, in the order they came.
-/
import Kyanos.Aggregation
import Kyanos.DataPath
import Kyanos.Filters
import Kyanos.ParseStream
import Kyanos.Trace

set_option autoImplicit false

open Trace

namespace Kyanos

/-! ## Events that wait -/

/-- Events of one kind, each with the time it ended: those that wait, those that were handled, and all
that arrived. -/
structure TempEvents (ε : Type*) where
  temp : List (ε × ℕ)
  handled : List ε
  arrived : List ε

namespace TempEvents

variable {ε : Type*}

def empty : TempEvents ε := { temp := [], handled := [], arrived := [] }

def handle (q : TempEvents ε) (event : ε × ℕ) : TempEvents ε :=
  { q with handled := q.handled ++ [event.1], arrived := q.arrived ++ [event.1] }

/-- `AddSyscallEvent` and `AddSslEvent`. -/
def add (q : TempEvents ε) (event : ε × ℕ) : TempEvents ε :=
  { q with temp := q.temp ++ [event], arrived := q.arrived ++ [event.1] }

def drop (q : TempEvents ε) (event : ε × ℕ) : TempEvents ε :=
  { q with arrived := q.arrived ++ [event.1] }

/-- The loop over the events that wait, and the list emptied. -/
def play (q : TempEvents ε) (timeBoundCheck : ℕ → Bool) : TempEvents ε :=
  { q with
    handled := q.handled ++ (q.temp.filter fun event => timeBoundCheck event.2).map Prod.fst
    temp := [] }

/-- Every event was handled or waits, in the order they came. -/
def InOrder (q : TempEvents ε) : Prop := q.handled ++ q.temp.map Prod.fst = q.arrived

variable {q : TempEvents ε} {event : ε × ℕ}

/-- An event that is handled at once is in order if it overtakes none. -/
theorem handle_inOrder_iff (h : q.InOrder) (hnew : ∀ e ∈ q.temp, e.1 ≠ event.1) :
    (q.handle event).InOrder ↔ q.temp = [] := by
  unfold InOrder handle at *
  dsimp only
  rw [← h, List.append_assoc, List.append_assoc, List.append_cancel_left_eq]
  rcases htemp : q.temp with _ | ⟨e, rest⟩
  · exact iff_of_true rfl rfl
  -- The first that waits would have to be the event itself.
  · refine iff_of_false (fun heq => ?_) (List.cons_ne_nil _ _)
    rw [List.map_cons, List.singleton_append, List.cons_append, List.cons.injEq] at heq
    exact hnew e (htemp ▸ List.mem_cons_self) heq.1.symm

theorem add_inOrder (h : q.InOrder) : (q.add event).InOrder := by
  unfold InOrder add at *
  dsimp only
  rw [← h, List.map_append, List.append_assoc]
  rfl

theorem drop_not_inOrder (h : q.InOrder) : ¬(q.drop event).InOrder := by
  unfold InOrder drop at *
  dsimp only
  rw [h]
  intro heq
  exact List.cons_ne_nil _ _ (List.append_right_eq_self.mp heq.symm)

/-- Playing loses nothing but what is out of bounds. -/
theorem play_inOrder_iff {timeBoundCheck : ℕ → Bool} (h : q.InOrder) :
    (q.play timeBoundCheck).InOrder ↔ ∀ e ∈ q.temp, timeBoundCheck e.2 = true := by
  unfold InOrder play at *
  dsimp only
  rw [← h, List.map_nil, List.append_nil, List.append_cancel_left_eq, ← List.filter_eq_self]
  constructor
  -- What was left out shows in the length.
  · intro heq
    refine List.filter_sublist.eq_of_length ?_
    have hlen := congrArg List.length heq
    rwa [List.length_map, List.length_map] at hlen
  · exact fun heq => congrArg (List.map Prod.fst) heq

end TempEvents

/-! ## The connection -/

/-- `Connection4`, as far as it decides what becomes of its data events. -/
structure InferConn (ε δ : Type*) where
  protocol : TrafficProtocol
  role : Role
  tracable : Bpf.TraceState
  closed : Bool
  connectStartTs : ℕ
  closeTs : ℕ
  syscallEvents : TempEvents ε
  sslEvents : TempEvents δ

namespace InferConn

variable {ε δ : Type*}

/-- `NewConnFromEvent`. -/
def new (protocol : TrafficProtocol) (role : Role) (connectStartTs : ℕ) : InferConn ε δ :=
  { protocol := protocol, role := role, tracable := .unset, closed := false
    connectStartTs := connectStartTs, closeTs := 0, syscallEvents := .empty, sslEvents := .empty }

def protocolInferred (c : InferConn ε δ) : Bool := c.protocol ≠ .unknown && c.protocol ≠ .unset

def timeBoundCheck (c : InferConn ε δ) (toCheck : ℕ) : Bool :=
  if c.connectStartTs = 0 then true
  else if toCheck < c.connectStartTs then false
  else if c.closeTs ≠ 0 ∧ toCheck > c.closeTs then false
  else true

/-- `processSyscallEvent`, for an event whose lookup leads to the connection. -/
def processSyscallEvent (c : InferConn ε δ) (event : ε × ℕ) : InferConn ε δ :=
  if !c.tracable.atMostTraceable then { c with syscallEvents := c.syscallEvents.drop event }
  else if c.protocolInferred && c.timeBoundCheck event.2 then
    { c with syscallEvents := c.syscallEvents.handle event }
  -- An event out of bounds is put aside here too, and left out when the others are played.
  else if c.protocol = .unset then { c with syscallEvents := c.syscallEvents.add event }
  else { c with syscallEvents := c.syscallEvents.drop event }

/-- `processSslEvent`, for an event whose lookup leads to the connection. -/
def processSslEvent (c : InferConn ε δ) (event : δ × ℕ) : InferConn ε δ :=
  if !c.tracable.atMostTraceable then { c with sslEvents := c.sslEvents.drop event }
  -- The time is not looked at here: the lookup did.
  else if c.protocolInferred then { c with sslEvents := c.sslEvents.handle event }
  else if c.protocol = .unset then { c with sslEvents := c.sslEvents.add event }
  else if c.protocol = .unknown then { c with sslEvents := c.sslEvents.add event }
  else { c with sslEvents := c.sslEvents.drop event }

section Processor

variable (messageFilter : MessageFilter) (side : Analysis.SideEnum)

def isSideNotMatched (role : Role) : Bool :=
  side ≠ .allSide && (decide (role = .client) != decide (side = .clientSide))

def onRoleChanged (c : InferConn ε δ) : InferConn ε δ :=
  { c with tracable := if isSideNotMatched side c.role then .other else .traceable }

/-- The events that wait are played. Parsing them may find the role; what `onRoleChanged` then makes of
the tracing is overwritten. -/
def playTemp (c : InferConn ε δ) (found : Role) : InferConn ε δ :=
  { c with
    syscallEvents := c.syscallEvents.play c.timeBoundCheck
    sslEvents := c.sslEvents.play c.timeBoundCheck
    role := if c.role = .unknown then found else c.role
    tracable := .traceable }

/-- The protocol and the role of the event. -/
def updated (c : InferConn ε δ) (protocol : TrafficProtocol) (role : Role) : InferConn ε δ :=
  let c := { c with protocol := protocol }
  if c.role = .unknown ∧ role ≠ .unknown then onRoleChanged side { c with role := role } else c

def isProtocolInterested (protocol : TrafficProtocol) : Bool :=
  protocol = .unset || messageFilter.filterByProtocol protocol

/-- The case `ProtocolInfer` of `run`, for a connection that is found. -/
def protocolInfer (c : InferConn ε δ) (protocol : TrafficProtocol) (role found : Role) :
    InferConn ε δ :=
  if c.closed then c
  else
    let c := c.updated side protocol role
    -- With the filter that takes everything also an unknown protocol comes here, and nothing is played.
    if isProtocolInterested messageFilter c.protocol && !isSideNotMatched side c.role then
      if c.protocol ≠ .unknown then c.playTemp found else c
    else if c.protocol = .unknown then { c with tracable := .protocolUnknown }
    else if !isProtocolInterested messageFilter c.protocol then
      { c with tracable := .protocolNotMatched }
    else { c with tracable := .other }

/-- What happens to a connection. The last three are its close, the end of the wait after it, and a parse
that finds its role. -/
inductive Op (ε δ : Type*)
  | syscall (event : ε × ℕ)
  | ssl (event : δ × ℕ)
  | infer (protocol : TrafficProtocol) (role found : Role)
  | close (ts : ℕ)
  | onClose
  | parsed (role : Role)

def step (c : InferConn ε δ) : Op ε δ → Except Empty (InferConn ε δ)
  | .syscall event => .ok (c.processSyscallEvent event)
  | .ssl event => .ok (c.processSslEvent event)
  | .infer protocol role found => .ok (c.protocolInfer messageFilter side protocol role found)
  | .close ts => .ok { c with closeTs := ts }
  | .onClose => .ok { c with closed := true }
  | .parsed role => .ok (onRoleChanged side { c with role := role })

/-- An event is one that does not wait already, and a role is found once. -/
def Allows (c : InferConn ε δ) : Op ε δ → Prop
  | .syscall event => ∀ e ∈ c.syscallEvents.temp, e.1 ≠ event.1
  | .ssl event => ∀ e ∈ c.sslEvents.temp, e.1 ≠ event.1
  | .parsed _ => c.role = .unknown
  | _ => True

/-- The inference takes the connection on. -/
def Taken (c : InferConn ε δ) (protocol : TrafficProtocol) (role : Role) : Prop :=
  c.closed = false ∧ protocol ≠ .unknown ∧ isProtocolInterested messageFilter protocol = true
    ∧ isSideNotMatched side (c.updated side protocol role).role = false

/-- An event arrives where it is not dropped and overtakes none, and those that are played are within the
life of the connection. -/
def Keeps (c : InferConn ε δ) : Op ε δ → Prop
  | .syscall event => c.tracable.atMostTraceable = true
      ∧ (c.protocol = .unset ∨ c.protocolInferred = true ∧ c.timeBoundCheck event.2 = true
        ∧ c.syscallEvents.temp = [])
  | .ssl _ => c.tracable.atMostTraceable = true
      ∧ (c.protocolInferred = true → c.sslEvents.temp = [])
  | .infer protocol role _ => c.Taken messageFilter side protocol role →
      (∀ e ∈ c.syscallEvents.temp, c.timeBoundCheck e.2 = true)
        ∧ ∀ e ∈ c.sslEvents.temp, c.timeBoundCheck e.2 = true
  | _ => True

/-- The connection is followed: every inference takes it on and tells a protocol, a role that is found
is of the side, and the events lie within its life. -/
def Suits (c : InferConn ε δ) : Op ε δ → Prop
  | .syscall event => c.timeBoundCheck event.2 = true
  | .ssl event => c.timeBoundCheck event.2 = true
  | .infer protocol role _ => c.Taken messageFilter side protocol role ∧ protocol ≠ .unset
  | .close ts => (∀ e ∈ c.syscallEvents.temp, e.2 ≤ ts) ∧ ∀ e ∈ c.sslEvents.temp, e.2 ≤ ts
  | .parsed role => isSideNotMatched side role = false
  | .onClose => True

end Processor

/-- Every event was handled or waits, those of each kind in the order they came. -/
def InOrder (c : InferConn ε δ) : Prop := c.syscallEvents.InOrder ∧ c.sslEvents.InOrder

/-! ## One event -/

section Steps

variable {c : InferConn ε δ} {messageFilter : MessageFilter} {side : Analysis.SideEnum}

theorem protocolInferred_iff :
    c.protocolInferred = true ↔ c.protocol ≠ .unknown ∧ c.protocol ≠ .unset := by
  unfold protocolInferred
  rw [Bool.and_eq_true, decide_eq_true_eq, decide_eq_true_eq]

theorem processSyscallEvent_ssl (event : ε × ℕ) :
    (c.processSyscallEvent event).sslEvents = c.sslEvents := by
  unfold processSyscallEvent
  split_ifs <;> rfl

theorem processSslEvent_syscall (event : δ × ℕ) :
    (c.processSslEvent event).syscallEvents = c.syscallEvents := by
  unfold processSslEvent
  split_ifs <;> rfl

theorem processSyscallEvent_inOrder_iff {event : ε × ℕ} (h : c.syscallEvents.InOrder)
    (hnew : ∀ e ∈ c.syscallEvents.temp, e.1 ≠ event.1) :
    (c.processSyscallEvent event).syscallEvents.InOrder
      ↔ c.tracable.atMostTraceable = true
        ∧ (c.protocol = .unset ∨ c.protocolInferred = true ∧ c.timeBoundCheck event.2 = true
          ∧ c.syscallEvents.temp = []) := by
  unfold processSyscallEvent
  by_cases htraced : c.tracable.atMostTraceable = true
  · rw [htraced]
    by_cases hdirect : (c.protocolInferred && c.timeBoundCheck event.2) = true
    · rw [if_neg (by decide), if_pos hdirect]
      obtain ⟨hinferred, hbound⟩ := Bool.and_eq_true_iff.mp hdirect
      have hset := (protocolInferred_iff.mp hinferred).2
      refine (TempEvents.handle_inOrder_iff h hnew).trans ⟨fun htemp => ?_, fun hkeeps => ?_⟩
      · exact ⟨rfl, Or.inr ⟨hinferred, hbound, htemp⟩⟩
      · rcases hkeeps.2 with hunset | hall
        · exact absurd hunset hset
        · exact hall.2.2
    · rw [if_neg (by decide), if_neg hdirect]
      by_cases hunset : c.protocol = .unset
      · rw [if_pos hunset]
        exact iff_of_true (TempEvents.add_inOrder h) ⟨rfl, Or.inl hunset⟩
      · rw [if_neg hunset]
        refine iff_of_false (TempEvents.drop_not_inOrder h) ?_
        rintro ⟨-, hor⟩
        rcases hor with hor | ⟨hinferred, hbound, -⟩
        · exact hunset hor
        · exact hdirect (Bool.and_eq_true_iff.mpr ⟨hinferred, hbound⟩)
  · rw [if_pos (by rw [Bool.eq_false_iff.mpr htraced]; rfl)]
    exact iff_of_false (TempEvents.drop_not_inOrder h) fun hkeeps => htraced hkeeps.1

theorem processSslEvent_inOrder_iff {event : δ × ℕ} (h : c.sslEvents.InOrder)
    (hnew : ∀ e ∈ c.sslEvents.temp, e.1 ≠ event.1) :
    (c.processSslEvent event).sslEvents.InOrder
      ↔ c.tracable.atMostTraceable = true ∧ (c.protocolInferred = true → c.sslEvents.temp = []) := by
  unfold processSslEvent
  by_cases htraced : c.tracable.atMostTraceable = true
  · rw [htraced]
    by_cases hinferred : c.protocolInferred = true
    · rw [if_neg (by decide), if_pos hinferred]
      refine (TempEvents.handle_inOrder_iff h hnew).trans ⟨fun htemp => ⟨rfl, fun _ => htemp⟩, ?_⟩
      exact fun hkeeps => hkeeps.2 hinferred
    · rw [if_neg (by decide), if_neg hinferred]
      have hkeeps : true = true ∧ (c.protocolInferred = true → c.sslEvents.temp = []) :=
        ⟨rfl, fun hinf => absurd hinf hinferred⟩
      by_cases hunset : c.protocol = .unset
      · rw [if_pos hunset]
        exact iff_of_true (TempEvents.add_inOrder h) hkeeps
      · have hunknown : c.protocol = .unknown := by
          by_contra hne
          exact hinferred (protocolInferred_iff.mpr ⟨hne, hunset⟩)
        rw [if_neg hunset, if_pos hunknown]
        exact iff_of_true (TempEvents.add_inOrder h) hkeeps
  · rw [if_pos (by rw [Bool.eq_false_iff.mpr htraced]; rfl)]
    exact iff_of_false (TempEvents.drop_not_inOrder h) fun hkeeps => htraced hkeeps.1

/-- What the event updates is not what the events are kept in. -/
theorem updated_same (protocol : TrafficProtocol) (role : Role) :
    (c.updated side protocol role).protocol = protocol
      ∧ (c.updated side protocol role).syscallEvents = c.syscallEvents
      ∧ (c.updated side protocol role).sslEvents = c.sslEvents
      ∧ (c.updated side protocol role).timeBoundCheck = c.timeBoundCheck := by
  unfold updated
  dsimp only
  split_ifs
  · exact ⟨rfl, rfl, rfl, rfl⟩
  · exact ⟨rfl, rfl, rfl, rfl⟩

/-- An inference plays what waits, or leaves it. -/
theorem protocolInfer_cases (protocol : TrafficProtocol) (role found : Role) :
    (c.Taken messageFilter side protocol role
        ∧ c.protocolInfer messageFilter side protocol role found
          = (c.updated side protocol role).playTemp found)
      ∨ (¬c.Taken messageFilter side protocol role
        ∧ (c.protocolInfer messageFilter side protocol role found).syscallEvents = c.syscallEvents
        ∧ (c.protocolInfer messageFilter side protocol role found).sslEvents = c.sslEvents) := by
  obtain ⟨hprotocol, hsyscall, hssl, -⟩ := @updated_same _ _ c side protocol role
  unfold protocolInfer Taken
  by_cases hclosed : c.closed = true
  · rw [if_pos hclosed]
    exact Or.inr ⟨fun h => absurd (hclosed.symm.trans h.1) (by decide), rfl, rfl⟩
  · rw [if_neg hclosed]
    dsimp only
    rw [hprotocol]
    by_cases hgo : (isProtocolInterested messageFilter protocol
        && !isSideNotMatched side (c.updated side protocol role).role) = true
    · rw [if_pos hgo]
      obtain ⟨hinterested, hside⟩ := Bool.and_eq_true_iff.mp hgo
      by_cases hunknown : protocol = .unknown
      · rw [if_neg (not_not.mpr hunknown)]
        exact Or.inr ⟨fun h => h.2.1 hunknown, hsyscall, hssl⟩
      · rw [if_pos hunknown]
        refine Or.inl ⟨⟨Bool.eq_false_iff.mpr hclosed, hunknown, hinterested, ?_⟩, rfl⟩
        rwa [Bool.not_eq_true'] at hside
    · rw [if_neg hgo]
      refine Or.inr ⟨fun h => hgo ?_, ?_⟩
      · rw [h.2.2.1, h.2.2.2]
        rfl
      · split_ifs
        · exact ⟨hsyscall, hssl⟩
        · exact ⟨hsyscall, hssl⟩
        · exact ⟨hsyscall, hssl⟩

theorem step_inOrder_iff {c' : InferConn ε δ} {op : Op ε δ} (h : c.InOrder) (hallows : c.Allows op)
    (hstep : step messageFilter side c op = .ok c') :
    c'.InOrder ↔ c.Keeps messageFilter side op := by
  obtain ⟨hsyscall, hssl⟩ := h
  unfold InOrder
  rcases op with event | event | ⟨protocol, role, found⟩ | ts | - | role
  · cases hstep
    rw [processSyscallEvent_ssl, and_iff_left hssl]
    exact processSyscallEvent_inOrder_iff hsyscall hallows
  · cases hstep
    rw [processSslEvent_syscall, and_iff_right hsyscall]
    exact processSslEvent_inOrder_iff hssl hallows
  · cases hstep
    obtain ⟨-, hsame, hsame', hbound⟩ := @updated_same _ _ c side protocol role
    rcases @protocolInfer_cases _ _ c messageFilter side protocol role found with
      ⟨htaken, heq⟩ | ⟨hleft, heq, heq'⟩
    · rw [heq]
      unfold playTemp
      dsimp only
      rw [hsame, hsame', hbound, TempEvents.play_inOrder_iff hsyscall,
        TempEvents.play_inOrder_iff hssl]
      exact ⟨fun hall _ => hall, fun hall => hall htaken⟩
    · rw [heq, heq']
      exact iff_of_true ⟨hsyscall, hssl⟩ fun htaken => absurd htaken hleft
  · cases hstep
    exact iff_of_true ⟨hsyscall, hssl⟩ trivial
  · cases hstep
    exact iff_of_true ⟨hsyscall, hssl⟩ trivial
  · cases hstep
    exact iff_of_true ⟨hsyscall, hssl⟩ trivial

/-! ## A connection that is followed -/

/-- It is traced, what waits is within its life, and nothing waits once the protocol is known. -/
structure Followed (c : InferConn ε δ) : Prop where
  inOrder : c.InOrder
  traced : c.tracable.atMostTraceable = true
  known : c.protocol ≠ .unknown
  none_waits : c.protocolInferred = true → c.syscallEvents.temp = [] ∧ c.sslEvents.temp = []
  syscall_bound : ∀ e ∈ c.syscallEvents.temp, c.timeBoundCheck e.2 = true
  ssl_bound : ∀ e ∈ c.sslEvents.temp, c.timeBoundCheck e.2 = true

theorem Followed.unset (h : c.Followed) (hnot : ¬c.protocolInferred = true) : c.protocol = .unset := by
  by_contra hne
  exact hnot (protocolInferred_iff.mpr ⟨h.known, hne⟩)

/-- What suits the connection keeps its events. -/
theorem Followed.keeps (h : c.Followed) {op : Op ε δ} (hsuits : c.Suits messageFilter side op) :
    c.Keeps messageFilter side op := by
  rcases op with event | event | ⟨protocol, role, found⟩ | ts | - | role
  -- An event arrives: it is handled when nothing waits, and waits as long as nothing is handled.
  · refine ⟨h.traced, ?_⟩
    by_cases hinferred : c.protocolInferred = true
    · exact Or.inr ⟨hinferred, hsuits, (h.none_waits hinferred).1⟩
    · exact Or.inl (h.unset hinferred)
  · exact ⟨h.traced, fun hinferred => (h.none_waits hinferred).2⟩
  · exact fun _ => ⟨h.syscall_bound, h.ssl_bound⟩
  all_goals exact trivial

/-- A call that ended before the close did so within the life of the connection. -/
theorem timeBoundCheck_close {n ts : ℕ} (h : c.timeBoundCheck n = true) (hle : n ≤ ts) :
    ({ c with closeTs := ts } : InferConn ε δ).timeBoundCheck n = true := by
  unfold timeBoundCheck at h ⊢
  dsimp only
  split_ifs at h ⊢ with hzero hbefore hafter hclose hclose'
  all_goals first
    | rfl
    | omega

theorem Followed.processSyscallEvent {event : ε × ℕ} (h : c.Followed)
    (hbound : c.timeBoundCheck event.2 = true)
    (hinOrder : (c.processSyscallEvent event).InOrder) : (c.processSyscallEvent event).Followed := by
  unfold InferConn.processSyscallEvent at hinOrder ⊢
  rw [h.traced, hbound, Bool.and_true, if_neg (by decide)] at hinOrder ⊢
  by_cases hinferred : c.protocolInferred = true
  · rw [if_pos hinferred] at hinOrder ⊢
    exact ⟨hinOrder, h.traced, h.known, h.none_waits, h.syscall_bound, h.ssl_bound⟩
  · rw [if_neg hinferred, if_pos (h.unset hinferred)] at hinOrder ⊢
    refine ⟨hinOrder, h.traced, h.known, fun hinf => absurd hinf hinferred, fun e he => ?_, h.ssl_bound⟩
    rcases List.mem_append.mp he with he | he
    · exact h.syscall_bound e he
    · rw [List.mem_singleton.mp he]
      exact hbound

theorem Followed.processSslEvent {event : δ × ℕ} (h : c.Followed)
    (hbound : c.timeBoundCheck event.2 = true)
    (hinOrder : (c.processSslEvent event).InOrder) : (c.processSslEvent event).Followed := by
  unfold InferConn.processSslEvent at hinOrder ⊢
  rw [h.traced, if_neg (by decide)] at hinOrder ⊢
  by_cases hinferred : c.protocolInferred = true
  · rw [if_pos hinferred] at hinOrder ⊢
    exact ⟨hinOrder, h.traced, h.known, h.none_waits, h.syscall_bound, h.ssl_bound⟩
  · rw [if_neg hinferred, if_pos (h.unset hinferred)] at hinOrder ⊢
    refine ⟨hinOrder, h.traced, h.known, fun hinf => absurd hinf hinferred, h.syscall_bound, ?_⟩
    intro e he
    rcases List.mem_append.mp he with he | he
    · exact h.ssl_bound e he
    · rw [List.mem_singleton.mp he]
      exact hbound

theorem Followed.step {c' : InferConn ε δ} {op : Op ε δ} (h : c.Followed) (hallows : c.Allows op)
    (hsuits : c.Suits messageFilter side op) (hstep : step messageFilter side c op = .ok c') :
    c'.Followed := by
  have hinOrder := (step_inOrder_iff h.inOrder hallows hstep).mpr (h.keeps hsuits)
  rcases op with event | event | ⟨protocol, role, found⟩ | ts | - | role
  · cases hstep
    exact h.processSyscallEvent hsuits hinOrder
  · cases hstep
    exact h.processSslEvent hsuits hinOrder
  · cases hstep
    obtain ⟨htaken, hset⟩ := hsuits
    obtain ⟨hprotocol, -⟩ := @updated_same _ _ c side protocol role
    rcases @protocolInfer_cases _ _ c messageFilter side protocol role found with
      ⟨-, heq⟩ | ⟨hleft, -⟩
    -- Both lists are empty after the inference.
    · rw [heq] at hinOrder ⊢
      refine ⟨hinOrder, rfl, ?_, fun _ => ⟨rfl, rfl⟩, ?_, ?_⟩
      · exact hprotocol.trans_ne htaken.2.1
      · intro e he
        cases he
      · intro e he
        cases he
    · exact absurd htaken hleft
  · cases hstep
    exact ⟨hinOrder, h.traced, h.known, h.none_waits,
      fun e he => timeBoundCheck_close (h.syscall_bound e he) (hsuits.1 e he),
      fun e he => timeBoundCheck_close (h.ssl_bound e he) (hsuits.2 e he)⟩
  · cases hstep
    exact ⟨hinOrder, h.traced, h.known, h.none_waits, h.syscall_bound, h.ssl_bound⟩
  · cases hstep
    refine ⟨hinOrder, ?_, h.known, h.none_waits, h.syscall_bound, h.ssl_bound⟩
    unfold onRoleChanged
    dsimp only
    rw [if_neg (Bool.eq_false_iff.mp hsuits)]
    rfl

theorem new_inOrder (protocol : TrafficProtocol) (role : Role) (connectStartTs : ℕ) :
    (new protocol role connectStartTs : InferConn ε δ).InOrder := ⟨rfl, rfl⟩

theorem new_followed {protocol : TrafficProtocol} (hknown : protocol ≠ .unknown) (role : Role)
    (connectStartTs : ℕ) : (new protocol role connectStartTs : InferConn ε δ).Followed := by
  refine ⟨new_inOrder protocol role connectStartTs, rfl, hknown, fun _ => ⟨rfl, rfl⟩, ?_, ?_⟩
  · intro e he
    cases he
  · intro e he
    cases he

end Steps

/-! ## Runs -/

/-- **No event is lost to the inference.** In a run of what happens to a connection, every data event is
handled or waits, those of each kind in the order they came, all along, if and only if each arrives
where it is not dropped and overtakes none, and those that are played are within the connection's life.
And on a connection that is followed this is so, and nothing waits once the protocol is known. -/
theorem events_in_order_iff (messageFilter : MessageFilter) (side : Analysis.SideEnum)
    {protocol : TrafficProtocol} {role : Role} {connectStartTs : ℕ} {ops : List (Op ε δ)}
    {c : InferConn ε δ}
    (h : Run (step messageFilter side) Allows (new protocol role connectStartTs) ops c) :
    ((∀ front c', front <+: ops →
        Run (step messageFilter side) Allows (new protocol role connectStartTs) front c' → c'.InOrder)
      ↔ Run (step messageFilter side) (fun c op => c.Allows op ∧ c.Keeps messageFilter side op)
        (new protocol role connectStartTs) ops c)
    ∧ (protocol ≠ .unknown →
        Run (step messageFilter side) (fun c op => c.Allows op ∧ c.Suits messageFilter side op)
          (new protocol role connectStartTs) ops c →
        c.InOrder
          ∧ (c.protocolInferred = true → c.syscallEvents.temp = [] ∧ c.sslEvents.temp = [])) := by
  constructor
  · have hiff := Run.invariant_iff
      (fun c op c' hc hallows hstep => step_inOrder_iff hc hallows hstep) h
    rwa [and_iff_right (new_inOrder protocol role connectStartTs)] at hiff
  · intro hknown hsuits
    have hfollowed := hsuits.invariant (I := Followed) (new_followed hknown role connectStartTs)
      fun c op c' hc hpre hstep => hc.step hpre.1 hpre.2 hstep
    exact ⟨hfollowed.inOrder, hfollowed.none_waits⟩

/-! ### A connection that turns out to speak Redis -/

def inferRedis : Op ℕ ℕ := .infer .redis .client .unknown

theorem redis_run : ∃ c, Run (step .base .clientSide)
      (fun c op => c.Allows op ∧ c.Suits .base .clientSide op) (new .unset .unknown 1)
      [.syscall (1, 5), .syscall (2, 7), inferRedis, .syscall (3, 9)] c
    ∧ c.syscallEvents.handled = [1, 2, 3] ∧ c.protocolInferred = true := by
  have hfirst : Run (step .base .clientSide)
      (fun c op => c.Allows op ∧ c.Suits .base .clientSide op)
      (new .unset .unknown 1 : InferConn ℕ ℕ) [.syscall (1, 5)] _ :=
    Run.nil.snoc ⟨fun _ he => (by cases he), rfl⟩ rfl
  have hsecond := hfirst.snoc (i := Op.syscall (2, 7))
    ⟨show ∀ e ∈ [((1, 5) : ℕ × ℕ)], e.1 ≠ 2 by decide, rfl⟩ rfl
  have hinferred := hsecond.snoc (i := inferRedis)
    ⟨trivial, ⟨rfl, by decide, rfl, rfl⟩, by decide⟩ rfl
  exact ⟨_, hinferred.snoc (i := Op.syscall (3, 9)) ⟨fun _ he => (by cases he), rfl⟩ rfl, rfl, rfl⟩

theorem events_in_order_iff_redis : ∃ c : InferConn ℕ ℕ, c.syscallEvents.handled = [1, 2, 3]
    ∧ c.InOrder ∧ c.syscallEvents.temp = [] := by
  obtain ⟨c, hrun, hhandled, hinferred⟩ := redis_run
  have hkept := (events_in_order_iff .base .clientSide (hrun.mono fun _ _ h => h.1)).2 (by decide) hrun
  exact ⟨c, hhandled, hkept.1, (hkept.2 hinferred).1⟩

end InferConn

end Kyanos
