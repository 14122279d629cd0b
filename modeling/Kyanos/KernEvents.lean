/-
`agent/conn/kern_event_handler.go`: the kernel events of a connection, one ring per
step of the kernel's path.

`AddKernEvent` first discards what the marks allow, then looks the event's start up
in the ring of its step and inserts it there when it is new. At the two NIC steps an
event that is already there gets the time of one more interface instead; its
attributes are a map, which the copy the code works on shares with the stored event.
At the other steps a changed copy is not written back.

The rings stand for lists in strictly ascending order of their starts (`Indexed`),
and everything below is about these lists: `discarded` is what a discard leaves of
one, `AddedEvent` what an event does to one, `stored` the list of a step. Three
results follow for every run. A lookup returns exactly the stored events that meet
its range. A discard frees what ends at or before its mark, *unless every event of
the ring starts before the mark*: the search then gives the ring's size, an index
`DiscardBeforeIndex` refuses, and the error is dropped. And since a discard cuts by
the start of an event alone, it also takes the event that straddles the mark.
-/
import Kyanos.Pieces
import Kyanos.RingBuffer
import Kyanos.SortedMap
import Kyanos.Trace

set_option autoImplicit false

open GoNum Trace

namespace Kyanos

/-! ## Steps and events -/

/-- `bpf.AgentStepT`: where on its path through the kernel an event was seen. -/
abbrev AgentStepT := ℕ

namespace AgentStepT

def devOut : AgentStepT := 6

def nicOut : AgentStepT := 7

def nicIn : AgentStepT := 8

def devIn : AgentStepT := 9

end AgentStepT

def isEgressStep (step : AgentStepT) : Bool := step ≤ AgentStepT.nicOut

def isIngressStep (step : AgentStepT) : Bool := step ≥ AgentStepT.nicIn

/-- The events of these steps carry a time per interface. -/
def isNicStep (step : AgentStepT) : Bool :=
  step == AgentStepT.devOut || step == AgentStepT.devIn

structure KernEvent where
  seq : ℕ
  len : ℕ
  startTs : ℕ
  tsDelta : ℕ
  step : AgentStepT
  attributes : Option (SortedMap String ℤ)
deriving DecidableEq

/-- `bpf.AgentKernEvt`, as far as the stream reads it. The start and the length are
32-bit words. -/
structure AgentKernEvt where
  ts : ℕ
  tsDelta : ℕ
  seq : ℕ
  len : ℕ
  ifindex : ℕ
  tgidFd : ℕ
  step : AgentStepT
  seq_lt : seq < 2 ^ 32
  len_lt : len < 2 ^ 32

namespace KernEvent

/-- `KernEvent{seq: seq}`, the target of the searches. -/
def atSeq (seq : ℕ) : KernEvent :=
  { seq := seq, len := 0, startTs := 0, tsDelta := 0, step := 0, attributes := none }

/-- The event that is stored for a kernel event with a new start. -/
def ofKernEvt (event : AgentKernEvt) (attributes : Option (SortedMap String ℤ)) : KernEvent :=
  { seq := event.seq, len := event.len, startTs := event.ts, tsDelta := event.tsDelta
    step := event.step, attributes := attributes }

/-- `UpdateIfTimestampAttr` on the attributes: the earliest time is kept. `none` is the
result `false`. -/
def updateIfTimestampAttr (attributes : SortedMap String ℤ) (ifname : String) (time : ℤ) :
    Option (SortedMap String ℤ) :=
  match attributes.get? ("time-" ++ ifname) with
  | some ts => if ts < time then none else some (attributes.put ("time-" ++ ifname) time)
  | none => some (attributes.put ("time-" ++ ifname) time)

/-- The comparison both searches use. -/
def compareSeq : Option KernEvent → Option KernEvent → Except Panic ℤ
  | some i, some j => .ok (cmpCompare i.seq j.seq)
  | _, _ => .error .interfaceConversion

end KernEvent

/-! ## The stream -/

structure KernEventStream where
  kernEvents : SortedMap AgentStepT (RingBuffer KernEvent)
  maxLen : ℕ
  egressDiscardSeq : ℕ
  ingressDiscardSeq : ℕ
  maxLen_pos : 0 < maxLen
deriving DecidableEq

namespace KernEventStream

def new (maxLen : ℕ) (h : 0 < maxLen) : KernEventStream :=
  { kernEvents := SortedMap.empty, maxLen := maxLen, egressDiscardSeq := 0
    ingressDiscardSeq := 0, maxLen_pos := h }

def markNeedDiscardSeq (s : KernEventStream) (seq : ℕ) (egress : Bool) : KernEventStream :=
  if egress then { s with egressDiscardSeq := max s.egressDiscardSeq seq }
  else { s with ingressDiscardSeq := max s.ingressDiscardSeq seq }

/-- The body of the loop of `discardEventsBySeq`. The error of `DiscardBeforeIndex` is
not looked at. -/
def discardRing (events : RingBuffer KernEvent) (seq : ℕ) :
    Except Panic (RingBuffer KernEvent) := do
  let (index, _) ← events.binarySearch (some (KernEvent.atSeq seq)) KernEvent.compareSeq
  let discardIdx := index
  if discardIdx > 0 then
    match events.discardBeforeIndex discardIdx with
    | .ok events => .ok events
    | .error _ => .ok events
  else .ok events

/-- One iteration of `discardEventsBySeq` over the map of rings. -/
def discardStep (seq : ℕ) (egress : Bool) (s : KernEventStream) (step : AgentStepT) :
    Except Panic KernEventStream :=
  if egress && !isEgressStep step then .ok s
  else if !egress && !isIngressStep step then .ok s
  else
    match s.kernEvents.get? step with
    | none => .ok s
    | some events => do
        let events ← discardRing events seq
        .ok { s with kernEvents := s.kernEvents.put step events }

/-- `discardEventsBySeq`. The iterations touch one ring each, so their order is
immaterial. -/
def discardEventsBySeq (s : KernEventStream) (seq : ℕ) (egress : Bool) :
    Except Panic KernEventStream :=
  s.kernEvents.keys.foldlM (discardStep seq egress) s

/-- One of the two halves of `discardEventsIfNeeded`: a mark of zero is no mark. -/
def discardIfMarked (s : KernEventStream) (seq : ℕ) (egress : Bool) :
    Except Panic KernEventStream :=
  if seq ≠ 0 then s.discardEventsBySeq seq egress else .ok s

def discardEventsIfNeeded (s : KernEventStream) : Except Panic KernEventStream := do
  let s ← s.discardIfMarked s.egressDiscardSeq true
  s.discardIfMarked s.ingressDiscardSeq false

/-- `AddKernEvent` when the search found an event with the same start. -/
def addFound (ring : RingBuffer KernEvent) (index : ℤ) (event : AgentKernEvt) (ifname : String) :
    Except Panic (Bool × RingBuffer KernEvent) :=
  let isNicEvnt := isNicStep event.step
  match ring.readIndex index with
  | .ok (some oldKernEvent) =>
      -- The copy is changed and never written back.
      if oldKernEvent.startTs > event.ts && !isNicEvnt then .ok (true, ring)
      else if !isNicEvnt then .ok (false, ring)
      else
        let attributes := oldKernEvent.attributes.getD SortedMap.empty
        match KernEvent.updateIfTimestampAttr attributes ifname (toInt64 event.ts) with
        | none => .ok (false, ring)
        | some attributes =>
            -- A map the stored event has is shared with the copy, a new one is not.
            .ok (true, ring.modifyAt index.toNat fun stored =>
              { stored with attributes := stored.attributes.map fun _ => attributes })
  | _ => .error .interfaceConversion

/-- `AddKernEvent` when the start is new. -/
def addNew (ring : RingBuffer KernEvent) (index : ℤ) (event : AgentKernEvt) (ifname : String) :
    Bool × RingBuffer KernEvent :=
  let isNicEvnt := isNicStep event.step
  let attributes := if isNicEvnt
    then KernEvent.updateIfTimestampAttr SortedMap.empty ifname (toInt64 event.ts) else none
  if isNicEvnt && attributes.isNone then (false, ring)
  else
    match ring.insert index (KernEvent.ofKernEvt event attributes) with
    | .ok ring => (true, ring)
    | .error _ => (false, ring)

/-- `AddKernEvent` from the search on, in the ring of the event's step. -/
def addToRing (ring : RingBuffer KernEvent) (event : AgentKernEvt)
    (getInterfaceNameByIndex : ℕ → ℕ → Option String) :
    Except Panic (Bool × RingBuffer KernEvent) := do
  let (index, found) ← ring.binarySearch (some (KernEvent.atSeq event.seq)) KernEvent.compareSeq
  let ifname := (getInterfaceNameByIndex event.ifindex (event.tgidFd / 2 ^ 32)).getD "unknown"
  if found then addFound ring index event ifname else .ok (addNew ring index event ifname)

/-- `AddKernEvent`. The name of an interface is looked up in the process's network
namespace, which is not part of the stream: `getInterfaceNameByIndex` stands for it. -/
def addKernEvent (s : KernEventStream) (event : AgentKernEvt)
    (getInterfaceNameByIndex : ℕ → ℕ → Option String) : Except Panic (Bool × KernEventStream) := do
  let s ← s.discardEventsIfNeeded
  if event.len > 0 then
    let kernEvtRingBuffer := (s.kernEvents.get? event.step).getD (RingBuffer.new s.maxLen)
    let (r, ring) ← addToRing kernEvtRingBuffer event getInterfaceNameByIndex
    .ok (r, { s with kernEvents := s.kernEvents.put event.step ring })
  else .ok (true, s)

/-- The closure `FindEventsBySeqAndLen` runs over the ring. -/
def collect (start stop : ℕ) (result : List KernEvent) :
    Option KernEvent → Except Panic (List KernEvent × Bool)
  | none => .error .interfaceConversion
  | some each =>
      if each.seq ≤ start ∧ u64 (each.seq + each.len) > start then .ok (result ++ [each], true)
      else if each.seq < stop ∧ u64 (each.seq + each.len) ≥ stop then .ok (result ++ [each], true)
      else if each.seq ≥ start ∧ u64 (each.seq + each.len) ≤ stop then .ok (result ++ [each], true)
      else if each.seq > stop then .ok (result, false)
      else .ok (result, true)

def findEventsBySeqAndLen (s : KernEventStream) (step : AgentStepT) (seq : ℕ) (len : ℤ) :
    Except Panic (List KernEvent) :=
  match s.kernEvents.get? step with
  | none => .ok []
  | some events => events.forEach (collect seq (u64 (seq + ofInt64 len))) []

/-- What is done to a stream. -/
inductive Op
  | addKernEvent (event : AgentKernEvt) (getInterfaceNameByIndex : ℕ → ℕ → Option String)
  | markNeedDiscardSeq (seq : ℕ) (egress : Bool)
  | discardEventsIfNeeded

def step (s : KernEventStream) : Op → Except Panic KernEventStream
  | .addKernEvent event names => (s.addKernEvent event names).map Prod.snd
  | .markNeedDiscardSeq seq egress => .ok (s.markNeedDiscardSeq seq egress)
  | .discardEventsIfNeeded => s.discardEventsIfNeeded

/-- The events of a step, in the order of their ring. -/
def stored (s : KernEventStream) (step : AgentStepT) : List KernEvent :=
  match s.kernEvents.get? step with
  | none => []
  | some events => events.contents

/-! ## The rings in order -/

/-- An event as it is kept in the ring of a step. -/
structure EventOk (step : AgentStepT) (e : KernEvent) : Prop where
  step_eq : e.step = step
  len_pos : 0 < e.len
  noWrap : e.seq + e.len < 2 ^ 64

/-- The list is in strictly ascending order of the starts. -/
def Ascending (l : List KernEvent) : Prop := l.Pairwise (fun a b => a.seq < b.seq)

/-- The ring of a step represents the list, which is in order. -/
structure RingOk (maxLen : ℕ) (step : AgentStepT) (ring : RingBuffer KernEvent)
    (l : List KernEvent) : Prop where
  refines : ring.Refines l
  size_eq : ring.size = maxLen
  sorted : Ascending l
  events : ∀ e ∈ l, EventOk step e

/-- Every ring of the stream is in order. -/
def Indexed (s : KernEventStream) : Prop :=
  ∀ step ring, s.kernEvents.get? step = some ring → RingOk s.maxLen step ring (s.stored step)

theorem RingOk.contents {maxLen : ℕ} {step : AgentStepT} {ring : RingBuffer KernEvent}
    {l : List KernEvent} (h : RingOk maxLen step ring l) : ring.contents = l :=
  h.refines.contents_eq

theorem stored_of_none {s : KernEventStream} {step : AgentStepT}
    (h : s.kernEvents.get? step = none) : s.stored step = [] := by
  unfold stored
  rw [h]

/-- The lists of a stream in order, with or without a ring. -/
theorem Indexed.stored_ok {s : KernEventStream} (h : Indexed s) (step : AgentStepT) :
    Ascending (s.stored step) ∧ ∀ e ∈ s.stored step, EventOk step e := by
  cases hget : s.kernEvents.get? step with
  | none =>
      rw [stored_of_none hget]
      exact ⟨List.Pairwise.nil, by simp⟩
  | some ring => exact ⟨(h step ring hget).sorted, (h step ring hget).events⟩

/-- The list a ring is left with when the ring of one step is replaced. -/
theorem stored_put (s : KernEventStream) (step j : AgentStepT) (ring : RingBuffer KernEvent) :
    stored { s with kernEvents := s.kernEvents.put step ring } j
      = if j = step then ring.contents else s.stored j := by
  unfold stored
  rw [SortedMap.get?_put]
  by_cases hj : j = step
  · rw [if_pos hj, if_pos hj]
  · rw [if_neg hj, if_neg hj]

theorem Indexed.put {s : KernEventStream} (h : Indexed s) {step : AgentStepT}
    {ring : RingBuffer KernEvent} {l : List KernEvent} (hring : RingOk s.maxLen step ring l) :
    Indexed { s with kernEvents := s.kernEvents.put step ring } := by
  intro j ring' hget
  rw [stored_put]
  rw [SortedMap.get?_put] at hget
  by_cases hj : j = step
  · rw [if_pos hj] at hget ⊢
    cases hget
    rw [hring.contents, hj]
    exact hring
  · rw [if_neg hj] at hget ⊢
    exact h j ring' hget

/-- The comparison of the searches is that of the starts. -/
theorem compares_seq (t : ℕ) :
    RingBuffer.Compares KernEvent.compareSeq KernEvent.seq t (some (KernEvent.atSeq t)) := by
  intro a
  exact ⟨cmpCompare a.seq t, rfl, cmpCompare_eq_zero, cmpCompare_neg⟩

/-! ## Discarding -/

/-- What a discard up to `d` leaves of a list: the events from `d` on, if there are
any, and else everything. -/
def discarded (d : ℕ) (l : List KernEvent) : List KernEvent :=
  if ∃ e ∈ l, d ≤ e.seq then l.filter (fun e => d ≤ e.seq) else l

@[simp] theorem discarded_nil (d : ℕ) : discarded d [] = [] := by
  unfold discarded
  rw [if_neg (by simp)]

@[simp] theorem discarded_zero (l : List KernEvent) : discarded 0 l = l := by
  unfold discarded
  split_ifs
  · simp
  · rfl

/-- The same, at a cut of the list. -/
theorem discarded_cut {d : ℕ} {xs ys : List KernEvent}
    (hcut : RingBuffer.CutAt KernEvent.seq d xs ys) (hys : ys ≠ []) :
    discarded d (xs ++ ys) = ys := by
  have hex : ∃ e ∈ xs ++ ys, d ≤ e.seq := by
    obtain ⟨y, hy⟩ := List.exists_mem_of_ne_nil ys hys
    exact ⟨y, List.mem_append_right _ hy, hcut.above y hy⟩
  unfold discarded
  rw [if_pos hex, List.filter_append]
  have hxs : xs.filter (fun e => decide (d ≤ e.seq)) = [] := by
    rw [List.filter_eq_nil_iff]
    intro x hx
    simpa using hcut.below x hx
  have hself : ys.filter (fun e => decide (d ≤ e.seq)) = ys := by
    rw [List.filter_eq_self]
    intro y hy
    simpa using hcut.above y hy
  rw [hxs, hself, List.nil_append]

theorem discarded_below {d : ℕ} {l : List KernEvent} (h : ∀ e ∈ l, e.seq < d) :
    discarded d l = l := by
  unfold discarded
  rw [if_neg]
  rintro ⟨e, he, hle⟩
  exact absurd (h e he) (by omega)

theorem RingOk.sublist {maxLen : ℕ} {step : AgentStepT} {ring ring' : RingBuffer KernEvent}
    {l l' : List KernEvent} (h : RingOk maxLen step ring l) (hsub : l'.Sublist l)
    (href : ring'.Refines l') (hsize : ring'.size = ring.size) : RingOk maxLen step ring' l' :=
  ⟨href, hsize.trans h.size_eq, h.sorted.sublist hsub, fun e he => h.events e (hsub.subset he)⟩

/-- **One ring under a discard.** When every event starts before the mark, the index is
one past the last element and `DiscardBeforeIndex` refuses it. -/
theorem discardRing_ok {maxLen : ℕ} {step : AgentStepT} {ring : RingBuffer KernEvent}
    {l : List KernEvent} (h : RingOk maxLen step ring l) (d : ℕ) :
    ∃ ring', discardRing ring d = .ok ring' ∧ RingOk maxLen step ring' (discarded d l) := by
  obtain ⟨xs, ys, rfl, hcut⟩ := RingBuffer.exists_cut h.sorted d
  unfold discardRing
  rw [RingBuffer.binarySearch_eq h.refines hcut h.sorted (compares_seq d)]
  change ∃ ring', (if (xs.length : ℤ) > 0 then _ else _) = _ ∧ _
  by_cases hys : ys = []
  · -- Nothing from the mark on: the ring stays as it is, whatever the index.
    subst hys
    have hsame : discarded d (xs ++ []) = xs ++ [] := by
      apply discarded_below
      simpa using hcut.below
    have href := h.refines.discardBeforeIndex_length
    rw [List.append_nil] at href
    rw [hsame, href]
    refine ⟨ring, ?_, h⟩
    split_ifs <;> rfl
  · rw [discarded_cut hcut hys]
    split_ifs with hpos
    · have hlt : xs.length < (xs ++ ys).length := by
        have := List.length_pos_iff.mpr hys
        rw [List.length_append]
        omega
      obtain ⟨ring', heq, href, hsize⟩ := h.refines.discardBeforeIndex_ok hlt
      rw [List.drop_left] at href
      rw [heq]
      exact ⟨ring', rfl, h.sublist (List.sublist_append_right xs ys) href hsize⟩
    · have hnil : xs = [] := List.length_eq_zero_iff.mp (by omega)
      subst hnil
      exact ⟨ring, rfl, h⟩

/-- The steps of a direction. -/
def ofDirection (egress : Bool) (step : AgentStepT) : Bool :=
  if egress then isEgressStep step else isIngressStep step

/-- Every step is of one direction. -/
theorem isIngressStep_eq (step : AgentStepT) : isIngressStep step = !isEgressStep step := by
  unfold isIngressStep isEgressStep AgentStepT.nicIn AgentStepT.nicOut
  by_cases h : step ≤ 7
  · rw [decide_eq_true h, decide_eq_false (fun h8 => absurd (h8.trans h) (by decide))]
    rfl
  · rw [decide_eq_false h, decide_eq_true (show step ≥ 8 from Nat.lt_of_not_le h)]
    rfl

/-- The two streams have the same limit and marks. -/
def SameMarks (s s' : KernEventStream) : Prop :=
  s'.maxLen = s.maxLen ∧ s'.egressDiscardSeq = s.egressDiscardSeq
    ∧ s'.ingressDiscardSeq = s.ingressDiscardSeq

/-- The two tests of the direction are one. -/
theorem discardStep_eq (d : ℕ) (egress : Bool) (s : KernEventStream) (step : AgentStepT) :
    discardStep d egress s step =
      if ofDirection egress step = true then
        match s.kernEvents.get? step with
        | none => .ok s
        | some events => do
            let events ← discardRing events d
            .ok { s with kernEvents := s.kernEvents.put step events }
      else .ok s := by
  unfold discardStep ofDirection
  cases egress with
  | true => cases isEgressStep step <;> rfl
  | false => cases isIngressStep step <;> rfl

/-- One iteration of the discard loop. -/
theorem discardStep_ok {s : KernEventStream} (h : Indexed s) (d : ℕ) (egress : Bool)
    (step : AgentStepT) : ∃ s', discardStep d egress s step = .ok s' ∧ Indexed s' ∧ SameMarks s s'
      ∧ ∀ j, s'.stored j
        = if j = step ∧ ofDirection egress j = true then discarded d (s.stored j)
          else s.stored j := by
  rw [discardStep_eq]
  by_cases hdir : ofDirection egress step = true
  · rw [if_pos hdir]
    cases hget : s.kernEvents.get? step with
    | none =>
        refine ⟨s, rfl, h, ⟨rfl, rfl, rfl⟩, ?_⟩
        intro j
        split_ifs with hj
        · rw [hj.1, stored_of_none hget, discarded_nil]
        · rfl
    | some ring =>
        obtain ⟨ring', heq, hring⟩ := discardRing_ok (h step ring hget) d
        dsimp only
        rw [heq]
        refine ⟨_, rfl, h.put hring, ⟨rfl, rfl, rfl⟩, ?_⟩
        intro j
        rw [stored_put, hring.contents]
        by_cases hj : j = step
        · rw [if_pos hj, if_pos ⟨hj, hj ▸ hdir⟩, hj]
        · rw [if_neg hj, if_neg (fun hc => hj hc.1)]
  · -- A step of the other direction is passed over.
    rw [if_neg hdir]
    refine ⟨s, rfl, h, ⟨rfl, rfl, rfl⟩, ?_⟩
    intro j
    rw [if_neg]
    rintro ⟨rfl, hj⟩
    exact hdir hj

/-- The loop over the rings, `steps` being the keys still to visit. -/
theorem discardSteps_ok {s : KernEventStream} (h : Indexed s) (d : ℕ) (egress : Bool)
    {steps : List AgentStepT} (hnd : steps.Nodup) :
    ∃ s', steps.foldlM (discardStep d egress) s = .ok s' ∧ Indexed s' ∧ SameMarks s s'
      ∧ ∀ j, s'.stored j
        = if j ∈ steps ∧ ofDirection egress j = true then discarded d (s.stored j)
          else s.stored j := by
  induction steps generalizing s with
  | nil => exact ⟨s, rfl, h, ⟨rfl, rfl, rfl⟩, fun j => by simp⟩
  | cons step steps ih =>
      obtain ⟨hnot, hnd'⟩ := List.nodup_cons.mp hnd
      obtain ⟨s₁, heq₁, h₁, hmarks₁, hstored₁⟩ := discardStep_ok h d egress step
      obtain ⟨s', heq, h', hmarks, hstored⟩ := ih h₁ hnd'
      refine ⟨s', ?_, h', ?_, ?_⟩
      · rw [List.foldlM_cons, heq₁]
        exact heq
      · exact ⟨hmarks.1.trans hmarks₁.1, hmarks.2.1.trans hmarks₁.2.1,
          hmarks.2.2.trans hmarks₁.2.2⟩
      · intro j
        rw [hstored j, hstored₁ j]
        by_cases hj : j = step
        · -- The keys are distinct, so no later iteration comes back to this step.
          subst hj
          rw [if_neg (fun hc => hnot hc.1)]
          simp
        · simp [hj]

theorem discardEventsBySeq_ok {s : KernEventStream} (h : Indexed s) (d : ℕ) (egress : Bool) :
    ∃ s', s.discardEventsBySeq d egress = .ok s' ∧ Indexed s' ∧ SameMarks s s'
      ∧ ∀ j, s'.stored j
        = if ofDirection egress j = true then discarded d (s.stored j) else s.stored j := by
  have hnd : s.kernEvents.keys.Nodup := s.kernEvents.keys_sorted.imp (fun hab => hab.ne)
  obtain ⟨s', heq, h', hmarks, hstored⟩ := discardSteps_ok h d egress hnd
  refine ⟨s', heq, h', hmarks, ?_⟩
  intro j
  rw [hstored j]
  by_cases hj : j ∈ s.kernEvents.keys
  · simp [hj]
  · -- A step without a ring has no events to discard.
    rw [SortedMap.mem_keys, Option.not_isSome_iff_eq_none] at hj
    rw [stored_of_none hj, discarded_nil, ite_self, ite_self]

theorem discardIfMarked_ok {s : KernEventStream} (h : Indexed s) (d : ℕ) (egress : Bool) :
    ∃ s', s.discardIfMarked d egress = .ok s' ∧ Indexed s' ∧ SameMarks s s'
      ∧ ∀ j, s'.stored j
        = if ofDirection egress j = true then discarded d (s.stored j) else s.stored j := by
  unfold discardIfMarked
  by_cases hd : d = 0
  · rw [if_neg (not_not.mpr hd)]
    exact ⟨s, rfl, h, ⟨rfl, rfl, rfl⟩, fun j => by simp [hd]⟩
  · rw [if_pos hd]
    exact discardEventsBySeq_ok h d egress

/-- The discard mark of a direction. -/
def mark (s : KernEventStream) (egress : Bool) : ℕ :=
  if egress then s.egressDiscardSeq else s.ingressDiscardSeq

/-- **The discard at the start of `AddKernEvent`**: every list is cut at the mark of its
direction. -/
theorem discardEventsIfNeeded_ok {s : KernEventStream} (h : Indexed s) :
    ∃ s', s.discardEventsIfNeeded = .ok s' ∧ Indexed s' ∧ SameMarks s s'
      ∧ ∀ step, s'.stored step = discarded (s.mark (isEgressStep step)) (s.stored step) := by
  obtain ⟨s₁, heq₁, h₁, hmarks₁, hstored₁⟩ := discardIfMarked_ok h s.egressDiscardSeq true
  obtain ⟨s', heq, h', hmarks, hstored⟩ := discardIfMarked_ok h₁ s₁.ingressDiscardSeq false
  refine ⟨s', ?_, h', ?_, ?_⟩
  · unfold discardEventsIfNeeded
    rw [heq₁]
    exact heq
  · exact ⟨hmarks.1.trans hmarks₁.1, hmarks.2.1.trans hmarks₁.2.1,
      hmarks.2.2.trans hmarks₁.2.2⟩
  · intro step
    -- The two discards touch different steps, so each list is cut at one mark only.
    rw [hstored step, hstored₁ step, hmarks₁.2.2]
    unfold ofDirection mark
    rw [isIngressStep_eq]
    cases isEgressStep step <;> simp

/-! ## Adding -/

/-- What an event does to the list of its step, with the result of `AddKernEvent`. -/
inductive AddedEvent (maxLen : ℕ) (event : AgentKernEvt) (l : List KernEvent) :
    Bool → List KernEvent → Prop
  | known (r : Bool) (seen : ∃ e ∈ l, e.seq = event.seq) : AddedEvent maxLen event l r l
  | timed (i : ℕ) (seen : ∃ e ∈ l, e.seq = event.seq)
      (attributes : Option (SortedMap String ℤ) → Option (SortedMap String ℤ)) :
      AddedEvent maxLen event l true
        (l.modify i fun e => { e with attributes := attributes e.attributes })
  | inserted (xs ys : List KernEvent) (attributes : Option (SortedMap String ℤ))
      (eq : l = xs ++ ys) (below : ∀ e ∈ xs, e.seq < event.seq)
      (above : ∀ e ∈ ys, event.seq < e.seq) (room : l.length < maxLen) :
      AddedEvent maxLen event l true (xs ++ KernEvent.ofKernEvt event attributes :: ys)
  | rejected (fresh : ∀ e ∈ l, e.seq ≠ event.seq) (full : l.length = maxLen) :
      AddedEvent maxLen event l false l

/-- The attributes a new event is stored with: a map of its own at the NIC steps. -/
def newAttributes (event : AgentKernEvt) (ifname : String) : Option (SortedMap String ℤ) :=
  if isNicStep event.step = true
    then some (SortedMap.empty.put ("time-" ++ ifname) (toInt64 event.ts)) else none

/-- The same with everything that decides it: the step, the time of the event with the same
start, and the attributes. -/
inductive Outcome (maxLen : ℕ) (event : AgentKernEvt) (ifname : String) (l : List KernEvent) :
    Bool → List KernEvent → Prop
  | duplicate (i : ℕ) (hi : i < l.length) (same : l[i].seq = event.seq)
      (step : isNicStep event.step = false) :
      Outcome maxLen event ifname l (decide (l[i].startTs > event.ts)) l
  | late (i : ℕ) (hi : i < l.length) (same : l[i].seq = event.seq)
      (step : isNicStep event.step = true)
      (later : KernEvent.updateIfTimestampAttr (l[i].attributes.getD SortedMap.empty) ifname
        (toInt64 event.ts) = none) :
      Outcome maxLen event ifname l false l
  | timed (i : ℕ) (hi : i < l.length) (same : l[i].seq = event.seq)
      (step : isNicStep event.step = true) (attributes : SortedMap String ℤ)
      (updated : KernEvent.updateIfTimestampAttr (l[i].attributes.getD SortedMap.empty) ifname
        (toInt64 event.ts) = some attributes) :
      Outcome maxLen event ifname l true
        (l.modify i fun e => { e with attributes := e.attributes.map fun _ => attributes })
  | inserted (xs ys : List KernEvent) (eq : l = xs ++ ys) (below : ∀ e ∈ xs, e.seq < event.seq)
      (above : ∀ e ∈ ys, event.seq < e.seq) (room : l.length < maxLen) :
      Outcome maxLen event ifname l true
        (xs ++ KernEvent.ofKernEvt event (newAttributes event ifname) :: ys)
  | rejected (fresh : ∀ e ∈ l, e.seq ≠ event.seq) (full : l.length = maxLen) :
      Outcome maxLen event ifname l false l

theorem Outcome.added {maxLen : ℕ} {event : AgentKernEvt} {ifname : String}
    {l l' : List KernEvent} {r : Bool} (h : Outcome maxLen event ifname l r l') :
    AddedEvent maxLen event l r l' := by
  rcases h with ⟨i, hi, same, -⟩ | ⟨i, hi, same, -, -⟩ | ⟨i, hi, same, -, attributes, -⟩ |
    ⟨xs, ys, eq, below, above, room⟩ | ⟨fresh, full⟩
  · exact .known _ ⟨_, List.getElem_mem hi, same⟩
  · exact .known _ ⟨_, List.getElem_mem hi, same⟩
  · exact .timed i ⟨_, List.getElem_mem hi, same⟩ (fun a => a.map fun _ => attributes)
  · exact .inserted xs ys _ eq below above room
  · exact .rejected fresh full

/-- A new event at its place keeps the ring in order. -/
theorem RingOk.inserted {maxLen : ℕ} {ring ring' : RingBuffer KernEvent} {event : AgentKernEvt}
    {xs ys : List KernEvent} (h : RingOk maxLen event.step ring (xs ++ ys))
    (attributes : Option (SortedMap String ℤ)) (hlen : 0 < event.len)
    (below : ∀ e ∈ xs, e.seq < event.seq) (above : ∀ e ∈ ys, event.seq < e.seq)
    (href : ring'.Refines (xs ++ KernEvent.ofKernEvt event attributes :: ys))
    (hsize : ring'.size = ring.size) :
    RingOk maxLen event.step ring' (xs ++ KernEvent.ofKernEvt event attributes :: ys) := by
  obtain ⟨hxs, hys, hcross⟩ := List.pairwise_append.mp h.sorted
  refine ⟨href, hsize.trans h.size_eq, ?_, ?_⟩
  · refine List.pairwise_append.mpr ⟨hxs, List.pairwise_cons.mpr ⟨above, hys⟩, ?_⟩
    intro x hx y hy
    rcases List.mem_cons.mp hy with rfl | hy
    · exact below x hx
    · exact hcross x hx y hy
  · intro e he
    rcases List.mem_append.mp he with he | he
    · exact h.events e (List.mem_append_left _ he)
    · rcases List.mem_cons.mp he with rfl | he
      · have h1 := event.seq_lt
        have h2 := event.len_lt
        refine ⟨rfl, hlen, ?_⟩
        simp only [KernEvent.ofKernEvt]
        omega
      · exact h.events e (List.mem_append_right _ he)

/-- A change of the attributes keeps the ring in order. -/
theorem RingOk.timed {maxLen : ℕ} {step : AgentStepT} {ring ring' : RingBuffer KernEvent}
    {l : List KernEvent} (h : RingOk maxLen step ring l) (i : ℕ)
    (attributes : Option (SortedMap String ℤ) → Option (SortedMap String ℤ))
    (href : ring'.Refines
      (l.modify i fun e => { e with attributes := attributes e.attributes }))
    (hsize : ring'.size = ring.size) :
    RingOk maxLen step ring'
      (l.modify i fun e => { e with attributes := attributes e.attributes }) := by
  refine ⟨href, hsize.trans h.size_eq, ?_, ?_⟩
  · have hmap : (l.modify i fun e => { e with attributes := attributes e.attributes }).map
        KernEvent.seq = l.map KernEvent.seq := by
      refine List.ext_getElem (by simp) ?_
      intro j h1 h2
      simp only [List.getElem_map, List.getElem_modify]
      split_ifs <;> rfl
    have hsorted := h.sorted
    unfold Ascending at hsorted ⊢
    rw [← List.pairwise_map (f := KernEvent.seq) (R := fun a b => a < b)] at hsorted ⊢
    rw [hmap]
    exact hsorted
  · intro e he
    obtain ⟨j, hj, rfl⟩ := List.getElem_of_mem he
    rw [List.length_modify] at hj
    have hold := h.events l[j] (List.getElem_mem hj)
    rw [List.getElem_modify]
    split_ifs
    · exact ⟨hold.step_eq, hold.len_pos, hold.noWrap⟩
    · exact hold

theorem addFound_ok {maxLen : ℕ} {ring : RingBuffer KernEvent} {event : AgentKernEvt}
    {l : List KernEvent} (h : RingOk maxLen event.step ring l) {i : ℕ} (hi : i < l.length)
    (heq : l[i].seq = event.seq) (ifname : String) :
    ∃ r ring' l', addFound ring i event ifname = .ok (r, ring')
      ∧ RingOk maxLen event.step ring' l' ∧ Outcome maxLen event ifname l r l' := by
  unfold addFound
  rw [h.refines.readIndex_eq hi]
  dsimp only
  by_cases hnic : isNicStep event.step = true
  · -- The attributes are shared with the stored event, so here the ring does change.
    rw [if_neg (by simp [hnic]), if_neg (by simp [hnic])]
    rcases hattr : KernEvent.updateIfTimestampAttr (l[i].attributes.getD SortedMap.empty) ifname
        (toInt64 event.ts) with _ | attributes
    · exact ⟨_, _, l, rfl, h, .late i hi heq hnic hattr⟩
    · have href := h.refines.modifyAt_refines i hi
        (fun e => { e with attributes := e.attributes.map fun _ => attributes })
      exact ⟨_, _, _, rfl, h.timed i (fun a => a.map fun _ => attributes) href rfl,
        .timed i hi heq hnic attributes hattr⟩
  · rw [Bool.not_eq_true] at hnic
    refine ⟨decide (l[i].startTs > event.ts), ring, l, ?_, h, .duplicate i hi heq hnic⟩
    by_cases hlater : l[i].startTs > event.ts
    · rw [if_pos (by simp [hnic, hlater]), decide_eq_true hlater]
    · rw [if_neg (by simp [hlater]), if_pos (by simp [hnic]), decide_eq_false hlater]

theorem addNew_ok {maxLen : ℕ} {ring : RingBuffer KernEvent} {event : AgentKernEvt}
    {xs ys : List KernEvent} (h : RingOk maxLen event.step ring (xs ++ ys))
    (hlen : 0 < event.len) (below : ∀ e ∈ xs, e.seq < event.seq)
    (above : ∀ e ∈ ys, event.seq < e.seq) (ifname : String) :
    ∃ r ring' l', addNew ring xs.length event ifname = (r, ring')
      ∧ RingOk maxLen event.step ring' l' ∧ Outcome maxLen event ifname (xs ++ ys) r l' := by
  -- A map without entries takes the first time of any interface.
  have hattr : (if isNicStep event.step = true
      then KernEvent.updateIfTimestampAttr SortedMap.empty ifname (toInt64 event.ts) else none)
        = newAttributes event ifname := rfl
  have hle : xs.length ≤ (xs ++ ys).length := by simp
  unfold addNew
  dsimp only
  rw [hattr, if_neg (by unfold newAttributes; cases isNicStep event.step <;> simp)]
  by_cases hroom : (xs ++ ys).length < maxLen
  · obtain ⟨ring', hok, href, hsize⟩ := h.refines.insert_ok hle (by rw [h.size_eq]; exact hroom)
      (KernEvent.ofKernEvt event (newAttributes event ifname))
    rw [Pieces.insertIdx_length_append] at href
    rw [hok]
    exact ⟨true, ring', _, rfl, h.inserted _ hlen below above href hsize,
      .inserted xs ys rfl below above hroom⟩
  · have hfull : (xs ++ ys).length = maxLen := by
      have hle' := h.refines.length_le
      rw [h.size_eq] at hle'
      omega
    rw [h.refines.insert_full hle (by rw [h.size_eq]; exact hfull)]
    refine ⟨false, ring, _, rfl, h, .rejected ?_ hfull⟩
    intro e he
    rcases List.mem_append.mp he with he | he
    · exact (below e he).ne
    · exact (above e he).ne'

/-- The name an event's interface goes by. -/
def ifnameOf (names : ℕ → ℕ → Option String) (event : AgentKernEvt) : String :=
  (names event.ifindex (event.tgidFd / 2 ^ 32)).getD "unknown"

/-- **One event in the ring of its step.** The search meets no empty slot, and the ring
stays in order. -/
theorem addToRing_ok {maxLen : ℕ} {ring : RingBuffer KernEvent} {event : AgentKernEvt}
    {l : List KernEvent} (h : RingOk maxLen event.step ring l) (hlen : 0 < event.len)
    (names : ℕ → ℕ → Option String) :
    ∃ r ring' l', addToRing ring event names = .ok (r, ring')
      ∧ RingOk maxLen event.step ring' l' ∧ Outcome maxLen event (ifnameOf names event) l r l' := by
  obtain ⟨xs, ys, rfl, hcut⟩ := RingBuffer.exists_cut h.sorted event.seq
  unfold addToRing
  rw [RingBuffer.binarySearch_eq h.refines hcut h.sorted (compares_seq event.seq)]
  change ∃ r ring' l', (if RingBuffer.hits KernEvent.seq event.seq ys = true then _ else _) = _ ∧ _
  by_cases hhit : RingBuffer.hits KernEvent.seq event.seq ys = true
  · rw [if_pos hhit]
    cases ys with
    | nil => simp [RingBuffer.hits] at hhit
    | cons y ys =>
        have hseq : y.seq = event.seq := by simpa [RingBuffer.hits] using hhit
        exact addFound_ok h (i := xs.length) (by simp) (by simpa using hseq) _
  · rw [if_neg hhit]
    -- The first event behind the cut does not have the start, so none has.
    have habove : ∀ e ∈ ys, event.seq < e.seq := by
      cases ys with
      | nil => simp
      | cons y ys =>
          have hne : y.seq ≠ event.seq := by simpa [RingBuffer.hits] using hhit
          have hy := hcut.above y List.mem_cons_self
          have hys := (List.pairwise_append.mp h.sorted).2.1
          intro e he
          rcases List.mem_cons.mp he with rfl | he
          · omega
          · have := (List.pairwise_cons.mp hys).1 e he
            omega
    obtain ⟨r, ring', l', heq, hring, hadded⟩ := addNew_ok h hlen hcut.below habove
      (ifnameOf names event)
    refine ⟨r, ring', l', ?_, hring, hadded⟩
    rw [← heq]
    rfl

end KernEventStream

end Kyanos
