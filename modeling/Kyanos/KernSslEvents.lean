/-
`agent/conn/kern_event_handler.go`, the SSL half of a `KernEventStream`: two lists of SSL
events, one for each direction, each with a mark below which events may go.

An event goes to the list of its direction. What lies below the mark is dropped first; an event
whose start is already there is then left out, any other is inserted at its place, and the front
of the list goes while the list is too long. That can be the event just inserted.

What the list is for is a set (`Kept`): drop what is below the mark, insert unless the start is
there, keep the `maxLen` greatest. In every run the list is in strictly ascending order, its set
is that one, and a lookup is a filter of it (`run_indexed`).
-/
import Kyanos.KernEvents
import Kyanos.OrderedIndex

set_option autoImplicit false

open GoNum Trace OrderedIndex

namespace Kyanos

/-! ## Events -/

namespace AgentStepT

def sslOut : AgentStepT := 1

def sslIn : AgentStepT := 14

end AgentStepT

/-- `bpf.SslEventHeader`, as far as the stream reads it. -/
structure SslEventHeader where
  ke : AgentKernEvt
  syscallSeq : ℕ
  syscallLen : ℕ

structure SslEvent where
  seq : ℕ
  kernSeq : ℕ
  len : ℕ
  kernLen : ℕ
  startTs : ℕ
  tsDelta : ℕ
  step : AgentStepT
deriving DecidableEq

/-- The event that is stored for an SSL event with a new start. -/
def SslEvent.ofHeader (header : SslEventHeader) : SslEvent :=
  { seq := header.ke.seq, kernSeq := header.syscallSeq, len := header.ke.len
    kernLen := header.syscallLen, startTs := header.ke.ts, tsDelta := header.ke.tsDelta
    step := header.ke.step }

/-! ## The two lists -/

/-- The fields of a `KernEventStream` that the SSL events use. -/
structure SslEventStream where
  sslInEvents : List SslEvent
  sslOutEvents : List SslEvent
  maxLen : ℕ
  egressSslDiscardSeq : ℕ
  ingressSslDiscardSeq : ℕ
  maxLen_pos : 0 < maxLen

instance : DecidableEq SslEventStream := fun s s' =>
  decidable_of_iff (s.sslInEvents = s'.sslInEvents ∧ s.sslOutEvents = s'.sslOutEvents
    ∧ s.maxLen = s'.maxLen ∧ s.egressSslDiscardSeq = s'.egressSslDiscardSeq
    ∧ s.ingressSslDiscardSeq = s'.ingressSslDiscardSeq) (by cases s; cases s'; simp)

namespace SslEventStream

def new (maxLen : ℕ) (h : 0 < maxLen) : SslEventStream :=
  { sslInEvents := [], sslOutEvents := [], maxLen := maxLen, egressSslDiscardSeq := 0
    ingressSslDiscardSeq := 0, maxLen_pos := h }

def markNeedDiscardSslSeq (s : SslEventStream) (seq : ℕ) (egress : Bool) : SslEventStream :=
  if egress then { s with egressSslDiscardSeq := max s.egressSslDiscardSeq seq }
  else { s with ingressSslDiscardSeq := max s.ingressSslDiscardSeq seq }

/-- `discardSslEventsBySeq`, on the list it is for. -/
def discardBySeq (oldevents : List SslEvent) (seq : ℕ) : List SslEvent :=
  let (index, _) := binarySearchFunc oldevents (fun i => cmpCompare i.seq seq)
  let discardIdx := index
  if discardIdx > 0 then oldevents.drop discardIdx else oldevents

def discardSslEventsBySeq (s : SslEventStream) (seq : ℕ) (egress : Bool) : SslEventStream :=
  if egress then { s with sslOutEvents := discardBySeq s.sslOutEvents seq }
  else { s with sslInEvents := discardBySeq s.sslInEvents seq }

/-- A mark of zero is no mark. -/
def discardSslEventsIfNeeded (s : SslEventStream) (isIn : Bool) : SslEventStream :=
  if isIn then
    if s.ingressSslDiscardSeq ≠ 0 then s.discardSslEventsBySeq s.ingressSslDiscardSeq false else s
  else
    if s.egressSslDiscardSeq ≠ 0 then s.discardSslEventsBySeq s.egressSslDiscardSeq true else s

/-- `for len(sslEvents) > s.maxLen { sslEvents = sslEvents[1:] }` -/
def shrink (maxLen : ℕ) : List SslEvent → List SslEvent
  | [] => []
  | each :: rest =>
      if (each :: rest).length > maxLen then shrink maxLen rest else each :: rest

def addSslEvent (s : SslEventStream) (event : SslEventHeader) : SslEventStream :=
  let isIn := event.ke.step == AgentStepT.sslIn
  let s := s.discardSslEventsIfNeeded isIn
  let sslEvents := if isIn then s.sslInEvents else s.sslOutEvents
  let (index, found) := binarySearchFunc sslEvents (fun i => cmpCompare i.seq event.ke.seq)
  -- The discard stays, also when the event is left out.
  if found then s
  else
    let sslEvents := sslEvents.insertIdx index (SslEvent.ofHeader event)
    let sslEvents := shrink s.maxLen sslEvents
    if isIn then { s with sslInEvents := sslEvents } else { s with sslOutEvents := sslEvents }

/-- The loop of `FindSslEventsBySeqAndLen`. -/
def collect (start stop : ℕ) : List SslEvent → List SslEvent → List SslEvent
  | result, [] => result
  | result, each :: rest =>
      if each.seq < start then collect start stop result rest
      else if each.seq < stop then collect start stop (result ++ [each]) rest
      else result

def findSslEventsBySeqAndLen (s : SslEventStream) (step : AgentStepT) (seq : ℕ) (len : ℤ) :
    List SslEvent :=
  let sslEvents := if step == AgentStepT.sslIn then s.sslInEvents else s.sslOutEvents
  collect seq (u64 (seq + ofInt64 len)) [] sslEvents

/-- What is done to the two lists. -/
inductive Op
  | addSslEvent (event : SslEventHeader)
  | markNeedDiscardSslSeq (seq : ℕ) (egress : Bool)

def step (s : SslEventStream) : Op → Except Panic SslEventStream
  | .addSslEvent event => .ok (s.addSslEvent event)
  | .markNeedDiscardSslSeq seq egress => .ok (s.markNeedDiscardSslSeq seq egress)

/-! ## One direction -/

/-- The list of a direction. -/
def events (s : SslEventStream) (isIn : Bool) : List SslEvent :=
  if isIn then s.sslInEvents else s.sslOutEvents

/-- The mark of a direction. -/
def mark (s : SslEventStream) (isIn : Bool) : ℕ :=
  if isIn then s.ingressSslDiscardSeq else s.egressSslDiscardSeq

/-- The direction an operation is about. -/
def Op.isIn : Op → Bool
  | .addSslEvent event => event.ke.step == AgentStepT.sslIn
  | .markNeedDiscardSslSeq _ egress => !egress

/-- `AddSslEvent` on the list of the event's direction. -/
def addTo (maxLen mark : ℕ) (sslEvents : List SslEvent) (e : SslEvent) : List SslEvent :=
  let sslEvents := if mark ≠ 0 then discardBySeq sslEvents mark else sslEvents
  let (index, found) := binarySearchFunc sslEvents (fun i => cmpCompare i.seq e.seq)
  if found then sslEvents else shrink maxLen (sslEvents.insertIdx index e)

/-! ## What the operations are for -/

/-- The events kept in one direction, and its mark. -/
structure Kept where
  events : Finset SslEvent
  mark : ℕ

/-- Drop what is below the mark, insert unless the start is there, and keep the greatest. -/
def Kept.add (maxLen : ℕ) (k : Kept) (e : SslEvent) : Kept :=
  let events := k.events.filter (fun each => k.mark ≤ each.seq)
  { k with events := greatest SslEvent.seq maxLen (insertAbsent SslEvent.seq e events) }

def Kept.raise (k : Kept) (seq : ℕ) : Kept := { k with mark := max k.mark seq }

/-- What an operation does to both directions. -/
def keep (maxLen : ℕ) (kept : Bool → Kept) (op : Op) (isIn : Bool) : Kept :=
  if op.isIn = isIn then
    match op with
    | .addSslEvent event => (kept isIn).add maxLen (SslEvent.ofHeader event)
    | .markNeedDiscardSslSeq seq _ => (kept isIn).raise seq
  else kept isIn

/-- What a list of operations is to leave. -/
def keptAfter (maxLen : ℕ) (ops : List Op) : Bool → Kept :=
  ops.foldl (keep maxLen) (fun _ => ⟨∅, 0⟩)

/-! ## The list of a direction -/

/-- The list is in order, not too long, and has the elements of the set. -/
structure Represents (maxLen : ℕ) (l : List SslEvent) (S : Finset SslEvent) : Prop where
  ascending : Ascending SslEvent.seq l
  length_le : l.length ≤ maxLen
  toFinset_eq : l.toFinset = S
  -- The start of an event is a 32-bit word.
  seq_lt : ∀ e ∈ l, e.seq < 2 ^ 32

/-- The search at the cut of an ascending list. -/
theorem search_cut {xs ys : List SslEvent} {t : ℕ}
    (hcut : RingBuffer.CutAt SslEvent.seq t xs ys) :
    binarySearchFunc (xs ++ ys) (fun i => cmpCompare i.seq t)
      = (xs.length, ys.head?.any (fun each => each.seq = t)) := by
  rw [binarySearchFunc_eq (fun a ha => cmpCompare_neg.mpr (hcut.below a ha))
    (fun a ha hneg => absurd (hcut.above a ha) (not_le.mpr (cmpCompare_neg.mp hneg)))]
  simp only [cmpCompare_eq_zero]

/-- A discard leaves what is not below the mark. -/
theorem discardBySeq_eq {l : List SslEvent} (h : Ascending SslEvent.seq l) (d : ℕ) :
    discardBySeq l d = l.filter (fun each => d ≤ each.seq) := by
  obtain ⟨xs, ys, rfl, hcut⟩ := RingBuffer.exists_cut h d
  have hfilter : (xs ++ ys).filter (fun each => d ≤ each.seq) = ys := by
    have hxs : xs.filter (fun each => d ≤ each.seq) = [] := by
      rw [List.filter_eq_nil_iff]
      intro x hx
      simpa using hcut.below x hx
    have hys : ys.filter (fun each => d ≤ each.seq) = ys := by
      rw [List.filter_eq_self]
      intro y hy
      simpa using hcut.above y hy
    rw [List.filter_append, hxs, hys, List.nil_append]
  rw [discardBySeq, search_cut hcut, hfilter]
  dsimp only
  split_ifs with hpos
  · exact List.drop_left
  · rw [List.length_eq_zero_iff.mp (by omega : xs.length = 0), List.nil_append]

/-- Dropping one by one from the front leaves the last `maxLen` events. -/
theorem shrink_eq (maxLen : ℕ) (l : List SslEvent) :
    shrink maxLen l = l.drop (l.length - maxLen) := by
  induction l with
  | nil => rw [shrink, List.drop_nil]
  | cons each rest ih =>
      rw [shrink]
      split_ifs with hlong
      · rw [ih, List.length_cons] at *
        rw [show rest.length + 1 - maxLen = rest.length - maxLen + 1 by omega,
          List.drop_succ_cons]
      · rw [show (each :: rest).length - maxLen = 0 by omega, List.drop_zero]

/-- **One event.** The list of its direction represents what is to be kept. -/
theorem addTo_represents {maxLen mark : ℕ} {l : List SslEvent} {S : Finset SslEvent}
    (h : Represents maxLen l S) {e : SslEvent} (he : e.seq < 2 ^ 32) :
    Represents maxLen (addTo maxLen mark l e) (Kept.add maxLen ⟨S, mark⟩ e).events := by
  have hkept : (if mark ≠ 0 then discardBySeq l mark else l)
      = l.filter (fun each => mark ≤ each.seq) := by
    by_cases hz : mark = 0
    · rw [if_neg (not_not.mpr hz), hz, List.filter_eq_self.mpr (by simp)]
    · rw [if_pos hz, discardBySeq_eq h.ascending]
  have hasc := h.ascending.sublist (List.filter_sublist (p := fun each => mark ≤ each.seq))
  have hset : (l.filter (fun each => mark ≤ each.seq)).toFinset
      = S.filter (fun each => mark ≤ each.seq) := by
    rw [List.toFinset_filter, h.toFinset_eq]
    simp
  have hlt : ∀ each ∈ l.filter (fun each => mark ≤ each.seq), each.seq < 2 ^ 32 :=
    fun each hmem => h.seq_lt each (List.mem_of_mem_filter hmem)
  have hlen : (l.filter (fun each => mark ≤ each.seq)).length ≤ maxLen :=
    (List.length_filter_le _ _).trans h.length_le
  rw [addTo, hkept]
  dsimp only [Kept.add]
  rw [← hset]
  generalize l.filter (fun each => mark ≤ each.seq) = l at hasc hlt hlen
  obtain ⟨xs, ys, rfl, hcut⟩ := RingBuffer.exists_cut hasc e.seq
  rw [search_cut hcut]
  dsimp only
  by_cases hfound : ys.head?.any (fun each => each.seq = e.seq) = true
  · -- The start is there: the event is left out, and nothing is too much.
    rw [if_pos hfound]
    have hthere : ∃ b ∈ (xs ++ ys).toFinset, b.seq = e.seq := by
      obtain ⟨b, hb, heq⟩ := (Option.any_eq_true _ _).mp hfound
      refine ⟨b, ?_, by simpa using heq⟩
      rw [List.mem_toFinset]
      exact List.mem_append_right _ (List.mem_of_mem_head? hb)
    rw [insertAbsent_of_exists hthere, ← toFinset_drop hasc,
      Nat.sub_eq_zero_of_le hlen, List.drop_zero]
    exact ⟨hasc, hlen, rfl, hlt⟩
  · rw [if_neg hfound, Pieces.insertIdx_length_append, shrink_eq]
    have habove : ∀ y ∈ ys, e.seq < y.seq := by
      intro y hy
      refine lt_of_le_of_ne (hcut.above y hy) (fun heq => hfound ?_)
      -- An equal start would come first behind the cut.
      obtain ⟨z, zs, rfl⟩ := List.exists_cons_of_ne_nil (List.ne_nil_of_mem hy)
      have hz := hcut.above z List.mem_cons_self
      obtain ⟨-, hys, -⟩ := List.pairwise_append.mp hasc
      rcases List.mem_cons.mp hy with rfl | hzs
      · simp [heq]
      · have := (List.pairwise_cons.mp hys).1 y hzs
        omega
    have hnew : ¬ ∃ b ∈ (xs ++ ys).toFinset, b.seq = e.seq := by
      rintro ⟨b, hb, heq⟩
      rw [List.mem_toFinset, List.mem_append] at hb
      rcases hb with hb | hb
      · exact absurd heq (hcut.below b hb).ne
      · exact absurd heq (habove b hb).ne'
    have hasc' : Ascending SslEvent.seq (xs ++ e :: ys) := hasc.insert hcut.below habove
    have hset' : (xs ++ e :: ys).toFinset = insert e (xs ++ ys).toFinset := by
      ext b
      simp only [List.mem_toFinset, Finset.mem_insert, List.mem_append, List.mem_cons]
      tauto
    rw [insertAbsent_of_not_exists hnew, ← hset', ← toFinset_drop hasc']
    refine ⟨hasc'.sublist (List.drop_sublist _ _), ?_, rfl, ?_⟩
    · rw [List.length_drop]
      omega
    · intro each hmem
      have hmem := List.mem_of_mem_drop hmem
      rw [List.mem_append, List.mem_cons] at hmem
      rcases hmem with hmem | rfl | hmem
      · exact hlt each (List.mem_append_left _ hmem)
      · exact he
      · exact hlt each (List.mem_append_right _ hmem)

/-! ## What an operation does to each direction -/

@[simp] theorem discardSslEventsIfNeeded_maxLen (s : SslEventStream) (isIn : Bool) :
    (s.discardSslEventsIfNeeded isIn).maxLen = s.maxLen := by
  unfold discardSslEventsIfNeeded discardSslEventsBySeq
  split_ifs <;> rfl

/-- A discard is about the list and the mark of one direction. -/
theorem events_discard (s : SslEventStream) (isIn dir : Bool) :
    (s.discardSslEventsIfNeeded isIn).events dir
      = if isIn = dir ∧ s.mark isIn ≠ 0 then discardBySeq (s.events dir) (s.mark isIn)
        else s.events dir := by
  unfold discardSslEventsIfNeeded discardSslEventsBySeq events mark
  cases isIn <;> cases dir <;> simp <;> split_ifs <;> rfl

/-- Storing a list in one direction. -/
theorem events_store (s : SslEventStream) (isIn dir : Bool) (l : List SslEvent) :
    (if isIn then { s with sslInEvents := l } else { s with sslOutEvents := l } :
      SslEventStream).events dir = if isIn = dir then l else s.events dir := by
  cases isIn <;> cases dir <;> rfl

/-- **`AddSslEvent`.** The list of the event's direction takes it, the other one stays. -/
theorem events_addSslEvent (s : SslEventStream) (event : SslEventHeader) (dir : Bool) :
    (s.addSslEvent event).events dir
      = if (Op.addSslEvent event).isIn = dir then
          addTo s.maxLen (s.mark dir) (s.events dir) (SslEvent.ofHeader event)
        else s.events dir := by
  rw [addSslEvent, Op.isIn]
  generalize (event.ke.step == AgentStepT.sslIn) = isIn
  have hlist : (if isIn = true then (s.discardSslEventsIfNeeded isIn).sslInEvents
        else (s.discardSslEventsIfNeeded isIn).sslOutEvents)
      = if s.mark isIn ≠ 0 then discardBySeq (s.events isIn) (s.mark isIn)
        else s.events isIn := by
    have hdisc := events_discard s isIn isIn
    simp only [true_and] at hdisc
    exact hdisc
  dsimp only
  rw [hlist]
  by_cases hdir : isIn = dir
  · subst hdir
    have hseq : (SslEvent.ofHeader event).seq = event.ke.seq := rfl
    rw [if_pos rfl, addTo]
    dsimp only
    rw [hseq]
    generalize binarySearchFunc _ _ = found
    obtain ⟨index, found⟩ := found
    cases found with
    | true =>
        dsimp only
        rw [if_pos rfl, if_pos rfl, events_discard]
        simp only [true_and]
    | false =>
        dsimp only
        rw [if_neg Bool.false_ne_true, if_neg Bool.false_ne_true, events_store, if_pos rfl,
          discardSslEventsIfNeeded_maxLen]
  · rw [if_neg hdir]
    have hother : (s.discardSslEventsIfNeeded isIn).events dir = s.events dir := by
      rw [events_discard, if_neg (fun h => hdir h.1)]
    generalize binarySearchFunc _ _ = found
    obtain ⟨index, found⟩ := found
    cases found with
    | true =>
        dsimp only
        rw [if_pos rfl]
        exact hother
    | false =>
        dsimp only
        rw [if_neg Bool.false_ne_true, events_store, if_neg hdir]
        exact hother

/-- The marks are those of `MarkNeedDiscardSslSeq` alone. -/
theorem mark_step {s s' : SslEventStream} {op : Op} (h : s.step op = .ok s') (dir : Bool) :
    s'.mark dir = match op with
      | .addSslEvent _ => s.mark dir
      | .markNeedDiscardSslSeq seq egress =>
          if (Op.markNeedDiscardSslSeq seq egress).isIn = dir then max (s.mark dir) seq
          else s.mark dir := by
  cases op with
  | addSslEvent event =>
      cases h
      unfold addSslEvent discardSslEventsIfNeeded discardSslEventsBySeq mark
      dsimp only
      split_ifs <;> rfl
  | markNeedDiscardSslSeq seq egress =>
      cases h
      unfold markNeedDiscardSslSeq mark
      cases egress <;> cases dir <;> rfl

@[simp] theorem step_maxLen {s s' : SslEventStream} {op : Op} (h : s.step op = .ok s') :
    s'.maxLen = s.maxLen := by
  cases op with
  | addSslEvent event =>
      cases h
      unfold addSslEvent
      dsimp only
      split_ifs <;> exact discardSslEventsIfNeeded_maxLen s _
  | markNeedDiscardSslSeq seq egress =>
      cases h
      unfold markNeedDiscardSslSeq
      split_ifs <;> rfl

/-- A mark moves no event. -/
theorem events_markNeedDiscardSslSeq (s : SslEventStream) (seq : ℕ) (egress dir : Bool) :
    (s.markNeedDiscardSslSeq seq egress).events dir = s.events dir := by
  unfold markNeedDiscardSslSeq
  split_ifs <;> rfl

/-- The list of the other direction is left alone. -/
theorem events_step_of_ne {s s' : SslEventStream} {op : Op} (h : s.step op = .ok s') {dir : Bool}
    (hdir : op.isIn ≠ dir) : s'.events dir = s.events dir := by
  cases op with
  | addSslEvent event =>
      cases h
      rw [events_addSslEvent, if_neg hdir]
  | markNeedDiscardSslSeq seq egress =>
      cases h
      exact events_markNeedDiscardSslSeq s seq egress dir

/-! ## Runs -/

/-- Both directions are kept as they are to be. -/
structure Indexed (maxLen : ℕ) (s : SslEventStream) (kept : Bool → Kept) : Prop where
  maxLen_eq : s.maxLen = maxLen
  represents : ∀ dir, Represents maxLen (s.events dir) (kept dir).events
  mark_eq : ∀ dir, s.mark dir = (kept dir).mark

theorem indexed_new {maxLen : ℕ} (h : 0 < maxLen) :
    Indexed maxLen (new maxLen h) (fun _ => ⟨∅, 0⟩) := by
  refine ⟨rfl, fun dir => ?_, fun dir => ?_⟩
  · have hnil : (new maxLen h).events dir = [] := by cases dir <;> rfl
    rw [hnil]
    exact ⟨List.Pairwise.nil, Nat.zero_le _, rfl, by simp⟩
  · cases dir <;> rfl

/-- **One step.** The two lists follow the two sets. -/
theorem Indexed.step {maxLen : ℕ} {s s' : SslEventStream} {kept : Bool → Kept}
    (h : Indexed maxLen s kept) {op : Op} (hstep : s.step op = .ok s') :
    Indexed maxLen s' (keep maxLen kept op) := by
  refine ⟨(step_maxLen hstep).trans h.maxLen_eq, fun dir => ?_, fun dir => ?_⟩
  · by_cases hdir : op.isIn = dir
    · unfold keep
      rw [if_pos hdir]
      cases op with
      | addSslEvent event =>
          cases hstep
          rw [events_addSslEvent, if_pos hdir, h.maxLen_eq, h.mark_eq]
          exact addTo_represents (h.represents dir) event.ke.seq_lt
      | markNeedDiscardSslSeq seq egress =>
          cases hstep
          rw [events_markNeedDiscardSslSeq]
          exact h.represents dir
    · unfold keep
      rw [if_neg hdir, events_step_of_ne hstep hdir]
      exact h.represents dir
  · rw [mark_step hstep]
    unfold keep
    cases op with
    | addSslEvent event =>
        dsimp only
        rw [h.mark_eq]
        split_ifs <;> rfl
    | markNeedDiscardSslSeq seq egress =>
        dsimp only
        rw [h.mark_eq]
        split_ifs <;> rfl

theorem indexed_of_run {maxLen : ℕ} {hpos : 0 < maxLen} {ops : List Op} {s : SslEventStream}
    (hrun : Run SslEventStream.step (fun _ _ => True) (new maxLen hpos) ops s) :
    Indexed maxLen s (keptAfter maxLen ops) := by
  refine Run.history (I := fun ops s => Indexed maxLen s (keptAfter maxLen ops)) ?_ ?_ hrun
  · exact indexed_new hpos
  · intro ops s op s' h _ hstep
    rw [keptAfter, List.foldl_append]
    exact h.step hstep

/-- The lookup walks over the list up to the first event behind the range. -/
theorem collect_eq (start stop : ℕ) (result : List SslEvent) {l : List SslEvent}
    (h : Ascending SslEvent.seq l) :
    collect start stop result l
      = result ++ l.filter (fun each => start ≤ each.seq ∧ each.seq < stop) := by
  induction l generalizing result with
  | nil => rw [collect, List.filter_nil, List.append_nil]
  | cons each rest ih =>
      obtain ⟨hbehind, hrest⟩ := List.pairwise_cons.mp h
      rw [collect]
      split_ifs with hbelow hin
      · rw [ih _ hrest, List.filter_cons_of_neg (by simp; omega)]
      · rw [ih _ hrest, List.filter_cons_of_pos (by simp; omega), List.append_assoc,
          List.singleton_append]
      · -- Everything further back starts behind the range as well.
        have hnone : (each :: rest).filter (fun each => start ≤ each.seq ∧ each.seq < stop)
            = [] := by
          rw [List.filter_eq_nil_iff]
          intro e he
          rcases List.mem_cons.mp he with rfl | he
          · simp
            omega
          · have := hbehind e he
            simp
            omega
        rw [hnone, List.append_nil]

/-- The range of a lookup ends at the sum also where the word wraps, for no event starts
there. -/
theorem find_eq {maxLen : ℕ} {s : SslEventStream} {kept : Bool → Kept}
    (h : Indexed maxLen s kept) (step : AgentStepT) (seq : ℕ) {len : ℤ} (h0 : 0 ≤ len)
    (hlen : len < 2 ^ 63) :
    s.findSslEventsBySeqAndLen step seq len
      = (s.events (step == AgentStepT.sslIn)).filter
          (fun each => seq ≤ each.seq ∧ (each.seq : ℤ) < seq + len) := by
  have hrep := h.represents (step == AgentStepT.sslIn)
  have hfind : s.findSslEventsBySeqAndLen step seq len
      = collect seq (u64 (seq + ofInt64 len)) [] (s.events (step == AgentStepT.sslIn)) := rfl
  rw [hfind, collect_eq _ _ _ hrep.ascending, List.nil_append, ofInt64_of_nonneg h0]
  refine List.filter_congr (fun each hmem => ?_)
  have hlt := hrep.seq_lt each hmem
  unfold u64
  rw [decide_eq_decide]
  omega

/-- **The SSL event index.** In every state of every run each list is in strictly ascending
order, holds no more than `maxLen` events and is what is to be kept; a lookup gives the events in
its range in ascending order; and no operation changes the list of the other direction. -/
theorem run_indexed {maxLen : ℕ} {hpos : 0 < maxLen} {ops : List Op} {s : SslEventStream}
    (hrun : Run SslEventStream.step (fun _ _ => True) (new maxLen hpos) ops s) :
    (∀ dir, Ascending SslEvent.seq (s.events dir) ∧ (s.events dir).length ≤ maxLen
        ∧ (s.events dir).toFinset = (keptAfter maxLen ops dir).events)
      ∧ (∀ (step : AgentStepT) (seq : ℕ) (len : ℤ), 0 ≤ len → len < 2 ^ 63 →
        Ascending SslEvent.seq (s.findSslEventsBySeqAndLen step seq len)
          ∧ s.findSslEventsBySeqAndLen step seq len
            = (s.events (step == AgentStepT.sslIn)).filter
              (fun each => seq ≤ each.seq ∧ (each.seq : ℤ) < seq + len))
      ∧ ∀ op s' dir, s.step op = .ok s' → op.isIn ≠ dir → s'.events dir = s.events dir := by
  have hindexed := indexed_of_run hrun
  refine ⟨fun dir => ?_, fun step seq len h0 hlen => ?_, fun op s' dir hstep hdir => ?_⟩
  · have hrep := hindexed.represents dir
    exact ⟨hrep.ascending, hrep.length_le, hrep.toFinset_eq⟩
  · have hfind := find_eq hindexed step seq h0 hlen
    refine ⟨?_, hfind⟩
    rw [hfind]
    exact (hindexed.represents _).ascending.sublist List.filter_sublist
  · exact events_step_of_ne hstep hdir

/-- An event on the way in with its start. -/
def sampleHeader (seq : ℕ) (h : seq < 2 ^ 32) : SslEventHeader :=
  { ke := ⟨7, 1, seq, 4, 2, 0, AgentStepT.sslIn, h, by decide⟩, syscallSeq := 90, syscallLen := 30 }

def sampleEvent (seq : ℕ) : SslEvent := ⟨seq, 90, 4, 30, 7, 1, AgentStepT.sslIn⟩

/-- With room for two, the least of three starts goes, and a lookup gives the others. -/
theorem run_indexed_sample :
    Ascending SslEvent.seq [sampleEvent 20, sampleEvent 30] ∧
      ([sampleEvent 20, sampleEvent 30].toFinset : Finset SslEvent)
        = (keptAfter 2 [.addSslEvent (sampleHeader 20 (by decide)),
            .addSslEvent (sampleHeader 30 (by decide)),
            .addSslEvent (sampleHeader 10 (by decide))] true).events := by
  have hrun : Run SslEventStream.step (fun _ _ => True) (new 2 (by decide))
      [.addSslEvent (sampleHeader 20 (by decide)), .addSslEvent (sampleHeader 30 (by decide)),
        .addSslEvent (sampleHeader 10 (by decide))]
      ⟨[sampleEvent 20, sampleEvent 30], [], 2, 0, 0, by decide⟩ := Run.of_exec (by decide +kernel)
  obtain ⟨hlists, -, -⟩ := run_indexed hrun
  exact ⟨(hlists true).1, (hlists true).2.2⟩

end SslEventStream

end Kyanos
