/-
`agent/conn/processor.go`, the temporary queues: kernel, syscall, SSL and first-packet
events wait in a ring for 100 ms before they are processed.

The four queues have the same two functions, written out once for each in the source. A
`handle` function stamps the event and writes it to the ring, without looking at the error
of a full one, and then processes what has waited long enough; a tick of the timer only does
the second. Here there is one pair of functions with the queue as a parameter.

`processLoop_eq` says that a round of processing takes the expired events off the front. The
order of delivery, that each event is delivered at most once and not before it has waited,
are then invariants of every run (`Kept`). That an event is only lost to a ring full of
*fresh* events is not: the write comes before the draining, so after a pause the ring may be
full of expired events, and the event that would have driven them out is the one that is
refused. `delivered_iff` is the exact condition.
-/
import Kyanos.RingBuffer

set_option autoImplicit false

namespace Kyanos

/-- `time.Millisecond`, in nanoseconds. -/
def millisecond : ℤ := 1000000

/-- `t.Sub(u)`, which saturates at the bounds of a `time.Duration`. -/
def timeSub (t u : ℤ) : ℤ := max (-2 ^ 63) (min (2 ^ 63 - 1) (t - u))

/-- `TimedEvent`, `TimedSyscallEvent`, `TimedSslEvent` and `TimedFirstPacketEvent`. -/
structure TimedEvent (ε : Type) where
  event : ε
  timestamp : ℤ
deriving DecidableEq, Repr

/-- The event has been in the queue for more than 100 ms. -/
def TimedEvent.expired {ε : Type} (now : ℤ) (event : TimedEvent ε) : Bool :=
  timeSub now event.timestamp > 100 * millisecond

/-- Whether an event is expired does not depend on the saturation. -/
theorem TimedEvent.expired_iff {ε : Type} {now : ℤ} {event : TimedEvent ε} :
    event.expired now = true ↔ now - event.timestamp > 100 * millisecond := by
  unfold TimedEvent.expired timeSub millisecond
  rw [decide_eq_true_eq]
  omega

/-! ## One queue -/

/-- A ring with its history: what arrived and whether it was written, and what was
processed at which time. -/
structure TempQueue (ε : Type) where
  ring : RingBuffer (TimedEvent ε)
  arrived : List (TimedEvent ε × Bool)
  processed : List (TimedEvent ε × ℤ)

namespace TempQueue

variable {ε : Type}

def new (size : ℕ) : TempQueue ε := { ring := RingBuffer.new size, arrived := [], processed := [] }

/-- The loop of the `processOld` functions, with a bound on its rounds, each of which takes
an element off the ring. The second component is what was processed. -/
def processLoop (now : ℤ) : ℕ → RingBuffer (TimedEvent ε) → List (TimedEvent ε) →
    Except Panic (RingBuffer (TimedEvent ε) × List (TimedEvent ε))
  | 0, ring, processed => .ok (ring, processed)
  | n + 1, ring, processed =>
      if ring.isEmpty then .ok (ring, processed)
      else
        match ring.peek with
        | .error _ => .ok (ring, processed)
        | .ok none => .error .interfaceConversion
        | .ok (some event) =>
            if event.expired now then
              match ring.read with
              | .error _ => processLoop now n ring (processed ++ [event])
              | .ok (_, ring) => processLoop now n ring (processed ++ [event])
            else .ok (ring, processed)

def processOldEvents (q : TempQueue ε) (now : ℤ) : Except Panic (TempQueue ε) := do
  let (ring, processed) ← processLoop now q.ring.count q.ring []
  .ok { q with ring := ring, processed := q.processed ++ processed.map (fun x => (x, now)) }

/-- The write the `handle` functions begin with; they do not look at its error. -/
def writeEvent (q : TempQueue ε) (event : TimedEvent ε) : TempQueue ε :=
  match q.ring.write event with
  | .ok ring => { q with ring := ring, arrived := q.arrived ++ [(event, true)] }
  | .error _ => { q with arrived := q.arrived ++ [(event, false)] }

/-- The clock is read twice, once for the time of arrival and once for the draining. -/
def handleEvent (q : TempQueue ε) (event : ε) (timestamp now : ℤ) : Except Panic (TempQueue ε) :=
  (q.writeEvent { event := event, timestamp := timestamp }).processOldEvents now

/-! ## What one queue keeps -/

/-- A round of processing takes the expired events off the front. -/
theorem processLoop_eq (now : ℤ) {ring : RingBuffer (TimedEvent ε)} {l : List (TimedEvent ε)}
    (h : ring.Refines l) {n : ℕ} (hn : l.length ≤ n) (processed : List (TimedEvent ε)) :
    ∃ ring', processLoop now n ring processed
        = .ok (ring', processed ++ l.takeWhile (TimedEvent.expired now))
      ∧ ring'.Refines (l.dropWhile (TimedEvent.expired now)) ∧ ring'.size = ring.size := by
  -- the induction is on what the ring holds: every round takes one event off or ends
  induction l generalizing ring n processed with
  | nil =>
      refine ⟨ring, ?_, h, rfl⟩
      have hempty := h.isEmpty_iff.mpr rfl
      rcases n with _ | n
      · simp [processLoop]
      · rw [processLoop, if_pos hempty]
        simp
  | cons x l ih =>
      obtain ⟨n, rfl⟩ : ∃ k, n = k + 1 := ⟨n - 1, by rw [List.length_cons] at hn; omega⟩
      have hne : ¬ ring.isEmpty = true := by
        rw [h.isEmpty_iff]
        exact List.cons_ne_nil x l
      obtain ⟨hpeek, hread⟩ := h.read_eq
      rw [processLoop, if_neg hne, hpeek]
      dsimp only
      by_cases hx : x.expired now = true
      · obtain ⟨ring', heq, href, hsize⟩ := ih h.tail
          (show l.length ≤ n by rw [List.length_cons] at hn; omega) (processed ++ [x])
        rw [if_pos hx, hread, List.takeWhile_cons_of_pos hx, List.dropWhile_cons_of_pos hx]
        refine ⟨ring', ?_, href, hsize⟩
        dsimp only
        rw [heq, List.append_assoc]
        rfl
      · rw [if_neg hx, List.takeWhile_cons_of_neg hx, List.dropWhile_cons_of_neg hx]
        exact ⟨ring, by rw [List.append_nil], h, rfl⟩

/-- The invariant of a queue, where `seen` are the readings of the clock so far: the ring
holds events in the order of their arrival times, and the events written are those
processed, each after its wait, followed by those in the ring. -/
structure Kept (size : ℕ) (seen : List ℤ) (q : TempQueue ε) : Prop where
  refines : q.ring.Refines q.ring.contents
  size_eq : q.ring.size = size
  ordered : q.ring.contents.Pairwise (fun a b => a.timestamp ≤ b.timestamp)
  read : ∀ x ∈ q.ring.contents, x.timestamp ∈ seen
  accounted : (q.arrived.filter Prod.snd).map Prod.fst
    = q.processed.map Prod.fst ++ q.ring.contents
  waited : ∀ x ∈ q.processed, x.1.expired x.2 = true

theorem kept_new {size : ℕ} (h : 0 < size) : Kept size [] (new size : TempQueue ε) := by
  have href : (RingBuffer.new size : RingBuffer (TimedEvent ε)).Refines [] :=
    RingBuffer.new_refines h
  have hnil : (new size : TempQueue ε).ring.contents = [] := href.contents_eq
  refine ⟨by rw [hnil]; exact href, rfl, ?_, ?_, ?_, ?_⟩
  · rw [hnil]
    exact List.Pairwise.nil
  · rw [hnil]
    simp
  · rw [hnil]
    rfl
  · intro x hx
    simp [new] at hx

theorem Kept.mono {size : ℕ} {seen seen' : List ℤ} {q : TempQueue ε} (h : Kept size seen q)
    (hsub : seen ⊆ seen') : Kept size seen' q :=
  ⟨h.refines, h.size_eq, h.ordered, fun x hx => hsub (h.read x hx), h.accounted, h.waited⟩

/-- **Processing** delivers from the front and only what is expired. -/
theorem Kept.processOldEvents {size : ℕ} {seen : List ℤ} {q : TempQueue ε}
    (h : Kept size seen q) (now : ℤ) :
    ∃ q', q.processOldEvents now = .ok q' ∧ Kept size seen q' := by
  have hlen : q.ring.contents.length ≤ q.ring.count := h.refines.count_eq.ge
  obtain ⟨ring, heq, href, hsize⟩ := processLoop_eq now h.refines hlen []
  have hcontents := href.contents_eq
  unfold TempQueue.processOldEvents
  rw [heq]
  refine ⟨_, rfl, ?_, hsize.trans h.size_eq, ?_, ?_, ?_, ?_⟩
  -- what is left is the end of what was there
  · dsimp only
    rw [hcontents]
    exact href
  · dsimp only
    rw [hcontents]
    exact h.ordered.sublist (List.dropWhile_sublist _)
  · dsimp only
    rw [hcontents]
    intro x hx
    exact h.read x ((List.dropWhile_sublist _).subset hx)
  -- and what was taken off is its front
  · dsimp only
    rw [hcontents, h.accounted, List.map_append, List.map_map, List.append_assoc]
    simp only [Function.comp_def, List.map_id', List.nil_append]
    rw [List.takeWhile_append_dropWhile]
  · intro x hx
    rcases List.mem_append.mp hx with hx | hx
    · exact h.waited x hx
    · obtain ⟨y, hy, rfl⟩ := List.mem_map.mp hx
      exact List.mem_takeWhile_imp hy

/-- **An arrival** goes to the end of a ring with room, and is dropped by a full one. -/
theorem Kept.writeEvent {size : ℕ} {seen : List ℤ} {q : TempQueue ε} (h : Kept size seen q)
    (event : TimedEvent ε) (hlate : ∀ t ∈ seen, t ≤ event.timestamp) :
    Kept size (seen ++ [event.timestamp]) (q.writeEvent event) := by
  have hsub : seen ⊆ seen ++ [event.timestamp] := List.subset_append_left _ _
  unfold TempQueue.writeEvent
  by_cases hroom : q.ring.contents.length < q.ring.size
  · obtain ⟨ring, heq, href, hsize⟩ := h.refines.write_ok hroom event
    have hcontents := href.contents_eq
    rw [heq]
    refine ⟨?_, hsize.trans h.size_eq, ?_, ?_, ?_, h.waited⟩
    · dsimp only
      rw [hcontents]
      exact href
    · dsimp only
      rw [hcontents]
      -- the clock goes forward, so the arrival is the latest event of the ring
      refine List.pairwise_append.mpr ⟨h.ordered, List.pairwise_singleton _ _, ?_⟩
      intro a ha b hb
      rw [List.mem_singleton.mp hb]
      exact hlate _ (h.read a ha)
    · dsimp only
      rw [hcontents]
      intro x hx
      rcases List.mem_append.mp hx with hx | hx
      · exact hsub (h.read x hx)
      · rw [List.mem_singleton.mp hx]
        exact List.mem_append_right _ (List.mem_singleton_self _)
    · dsimp only
      rw [hcontents, List.filter_append, List.map_append, h.accounted, List.append_assoc]
      rfl
  -- a full ring refuses the event, and nobody looks at the error
  · have hfull : q.ring.contents.length = q.ring.size :=
      le_antisymm h.refines.length_le (not_lt.mp hroom)
    rw [h.refines.write_full hfull event]
    refine ⟨h.refines, h.size_eq, h.ordered, fun x hx => hsub (h.read x hx), ?_, h.waited⟩
    dsimp only
    rw [List.filter_append, List.map_append, h.accounted]
    simp

theorem Kept.handleEvent {size : ℕ} {seen : List ℤ} {q : TempQueue ε} (h : Kept size seen q)
    (event : ε) {timestamp : ℤ} (now : ℤ) (hlate : ∀ t ∈ seen, t ≤ timestamp) :
    ∃ q', q.handleEvent event timestamp now = .ok q' ∧ Kept size (seen ++ [timestamp]) q' := by
  have hwritten := h.writeEvent { event := event, timestamp := timestamp } hlate
  exact hwritten.processOldEvents now

/-- In a queue in order, the first event is the oldest. -/
theorem Kept.fresh_iff {size : ℕ} {seen : List ℤ} {q : TempQueue ε} (h : Kept size seen q)
    (t : ℤ) : (∀ x ∈ q.ring.contents, x.expired t = false)
      ↔ ∀ x, q.ring.contents.head? = some x → x.expired t = false := by
  have hordered := h.ordered
  generalize q.ring.contents = contents at hordered ⊢
  rcases contents with _ | ⟨y, l⟩
  · simp
  · constructor
    · intro hall x hx
      exact hall x (List.mem_of_mem_head? hx)
    · intro hfirst x hx
      have hy := hfirst y rfl
      rcases List.mem_cons.mp hx with rfl | hx
      · exact hy
      · have hle := (List.pairwise_cons.mp hordered).1 x hx
        rw [Bool.eq_false_iff, ne_eq, TimedEvent.expired_iff] at hy ⊢
        omega

end TempQueue

/-! ## The processor -/

/-- The four queues of a processor. -/
inductive QueueName
  | kern
  | syscall
  | ssl
  | firstPacket
deriving DecidableEq, Repr

/-- The sizes `initProcessor` gives them. -/
def QueueName.capacity : QueueName → ℕ
  | .kern => 1000
  | .syscall => 1000
  | .ssl => 100
  | .firstPacket => 100

/-- The queues of a processor, each with its own type of events. -/
abbrev TempQueues (ε : QueueName → Type) := (name : QueueName) → TempQueue (ε name)

namespace TempQueues

variable {ε : QueueName → Type}

def init : TempQueues ε := fun name => TempQueue.new name.capacity

def handleEvent (p : TempQueues ε) (name : QueueName) (event : ε name) (timestamp now : ℤ) :
    Except Panic (TempQueues ε) := do
  let q ← (p name).handleEvent event timestamp now
  .ok (Function.update p name q)

def processOldEvents (p : TempQueues ε) (name : QueueName) (now : ℤ) :
    Except Panic (TempQueues ε) := do
  let q ← (p name).processOldEvents now
  .ok (Function.update p name q)

def handleKernEvent (p : TempQueues ε) := p.handleEvent .kern

def handleSyscallEvent (p : TempQueues ε) := p.handleEvent .syscall

def handleSslEvent (p : TempQueues ε) := p.handleEvent .ssl

def handleFirstPacketEvent (p : TempQueues ε) := p.handleEvent .firstPacket

def processOldKernEvents (p : TempQueues ε) := p.processOldEvents .kern

def processOldSyscallEvents (p : TempQueues ε) := p.processOldEvents .syscall

def processOldSslEvents (p : TempQueues ε) := p.processOldEvents .ssl

def processOldFirstPacketEvents (p : TempQueues ε) := p.processOldEvents .firstPacket

/-- What `run` receives for the queues: an event, with the two readings of the clock it is
handled with, or a tick with the reading of each queue in turn. -/
inductive Input (ε : QueueName → Type)
  | handle (name : QueueName) (event : ε name) (timestamp now : ℤ)
  | tick (ssl kern firstPacket syscall : ℤ)

/-- One round of the `select` in `run`. -/
def step (p : TempQueues ε) : Input ε → Except Panic (TempQueues ε)
  | .handle .kern event timestamp now => p.handleKernEvent event timestamp now
  | .handle .syscall event timestamp now => p.handleSyscallEvent event timestamp now
  | .handle .ssl event timestamp now => p.handleSslEvent event timestamp now
  | .handle .firstPacket event timestamp now => p.handleFirstPacketEvent event timestamp now
  | .tick ssl kern firstPacket syscall => do
      let p ← p.processOldSslEvents ssl
      let p ← p.processOldKernEvents kern
      let p ← p.processOldFirstPacketEvents firstPacket
      p.processOldSyscallEvents syscall

/-- The queues after a list of inputs. -/
def after (is : List (Input ε)) : Except Panic (TempQueues ε) := is.foldlM step init

/-- The readings of the clock an input takes, in turn. -/
def Input.readings : Input ε → List ℤ
  | .handle _ _ timestamp now => [timestamp, now]
  | .tick ssl kern firstPacket syscall => [ssl, kern, firstPacket, syscall]

/-- The clock does not go backwards. -/
def ClockForward (is : List (Input ε)) : Prop :=
  (is.flatMap Input.readings).Pairwise (fun a b => a ≤ b)

theorem step_handle (p : TempQueues ε) (name : QueueName) (event : ε name) (timestamp now : ℤ) :
    p.step (.handle name event timestamp now) = p.handleEvent name event timestamp now := by
  rcases name with _ | _ | _ | _ <;> rfl

/-! ## Every run -/

/-- The invariant of the processor: that of every queue. -/
def AllKept (seen : List ℤ) (p : TempQueues ε) : Prop :=
  ∀ name, TempQueue.Kept name.capacity seen (p name)

theorem capacity_pos (name : QueueName) : 0 < name.capacity := by
  rcases name with _ | _ | _ | _ <;> decide

theorem AllKept.mono {seen seen' : List ℤ} {p : TempQueues ε} (h : AllKept seen p)
    (hsub : seen ⊆ seen') : AllKept seen' p := fun name => (h name).mono hsub

theorem AllKept.update {seen : List ℤ} {p : TempQueues ε} (h : AllKept seen p)
    {name : QueueName} {q : TempQueue (ε name)} (hq : TempQueue.Kept name.capacity seen q) :
    AllKept seen (Function.update p name q) := by
  intro j
  by_cases hj : j = name
  · subst hj
    rw [Function.update_self]
    exact hq
  · rw [Function.update_of_ne hj]
    exact h j

theorem AllKept.processOldEvents {seen : List ℤ} {p : TempQueues ε} (h : AllKept seen p)
    (name : QueueName) (now : ℤ) :
    ∃ p', p.processOldEvents name now = .ok p' ∧ AllKept seen p' := by
  obtain ⟨q, heq, hq⟩ := (h name).processOldEvents now
  unfold TempQueues.processOldEvents
  rw [heq]
  exact ⟨_, rfl, h.update hq⟩

theorem AllKept.handleEvent {seen : List ℤ} {p : TempQueues ε} (h : AllKept seen p)
    (name : QueueName) (event : ε name) {timestamp : ℤ} (now : ℤ)
    (hlate : ∀ t ∈ seen, t ≤ timestamp) :
    ∃ p', p.handleEvent name event timestamp now = .ok p' ∧ AllKept (seen ++ [timestamp]) p' := by
  obtain ⟨q, heq, hq⟩ := (h name).handleEvent event now hlate
  unfold TempQueues.handleEvent
  rw [heq]
  exact ⟨_, rfl, (h.mono (List.subset_append_left _ _)).update hq⟩

/-- **One input** keeps every queue. -/
theorem AllKept.step {seen : List ℤ} {p : TempQueues ε} (h : AllKept seen p) (i : Input ε)
    (hlate : ∀ t ∈ seen, ∀ t' ∈ i.readings, t ≤ t') :
    ∃ p', p.step i = .ok p' ∧ AllKept (seen ++ i.readings) p' := by
  rcases i with ⟨name, event, timestamp, now⟩ | ⟨ssl, kern, firstPacket, syscall⟩
  · rw [step_handle]
    obtain ⟨p', heq, hp'⟩ := h.handleEvent name event now
      (fun t ht => hlate t ht timestamp (by simp [Input.readings]))
    refine ⟨p', heq, hp'.mono ?_⟩
    intro t ht
    rcases List.mem_append.mp ht with ht | ht
    · exact List.mem_append_left _ ht
    · rw [List.mem_singleton.mp ht]
      simp [Input.readings]
  -- a tick drains the queues in turn, each at its own reading of the clock
  · obtain ⟨p₁, heq₁, h₁⟩ := h.processOldEvents .ssl ssl
    obtain ⟨p₂, heq₂, h₂⟩ := h₁.processOldEvents .kern kern
    obtain ⟨p₃, heq₃, h₃⟩ := h₂.processOldEvents .firstPacket firstPacket
    obtain ⟨p₄, heq₄, h₄⟩ := h₃.processOldEvents .syscall syscall
    refine ⟨p₄, ?_, h₄.mono (List.subset_append_left _ _)⟩
    simp only [TempQueues.step, processOldSslEvents, processOldKernEvents,
      processOldFirstPacketEvents, processOldSyscallEvents]
    rw [heq₁]
    change (do
      let p ← p₁.processOldEvents .kern kern
      let p ← p.processOldEvents .firstPacket firstPacket
      p.processOldEvents .syscall syscall) = _
    rw [heq₂]
    change (do
      let p ← p₂.processOldEvents .firstPacket firstPacket
      p.processOldEvents .syscall syscall) = _
    rw [heq₃]
    exact heq₄

theorem after_snoc (is : List (Input ε)) (i : Input ε) :
    after (is ++ [i]) = (after is >>= fun p => p.step i) := by
  unfold after
  rw [List.foldlM_append]
  simp

/-- **Every run** keeps every queue, and does not panic. -/
theorem after_kept {is : List (Input ε)} (hclock : ClockForward is) :
    ∃ p, after is = .ok p ∧ AllKept (is.flatMap Input.readings) p := by
  induction is using List.reverseRecOn with
  | nil => exact ⟨init, rfl, fun name => TempQueue.kept_new (capacity_pos name)⟩
  | append_singleton is i ih =>
      unfold ClockForward at hclock ih
      rw [List.flatMap_append, List.flatMap_singleton] at hclock
      obtain ⟨hbefore, -, hlate⟩ := List.pairwise_append.mp hclock
      obtain ⟨p, heq, hp⟩ := ih hbefore
      obtain ⟨p', heq', hp'⟩ := hp.step i hlate
      rw [after_snoc, heq, List.flatMap_append, List.flatMap_singleton]
      exact ⟨p', heq', hp'⟩

theorem ClockForward.of_isPrefix {pre is : List (Input ε)} (h : ClockForward is)
    (hpre : pre <+: is) : ClockForward pre := by
  obtain ⟨rest, rfl⟩ := hpre
  unfold ClockForward at h ⊢
  rw [List.flatMap_append] at h
  exact (List.pairwise_append.mp h).1

/-- What a queue promises in every state of a run: the events that were written are
processed in the order of their arrival and once, each after more than 100 ms; and an event
that is refused met a ring full of events that had waited at most 100 ms. -/
def Delivered (is : List (Input ε)) (name : QueueName) : Prop :=
  ∀ pre, pre <+: is → ∃ p, after pre = .ok p
    ∧ ((p name).processed.map Prod.fst).Sublist ((p name).arrived.map Prod.fst)
    ∧ ((p name).arrived.filter Prod.snd).map Prod.fst
        = (p name).processed.map Prod.fst ++ (p name).ring.contents
    ∧ (∀ x ∈ (p name).processed, x.2 - x.1.timestamp > 100 * millisecond)
    ∧ ∀ event timestamp now, pre ++ [.handle name event timestamp now] <+: is →
      ∀ error, (p name).ring.write { event := event, timestamp := timestamp } = .error error →
        (p name).ring.contents.length = name.capacity
          ∧ ∀ x ∈ (p name).ring.contents, timestamp - x.timestamp ≤ 100 * millisecond

/-- No event arrives when the ring is full and its oldest event has waited for more than
100 ms. -/
def NeverStale (is : List (Input ε)) (name : QueueName) : Prop :=
  ∀ pre event timestamp now, pre ++ [.handle name event timestamp now] <+: is →
    ∀ p, after pre = .ok p → (p name).ring.isFull = true →
      ∀ x, (p name).ring.contents.head? = some x → timestamp - x.timestamp ≤ 100 * millisecond

theorem not_expired_iff {name : QueueName} {t : ℤ} {x : TimedEvent (ε name)} :
    t - x.timestamp ≤ 100 * millisecond ↔ x.expired t = false := by
  rw [Bool.eq_false_iff, ne_eq, TimedEvent.expired_iff]
  omega

/-- **When the queues deliver.** For every sequence of events and ticks under a clock that
does not go backwards, a queue keeps its promise exactly when no event meets a full ring
with an expired event in front. -/
theorem delivered_iff {is : List (Input ε)} (hclock : ClockForward is) (name : QueueName) :
    Delivered is name ↔ NeverStale is name := by
  constructor
  · intro hdelivered pre event timestamp now hpre p hp hfull x hx
    obtain ⟨p', hp', -, -, -, hlost⟩ :=
      hdelivered pre ((List.prefix_append pre _).trans hpre)
    rw [hp] at hp'
    cases hp'
    have hwrite : (p name).ring.write { event := event, timestamp := timestamp }
        = .error .full := if_pos hfull
    exact (hlost event timestamp now hpre .full hwrite).2 x (List.mem_of_mem_head? hx)
  · intro hnever pre hpre
    obtain ⟨p, hp, hkept⟩ := after_kept (hclock.of_isPrefix hpre)
    have hk := hkept name
    refine ⟨p, hp, ?_, hk.accounted, ?_, ?_⟩
    · -- What was processed is the front of what was written.
      have hsub : ((p name).arrived.filter Prod.snd).Sublist (p name).arrived :=
        List.filter_sublist
      have hfront := hsub.map Prod.fst
      rw [hk.accounted] at hfront
      exact (List.sublist_append_left _ _).trans hfront
    · intro x hx
      exact TimedEvent.expired_iff.mp (hk.waited x hx)
    -- only a full ring refuses, and then its first event decides for all of them
    · intro event timestamp now hnext error herror
      have hfull : (p name).ring.isFull = true := by
        by_contra hnot
        rw [RingBuffer.write, if_neg hnot] at herror
        cases herror
      refine ⟨(hk.refines.full.mp hfull).trans hk.size_eq, ?_⟩
      simp only [not_expired_iff]
      refine (hk.fresh_iff timestamp).mpr ?_
      intro x hx
      exact not_expired_iff.mp (hnever pre event timestamp now hnext p hp hfull x hx)

/-- A first packet at time 0, and one 200 ms later. -/
def sampleFirst : Input (fun _ => Unit) := .handle .firstPacket () 0 0

def sampleLate : Input (fun _ => Unit) := .handle .firstPacket () 200000000 200000000

/-- An event, and a tick after 200 ms. -/
theorem delivered_iff_sample :
    Delivered [sampleFirst, .tick 200000000 200000000 200000000 200000000] .firstPacket := by
  refine (delivered_iff (by unfold ClockForward; decide) .firstPacket).mpr ?_
  -- The event meets an empty ring.
  intro pre event timestamp now hpre p hp hfull
  obtain ⟨rest, hrest⟩ := hpre
  rcases pre with _ | ⟨a, _ | ⟨b, pre⟩⟩
  · cases hp
    exact absurd hfull (by decide)
  · simp at hrest
  · simp at hrest

/-- A hundred events at once and one more after a pause: the last one is lost to a ring full
of expired events. -/
theorem burst_after_pause_loses :
    ClockForward (List.replicate 100 sampleFirst ++ [sampleLate])
      ∧ ¬ Delivered (List.replicate 100 sampleFirst ++ [sampleLate]) .firstPacket := by
  have hclock : ClockForward (List.replicate 100 sampleFirst ++ [sampleLate]) := by
    unfold ClockForward
    decide +kernel
  refine ⟨hclock, ?_⟩
  rw [delivered_iff hclock]
  intro hnever
  have hrun : (match after (List.replicate 100 sampleFirst) with
      | .ok p => (p .firstPacket).ring.isFull
          && (p .firstPacket).ring.contents.head? == some { event := (), timestamp := 0 }
      | .error _ => false) = true := by decide +kernel
  rcases hp : after (List.replicate 100 sampleFirst) with _ | p
  · rw [hp] at hrun
    cases hrun
  · rw [hp] at hrun
    simp only [Bool.and_eq_true, beq_iff_eq] at hrun
    have hage := hnever _ () 200000000 200000000 (List.prefix_refl _) p hp hrun.1 _ hrun.2
    exact absurd hage (by decide)

end TempQueues

end Kyanos
