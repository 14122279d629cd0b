/-
Runs of a `KernEventStream`: lookups, and what the discards take and leave.

Every operation keeps the rings in order (`step_indexed`), so the lists `stored` are
ascending in every state of every run, and the four range tests of
`FindEventsBySeqAndLen` together with its early stop are a filter of such a list.

The two results on discarding are equivalences, because neither property holds of the
code as it stands. A discard at the mark `d` should take the events that end at or
before `d`, and leave those that cover a byte from `d` on. It takes those that *start*
before `d`, and none at all when every event does.
-/
import Kyanos.KernEvents

set_option autoImplicit false

open GoNum Trace

namespace Kyanos

namespace KernEventStream

/-! ## Every ring stays in order -/

/-- The list of a step after the discard at the start of `AddKernEvent`. -/
def kept (s : KernEventStream) (step : AgentStepT) : List KernEvent :=
  discarded (s.mark (isEgressStep step)) (s.stored step)

/-- **The inversion of `AddKernEvent`.** On rings in order it does not panic; the lists of
the other steps are only cut at their marks. -/
theorem addKernEvent_ok {s : KernEventStream} (h : Indexed s) (event : AgentKernEvt)
    (names : ℕ → ℕ → Option String) :
    ∃ r s', s.addKernEvent event names = .ok (r, s') ∧ Indexed s'
      ∧ (∀ j, j ≠ event.step → s'.stored j = s.kept j)
      ∧ (0 < event.len →
        Outcome s.maxLen event (ifnameOf names event) (s.kept event.step) r
          (s'.stored event.step)) := by
  obtain ⟨s₁, heq₁, h₁, hmarks, hstored⟩ := discardEventsIfNeeded_ok h
  unfold addKernEvent
  rw [heq₁]
  change ∃ r s', (if event.len > 0 then _ else _) = _ ∧ _
  by_cases hlen : 0 < event.len
  · -- A step without a ring gets an empty one.
    have hring : RingOk s₁.maxLen event.step
        ((s₁.kernEvents.get? event.step).getD (RingBuffer.new s₁.maxLen))
        (s₁.stored event.step) := by
      cases hget : s₁.kernEvents.get? event.step with
      | none =>
          rw [stored_of_none hget]
          exact ⟨RingBuffer.new_refines s₁.maxLen_pos, rfl, List.Pairwise.nil, by simp⟩
      | some ring => exact h₁ event.step ring hget
    obtain ⟨r, ring', l', heq, hring', hadded⟩ := addToRing_ok hring hlen names
    rw [if_pos hlen, heq]
    refine ⟨r, _, rfl, h₁.put hring', ?_, ?_⟩
    · intro j hj
      rw [stored_put, if_neg hj, hstored j]
      rfl
    · intro _
      rw [stored_put, if_pos rfl, hring'.contents]
      rw [hstored event.step, hmarks.1] at hadded
      exact hadded
  · rw [if_neg hlen]
    exact ⟨true, s₁, rfl, h₁, fun j _ => hstored j, fun hpos => absurd hpos hlen⟩

theorem markNeedDiscardSeq_indexed {s : KernEventStream} (h : Indexed s) (seq : ℕ)
    (egress : Bool) : Indexed (s.markNeedDiscardSeq seq egress) := by
  unfold markNeedDiscardSeq
  split_ifs
  · exact h
  · exact h

/-- **One step keeps the rings in order.** -/
theorem step_indexed {s s' : KernEventStream} {op : Op} (h : Indexed s)
    (hstep : s.step op = .ok s') : Indexed s' := by
  cases op with
  | addKernEvent event names =>
      obtain ⟨r, s₁, heq, h₁, -⟩ := addKernEvent_ok h event names
      rw [step, heq] at hstep
      cases hstep
      exact h₁
  | markNeedDiscardSeq seq egress =>
      cases hstep
      exact markNeedDiscardSeq_indexed h seq egress
  | discardEventsIfNeeded =>
      obtain ⟨s₁, heq, h₁, -⟩ := discardEventsIfNeeded_ok h
      rw [step, heq] at hstep
      cases hstep
      exact h₁

/-- The states a stream with rings of `maxLen` slots goes through. -/
def Reaches (maxLen : ℕ) (hpos : 0 < maxLen) (ops : List Op) (s : KernEventStream) : Prop :=
  Run step (fun _ _ => True) (new maxLen hpos) ops s

theorem Reaches.indexed {maxLen : ℕ} {hpos : 0 < maxLen} {ops : List Op} {s : KernEventStream}
    (hrun : Reaches maxLen hpos ops s) : Indexed s := by
  refine Run.invariant ?_ (fun _ _ _ h _ hstep => step_indexed h hstep) hrun
  intro j ring hget
  simp [new] at hget

/-! ## Lookups -/

/-- The event has a byte in the range from `start` to `stop`. -/
def Meets (start stop : ℕ) (e : KernEvent) : Prop := e.seq < stop ∧ start < e.seq + e.len

instance (start stop : ℕ) (e : KernEvent) : Decidable (Meets start stop e) :=
  inferInstanceAs (Decidable (_ ∧ _))

theorem meets_iff {start stop : ℕ} {e : KernEvent} (hpos : 0 < e.len) (hlt : start < stop) :
    Meets start stop e
      ↔ ∃ p, (e.seq ≤ p ∧ p < e.seq + e.len) ∧ start ≤ p ∧ p < stop := by
  unfold Meets
  constructor
  · rintro ⟨h1, h2⟩
    exact ⟨max e.seq start, ⟨by omega, by omega⟩, by omega, by omega⟩
  · rintro ⟨p, ⟨h1, h2⟩, h3, h4⟩
    exact ⟨by omega, by omega⟩

/-- The four tests: the first three are together the intersection of the ranges. -/
theorem collect_eq {step : AgentStepT} {e : KernEvent} (he : EventOk step e) {start stop : ℕ}
    (hlt : start < stop) (result : List KernEvent) :
    collect start stop result (some e)
      = if Meets start stop e then .ok (result ++ [e], true)
        else .ok (result, decide (e.seq ≤ stop)) := by
  have hpos := he.len_pos
  have hend := u64_of_lt he.noWrap
  unfold collect
  dsimp only
  rw [hend]
  -- An event that passes none of the tests lies beside the range.
  by_cases hmeets : Meets start stop e
  · rw [if_pos hmeets]
    obtain ⟨h1, h2⟩ := hmeets
    split_ifs
    · rfl
    · rfl
    · rfl
    · omega
    · omega
  · rw [if_neg hmeets]
    have hbeside : stop ≤ e.seq ∨ e.seq + e.len ≤ start := by
      by_contra hno
      exact hmeets ⟨by omega, by omega⟩
    rw [if_neg (by omega), if_neg (by omega), if_neg (by omega)]
    split_ifs with h4
    · rw [decide_eq_false (by omega)]
    · rw [decide_eq_true (by omega)]

/-- The iteration is a filter. The stop loses nothing, because the starts ascend. -/
theorem iterate_collect {step : AgentStepT} {l : List KernEvent} (hsorted : Ascending l)
    (hok : ∀ e ∈ l, EventOk step e) {start stop : ℕ} (hlt : start < stop)
    (result : List KernEvent) :
    RingBuffer.iterate (collect start stop) l result
      = .ok (result ++ l.filter (fun e => Meets start stop e)) := by
  induction l generalizing result with
  | nil => simp [RingBuffer.iterate]
  | cons e l ih =>
      obtain ⟨hbelow, htail⟩ := List.pairwise_cons.mp hsorted
      have htail_ok : ∀ x ∈ l, EventOk step x := fun x hx => hok x (List.mem_cons_of_mem _ hx)
      unfold RingBuffer.iterate
      rw [collect_eq (hok e List.mem_cons_self) hlt]
      by_cases hmeets : Meets start stop e
      · rw [if_pos hmeets]
        change RingBuffer.iterate (collect start stop) l (result ++ [e]) = _
        rw [ih htail htail_ok, List.filter_cons_of_pos (by simpa using hmeets), List.append_assoc]
        rfl
      · rw [if_neg hmeets, List.filter_cons_of_neg (by simpa using hmeets)]
        change (if decide (e.seq ≤ stop) = true then _ else _) = _
        by_cases hstop : e.seq ≤ stop
        · rw [if_pos (by simpa using hstop)]
          exact ih htail htail_ok result
        · -- Every later event starts behind the range too.
          have hnone : l.filter (fun x => Meets start stop x) = [] := by
            rw [List.filter_eq_nil_iff]
            intro x hx hmeets
            have hlt' := hbelow x hx
            have hstart : x.seq < stop := (of_decide_eq_true hmeets).1
            omega
          rw [if_neg (by simpa using hstop), hnone, List.append_nil]

theorem findEventsBySeqAndLen_eq {s : KernEventStream} (h : Indexed s) (step : AgentStepT)
    {seq : ℕ} {len : ℤ} (hlen : 0 < len) (hwrap : seq + len < 2 ^ 64) :
    s.findEventsBySeqAndLen step seq len
      = .ok ((s.stored step).filter (fun e => Meets seq (seq + len.toNat) e)) := by
  have hstop : u64 (seq + ofInt64 len) = seq + len.toNat := by
    rw [ofInt64_of_nonneg hlen.le, u64_of_lt (by omega)]
  unfold findEventsBySeqAndLen
  rw [hstop]
  cases hget : s.kernEvents.get? step with
  | none =>
      rw [stored_of_none hget]
      rfl
  | some ring =>
      have hring := h step ring hget
      dsimp only
      rw [hring.refines.forEach_eq, iterate_collect hring.sorted hring.events (by omega)]
      rfl

/-- **Lookups are exact.** In every state of every run, a lookup returns the stored events
of the step that share a position with its range: all of them, no others, each once and
in ascending order. -/
theorem run_find_exact {maxLen : ℕ} {hpos : 0 < maxLen} {ops : List Op} {s : KernEventStream}
    (hrun : Reaches maxLen hpos ops s) (step : AgentStepT) {seq : ℕ} {len : ℤ} (hlen : 0 < len)
    (hwrap : seq + len < 2 ^ 64) :
    ∃ result, s.findEventsBySeqAndLen step seq len = .ok result
      ∧ result.Pairwise (fun a b => a.seq < b.seq)
      ∧ ∀ e, e ∈ result ↔ e ∈ s.stored step
        ∧ ∃ p : ℕ, (e.seq ≤ p ∧ p < e.seq + e.len) ∧ seq ≤ p ∧ (p : ℤ) < seq + len := by
  have hindexed := hrun.indexed
  obtain ⟨hsorted, hok⟩ := hindexed.stored_ok step
  refine ⟨_, findEventsBySeqAndLen_eq hindexed step hlen hwrap, hsorted.filter _, ?_⟩
  intro e
  rw [List.mem_filter, decide_eq_true_eq]
  refine and_congr_right (fun he => ?_)
  rw [meets_iff (hok e he).len_pos (by omega)]
  refine exists_congr (fun p => ?_)
  omega

/-- An event of step 3, `TCP_OUT`, without the fields the stream only carries along. -/
def sampleEvt (seq len : ℕ) (hs : seq < 2 ^ 32) (hl : len < 2 ^ 32) : AgentKernEvt :=
  { ts := 1, tsDelta := 0, seq := seq, len := len, ifindex := 0, tgidFd := 0, step := 3
    seq_lt := hs, len_lt := hl }

/-- Positions 10 to 19. -/
def sampleFirst : AgentKernEvt := sampleEvt 10 10 (by decide) (by decide)

/-- Positions 25 to 29. -/
def sampleSecond : AgentKernEvt := sampleEvt 25 5 (by decide) (by decide)

/-- A connection's ring of 300 slots, filled from the first slot on. -/
def sampleRing (events : List AgentKernEvt) : RingBuffer KernEvent :=
  { data := events.map (fun event => some (KernEvent.ofKernEvt event none))
      ++ List.replicate (300 - events.length) none
    size := 300, start := 0, stop := events.length, isFull := false }

/-- A stream with this ring at step 3 and a mark for the outgoing direction. -/
def sampleStream (events : List AgentKernEvt) (d : ℕ) : KernEventStream :=
  { kernEvents := ⟨[(3, sampleRing events)], by simp⟩, maxLen := 300, egressDiscardSeq := d
    ingressDiscardSeq := 0, maxLen_pos := by decide }

theorem run_find_exact_sample : ∃ result,
    (sampleStream [sampleFirst, sampleSecond] 0).findEventsBySeqAndLen 3 18 8 = .ok result
      ∧ KernEvent.ofKernEvt sampleFirst none ∈ result := by
  have hrun : Reaches 300 (by decide)
      [.addKernEvent sampleSecond (fun _ _ => none), .addKernEvent sampleFirst (fun _ _ => none)]
      (sampleStream [sampleFirst, sampleSecond] 0) := Run.of_exec (by decide +kernel)
  obtain ⟨result, heq, -, hmem⟩ := run_find_exact hrun 3 (show (0 : ℤ) < 8 by decide)
    (show ((18 : ℕ) : ℤ) + 8 < 2 ^ 64 by decide)
  refine ⟨result, heq, (hmem _).mpr ⟨by decide, 18, by decide, by decide, by decide⟩⟩

/-! ## What a discard frees -/

/-- The discard leaves no event of the direction that ends at or before the mark. -/
def Freed (s : KernEventStream) (egress : Bool) : Prop :=
  ∀ s', s.discardEventsIfNeeded = .ok s' → ∀ step, ofDirection egress step = true →
    ∀ e ∈ s'.stored step, ¬ e.seq + e.len ≤ s.mark egress

/-- A full ring of the direction whose events all end at or before the mark takes a new
event from the mark on. -/
def Accepts (s : KernEventStream) (egress : Bool) : Prop :=
  ∀ step, ofDirection egress step = true → (s.stored step).length = s.maxLen →
    (∀ e ∈ s.stored step, e.seq + e.len ≤ s.mark egress) →
    ∀ (event : AgentKernEvt) (names : ℕ → ℕ → Option String), event.step = step →
      s.mark egress ≤ event.seq → ∃ s', s.addKernEvent event names = .ok (true, s')

/-- In every ring of the direction some event starts at or behind the mark, or every
event ends behind it. -/
def Reached (s : KernEventStream) (egress : Bool) : Prop :=
  ∀ step, ofDirection egress step = true →
    (∃ e ∈ s.stored step, s.mark egress ≤ e.seq)
      ∨ ∀ e ∈ s.stored step, s.mark egress < e.seq + e.len

/-- The mark a step's list is cut at is that of its direction. -/
theorem kept_eq (s : KernEventStream) {egress : Bool} {step : AgentStepT}
    (hdir : ofDirection egress step = true) :
    s.kept step = discarded (s.mark egress) (s.stored step) := by
  unfold kept
  unfold ofDirection at hdir
  rw [isIngressStep_eq] at hdir
  cases egress
  · rw [show isEgressStep step = false by simpa using hdir]
  · rw [show isEgressStep step = true by simpa using hdir]

/-- The discard, for the steps of one direction. -/
theorem discard_direction {s : KernEventStream} (h : Indexed s) (egress : Bool) :
    ∃ s', s.discardEventsIfNeeded = .ok s' ∧ Indexed s'
      ∧ ∀ step, ofDirection egress step = true →
        s'.stored step = discarded (s.mark egress) (s.stored step) := by
  obtain ⟨s', heq, h', -, hstored⟩ := discardEventsIfNeeded_ok h
  refine ⟨s', heq, h', ?_⟩
  intro step hdir
  rw [hstored step]
  exact kept_eq s hdir

/-- The list of a step is free of events before the mark exactly when its ring is reached. -/
theorem discarded_freed_iff {step : AgentStepT} {l : List KernEvent} (d : ℕ)
    (hok : ∀ e ∈ l, EventOk step e) :
    (∀ e ∈ discarded d l, ¬ e.seq + e.len ≤ d)
      ↔ (∃ e ∈ l, d ≤ e.seq) ∨ ∀ e ∈ l, d < e.seq + e.len := by
  unfold discarded
  by_cases hex : ∃ e ∈ l, d ≤ e.seq
  · rw [if_pos hex]
    refine ⟨fun _ => Or.inl hex, fun _ e he => ?_⟩
    rw [List.mem_filter, decide_eq_true_eq] at he
    have hpos := (hok e he.1).len_pos
    omega
  · rw [if_neg hex]
    constructor
    · intro h
      exact Or.inr (fun e he => not_le.mp (h e he))
    · rintro (h | h) e he
      · exact absurd h hex
      · exact not_le.mpr (h e he)

/-- **When a discard frees its space.** In every state of every run, the discard at a mark
leaves nothing that ends at or before it, and a full ring of such events takes a new one,
exactly when every ring of the direction is reached. Otherwise the search for the mark runs
past the last event and `DiscardBeforeIndex` refuses the index. -/
theorem run_freed_iff {maxLen : ℕ} {hpos : 0 < maxLen} {ops : List Op} {s : KernEventStream}
    (hrun : Reaches maxLen hpos ops s) (egress : Bool) :
    Freed s egress ∧ Accepts s egress ↔ Reached s egress := by
  have hindexed := hrun.indexed
  obtain ⟨s', heq, -, hlist⟩ := discard_direction hindexed egress
  constructor
  · rintro ⟨hfreed, -⟩ step hdir
    have hlist' := hfreed s' heq step hdir
    rw [hlist step hdir] at hlist'
    exact (discarded_freed_iff _ (hindexed.stored_ok step).2).mp hlist'
  · intro hreached
    refine ⟨?_, ?_⟩
    · intro s₁ heq₁ step hdir
      rw [heq] at heq₁
      cases heq₁
      rw [hlist step hdir]
      exact (discarded_freed_iff _ (hindexed.stored_ok step).2).mpr (hreached step hdir)
    · -- A full ring has an event, and in a reached ring it does not end before the mark.
      intro step hdir hfull hbefore
      have hne : s.stored step ≠ [] := by
        intro hnil
        have := s.maxLen_pos
        rw [hnil, List.length_nil] at hfull
        omega
      obtain ⟨e, he⟩ := List.exists_mem_of_ne_nil _ hne
      rcases hreached step hdir with ⟨e', he', hle⟩ | hafter
      · have h1 := hbefore e' he'
        have h2 := ((hindexed.stored_ok step).2 e' he').len_pos
        omega
      · have h1 := hbefore e he
        have h2 := hafter e he
        omega

theorem sampleStream_stored {step : AgentStepT} (h : step ≠ 3) (events : List AgentKernEvt)
    (d : ℕ) : (sampleStream events d).stored step = [] := by
  apply stored_of_none
  simp [sampleStream, SortedMap.get?, h]

/-- The second event starts behind the mark, so the first one is freed. -/
theorem run_freed_iff_sample : Freed (sampleStream [sampleFirst, sampleSecond] 22) true := by
  have hrun : Reaches 300 (by decide)
      [.addKernEvent sampleSecond (fun _ _ => none), .addKernEvent sampleFirst (fun _ _ => none),
        .markNeedDiscardSeq 22 true] (sampleStream [sampleFirst, sampleSecond] 22) :=
    Run.of_exec (by decide +kernel)
  refine ((run_freed_iff hrun true).mpr ?_).1
  intro step _
  by_cases hstep : step = 3
  · subst hstep
    exact Or.inl ⟨KernEvent.ofKernEvt sampleSecond none, by decide, by decide⟩
  · rw [sampleStream_stored hstep]
    exact Or.inr (by simp)

/-- A single event, and the mark at its end: the discard leaves it. -/
theorem lone_event_not_freed :
    Reaches 300 (by decide)
        [.addKernEvent sampleFirst (fun _ _ => none), .markNeedDiscardSeq 20 true]
        (sampleStream [sampleFirst] 20)
      ∧ ¬ Freed (sampleStream [sampleFirst] 20) true := by
  refine ⟨Run.of_exec (by decide +kernel), ?_⟩
  intro hfreed
  exact hfreed (sampleStream [sampleFirst] 20) (by decide +kernel) 3 rfl
    (KernEvent.ofKernEvt sampleFirst none) (by decide) (by decide)

/-- The visible effect: behind the mark a full ring of such events takes nothing more. -/
theorem full_ring_rejects {maxLen : ℕ} {hpos : 0 < maxLen} {ops : List Op} {s : KernEventStream}
    (hrun : Reaches maxLen hpos ops s) {egress : Bool} {event : AgentKernEvt}
    (hdir : ofDirection egress event.step = true) (hlen : 0 < event.len)
    (hfull : (s.stored event.step).length = s.maxLen)
    (hbefore : ∀ e ∈ s.stored event.step, e.seq + e.len ≤ s.mark egress)
    (hseq : s.mark egress ≤ event.seq) (names : ℕ → ℕ → Option String) :
    ∃ s', s.addKernEvent event names = .ok (false, s') := by
  have hindexed := hrun.indexed
  obtain ⟨r, s', heq, -, -, hadded⟩ := addKernEvent_ok hindexed event names
  have hbelow : ∀ e ∈ s.stored event.step, e.seq < s.mark egress := by
    intro e he
    have h1 := hbefore e he
    have h2 := ((hindexed.stored_ok event.step).2 e he).len_pos
    omega
  have hkept : s.kept event.step = s.stored event.step := by
    rw [kept_eq s hdir, discarded_below hbelow]
  have hnew : ¬ ∃ e ∈ s.kept event.step, e.seq = event.seq := by
    rw [hkept]
    rintro ⟨e, he, hsame⟩
    have := hbelow e he
    omega
  have hadded' := (hadded hlen).added
  generalize s'.stored event.step = l' at hadded'
  refine ⟨s', ?_⟩
  rw [heq]
  cases hadded' with
  | known _ seen => exact absurd seen hnew
  | timed _ seen _ => exact absurd seen hnew
  | inserted _ _ _ _ _ _ room =>
      rw [hkept] at room
      omega
  | rejected => rfl

/-! ## What a discard takes -/

/-- The discard leaves every event of the direction that covers a position from the mark
on; and one that straddles the mark is found for the message that starts there. -/
def Spared (s : KernEventStream) (egress : Bool) : Prop :=
  ∀ s', s.discardEventsIfNeeded = .ok s' → ∀ step, ofDirection egress step = true →
    ∀ e ∈ s.stored step, (∃ p, s.mark egress ≤ p ∧ e.seq ≤ p ∧ p < e.seq + e.len) →
      e ∈ s'.stored step
        ∧ (e.seq < s.mark egress → ∀ len : ℤ, 0 < len → s.mark egress + len < 2 ^ 64 →
          ∃ result, s'.findEventsBySeqAndLen step (s.mark egress) len = .ok result ∧ e ∈ result)

/-- In every ring of the direction no event straddles the mark, or all start before it. -/
def Clean (s : KernEventStream) (egress : Bool) : Prop :=
  ∀ step, ofDirection egress step = true →
    (∀ e ∈ s.stored step, ¬ (e.seq < s.mark egress ∧ s.mark egress < e.seq + e.len))
      ∨ ∀ e ∈ s.stored step, e.seq < s.mark egress

/-- An event is left by a discard if it starts at the mark or later, or if none does. -/
theorem mem_discarded_iff {d : ℕ} {l : List KernEvent} {e : KernEvent} :
    e ∈ discarded d l ↔ e ∈ l ∧ (d ≤ e.seq ∨ ∀ x ∈ l, x.seq < d) := by
  unfold discarded
  split_ifs with hex
  · rw [List.mem_filter, decide_eq_true_eq]
    refine and_congr_right (fun _ => ⟨Or.inl, ?_⟩)
    rintro (hle | hall)
    · exact hle
    · obtain ⟨x, hx, hle⟩ := hex
      exact absurd (hall x hx) (not_lt.mpr hle)
  · refine ⟨fun he => ⟨he, Or.inr ?_⟩, And.left⟩
    intro x hx
    exact not_le.mp (fun hle => hex ⟨x, hx, hle⟩)

/-- **When a discard spares what is still needed.** In every state of every run, the
discard takes no event that covers a position from the mark on exactly when no event of
the direction straddles the mark, except in rings where all events start before it and
nothing is discarded. -/
theorem run_spared_iff {maxLen : ℕ} {hpos : 0 < maxLen} {ops : List Op} {s : KernEventStream}
    (hrun : Reaches maxLen hpos ops s) (egress : Bool) : Spared s egress ↔ Clean s egress := by
  have hindexed := hrun.indexed
  obtain ⟨s', heq, hindexed', hlist⟩ := discard_direction hindexed egress
  constructor
  · intro hspared step hdir
    by_contra hno
    rw [not_or] at hno
    obtain ⟨hstraddle, hlater⟩ := hno
    simp only [not_forall, not_not] at hstraddle
    obtain ⟨e, he, h1, h2⟩ := hstraddle
    -- The straddling event is taken, because some event starts at the mark or later.
    have hmem := (hspared s' heq step hdir e he ⟨s.mark egress, le_rfl, h1.le, h2⟩).1
    rw [hlist step hdir, mem_discarded_iff] at hmem
    rcases hmem.2 with hle | hall
    · omega
    · exact hlater hall
  · intro hclean s₁ heq₁ step hdir e he hcover
    rw [heq] at heq₁
    cases heq₁
    obtain ⟨p, hp1, hp2, hp3⟩ := hcover
    have hmem : e ∈ s'.stored step := by
      rw [hlist step hdir, mem_discarded_iff]
      refine ⟨he, ?_⟩
      rcases hclean step hdir with hnone | hall
      · left
        by_contra hlt
        exact hnone e he ⟨by omega, by omega⟩
      · exact Or.inr hall
    refine ⟨hmem, ?_⟩
    intro hbefore len hlen hwrap
    refine ⟨_, findEventsBySeqAndLen_eq hindexed' step hlen hwrap, ?_⟩
    rw [List.mem_filter, decide_eq_true_eq]
    exact ⟨hmem, by omega, by omega⟩

/-- The mark falls between the two events. -/
theorem run_spared_iff_sample : Spared (sampleStream [sampleFirst, sampleSecond] 22) true := by
  have hrun : Reaches 300 (by decide)
      [.addKernEvent sampleSecond (fun _ _ => none), .addKernEvent sampleFirst (fun _ _ => none),
        .markNeedDiscardSeq 22 true] (sampleStream [sampleFirst, sampleSecond] 22) :=
    Run.of_exec (by decide +kernel)
  apply (run_spared_iff hrun true).mpr
  intro step _
  by_cases hstep : step = 3
  · subst hstep
    exact Or.inl (by decide +kernel)
  · rw [sampleStream_stored hstep]
    exact Or.inr (by simp)

/-- The mark falls into the first event: it is taken, and the message that starts at the
mark is left without it. -/
theorem straddling_event_taken :
    Reaches 300 (by decide)
        [.addKernEvent sampleFirst (fun _ _ => none), .addKernEvent sampleSecond (fun _ _ => none),
          .markNeedDiscardSeq 15 true] (sampleStream [sampleFirst, sampleSecond] 15)
      ∧ ¬ Spared (sampleStream [sampleFirst, sampleSecond] 15) true := by
  have hrun : Reaches 300 (by decide)
      [.addKernEvent sampleFirst (fun _ _ => none), .addKernEvent sampleSecond (fun _ _ => none),
        .markNeedDiscardSeq 15 true] (sampleStream [sampleFirst, sampleSecond] 15) :=
    Run.of_exec (by decide +kernel)
  refine ⟨hrun, ?_⟩
  intro hspared
  obtain ⟨s', heq, -, -, hstored⟩ := discardEventsIfNeeded_ok hrun.indexed
  have hmem := (hspared s' heq 3 rfl (KernEvent.ofKernEvt sampleFirst none) (by decide)
    ⟨15, by decide, by decide, by decide⟩).1
  rw [hstored 3] at hmem
  exact absurd hmem (by decide)

end KernEventStream

end Kyanos
