/-
What becomes of an accepted kernel event.

`AddKernEvent` returns `true` on three paths. A new event is inserted and is found with all
its fields. At a NIC step, an event that is already there gets the earlier time of the
interface. And at any other step an event that is already there with a *later* time is
overwritten in a copy, which nobody stores: the call reports success and the stored event
stays as it was.

The times of the interfaces are a minimum over what was accepted. To say so, a run is
followed with a log of the accepted times (`Logged`): those of events the stream still has,
and those that went with a discarded event. `Dated` is the invariant, that every stored
attribute is the minimum of its part of the live log; `run_visible_iff` says exactly when an
accepted event is visible as it was given.
-/
import Kyanos.KernEventRuns

set_option autoImplicit false

open GoNum Trace

namespace Kyanos

namespace KernEventStream

/-! ## A stream and the times it accepted -/

/-- A time accepted from an interface for an event. -/
structure Accepted where
  step : AgentStepT
  seq : ℕ
  ifname : String
  time : ℤ
deriving DecidableEq

/-- The time an event of a NIC step brings. -/
def Accepted.ofKernEvt (names : ℕ → ℕ → Option String) (event : AgentKernEvt) : Accepted :=
  ⟨event.step, event.seq, ifnameOf names event, toInt64 event.ts⟩

/-- A stream with the times it accepted: `live` for the events it still has, `gone` for those
it has discarded since. -/
structure Logged where
  stream : KernEventStream
  live : List Accepted
  gone : List Accepted
deriving DecidableEq

/-- The event the time belongs to is there after the discard. -/
def Accepted.survives (s : KernEventStream) (a : Accepted) : Bool :=
  (s.kept a.step).any (fun e => e.seq == a.seq)

namespace Logged

def new (maxLen : ℕ) (h : 0 < maxLen) : Logged :=
  { stream := KernEventStream.new maxLen h, live := [], gone := [] }

/-- A discard moves times from `live` to `gone`. -/
def forget (g : Logged) : Logged :=
  { g with
    live := g.live.filter (Accepted.survives g.stream)
    gone := g.gone ++ g.live.filter (fun a => !Accepted.survives g.stream a) }

/-- All times accepted so far. -/
def accepted (g : Logged) : List Accepted := g.gone ++ g.live

/-- What a call of `AddKernEvent` adds to the log. -/
def entry (names : ℕ → ℕ → Option String) (event : AgentKernEvt) (r : Bool) : List Accepted :=
  if r = true ∧ isNicStep event.step = true ∧ event.len > 0 then
    [Accepted.ofKernEvt names event]
  else []

def step (g : Logged) : Op → Except Panic Logged
  | .addKernEvent event names => do
      let (r, s) ← g.stream.addKernEvent event names
      .ok { stream := s, live := g.forget.live ++ entry names event r, gone := g.forget.gone }
  | .markNeedDiscardSeq seq egress =>
      .ok { g with stream := g.stream.markNeedDiscardSeq seq egress }
  | .discardEventsIfNeeded => do
      let s ← g.stream.discardEventsIfNeeded
      .ok { g.forget with stream := s }

end Logged

/-- The runs of a stream with its log. -/
def LoggedReaches (maxLen : ℕ) (hpos : 0 < maxLen) (ops : List Op) (g : Logged) : Prop :=
  Run Logged.step (fun _ _ => True) (Logged.new maxLen hpos) ops g

/-- The log is an observer: every run of a stream is one with its log. -/
theorem Reaches.logged {maxLen : ℕ} {hpos : 0 < maxLen} {ops : List Op} {s : KernEventStream}
    (hrun : Reaches maxLen hpos ops s) :
    ∃ g, LoggedReaches maxLen hpos ops g ∧ g.stream = s := by
  induction hrun with
  | nil => exact ⟨Logged.new maxLen hpos, Run.nil, rfl⟩
  | @snoc is s s' op prev _ stepped ih =>
      obtain ⟨g, hg, rfl⟩ := ih
      have hstep : ∃ g', g.step op = .ok g' ∧ g'.stream = s' := by
        rcases op with ⟨event, names⟩ | ⟨seq, egress⟩ | _
        · rw [KernEventStream.step] at stepped
          rcases hadd : g.stream.addKernEvent event names with _ | ⟨r, s₁⟩
          · rw [hadd] at stepped
            cases stepped
          · rw [hadd] at stepped
            cases stepped
            rw [Logged.step, hadd]
            exact ⟨_, rfl, rfl⟩
        · cases stepped
          exact ⟨_, rfl, rfl⟩
        · rw [KernEventStream.step] at stepped
          rw [Logged.step, stepped]
          exact ⟨_, rfl, rfl⟩
      obtain ⟨g', heq, hstream⟩ := hstep
      exact ⟨g', hg.snoc trivial heq, hstream⟩

/-- The times of one event and interface in a log. -/
def times (log : List Accepted) (step : AgentStepT) (seq : ℕ) (ifname : String) : List ℤ :=
  (log.filter (fun a => a.step = step ∧ a.seq = seq ∧ a.ifname = ifname)).map Accepted.time

theorem mem_times {log : List Accepted} {step : AgentStepT} {seq : ℕ} {ifname : String} {t : ℤ} :
    t ∈ times log step seq ifname ↔ ⟨step, seq, ifname, t⟩ ∈ log := by
  unfold times
  simp only [List.mem_map, List.mem_filter, decide_eq_true_eq]
  constructor
  · rintro ⟨a, ⟨ha, rfl, rfl, rfl⟩, rfl⟩
    exact ha
  · intro h
    exact ⟨_, ⟨h, rfl, rfl, rfl⟩, rfl⟩

theorem times_append (log log' : List Accepted) (step : AgentStepT) (seq : ℕ) (ifname : String) :
    times (log ++ log') step seq ifname = times log step seq ifname ++ times log' step seq ifname := by
  unfold times
  rw [List.filter_append, List.map_append]

/-- The times of an event that survives a discard stay in the live log. -/
theorem times_forget {g : Logged} {step : AgentStepT} {e : KernEvent}
    (he : e ∈ g.stream.kept step) (ifname : String) :
    times g.forget.live step e.seq ifname = times g.live step e.seq ifname := by
  unfold times Logged.forget
  dsimp only
  rw [List.filter_filter]
  congr 1
  apply List.filter_congr
  intro a _
  rw [Bool.and_eq_left_iff_imp, decide_eq_true_eq]
  rintro ⟨rfl, hseq, -⟩
  exact List.any_eq_true.mpr ⟨e, he, by simpa using hseq.symm⟩

/-! ## Every attribute is a minimum -/

/-- Every event of the list carries, for each interface, the earliest time of the log. -/
def Earliest (log : List Accepted) (step : AgentStepT) (l : List KernEvent) : Prop :=
  ∀ e ∈ l, ∃ attributes, e.attributes = some attributes ∧
    ∀ ifname, attributes.get? ("time-" ++ ifname) = (times log step e.seq ifname).min?

/-- Every time of the log for the step has its event in the list. -/
def Owned (log : List Accepted) (step : AgentStepT) (l : List KernEvent) : Prop :=
  ∀ a ∈ log, a.step = step → ∃ e ∈ l, e.seq = a.seq

/-- The invariant of a stream and its log. -/
structure Dated (g : Logged) : Prop where
  indexed : Indexed g.stream
  owned : ∀ step, Owned g.live step (g.stream.stored step)
  earliest : ∀ step, isNicStep step = true → Earliest g.live step (g.stream.stored step)

theorem kept_subset {s : KernEventStream} {step : AgentStepT} {e : KernEvent}
    (he : e ∈ s.kept step) : e ∈ s.stored step := (mem_discarded_iff.mp he).1

theorem Owned.forget (g : Logged) (step : AgentStepT) :
    Owned g.forget.live step (g.stream.kept step) := by
  rintro a ha rfl
  have hsurvives := (List.mem_filter.mp ha).2
  obtain ⟨e, he, hseq⟩ := List.any_eq_true.mp hsurvives
  exact ⟨e, he, by simpa using hseq⟩

theorem Earliest.forget {g : Logged} {step : AgentStepT}
    (h : Earliest g.live step (g.stream.stored step)) :
    Earliest g.forget.live step (g.stream.kept step) := by
  intro e he
  obtain ⟨attributes, hattr, hmin⟩ := h e (kept_subset he)
  refine ⟨attributes, hattr, ?_⟩
  intro ifname
  rw [times_forget he, hmin ifname]

/-- In an ascending list the start determines the event. -/
theorem Ascending.eq_of_seq {l : List KernEvent} (h : Ascending l) {a b : KernEvent}
    (ha : a ∈ l) (hb : b ∈ l) (hseq : a.seq = b.seq) : a = b := by
  by_contra hne
  rcases List.Pairwise.forall_of_forall_of_flip (R := fun a b => a = b ∨ a.seq ≠ b.seq)
    (fun _ _ => Or.inl rfl) (h.imp (fun hlt => Or.inr hlt.ne)) (h.imp (fun hlt => Or.inr hlt.ne'))
    ha hb with heq | hne'
  · exact hne heq
  · exact hne' hseq

theorem kept_ascending {s : KernEventStream} (h : Indexed s) (step : AgentStepT) :
    Ascending (s.kept step) := by
  have hsorted := (h.stored_ok step).1
  unfold kept discarded
  split_ifs
  · exact hsorted.filter _
  · exact hsorted

theorem time_key_inj {a b : String} (h : "time-" ++ a = "time-" ++ b) : a = b := by
  simpa using h

theorem update_eq_some {attributes attributes' : SortedMap String ℤ} {ifname : String} {time : ℤ}
    (h : KernEvent.updateIfTimestampAttr attributes ifname time = some attributes') :
    attributes' = attributes.put ("time-" ++ ifname) time ∧
      ∀ ts, attributes.get? ("time-" ++ ifname) = some ts → time ≤ ts := by
  unfold KernEvent.updateIfTimestampAttr at h
  rcases hget : attributes.get? ("time-" ++ ifname) with _ | ts
  · rw [hget] at h
    cases h
    exact ⟨rfl, by simp⟩
  · rw [hget] at h
    dsimp only at h
    split_ifs at h with hlt
    cases h
    refine ⟨rfl, ?_⟩
    intro ts' hts
    cases hts
    omega

/-- A time not later than all the others is the minimum with them. -/
theorem min?_append_singleton {l : List ℤ} {t : ℤ} (h : ∀ x ∈ l, t ≤ x) :
    (l ++ [t]).min? = some t := by
  rw [List.min?_eq_some_iff]
  refine ⟨by simp, ?_⟩
  intro x hx
  rcases List.mem_append.mp hx with hx | hx
  · exact h x hx
  · rw [List.mem_singleton] at hx
    omega

theorem le_of_min? {l : List ℤ} {t : ℤ} (h : ∀ ts, l.min? = some ts → t ≤ ts) :
    ∀ x ∈ l, t ≤ x := by
  intro x hx
  rcases hmin : l.min? with _ | ts
  · rw [List.min?_eq_none_iff] at hmin
    simp [hmin] at hx
  · exact (h ts hmin).trans ((List.min?_eq_some_iff.mp hmin).2 x hx)

theorem times_entry (names : ℕ → ℕ → Option String) (event : AgentKernEvt) (step : AgentStepT)
    (seq : ℕ) (ifname : String) :
    times [Accepted.ofKernEvt names event] step seq ifname =
      if event.step = step ∧ event.seq = seq ∧ ifnameOf names event = ifname then
        [toInt64 event.ts] else [] := by
  unfold times Accepted.ofKernEvt
  split_ifs with h
  · simp [h]
  · simp [h]

section Outcome

variable {maxLen : ℕ} {event : AgentKernEvt} {names : ℕ → ℕ → Option String}
  {l l' : List KernEvent} {log : List Accepted} {r : Bool}

/-- The events with another start are as they were. -/
theorem Earliest.other (he : Earliest log event.step l) {e : KernEvent} (hmem : e ∈ l)
    (hseq : e.seq ≠ event.seq) :
    ∃ attributes, e.attributes = some attributes ∧ ∀ ifname,
      attributes.get? ("time-" ++ ifname) =
        (times (log ++ Logged.entry names event r) event.step e.seq ifname).min? := by
  obtain ⟨attributes, hattr, hmin⟩ := he e hmem
  refine ⟨attributes, hattr, ?_⟩
  intro ifname
  have hnone : times (Logged.entry names event r) event.step e.seq ifname = [] := by
    unfold Logged.entry
    split_ifs
    · rw [times_entry, if_neg (fun h => hseq h.2.1.symm)]
    · rfl
  rw [times_append, hnone, List.append_nil, hmin ifname]

theorem entry_false : Logged.entry names event false = [] := by simp [Logged.entry]

theorem entry_true (hstep : isNicStep event.step = true) (hlen : 0 < event.len) :
    Logged.entry names event true = [Accepted.ofKernEvt names event] := by
  simp [Logged.entry, hstep, hlen]

/-- The event the accepted time goes to: its attributes are those of the log with the time
put in. -/
theorem put_earliest {attributes : SortedMap String ℤ}
    (hmin : ∀ ifname, attributes.get? ("time-" ++ ifname) =
      (times log event.step event.seq ifname).min?)
    (hle : ∀ t ∈ times log event.step event.seq (ifnameOf names event), toInt64 event.ts ≤ t)
    (ifname : String) :
    (attributes.put ("time-" ++ ifnameOf names event) (toInt64 event.ts)).get?
        ("time-" ++ ifname) =
      (times (log ++ [Accepted.ofKernEvt names event]) event.step event.seq ifname).min? := by
  rw [SortedMap.get?_put, times_append, times_entry]
  by_cases hname : ifname = ifnameOf names event
  · rw [if_pos (by rw [hname]), if_pos ⟨rfl, rfl, hname.symm⟩]
    subst hname
    rw [min?_append_singleton hle]
  · rw [if_neg (fun h => hname (time_key_inj h)), if_neg (fun h => hname h.2.2.symm),
      List.append_nil, hmin ifname]

/-- The start is new, so no time of the log is for it. -/
theorem Owned.times_eq_nil {xs ys : List KernEvent} (hown : Owned log event.step (xs ++ ys))
    (below : ∀ e ∈ xs, e.seq < event.seq) (above : ∀ e ∈ ys, event.seq < e.seq)
    (ifname : String) : times log event.step event.seq ifname = [] := by
  rw [List.eq_nil_iff_forall_not_mem]
  intro t ht
  obtain ⟨x, hx, hseq⟩ := hown _ (mem_times.mp ht) rfl
  dsimp only at hseq
  rcases List.mem_append.mp hx with hx | hx
  · have := below x hx
    omega
  · have := above x hx
    omega

/-- An accepted time is not later than those before it. -/
theorem Outcome.accepted_le (h : Outcome maxLen event (ifnameOf names event) l true l')
    (hstep : isNicStep event.step = true) (hown : Owned log event.step l)
    (he : Earliest log event.step l) :
    ∀ t ∈ times log event.step event.seq (ifnameOf names event), toInt64 event.ts ≤ t := by
  generalize hr : true = r at h
  rcases h with ⟨i, hi, same, hno⟩ | _ | ⟨i, hi, same, -, attributes, hup⟩ |
    ⟨xs, ys, rfl, below, above, -⟩ | _
  · rw [hstep] at hno
    cases hno
  · cases hr
  · obtain ⟨old, hold, hmin⟩ := he l[i] (List.getElem_mem hi)
    rw [hold] at hup
    apply le_of_min?
    intro ts hts
    refine (update_eq_some hup).2 ts ?_
    rw [← hts, ← same]
    exact hmin _
  · rw [hown.times_eq_nil below above]
    simp
  · cases hr

/-- **One accepted time.** The attributes stay the minima of the log. -/
theorem Outcome.earliest (h : Outcome maxLen event (ifnameOf names event) l r l')
    (hstep : isNicStep event.step = true) (hlen : 0 < event.len) (hsorted : Ascending l)
    (hown : Owned log event.step l) (he : Earliest log event.step l) :
    Earliest (log ++ Logged.entry names event r) event.step l' := by
  rcases h with ⟨i, hi, same, hno⟩ | ⟨i, hi, same, -, -⟩ | ⟨i, hi, same, -, attributes, hup⟩ |
    ⟨xs, ys, eq, below, above, -⟩ | ⟨-, -⟩
  · rw [hstep] at hno
    cases hno
  · rw [entry_false, List.append_nil]
    exact he
  -- the event at place `i` has a later time of the interface, which is replaced
  · intro e hmem
    obtain ⟨j, hj, rfl⟩ := List.getElem_of_mem hmem
    rw [List.length_modify] at hj
    rw [List.getElem_modify]
    by_cases hij : i = j
    · subst hij
      rw [if_pos rfl]
      obtain ⟨old, hold, hmin⟩ := he l[i] (List.getElem_mem hi)
      have hle := Outcome.accepted_le (.timed i hi same hstep attributes hup : Outcome maxLen event
        (ifnameOf names event) l true _) hstep hown he
      rw [hold] at hup
      rw [same] at hmin
      refine ⟨attributes, by rw [hold]; rfl, ?_⟩
      intro ifname
      dsimp only
      rw [entry_true hstep hlen, same, (update_eq_some hup).1]
      exact put_earliest hmin hle ifname
    · rw [if_neg hij]
      apply he.other (List.getElem_mem hj)
      intro hseq
      -- two places of an ascending list have different starts
      rcases Nat.lt_or_gt_of_ne hij with hlt | hlt
      · have := List.pairwise_iff_getElem.mp hsorted i j hi hj hlt
        omega
      · have := List.pairwise_iff_getElem.mp hsorted j i hj hi hlt
        omega
  -- the event is new, and its only time is its own
  · subst eq
    have hnone := hown.times_eq_nil below above
    intro e hmem
    rcases List.mem_append.mp hmem with hmem | hmem
    · exact he.other (List.mem_append_left _ hmem) (below e hmem).ne
    · rcases List.mem_cons.mp hmem with rfl | hmem
      · refine ⟨SortedMap.empty.put ("time-" ++ ifnameOf names event) (toInt64 event.ts),
          if_pos hstep, ?_⟩
        intro ifname
        rw [entry_true hstep hlen]
        refine put_earliest (fun ifname => ?_) ?_ ifname
        · rw [hnone ifname]
          rfl
        · rw [hnone]
          simp
      · exact he.other (List.mem_append_right _ hmem) (above e hmem).ne'
  · rw [entry_false, List.append_nil]
    exact he

theorem Outcome.starts (h : Outcome maxLen event (ifnameOf names event) l r l') {e : KernEvent}
    (he : e ∈ l) : ∃ e' ∈ l', e'.seq = e.seq := by
  rcases h with _ | _ | ⟨i, hi, same, -, attributes, -⟩ | ⟨xs, ys, eq, -, -, -⟩ | _
  · exact ⟨e, he, rfl⟩
  · exact ⟨e, he, rfl⟩
  · obtain ⟨j, hj, rfl⟩ := List.getElem_of_mem he
    refine ⟨_, List.getElem_mem (n := j) (by simpa using hj), ?_⟩
    rw [List.getElem_modify]
    split_ifs <;> rfl
  · rw [eq] at he
    rcases List.mem_append.mp he with he | he
    · exact ⟨e, List.mem_append_left _ he, rfl⟩
    · exact ⟨e, List.mem_append_right _ (List.mem_cons_of_mem _ he), rfl⟩
  · exact ⟨e, he, rfl⟩

/-- An accepted event is in the list, under its start. -/
theorem Outcome.mem_of_true (h : Outcome maxLen event (ifnameOf names event) l true l') :
    ∃ e ∈ l', e.seq = event.seq := by
  generalize hr : true = r at h
  rcases h with ⟨i, hi, same, -⟩ | _ | ⟨i, hi, same, -, attributes, -⟩ | ⟨xs, ys, -, -, -, -⟩ | _
  · exact ⟨l[i], List.getElem_mem hi, same⟩
  · cases hr
  · refine ⟨_, List.getElem_mem (n := i) (by simpa using hi), ?_⟩
    rw [List.getElem_modify, if_pos rfl]
    exact same
  · exact ⟨_, List.mem_append_right _ List.mem_cons_self, rfl⟩
  · cases hr

end Outcome

/-- The log of another step does not change. -/
theorem times_entry_other {names : ℕ → ℕ → Option String} {event : AgentKernEvt}
    {step : AgentStepT} (hne : step ≠ event.step) (r : Bool) (seq : ℕ) (ifname : String) :
    times (Logged.entry names event r) step seq ifname = [] := by
  unfold Logged.entry
  split_ifs
  · rw [times_entry, if_neg (fun h => hne h.1.symm)]
  · rfl

/-- What the log and the stream are after a call of `AddKernEvent`. -/
theorem Dated.addKernEvent {g : Logged} (h : Dated g) {event : AgentKernEvt}
    {names : ℕ → ℕ → Option String} {r : Bool} {s' : KernEventStream}
    (hadd : g.stream.addKernEvent event names = .ok (r, s')) :
    Dated { stream := s', live := g.forget.live ++ Logged.entry names event r
            gone := g.forget.gone } := by
  obtain ⟨r₁, s₁, heq, hindexed, hother, hout⟩ := addKernEvent_ok h.indexed event names
  rw [heq] at hadd
  cases hadd
  -- an event without bytes only discards
  have hsame : ¬ 0 < event.len → s'.stored event.step = g.stream.kept event.step ∧
      Logged.entry names event r = [] := by
    intro hlen
    obtain ⟨s₂, heq₂, -, -, hstored⟩ := discardEventsIfNeeded_ok h.indexed
    rw [KernEventStream.addKernEvent, heq₂] at heq
    change (if event.len > 0 then _ else _) = _ at heq
    rw [if_neg hlen] at heq
    cases heq
    exact ⟨hstored _, by simp [Logged.entry, Nat.eq_zero_of_not_pos hlen]⟩
  have hkept : ∀ step, ∀ e ∈ g.stream.kept step, ∃ e' ∈ s'.stored step, e'.seq = e.seq := by
    intro step e he
    by_cases hstep : step = event.step
    · subst hstep
      by_cases hlen : 0 < event.len
      · exact (hout hlen).starts he
      · rw [(hsame hlen).1]
        exact ⟨e, he, rfl⟩
    · rw [hother step hstep]
      exact ⟨e, he, rfl⟩
  refine ⟨hindexed, ?_, ?_⟩
  · intro step a ha hstep
    rcases List.mem_append.mp ha with hlive | hentry
    -- what survives the discard is still stored after the call
    · obtain ⟨e, he, hseq⟩ := Owned.forget g step a hlive hstep
      obtain ⟨e', he', hseq'⟩ := hkept step e he
      exact ⟨e', he', hseq'.trans hseq⟩
    · unfold Logged.entry at hentry
      split_ifs at hentry with hcond
      · obtain ⟨hr, -, hlen⟩ := hcond
        subst hr
        rw [List.mem_singleton] at hentry
        subst hentry
        subst hstep
        exact (hout hlen).mem_of_true
      · simp at hentry
  · intro step hnic
    have hforget := (h.earliest step hnic).forget
    by_cases hstep : step = event.step
    · subst hstep
      by_cases hlen : 0 < event.len
      · exact (hout hlen).earliest hnic hlen (kept_ascending h.indexed _) (Owned.forget g _)
          hforget
      · obtain ⟨hstored, hentry⟩ := hsame hlen
        dsimp only
        rw [hstored, hentry, List.append_nil]
        exact hforget
    · intro e he
      dsimp only at he ⊢
      rw [hother step hstep] at he
      obtain ⟨attributes, hattr, hmin⟩ := hforget e he
      refine ⟨attributes, hattr, ?_⟩
      intro ifname
      rw [times_append, times_entry_other hstep, List.append_nil, hmin ifname]

theorem step_dated {g g' : Logged} {op : Op} (h : Dated g) (hstep : g.step op = .ok g') :
    Dated g' := by
  rcases op with ⟨event, names⟩ | ⟨seq, egress⟩ | _
  · obtain ⟨r, s', hadd, -⟩ := addKernEvent_ok h.indexed event names
    rw [Logged.step, hadd] at hstep
    cases hstep
    exact h.addKernEvent hadd
  · cases hstep
    have hstored : ∀ step, (g.stream.markNeedDiscardSeq seq egress).stored step =
        g.stream.stored step := by
      intro step
      unfold markNeedDiscardSeq
      split_ifs <;> rfl
    refine ⟨markNeedDiscardSeq_indexed h.indexed seq egress, ?_, ?_⟩
    · intro step
      dsimp only
      rw [hstored]
      exact h.owned step
    · intro step hnic
      dsimp only
      rw [hstored]
      exact h.earliest step hnic
  · obtain ⟨s', heq, hindexed, -, hstored⟩ := discardEventsIfNeeded_ok h.indexed
    rw [Logged.step, heq] at hstep
    cases hstep
    refine ⟨hindexed, ?_, ?_⟩
    · intro step
      dsimp only
      rw [hstored step]
      exact Owned.forget g step
    · intro step hnic
      dsimp only
      rw [hstored step]
      exact (h.earliest step hnic).forget

theorem LoggedReaches.dated {maxLen : ℕ} {hpos : 0 < maxLen} {ops : List Op} {g : Logged}
    (hrun : LoggedReaches maxLen hpos ops g) : Dated g := by
  refine Run.invariant ⟨?_, ?_, ?_⟩ (fun _ _ _ h _ hstep => step_dated h hstep) hrun
  · intro step ring hget
    simp [Logged.new, KernEventStream.new] at hget
  · intro step a ha
    simp [Logged.new] at ha
  · intro step _ e he
    simp [Logged.new, KernEventStream.new, stored] at he

/-! ## Visible events -/

/-- A lookup for the event's own range finds an event with its start; outside the NIC steps
with its length and times, and at a NIC step with the earliest time accepted so far for the
event and its interface. -/
def Visible (accepted : List Accepted) (event : AgentKernEvt) (names : ℕ → ℕ → Option String)
    (s : KernEventStream) : Prop :=
  ∃ result, s.findEventsBySeqAndLen event.step event.seq event.len = .ok result ∧
    ∃ e ∈ result, e.seq = event.seq ∧
      (isNicStep event.step = false →
        e.len = event.len ∧ e.startTs = event.ts ∧ e.tsDelta = event.tsDelta) ∧
      (isNicStep event.step = true → ∃ attributes, e.attributes = some attributes ∧
        attributes.get? ("time-" ++ ifnameOf names event) =
          (times accepted event.step event.seq (ifnameOf names event)).min?)

/-- There is only one result of a lookup to be visible in. -/
theorem Visible.of_find {accepted : List Accepted} {event : AgentKernEvt}
    {names : ℕ → ℕ → Option String} {s : KernEventStream} {result : List KernEvent}
    (h : Visible accepted event names s)
    (hfind : s.findEventsBySeqAndLen event.step event.seq event.len = .ok result) :
    ∃ e ∈ result, e.seq = event.seq ∧
      (isNicStep event.step = false →
        e.len = event.len ∧ e.startTs = event.ts ∧ e.tsDelta = event.tsDelta) ∧
      (isNicStep event.step = true → ∃ attributes, e.attributes = some attributes ∧
        attributes.get? ("time-" ++ ifnameOf names event) =
          (times accepted event.step event.seq (ifnameOf names event)).min?) := by
  obtain ⟨result', hfind', hvisible⟩ := h
  rw [hfind] at hfind'
  cases hfind'
  exact hvisible

/-- Outside the NIC steps, no event with the same start and a later time is in the way; at
a NIC step, no earlier time of the interface went with a discarded event. -/
def Unobstructed (g : Logged) (event : AgentKernEvt) (names : ℕ → ℕ → Option String) : Prop :=
  (isNicStep event.step = false →
      ∀ e ∈ g.stream.kept event.step, e.seq = event.seq → e.startTs ≤ event.ts) ∧
    (isNicStep event.step = true →
      ∀ t ∈ times g.forget.gone event.step event.seq (ifnameOf names event),
        toInt64 event.ts ≤ t)

/-- The lookup for an event's own range finds what is stored under its start. -/
theorem find_own_range {s : KernEventStream} (h : Indexed s) {event : AgentKernEvt}
    (hlen : 0 < event.len) :
    ∃ result, s.findEventsBySeqAndLen event.step event.seq event.len = .ok result ∧
      ∀ e, e.seq = event.seq → (e ∈ result ↔ e ∈ s.stored event.step) := by
  have hwrap : (event.seq : ℤ) + event.len < 2 ^ 64 := by
    have h1 := event.seq_lt
    have h2 := event.len_lt
    omega
  refine ⟨_, findEventsBySeqAndLen_eq h event.step (by exact_mod_cast hlen) hwrap, ?_⟩
  intro e hseq
  rw [List.mem_filter, decide_eq_true_eq, and_iff_left_iff_imp]
  intro he
  have hpos := ((h.stored_ok event.step).2 e he).len_pos
  unfold Meets
  rw [Int.toNat_natCast]
  omega

/-- Nothing is lost by a discard: the accepted times only change their place. -/
theorem mem_accepted_forget {g : Logged} {a : Accepted} :
    a ∈ g.accepted ↔ a ∈ g.forget.gone ∨ a ∈ g.forget.live := by
  unfold Logged.accepted Logged.forget
  simp only [List.mem_append, List.mem_filter]
  by_cases hs : Accepted.survives g.stream a = true <;> simp [hs]

/-- At a NIC step. -/
theorem visible_nic_iff {g : Logged} (h : Dated g) {event : AgentKernEvt}
    {names : ℕ → ℕ → Option String} {s' : KernEventStream} (hlen : 0 < event.len)
    (hadd : g.stream.addKernEvent event names = .ok (true, s'))
    (hnic : isNicStep event.step = true) :
    Visible (g.accepted ++ [Accepted.ofKernEvt names event]) event names s' ↔
      ∀ t ∈ times g.forget.gone event.step event.seq (ifnameOf names event),
        toInt64 event.ts ≤ t := by
  have hd := h.addKernEvent hadd
  obtain ⟨r, s₁, heq, -, -, hout⟩ := addKernEvent_ok h.indexed event names
  rw [hadd] at heq
  cases heq
  have hout := hout hlen
  have hle := hout.accepted_le hnic (Owned.forget g _) (h.earliest _ hnic).forget
  obtain ⟨e, he, hseq⟩ := hout.mem_of_true
  obtain ⟨attributes, hattr, hmin⟩ := hd.earliest _ hnic e he
  -- the attribute is the new time
  have hnew : attributes.get? ("time-" ++ ifnameOf names event) = some (toInt64 event.ts) := by
    rw [hmin, hseq, entry_true hnic hlen, times_append, times_entry, if_pos ⟨rfl, rfl, rfl⟩,
      min?_append_singleton hle]
  have hall : ∀ t, t ∈ times (g.accepted ++ [Accepted.ofKernEvt names event]) event.step event.seq
      (ifnameOf names event) ↔
      t ∈ times g.forget.gone event.step event.seq (ifnameOf names event) ∨
      t ∈ times g.forget.live event.step event.seq (ifnameOf names event) ∨
      t = toInt64 event.ts := by
    intro t
    rw [times_append, List.mem_append, times_entry, if_pos ⟨rfl, rfl, rfl⟩, List.mem_singleton,
      mem_times, mem_accepted_forget, mem_times, mem_times, or_assoc]
  obtain ⟨result, hfind, hmem⟩ := find_own_range hd.indexed hlen
  constructor
  -- the attribute is the minimum of all accepted times, so also of the ones that are gone
  · intro hvisible
    obtain ⟨e', he', hseq', -, hvis⟩ := hvisible.of_find hfind
    have heq : e' = e := (hd.indexed.stored_ok event.step).1.eq_of_seq
      ((hmem e' hseq').mp he') he (hseq'.trans hseq.symm)
    obtain ⟨attributes', hattr', hget⟩ := hvis hnic
    rw [heq, hattr, Option.some.injEq] at hattr'
    rw [← hattr', hnew] at hget
    intro t ht
    exact (List.min?_eq_some_iff.mp hget.symm).2 t ((hall t).mpr (Or.inl ht))
  · intro hgone
    refine ⟨result, hfind, e, (hmem e hseq).mpr he, hseq, fun hno => ?_, fun _ => ?_⟩
    · rw [hnic] at hno
      cases hno
    · refine ⟨attributes, hattr, ?_⟩
      rw [hnew, eq_comm, List.min?_eq_some_iff]
      refine ⟨(hall _).mpr (Or.inr (Or.inr rfl)), ?_⟩
      intro t ht
      rcases (hall t).mp ht with ht | ht | rfl
      · exact hgone t ht
      · exact hle t ht
      · exact le_refl _

/-- At the other steps. -/
theorem visible_other_iff {g : Logged} (h : Dated g) {event : AgentKernEvt}
    {names : ℕ → ℕ → Option String} {s' : KernEventStream} (accepted : List Accepted)
    (hlen : 0 < event.len) (hadd : g.stream.addKernEvent event names = .ok (true, s'))
    (hnic : isNicStep event.step = false) :
    Visible accepted event names s' ↔
      ∀ e ∈ g.stream.kept event.step, e.seq = event.seq → e.startTs ≤ event.ts := by
  have hd := h.addKernEvent hadd
  obtain ⟨r, s₁, heq, -, -, hout⟩ := addKernEvent_ok h.indexed event names
  rw [hadd] at heq
  cases heq
  have hout := hout hlen
  have hsorted := (hd.indexed.stored_ok event.step).1
  dsimp only at hsorted
  obtain ⟨result, hfind, hmem⟩ := find_own_range hd.indexed hlen
  have hsteps : ¬ isNicStep event.step = true := by simp [hnic]
  generalize hstored : s'.stored event.step = l' at hout hsorted hmem
  generalize hr : true = r at hout
  rcases hout with ⟨i, hi, same, -⟩ | _ | ⟨_, _, _, hstep, _, _⟩ | ⟨xs, ys, eq, below, above, -⟩ | _
  · -- a duplicate that was accepted has a later time, and stays
    have hlater := of_decide_eq_true hr.symm
    refine iff_of_false ?_ ?_
    · intro hvisible
      obtain ⟨e, he, hseq, hvis, -⟩ := hvisible.of_find hfind
      rw [hmem e hseq] at he
      have heq := hsorted.eq_of_seq he (List.getElem_mem hi) (hseq.trans same.symm)
      have htime := (hvis hnic).2.1
      rw [heq] at htime
      omega
    · intro hle
      have := hle _ (List.getElem_mem hi) same
      omega
  · cases hr
  · exact absurd hstep hsteps
  · -- a new event was inserted with all its fields
    refine iff_of_true ?_ ?_
    · refine ⟨result, hfind, KernEvent.ofKernEvt event (newAttributes event (ifnameOf names event)),
        ?_, rfl, fun _ => ⟨rfl, rfl, rfl⟩, fun hyes => absurd hyes hsteps⟩
      exact (hmem _ rfl).mpr (List.mem_append_right _ List.mem_cons_self)
    · intro e he hseq
      rw [eq] at he
      rcases List.mem_append.mp he with he | he
      · have := below e he
        omega
      · have := above e he
        omega
  · cases hr

/-- **Accepted and visible.** In every state of every run, an event that `AddKernEvent`
accepts is visible as it was given exactly when nothing is in its way: no later duplicate,
which the code fails to overwrite, and at a NIC step no earlier time that a discard has
taken. -/
theorem run_visible_iff {maxLen : ℕ} {hpos : 0 < maxLen} {ops : List Op} {g : Logged}
    (hrun : LoggedReaches maxLen hpos ops g) (event : AgentKernEvt)
    (names : ℕ → ℕ → Option String) (s' : KernEventStream) (hlen : 0 < event.len)
    (hadd : g.stream.addKernEvent event names = .ok (true, s')) :
    Visible (g.accepted ++ [Accepted.ofKernEvt names event]) event names s' ↔
      Unobstructed g event names := by
  have h := hrun.dated
  unfold Unobstructed
  by_cases hnic : isNicStep event.step = true
  · rw [visible_nic_iff h hlen hadd hnic]
    simp [hnic]
  · rw [Bool.not_eq_true] at hnic
    rw [visible_other_iff h _ hlen hadd hnic]
    simp [hnic]

/-- Positions 10 to 19 at `DEV_OUT`. -/
def sampleNic (ts : ℕ) : AgentKernEvt := { sampleFirst with ts := ts, step := AgentStepT.devOut }

def sampleNames : ℕ → ℕ → Option String := fun _ _ => some "eth0"

theorem sampleLength_pos : 0 < 300 := by decide

/-- The stream and the log after the time 100 of `eth0`. -/
def sampleLogged : Logged :=
  { stream :=
      { kernEvents := ⟨[(6,
          { data := some (KernEvent.ofKernEvt (sampleNic 100)
              (newAttributes (sampleNic 100) "eth0")) :: List.replicate 299 none
            size := 300, start := 0, stop := 1, isFull := false })], List.pairwise_singleton _ _⟩
        maxLen := 300, egressDiscardSeq := 0, ingressDiscardSeq := 0, maxLen_pos := sampleLength_pos }
    live := [Accepted.ofKernEvt sampleNames (sampleNic 100)]
    gone := [] }

/-- The time 50 replaces the time 100. -/
theorem run_visible_iff_sample : ∃ s',
    sampleLogged.stream.addKernEvent (sampleNic 50) sampleNames = .ok (true, s')
      ∧ Visible (sampleLogged.accepted ++ [Accepted.ofKernEvt sampleNames (sampleNic 50)])
        (sampleNic 50) sampleNames s' := by
  have hrun : LoggedReaches 300 (by decide) [.addKernEvent (sampleNic 100) sampleNames]
      sampleLogged := Run.of_exec (by decide +kernel)
  have hr : (sampleLogged.stream.addKernEvent (sampleNic 50) sampleNames).map Prod.fst
      = .ok true := by decide +kernel
  obtain ⟨r, s', heq, -⟩ := addKernEvent_ok hrun.dated.indexed (sampleNic 50) sampleNames
  rw [heq] at hr
  cases hr
  refine ⟨s', heq, (run_visible_iff hrun _ _ s' (by decide) heq).mpr ⟨?_, ?_⟩⟩
  · intro hno
    cases hno
  · decide +kernel

/-- Positions 10 to 14, earlier than the event that is stored. -/
def sampleDuplicate : AgentKernEvt :=
  { sampleEvt 10 5 sampleFirst.seq_lt sampleSecond.len_lt with ts := 50 }

/-- The earlier duplicate is accepted, and the stored event keeps its length and its time. -/
theorem duplicate_not_visible :
    ¬ ∀ (maxLen : ℕ) (hpos : 0 < maxLen) (ops : List Op) (g : Logged),
      LoggedReaches maxLen hpos ops g → ∀ (event : AgentKernEvt)
        (names : ℕ → ℕ → Option String) (s' : KernEventStream), 0 < event.len →
        g.stream.addKernEvent event names = .ok (true, s') →
        Visible (g.accepted ++ [Accepted.ofKernEvt names event]) event names s' := by
  intro h
  have hrun : LoggedReaches 300 (by decide)
      [.addKernEvent { sampleFirst with ts := 100 } (fun _ _ => none)]
      { stream := sampleStream [{ sampleFirst with ts := 100 }] 0, live := [], gone := [] } :=
    Run.of_exec (by decide +kernel)
  have hadd : (sampleStream [{ sampleFirst with ts := 100 }] 0).addKernEvent sampleDuplicate
      (fun _ _ => none) = .ok (true, sampleStream [{ sampleFirst with ts := 100 }] 0) := by
    decide +kernel
  have hvisible := h 300 (by decide) _ _ hrun _ _ _ (by decide) hadd
  have hstored : (sampleStream [{ sampleFirst with ts := 100 }] 0).findEventsBySeqAndLen 3 10 5
      = .ok [KernEvent.ofKernEvt { sampleFirst with ts := 100 } none] := by decide +kernel
  obtain ⟨e, he, -, hvis, -⟩ := hvisible.of_find hstored
  rw [List.mem_singleton] at he
  have hlen := (hvis rfl).1
  rw [he] at hlen
  exact absurd hlen (by decide)

end KernEventStream

end Kyanos
