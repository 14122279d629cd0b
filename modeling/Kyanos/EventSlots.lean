/-
The slot an event is filled in, and what is left in it for the next one.

A CPU has one slot in `syscall_data_map`, and each report overwrites the fields it sets.
`report_syscall_buf` sets all that user space reads. `report_syscall_buf_without_data` does not set
`prepend_length_header` and `length_header`, so its event carries those of the event before, which
may be one of another connection. User space then puts four bytes in front of the data.

Within `report_syscall_evt_vecs` the event before may be one of the same call. `NoLeak` is what a
report owes: the same events whatever was in the slot, no event without data that asks for a
header, and one event that does if the call asked for it. `report_noLeak_iff` says which reports
meet it.
-/
import Kyanos.VectoredEvents

set_option autoImplicit false

open GoNum

namespace Kyanos.Bpf

/-! ## Reports and what user space sees of them -/

/-- A report of system call data. The size of a vector is less than 2 GiB, the kernel's own limit
for one call. -/
inductive Report
  | withoutData (seq len : ℕ)
  | buf (seq len : ℕ) (buf : Memory) (prependLengthHeader : Bool) (lengthHeader : ℕ)
  | vecs (seq totalSize : ℕ) (iov : List IoVec) (prependLengthHeader : Bool) (lengthHeader : ℕ)
      (lt : totalSize < 2 ^ 31)

def Report.run (r : Report) (o : Origin) (cpu : Cpu) : Cpu :=
  match r with
  | .withoutData seq len => reportSyscallBufWithoutData o seq len cpu
  | .buf seq len bytes prependLengthHeader lengthHeader =>
      reportSyscallBuf o seq len bytes prependLengthHeader lengthHeader cpu
  | .vecs seq totalSize iov prependLengthHeader lengthHeader _ =>
      reportSyscallEvtVecs o seq totalSize iov prependLengthHeader lengthHeader cpu

/-- User space looks at the length header if it is told to. -/
def KernEvt.seen (ke : KernEvt) : KernEvt :=
  if ke.prependLengthHeader then ke else { ke with lengthHeader := 0 }

def Event.seen : Event → Event
  | .syscall ke msg => .syscall ke.seen msg
  | event => event

/-- The events of a report, as user space sees them. -/
def Report.emitted (r : Report) (o : Origin) (cpu : Cpu) : List Event :=
  (r.run o { cpu with events := [] }).events.map Event.seen

/-- The event asks for the length header. -/
def Event.asksHeader : Event → Bool
  | .syscall ke _ => ke.prependLengthHeader
  | _ => false

/-- The report is one of a vector that asks for the header and has something to report. -/
def Report.AsksHeader : Report → Prop
  | .vecs _ totalSize _ prependLengthHeader _ _ => prependLengthHeader = true ∧ 0 < totalSize
  | _ => False

/-- Nothing of an earlier event is in the events of the report. -/
structure NoLeak (r : Report) (o : Origin) : Prop where
  same : ∀ (cpu : Cpu) (slot : KernEvt), r.emitted o { cpu with slot := slot } = r.emitted o cpu
  dataless : ∀ (cpu : Cpu) (ke : KernEvt), .syscall ke [] ∈ r.emitted o cpu →
    ke.prependLengthHeader = false
  once : r.AsksHeader → ∀ cpu : Cpu, (r.emitted o cpu).countP Event.asksHeader = 1

/-- The reports that leave nothing to the slot. A vector is asked to send the header with its first
buffer, which has to have a byte; an event without data at the end has to come after one that is
sent without a header. -/
def KeepsSlotOut : Report → Prop
  | .withoutData _ len => len = 0
  | .buf _ _ _ _ _ => True
  | .vecs _ totalSize iov prependLengthHeader _ _ =>
      totalSize = 0 ∨
        if prependLengthHeader then
          (∃ first ∈ iov.head?, 0 < first.len)
            ∧ (totalSize ≤ vecsLen (iov.take loopLimit)
              ∨ ∃ v ∈ (iov.take loopLimit).tail, 0 < v.len)
        else ∃ v ∈ iov.take loopLimit, 0 < v.len

/-! ## One event -/

section Events

variable {o : Origin}

/-- The event with all fields of its report, and the header the slot or the call gives it. -/
def Origin.evt (o : Origin) (seq len : ℕ) (prependLengthHeader : Bool) (lengthHeader : ℕ) :
    KernEvt :=
  { sourceFn := o.sourceFn, ts := o.ts, tsDelta := o.tsDelta, seq := seq % 2 ^ 32
    len := len % 2 ^ 32, prependLengthHeader := prependLengthHeader, lengthHeader := lengthHeader
    tgidFd := o.tgidFd, step := o.step }

theorem Origin.evt_seen (o : Origin) (seq len : ℕ) (ke : KernEvt) :
    (o.evt seq len ke.prependLengthHeader ke.lengthHeader).seen
      = o.evt seq len ke.seen.prependLengthHeader ke.seen.lengthHeader := by
  obtain ⟨_, _, _, _, _, prepend, _, _, _⟩ := ke
  cases prepend <;> rfl

theorem maxMsgSize_ne {len : ℕ} (hlen : 0 < len) : ¬ min len maxMsgSize = 0 := by
  unfold maxMsgSize
  omega

/-- Fill the slot and send it. -/
def Cpu.sendSlot (cpu : Cpu) (ke : KernEvt) (msg : List UInt8) : Cpu :=
  { cpu with slot := ke }.send (.syscall ke msg)

/-- With a time of its own a report sets every field but the header. -/
theorem reportSyscallBufWithoutData_eq (hts : o.ts ≠ 0) (seq : ℕ) {len : ℕ} (hlen : 0 < len)
    (cpu : Cpu) :
    reportSyscallBufWithoutData o seq len cpu
      = cpu.sendSlot (o.evt seq len cpu.slot.prependLengthHeader cpu.slot.lengthHeader) [] := by
  unfold reportSyscallBufWithoutData Cpu.stamp
  rw [if_neg (maxMsgSize_ne hlen), if_pos hts]
  rfl

theorem reportSyscallBuf_eq (hts : o.ts ≠ 0) (seq : ℕ) {len : ℕ} (hlen : 0 < len) (buf : Memory)
    (pending : Bool) (header : ℕ) (cpu : Cpu) :
    reportSyscallBuf o seq len buf pending header cpu
      = cpu.sendSlot (o.evt seq len pending (if pending then header else cpu.slot.lengthHeader))
          (buf.read 0 (min len maxMsgSize)) := by
  unfold reportSyscallBuf Cpu.stamp
  rw [if_neg (maxMsgSize_ne hlen)]
  dsimp only
  rw [if_pos hts]
  rfl

/-- The event of a buffer, as user space sees it. -/
def bufEvent (o : Origin) (seq len : ℕ) (buf : Memory) (pending : Bool) (header : ℕ) : Event :=
  .syscall (o.evt seq len pending (if pending then header else 0))
    (buf.read 0 (min len maxMsgSize))

theorem reportSyscallBuf_seen (hts : o.ts ≠ 0) (seq : ℕ) {len : ℕ} (hlen : 0 < len) (buf : Memory)
    (pending : Bool) (header : ℕ) (cpu : Cpu) :
    (reportSyscallBuf o seq len buf pending header cpu).events.map Event.seen
        = cpu.events.map Event.seen ++ [bufEvent o seq len buf pending header]
      ∧ (reportSyscallBuf o seq len buf pending header cpu).slot.seen
        = o.evt seq len pending (if pending then header else 0) := by
  rw [reportSyscallBuf_eq hts seq hlen]
  unfold Cpu.sendSlot Cpu.send
  dsimp only
  rw [List.map_append]
  cases pending <;> exact ⟨rfl, rfl⟩

/-! ## A vector -/

/-- The events of the loop, as user space sees them. -/
def vecsEvents (o : Origin) (totalSize header : ℕ) : List IoVec → ℕ → ℕ → Bool → List Event
  | [], _, _, _ => []
  | iov :: iovs, seq, bytesSent, pending =>
      if bytesSent < totalSize then
        let iovSize := min iov.len (totalSize - bytesSent)
        (if iovSize = 0 then [] else [bufEvent o seq iovSize iov.base pending header])
          ++ vecsEvents o totalSize header iovs ((seq + iovSize) % 2 ^ 32) (bytesSent + iovSize)
              false
      else []

/-- What is in the slot after some events. -/
def slotAfter (slot : KernEvt) : List Event → KernEvt
  | [] => slot
  | .syscall ke _ :: events => slotAfter ke events
  | _ :: events => slotAfter slot events

/-- **The loop.** What it sends and leaves, as user space sees it. -/
theorem reportVecsLoop_seen (hts : o.ts ≠ 0) (totalSize header : ℕ) (iovs : List IoVec)
    (seq bytesSent : ℕ) (pending : Bool) (cpu : Cpu) :
    (reportVecsLoop o totalSize header iovs seq bytesSent pending cpu).2.2.events.map Event.seen
        = cpu.events.map Event.seen ++ vecsEvents o totalSize header iovs seq bytesSent pending
      ∧ (reportVecsLoop o totalSize header iovs seq bytesSent pending cpu).2.2.slot.seen
        = slotAfter cpu.slot.seen (vecsEvents o totalSize header iovs seq bytesSent pending) := by
  induction iovs generalizing seq bytesSent pending cpu with
  | nil => exact ⟨(List.append_nil _).symm, rfl⟩
  | cons iov iovs ih =>
      rw [reportVecsLoop, vecsEvents]
      by_cases hmore : bytesSent < totalSize
      · rw [if_pos hmore, if_pos hmore]
        dsimp only
        by_cases hsize : min iov.len (totalSize - bytesSent) = 0
        · -- An empty buffer sends nothing, and takes the header with it.
          have hnone : reportSyscallBuf o seq (min iov.len (totalSize - bytesSent)) iov.base pending
              header cpu = cpu := by
            unfold reportSyscallBuf
            rw [if_pos (by omega)]
          rw [hnone, if_pos hsize, List.nil_append]
          exact ih _ _ _ _
        · obtain ⟨hevents, hslot⟩ := reportSyscallBuf_seen hts seq (Nat.pos_of_ne_zero hsize)
            iov.base pending header cpu
          obtain ⟨hevents', hslot'⟩ := ih ((seq + min iov.len (totalSize - bytesSent)) % 2 ^ 32)
            (bytesSent + min iov.len (totalSize - bytesSent)) false
            (reportSyscallBuf o seq (min iov.len (totalSize - bytesSent)) iov.base pending header
              cpu)
          rw [if_neg hsize, hevents', hslot', hevents, hslot, List.append_assoc]
          exact ⟨rfl, rfl⟩
      · rw [if_neg hmore, if_neg hmore]
        exact ⟨(List.append_nil _).symm, rfl⟩

/-- Where the loop ends is a matter of the sizes alone. -/
theorem reportVecsLoop_sizes (totalSize header : ℕ) (iovs : List IoVec) {seq bytesSent : ℕ}
    (pending : Bool) (cpu cpu' : Cpu) (hsent : bytesSent ≤ totalSize) :
    (reportVecsLoop o totalSize header iovs seq bytesSent pending cpu).1
        = (reportVecsLoop o totalSize header iovs seq bytesSent pending cpu').1
      ∧ (reportVecsLoop o totalSize header iovs seq bytesSent pending cpu).2.1
        = min totalSize (bytesSent + vecsLen iovs) := by
  induction iovs generalizing seq bytesSent pending cpu cpu' with
  | nil => exact ⟨rfl, (min_eq_right hsent).symm⟩
  | cons iov iovs ih =>
      have hlen : vecsLen (iov :: iovs) = iov.len + vecsLen iovs := rfl
      rw [reportVecsLoop, reportVecsLoop]
      by_cases hmore : bytesSent < totalSize
      · rw [if_pos hmore, if_pos hmore]
        dsimp only
        obtain ⟨hseq, hsum⟩ := @ih ((seq + min iov.len (totalSize - bytesSent)) % 2 ^ 32)
          (bytesSent + min iov.len (totalSize - bytesSent)) false
          (reportSyscallBuf o seq (min iov.len (totalSize - bytesSent)) iov.base pending header cpu)
          (reportSyscallBuf o seq (min iov.len (totalSize - bytesSent)) iov.base pending header cpu')
          (by omega)
        refine ⟨hseq, hsum.trans ?_⟩
        omega
      · rw [if_neg hmore, if_neg hmore]
        refine ⟨rfl, ?_⟩
        dsimp only
        omega

/-- The events of a vector: those of the loop, and one for what is left. -/
theorem emitted_vecs (hts : o.ts ≠ 0) {seq totalSize : ℕ} (iov : List IoVec) (pending : Bool)
    (header : ℕ) (lt : totalSize < 2 ^ 31) :
    ∃ seq', ∀ cpu : Cpu,
      (Report.vecs seq totalSize iov pending header lt).emitted o cpu
        = vecsEvents o totalSize header (iov.take loopLimit) seq 0 pending
          ++ (if totalSize ≤ vecsLen (iov.take loopLimit) then []
            else
              let ke := slotAfter cpu.slot.seen
                (vecsEvents o totalSize header (iov.take loopLimit) seq 0 pending)
              [.syscall (o.evt seq' (totalSize - vecsLen (iov.take loopLimit))
                ke.prependLengthHeader ke.lengthHeader) []]) := by
  refine ⟨(reportVecsLoop o totalSize header (iov.take loopLimit) seq 0 pending freshCpu).1, ?_⟩
  intro cpu
  obtain ⟨hseq, hsent⟩ := @reportVecsLoop_sizes o totalSize header (iov.take loopLimit) seq 0 pending
    { cpu with events := [] } freshCpu (Nat.zero_le _)
  obtain ⟨hevents, hslot⟩ := reportVecsLoop_seen hts totalSize header (iov.take loopLimit) seq 0
    pending { cpu with events := [] }
  rw [List.map_nil, List.nil_append] at hevents
  unfold Report.emitted Report.run reportSyscallEvtVecs
  dsimp only
  rw [← hseq]
  generalize reportVecsLoop o totalSize header (iov.take loopLimit) seq 0 pending
    { cpu with events := [] } = left at hevents hslot hsent
  obtain ⟨seq', bytesSent, cpu'⟩ := left
  dsimp only at hevents hslot hsent
  rw [Nat.zero_add] at hsent
  rw [reportRemainder, ← hslot, ← hevents]
  by_cases hall : totalSize ≤ vecsLen (iov.take loopLimit)
  · rw [if_neg (by omega), if_pos hall, List.append_nil]
  · rw [if_pos (by omega), if_neg hall, reportSyscallBufWithoutData_eq hts seq' (by omega),
      show totalSize - bytesSent = totalSize - vecsLen (iov.take loopLimit) by omega,
      ← Origin.evt_seen]
    unfold Cpu.sendSlot Cpu.send
    dsimp only
    rw [List.map_append]
    rfl

/-! ## Which events ask for the header -/

/-- An event with data. -/
def Data (event : Event) : Prop := ∃ ke msg, event = .syscall ke msg ∧ msg ≠ []

theorem bufEvent_data (o : Origin) (seq : ℕ) {len : ℕ} (hlen : 0 < len) (buf : Memory)
    (pending : Bool) (header : ℕ) : Data (bufEvent o seq len buf pending header) := by
  refine ⟨_, _, rfl, ?_⟩
  rw [← List.length_pos_iff, Memory.read_length]
  exact Nat.pos_of_ne_zero (maxMsgSize_ne hlen)

/-- The members of the loop's events, one buffer at a time. -/
theorem vecsEvents_mem {totalSize header : ℕ} {iovs : List IoVec} {seq bytesSent : ℕ}
    {pending : Bool} {event : Event}
    (hmem : event ∈ vecsEvents o totalSize header iovs seq bytesSent pending) :
    Data event ∧ (pending = false → event.asksHeader = false) := by
  induction iovs generalizing seq bytesSent pending with
  | nil => cases hmem
  | cons iov iovs ih =>
      rw [vecsEvents] at hmem
      by_cases hmore : bytesSent < totalSize
      · rw [if_pos hmore, List.mem_append] at hmem
        rcases hmem with hmem | hmem
        · split_ifs at hmem with hsize
          · cases hmem
          · rw [List.mem_singleton.mp hmem]
            refine ⟨bufEvent_data o seq (Nat.pos_of_ne_zero hsize) iov.base pending header, ?_⟩
            rintro rfl
            rfl
        · obtain ⟨hdata, hquiet⟩ := ih hmem
          exact ⟨hdata, fun _ => hquiet rfl⟩
      · rw [if_neg hmore] at hmem
        cases hmem

/-- As long as something is left, the loop sends an event just if a buffer has a byte. -/
theorem vecsEvents_ne_nil (o : Origin) {totalSize : ℕ} (header : ℕ) (iovs : List IoVec)
    (seq : ℕ) {bytesSent : ℕ} (pending : Bool) (hmore : bytesSent < totalSize) :
    vecsEvents o totalSize header iovs seq bytesSent pending ≠ [] ↔ ∃ v ∈ iovs, 0 < v.len := by
  induction iovs generalizing seq bytesSent pending with
  | nil => simp [vecsEvents]
  | cons iov iovs ih =>
      rw [vecsEvents, if_pos hmore]
      dsimp only
      by_cases hsize : min iov.len (totalSize - bytesSent) = 0
      · have hempty : iov.len = 0 := by omega
        rw [if_pos hsize, List.nil_append, ih _ _ (by omega)]
        simp [hempty]
      · rw [if_neg hsize]
        exact iff_of_true (by simp) ⟨iov, List.mem_cons_self, by omega⟩

/-- After events of data the slot asks for the header if the last one does. -/
theorem slotAfter_flag {events : List Event} (hdata : ∀ event ∈ events, Data event)
    (slot : KernEvt) :
    (slotAfter slot events).prependLengthHeader
      = (events.getLast?.map Event.asksHeader).getD slot.prependLengthHeader := by
  induction events generalizing slot with
  | nil => rfl
  | cons event events ih =>
      obtain ⟨ke, msg, rfl, -⟩ := hdata event List.mem_cons_self
      rw [slotAfter, ih (fun event hmem => hdata event (List.mem_cons_of_mem _ hmem)),
        List.getLast?_cons]
      cases events.getLast? <;> rfl

/-- Some events of data leave nothing of what was in the slot. -/
theorem slotAfter_congr {events : List Event} (hdata : ∀ event ∈ events, Data event)
    (hne : events ≠ []) (slot slot' : KernEvt) : slotAfter slot events = slotAfter slot' events := by
  obtain ⟨event, events, rfl⟩ := List.exists_cons_of_ne_nil hne
  obtain ⟨ke, msg, rfl, -⟩ := hdata event List.mem_cons_self
  rfl

/-- So after some that do not ask for it, it does not. -/
theorem slotAfter_quiet {events : List Event} (hdata : ∀ event ∈ events, Data event)
    (hquiet : ∀ event ∈ events, event.asksHeader = false) (hne : events ≠ []) (slot : KernEvt) :
    (slotAfter slot events).prependLengthHeader = false := by
  rw [slotAfter_flag hdata, List.getLast?_eq_getLast_of_ne_nil hne]
  exact hquiet _ (List.getLast_mem hne)

theorem countP_quiet {events : List Event}
    (hquiet : ∀ event ∈ events, event.asksHeader = false) :
    events.countP Event.asksHeader = 0 := by
  rw [List.countP_eq_zero]
  intro event hmem
  rw [hquiet event hmem]
  exact Bool.false_ne_true

/-! ## What each report leaves to the slot -/

/-- A slot that was left by an event with the header. -/
def flaggedSlot : KernEvt := { zeroEvt with prependLengthHeader := true, lengthHeader := 1 }

/-- A CPU whose slot was left by such an event. -/
def flaggedCpu : Cpu := { freshCpu with slot := flaggedSlot }

theorem withoutData_noLeak_iff (hts : o.ts ≠ 0) (seq len : ℕ) :
    NoLeak (.withoutData seq len) o ↔ KeepsSlotOut (.withoutData seq len) := by
  rw [KeepsSlotOut]
  constructor
  · intro h
    by_contra hlen
    -- The flag of the slot is in the event.
    have hemitted : Event.syscall (o.evt seq len true 1) []
        ∈ (Report.withoutData seq len).emitted o flaggedCpu := by
      unfold Report.emitted Report.run
      dsimp only
      rw [reportSyscallBufWithoutData_eq hts seq (Nat.pos_of_ne_zero hlen)]
      exact List.mem_singleton_self _
    have hflag := h.dataless flaggedCpu _ hemitted
    cases hflag
  · rintro rfl
    have hnone : ∀ cpu : Cpu, (Report.withoutData seq 0).emitted o cpu = [] := fun _ => rfl
    refine ⟨fun cpu slot => ?_, fun cpu ke hmem => ?_, fun hasks => hasks.elim⟩
    · rw [hnone, hnone]
    · rw [hnone] at hmem
      cases hmem

theorem buf_noLeak (hts : o.ts ≠ 0) (seq len : ℕ) (buf : Memory) (pending : Bool) (header : ℕ) :
    NoLeak (.buf seq len buf pending header) o := by
  have hemitted : ∀ cpu : Cpu, (Report.buf seq len buf pending header).emitted o cpu
      = if len = 0 then [] else [bufEvent o seq len buf pending header] := by
    intro cpu
    unfold Report.emitted Report.run
    dsimp only
    by_cases hlen : len = 0
    · rw [if_pos hlen, hlen]
      rfl
    · rw [if_neg hlen]
      exact (reportSyscallBuf_seen hts seq (Nat.pos_of_ne_zero hlen) buf pending header _).1
  refine ⟨fun cpu slot => ?_, fun cpu ke hmem => ?_, fun hasks => hasks.elim⟩
  · rw [hemitted, hemitted]
  · rw [hemitted] at hmem
    split_ifs at hmem with hlen
    · cases hmem
    · obtain ⟨ke', msg, heq, hmsg⟩ :=
        bufEvent_data o seq (Nat.pos_of_ne_zero hlen) buf pending header
      rw [List.mem_singleton, heq, Event.syscall.injEq] at hmem
      exact absurd hmem.2.symm hmsg

section Vector

variable {seq totalSize : ℕ} {iov : List IoVec} {pending : Bool} {header : ℕ}
  {lt : totalSize < 2 ^ 31}

/-- A vector leaks nothing if what it sends without data asks for no header, whatever the slot, and
the header is asked for once. -/
theorem vecs_noLeak (hts : o.ts ≠ 0) :
    NoLeak (.vecs seq totalSize iov pending header lt) o
      ↔ (totalSize ≤ vecsLen (iov.take loopLimit) ∨ ∀ slot : KernEvt,
          (slotAfter slot (vecsEvents o totalSize header (iov.take loopLimit) seq 0
            pending)).prependLengthHeader = false)
        ∧ (pending = true → 0 < totalSize →
          (vecsEvents o totalSize header (iov.take loopLimit) seq 0 pending).countP
            Event.asksHeader = 1) := by
  obtain ⟨seq', hemitted⟩ := @emitted_vecs o hts seq totalSize iov pending header lt
  have hdata : ∀ event ∈ vecsEvents o totalSize header (iov.take loopLimit) seq 0 pending,
      Data event := fun event hmem => (vecsEvents_mem hmem).1
  generalize vecsEvents o totalSize header (iov.take loopLimit) seq 0 pending = events at *
  by_cases hall : totalSize ≤ vecsLen (iov.take loopLimit)
  · -- Everything is sent with its data.
    simp only [if_pos hall, List.append_nil] at hemitted
    rw [and_iff_right (Or.inl hall)]
    constructor
    · intro h hpending hpos
      have honce := h.once ⟨hpending, hpos⟩ freshCpu
      rwa [hemitted] at honce
    · intro honce
      refine ⟨fun cpu slot => ?_, fun cpu ke hmem => ?_, fun hasks cpu => ?_⟩
      · rw [hemitted, hemitted]
      · rw [hemitted] at hmem
        obtain ⟨ke', msg, heq, hmsg⟩ := hdata _ hmem
        cases heq
        exact absurd rfl hmsg
      · rw [hemitted]
        exact honce hasks.1 hasks.2
  · simp only [if_neg hall] at hemitted
    rw [or_iff_right hall]
    constructor
    · intro h
      have hflag : ∀ slot : KernEvt,
          (slotAfter slot.seen events).prependLengthHeader = false := by
        intro slot
        refine h.dataless { freshCpu with slot := slot } (o.evt seq'
          (totalSize - vecsLen (iov.take loopLimit))
          (slotAfter slot.seen events).prependLengthHeader
          (slotAfter slot.seen events).lengthHeader) ?_
        rw [hemitted]
        exact List.mem_append_right _ (List.mem_singleton_self _)
      refine ⟨fun slot => ?_, fun hpending hpos => ?_⟩
      · have hseen : slot.seen.prependLengthHeader = slot.prependLengthHeader := by
          unfold KernEvt.seen
          split_ifs <;> rfl
        rw [slotAfter_flag hdata, ← hseen, ← slotAfter_flag hdata]
        exact hflag slot
      · have honce := h.once ⟨hpending, hpos⟩ freshCpu
        rw [hemitted, List.countP_append, List.countP_singleton] at honce
        simpa [Event.asksHeader, Origin.evt, hflag] using honce
    · rintro ⟨hflag, honce⟩
      -- The flag of the slot is not there, so something was sent in between.
      have hne : events ≠ [] := by
        rintro rfl
        have := hflag flaggedSlot
        cases this
      refine ⟨fun cpu slot => ?_, fun cpu ke hmem => ?_, fun hasks cpu => ?_⟩
      · rw [hemitted, hemitted]
        dsimp only
        rw [slotAfter_congr hdata hne slot.seen cpu.slot.seen]
      · rw [hemitted, List.mem_append] at hmem
        rcases hmem with hmem | hmem
        · obtain ⟨ke', msg, heq, hmsg⟩ := hdata _ hmem
          cases heq
          exact absurd rfl hmsg
        · rw [List.mem_singleton, Event.syscall.injEq] at hmem
          rw [hmem.1]
          exact hflag _
      · rw [hemitted, List.countP_append, List.countP_singleton, honce hasks.1 hasks.2]
        simp [Event.asksHeader, Origin.evt, hflag]

theorem exists_pos_of_vecsLen {iovs : List IoVec} (h : 0 < vecsLen iovs) :
    ∃ v ∈ iovs, 0 < v.len := by
  by_contra hnone
  refine h.ne' (List.sum_eq_zero ?_)
  intro len hmem
  obtain ⟨v, hv, rfl⟩ := List.mem_map.mp hmem
  exact Nat.le_zero.mp (not_lt.mp (fun hpos => hnone ⟨v, hv, hpos⟩))

theorem vecs_noLeak_iff (hts : o.ts ≠ 0) :
    NoLeak (.vecs seq totalSize iov pending header lt) o
      ↔ KeepsSlotOut (.vecs seq totalSize iov pending header lt) := by
  rw [vecs_noLeak hts, KeepsSlotOut]
  rcases Nat.eq_zero_or_pos totalSize with hz | hpos
  · refine iff_of_true ⟨Or.inl (by omega), fun _ hpos => by omega⟩ (Or.inl hz)
  rw [or_iff_right (by omega : ¬ totalSize = 0)]
  cases pending with
  | false =>
      have hdata : ∀ event ∈ vecsEvents o totalSize header (iov.take loopLimit) seq 0 false,
          Data event := fun event hmem => (vecsEvents_mem hmem).1
      have hquiet : ∀ event ∈ vecsEvents o totalSize header (iov.take loopLimit) seq 0 false,
          event.asksHeader = false := fun event hmem => (vecsEvents_mem hmem).2 rfl
      have hsent := vecsEvents_ne_nil o header (iov.take loopLimit) seq false hpos
      rw [if_neg Bool.false_ne_true, ← hsent]
      constructor
      · rintro ⟨hall | hflag, -⟩
        · exact hsent.mpr (exists_pos_of_vecsLen (by omega))
        · intro hnil
          rw [hnil] at hflag
          have := hflag flaggedSlot
          cases this
      · intro hne
        exact ⟨Or.inr (slotAfter_quiet hdata hquiet hne), fun hpending => by cases hpending⟩
  | true =>
      rw [if_pos rfl]
      rcases iov with _ | ⟨first, rest⟩
      · refine iff_of_false ?_ (by simp)
        rintro ⟨-, honce⟩
        have := honce rfl hpos
        cases this
      have htake : (first :: rest).take loopLimit = first :: rest.take 2 := rfl
      have hheld : vecsLen (first :: rest.take 2) = first.len + vecsLen (rest.take 2) := rfl
      rw [htake, vecsEvents, if_pos hpos, List.tail_cons]
      dsimp only
      generalize htail : vecsEvents o totalSize header (rest.take 2)
        ((seq + min first.len (totalSize - 0)) % 2 ^ 32) (0 + min first.len (totalSize - 0))
        false = tail
      have hdata : ∀ event ∈ tail, Data event := by
        rw [← htail]
        exact fun event hmem => (vecsEvents_mem hmem).1
      have hquiet : ∀ event ∈ tail, event.asksHeader = false := by
        rw [← htail]
        exact fun event hmem => (vecsEvents_mem hmem).2 rfl
      rcases Nat.eq_zero_or_pos first.len with hempty | hfirst
      · -- The empty buffer takes the header with it.
        rw [if_pos (by omega), List.nil_append]
        refine iff_of_false ?_ ?_
        · rintro ⟨-, honce⟩
          have := honce rfl hpos
          rw [countP_quiet hquiet] at this
          cases this
        · rintro ⟨⟨v, hv, hlen⟩, -⟩
          cases hv
          omega
      · rw [if_neg (by omega), List.singleton_append, List.countP_cons_of_pos rfl,
          countP_quiet hquiet, and_iff_left (fun _ _ => rfl),
          and_iff_right (⟨first, rfl, hfirst⟩ : ∃ v ∈ (first :: rest).head?, 0 < v.len)]
        refine or_congr_right' (fun hmore => ?_)
        rw [← vecsEvents_ne_nil o header (rest.take 2)
          ((seq + min first.len (totalSize - 0)) % 2 ^ 32) false
          (by omega : 0 + min first.len (totalSize - 0) < totalSize), htail]
        constructor
        · rintro hflag rfl
          have := hflag zeroEvt
          cases this
        · intro hne slot
          exact slotAfter_quiet hdata hquiet hne _

end Vector

end Events

/-- **Reports and the slot.** With a time of its own a report leaks nothing just when it leaves
nothing to the slot. -/
theorem report_noLeak_iff (r : Report) {o : Origin} (hts : o.ts ≠ 0) :
    NoLeak r o ↔ KeepsSlotOut r := by
  cases r with
  | withoutData seq len => exact withoutData_noLeak_iff hts seq len
  | buf seq len bytes pending header =>
      exact iff_of_true (buf_noLeak hts seq len bytes pending header) trivial
  | vecs seq totalSize iov pending header lt => exact vecs_noLeak_iff hts

/-- Four buffers, the last of which is not sent; the header goes with the first. -/
theorem report_noLeak_iff_sample :
    NoLeak (.vecs 5 80 fourBuffers true 9 (by decide)) (originOf .writev) :=
  (report_noLeak_iff _ (by decide)).mpr (Or.inr (by decide))

/-- An event with a header, and then one of `sendfile` on another connection. -/
theorem stale_flag_leaks : ∃ cpu : Cpu,
    (Report.buf 5 4 (fun _ => 65) true 9).run (originOf .writev) freshCpu = cpu
      ∧ ∃ ke, .syscall ke [] ∈ (Report.withoutData 1 10).emitted (originOf .writev) cpu
        ∧ ke.prependLengthHeader = true
        ∧ (Report.withoutData 1 10).emitted (originOf .writev) cpu
          ≠ (Report.withoutData 1 10).emitted (originOf .writev) { cpu with slot := zeroEvt } := by
  exact ⟨_, rfl, (originOf .writev).evt 1 10 true 9, by decide, rfl, by decide⟩

end Kyanos.Bpf
