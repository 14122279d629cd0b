/-
A vectored call from the kernel to the stream buffer: `report_syscall_evt_vecs` of
`bpf/data_common.h`, and `OnSyscallEvent` of `agent/conn/conntrack.go`.

The kernel reports the first three buffers of the vector, each with as many of its bytes as an
event holds, and what is left of the call as one event without data. User space fills in what was
not captured: behind captured bytes always, but for an event that has none it asks which call it
came from, and whether what is missing is long enough to be marked as such.

Here the two halves meet. The events always tile what was moved (`reportVecs_tiles`), and
what is added to the stream buffer tiles it just when nothing was left for the last event, or the
call is one of three and leaves enough (`reportSyscallEvtVecs_whole_iff`). The `writev` call is none
of the three: its entry does not say which call it is.
-/
import Kyanos.DataPath
import Kyanos.RoleInference

set_option autoImplicit false

open GoNum Trace

namespace Kyanos

/-! ## Filling in -/

def fakeDataMarkPrefix : List UInt8 := text "__FAKE_DATA__"

def fakeDataMarkLen : ℕ := fakeDataMarkPrefix.length + 4

/-- `MakeNewFakeData`: the mark, how much comes behind it, and as many zeros. -/
def makeNewFakeData (size : ℕ) : Option (List UInt8) :=
  if size < fakeDataMarkLen then none
  else
    some (fakeDataMarkPrefix ++ (beBytes 4 (size - fakeDataMarkLen)
      ++ List.replicate (size - fakeDataMarkLen) 0))

/-- What is put where `size` bytes are missing: zeros, where the mark does not fit. -/
def fakeData (size : ℕ) : List UInt8 := (makeNewFakeData size).getD (List.replicate size 0)

theorem makeNewFakeData_length {size : ℕ} {data : List UInt8}
    (h : makeNewFakeData size = some data) : data.length = size := by
  unfold makeNewFakeData at h
  split_ifs at h with hshort
  cases h
  have hmark : fakeDataMarkLen = fakeDataMarkPrefix.length + 4 := rfl
  rw [List.length_append, List.length_append, beBytes_length, List.length_replicate]
  omega

theorem fakeData_length (size : ℕ) : (fakeData size).length = size := by
  unfold fakeData
  rcases h : makeNewFakeData size with _ | data
  · exact List.length_replicate
  · exact makeNewFakeData_length h

namespace Bpf

/-- `isSyscallFunctionMultiMessage`. -/
def SourceFunction.isMultiMessage (f : SourceFunction) : Bool :=
  f = .syscallSendMMsg || f = .syscallRecvMMsg || f = .syscallWriteV || f = .syscallReadV

/-- `fillSyscallDataIfNeeded`. -/
def fillSyscallDataIfNeeded (len : ℕ) (data : List UInt8) : List UInt8 :=
  if len > data.length then data ++ fakeData (len - data.length) else data

/-- The data that `OnSyscallEvent` has added to the stream buffer for an event with the bytes
`buf`, if any. -/
def syscallData (ssl : Bool) (ke : KernEvt) (buf : List UInt8) : Option (List UInt8) :=
  if 0 < buf.length then if ssl then none else some (fillSyscallDataIfNeeded ke.len buf)
  else if ke.sourceFn = .syscallSendfile then some (fakeData ke.len)
  else if ke.sourceFn.isMultiMessage && !ssl then makeNewFakeData ke.len
  else none

/-- The event as user space reads it. -/
def KernEvt.received (ke : KernEvt) : AgentKernEvt where
  ts := ke.ts
  tsDelta := ke.tsDelta
  seq := ke.seq % 2 ^ 32
  len := ke.len % 2 ^ 32
  ifindex := 0
  tgidFd := ke.tgidFd
  step := ke.step
  seq_lt := Nat.mod_lt _ (by decide)
  len_lt := Nat.mod_lt _ (by decide)

/-- An event with the data that is to be added. -/
def KernEvt.dataEvent (ke : KernEvt) (data : List UInt8) : DataEvent :=
  { ke := ke.received, prependLengthHeader := ke.prependLengthHeader, lengthHeader := ke.lengthHeader
    data := data }

/-- `OnSyscallEvent`, up to where the event is stored and records are matched. -/
def onSyscallEvent {π σ : Type} (env : Surroundings π σ) (ssl : Bool) (c : Connection4 π σ)
    (ke : KernEvt) (buf : List UInt8) (fuel : ℕ) : Option (Except Panic (Bool × Connection4 π σ)) :=
  match syscallData ssl ke buf with
  | none => some (.ok (true, c))
  | some data => c.addDataToBufferAndTryParse env (ke.dataEvent data) fuel

/-! ## Tilings -/

/-- The pieces lie one behind the other, from `lo` up to `hi`, and none is empty. -/
def Tiles (hi : ℕ) : ℕ → List (ℕ × List UInt8) → Prop
  | lo, [] => lo = hi
  | lo, (seq, data) :: pieces => seq = lo ∧ data ≠ [] ∧ Tiles hi (lo + data.length) pieces

instance instDecidableTiles (hi : ℕ) : ∀ lo pieces, Decidable (Tiles hi lo pieces)
  | lo, [] => inferInstanceAs (Decidable (lo = hi))
  | lo, (_, data) :: pieces =>
      have := instDecidableTiles hi (lo + data.length) pieces
      inferInstanceAs (Decidable (_ ∧ _ ∧ _))

/-- The events do, by their sequence numbers, which have 32 bits. -/
def EventsTile (hi : ℕ) : ℕ → List Event → Prop
  | lo, [] => lo = hi
  | lo, .syscall ke msg :: events =>
      ke.seq = lo % 2 ^ 32 ∧ 0 < ke.len ∧ msg.length ≤ ke.len ∧ EventsTile hi (lo + ke.len) events
  | _, _ :: _ => False

/-- What `OnSyscallEvent` has added for an event of a connection without TLS, and where. -/
def handed : Event → Option (ℕ × List UInt8)
  | .syscall ke msg => (syscallData false ke msg).map fun data => (ke.seq, data)
  | _ => none

/-- The event of a captured buffer is handed on in its full length, the captured bytes first. -/
theorem syscallData_captured {ke : KernEvt} {msg : List UInt8} (hmsg : 0 < msg.length)
    (hlen : msg.length ≤ ke.len) :
    ∃ data, syscallData false ke msg = some data ∧ data.length = ke.len ∧ msg <+: data := by
  refine ⟨fillSyscallDataIfNeeded ke.len msg, ?_, ?_, ?_⟩
  · rw [syscallData, if_pos hmsg, if_neg Bool.false_ne_true]
  · unfold fillSyscallDataIfNeeded
    split_ifs with hshort
    · rw [List.length_append, fakeData_length]
      omega
    · omega
  · unfold fillSyscallDataIfNeeded
    split_ifs
    · exact List.prefix_append _ _
    · exact List.prefix_rfl

/-! ## The events of a vector -/

/-- No event of the vector starts at 2^32 or behind it, when `bytesSent` bytes are reported and the
first event starts at `base`. -/
def Unwrapped (totalSize base : ℕ) : List IoVec → ℕ → Prop
  | [], bytesSent => bytesSent < totalSize → base + bytesSent < 2 ^ 32
  | iov :: iovs, bytesSent =>
      (bytesSent < totalSize → base + bytesSent < 2 ^ 32)
        ∧ Unwrapped totalSize base iovs (bytesSent + iov.len)

/-- What the buffers of a vector hold. -/
def vecsLen (iov : List IoVec) : ℕ := (iov.map IoVec.len).sum

/-- What is left without its data is filled in: nothing is, or the call is one that says so, and
the mark fits. -/
def RestFilled (f : SourceFunction) (rest : ℕ) : Prop :=
  rest = 0 ∨ f.isMultiMessage = true ∧ fakeDataMarkLen ≤ rest

theorem Unwrapped.start {totalSize base bytesSent : ℕ} {iovs : List IoVec}
    (h : Unwrapped totalSize base iovs bytesSent) (hlt : bytesSent < totalSize) :
    base + bytesSent < 2 ^ 32 := by
  rcases iovs with _ | ⟨iov, iovs⟩
  · exact h hlt
  · exact h.1 hlt

theorem unwrapped_of_le {totalSize base bytesSent : ℕ} (iovs : List IoVec)
    (h : totalSize ≤ bytesSent) : Unwrapped totalSize base iovs bytesSent := by
  induction iovs generalizing bytesSent with
  | nil => exact fun hlt => absurd hlt (by omega)
  | cons iov iovs ih => exact ⟨fun hlt => absurd hlt (by omega), ih (by omega)⟩

/-- Where nothing is left, nothing is reported any more. -/
theorem reportVecsLoop_done (o : Origin) {totalSize bytesSent : ℕ} (lengthHeader : ℕ)
    (iovs : List IoVec) (seq : ℕ) (pending : Bool) (cpu : Cpu) (h : totalSize ≤ bytesSent) :
    reportVecsLoop o totalSize lengthHeader iovs seq bytesSent pending cpu
      = (seq, bytesSent, cpu) := by
  rcases iovs with _ | ⟨iov, iovs⟩
  · rfl
  · rw [reportVecsLoop, if_neg (by omega)]

variable {o : Origin} {lengthHeader totalSize base : ℕ}

/-- **The end of a vector**: one event for what is left, and it is filled in or it is not. -/
theorem reportRemainder_tiles {seq bytesSent : ℕ} (cpu : Cpu) (htotal : totalSize < 2 ^ 31)
    (hseq : seq % 2 ^ 32 = (base + bytesSent) % 2 ^ 32) (hsent : bytesSent ≤ totalSize)
    (hsource : o.sourceFn ≠ .syscallSendfile) :
    ∃ events, (reportRemainder o totalSize (seq, bytesSent, cpu)).events = cpu.events ++ events
      ∧ EventsTile (base + totalSize) (base + bytesSent) events
      ∧ (Tiles (base + totalSize) (base + bytesSent) (events.filterMap handed)
        ↔ (bytesSent < totalSize → base + bytesSent < 2 ^ 32)
          ∧ RestFilled o.sourceFn (totalSize - bytesSent)) := by
  unfold reportRemainder
  dsimp only
  split_ifs with hleft
  · obtain ⟨ke, hevents, hkseq, hklen, hkfn⟩ :=
      reportSyscallBufWithoutData_spec o seq (show 0 < totalSize - bytesSent by omega) cpu
    have hlen : ke.len = totalSize - bytesSent := by omega
    refine ⟨_, hevents, ⟨by omega, by omega, Nat.zero_le _, ?_⟩, ?_⟩
    · change base + bytesSent + ke.len = base + totalSize
      omega
    have hdata : syscallData false ke []
        = if o.sourceFn.isMultiMessage then makeNewFakeData (totalSize - bytesSent) else none := by
      unfold syscallData
      rw [if_neg (by decide), if_neg (hkfn ▸ hsource), hkfn, hlen, Bool.not_false, Bool.and_true]
    have hnone : ¬Tiles (base + totalSize) (base + bytesSent) [] := by
      change ¬base + bytesSent = base + totalSize
      omega
    unfold RestFilled
    rcases hmulti : o.sourceFn.isMultiMessage with _ | _
    · -- The call does not say that it is one of several, and the rest is a hole.
      have hhanded : handed (.syscall ke []) = none := by
        rw [handed, hdata, if_neg (by rw [hmulti]; decide)]
        rfl
      rw [List.filterMap_cons_none hhanded]
      refine iff_of_false hnone ?_
      rintro ⟨-, hrest | ⟨hno, -⟩⟩
      · omega
      · cases hno
    rcases hfake : makeNewFakeData (totalSize - bytesSent) with _ | data
    · -- There is no room for the mark.
      have hshort : totalSize - bytesSent < fakeDataMarkLen := by
        by_contra hroom
        unfold makeNewFakeData at hfake
        rw [if_neg hroom] at hfake
        cases hfake
      have hhanded : handed (.syscall ke []) = none := by
        rw [handed, hdata, if_pos hmulti, hfake]
        rfl
      rw [List.filterMap_cons_none hhanded]
      refine iff_of_false hnone ?_
      rintro ⟨-, hrest | ⟨-, hroom⟩⟩ <;> omega
    · have hroom : fakeDataMarkLen ≤ totalSize - bytesSent := by
        by_contra hshort
        unfold makeNewFakeData at hfake
        rw [if_pos (by omega)] at hfake
        cases hfake
      have hdatalen := makeNewFakeData_length hfake
      have hhanded : handed (.syscall ke []) = some (ke.seq, data) := by
        rw [handed, hdata, if_pos hmulti, hfake]
        rfl
      rw [List.filterMap_cons_some hhanded]
      constructor
      · rintro ⟨hstart, -, -⟩
        exact ⟨fun _ => by omega, Or.inr ⟨rfl, hroom⟩⟩
      · rintro ⟨hstart, -⟩
        have hbelow := hstart hleft
        refine ⟨by omega, ?_, ?_⟩
        · rw [← List.length_pos_iff]
          omega
        · change base + bytesSent + data.length = base + totalSize
          omega
  · have hall : bytesSent = totalSize := by omega
    rw [hall]
    refine ⟨[], (List.append_nil _).symm, rfl, iff_of_true rfl ⟨fun h => absurd h (by omega), ?_⟩⟩
    exact Or.inl (Nat.sub_self _)

/-- **The events of a vector**, from the buffers `iovs` on. By induction on the buffers: one that
holds bytes is an event of as many, and an empty one is none. -/
theorem reportVecs_tiles (iovs : List IoVec) {seq bytesSent : ℕ} (pending : Bool) (cpu : Cpu)
    (htotal : totalSize < 2 ^ 31) (hseq : seq % 2 ^ 32 = (base + bytesSent) % 2 ^ 32)
    (hsent : bytesSent ≤ totalSize) (hsource : o.sourceFn ≠ .syscallSendfile) :
    ∃ events, (reportRemainder o totalSize
        (reportVecsLoop o totalSize lengthHeader iovs seq bytesSent pending cpu)).events
          = cpu.events ++ events
      ∧ EventsTile (base + totalSize) (base + bytesSent) events
      ∧ (Tiles (base + totalSize) (base + bytesSent) (events.filterMap handed)
        ↔ Unwrapped totalSize base iovs bytesSent
          ∧ RestFilled o.sourceFn (totalSize - (bytesSent + vecsLen iovs))) := by
  induction iovs generalizing seq bytesSent pending cpu with
  | nil => exact reportRemainder_tiles cpu htotal hseq hsent hsource
  | cons iov iovs ih =>
      have hsum : vecsLen (iov :: iovs) = iov.len + vecsLen iovs := rfl
      by_cases hleft : bytesSent < totalSize
      · rw [reportVecsLoop, if_pos hleft]
        dsimp only
        have hsize : min iov.len (totalSize - bytesSent) ≤ totalSize - bytesSent := by omega
        generalize hiovSize : min iov.len (totalSize - bytesSent) = iovSize at hsize ⊢
        have hrest : totalSize - (bytesSent + vecsLen (iov :: iovs))
            = totalSize - (bytesSent + iovSize + vecsLen iovs) := by omega
        have hunwrapped : Unwrapped totalSize base (iov :: iovs) bytesSent
            ↔ base + bytesSent < 2 ^ 32
              ∧ Unwrapped totalSize base iovs (bytesSent + iovSize) := by
          by_cases hcut : iov.len = iovSize
          · rw [← hcut]
            exact ⟨fun h => ⟨h.1 hleft, h.2⟩, fun h => ⟨fun _ => h.1, h.2⟩⟩
          · -- The buffer holds more than what was left.
            have hover : totalSize ≤ bytesSent + iovSize := by omega
            have hover' : totalSize ≤ bytesSent + iov.len := by omega
            exact ⟨fun h => ⟨h.1 hleft, unwrapped_of_le _ hover⟩,
              fun h => ⟨fun _ => h.1, unwrapped_of_le _ hover'⟩⟩
        rw [hrest, hunwrapped]
        by_cases hempty : iovSize = 0
        · have hnothing : reportSyscallBuf o seq iovSize iov.base pending lengthHeader cpu = cpu := by
            rw [hempty]
            rfl
          rw [hnothing]
          obtain ⟨events, hevents, htile, hiff⟩ := @ih ((seq + iovSize) % 2 ^ 32)
            (bytesSent + iovSize) false cpu (by omega) (by omega)
          rw [hempty] at hevents htile hiff ⊢
          refine ⟨events, hevents, htile, hiff.trans ?_⟩
          exact ⟨fun h => ⟨⟨h.1.start hleft, h.1⟩, h.2⟩, fun h => ⟨h.1.2, h.2⟩⟩
        · obtain ⟨ke, hke, hkseq, hklen, -⟩ := reportSyscallBuf_spec o seq
            (Nat.pos_of_ne_zero hempty) iov.base pending lengthHeader cpu
          have hlen : ke.len = iovSize := by omega
          obtain ⟨events, hevents, htile, hiff⟩ := @ih ((seq + iovSize) % 2 ^ 32)
            (bytesSent + iovSize) false
            (reportSyscallBuf o seq iovSize iov.base pending lengthHeader cpu) (by omega) (by omega)
          have hmsg : 0 < (iov.base.read 0 (min iovSize maxMsgSize)).length := by
            rw [Memory.read_length, maxMsgSize]
            omega
          have hcaptured : (iov.base.read 0 (min iovSize maxMsgSize)).length ≤ ke.len := by
            rw [Memory.read_length]
            omega
          obtain ⟨data, hdata, hdatalen, -⟩ := syscallData_captured hmsg hcaptured
          have hnext : base + bytesSent + ke.len = base + (bytesSent + iovSize) := by omega
          refine ⟨.syscall ke (iov.base.read 0 (min iovSize maxMsgSize)) :: events, ?_, ?_, ?_⟩
          · rw [hevents, hke, List.append_assoc]
            rfl
          · refine ⟨by omega, by omega, hcaptured, ?_⟩
            rw [hnext]
            exact htile
          · have hhanded : handed (.syscall ke (iov.base.read 0 (min iovSize maxMsgSize)))
                = some (ke.seq, data) := by
              rw [handed, hdata]
              rfl
            have hne : data ≠ [] := by
              rw [← List.length_pos_iff]
              omega
            rw [List.filterMap_cons_some hhanded]
            have hcons : Tiles (base + totalSize) (base + bytesSent)
                ((ke.seq, data) :: events.filterMap handed)
                ↔ ke.seq = base + bytesSent
                  ∧ Tiles (base + totalSize) (base + (bytesSent + iovSize))
                    (events.filterMap handed) := by
              rw [Tiles, hdatalen, hnext]
              exact ⟨fun h => ⟨h.1, h.2.2⟩, fun h => ⟨h.1, hne, h.2⟩⟩
            rw [hcons, hiff]
            have hstart : ke.seq = base + bytesSent ↔ base + bytesSent < 2 ^ 32 := by omega
            rw [hstart, and_assoc]
      · have hall : bytesSent = totalSize := by omega
        rw [reportVecsLoop_done o lengthHeader (iov :: iovs) seq pending cpu (by omega)]
        obtain ⟨events, hevents, htile, hiff⟩ :=
          reportRemainder_tiles (o := o) cpu htotal hseq hsent hsource
        refine ⟨events, hevents, htile, hiff.trans ?_⟩
        have hzero : totalSize - bytesSent = 0 := by omega
        have hzero' : totalSize - (bytesSent + vecsLen (iov :: iovs)) = 0 := by omega
        rw [hzero, hzero']
        exact ⟨fun h => ⟨unwrapped_of_le _ (by omega), h.2⟩, fun h => ⟨fun hlt => absurd hlt hleft, h.2⟩⟩

/-! ## In the stream buffer -/

/-- The pieces are added to a stream buffer one after the other. -/
def addPieces (stamp : ℕ → ℕ) (sb : StreamBuffer) :
    List (ℕ × List UInt8) → Except Panic StreamBuffer
  | [] => .ok sb
  | (seq, data) :: pieces => do
      let (_, sb) ← sb.add seq data (stamp seq)
      addPieces stamp sb pieces

/-- A stream buffer that has the one run of bytes from `lo` on, and has seen nothing behind it. -/
structure OneRun (capacity : ℤ) (lo : ℕ) (bytes : List UInt8) (sb : StreamBuffer) : Prop where
  capacity_eq : sb.capacity = capacity
  buffers : sb.buffers = if bytes = [] then [] else [⟨bytes, lo⟩]
  times : ∀ seq, lo + bytes.length ≤ seq → sb.timestamps.get? seq = none

theorem oneRun_new (capacity : ℤ) (lo : ℕ) : OneRun capacity lo [] (StreamBuffer.new capacity) :=
  ⟨rfl, rfl, fun _ _ => rfl⟩

open StreamBuffer in
/-- A segment right behind the one buffer extends it. -/
theorem placed_behind {seq : ℕ} {data : List UInt8} {b : Buffer} {bs bs' : List Buffer}
    (h : Placed seq data bs bs') (hbs : bs = [b]) (hseq : b.seq + b.buf.length = seq) :
    bs' = [⟨b.buf ++ data, b.seq⟩] := by
  have hfuses : FusesLeft seq data b := ⟨by omega, by omega, by omega⟩
  cases h with
  | insert xs ys split hl hr =>
      rcases List.append_eq_singleton_iff.mp hbs with ⟨rfl, rfl⟩ | ⟨rfl, rfl⟩
      · have := split.right b rfl
        omega
      · exact absurd hfuses (hl b rfl)
  | extendLeft xs l ys split hl hr =>
      rcases List.append_eq_singleton_iff.mp hbs with ⟨rfl, hcons⟩ | ⟨-, hcons⟩
      · cases hcons
        rw [Buffer.extend, hseq, Nat.sub_self, List.drop_zero]
        rfl
      · cases hcons
  | extendRight xs r ys split hl hr =>
      rcases List.append_eq_singleton_iff.mp hbs with ⟨rfl, hcons⟩ | ⟨-, hcons⟩
      · cases hcons
        have := split.right b rfl
        omega
      · cases hcons
  | bridge xs l r ys split hl hr =>
      rcases List.append_eq_singleton_iff.mp hbs with ⟨rfl, hcons⟩ | ⟨-, hcons⟩
      · cases hcons
      · cases hcons

/-- **The next piece** joins the run, if the stream buffer holds that much. -/
theorem OneRun.add {capacity : ℤ} {lo : ℕ} {bytes data : List UInt8} {sb : StreamBuffer}
    (h : OneRun capacity lo bytes sb) (timestamp : ℕ) (hdata : data ≠ [])
    (hend : lo + bytes.length + data.length < 2 ^ 63)
    (hroom : ((bytes ++ data).length : ℤ) ≤ capacity) :
    ∃ sb', sb.add (lo + bytes.length) data timestamp = .ok (true, sb')
      ∧ OneRun capacity lo (bytes ++ data) sb' := by
  have hpos : 0 < data.length := List.length_pos_iff.mpr hdata
  have hne : bytes ++ data ≠ [] := by simp [hdata]
  have hlen : (bytes ++ data).length = bytes.length + data.length := List.length_append
  have htimes : ∀ seq, lo + (bytes ++ data).length ≤ seq →
      (sb.timestamps.put (lo + bytes.length) timestamp).get? seq = none := by
    intro seq hseq
    rw [SortedMap.get?_put, if_neg (by omega)]
    exact h.times seq (by omega)
  have hfits : ∀ b ∈ sb.buffers, b.Fits := by
    intro b hb
    rw [h.buffers] at hb
    split_ifs at hb with hempty
    · cases hb
    · rw [List.mem_singleton.mp hb]
      exact ⟨hempty, by dsimp only; omega⟩
  obtain ⟨r, sb', heq, hadded⟩ :=
    @StreamBuffer.add_added sb (lo + bytes.length) data timestamp hfits (by omega)
  suffices hall : r = true ∧ OneRun capacity lo (bytes ++ data) sb' by
    obtain ⟨rfl, hone⟩ := hall
    exact ⟨sb', heq, hone⟩
  cases hadded with
  | duplicate seen =>
      rw [h.times _ le_rfl] at seen
      cases seen
  | first _ empty =>
      have hbytes : bytes = [] := by
        by_contra hsome
        rw [h.buffers, if_neg hsome] at empty
        cases empty
      subst hbytes
      refine ⟨rfl, h.capacity_eq, ?_, htimes⟩
      rw [List.nil_append, if_neg hdata]
      rfl
  | reset _ nonempty rule =>
      have hbytes : bytes ≠ [] := fun hnil => nonempty (by rw [h.buffers, if_pos hnil])
      -- The piece starts where the buffer ends.
      have hend' : sb.positionN = lo + bytes.length := by
        rw [StreamBuffer.positionN, h.buffers, if_neg hbytes]
        exact u64_of_lt (show lo + bytes.length < 2 ^ 64 by omega)
      have hzero : subU64 (lo + bytes.length) (lo + bytes.length) = 0 := by
        rw [subU64_of_le le_rfl (by omega), Nat.sub_self]
      rcases rule with hover | ⟨-, hgap⟩
      · rw [StreamBuffer.overflows, hend', hzero] at hover
        exact absurd hover (by decide)
      · rw [StreamBuffer.largeGap, hend', hzero] at hgap
        exact absurd hgap (by decide)
  | ignored _ nonempty rule =>
      have hbytes : bytes ≠ [] := fun hnil => nonempty (by rw [h.buffers, if_pos hnil])
      have hstart : sb.position0 = lo := by
        rw [StreamBuffer.position0, h.buffers, if_neg hbytes]
      rw [StreamBuffer.tooOld, hstart, toInt64_subU64 (by omega) (by omega) (by omega),
        decide_eq_true_eq] at rule
      unfold maxBytesGap at rule
      omega
  | @placed _ reached bs _ shape =>
      have hbytes : bytes ≠ [] := by
        intro hnil
        rw [StreamBuffer.reachesPlace, StreamBuffer.isEmpty, h.buffers, if_pos hnil] at reached
        simp at reached
      have hone : sb.buffers = [⟨bytes, lo⟩] := by rw [h.buffers, if_neg hbytes]
      have hbs : bs = [⟨bytes ++ data, lo⟩] := placed_behind shape hone rfl
      have hover : (sb.withPlaced bs (lo + bytes.length) timestamp).overCapacity = false := by
        have hN : (sb.withPlaced bs (lo + bytes.length) timestamp).positionN
            = lo + (bytes ++ data).length := by
          rw [hbs]
          exact u64_of_lt (show lo + (bytes ++ data).length < 2 ^ 64 by omega)
        have h0 : (sb.withPlaced bs (lo + bytes.length) timestamp).position0 = lo := by
          rw [hbs]
          rfl
        have hcap : (sb.withPlaced bs (lo + bytes.length) timestamp).capacity = capacity :=
          h.capacity_eq
        rw [StreamBuffer.overCapacity, hN, h0, hcap, subU64_of_le (by omega) (by omega),
          ofInt64_of_nonneg (by omega), Bool.and_eq_false_iff]
        right
        rw [decide_eq_false_iff_not]
        omega
      rw [StreamBuffer.shrink_of_not_overCapacity hover]
      refine ⟨rfl, ?_, ?_, ?_⟩
      · rw [StreamBuffer.cleanOldTimestamps]
        split_ifs
        · exact h.capacity_eq
        · exact h.capacity_eq
      · rw [StreamBuffer.cleanOldTimestamps_buffers, if_neg hne]
        exact hbs
      · intro seq hseq
        rw [StreamBuffer.cleanOldTimestamps]
        split_ifs
        · exact htimes seq hseq
        · dsimp only
          rw [SortedMap.get?_removeAll]
          split_ifs
          · rfl
          · exact htimes seq hseq

theorem Tiles.le {hi lo : ℕ} {pieces : List (ℕ × List UInt8)} (h : Tiles hi lo pieces) :
    lo ≤ hi := by
  induction pieces generalizing lo with
  | nil => exact Nat.le_of_eq h
  | cons piece pieces ih => exact (Nat.le_add_right _ _).trans (ih h.2.2)

/-- **Pieces that tile** leave one run of all their bytes. By induction on the pieces. -/
theorem addPieces_tiles {capacity : ℤ} {lo hi : ℕ} (stamp : ℕ → ℕ)
    {pieces : List (ℕ × List UInt8)} {bytes : List UInt8} {sb : StreamBuffer}
    (h : OneRun capacity lo bytes sb) (htiles : Tiles hi (lo + bytes.length) pieces)
    (hhi : hi < 2 ^ 63) (hroom : ((hi - lo : ℕ) : ℤ) ≤ capacity) :
    ∃ sb', addPieces stamp sb pieces = .ok sb'
      ∧ OneRun capacity lo (bytes ++ pieces.flatMap Prod.snd) sb' := by
  induction pieces generalizing bytes sb with
  | nil =>
      refine ⟨sb, rfl, ?_⟩
      rw [List.flatMap_nil, List.append_nil]
      exact h
  | cons piece pieces ih =>
      obtain ⟨seq, data⟩ := piece
      obtain ⟨rfl, hdata, hrest⟩ := htiles
      have hle := hrest.le
      have hlen : (bytes ++ data).length = bytes.length + data.length := List.length_append
      have hnext : lo + bytes.length + data.length = lo + (bytes ++ data).length := by omega
      obtain ⟨sb₁, hadd, h₁⟩ := h.add (stamp (lo + bytes.length)) hdata (by omega) (by omega)
      rw [hnext] at hrest
      obtain ⟨sb', hall, h'⟩ := ih h₁ hrest
      refine ⟨sb', ?_, ?_⟩
      · rw [addPieces, hadd]
        exact hall
      · rw [List.flatMap_cons, ← List.append_assoc]
        exact h'

/-! ## The call as a whole -/

/-- The calls that read or write a vector of buffers. -/
inductive VectoredCall
  | sendmsg
  | recvmsg
  | writev
  | readv
  | sendmmsg
  | recvmmsg
deriving DecidableEq

/-- `source_fn`, as the entry of the call sets it. `handle_syscall_enter_writev` leaves it at
zero. -/
def VectoredCall.sourceFn : VectoredCall → SourceFunction
  | .sendmsg => .syscallSendMsg
  | .recvmsg => .syscallRecvMsg
  | .writev => .unknown
  | .readv => .syscallReadV
  | .sendmmsg => .syscallSendMMsg
  | .recvmmsg => .syscallRecvMMsg

/-- The calls that say of themselves that they are one of several. -/
def VectoredCall.saysSo (call : VectoredCall) : Bool :=
  call = .readv || call = .sendmmsg || call = .recvmmsg

theorem VectoredCall.isMultiMessage (call : VectoredCall) :
    call.sourceFn.isMultiMessage = call.saysSo := by
  cases call <;> rfl

/-- **A call is captured as a whole**: its events tile what was moved; what is handed on for them
tiles it, too, each with the captured bytes first; and a stream buffer that holds as much has
nothing else then. -/
structure Whole (seq totalSize : ℕ) (events : List Event) : Prop where
  kernel : EventsTile (seq + totalSize) seq events
  user : Tiles (seq + totalSize) seq (events.filterMap handed)
  captured : ∀ ke msg, .syscall ke msg ∈ events → ∀ piece, handed (.syscall ke msg) = some piece →
    msg <+: piece.2
  stored : ∀ (capacity : ℤ) (stamp : ℕ → ℕ), totalSize ≤ capacity →
    ∃ sb, addPieces stamp (StreamBuffer.new capacity) (events.filterMap handed) = .ok sb
      ∧ sb.buffers = [⟨(events.filterMap handed).flatMap Prod.snd, seq⟩]

/-- What was captured comes first in what is handed on. -/
theorem handed_captured {ke : KernEvt} {msg : List UInt8} {piece : ℕ × List UInt8}
    (h : handed (.syscall ke msg) = some piece) : msg <+: piece.2 := by
  rcases msg with _ | ⟨b, msg⟩
  · exact List.nil_prefix
  · unfold handed at h
    obtain ⟨data, hdata, rfl⟩ := Option.map_eq_some_iff.mp h
    rw [syscallData, if_pos (by simp), if_neg Bool.false_ne_true] at hdata
    cases hdata
    unfold fillSyscallDataIfNeeded
    split_ifs
    · exact List.prefix_append _ _
    · exact List.prefix_rfl

/-- When a vectored call is captured as a whole. -/
def VectorHeld (call : VectoredCall) (seq totalSize : ℕ) (iov : List IoVec) : Prop :=
  Unwrapped totalSize seq (iov.take loopLimit) 0
    ∧ (totalSize ≤ vecsLen (iov.take loopLimit)
      ∨ call.saysSo = true ∧ vecsLen (iov.take loopLimit) + fakeDataMarkLen ≤ totalSize)

/-- **A vectored call is captured as a whole** just when its first three buffers hold what it
moved, or the call is one that says so and leaves the room of a mark; and no event starts behind
the range of a sequence number. -/
theorem reportSyscallEvtVecs_whole_iff (call : VectoredCall) (o : Origin)
    (hcall : o.sourceFn = call.sourceFn) {seq : ℕ} (hseq : seq < 2 ^ 32) (bytesCount : Moved)
    (iov : List IoVec) (prependLengthHeader : Bool) (lengthHeader : ℕ) (cpu : Cpu) :
    ∃ events, (reportSyscallEvtVecs o seq bytesCount.count iov prependLengthHeader lengthHeader
        cpu).events = cpu.events ++ events
      ∧ EventsTile (seq + bytesCount.count) seq events
      ∧ (Whole seq bytesCount.count events ↔ VectorHeld call seq bytesCount.count iov) := by
  have hpos := bytesCount.pos
  have hlt := bytesCount.lt
  have hsource : o.sourceFn ≠ .syscallSendfile := by
    rw [hcall]
    cases call <;> decide
  obtain ⟨events, hevents, htile, hiff⟩ := @reportVecs_tiles o lengthHeader bytesCount.count seq
    (iov.take loopLimit) seq 0 prependLengthHeader cpu hlt (by omega) (Nat.zero_le _) hsource
  rw [Nat.add_zero] at htile hiff
  refine ⟨events, hevents, htile, ?_⟩
  have hheld : VectorHeld call seq bytesCount.count iov
      ↔ Tiles (seq + bytesCount.count) seq (events.filterMap handed) := by
    rw [hiff, RestFilled, hcall, call.isMultiMessage, VectorHeld, Nat.zero_add]
    refine and_congr_right fun _ => or_congr ?_ (and_congr_right fun _ => ?_)
    · omega
    · have hmark : 0 < fakeDataMarkLen := by decide
      omega
  rw [hheld]
  refine ⟨fun h => h.user, fun h => ⟨htile, h, fun ke msg _ piece => handed_captured, ?_⟩⟩
  intro capacity stamp hroom
  obtain ⟨sb, hsb, hone⟩ := @addPieces_tiles capacity seq (seq + bytesCount.count) stamp
    (events.filterMap handed) [] _ (oneRun_new capacity seq) h (by omega) (by omega)
  rw [List.nil_append] at hone
  have hsome : (events.filterMap handed).flatMap Prod.snd ≠ [] := by
    rcases hpieces : events.filterMap handed with _ | ⟨piece, pieces⟩
    · rw [hpieces] at h
      have : seq = seq + bytesCount.count := h
      omega
    · rw [hpieces] at h
      rw [List.flatMap_cons]
      exact fun hnil => h.2.1 (List.append_eq_nil_iff.mp hnil).1
  refine ⟨sb, hsb, ?_⟩
  rw [hone.buffers, if_neg hsome]

/-- Four buffers of twenty bytes. -/
def fourBuffers : List IoVec := List.replicate 4 ⟨fun _ => 65, 20⟩

def eightyMoved : Moved := ⟨80, by decide, by decide⟩

def originOf (call : VectoredCall) : Origin := ⟨3, 2, 1, 1, call.sourceFn⟩

theorem reportSyscallEvtVecs_whole_iff_sample :
    ∃ events, (reportSyscallEvtVecs (originOf .readv) 1 80 fourBuffers false 0 freshCpu).events
        = freshCpu.events ++ events
      ∧ EventsTile (1 + 80) 1 events
      ∧ (Whole 1 80 events ↔ VectorHeld .readv 1 80 fourBuffers) :=
  @reportSyscallEvtVecs_whole_iff .readv (originOf .readv) rfl 1 (by decide) eightyMoved fourBuffers
    false 0 freshCpu

/-- A `writev` of four buffers: nothing is added for the fourth. -/
theorem writev_leaves_hole :
    ¬Whole 1 80 (reportSyscallEvtVecs (originOf .writev) 1 80 fourBuffers false 0 freshCpu).events := by
  intro h
  have htiles := h.user
  revert htiles
  decide +kernel

end Bpf

end Kyanos
