/-
Timestamps of the head: whether `FindTimestampBySeq` finds an entry for the first
byte of a `StreamBuffer`.

The map and the buffers are maintained apart. A removal forgets the starts before
the head it drops, a partial removal moves the head and leaves the map alone, and
above `maxTimestampEntries` the older half of the map goes whatever is buffered.
The last of these takes the head's own entry away (`timestamps_drop_head`).

Below that limit the link is `Dated`: every buffer has a recorded start at or
before its first byte, and between two buffers there is one that the earlier
buffer does not reach. The second half is what makes the first survive a removal,
since everything recorded before the dropped head is lost. `Dated` is a spacing in
the sense of `StreamRuns.lean`, so the fuse branches need no new argument.

`step_linked` is the rule for properties of buffers and map together.
-/
import Kyanos.StreamOrder

set_option autoImplicit false

open GoNum Pieces Trace

namespace Kyanos

namespace StreamBuffer

/-! ## Properties of the buffers and the map together -/

/-- The two cleaners at the end of `Add`, with room left in the map. -/
theorem linked_clean {I : List Buffer → SortedMap ℕ ℕ → Prop}
    (hdrop : ∀ pre b bs m, I (pre ++ b :: bs) m → I bs (cleanBySeq m b.seq))
    {sb : StreamBuffer} (hsize : sb.timestamps.size ≤ maxTimestampEntries)
    (hinv : I sb.buffers sb.timestamps) :
    I sb.shrinkBufferUntilSizeBelowCapacity.cleanOldTimestamps.buffers
      sb.shrinkBufferUntilSizeBelowCapacity.cleanOldTimestamps.timestamps := by
  rcases shrink_cases sb with hsame | ⟨dropped, last, kept, hbs, hshrunk⟩
  · rw [hsame, cleanOldTimestamps_of_size_le hsize]
    exact hinv
  · -- Shrinking only makes the map smaller, so the second cleaner has nothing to do.
    have hle : (cleanBySeq sb.timestamps last.seq).size ≤ maxTimestampEntries :=
      (SortedMap.size_removeAll_le _ _).trans hsize
    rw [hshrunk, cleanOldTimestamps_of_size_le hle]
    rw [hbs] at hinv
    exact hdrop dropped last kept _ hinv

/-- The map has room for the segment, should it get as far as the fuse branches. -/
def HasRoom (sb : StreamBuffer) : StreamOp → Prop
  | .add g => sb.reachesPlace g.seq = true → sb.timestamps.size < maxTimestampEntries
  | _ => True

/-- **One step, for buffers and map together.** The moves are: dropping buffers from
the front with the starts before the last of them, trimming the head, starting
over with one segment, and placing a segment. -/
theorem step_linked {I : List Buffer → SortedMap ℕ ℕ → Prop} {sb sb' : StreamBuffer}
    {op : StreamOp} (hnil : I [] SortedMap.empty)
    (hdrop : ∀ pre b bs m, I (pre ++ b :: bs) m → I bs (cleanBySeq m b.seq))
    (htrim : ∀ b bs m k, 0 < k → k < b.buf.length → I (b :: bs) m → I (trimHead b k :: bs) m)
    (hone : ∀ g bs (m : SortedMap ℕ ℕ), op = .add g → I bs m → I [g.buffer] (m.put g.seq g.ts))
    (hplaced : ∀ g bs, op = .add g → sb.timestamps.get? g.seq = none →
      sb.reachesPlace g.seq = true → Placed g.seq g.data sb.buffers bs →
      I bs (sb.timestamps.put g.seq g.ts))
    (hroom : HasRoom sb op) (hfits : ∀ b ∈ sb.buffers, b.Fits) (h : sb.step op = .ok sb')
    (hinv : I sb.buffers sb.timestamps) : I sb'.buffers sb'.timestamps := by
  cases op with
  | add g =>
      obtain ⟨r, hadded⟩ := step_add hfits h
      cases hadded with
      | duplicate => exact hinv
      | ignored => exact hinv
      | first => exact hone g _ _ rfl hinv
      | reset => exact hone g _ _ rfl hnil
      | @placed fresh reached bs _ shape =>
          have hnext : I bs (sb.timestamps.put g.seq g.ts) := hplaced g bs rfl fresh reached shape
          have hsize : (sb.timestamps.put g.seq g.ts).size ≤ maxTimestampEntries := by
            rw [SortedMap.size_put_of_get?_eq_none g.ts fresh]
            exact hroom reached
          exact linked_clean hdrop (show (sb.withPlaced bs g.seq g.ts).timestamps.size ≤ _ from hsize)
            hnext
  | removePrefix n => exact removePrefix_invariant (hdrop []) htrim hinv h
  | removeHead =>
      obtain ⟨n, hn⟩ := step_removeHead h
      exact removePrefix_invariant (hdrop []) htrim hinv hn
  | clear =>
      cases h
      exact hnil

/-! ## Recorded starts -/

/-- The map has a start between `lo` and `hi`. -/
def Recorded (m : SortedMap ℕ ℕ) (lo hi : ℕ) : Prop :=
  ∃ k, lo ≤ k ∧ k ≤ hi ∧ (m.get? k).isSome

theorem spacing_recorded (m : SortedMap ℕ ℕ) : Spacing (Recorded m) where
  le := by
    rintro e s ⟨k, h1, h2, -⟩
    exact h1.trans h2
  mono := by
    rintro e e' s s' he hs ⟨k, h1, h2, hk⟩
    exact ⟨k, he.trans h1, h2.trans hs, hk⟩

theorem Recorded.put {m : SortedMap ℕ ℕ} {lo hi : ℕ} (h : Recorded m lo hi) (k t : ℕ) :
    Recorded (m.put k t) lo hi := by
  obtain ⟨j, h1, h2, hj⟩ := h
  refine ⟨j, h1, h2, ?_⟩
  rw [SortedMap.get?_put]
  split_ifs
  · rfl
  · exact hj

/-- Cleaning up to a position keeps the starts from there on. -/
theorem Recorded.clean {m : SortedMap ℕ ℕ} {lo hi c : ℕ} (h : Recorded m lo hi) (hc : c ≤ lo) :
    Recorded (cleanBySeq m c) lo hi := by
  obtain ⟨j, h1, h2, hj⟩ := h
  refine ⟨j, h1, h2, ?_⟩
  rw [get?_cleanBySeq, if_neg (by omega)]
  exact hj

theorem recorded_put_self (m : SortedMap ℕ ℕ) {lo k hi : ℕ} (t : ℕ) (h1 : lo ≤ k) (h2 : k ≤ hi) :
    Recorded (m.put k t) lo hi := by
  refine ⟨k, h1, h2, ?_⟩
  rw [SortedMap.get?_put, if_pos rfl]
  rfl

/-- The link between the buffers and the map. -/
structure Dated (bs : List Buffer) (m : SortedMap ℕ ℕ) : Prop where
  fits : ∀ b ∈ bs, b.Fits
  own : ∀ b ∈ bs, Recorded m 0 b.seq
  between : Spaced (Recorded m) bs

/-- Dropping buffers: what lies behind the last one is dated by a start that the
cleaning keeps. -/
theorem Dated.drop {pre bs : List Buffer} {b : Buffer} {m : SortedMap ℕ ℕ}
    (h : Dated (pre ++ b :: bs) m) : Dated bs (cleanBySeq m b.seq) := by
  have hcons := (List.pairwise_cons.mp (List.pairwise_append.mp h.between).2.1)
  refine ⟨fun c hc => h.fits c (by simp [hc]), ?_, ?_⟩
  · intro c hc
    have hrec := (hcons.1 c hc).clean (Nat.le_add_right _ _)
    exact (spacing_recorded _).mono (Nat.zero_le _) le_rfl hrec
  · -- Every pair that is left lies behind the dropped buffer.
    refine List.Pairwise.imp_of_mem ?_ hcons.2
    intro c d hc _ hcd
    have hle := (spacing_recorded m).le (hcons.1 c hc)
    exact hcd.clean (by omega)

/-- Trimming the head moves its start up and leaves its end. -/
theorem Dated.trim {bs : List Buffer} {b : Buffer} {m : SortedMap ℕ ℕ} {k : ℕ}
    (hk : k < b.buf.length) (h : Dated (b :: bs) m) : Dated (trimHead b k :: bs) m := by
  have hb := h.fits b List.mem_cons_self
  have hcons := List.pairwise_cons.mp h.between
  have hR := spacing_recorded m
  have heq := trimHead_eq hb hk
  refine ⟨?_, ?_, List.pairwise_cons.mpr ⟨?_, hcons.2⟩⟩
  · intro c hc
    rcases List.mem_cons.mp hc with rfl | hc
    · exact closed_fits.trim hb hk
    · exact h.fits c (List.mem_cons_of_mem _ hc)
  · intro c hc
    rcases List.mem_cons.mp hc with rfl | hc
    · rw [heq]
      exact hR.mono le_rfl (Nat.le_add_right _ _) (h.own b List.mem_cons_self)
    · exact h.own c (List.mem_cons_of_mem _ hc)
  · intro c hc
    rw [heq]
    refine hR.mono ?_ le_rfl (hcons.1 c hc)
    dsimp only
    rw [List.length_drop]
    omega

/-- The start of a placed segment or of an old buffer is the start of every buffer
afterwards. -/
theorem Placed.start {seq : ℕ} {data : List UInt8} {bs bs' : List Buffer}
    (h : Placed seq data bs bs') : ∀ b' ∈ bs', b'.seq = seq ∨ ∃ b ∈ bs, b.seq = b'.seq := by
  have hmid : ∀ (xs ys : List Buffer) (m : Buffer), (∀ b ∈ xs ++ ys, b ∈ bs) →
      (m.seq = seq ∨ ∃ b ∈ bs, b.seq = m.seq) →
      ∀ b' ∈ xs ++ m :: ys, b'.seq = seq ∨ ∃ b ∈ bs, b.seq = b'.seq := by
    intro xs ys m hold hm b' hb'
    rcases List.mem_append.mp hb' with hb' | hb'
    · exact Or.inr ⟨b', hold b' (List.mem_append_left _ hb'), rfl⟩
    · rcases List.mem_cons.mp hb' with rfl | hb'
      · exact hm
      · exact Or.inr ⟨b', hold b' (List.mem_append_right _ hb'), rfl⟩
  cases h with
  | insert xs ys => exact hmid xs ys _ (fun b hb => hb) (Or.inl rfl)
  | extendLeft xs l ys =>
      exact hmid xs ys _ (fun b hb => by simp at hb ⊢; tauto) (Or.inr ⟨l, by simp, rfl⟩)
  | extendRight xs r ys => exact hmid xs ys _ (fun b hb => by simp at hb ⊢; tauto) (Or.inl rfl)
  | bridge xs l r ys =>
      exact hmid xs ys _ (fun b hb => by simp at hb ⊢; tauto) (Or.inr ⟨l, by simp, rfl⟩)

/-- Placing a segment: a left neighbour that is not fused ends at or before it, and
a right neighbour that is not fused has a start of its own behind it. -/
theorem Dated.placed {seq : ℕ} {data : List UInt8} {bs bs' : List Buffer} {m : SortedMap ℕ ℕ}
    (h : Dated bs m) (ts : ℕ) (hshape : Placed seq data bs bs') (hnew : (⟨data, seq⟩ : Buffer).Fits)
    (hgapL : ∀ xs ys, bs = xs ++ ys → Split seq xs ys →
      ∀ l ∈ xs.getLast?, ¬ FusesLeft seq data l → l.seq + l.buf.length ≤ seq)
    (hgapR : ∀ xs ys, bs = xs ++ ys → Split seq xs ys →
      ∀ r ∈ ys.head?, ¬ FusesRight seq data r → Recorded m (seq + data.length) r.seq) :
    Dated bs' (m.put seq ts) := by
  refine ⟨closed_fits.placed hshape hnew h.fits, ?_, ?_⟩
  · -- No start moves back, so every buffer keeps the entry it had or has the new one.
    intro b' hb'
    rcases hshape.start b' hb' with heq | ⟨b, hb, heq⟩
    · rw [heq]
      exact recorded_put_self m ts (Nat.zero_le _) le_rfl
    · rw [← heq]
      exact (h.own b hb).put seq ts
  · have hput : Spaced (Recorded (m.put seq ts)) bs := h.between.imp (fun hab => hab.put seq ts)
    refine hput.placed (spacing_recorded _) hshape ?_ ?_
    · intro xs ys hbs hsplit l hl hno
      exact recorded_put_self m ts (hgapL xs ys hbs hsplit l hl hno) le_rfl
    · intro xs ys hbs hsplit r hr hno
      exact (hgapR xs ys hbs hsplit r hr hno).put seq ts

/-! ## Keeping the head dated -/

/-- The segment ends at or before the recorded start of a right neighbour it is not
fused onto: it does not bring back bytes already taken from the front of that
neighbour. -/
def NotBehind (sb : StreamBuffer) (g : Segment) : Prop :=
  ∀ r ∈ (sb.findRightBufferBySeq g.seq).2, r.canFuseAsRight g.seq g.data.length = false →
    ∀ e ∈ sb.timestamps.floor r.seq, g.buffer.rightBoundary ≤ e.1

/-- The steps that keep every buffer dated: every operation but an `Add` that gets as
far as the fuse branches with an unsafe segment or one behind its right neighbour. -/
def KeepsDated (sb : StreamBuffer) : StreamOp → Prop
  | .add g => sb.reachesPlace g.seq = true → SafeAdd sb g ∧ NotBehind sb g
  | _ => True

theorem NotBehind.recorded {sb : StreamBuffer} {g : Segment} (h : NotBehind sb g)
    (hdated : Dated sb.buffers sb.timestamps) {xs ys : List Buffer} (hbs : sb.buffers = xs ++ ys)
    (hsplit : Split g.seq xs ys) {r : Buffer} (hr : r ∈ ys.head?)
    (hno : ¬ FusesRight g.seq g.data r) :
    Recorded sb.timestamps (g.seq + g.data.length) r.seq := by
  have hmem : r ∈ sb.buffers := by
    rw [hbs]
    exact List.mem_append_right _ (List.mem_of_head? hr)
  have hcan : r.canFuseAsRight g.seq g.data.length = false :=
    Bool.eq_false_iff.mpr (fun hc => hno
      ((canFuseAsRight_iff_fusesRight (hdated.fits r hmem) g.noWrap).mp hc))
  -- The neighbour is dated, so the map has an entry at or before its start.
  obtain ⟨j, -, hj, hsome⟩ := hdated.own r hmem
  obtain ⟨k, t, hfloor⟩ := SortedMap.floor_isSome hsome hj
  obtain ⟨hget, hle, -⟩ := SortedMap.floor_eq_some hfloor
  have hend := h r (by rw [findRight_snd hsplit hbs]; exact hr) hcan (k, t) hfloor
  rw [Buffer.rightBoundary_eq g.fits] at hend
  exact ⟨k, hend, hle, by rw [hget]; rfl⟩

theorem dated_nil : Dated [] SortedMap.empty := ⟨by simp, by simp, List.Pairwise.nil⟩

theorem dated_singleton (g : Segment) (m : SortedMap ℕ ℕ) :
    Dated [g.buffer] (m.put g.seq g.ts) := by
  refine ⟨?_, ?_, List.pairwise_singleton _ _⟩
  · intro b hb
    rw [List.mem_singleton.mp hb]
    exact g.fits
  · intro b hb
    rw [List.mem_singleton.mp hb]
    exact recorded_put_self m g.ts (Nat.zero_le _) le_rfl

theorem Dated.add {sb : StreamBuffer} {g : Segment} {bs : List Buffer}
    (h : Dated sb.buffers sb.timestamps) (hsafe : SafeAdd sb g) (hbehind : NotBehind sb g)
    (hshape : Placed g.seq g.data sb.buffers bs) : Dated bs (sb.timestamps.put g.seq g.ts) := by
  refine h.placed g.ts hshape g.fits ?_ ?_
  · intro xs ys hbs hsplit l hl hno
    have hend := ((safeAdd_iff h.fits hsplit hbs).mp hsafe).1 l hl
    have hstart := hsplit.left l (List.mem_of_getLast? hl)
    by_contra hlt
    exact hno ⟨hstart, by omega, hend⟩
  · intro xs ys hbs hsplit r hr hno
    exact hbehind.recorded h hbs hsplit hr hno

/-! ## Where the entries come from -/

/-- The segment is added somewhere in the run. -/
def AddedIn (ops : List StreamOp) (g : Segment) : Prop := StreamOp.add g ∈ ops

/-- Every entry is the start and the timestamp of an added segment. -/
def Traced (ops : List StreamOp) (m : SortedMap ℕ ℕ) : Prop :=
  ∀ k t, m.get? k = some t → ∃ g, AddedIn ops g ∧ g.seq = k ∧ g.ts = t

/-- Two added segments have the same positions, or share none. -/
def Unoverlapped (ops : List StreamOp) : Prop :=
  ∀ g h, AddedIn ops g → AddedIn ops h →
    g.seq = h.seq ∧ g.data.length = h.data.length ∨ Beside g.seq g.data h.buffer

/-- Every position of the buffer was brought by an added segment with an entry, which
ends inside the buffer. -/
def Sourced (ops : List StreamOp) (m : SortedMap ℕ ℕ) (b : Buffer) : Prop :=
  ∀ p, b.seq ≤ p → p < b.seq + b.buf.length →
    ∃ g, AddedIn ops g ∧ m.get? g.seq = some g.ts ∧ g.seq ≤ p ∧ p < g.seq + g.data.length
      ∧ g.seq + g.data.length ≤ b.seq + b.buf.length

section Traced

variable {ops : List StreamOp} {m : SortedMap ℕ ℕ}

theorem Traced.clean (h : Traced ops m) (c : ℕ) : Traced ops (cleanBySeq m c) := by
  intro k t hk
  rw [get?_cleanBySeq] at hk
  split_ifs at hk
  exact h k t hk

theorem Traced.put (h : Traced ops m) {g : Segment} (hg : AddedIn ops g) :
    Traced ops (m.put g.seq g.ts) := by
  intro k t hk
  rw [SortedMap.get?_put] at hk
  split_ifs at hk with heq
  · exact ⟨g, hg, heq.symm, Option.some.inj hk⟩
  · exact h k t hk

theorem Sourced.put {b : Buffer} (h : Sourced ops m b) {g : Segment}
    (hfresh : m.get? g.seq = none) : Sourced ops (m.put g.seq g.ts) b := by
  intro p h1 h2
  obtain ⟨k, hk, hget, hrest⟩ := h p h1 h2
  refine ⟨k, hk, ?_, hrest⟩
  have hne : k.seq ≠ g.seq := by
    intro heq
    rw [heq, hfresh] at hget
    cases hget
  rw [SortedMap.get?_put, if_neg hne]
  exact hget

theorem sourced_self {g : Segment} (hg : AddedIn ops g) :
    Sourced ops (m.put g.seq g.ts) g.buffer := by
  intro p h1 h2
  refine ⟨g, hg, ?_, h1, h2, le_rfl⟩
  rw [SortedMap.get?_put, if_pos rfl]

/-- A fused buffer ends where the later of its parts does, so what ended inside a part
ends inside it. -/
theorem closed_sourced (ops : List StreamOp) (m : SortedMap ℕ ℕ) :
    Closed (fun b => b.Fits ∧ Sourced ops m b) where
  extend := by
    intro seq data l hl hnew hf
    refine ⟨closed_fits.extend hl.1 hnew.1 hf, ?_⟩
    have hlen := Buffer.length_extend hf.2.1 hf.2.2
    obtain ⟨h1, h2, h3⟩ := hf
    intro p hp1 hp2
    rw [Buffer.extend_seq] at hp1 hp2 ⊢
    by_cases hp : p < l.seq + l.buf.length
    · -- A source of the old part ended inside it, and the buffer has only grown to the right.
      obtain ⟨g, hg, hget, hle, hlt, hend⟩ := hl.2 p hp1 hp
      exact ⟨g, hg, hget, hle, hlt, by omega⟩
    · obtain ⟨g, hg, hget, hle, hlt, hend⟩ := hnew.2 p (by dsimp only; omega)
        (by dsimp only; omega)
      dsimp only at hend
      exact ⟨g, hg, hget, hle, hlt, by omega⟩
  prepend := by
    intro seq data r hr hnew hf
    refine ⟨closed_fits.prepend hr.1 hnew.1 hf, ?_⟩
    have hlen := Buffer.length_prepend hf.1 hf.2.1
    obtain ⟨h1, h2, h3⟩ := hf
    intro p hp1 hp2
    rw [Buffer.prepend_seq] at hp1 hp2 ⊢
    by_cases hp : p < r.seq
    · obtain ⟨g, hg, hget, hle, hlt, hend⟩ := hnew.2 p hp1 (by dsimp only; omega)
      dsimp only at hend
      exact ⟨g, hg, hget, hle, hlt, by omega⟩
    · obtain ⟨g, hg, hget, hle, hlt, hend⟩ := hr.2 p (by omega) (by omega)
      exact ⟨g, hg, hget, hle, hlt, by omega⟩
  trim := by
    intro b k hb hk
    refine ⟨closed_fits.trim hb.1 hk, ?_⟩
    rw [trimHead_eq hb.1 hk]
    intro p hp1 hp2
    dsimp only at hp1 hp2 ⊢
    rw [List.length_drop] at hp2 ⊢
    obtain ⟨g, hg, hget, hle, hlt, hend⟩ := hb.2 p (by omega) (by omega)
    exact ⟨g, hg, hget, hle, hlt, by omega⟩

/-- A segment that brought a byte of a later buffer starts behind the first byte of an
earlier one: otherwise it would share that byte with the segment that brought it. -/
theorem Sourced.clean {a b : Buffer} (hno : Unoverlapped ops) (ha : Sourced ops m a)
    (hb : Sourced ops m b) (hpos : 0 < a.buf.length) (hab : a.seq + a.buf.length ≤ b.seq) :
    Sourced ops (cleanBySeq m a.seq) b := by
  intro p h1 h2
  obtain ⟨g, hg, hget, hle, hlt, hend⟩ := hb p h1 h2
  refine ⟨g, hg, ?_, hle, hlt, hend⟩
  have hnot : ¬ g.seq < a.seq := by
    intro hbefore
    obtain ⟨k, hk, -, hk1, hk2, hk3⟩ := ha a.seq le_rfl (by omega)
    have hshare := hno g k hg hk
    rw [beside_buffer_iff] at hshare
    omega
  rw [get?_cleanBySeq, if_neg hnot]
  exact hget

end Traced

/-- What a run keeps of the buffers and the map, with the operations so far. -/
structure Timed (ops : List StreamOp) (bs : List Buffer) (m : SortedMap ℕ ℕ) : Prop where
  dated : Dated bs m
  traced : Traced ops m
  sourced : Unoverlapped ops → ∀ b ∈ bs, Sourced ops m b

theorem Unoverlapped.init {ops : List StreamOp} {op : StreamOp}
    (h : Unoverlapped (ops ++ [op])) : Unoverlapped ops :=
  fun g k hg hk => h g k (List.mem_append_left _ hg) (List.mem_append_left _ hk)

theorem Timed.snoc {ops : List StreamOp} {bs : List Buffer} {m : SortedMap ℕ ℕ}
    (h : Timed ops bs m) (op : StreamOp) : Timed (ops ++ [op]) bs m := by
  refine ⟨h.dated, ?_, ?_⟩
  · intro k t hk
    obtain ⟨g, hg, hrest⟩ := h.traced k t hk
    exact ⟨g, List.mem_append_left _ hg, hrest⟩
  · intro hno b hb p h1 h2
    obtain ⟨g, hg, hrest⟩ := h.sourced hno.init b hb p h1 h2
    exact ⟨g, List.mem_append_left _ hg, hrest⟩

theorem Timed.drop {ops : List StreamOp} {pre bs : List Buffer} {b : Buffer}
    {m : SortedMap ℕ ℕ} (h : Timed ops (pre ++ b :: bs) m) : Timed ops bs (cleanBySeq m b.seq) := by
  refine ⟨h.dated.drop, h.traced.clean _, ?_⟩
  intro hno c hc
  have hb : b ∈ pre ++ b :: bs := by simp
  have hc' : c ∈ pre ++ b :: bs := by simp [hc]
  have hbc := (List.pairwise_cons.mp (List.pairwise_append.mp h.dated.between).2.1).1 c hc
  exact Sourced.clean hno (h.sourced hno b hb) (h.sourced hno c hc')
    (h.dated.fits b hb).length_pos ((spacing_recorded m).le hbc)

theorem Timed.trim {ops : List StreamOp} {bs : List Buffer} {b : Buffer} {m : SortedMap ℕ ℕ}
    {k : ℕ} (hk : k < b.buf.length) (h : Timed ops (b :: bs) m) :
    Timed ops (trimHead b k :: bs) m := by
  refine ⟨h.dated.trim hk, h.traced, ?_⟩
  intro hno c hc
  rcases List.mem_cons.mp hc with rfl | hc
  · have hb : b ∈ b :: bs := List.mem_cons_self
    exact ((closed_sourced ops m).trim ⟨h.dated.fits b hb, h.sourced hno b hb⟩ hk).2
  · exact h.sourced hno c (List.mem_cons_of_mem _ hc)

/-- **One step keeps the buffers and the map together.** -/
theorem step_timed {ops : List StreamOp} {sb sb' : StreamBuffer} {op : StreamOp}
    (h : sb.step op = .ok sb') (hkeep : KeepsDated sb op) (hroom : HasRoom sb op)
    (htimed : Timed ops sb.buffers sb.timestamps) :
    Timed (ops ++ [op]) sb'.buffers sb'.timestamps := by
  have hold := htimed.snoc op
  have hnil : Timed (ops ++ [op]) [] SortedMap.empty :=
    ⟨dated_nil, fun k t hk => by simp at hk, by simp⟩
  refine step_linked (I := Timed (ops ++ [op])) hnil (fun _ _ _ _ hI => hI.drop)
    (fun _ _ _ _ _ hk hI => hI.trim hk) ?_ ?_ hroom htimed.dated.fits h hold
  · -- Starting over: the segment is its own source.
    rintro g bs m rfl hI
    have hg : AddedIn (ops ++ [.add g]) g := List.mem_append_right _ (List.mem_singleton.mpr rfl)
    refine ⟨dated_singleton g m, hI.traced.put hg, ?_⟩
    intro _ b hb
    rw [List.mem_singleton.mp hb]
    exact sourced_self hg
  · rintro g bs rfl hfresh hreach hshape
    obtain ⟨hsafe, hbehind⟩ := hkeep hreach
    have hg : AddedIn (ops ++ [.add g]) g := List.mem_append_right _ (List.mem_singleton.mpr rfl)
    refine ⟨htimed.dated.add hsafe hbehind hshape, hold.traced.put hg, ?_⟩
    intro hno b hb
    refine ((closed_sourced _ _).placed hshape ⟨g.fits, sourced_self hg⟩ ?_ b hb).2
    intro c hc
    exact ⟨htimed.dated.fits c hc, (hold.sourced hno c hc).put hfresh⟩

section Unoverlapped

variable {ops : List StreamOp} {sb : StreamBuffer} {g : Segment}

/-- An entry with another start than `g` belongs to a segment that shares no position
with it. -/
theorem Unoverlapped.beside (hno : Unoverlapped (ops ++ [.add g]))
    (hfresh : sb.timestamps.get? g.seq = none) {k : Segment} (hk : AddedIn ops k)
    (hget : sb.timestamps.get? k.seq = some k.ts) :
    g.seq + g.data.length ≤ k.seq ∨ k.seq + k.data.length ≤ g.seq := by
  have hshare := hno k g (List.mem_append_left _ hk) (by simp [AddedIn])
  rcases hshare with ⟨heq, -⟩ | hshare
  · rw [heq, hfresh] at hget
    cases hget
  · exact hshare

/-- A buffer that starts at or before `g` does not go beyond it: the byte at the start of
`g` would have come with an entry that shares it. -/
theorem Timed.left_ends (h : Timed ops sb.buffers sb.timestamps)
    (hno : Unoverlapped (ops ++ [.add g])) (hfresh : sb.timestamps.get? g.seq = none)
    {l : Buffer} (hl : l ∈ sb.buffers) (hle : l.seq ≤ g.seq) :
    l.seq + l.buf.length ≤ g.seq + g.data.length := by
  have hgpos := g.length_pos
  by_contra hlt
  obtain ⟨k, hk, hget, h1, h2, -⟩ := h.sourced hno.init l hl g.seq hle (by omega)
  rcases hno.beside hfresh hk hget with hb | hb
  · omega
  · omega

/-- In front of a buffer behind `g` there is an entry behind `g`: that of the buffer's
first byte. -/
theorem Timed.right_entry (h : Timed ops sb.buffers sb.timestamps)
    (hno : Unoverlapped (ops ++ [.add g])) (hfresh : sb.timestamps.get? g.seq = none)
    {r : Buffer} (hr : r ∈ sb.buffers) (hlt : g.seq < r.seq) :
    ∃ k, (sb.timestamps.get? k).isSome ∧ g.seq + g.data.length ≤ k ∧ k ≤ r.seq := by
  have hpos := (h.dated.fits r hr).length_pos
  obtain ⟨k, hk, hget, h1, h2, -⟩ := h.sourced hno.init r hr r.seq le_rfl (by omega)
  rcases hno.beside hfresh hk hget with hb | hb
  · exact ⟨k.seq, by rw [hget]; rfl, hb, h1⟩
  · omega

end Unoverlapped

/-- A segment with a new start that overlaps no earlier one in part is neither unsafe nor
behind its right neighbour. -/
theorem Timed.keepsDated {ops : List StreamOp} {sb : StreamBuffer} {op : StreamOp}
    (h : Timed ops sb.buffers sb.timestamps) (hno : Unoverlapped (ops ++ [op])) :
    KeepsDated sb op := by
  cases op with
  | removePrefix n => trivial
  | removeHead => trivial
  | clear => trivial
  | add g =>
      intro hreach
      have hfresh : sb.timestamps.get? g.seq = none := by
        simp only [reachesPlace, Bool.and_eq_true, Bool.not_eq_true'] at hreach
        exact Option.not_isSome_iff_eq_none.mp (by simp [hreach.1.1.1.1])
      obtain ⟨xs, ys, hbs, hsplit⟩ := exists_split g.seq sb.buffers
      have hright : ∀ r ∈ ys.head?, ∃ k, (sb.timestamps.get? k).isSome
          ∧ g.seq + g.data.length ≤ k ∧ k ≤ r.seq := by
        intro r hr
        apply h.right_entry hno hfresh _ (hsplit.right r hr)
        rw [hbs]
        exact List.mem_append_right _ (List.mem_of_head? hr)
      refine ⟨(safeAdd_iff h.dated.fits hsplit hbs).mpr ⟨?_, ?_⟩, ?_⟩
      · intro l hl
        have hmem := List.mem_of_getLast? hl
        apply h.left_ends hno hfresh _ (hsplit.left l hmem)
        rw [hbs]
        exact List.mem_append_left _ hmem
      · intro r hr
        obtain ⟨k, -, h1, h2⟩ := hright r hr
        omega
      · -- The entry found for the right neighbour is not before the one behind `g`.
        intro r hr _ e he
        rw [findRight_snd hsplit hbs] at hr
        obtain ⟨k, hsome, h1, h2⟩ := hright r hr
        have hle := (SortedMap.floor_eq_some he).2.2 k hsome h2
        rw [Buffer.rightBoundary_eq g.fits]
        exact h1.trans hle

theorem timed_new (capacity : ℤ) : Timed [] (new capacity).buffers (new capacity).timestamps :=
  ⟨dated_nil, fun k t hk => by simp [new] at hk, by simp [new]⟩

/-- Runs of segments without partial overlaps keep every buffer dated. -/
theorem run_keepsDated (capacity : ℤ) {ops : List StreamOp} {sb : StreamBuffer}
    (hrun : Run step (fun sb op => sb.Allowed op ∧ HasRoom sb op) (new capacity) ops sb)
    (hno : Unoverlapped ops) :
    Run step (fun sb op => sb.Allowed op ∧ HasRoom sb op ∧ KeepsDated sb op) (new capacity) ops sb
      ∧ Timed ops sb.buffers sb.timestamps := by
  induction hrun with
  | nil => exact ⟨.nil, timed_new capacity⟩
  | @snoc ops sb sb' op _ allowed stepped ih =>
      obtain ⟨hrun, htimed⟩ := ih hno.init
      have hkeep := htimed.keepsDated hno
      exact ⟨hrun.snoc ⟨allowed.1, allowed.2, hkeep⟩ stepped,
        step_timed stepped hkeep allowed.2 htimed⟩

/-- The entry found for the first byte of a dated buffer. -/
theorem Timed.find_head {ops : List StreamOp} {sb : StreamBuffer}
    (h : Timed ops sb.buffers sb.timestamps) (hne : sb.buffers ≠ []) :
    ∃ g, AddedIn ops g ∧ sb.timestamps.floor sb.position0 = some (g.seq, g.ts) := by
  obtain ⟨b, hb, hpos⟩ := position0_mem hne
  obtain ⟨j, -, hj, hsome⟩ := h.dated.own b hb
  rw [← hpos] at hj
  obtain ⟨k, t, hfloor⟩ := SortedMap.floor_isSome hsome hj
  obtain ⟨g, hg, rfl, rfl⟩ := h.traced k t (SortedMap.floor_eq_some hfloor).1
  exact ⟨g, hg, hfloor⟩

/-- **The head has a timestamp.** In every run that keeps the buffers dated and within
the limit of the map, the first byte of a non-empty buffer has a timestamp: that of
an added segment, with the greatest recorded start not behind it. When the added
segments overlap nowhere in part, it is the segment that brought this byte, and no
later added start precedes the byte. -/
theorem run_head_timestamp (capacity : ℤ) {ops : List StreamOp} {sb : StreamBuffer}
    (hrun : Run step (fun sb op => sb.Allowed op ∧ HasRoom sb op ∧ KeepsDated sb op)
      (new capacity) ops sb) (hne : sb.buffers ≠ []) :
    ∃ g, AddedIn ops g ∧ sb.findTimestampBySeq sb.position0 = some g.ts
      ∧ g.seq ≤ sb.position0
      ∧ (∀ j, (sb.timestamps.get? j).isSome → j ≤ sb.position0 → j ≤ g.seq)
      ∧ (Unoverlapped ops → sb.position0 < g.seq + g.data.length
        ∧ ∀ k, AddedIn ops k → k.seq ≤ sb.position0 → k.seq ≤ g.seq) := by
  have htimed : Timed ops sb.buffers sb.timestamps := by
    refine Run.history (I := fun ops sb => Timed ops sb.buffers sb.timestamps)
      (timed_new capacity) ?_ hrun
    intro ops s op s' hs hop hstep
    exact step_timed hstep hop.2.2 hop.2.1 hs
  obtain ⟨g, hg, hfloor⟩ := htimed.find_head hne
  obtain ⟨hget, hle, hgreatest⟩ := SortedMap.floor_eq_some hfloor
  refine ⟨g, hg, by rw [findTimestampBySeq, hfloor]; rfl, hle, hgreatest, ?_⟩
  intro hno
  -- The segment that brought the first byte has an entry, at or before that of `g`.
  obtain ⟨b, hb, hpos⟩ := position0_mem hne
  have hbpos := (htimed.dated.fits b hb).length_pos
  obtain ⟨k, hk, hkget, hk1, hk2, -⟩ :=
    htimed.sourced hno b hb sb.position0 hpos.ge (by omega)
  have hkg := hgreatest k.seq (by rw [hkget]; rfl) hk1
  have hshare : ∀ x, AddedIn ops x → k.seq ≤ x.seq → x.seq ≤ sb.position0 →
      x.seq = k.seq ∧ x.data.length = k.data.length := by
    intro x hx h1 h2
    have hxpos := x.length_pos
    have hbeside := hno x k hx hk
    rw [beside_buffer_iff] at hbeside
    omega
  obtain ⟨hseq, hlen⟩ := hshare g hg hkg hle
  refine ⟨by omega, ?_⟩
  intro x hx hx1
  by_contra hlt
  have := (hshare x hx (by omega) hx1).1
  omega

instance (sb : StreamBuffer) : ∀ op, Decidable (HasRoom sb op)
  | .add g => inferInstanceAs (Decidable (sb.reachesPlace g.seq = true → _))
  | .removePrefix _ => inferInstanceAs (Decidable True)
  | .removeHead => inferInstanceAs (Decidable True)
  | .clear => inferInstanceAs (Decidable True)

instance (sb : StreamBuffer) : ∀ op, Decidable (KeepsDated sb op)
  | .add g => inferInstanceAs (Decidable (sb.reachesPlace g.seq = true → (_ ∧ _) ∧
      ∀ r ∈ (sb.findRightBufferBySeq g.seq).2, r.canFuseAsRight g.seq g.data.length = false →
        ∀ e ∈ sb.timestamps.floor r.seq, g.buffer.rightBoundary ≤ e.1))
  | .removePrefix _ => inferInstanceAs (Decidable True)
  | .removeHead => inferInstanceAs (Decidable True)
  | .clear => inferInstanceAs (Decidable True)

/-- Three segments in a row, of which the last closes the gap, and a removal that ends
inside it: the head is byte 7, which came with `sampleMiddle`. -/
theorem run_head_timestamp_sample : ∃ g,
    AddedIn [.add sampleHead, .add sampleLast, .add sampleMiddle, .removePrefix 6] g
      ∧ findTimestampBySeq ⟨[⟨[7, 8, 9, 10], 7⟩], 1000, ⟨[(1, 2), (6, 4), (9, 5)], by decide⟩⟩ 7
        = some g.ts
      ∧ 7 < g.seq + g.data.length := by
  have hrun : Run step (fun sb op => sb.Allowed op ∧ HasRoom sb op ∧ KeepsDated sb op) (new 1000)
      [.add sampleHead, .add sampleLast, .add sampleMiddle, .removePrefix 6]
      ⟨[⟨[7, 8, 9, 10], 7⟩], 1000, ⟨[(1, 2), (6, 4), (9, 5)], by decide⟩⟩ :=
    Run.of_exec (by decide)
  have hno : Unoverlapped
      [.add sampleHead, .add sampleLast, .add sampleMiddle, .removePrefix 6] := by
    intro g k hg hk
    simp only [AddedIn, List.mem_cons, StreamOp.add.injEq, List.not_mem_nil, or_false,
      reduceCtorEq] at hg hk
    rcases hg with rfl | rfl | rfl <;> rcases hk with rfl | rfl | rfl <;>
      simp [Beside, Segment.buffer, sampleHead, sampleLast, sampleMiddle]
  obtain ⟨g, hg, hfind, -, -, hcover⟩ := run_head_timestamp 1000 hrun (by decide)
  exact ⟨g, hg, hfind, (hcover hno).1⟩

/-! ## Above the limit -/

theorem run_addAll {capacity : ℤ} {ops : List StreamOp} {sb sb' : StreamBuffer}
    {segs : List Segment} (hrun : Run step Allowed (new capacity) ops sb)
    (h : addAll sb segs = .ok sb') :
    Run step Allowed (new capacity) (ops ++ segs.map .add) sb' := by
  induction segs generalizing ops sb with
  | nil =>
      cases h
      simpa using hrun
  | cons g segs ih =>
      unfold addAll at h
      rw [List.foldlM_cons] at h
      obtain ⟨sb₁, hstep, hrest⟩ := bind_eq_ok.mp h
      have hnext := ih (hrun.snoc (show sb.Allowed (.add g) from trivial) hstep) hrest
      simpa using hnext

/-- Above the limit the least start goes first. -/
theorem cleanOldTimestamps_least {sb : StreamBuffer} {k : ℕ}
    (hsize : maxTimestampEntries < sb.timestamps.size) (hk : (sb.timestamps.get? k).isSome)
    (hleast : ∀ j, (sb.timestamps.get? j).isSome → k ≤ j) :
    sb.cleanOldTimestamps.findTimestampBySeq k = none := by
  have hpos : 0 < sb.timestamps.size / 2 := by
    unfold maxTimestampEntries at hsize
    omega
  unfold findTimestampBySeq cleanOldTimestamps
  rw [if_neg (not_le.mpr hsize), Option.map_eq_none_iff]
  dsimp only
  by_contra hsome
  obtain ⟨⟨j, t⟩, hfloor⟩ := Option.ne_none_iff_exists'.mp hsome
  obtain ⟨hget, hle, -⟩ := SortedMap.floor_eq_some hfloor
  rw [SortedMap.get?_removeAll] at hget
  split_ifs at hget with hmem
  -- The entry found is not above `k`, so it is the one that was removed.
  have hkj := hleast j (by rw [hget]; rfl)
  rw [show j = k by omega] at hmem
  exact hmem (SortedMap.mem_take_keys hk hleast hpos)

/-- The single byte at position `i` of a stream. -/
def byteAt (i : ℕ) : Segment :=
  ⟨i % 2 ^ 32, [0], 0, by decide, by
    have := Nat.mod_lt i (show 0 < 2 ^ 32 by decide)
    simp only [List.length_singleton]
    omega⟩

theorem byteAt_seq {i : ℕ} (h : i < 2 ^ 32) : (byteAt i).seq = i := Nat.mod_eq_of_lt h

theorem bytes_scattered : Scattered (1024 * 1024) 0 100000 ((List.range 100000).map byteAt) where
  few := by simp [maxTimestampEntries]
  beside := by
    rw [List.pairwise_map]
    refine List.Pairwise.imp_of_mem ?_ List.pairwise_lt_range
    intro i j hi hj hij
    rw [List.mem_range] at hi hj
    rw [beside_buffer_iff, byteAt_seq (by omega), byteAt_seq (by omega)]
    exact Or.inr hij
  window := by
    intro g hg
    obtain ⟨i, hi, rfl⟩ := List.mem_map.mp hg
    rw [List.mem_range] at hi
    rw [byteAt_seq (by omega)]
    refine ⟨Nat.zero_le _, ?_⟩
    simp only [byteAt, List.length_singleton]
    omega
  narrow := by decide
  fitsCapacity := by decide

/-- With a segment at position 0, the buffer starts there. -/
theorem Assembled.position0_eq_zero {capacity : ℤ} {done : List Segment} {sb : StreamBuffer}
    (h : Assembled capacity done sb) {g : Segment} (hg : g ∈ done) (hseq : g.seq = 0) :
    sb.buffers ≠ [] ∧ sb.position0 = 0 := by
  obtain ⟨a, ha⟩ :=
    exists_holds (x := (g.seq, g.data)) le_rfl (Nat.lt_add_of_pos_right g.length_pos)
  obtain ⟨x, hx, hold⟩ := (h.bytes g.seq a).mpr ⟨g, hg, ha⟩
  obtain ⟨b, hb, rfl⟩ := List.mem_map.mp hx
  have hb0 : b.seq = 0 := by
    have := hold.lt.1
    simp only [Buffer.piece] at this
    omega
  have hne : sb.buffers ≠ [] := List.ne_nil_of_mem hb
  refine ⟨hne, ?_⟩
  have hapart := h.apart
  unfold position0
  cases hbs : sb.buffers with
  | nil => rfl
  | cons c rest =>
      rw [hbs] at hb hapart
      rcases List.mem_cons.mp hb with rfl | hb
      · exact hb0
      · -- A buffer before `b` would have to end before position 0.
        have := (List.pairwise_cons.mp hapart).1 b hb
        omega

/-- **The limit of the map takes the timestamp of the head.** After 100001 single bytes in
order, all of them buffered, the first one has no timestamp any more. -/
theorem timestamps_drop_head : ∃ sb,
    Run step Allowed (new (1024 * 1024)) ((List.range 100001).map (fun i => .add (byteAt i))) sb
      ∧ sb.buffers ≠ [] ∧ sb.findTimestampBySeq sb.position0 = none := by
  have hlast : (byteAt 100000).seq = 100000 := byteAt_seq (by decide)
  obtain ⟨sb, hall, hasm⟩ :=
    addAll_assembled (assembled_new (1024 * 1024)) (by rw [List.nil_append]; exact bytes_scattered)
  rw [List.nil_append] at hasm
  have hzero : byteAt 0 ∈ (List.range 100000).map byteAt :=
    List.mem_map_of_mem (List.mem_range.mpr (by decide))
  have hbeside : ∀ k ∈ (List.range 100000).map byteAt,
      Beside k.seq k.data (byteAt 100000).buffer := by
    intro k hk
    have hwin := (bytes_scattered.window k hk).2
    rw [beside_buffer_iff, hlast]
    omega
  have hwin : ∀ k ∈ (List.range 100000).map byteAt ++ [byteAt 100000],
      0 ≤ k.seq ∧ k.seq + k.data.length ≤ 0 + 100001 := by
    intro k hk
    refine ⟨Nat.zero_le _, ?_⟩
    rcases List.mem_append.mp hk with hk | hk
    · have := (bytes_scattered.window k hk).2
      omega
    · rw [List.mem_singleton.mp hk, hlast]
      decide
  obtain ⟨sb', h', hstep⟩ := add_joined hasm hbeside hwin (by decide) (by decide)
  -- The last byte does not meet an empty buffer, so the cleaner runs over 100001 entries.
  have hstep' : sb.step (.add (byteAt 100000)) = .ok sb'.cleanOldTimestamps :=
    hstep.resolve_left (fun hc => (hasm.position0_eq_zero hzero rfl).1 hc.1)
  obtain ⟨hne, hpos⟩ := h'.position0_eq_zero (List.mem_append_left _ hzero) rfl
  refine ⟨sb'.cleanOldTimestamps, ?_, ?_, ?_⟩
  · have hallowed : sb.Allowed (.add (byteAt 100000)) := trivial
    have hrun := (run_addAll Run.nil hall).snoc hallowed hstep'
    rw [List.nil_append, List.map_map] at hrun
    rw [List.range_succ, List.map_append]
    exact hrun
  · rw [cleanOldTimestamps_buffers]
    exact hne
  · have hpos' : sb'.cleanOldTimestamps.position0 = 0 := by
      unfold position0 at hpos ⊢
      rw [cleanOldTimestamps_buffers]
      exact hpos
    rw [hpos']
    refine cleanOldTimestamps_least ?_ ?_ (fun j _ => Nat.zero_le j)
    · rw [h'.size]
      simp [maxTimestampEntries]
    · rw [(h'.times 0 0).mpr ⟨byteAt 0, List.mem_append_left _ hzero, rfl, rfl⟩]
      rfl

end StreamBuffer

end Kyanos
