/-
Runs of a `StreamBuffer`: what survives every interleaving of `Add`,
`RemovePrefix`, `RemoveHead` and `Clear`.

Three properties of a whole run are settled here.

* *Faithfulness*: when the segments are cut from one byte stream, every buffer
  holds the stream's own bytes, and no operation panics. It needs nothing of the
  list as a whole, so it also holds in states whose buffers overlap.
* *Disjointness*: the buffers are in order and share no position. `Add` does not
  ensure this by itself. A segment that ends strictly inside its left neighbour,
  or that reaches beyond the end of its right neighbour, meets neither fuse
  predicate and is stored beside the buffer it overlaps. `SafeAdd` is the absence
  of the two cases, and runs of safe adds keep the buffers disjoint.
* *No loss*: a segment that is not discarded is covered afterwards, except that a
  segment whose start is already in the timestamp map is dropped whole.

The first two go through the rules of `StreamBuffer.lean`: a property of single
buffers is kept by a step as soon as it is closed under the fuses and under
trimming (`Closed.step`).
-/
import Kyanos.StreamBuffer

set_option autoImplicit false

open GoNum Pieces Trace

namespace Kyanos

/-- A segment as it is captured: at least one byte, and no wrap of its end. -/
structure Segment where
  seq : ℕ
  data : List UInt8
  ts : ℕ
  nonempty : data ≠ []
  noWrap : seq + data.length < 2 ^ 64

/-- The buffer a segment makes on its own. -/
def Segment.buffer (g : Segment) : Buffer := ⟨g.data, g.seq⟩

theorem Segment.fits (g : Segment) : g.buffer.Fits := ⟨g.nonempty, g.noWrap⟩

theorem Segment.length_pos (g : Segment) : 0 < g.data.length := List.length_pos_iff.mpr g.nonempty

/-- The operations a connection performs on its stream buffers. -/
inductive StreamOp
  | add (g : Segment)
  | removePrefix (n : ℕ)
  | removeHead
  | clear

namespace StreamBuffer

def step (sb : StreamBuffer) : StreamOp → Except Panic StreamBuffer
  | .add g => (sb.add g.seq g.data g.ts).map Prod.snd
  | .removePrefix n => sb.removePrefix n
  | .removeHead => sb.removeHead
  | .clear => .ok sb.clear

/-- What the callers of a removal see to: there is as much to remove. -/
def Allowed (sb : StreamBuffer) : StreamOp → Prop
  | .add _ => True
  | .removePrefix n => n ≤ totalBytes sb.buffers
  | .removeHead => sb.buffers ≠ []
  | .clear => True

instance (sb : StreamBuffer) : ∀ op, Decidable (sb.Allowed op)
  | .add _ => inferInstanceAs (Decidable True)
  | .removePrefix n => inferInstanceAs (Decidable (n ≤ totalBytes sb.buffers))
  | .removeHead => inferInstanceAs (Decidable (sb.buffers ≠ []))
  | .clear => inferInstanceAs (Decidable True)

/-! ## Properties of single buffers -/

/-- A property of buffers that the fuses and the trimming of the head keep. -/
structure Closed (P : Buffer → Prop) : Prop where
  extend : ∀ {seq : ℕ} {data : List UInt8} {l : Buffer}, P l → P ⟨data, seq⟩ →
    FusesLeft seq data l → P (l.extend seq data)
  prepend : ∀ {seq : ℕ} {data : List UInt8} {r : Buffer}, P r → P ⟨data, seq⟩ →
    FusesRight seq data r → P (r.prepend seq data)
  trim : ∀ {b : Buffer} {k : ℕ}, P b → k < b.buf.length → P (trimHead b k)

/-- The left neighbour, once extended, is itself a segment that fuses onto the
right one. -/
theorem fusesRight_extend {seq : ℕ} {data : List UInt8} {l r : Buffer}
    (hl : FusesLeft seq data l) (hr : FusesRight seq data r) :
    FusesRight l.seq (l.extend seq data).buf r := by
  have hlen := Buffer.length_extend hl.2.1 hl.2.2
  obtain ⟨hl1, hl2, hl3⟩ := hl
  obtain ⟨hr1, hr2, hr3⟩ := hr
  exact ⟨by omega, by omega, by omega⟩

theorem Closed.placed {P : Buffer → Prop} (hP : Closed P) {seq : ℕ} {data : List UInt8}
    {bs bs' : List Buffer} (h : Placed seq data bs bs') (hnew : P ⟨data, seq⟩)
    (hbs : ∀ b ∈ bs, P b) : ∀ b ∈ bs', P b := by
  -- Every shape replaces some buffers by one; the others are untouched.
  have hmid : ∀ (xs ys : List Buffer) (m : Buffer), (∀ b ∈ xs, P b) → P m → (∀ b ∈ ys, P b) →
      ∀ b ∈ xs ++ m :: ys, P b := by
    intro xs ys m hxs hm hys b hb
    rcases List.mem_append.mp hb with hb | hb
    · exact hxs b hb
    · rcases List.mem_cons.mp hb with rfl | hb
      · exact hm
      · exact hys b hb
  cases h with
  | insert xs ys _ _ _ =>
      exact hmid xs ys _ (fun b hb => hbs b (by simp [hb])) hnew (fun b hb => hbs b (by simp [hb]))
  | extendLeft xs l ys _ hl _ =>
      exact hmid xs ys _ (fun b hb => hbs b (by simp [hb])) (hP.extend (hbs l (by simp)) hnew hl)
        (fun b hb => hbs b (by simp [hb]))
  | extendRight xs r ys _ _ hr =>
      exact hmid xs ys _ (fun b hb => hbs b (by simp [hb])) (hP.prepend (hbs r (by simp)) hnew hr)
        (fun b hb => hbs b (by simp [hb]))
  | bridge xs l r ys _ hl hr =>
      have hext : P (l.extend seq data) := hP.extend (hbs l (by simp)) hnew hl
      exact hmid xs ys _ (fun b hb => hbs b (by simp [hb]))
        (hP.prepend (hbs r (by simp)) hext (fusesRight_extend hl hr))
        (fun b hb => hbs b (by simp [hb]))

theorem shrink_subset (sb : StreamBuffer) :
    ∀ b ∈ sb.shrinkBufferUntilSizeBelowCapacity.buffers, b ∈ sb.buffers := by
  intro b hb
  rcases shrink_cases sb with h | ⟨dropped, last, kept, hbs, h⟩
  · rwa [h] at hb
  · rw [h] at hb
    rw [hbs]
    simp [hb]

theorem Closed.added {P : Buffer → Prop} (hP : Closed P) {sb sb' : StreamBuffer} {seq : ℕ}
    {data : List UInt8} {ts : ℕ} {r : Bool} (h : Added sb seq data ts r sb')
    (hnew : P ⟨data, seq⟩) (hbs : ∀ b ∈ sb.buffers, P b) : ∀ b ∈ sb'.buffers, P b := by
  cases h with
  | duplicate => exact hbs
  | ignored => exact hbs
  | first => simpa [restarted] using hnew
  | reset => simpa [restarted] using hnew
  | placed _ _ _ hshape =>
      intro b hb
      rw [cleanOldTimestamps_buffers] at hb
      exact hP.placed hshape hnew hbs b (shrink_subset _ b hb)

theorem Closed.removePrefix {P : Buffer → Prop} (hP : Closed P) {sb sb' : StreamBuffer} {n : ℤ}
    (h : sb.removePrefix n = .ok sb') (hbs : ∀ b ∈ sb.buffers, P b) :
    ∀ b ∈ sb'.buffers, P b := by
  apply removePrefix_invariant (I := fun bs _ => ∀ b ∈ bs, P b) _ _ hbs h
  · intro b bs _ hinv c hc
    exact hinv c (List.mem_cons_of_mem _ hc)
  · intro b bs _ k _ hk hinv c hc
    rcases List.mem_cons.mp hc with rfl | hc
    · exact hP.trim (hinv b List.mem_cons_self) hk
    · exact hinv c (List.mem_cons_of_mem _ hc)

/-- The inversion of a step that adds a segment. -/
theorem step_add {sb sb' : StreamBuffer} {g : Segment} (hfits : ∀ b ∈ sb.buffers, b.Fits)
    (h : sb.step (.add g) = .ok sb') : ∃ r, Added sb g.seq g.data g.ts r sb' := by
  obtain ⟨r, sb₁, heq, hadded⟩ := add_added g.ts hfits g.noWrap
  rw [step, heq] at h
  cases h
  exact ⟨r, hadded⟩

/-- `RemoveHead` is a removal of the first buffer's length. -/
theorem step_removeHead {sb sb' : StreamBuffer} (h : sb.step .removeHead = .ok sb') :
    ∃ n : ℕ, sb.removePrefix n = .ok sb' := by
  rw [step, removeHead] at h
  cases hhead : sb.head with
  | none =>
      rw [hhead] at h
      cases h
  | some b =>
      rw [hhead] at h
      exact ⟨b.len, h⟩

/-- **One step keeps a closed property of the buffers.** -/
theorem Closed.step {P : Buffer → Prop} (hP : Closed P) (hfit : ∀ b, P b → b.Fits)
    {sb sb' : StreamBuffer} {op : StreamOp} (hnew : ∀ g, op = .add g → P g.buffer)
    (h : sb.step op = .ok sb') (hbs : ∀ b ∈ sb.buffers, P b) : ∀ b ∈ sb'.buffers, P b := by
  cases op with
  | add g =>
      obtain ⟨r, hadded⟩ := step_add (fun b hb => hfit b (hbs b hb)) h
      exact hP.added hadded (hnew g rfl) hbs
  | removePrefix n => exact hP.removePrefix h hbs
  | removeHead =>
      obtain ⟨n, hn⟩ := step_removeHead h
      exact hP.removePrefix hn hbs
  | clear =>
      cases h
      simp [clear]

/-! ## No wrap, no panic -/

theorem trimHead_eq {b : Buffer} {k : ℕ} (hb : b.Fits) (hk : k < b.buf.length) :
    trimHead b k = ⟨b.buf.drop k, b.seq + k⟩ := by
  have := hb.noWrap
  rw [trimHead, u64_of_lt (by omega)]

theorem closed_fits : Closed Buffer.Fits where
  extend hl hnew hf := fits_extend hl hnew.noWrap hf
  prepend := by
    intro seq data r hr hnew hf
    have hlen := Buffer.length_prepend hf.1 hf.2.1
    refine ⟨by simp [Buffer.prepend, hr.nonempty], ?_⟩
    have := hr.noWrap
    rw [Buffer.prepend_seq]
    omega
  trim := by
    intro b k hb hk
    have := hb.noWrap
    rw [trimHead_eq hb hk]
    refine ⟨?_, ?_⟩
    · rw [← List.length_pos_iff, List.length_drop]
      omega
    · dsimp only
      rw [List.length_drop]
      omega

theorem step_fits {sb sb' : StreamBuffer} {op : StreamOp} (h : sb.step op = .ok sb')
    (hbs : ∀ b ∈ sb.buffers, b.Fits) : ∀ b ∈ sb'.buffers, b.Fits :=
  closed_fits.step (fun _ hb => hb) (fun g _ => g.fits) h hbs

theorem removePrefix_ok {sb : StreamBuffer} {n : ℕ} (hn : n ≤ totalBytes sb.buffers) :
    ∃ sb', sb.removePrefix n = .ok sb' := by
  rw [StreamBuffer.removePrefix]
  split_ifs with hempty
  · exact ⟨sb, rfl⟩
  · obtain ⟨bs', m', hloop, -⟩ :=
      removePrefixLoop_ok sb.timestamps (Int.natCast_nonneg n) (Int.ofNat_le.mpr hn)
    rw [hloop]
    exact ⟨_, rfl⟩

/-- On buffers that do not wrap, an allowed operation does not panic. -/
theorem step_ok {sb : StreamBuffer} {op : StreamOp} (hbs : ∀ b ∈ sb.buffers, b.Fits)
    (hop : sb.Allowed op) : ∃ sb', sb.step op = .ok sb' := by
  cases op with
  | add g =>
      obtain ⟨r, sb', heq, -⟩ := add_added g.ts hbs g.noWrap
      exact ⟨sb', by rw [step, heq]; rfl⟩
  | removePrefix n => exact removePrefix_ok hop
  | removeHead =>
      rw [step, removeHead]
      cases hcs : sb.buffers with
      | nil => exact absurd hcs hop
      | cons b rest =>
          rw [head, hcs]
          apply removePrefix_ok
          rw [hcs, totalBytes_cons, Buffer.len]
          exact Nat.le_add_right _ _
  | clear => exact ⟨sb.clear, rfl⟩

/-! ## Faithfulness -/

/-- The buffer holds the bytes of the stream `S` at its positions. -/
def Faithful (S : ℕ → UInt8) (b : Buffer) : Prop := b.buf = cut S b.seq b.buf.length

theorem closed_faithful (S : ℕ → UInt8) : Closed (fun b => b.Fits ∧ Faithful S b) where
  extend := by
    intro seq data l hl hnew hf
    refine ⟨closed_fits.extend hl.1 hnew.1 hf, ?_⟩
    obtain ⟨h1, h2, h3⟩ := hf
    have hdata : data = cut S seq data.length := hnew.2
    -- What is appended is the stream from the end of the buffer on.
    have hdrop : data.drop (l.seq + l.buf.length - seq)
        = cut S (l.seq + l.buf.length) (seq + data.length - (l.seq + l.buf.length)) := by
      conv_lhs => rw [hdata, drop_cut]
      congr 1 <;> omega
    have hlen := Buffer.length_extend h2 h3
    have hl' : l.buf = cut S l.seq l.buf.length := hl.2
    rw [Faithful, Buffer.extend_seq]
    rw [show (l.extend seq data).buf.length
      = l.buf.length + (seq + data.length - (l.seq + l.buf.length)) by omega,
      ← cut_append, ← hl', ← hdrop, Buffer.extend]
  prepend := by
    intro seq data r hr hnew hf
    refine ⟨closed_fits.prepend hr.1 hnew.1 hf, ?_⟩
    obtain ⟨h1, h2, h3⟩ := hf
    have hdata : data = cut S seq data.length := hnew.2
    -- What is put in front is the stream up to the start of the buffer.
    have htake : data.take (r.seq - seq) = cut S seq (r.seq - seq) := by
      conv_lhs => rw [hdata, take_cut]
      congr 1
      omega
    have hlen := Buffer.length_prepend h1 h2
    have hr' : r.buf = cut S r.seq r.buf.length := hr.2
    rw [Faithful, Buffer.prepend_seq]
    rw [show (r.prepend seq data).buf.length = (r.seq - seq) + r.buf.length by omega,
      ← cut_append, show seq + (r.seq - seq) = r.seq by omega, ← hr', ← htake, Buffer.prepend]
  trim := by
    intro b k hb hk
    refine ⟨closed_fits.trim hb.1 hk, ?_⟩
    have hb' : b.buf = cut S b.seq b.buf.length := hb.2
    rw [Faithful, trimHead_eq hb.1 hk]
    dsimp only
    conv_lhs => rw [hb', drop_cut]
    rw [List.length_drop]

/-- The segments of the run are cut from the stream `S`. -/
def CutFrom (S : ℕ → UInt8) : StreamOp → Prop
  | .add g => Faithful S g.buffer
  | _ => True

instance (S : ℕ → UInt8) : ∀ op, Decidable (CutFrom S op)
  | .add g => inferInstanceAs (Decidable (g.buffer.buf = _))
  | .removePrefix _ => inferInstanceAs (Decidable True)
  | .removeHead => inferInstanceAs (Decidable True)
  | .clear => inferInstanceAs (Decidable True)

/-- **Reassembly is faithful.** In every state a run reaches, every buffer holds
the true bytes of the stream, and no allowed operation on it panics: the fuses
never meet a segment that does not touch the buffer. -/
theorem run_faithful (S : ℕ → UInt8) (capacity : ℤ) {ops : List StreamOp} {sb : StreamBuffer}
    (hrun : Run step (fun sb op => sb.Allowed op ∧ CutFrom S op) (new capacity) ops sb) :
    (∀ b ∈ sb.buffers, b.buf = cut S b.seq b.buf.length)
      ∧ ∀ op, sb.Allowed op → CutFrom S op → ∃ sb', sb.step op = .ok sb' := by
  have hinv : ∀ b ∈ sb.buffers, b.Fits ∧ Faithful S b := by
    refine Run.invariant (I := fun sb => ∀ b ∈ sb.buffers, b.Fits ∧ Faithful S b) ?_ ?_ hrun
    · simp [new]
    · intro s op s' hs hop hstep
      refine (closed_faithful S).step (fun _ hb => hb.1) ?_ hstep hs
      rintro g rfl
      exact ⟨g.fits, hop.2⟩
  refine ⟨fun b hb => (hinv b hb).2, ?_⟩
  intro op hop _
  exact step_ok (fun b hb => (hinv b hb).1) hop

/-- Bytes 1 to 5 of the stream whose byte at position `p` is `p`. -/
def sampleHead : Segment := ⟨1, [1, 2, 3, 4, 5], 2, by decide, by decide⟩

/-- Bytes 3 to 7 of the same stream: its first three overlap `sampleHead`. -/
def sampleTail : Segment := ⟨3, [3, 4, 5, 6, 7], 3, by decide, by decide⟩

/-- Two overlapping segments and a removal that ends inside the second. -/
theorem run_faithful_sample : (⟨[5, 6, 7], 5⟩ : Buffer).buf = cut UInt8.ofNat 5 3 := by
  have hrun : Run step (fun sb op => sb.Allowed op ∧ CutFrom UInt8.ofNat op) (new 1000)
      [.add sampleHead, .add sampleTail, .removePrefix 4]
      ⟨[⟨[5, 6, 7], 5⟩], 1000, ⟨[(1, 2), (3, 3)], by decide⟩⟩ := Run.of_exec (by decide)
  exact (run_faithful UInt8.ofNat 1000 hrun).1 ⟨[5, 6, 7], 5⟩ List.mem_cons_self

/-! ## Disjointness -/

/-- The list is in order and no position is in two of its buffers. -/
def Disjoint (bs : List Buffer) : Prop :=
  bs.Pairwise (fun a b => a.leftBoundary < b.leftBoundary ∧ a.rightBoundary ≤ b.leftBoundary)

/-- The list is in order, with at least `k` free positions between one buffer and
the next. At `k = 0` this is disjointness over plain sums. -/
def Apart (k : ℕ) (bs : List Buffer) : Prop :=
  bs.Pairwise (fun a b => a.seq + a.buf.length + k ≤ b.seq)

theorem Apart.disjoint {bs : List Buffer} (h : Apart 0 bs) (hfits : ∀ b ∈ bs, b.Fits) :
    Disjoint bs := by
  refine List.Pairwise.imp_of_mem ?_ h
  intro a b ha _ hab
  have hpos := (hfits a ha).length_pos
  rw [Buffer.rightBoundary_eq (hfits a ha), Buffer.leftBoundary, Buffer.leftBoundary]
  exact ⟨by omega, hab⟩

/-- Neither neighbour of the segment is overlapped in a way no fuse handles: the
segment does not end before the left one does, nor after the right one. -/
def SafeAdd (sb : StreamBuffer) (g : Segment) : Prop :=
  (∀ l ∈ (sb.findLeftBufferBySeq g.seq).2, l.rightBoundary ≤ g.buffer.rightBoundary)
    ∧ ∀ r ∈ (sb.findRightBufferBySeq g.seq).2, g.buffer.rightBoundary ≤ r.rightBoundary

/-- The steps that keep the buffers apart: every operation but an `Add` that gets
as far as the fuse branches with an unsafe segment. -/
def KeepsApart (sb : StreamBuffer) : StreamOp → Prop
  | .add g => sb.reachesPlace g.seq = true → SafeAdd sb g
  | _ => True

instance (sb : StreamBuffer) : ∀ op, Decidable (KeepsApart sb op)
  | .add g => inferInstanceAs (Decidable (sb.reachesPlace g.seq = true → _ ∧ _))
  | .removePrefix _ => inferInstanceAs (Decidable True)
  | .removeHead => inferInstanceAs (Decidable True)
  | .clear => inferInstanceAs (Decidable True)

/-- `SafeAdd`, read off the split of the buffers at the segment. -/
theorem safeAdd_iff {sb : StreamBuffer} {g : Segment} (hfits : ∀ b ∈ sb.buffers, b.Fits)
    {xs ys : List Buffer} (hsplit : Split g.seq xs ys) (hbs : sb.buffers = xs ++ ys) :
    SafeAdd sb g ↔ (∀ l ∈ xs.getLast?, l.seq + l.buf.length ≤ g.seq + g.data.length)
      ∧ ∀ r ∈ ys.head?, g.seq + g.data.length ≤ r.seq + r.buf.length := by
  have hend : g.buffer.rightBoundary = g.seq + g.data.length := Buffer.rightBoundary_eq g.fits
  have hl : ∀ l ∈ xs.getLast?, l.rightBoundary = l.seq + l.buf.length := by
    intro l hl
    refine Buffer.rightBoundary_eq (hfits l ?_)
    rw [hbs]
    exact List.mem_append_left _ (List.mem_of_getLast? hl)
  have hr : ∀ r ∈ ys.head?, r.rightBoundary = r.seq + r.buf.length := by
    intro r hr
    refine Buffer.rightBoundary_eq (hfits r ?_)
    rw [hbs]
    exact List.mem_append_right _ (List.mem_of_head? hr)
  rw [SafeAdd, findLeft_eq hsplit hbs, findRight_snd hsplit hbs, hend]
  constructor
  · rintro ⟨h1, h2⟩
    exact ⟨fun l hl' => hl l hl' ▸ h1 l hl', fun r hr' => hr r hr' ▸ h2 r hr'⟩
  · rintro ⟨h1, h2⟩
    exact ⟨fun l hl' => (hl l hl').symm ▸ h1 l hl', fun r hr' => (hr r hr').symm ▸ h2 r hr'⟩

section Spaced

/-- A way to say that one buffer lies before another, from the end of the first and
the start of the second. -/
structure Spacing (R : ℕ → ℕ → Prop) : Prop where
  le : ∀ {e s : ℕ}, R e s → e ≤ s
  mono : ∀ {e e' s s' : ℕ}, e' ≤ e → s ≤ s' → R e s → R e' s'

/-- The list is in order, every buffer before the later ones in the sense of `R`. -/
def Spaced (R : ℕ → ℕ → Prop) (bs : List Buffer) : Prop :=
  bs.Pairwise (fun a b => R (a.seq + a.buf.length) b.seq)

variable {R : ℕ → ℕ → Prop}

/-- What the last buffer is before, every buffer is before. -/
theorem Spaced.left (hR : Spacing R) {xs : List Buffer} (h : Spaced R xs) {c : ℕ}
    (hlast : ∀ l ∈ xs.getLast?, R (l.seq + l.buf.length) c) :
    ∀ x ∈ xs, R (x.seq + x.buf.length) c := by
  intro x hx
  rcases List.eq_nil_or_concat xs with rfl | ⟨pre, l, rfl⟩
  · simp at hx
  · rw [List.concat_eq_append] at h hx hlast
    have hl := hlast l (by simp)
    rcases List.mem_append.mp hx with hx | hx
    · -- An earlier buffer ends before the last one starts.
      have hle := hR.le ((List.pairwise_append.mp h).2.2 x hx l (by simp))
      exact hR.mono (by omega) le_rfl hl
    · rw [List.mem_singleton.mp hx]
      exact hl

theorem Spaced.right (hR : Spacing R) {ys : List Buffer} (h : Spaced R ys) {c : ℕ}
    (hhead : ∀ r ∈ ys.head?, R c r.seq) : ∀ y ∈ ys, R c y.seq := by
  intro y hy
  cases ys with
  | nil => simp at hy
  | cons r ys =>
      have hr := hhead r rfl
      rcases List.mem_cons.mp hy with rfl | hy
      · exact hr
      · have hle := hR.le ((List.pairwise_cons.mp h).1 y hy)
        exact hR.mono le_rfl (by omega) hr

/-- Putting one buffer between two groups. -/
theorem Spaced.middle (hR : Spacing R) {xs ys : List Buffer} {m : Buffer} (hxs : Spaced R xs)
    (hys : Spaced R ys) (hl : ∀ l ∈ xs.getLast?, R (l.seq + l.buf.length) m.seq)
    (hr : ∀ r ∈ ys.head?, R (m.seq + m.buf.length) r.seq) : Spaced R (xs ++ m :: ys) := by
  have hleft := hxs.left hR hl
  have hright := hys.right hR hr
  refine List.pairwise_append.mpr ⟨hxs, List.pairwise_cons.mpr ⟨hright, hys⟩, ?_⟩
  intro x hx y hy
  rcases List.mem_cons.mp hy with rfl | hy
  · exact hleft x hx
  · have hle := hR.le (hright y hy)
    exact hR.mono le_rfl (by omega) (hleft x hx)

theorem Spaced.of_append {xs ys : List Buffer} (h : Spaced R (xs ++ ys)) :
    Spaced R xs ∧ Spaced R ys
      ∧ ∀ l ∈ xs.getLast?, ∀ r ∈ ys.head?, R (l.seq + l.buf.length) r.seq := by
  obtain ⟨hxs, hys, hcross⟩ := List.pairwise_append.mp h
  exact ⟨hxs, hys, fun l hl r hr =>
    hcross l (List.mem_of_getLast? hl) r (List.mem_of_head? hr)⟩

/-- **Placing a segment keeps the buffers spaced**, provided a neighbour that is not
fused is spaced from the segment. -/
theorem Spaced.placed (hR : Spacing R) {seq : ℕ} {data : List UInt8} {bs bs' : List Buffer}
    (h : Placed seq data bs bs') (hspaced : Spaced R bs)
    (hgapL : ∀ xs ys, bs = xs ++ ys → Split seq xs ys →
      ∀ l ∈ xs.getLast?, ¬ FusesLeft seq data l → R (l.seq + l.buf.length) seq)
    (hgapR : ∀ xs ys, bs = xs ++ ys → Split seq xs ys →
      ∀ r ∈ ys.head?, ¬ FusesRight seq data r → R (seq + data.length) r.seq) :
    Spaced R bs' := by
  cases h with
  | insert xs ys hsplit hl hr =>
      obtain ⟨hxs, hys, -⟩ := hspaced.of_append
      exact hxs.middle hR hys (fun l hl' => hgapL xs ys rfl hsplit l hl' (hl l hl'))
        (fun r hr' => hgapR xs ys rfl hsplit r hr' (hr r hr'))
  | extendLeft xs l ys hsplit hl hr =>
      have hlen := Buffer.length_extend hl.2.1 hl.2.2
      obtain ⟨hxs, hcons, hcross⟩ := hspaced.of_append
      refine hxs.middle hR (List.pairwise_cons.mp hcons).2 (fun x hx => hcross x hx l rfl) ?_
      intro r hr'
      have hgap := hgapR (xs ++ [l]) ys (by simp) hsplit r hr' (hr r hr')
      rw [Buffer.extend_seq, hlen]
      exact hgap
  | extendRight xs r ys hsplit hl hr =>
      have hlen := Buffer.length_prepend hr.1 hr.2.1
      obtain ⟨hxs, hcons, -⟩ := hspaced.of_append
      refine hxs.middle hR (List.pairwise_cons.mp hcons).2
        (fun l hl' => hgapL xs (r :: ys) rfl hsplit l hl' (hl l hl')) ?_
      intro y hy
      have hold := (List.pairwise_cons.mp hcons).1 y (List.mem_of_head? hy)
      rw [Buffer.prepend_seq, hlen]
      exact hold
  | bridge xs l r ys hsplit hl hr =>
      -- The fused buffer reaches from the start of `l` to the end of `r`.
      have hfr := fusesRight_extend hl hr
      have hlen := Buffer.length_prepend hfr.1 hfr.2.1
      obtain ⟨hxs, hcons, hcross⟩ := hspaced.of_append
      have htail := (List.pairwise_cons.mp hcons).2
      refine hxs.middle hR (List.pairwise_cons.mp htail).2 (fun x hx => hcross x hx l rfl) ?_
      intro y hy
      have hold := (List.pairwise_cons.mp htail).1 y (List.mem_of_head? hy)
      rw [bridged, Buffer.prepend_seq, hlen]
      exact hold

end Spaced

/-- A distance of `k` positions is a spacing. -/
theorem spacing_add (k : ℕ) : Spacing (fun e s => e + k ≤ s) where
  le := by
    intro e s h
    omega
  mono := by
    intro e e' s s' he hs h
    omega

theorem Apart.placed {k seq : ℕ} {data : List UInt8} {bs bs' : List Buffer}
    (h : Placed seq data bs bs') (hapart : Apart k bs)
    (hgapL : ∀ xs ys, bs = xs ++ ys → Split seq xs ys →
      ∀ l ∈ xs.getLast?, ¬ FusesLeft seq data l → l.seq + l.buf.length + k ≤ seq)
    (hgapR : ∀ xs ys, bs = xs ++ ys → Split seq xs ys →
      ∀ r ∈ ys.head?, ¬ FusesRight seq data r → seq + data.length + k ≤ r.seq) :
    Apart k bs' := Spaced.placed (spacing_add k) h hapart hgapL hgapR

/-- A safe segment is placed without an overlap. -/
theorem SafeAdd.placed {sb : StreamBuffer} {g : Segment} {bs : List Buffer} (h : SafeAdd sb g)
    (hfits : ∀ b ∈ sb.buffers, b.Fits) (hapart : Apart 0 sb.buffers)
    (hshape : Placed g.seq g.data sb.buffers bs) : Apart 0 bs := by
  refine hapart.placed hshape ?_ ?_
  · intro xs ys hbs hsplit l hl hno
    have hend := ((safeAdd_iff hfits hsplit hbs).mp h).1 l hl
    have hstart := hsplit.left l (List.mem_of_getLast? hl)
    by_contra hlt
    exact hno ⟨hstart, by omega, hend⟩
  · intro xs ys hbs hsplit r hr hno
    have hend := ((safeAdd_iff hfits hsplit hbs).mp h).2 r hr
    have hstart := hsplit.right r hr
    by_contra hlt
    exact hno ⟨by omega, by omega, hend⟩

/-- The capacity shrink leaves a final part of the list. -/
theorem shrink_suffix (sb : StreamBuffer) :
    sb.shrinkBufferUntilSizeBelowCapacity.buffers <:+ sb.buffers := by
  rcases shrink_cases sb with h | ⟨dropped, last, kept, hbs, h⟩
  · rw [h]
  · rw [h, hbs]
    exact ⟨dropped ++ [last], by simp⟩

theorem apart_singleton (k : ℕ) (b : Buffer) : Apart k [b] := List.pairwise_singleton _ _

theorem Apart.removePrefix {sb sb' : StreamBuffer} {n : ℤ} (h : sb.removePrefix n = .ok sb')
    (hfits : ∀ b ∈ sb.buffers, b.Fits) (hapart : Apart 0 sb.buffers) : Apart 0 sb'.buffers := by
  -- A trimmed head has its end where it was only if it did not wrap, so both go together.
  refine (removePrefix_invariant
    (I := fun bs _ => (∀ b ∈ bs, b.Fits) ∧ Apart 0 bs) ?_ ?_ ⟨hfits, hapart⟩ h).2
  · rintro b bs _ ⟨hf, ha⟩
    exact ⟨fun c hc => hf c (List.mem_cons_of_mem _ hc), (List.pairwise_cons.mp ha).2⟩
  · rintro b bs _ k _ hk ⟨hf, ha⟩
    have hb := hf b List.mem_cons_self
    have hlen : (b.buf.drop k).length = b.buf.length - k := List.length_drop
    refine ⟨?_, List.pairwise_cons.mpr ⟨?_, (List.pairwise_cons.mp ha).2⟩⟩
    · intro c hc
      rcases List.mem_cons.mp hc with rfl | hc
      · exact closed_fits.trim hb hk
      · exact hf c (List.mem_cons_of_mem _ hc)
    · intro c hc
      have := (List.pairwise_cons.mp ha).1 c hc
      rw [trimHead_eq hb hk]
      dsimp only
      omega

theorem step_apart {sb sb' : StreamBuffer} {op : StreamOp} (h : sb.step op = .ok sb')
    (hkeep : KeepsApart sb op) (hfits : ∀ b ∈ sb.buffers, b.Fits) (hapart : Apart 0 sb.buffers) :
    Apart 0 sb'.buffers := by
  cases op with
  | add g =>
      obtain ⟨r, hadded⟩ := step_add hfits h
      cases hadded with
      | duplicate => exact hapart
      | ignored => exact hapart
      | first => exact apart_singleton 0 _
      | reset => exact apart_singleton 0 _
      | placed _ hreach _ hshape =>
          -- The cleaners only drop buffers from the front.
          rw [cleanOldTimestamps_buffers]
          apply List.Pairwise.sublist (shrink_suffix _).sublist
          exact (hkeep hreach).placed hfits hapart hshape
  | removePrefix n => exact hapart.removePrefix h hfits
  | removeHead =>
      obtain ⟨n, hn⟩ := step_removeHead h
      exact hapart.removePrefix hn hfits
  | clear =>
      cases h
      exact List.Pairwise.nil

/-- **Runs of safe adds keep the buffers disjoint.** -/
theorem run_disjoint (capacity : ℤ) {ops : List StreamOp} {sb : StreamBuffer}
    (hrun : Run step (fun sb op => sb.Allowed op ∧ KeepsApart sb op) (new capacity) ops sb) :
    Disjoint sb.buffers := by
  have hinv : (∀ b ∈ sb.buffers, b.Fits) ∧ Apart 0 sb.buffers := by
    refine Run.invariant
      (I := fun sb => (∀ b ∈ sb.buffers, b.Fits) ∧ Apart 0 sb.buffers) ?_ ?_ hrun
    · exact ⟨by simp [new], List.Pairwise.nil⟩
    · rintro s op s' ⟨hf, ha⟩ hop hstep
      exact ⟨step_fits hstep hf, step_apart hstep hop.2 hf ha⟩
  exact hinv.2.disjoint hinv.1

/-- The overlapping pair of `run_faithful_sample` is safe: the second segment ends
after the buffer it starts in. -/
theorem run_disjoint_sample : Disjoint [⟨[5, 6, 7], 5⟩, ⟨[9], 9⟩] := by
  have hrun : Run step (fun sb op => sb.Allowed op ∧ KeepsApart sb op) (new 1000)
      [.add sampleHead, .add sampleTail, .add ⟨9, [9], 4, by decide, by decide⟩, .removePrefix 4]
      ⟨[⟨[5, 6, 7], 5⟩, ⟨[9], 9⟩], 1000, ⟨[(1, 2), (3, 3), (9, 4)], by decide⟩⟩ :=
    Run.of_exec (by decide)
  exact run_disjoint 1000 hrun

instance (bs : List Buffer) : Decidable (Disjoint bs) :=
  inferInstanceAs (Decidable (List.Pairwise _ bs))

/-- A segment inside a stored buffer is stored a second time: after bytes 1 to 5,
the single byte 3 becomes a buffer of its own. -/
theorem contained_segment_overlaps :
    Run step Allowed (new 1000)
        [.add sampleHead, .add ⟨3, [3], 3, by decide, by decide⟩]
        ⟨[⟨[1, 2, 3, 4, 5], 1⟩, ⟨[3], 3⟩], 1000, ⟨[(1, 2), (3, 3)], by decide⟩⟩
      ∧ ¬ Disjoint [⟨[1, 2, 3, 4, 5], 1⟩, ⟨[3], 3⟩] :=
  ⟨Run.of_exec (by decide), by decide⟩

/-- The two unsafe overlaps are the only ones: a segment that gets as far as the
fuse branches leaves the buffers apart exactly when it is safe. -/
theorem place_apart_iff {sb : StreamBuffer} {g : Segment} {bs : List Buffer}
    (hfits : ∀ b ∈ sb.buffers, b.Fits) (hapart : Apart 0 sb.buffers)
    (hplace : sb.place g.seq g.data = .ok bs) : Apart 0 bs ↔ SafeAdd sb g := by
  obtain ⟨bs', heq, hshape⟩ := place_placed hfits g.noWrap
  obtain rfl : bs' = bs := by
    rw [hplace] at heq
    exact (Except.ok.inj heq).symm
  constructor
  · -- From the result back to the segment: an end inside a neighbour shows in each shape.
    intro hap
    generalize hbs : sb.buffers = bs₀ at hshape
    cases hshape with
    | insert xs ys hsplit hl hr =>
        rw [safeAdd_iff hfits hsplit hbs]
        obtain ⟨-, hcons, hcross⟩ := (Spaced.of_append hap)
        refine ⟨fun l hl => ?_, fun r hr => ?_⟩
        · have := hcross l hl ⟨g.data, g.seq⟩ rfl
          dsimp only at this
          omega
        · have := (List.pairwise_cons.mp hcons).1 r (List.mem_of_head? hr)
          dsimp only at this
          omega
    | extendLeft xs l ys hsplit hl hr =>
        rw [safeAdd_iff hfits hsplit (by simpa using hbs)]
        have hlen := Buffer.length_extend hl.2.1 hl.2.2
        refine ⟨by simpa using hl.2.2, fun r hr => ?_⟩
        have := (List.pairwise_cons.mp (Spaced.of_append hap).2.1).1 r (List.mem_of_head? hr)
        rw [Buffer.extend_seq] at this
        omega
    | extendRight xs r ys hsplit hl hr =>
        rw [safeAdd_iff hfits hsplit hbs]
        refine ⟨fun l hl => ?_, by simpa using hr.2.2⟩
        have := (Spaced.of_append hap).2.2 l hl (r.prepend g.seq g.data) rfl
        rw [Buffer.prepend_seq] at this
        omega
    | bridge xs l r ys hsplit hl hr =>
        rw [safeAdd_iff hfits hsplit (by simpa using hbs)]
        exact ⟨by simpa using hl.2.2, by simpa using hr.2.2⟩
  · intro hsafe
    exact hsafe.placed hfits hapart hshape

/-! ## No loss -/

/-- Position `p` is in some buffer. -/
def Covers (sb : StreamBuffer) (p : ℕ) : Prop := ∃ b ∈ sb.buffers, b.Covers p

instance (sb : StreamBuffer) (p : ℕ) : Decidable (sb.Covers p) :=
  inferInstanceAs (Decidable (∃ b ∈ sb.buffers, b.Covers p))

/-- A placed segment is covered from its first to its last byte. -/
theorem Placed.covers {seq : ℕ} {data : List UInt8} {bs bs' : List Buffer}
    (h : Placed seq data bs bs') {p : ℕ} (hl : seq ≤ p) (hr : p < seq + data.length) :
    ∃ b ∈ bs', b.seq ≤ p ∧ p < b.seq + b.buf.length := by
  cases h with
  | insert xs ys _ _ _ => exact ⟨⟨data, seq⟩, by simp, hl, hr⟩
  | extendLeft xs l ys _ hfl _ =>
      have hlen := Buffer.length_extend hfl.2.1 hfl.2.2
      refine ⟨l.extend seq data, by simp, ?_, ?_⟩
      · exact hfl.1.trans hl
      · rw [Buffer.extend_seq]
        omega
  | extendRight xs r ys _ _ hfr =>
      have hlen := Buffer.length_prepend hfr.1 hfr.2.1
      have hend := hfr.2.2
      refine ⟨r.prepend seq data, by simp, hl, ?_⟩
      rw [Buffer.prepend_seq]
      omega
  | bridge xs l r ys _ hfl hfr =>
      have hfr' := fusesRight_extend hfl hfr
      have hlen := Buffer.length_prepend hfr'.1 hfr'.2.1
      have hend := hfr.2.2
      refine ⟨bridged seq data l r, by simp, ?_, ?_⟩
      · exact hfl.1.trans hl
      · rw [bridged, Buffer.prepend_seq]
        omega

/-- A stream buffer together with the positions that have left it so far. -/
structure Watched where
  sb : StreamBuffer
  removed : Set ℕ

/-- One operation, watched: a position that was covered and no longer is has left. -/
def Watched.step (w : Watched) (op : StreamOp) : Except Panic Watched :=
  (w.sb.step op).map fun sb' =>
    { sb := sb', removed := w.removed ∪ {p | w.sb.Covers p ∧ ¬ sb'.Covers p} }

/-- None of the three discard rules applies to a segment starting at `seq`. The
rules are consulted when the buffer is not empty and the start is new. -/
def NoDiscard (sb : StreamBuffer) (seq : ℕ) : Prop :=
  sb.timestamps.get? seq = none → sb.buffers ≠ [] →
    sb.overflows seq = false ∧ sb.tooOld seq = false ∧ sb.largeGap seq = false

/-- The segment, once placed, does not take the buffer over its capacity. -/
def NoShrink (sb : StreamBuffer) (g : Segment) : Prop :=
  sb.reachesPlace g.seq = true → ∀ bs, sb.place g.seq g.data = .ok bs →
    (sb.withPlaced bs g.seq g.ts).overCapacity = false

/-- Every position of the segment is covered, or has left the buffer earlier. -/
def Accounted (sb : StreamBuffer) (removed : Set ℕ) (g : Segment) : Prop :=
  ∀ p, g.seq ≤ p → p < g.seq + g.data.length → sb.Covers p ∨ p ∈ removed

theorem Watched.run_fits {capacity : ℤ} {pre : Watched → StreamOp → Prop} {ops : List StreamOp}
    {w : Watched} (hrun : Run Watched.step pre ⟨new capacity, ∅⟩ ops w) :
    ∀ b ∈ w.sb.buffers, b.Fits := by
  refine Run.invariant (I := fun w : Watched => ∀ b ∈ w.sb.buffers, b.Fits) ?_ ?_ hrun
  · simp [new]
  · intro w op w' hw _ hstep
    rw [Watched.step] at hstep
    cases hsb : w.sb.step op with
    | error e =>
        rw [hsb] at hstep
        cases hstep
    | ok sb' =>
        rw [hsb] at hstep
        cases hstep
        exact step_fits hsb hw

/-- The segment is stored whole when its start is new. -/
theorem accounted_of_fresh {sb sb' : StreamBuffer} {g : Segment} {r : Bool} (removed : Set ℕ)
    (hfits : ∀ b ∈ sb'.buffers, b.Fits) (hadded : Added sb g.seq g.data g.ts r sb')
    (hfresh : sb.timestamps.get? g.seq = none) (hrules : NoDiscard sb g.seq)
    (hshrink : NoShrink sb g) : Accounted sb' removed g := by
  intro p hl hr
  left
  have hself : ∀ bs, bs = [(⟨g.data, g.seq⟩ : Buffer)] → ∃ b ∈ bs, b.Covers p := by
    rintro bs rfl
    exact ⟨g.buffer, by simp [Segment.buffer], (Buffer.covers_iff g.fits).mpr ⟨hl, hr⟩⟩
  cases hadded with
  | duplicate seen => simp [hfresh] at seen
  | first => exact hself _ rfl
  | reset _ hne rule =>
      obtain ⟨h1, h2, h3⟩ := hrules hfresh hne
      simp [h1, h3] at rule
  | ignored _ hne rule =>
      obtain ⟨h1, h2, h3⟩ := hrules hfresh hne
      simp [h2] at rule
  | @placed _ hreach bs heq hshape =>
      -- Nothing is shrunk, and the other cleaner leaves the buffers alone.
      rw [shrink_of_not_overCapacity (hshrink hreach _ heq)] at hfits ⊢
      obtain ⟨b, hb, hcov⟩ := hshape.covers hl hr
      have hb' : b ∈ (sb.withPlaced bs g.seq g.ts).cleanOldTimestamps.buffers := by
        rw [cleanOldTimestamps_buffers]
        exact hb
      exact ⟨b, hb', (Buffer.covers_iff (hfits b hb')).mpr hcov⟩

/-- **What `Add` loses.** In every run, a segment that no discard rule and no
capacity shrink touches is accounted for byte by byte exactly when its start is
not in the timestamp map, or when all its positions already were accounted for
before. -/
theorem add_accounted_iff (capacity : ℤ) {ops : List StreamOp} {w : Watched}
    (hrun : Run Watched.step (fun w op => w.sb.Allowed op) ⟨new capacity, ∅⟩ ops w)
    (g : Segment) (hrules : NoDiscard w.sb g.seq) (hshrink : NoShrink w.sb g) :
    ∃ w', w.step (.add g) = .ok w'
      ∧ (Accounted w'.sb w.removed g
        ↔ w.sb.timestamps.get? g.seq = none ∨ Accounted w.sb w.removed g) := by
  have hfits := Watched.run_fits hrun
  obtain ⟨r, sb', heq, hadded⟩ := add_added g.ts hfits g.noWrap
  have hstep : w.sb.step (.add g) = .ok sb' := by rw [StreamBuffer.step, heq]; rfl
  refine ⟨_, by rw [Watched.step, hstep]; rfl, ?_⟩
  dsimp only
  by_cases hfresh : w.sb.timestamps.get? g.seq = none
  · exact ⟨fun _ => Or.inl hfresh, fun _ =>
      accounted_of_fresh w.removed (step_fits hstep hfits) hadded hfresh hrules hshrink⟩
  · -- The start is in the map: `Add` returns at once and the buffer stays as it is.
    have hsame : sb' = w.sb := by
      cases hadded with
      | duplicate => rfl
      | first hf => exact absurd hf hfresh
      | reset hf => exact absurd hf hfresh
      | ignored hf => exact absurd hf hfresh
      | placed hf => exact absurd hf hfresh
    rw [hsame]
    exact ⟨Or.inr, fun h => h.resolve_left hfresh⟩

/-- The buffer after `sampleHead` alone. -/
def sampleStart : StreamBuffer :=
  ⟨[⟨[1, 2, 3, 4, 5], 1⟩], 1000, ⟨[(1, 2)], by decide⟩⟩

theorem sampleStart_run : ∃ removed : Set ℕ,
    (∀ p, p ∉ removed)
      ∧ Run Watched.step (fun w op => w.sb.Allowed op) ⟨new 1000, ∅⟩ [.add sampleHead]
        ⟨sampleStart, removed⟩ := by
  refine ⟨_, ?_, Run.nil.snoc trivial rfl⟩
  rintro p (h | ⟨⟨b, hb, -⟩, -⟩)
  · exact h
  · simp [new] at hb

/-- A segment that starts inside the buffer and goes on beyond it is accounted for. -/
theorem add_accounted_sample : ∃ removed w',
    Watched.step ⟨sampleStart, removed⟩ (.add sampleTail) = .ok w'
      ∧ (Accounted w'.sb removed sampleTail
        ↔ sampleStart.timestamps.get? 3 = none ∨ Accounted sampleStart removed sampleTail) := by
  obtain ⟨removed, -, hrun⟩ := sampleStart_run
  have hplace : sampleStart.place sampleTail.seq sampleTail.data
      = .ok [⟨[1, 2, 3, 4, 5, 6, 7], 1⟩] := rfl
  have hrules : NoDiscard sampleStart sampleTail.seq := fun _ _ => by decide
  have hshrink : NoShrink sampleStart sampleTail := by
    intro _ bs hbs
    rw [hplace] at hbs
    cases hbs
    decide
  exact ⟨removed, add_accounted_iff 1000 hrun sampleTail hrules hshrink⟩

/-- Bytes 1 to 7: the start of `sampleHead` again, with two bytes more. -/
def sampleLonger : Segment := ⟨1, [1, 2, 3, 4, 5, 6, 7], 5, by decide, by decide⟩

/-- The longer segment is dropped for its start, and byte 6 with it. -/
theorem longer_segment_loses_tail : ∃ removed w',
    Run Watched.step (fun w op => w.sb.Allowed op) ⟨new 1000, ∅⟩ [.add sampleHead]
        ⟨sampleStart, removed⟩
      ∧ NoDiscard sampleStart sampleLonger.seq ∧ NoShrink sampleStart sampleLonger
      ∧ Watched.step ⟨sampleStart, removed⟩ (.add sampleLonger) = .ok w'
      ∧ ¬ w'.sb.Covers 6 ∧ 6 ∉ removed := by
  obtain ⟨removed, hnone, hrun⟩ := sampleStart_run
  have hrest : ¬ sampleStart.Covers 6 := by decide
  refine ⟨removed, _, hrun, fun _ _ => by decide, ?_, rfl, hrest, hnone 6⟩
  intro hreach
  exact absurd hreach (by decide)

end StreamBuffer

end Kyanos
