/-
What `RemovePrefix` takes away and how large a `StreamBuffer` gets.

`RemovePrefix(n)` walks over the buffers from the head. On every state, reachable or not, it
drops the first `n` bytes of their concatenation and leaves the others at their positions, as
long as there are `n` bytes. Past the last buffer the walk asks a `nil` head for its length: the
check for an empty list stands before the loop and not in it (`removePrefix_drops_iff`).

The second half is about two bounds: the distance from the first position to the last one, which
is to stay within the capacity, and the number of entries of the timestamp map. `Add` sees to both
at its end and not on its early returns. The first segment of an empty buffer and the one a buffer
starts over with are stored whatever their length, and the first one adds its entry to the map
whatever the size of that. A removal can break the first bound too, where buffers overlap: the
head may reach beyond the last buffer, and then the difference of the two positions wraps.
`KeepsBounds` is the absence of the three, and a run keeps the bounds just when all its calls are
so (`run_bounded_iff`).
-/
import Kyanos.StreamRuns

set_option autoImplicit false

open GoNum Trace

namespace Kyanos.StreamBuffer

/-! ## What a removal leaves -/

/-- A run of bytes with the positions they are at. -/
def positioned (p : ℕ) : List UInt8 → List (ℕ × UInt8)
  | [] => []
  | x :: xs => (u64 p, x) :: positioned (p + 1) xs

/-- The bytes of all buffers with their positions. -/
def content (bs : List Buffer) : List (ℕ × UInt8) := bs.flatMap (fun b => positioned b.seq b.buf)

@[simp] theorem content_nil : content [] = [] := rfl

@[simp] theorem content_cons (b : Buffer) (bs : List Buffer) :
    content (b :: bs) = positioned b.seq b.buf ++ content bs := rfl

@[simp] theorem length_positioned (p : ℕ) (xs : List UInt8) :
    (positioned p xs).length = xs.length := by
  induction xs generalizing p with
  | nil => rfl
  | cons x xs ih => rw [positioned, List.length_cons, ih, List.length_cons]

theorem map_snd_positioned (p : ℕ) (xs : List UInt8) : (positioned p xs).map Prod.snd = xs := by
  induction xs generalizing p with
  | nil => rfl
  | cons x xs ih => rw [positioned, List.map_cons, ih]

/-- Without the positions it is the concatenation of the buffers. -/
theorem map_snd_content (bs : List Buffer) : (content bs).map Prod.snd = bs.flatMap Buffer.buf := by
  rw [content, List.map_flatMap]
  exact List.flatMap_congr (fun b _ => map_snd_positioned b.seq b.buf)

/-- The position a run starts at counts as a 64-bit word. -/
theorem positioned_congr {p q : ℕ} (h : u64 p = u64 q) (xs : List UInt8) :
    positioned p xs = positioned q xs := by
  induction xs generalizing p q with
  | nil => rfl
  | cons x xs ih =>
      have hsucc : u64 (p + 1) = u64 (q + 1) := by
        unfold u64 at h ⊢
        omega
      rw [positioned, positioned, h, ih hsucc]

theorem drop_positioned (p k : ℕ) (xs : List UInt8) :
    (positioned p xs).drop k = positioned (p + k) (xs.drop k) := by
  induction xs generalizing p k with
  | nil => simp [positioned]
  | cons x xs ih =>
      cases k with
      | zero => rfl
      | succ k =>
          rw [positioned, List.drop_succ_cons, List.drop_succ_cons, ih]
          congr 1
          omega

/-- What is left of a trimmed head is where it was. -/
theorem positioned_trimHead (b : Buffer) (k : ℕ) :
    positioned (trimHead b k).seq (trimHead b k).buf = (positioned b.seq b.buf).drop k := by
  rw [drop_positioned]
  exact positioned_congr (Nat.mod_mod (b.seq + k) (2 ^ 64)) _

/-- The walk over the buffers, as long as there are `n` bytes. -/
theorem removePrefixLoop_content {bs : List Buffer} (m : SortedMap ℕ ℕ) {n : ℕ}
    (hn : n ≤ totalBytes bs) :
    ∃ bs' m', removePrefixLoop bs m n = .ok (bs', m') ∧ content bs' = (content bs).drop n := by
  induction bs generalizing m n with
  | nil =>
      have hz : n = 0 := Nat.le_zero.mp hn
      exact ⟨[], m, by rw [removePrefixLoop, if_pos (by omega)], by simp⟩
  | cons b bs ih =>
      rw [totalBytes_cons] at hn
      rw [removePrefixLoop, Buffer.len]
      by_cases hz : n = 0
      · rw [if_pos (by omega), hz]
        exact ⟨b :: bs, m, rfl, rfl⟩
      · rw [if_neg (by omega)]
        by_cases hlt : n < b.buf.length
        · -- The removal ends inside the head, which is trimmed.
          have htrim : b.removePrefix n = .ok (trimHead b n) := by
            rw [Buffer.removePrefix, if_pos (by rw [Buffer.len]; omega), if_neg (by omega),
              ofInt64_of_nonneg (by omega)]
            rfl
          rw [if_pos (by omega), htrim]
          refine ⟨trimHead b n :: bs, m, rfl, ?_⟩
          rw [content_cons, content_cons, positioned_trimHead,
            List.drop_append_of_le_length (by rw [length_positioned]; omega)]
        · rw [if_neg (by omega)]
          obtain ⟨bs', m', heq, hcontent⟩ :=
            ih (cleanBySeq m b.seq) (n := n - b.buf.length) (by omega)
          rw [Nat.cast_sub (by omega)] at heq
          refine ⟨bs', m', heq, ?_⟩
          have hhead : (positioned b.seq b.buf).drop n = [] := by
            rw [List.drop_eq_nil_iff, length_positioned]
            omega
          rw [hcontent, content_cons, List.drop_append, length_positioned, hhead, List.nil_append]

/-- When the bytes run out there is no head left to ask. -/
theorem removePrefixLoop_exhausted {bs : List Buffer} (m : SortedMap ℕ ℕ) {n : ℕ}
    (hn : totalBytes bs < n) : removePrefixLoop bs m n = .error .nilDereference := by
  induction bs generalizing m n with
  | nil =>
      have hpos : n ≠ 0 := Nat.ne_of_gt (lt_of_le_of_lt (Nat.zero_le _) hn)
      rw [removePrefixLoop, if_neg (by omega)]
  | cons b bs ih =>
      rw [totalBytes_cons] at hn
      rw [removePrefixLoop, Buffer.len, if_neg (by omega), if_neg (by omega),
        ← Nat.cast_sub (by omega)]
      exact ih _ (by omega)

/-- The first `n` bytes are gone, or all where there are fewer, and the others are where they
were. -/
structure Drops (sb : StreamBuffer) (n : ℕ) (sb' : StreamBuffer) : Prop where
  bytes : sb'.buffers.flatMap Buffer.buf
    = (sb.buffers.flatMap Buffer.buf).drop (min n (totalBytes sb.buffers))
  positions : content sb'.buffers = (content sb.buffers).drop (min n (totalBytes sb.buffers))

/-- The bytes follow from the bytes with their positions. -/
theorem Drops.of_content {sb sb' : StreamBuffer} {n : ℕ}
    (h : content sb'.buffers = (content sb.buffers).drop (min n (totalBytes sb.buffers))) :
    Drops sb n sb' := by
  refine ⟨?_, h⟩
  rw [← map_snd_content, ← map_snd_content, h, List.map_drop]

/-- **`RemovePrefix`.** In every state the call returns and drops just the first `n` bytes if and
only if the buffer is empty or has `n` bytes. -/
theorem removePrefix_drops_iff (sb : StreamBuffer) (n : ℕ) :
    (∃ sb', sb.removePrefix n = .ok sb' ∧ Drops sb n sb')
      ↔ sb.buffers = [] ∨ n ≤ totalBytes sb.buffers := by
  rw [StreamBuffer.removePrefix]
  by_cases hempty : sb.isEmpty = true
  · rw [if_pos hempty]
    have hnil := isEmpty_iff.mp hempty
    refine iff_of_true ⟨sb, rfl, Drops.of_content ?_⟩ (Or.inl hnil)
    rw [hnil, content_nil, List.drop_nil]
  · have hne : sb.buffers ≠ [] := fun h => hempty (isEmpty_iff.mpr h)
    rw [if_neg hempty, or_iff_right hne]
    constructor
    · rintro ⟨sb', hok, -⟩
      by_contra hmore
      rw [removePrefixLoop_exhausted sb.timestamps (not_le.mp hmore)] at hok
      cases hok
    · intro hn
      obtain ⟨bs', m', hloop, hcontent⟩ := removePrefixLoop_content sb.timestamps hn
      rw [hloop]
      refine ⟨_, rfl, Drops.of_content ?_⟩
      rw [min_eq_left hn]
      exact hcontent

/-- Five bytes are buffered, and six are to be removed. -/
theorem removePrefix_beyond_panics : ∃ sb,
    Run step (fun sb op => sb.Allowed op) (new 1000) [.add sampleHead] sb
      ∧ sb.removePrefix 6 = .error .nilDereference := by
  refine ⟨⟨[⟨[1, 2, 3, 4, 5], 1⟩], 1000, ⟨[(1, 2)], by decide⟩⟩, Run.of_exec (by decide), ?_⟩
  decide

/-! ## The calls on a buffer -/

/-- The calls the bounds are about. A segment is any run of bytes, also an empty one. -/
inductive Call
  | add (seq : ℕ) (data : List UInt8) (timestamp : ℕ)
  | removePrefix (n : ℕ)
  | clear

def perform (sb : StreamBuffer) : Call → Except Panic StreamBuffer
  | .add seq data timestamp => (sb.add seq data timestamp).map Prod.snd
  | .removePrefix n => sb.removePrefix n
  | .clear => .ok sb.clear

/-- No segment wraps, and there is as much as is removed. -/
def Sound (sb : StreamBuffer) : Call → Prop
  | .add seq data _ => seq + data.length < 2 ^ 64
  | .removePrefix n => n ≤ totalBytes sb.buffers
  | .clear => True

/-- The two bounds; the distance is Go's, of two `uint64`s. -/
structure Bounded (sb : StreamBuffer) : Prop where
  range : (subU64 sb.positionN sb.position0 : ℤ) ≤ sb.capacity
  entries : sb.timestamps.size ≤ maxTimestampEntries

theorem Bounded.capacity_nonneg {sb : StreamBuffer} (h : sb.Bounded) : 0 ≤ sb.capacity :=
  (Int.natCast_nonneg _).trans h.range

/-- `Add` gives up what is buffered and starts over with the segment. -/
def StartsOver (sb : StreamBuffer) (seq : ℕ) : Prop :=
  sb.overflows seq = true ∨ sb.tooOld seq = false ∧ sb.largeGap seq = true

/-- Where a removal of `n` bytes comes to an end, if a buffer is left there. -/
def endsAt : List Buffer → ℕ → Option ℕ
  | [], _ => none
  | b :: bs, n =>
      if n = 0 then some b.seq
      else if n < b.buf.length then some (u64 (b.seq + n))
      else endsAt bs (n - b.buf.length)

/-- The calls that keep the bounds. A segment that is stored alone has to fit into the capacity,
and the first one needs room in the timestamp map; a removal has to end no further before the end
of the last buffer than the capacity. -/
def KeepsBounds (sb : StreamBuffer) : Call → Prop
  | .add seq data _ =>
      sb.timestamps.get? seq = none →
        (sb.buffers = [] →
          (data.length : ℤ) ≤ sb.capacity ∧ sb.timestamps.size < maxTimestampEntries)
        ∧ (sb.buffers ≠ [] → sb.StartsOver seq → (data.length : ℤ) ≤ sb.capacity)
  | .removePrefix n => ∀ p ∈ endsAt sb.buffers n, (subU64 sb.positionN p : ℤ) ≤ sb.capacity
  | .clear => True

/-! ## What the cleaners see to -/

theorem bounded_iff (sb : StreamBuffer) :
    sb.Bounded ↔ (subU64 sb.positionN sb.position0 : ℤ) ≤ sb.capacity
      ∧ sb.timestamps.size ≤ maxTimestampEntries :=
  ⟨fun h => ⟨h.range, h.entries⟩, fun h => ⟨h.1, h.2⟩⟩

theorem distance_of_nil {sb : StreamBuffer} (hnil : sb.buffers = []) :
    subU64 sb.positionN sb.position0 = 0 := by
  rw [positionN, position0, hnil]
  decide

theorem bounded_of_nil {sb : StreamBuffer} (hnil : sb.buffers = []) :
    sb.Bounded ↔ 0 ≤ sb.capacity ∧ sb.timestamps.size ≤ maxTimestampEntries := by
  rw [bounded_iff, distance_of_nil hnil, Nat.cast_zero]

/-- The loop goes on until the distance is within the capacity. -/
theorem shrinkLoop_within (sb : StreamBuffer) (l : List Buffer) (lastDelete : Option Buffer) :
    overCapacity { sb with buffers := (shrinkLoop sb l lastDelete).1 } = false := by
  induction l generalizing lastDelete with
  | nil => rfl
  | cons head rest ih =>
      rw [shrinkLoop]
      split_ifs with hover
      · exact ih (some head)
      · exact Bool.eq_false_iff.mpr hover

/-- What `overCapacity` says of the two positions. -/
theorem range_of_not_overCapacity {sb : StreamBuffer} (hcapacity : 0 ≤ sb.capacity)
    (h : sb.overCapacity = false) : (subU64 sb.positionN sb.position0 : ℤ) ≤ sb.capacity := by
  cases hbs : sb.buffers with
  | nil =>
      rw [distance_of_nil hbs]
      exact hcapacity
  | cons b bs =>
      have hle : ¬ subU64 sb.positionN sb.position0 > ofInt64 sb.capacity := by
        simpa [overCapacity, isEmpty, hbs] using h
      rw [ofInt64_of_nonneg hcapacity] at hle
      omega

theorem shrink_capacity (sb : StreamBuffer) :
    sb.shrinkBufferUntilSizeBelowCapacity.capacity = sb.capacity := by
  rcases shrink_cases sb with h | ⟨_, _, _, _, h⟩ <;> rw [h]

theorem shrink_size_le (sb : StreamBuffer) :
    sb.shrinkBufferUntilSizeBelowCapacity.timestamps.size ≤ sb.timestamps.size := by
  rcases shrink_cases sb with h | ⟨_, _, _, _, h⟩
  · rw [h]
  · rw [h]
    exact SortedMap.size_removeAll_le _ _

/-- After the shrink the distance is within the capacity, whatever it was. -/
theorem shrink_range {sb : StreamBuffer} (hcapacity : 0 ≤ sb.capacity) :
    (subU64 sb.shrinkBufferUntilSizeBelowCapacity.positionN
      sb.shrinkBufferUntilSizeBelowCapacity.position0 : ℤ) ≤ sb.capacity := by
  have hwithin : sb.shrinkBufferUntilSizeBelowCapacity.overCapacity = false := by
    have hloop := shrinkLoop_within sb sb.buffers none
    unfold shrinkBufferUntilSizeBelowCapacity
    rcases hres : shrinkLoop sb sb.buffers none with ⟨kept, _ | lastDelete⟩
    · rw [hres] at hloop
      exact hloop
    · rw [hres] at hloop
      exact hloop
  rw [← shrink_capacity sb] at hcapacity ⊢
  exact range_of_not_overCapacity hcapacity hwithin

@[simp] theorem cleanOldTimestamps_capacity (sb : StreamBuffer) :
    sb.cleanOldTimestamps.capacity = sb.capacity := by
  rw [cleanOldTimestamps]
  split_ifs <;> rfl

/-- One entry above the limit is taken back, and more. -/
theorem cleanOldTimestamps_size_le {sb : StreamBuffer}
    (h : sb.timestamps.size ≤ maxTimestampEntries + 1) :
    sb.cleanOldTimestamps.timestamps.size ≤ maxTimestampEntries := by
  rw [cleanOldTimestamps]
  split_ifs with hsize
  · exact hsize
  · have hhalf := SortedMap.size_removeAll_take_le sb.timestamps (sb.timestamps.size / 2)
    dsimp only
    unfold maxTimestampEntries at *
    omega

/-- Both bounds hold after the cleaners at the end of `Add`. -/
theorem bounded_cleaned {sb : StreamBuffer} (hcapacity : 0 ≤ sb.capacity)
    (hsize : sb.timestamps.size ≤ maxTimestampEntries + 1) :
    sb.shrinkBufferUntilSizeBelowCapacity.cleanOldTimestamps.Bounded := by
  refine ⟨?_, cleanOldTimestamps_size_le ((shrink_size_le sb).trans hsize)⟩
  rw [positionN, position0, cleanOldTimestamps_buffers, cleanOldTimestamps_capacity,
    shrink_capacity]
  exact shrink_range hcapacity

/-! ## What one call does to the bounds -/

/-- The state with one segment alone. -/
theorem bounded_restarted (sb : StreamBuffer) (timestamps : SortedMap ℕ ℕ) {seq : ℕ}
    {data : List UInt8} (timestamp : ℕ) (hs : seq + data.length < 2 ^ 64) :
    (sb.restarted timestamps seq data timestamp).Bounded
      ↔ (data.length : ℤ) ≤ sb.capacity
        ∧ (timestamps.put seq timestamp).size ≤ maxTimestampEntries := by
  have hrange : subU64 (sb.restarted timestamps seq data timestamp).positionN
      (sb.restarted timestamps seq data timestamp).position0 = data.length := by
    show subU64 (u64 (seq + data.length)) seq = data.length
    rw [u64_of_lt hs, subU64_of_le (by omega) hs]
    omega
  rw [bounded_iff, hrange]
  rfl

/-- `Add`, one early return after the other. -/
theorem add_bounded_iff {sb sb' : StreamBuffer} {seq : ℕ} {data : List UInt8} {timestamp : ℕ}
    (hbounded : sb.Bounded) (hs : seq + data.length < 2 ^ 64)
    (h : sb.perform (.add seq data timestamp) = .ok sb') :
    sb'.Bounded ↔ sb.KeepsBounds (.add seq data timestamp) := by
  obtain ⟨⟨r, sb₁⟩, hadd, hsb'⟩ := map_eq_ok h
  dsimp only at hsb'
  subst hsb'
  rw [add] at hadd
  by_cases hseen : (sb.timestamps.get? seq).isSome
  · rw [if_pos hseen] at hadd
    cases hadd
    refine iff_of_true hbounded (fun hfresh => ?_)
    rw [hfresh] at hseen
    cases hseen
  · have hfresh : sb.timestamps.get? seq = none := Option.not_isSome_iff_eq_none.mp hseen
    rw [if_neg hseen] at hadd
    by_cases hempty : sb.isEmpty = true
    · have hnil := isEmpty_iff.mp hempty
      rw [if_pos hempty] at hadd
      cases hadd
      have hstate : ({ sb.updateTimestamp seq timestamp with
            buffers := (sb.updateTimestamp seq timestamp).buffers ++ [⟨data, seq⟩] } : StreamBuffer)
          = sb.restarted sb.timestamps seq data timestamp := by
        simp [restarted, updateTimestamp, hnil]
      rw [hstate, bounded_restarted sb sb.timestamps timestamp hs,
        SortedMap.size_put_of_get?_eq_none timestamp hfresh]
      exact ⟨fun hfits _ => ⟨fun _ => hfits, fun hne => absurd hnil hne⟩,
        fun hkeeps => (hkeeps hfresh).1 hnil⟩
    · have hne : sb.buffers ≠ [] := fun hnil => hempty (isEmpty_iff.mpr hnil)
      -- Starting over leaves one entry in the map, so only the length counts.
      have hreset : (sb.restarted SortedMap.empty seq data timestamp).Bounded
          ↔ (data.length : ℤ) ≤ sb.capacity := by
        rw [bounded_restarted sb SortedMap.empty timestamp hs]
        exact and_iff_left (show 1 ≤ maxTimestampEntries by decide)
      have hkeeps : sb.KeepsBounds (.add seq data timestamp)
          ↔ (sb.StartsOver seq → (data.length : ℤ) ≤ sb.capacity) :=
        ⟨fun hkeeps => (hkeeps hfresh).2 hne,
          fun hfits _ => ⟨fun hnil => absurd hnil hne, fun _ => hfits⟩⟩
      rw [if_neg hempty] at hadd
      rw [hkeeps]
      by_cases hover : sb.overflows seq = true
      · rw [if_pos hover] at hadd
        cases hadd
        exact hreset.trans ⟨fun hfits _ => hfits, fun hfits => hfits (Or.inl hover)⟩
      · rw [if_neg hover] at hadd
        by_cases hold : sb.tooOld seq = true
        · rw [if_pos hold] at hadd
          cases hadd
          refine iff_of_true hbounded (fun hstarts => ?_)
          rcases hstarts with h1 | ⟨h1, -⟩
          · exact absurd h1 hover
          · rw [hold] at h1
            cases h1
        · rw [if_neg hold] at hadd
          by_cases hgap : sb.largeGap seq = true
          · rw [if_pos hgap] at hadd
            cases hadd
            have hstarts : sb.StartsOver seq := Or.inr ⟨Bool.eq_false_iff.mpr hold, hgap⟩
            exact hreset.trans ⟨fun hfits _ => hfits, fun hfits => hfits hstarts⟩
          · rw [if_neg hgap] at hadd
            obtain ⟨bs, hplace, hrest⟩ := bind_eq_ok.mp hadd
            cases hrest
            refine iff_of_true ?_ (fun hstarts => ?_)
            · exact bounded_cleaned hbounded.capacity_nonneg
                ((SortedMap.size_put_le sb.timestamps seq timestamp).trans
                  (Nat.add_le_add_right hbounded.entries 1))
            · rcases hstarts with h1 | ⟨-, h1⟩
              · exact absurd h1 hover
              · exact absurd h1 hgap

/-- The walk leaves the place it ends at in front and the last buffer's end where it was, and
adds nothing to the map. -/
theorem removePrefixLoop_ends {bs bs' : List Buffer} {m m' : SortedMap ℕ ℕ} {n : ℕ}
    (h : removePrefixLoop bs m n = .ok (bs', m')) :
    bs'.head?.map Buffer.seq = endsAt bs n
      ∧ (bs' ≠ [] → bs'.getLast?.map Buffer.rightBoundary = bs.getLast?.map Buffer.rightBoundary)
      ∧ m'.size ≤ m.size := by
  induction bs generalizing m n with
  | nil =>
      rw [removePrefixLoop] at h
      split_ifs at h with hz
      cases h
      exact ⟨rfl, fun hne => absurd rfl hne, le_rfl⟩
  | cons b bs ih =>
      rw [removePrefixLoop] at h
      rw [endsAt]
      split_ifs at h with hz hlt
      · cases h
        rw [if_pos (by omega)]
        exact ⟨rfl, fun _ => rfl, le_rfl⟩
      · rw [Buffer.removePrefix, if_pos hlt] at h
        rw [Buffer.len] at hlt
        rw [if_neg (by omega), ofInt64_of_nonneg (by omega)] at h
        cases h
        rw [if_neg (by omega), if_pos (by omega)]
        refine ⟨rfl, fun _ => ?_, le_rfl⟩
        -- The head is trimmed at its left end; its right end stays.
        have hright : (⟨b.buf.drop n, u64 (b.seq + n)⟩ : Buffer).rightBoundary
            = b.rightBoundary := by
          unfold Buffer.rightBoundary u64
          dsimp only
          rw [List.length_drop]
          omega
        rcases List.eq_nil_or_concat bs with rfl | ⟨front, last, rfl⟩
        · exact congrArg some hright
        · rw [List.concat_eq_append, ← List.cons_append, ← List.cons_append,
            List.getLast?_concat, List.getLast?_concat]
      · rw [Buffer.len] at hlt h
        rw [← Nat.cast_sub (by omega)] at h
        rw [if_neg (by omega), if_neg (by omega)]
        obtain ⟨hhead, hlast, hsize⟩ := ih h
        refine ⟨hhead, fun hne => ?_, hsize.trans (SortedMap.size_removeAll_le _ _)⟩
        rw [hlast hne]
        rcases List.eq_nil_or_concat bs with rfl | ⟨front, last, rfl⟩
        · -- Behind the last buffer nothing is left.
          rw [removePrefixLoop] at h
          split_ifs at h
          cases h
          exact absurd rfl hne
        · rw [List.concat_eq_append, ← List.cons_append, List.getLast?_concat,
            List.getLast?_concat]

theorem removePrefix_bounded_iff {sb sb' : StreamBuffer} {n : ℕ} (hbounded : sb.Bounded)
    (h : sb.perform (.removePrefix n) = .ok sb') :
    sb'.Bounded ↔ sb.KeepsBounds (.removePrefix n) := by
  rw [perform, StreamBuffer.removePrefix] at h
  by_cases hempty : sb.isEmpty = true
  · rw [if_pos hempty] at h
    cases h
    refine iff_of_true hbounded (fun p hp => ?_)
    rw [isEmpty_iff.mp hempty] at hp
    cases hp
  · rw [if_neg hempty] at h
    obtain ⟨⟨bs', m'⟩, hloop, hok⟩ := bind_eq_ok.mp h
    cases hok
    obtain ⟨hhead, hlast, hsize⟩ := removePrefixLoop_ends hloop
    have hentries : m'.size ≤ maxTimestampEntries := hsize.trans hbounded.entries
    rw [KeepsBounds, ← hhead]
    cases hbs' : bs' with
    | nil =>
        refine iff_of_true ((bounded_of_nil rfl).mpr ⟨hbounded.capacity_nonneg, hentries⟩) ?_
        intro p hp
        cases hp
    | cons b rest =>
        have hend : positionN { sb with buffers := b :: rest, timestamps := m' } = sb.positionN := by
          have heq := hlast (by rw [hbs']; exact List.cons_ne_nil _ _)
          rw [hbs'] at heq
          have hN : ∀ s : StreamBuffer,
              s.positionN = (s.buffers.getLast?.map Buffer.rightBoundary).getD 0 := by
            intro s
            rw [positionN]
            cases s.buffers.getLast? <;> rfl
          rw [hN, hN, ← heq]
        constructor
        · rintro ⟨hrange, -⟩ p hp
          cases hp
          rw [hend] at hrange
          exact hrange
        · intro hkeeps
          refine ⟨?_, hentries⟩
          rw [hend]
          exact hkeeps b.seq rfl

/-- Where the buffers are in order and disjoint, a removal ends between the first position and the
last. -/
theorem endsAt_between {bs : List Buffer} {n p : ℕ} (hfits : ∀ b ∈ bs, b.Fits)
    (hapart : Apart 0 bs) (hp : endsAt bs n = some p) :
    (∀ first ∈ bs.head?, first.seq ≤ p)
      ∧ ∀ last ∈ bs.getLast?, p ≤ last.seq + last.buf.length := by
  induction bs generalizing n with
  | nil => cases hp
  | cons b bs ih =>
      obtain ⟨hbefore, htail⟩ := List.pairwise_cons.mp hapart
      -- The last buffer is the head or behind it.
      have hlast : ∀ last ∈ (b :: bs).getLast?,
          b.seq + b.buf.length ≤ last.seq + last.buf.length := by
        intro last hmem
        rcases List.mem_cons.mp (List.mem_of_getLast? hmem) with rfl | hrest
        · exact le_rfl
        · have := hbefore last hrest
          omega
      rw [endsAt] at hp
      split_ifs at hp with hz hlt
      · cases hp
        refine ⟨by rintro _ ⟨⟩; exact le_rfl, fun last hmem => ?_⟩
        have := hlast last hmem
        omega
      · cases hp
        have hwrap := (hfits b List.mem_cons_self).noWrap
        rw [u64_of_lt (by omega)]
        refine ⟨by rintro _ ⟨⟩; exact Nat.le_add_right _ _, fun last hmem => ?_⟩
        have := hlast last hmem
        omega
      · cases bs with
        | nil => cases hp
        | cons c cs =>
            obtain ⟨hfirst, hend⟩ := ih (fun b hb => hfits b (List.mem_cons_of_mem _ hb)) htail hp
            have hc := hbefore c List.mem_cons_self
            have hcp := hfirst c rfl
            refine ⟨by rintro _ ⟨⟩; omega, fun last hmem => hend last ?_⟩
            rwa [List.getLast?_cons_cons] at hmem

/-- So only a removal from buffers that overlap breaks a bound. -/
theorem keepsBounds_removePrefix_of_apart {sb : StreamBuffer} (hbounded : sb.Bounded)
    (hfits : ∀ b ∈ sb.buffers, b.Fits) (hapart : Apart 0 sb.buffers) (n : ℕ) :
    sb.KeepsBounds (.removePrefix n) := by
  intro p hp
  obtain ⟨hfirst, hlast⟩ := endsAt_between hfits hapart hp
  have hrange := hbounded.range
  rcases List.eq_nil_or_concat sb.buffers with hnil | ⟨front, last, hconcat⟩
  · rw [hnil] at hp
    cases hp
  · have hmem : last ∈ sb.buffers.getLast? := by simp [hconcat]
    have hfit := hfits last (List.mem_of_getLast? hmem)
    have hend := hlast last hmem
    have hN : sb.positionN = last.seq + last.buf.length := by
      rw [positionN, Option.mem_def.mp hmem]
      exact Buffer.rightBoundary_eq hfit
    obtain ⟨first, rest, hcons⟩ := List.exists_cons_of_ne_nil (List.ne_nil_of_mem
      (List.mem_of_getLast? hmem))
    have h0 : sb.position0 = first.seq := by rw [position0, hcons]
    have hstart := hfirst first (by simp [hcons])
    have hwrap := hfit.noWrap
    rw [hN, h0, subU64_of_le (by omega) hwrap] at hrange
    rw [hN, subU64_of_le hend hwrap]
    omega

/-- **One call.** From a state within the bounds a call leads to one within the bounds just when
it is one that keeps them. -/
theorem perform_bounded_iff {sb sb' : StreamBuffer} {call : Call} (hbounded : sb.Bounded)
    (hsound : sb.Sound call) (h : sb.perform call = .ok sb') :
    sb'.Bounded ↔ sb.KeepsBounds call := by
  cases call with
  | add seq data timestamp => exact add_bounded_iff hbounded hsound h
  | removePrefix n => exact removePrefix_bounded_iff hbounded h
  | clear =>
      cases h
      exact iff_of_true ((bounded_of_nil rfl).mpr ⟨hbounded.capacity_nonneg, Nat.zero_le _⟩)
        trivial

/-- **Runs.** The bounds hold in every state of a run just when the capacity is not negative and
every call of the run keeps them. -/
theorem run_bounded_iff {capacity : ℤ} {calls : List Call} {sb : StreamBuffer}
    (hrun : Run perform Sound (new capacity) calls sb) :
    (∀ front s, front <+: calls → Run perform Sound (new capacity) front s → s.Bounded)
      ↔ 0 ≤ capacity
        ∧ Run perform (fun s call => s.Sound call ∧ s.KeepsBounds call) (new capacity) calls sb := by
  have hnew : (new capacity).Bounded ↔ 0 ≤ capacity :=
    (bounded_of_nil rfl).trans (and_iff_left (Nat.zero_le _))
  rw [← hnew]
  exact Run.invariant_iff (fun _ _ _ hs hsound hstep => perform_bounded_iff hs hsound hstep) hrun

instance (sb : StreamBuffer) : ∀ call, Decidable (sb.Sound call)
  | .add seq data _ => inferInstanceAs (Decidable (seq + data.length < 2 ^ 64))
  | .removePrefix n => inferInstanceAs (Decidable (n ≤ totalBytes sb.buffers))
  | .clear => inferInstanceAs (Decidable True)

instance (sb : StreamBuffer) (seq : ℕ) : Decidable (sb.StartsOver seq) :=
  inferInstanceAs (Decidable (_ ∨ _))

instance (sb : StreamBuffer) : ∀ call, Decidable (sb.KeepsBounds call)
  | .add _ _ _ => inferInstanceAs (Decidable (_ → _))
  | .removePrefix n => inferInstanceAs (Decidable (∀ p ∈ endsAt sb.buffers n, _))
  | .clear => inferInstanceAs (Decidable True)

/-- Two overlapping segments and a removal that ends inside the second. -/
def sampleCalls : List Call :=
  [.add 1 [1, 2, 3, 4, 5] 2, .add 3 [3, 4, 5, 6, 7] 3, .removePrefix 4]

theorem run_bounded_sample : ∃ sb, Run perform Sound (new 1000) sampleCalls sb
    ∧ ∀ front s, front <+: sampleCalls → Run perform Sound (new 1000) front s → s.Bounded := by
  have hkeeps : Run perform (fun s call => s.Sound call ∧ s.KeepsBounds call) (new 1000) sampleCalls
      ⟨[⟨[5, 6, 7], 5⟩], 1000, ⟨[(1, 2), (3, 3)], by decide⟩⟩ := Run.of_exec (by decide +kernel)
  have hrun := @Run.mono _ _ _ _ _ _ Sound (fun _ _ => And.left) _ _ hkeeps
  exact ⟨_, hrun, (run_bounded_iff hrun).mpr ⟨by decide, hkeeps⟩⟩

/-- The first segment is longer than the capacity. -/
theorem first_segment_over_capacity : ∃ calls sb,
    Run perform Sound (new 4) calls sb ∧ ¬ sb.Bounded := by
  refine ⟨[.add 1 [1, 2, 3, 4, 5] 2], ⟨[⟨[1, 2, 3, 4, 5], 1⟩], 4, ⟨[(1, 2)], by decide⟩⟩,
    Run.of_exec (by decide), ?_⟩
  rintro ⟨hrange, -⟩
  exact absurd hrange (by decide)

-- Nine bytes, two of them again in a segment that ends inside the first one, and a removal of six:
-- the head is at 7 and the last buffer ends at 5.
example : (exec perform Sound (new 1000)
    [.add 1 [1, 2, 3, 4, 5, 6, 7, 8, 9] 2, .add 3 [3, 4] 3, .removePrefix 6]).map
      (fun sb => (sb.position0, sb.positionN, subU64 sb.positionN sb.position0))
    = some (7, 5, 2 ^ 64 - 2) := by decide +kernel

end Kyanos.StreamBuffer
