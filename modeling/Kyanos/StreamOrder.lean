/-
Reassembly does not depend on the order of arrival.

Segments that share no byte and lie in one small window are never duplicates of
each other, never trip a discard rule and never overflow the buffer or the
timestamp map, so every one of them is placed. What the buffer then holds is
determined by the segments alone: its buffers are the maximal contiguous runs of
their union (a list in canonical form, `Apart 1`), and the map has one entry for
each. `Assembled` states this of the segments added so far; it survives one `Add`
(`add_assembled`), and it leaves no freedom, because the canonical form is unique
(`Pieces.Canonical.ext`) and a map is its lookups (`SortedMap.ext_get?`).
-/
import Kyanos.StreamRuns

set_option autoImplicit false

open GoNum Pieces

namespace Kyanos

namespace StreamBuffer

/-! ## A segment beside the buffers -/

/-- The segment shares no position with the buffer. -/
def Beside (seq : ℕ) (data : List UInt8) (b : Buffer) : Prop :=
  b.seq + b.buf.length ≤ seq ∨ seq + data.length ≤ b.seq

section Beside

/-- Two segments, by their ends. -/
theorem beside_buffer_iff {g k : Segment} : Beside g.seq g.data k.buffer
    ↔ k.seq + k.data.length ≤ g.seq ∨ g.seq + g.data.length ≤ k.seq := Iff.rfl

variable {seq : ℕ} {data : List UInt8}

/-- A buffer the segment extends at the right, without sharing a byte, ends where
the segment starts. -/
theorem FusesLeft.adjacent {l : Buffer} (h : FusesLeft seq data l) (hne : data ≠ [])
    (hb : Beside seq data l) : l.seq + l.buf.length = seq := by
  have hpos := List.length_pos_iff.mpr hne
  obtain ⟨h1, h2, h3⟩ := h
  rcases hb with hb | hb <;> omega

theorem FusesRight.adjacent {r : Buffer} (h : FusesRight seq data r) (hne : r.buf ≠ [])
    (hb : Beside seq data r) : seq + data.length = r.seq := by
  have hpos := List.length_pos_iff.mpr hne
  obtain ⟨h1, h2, h3⟩ := h
  rcases hb with hb | hb <;> omega

theorem piece_extend {l : Buffer} (h : l.seq + l.buf.length = seq) :
    (l.extend seq data).piece = (l.seq, l.buf ++ data) := by
  rw [Buffer.piece, Buffer.extend, h, Nat.sub_self, List.drop_zero]

theorem piece_prepend {r : Buffer} (h : seq + data.length = r.seq) :
    (r.prepend seq data).piece = (seq, data ++ r.buf) := by
  rw [Buffer.piece, Buffer.prepend, List.take_of_length_le (by omega)]

theorem piece_bridged {l r : Buffer} (hl : l.seq + l.buf.length = seq)
    (hr : seq + data.length = r.seq) :
    (bridged seq data l r).piece = (l.seq, (l.buf ++ data) ++ r.buf) := by
  have hext : (l.extend seq data).buf = l.buf ++ data := congrArg Prod.snd (piece_extend hl)
  rw [bridged, hext]
  apply piece_prepend
  rw [List.length_append]
  omega

/-- **Placing a segment beside the buffers stores exactly its bytes in addition.** -/
theorem Placed.stores {bs bs' : List Buffer} (h : Placed seq data bs bs') (hne : data ≠ [])
    (hfits : ∀ b ∈ bs, b.Fits) (hbeside : ∀ b ∈ bs, Beside seq data b) (p : ℕ) (a : UInt8) :
    Stores (bs'.map Buffer.piece) p a
      ↔ Stores (bs.map Buffer.piece) p a ∨ Holds (seq, data) p a := by
  -- Beside a neighbour, fusing is appending: no byte of the segment is cut off.
  cases h with
  | insert xs ys _ _ _ =>
      have hnew : (⟨data, seq⟩ : Buffer).piece = (seq, data) := rfl
      simp only [List.map_append, List.map_cons, stores_append, stores_cons, hnew]
      tauto
  | extendLeft xs l ys _ hfl _ =>
      have hl := hfl.adjacent hne (hbeside l (by simp))
      have hold : l.piece = (l.seq, l.buf) := rfl
      simp only [List.map_append, List.map_cons, stores_append, stores_cons, piece_extend hl,
        holds_append, hl, hold]
      tauto
  | extendRight xs r ys _ _ hfr =>
      have hr := hfr.adjacent (hfits r (by simp)).nonempty (hbeside r (by simp))
      have hold : r.piece = (r.seq, r.buf) := rfl
      simp only [List.map_append, List.map_cons, stores_append, stores_cons, piece_prepend hr,
        holds_append, hr, hold]
      tauto
  | bridge xs l r ys _ hfl hfr =>
      have hl := hfl.adjacent hne (hbeside l (by simp))
      have hr := hfr.adjacent (hfits r (by simp)).nonempty (hbeside r (by simp))
      have hend : l.seq + (l.buf ++ data).length = r.seq := by
        rw [List.length_append]
        omega
      have holdl : l.piece = (l.seq, l.buf) := rfl
      have holdr : r.piece = (r.seq, r.buf) := rfl
      simp only [List.map_append, List.map_cons, stores_append, stores_cons, piece_bridged hl hr,
        holds_append, hl, hend, holdl, holdr]
      tauto

/-- A segment beside buffers with gaps between them leaves gaps between them: where
it touches a neighbour it is fused. -/
theorem Apart.placed_beside {bs bs' : List Buffer} (h : Placed seq data bs bs')
    (hapart : Apart 1 bs) (hne : data ≠ []) (hfits : ∀ b ∈ bs, b.Fits)
    (hbeside : ∀ b ∈ bs, Beside seq data b) : Apart 1 bs' := by
  have hpos := List.length_pos_iff.mpr hne
  refine hapart.placed h ?_ ?_
  · intro xs ys hbs hsplit l hl hno
    have hmem : l ∈ xs := List.mem_of_getLast? hl
    have hstart := hsplit.left l hmem
    have hb := hbeside l (by rw [hbs]; exact List.mem_append_left _ hmem)
    by_contra hlt
    refine hno ⟨hstart, ?_, ?_⟩ <;> rcases hb with hb | hb <;> omega
  · intro xs ys hbs hsplit r hr hno
    have hmem : r ∈ bs := by
      rw [hbs]
      exact List.mem_append_right _ (List.mem_of_head? hr)
    have hstart := hsplit.right r hr
    have hrpos := (hfits r hmem).length_pos
    have hb := hbeside r hmem
    by_contra hlt
    refine hno ⟨?_, ?_, ?_⟩ <;> rcases hb with hb | hb <;> omega

end Beside

/-! ## The ends of the buffer -/

theorem position0_mem {sb : StreamBuffer} (h : sb.buffers ≠ []) :
    ∃ b ∈ sb.buffers, sb.position0 = b.seq := by
  rw [position0]
  cases hbs : sb.buffers with
  | nil => exact absurd hbs h
  | cons b rest => exact ⟨b, List.mem_cons_self, rfl⟩

theorem positionN_mem {sb : StreamBuffer} (h : sb.buffers ≠ []) :
    ∃ b ∈ sb.buffers, sb.positionN = b.rightBoundary := by
  rw [positionN]
  cases hbs : sb.buffers.getLast? with
  | none => exact absurd (List.getLast?_eq_none_iff.mp hbs) h
  | some b => exact ⟨b, List.mem_of_getLast? hbs, rfl⟩

/-- In a buffer whose runs all lie in a window, both ends do. -/
theorem positions_in_window {sb : StreamBuffer} {base width : ℕ} (h : sb.buffers ≠ [])
    (hfits : ∀ b ∈ sb.buffers, b.Fits)
    (hwin : ∀ b ∈ sb.buffers, base ≤ b.seq ∧ b.seq + b.buf.length ≤ base + width) :
    (base ≤ sb.position0 ∧ sb.position0 ≤ base + width ∧ sb.position0 < 2 ^ 64)
      ∧ base ≤ sb.positionN ∧ sb.positionN ≤ base + width ∧ sb.positionN < 2 ^ 64 := by
  obtain ⟨b, hb, h0⟩ := position0_mem h
  obtain ⟨c, hc, hN⟩ := positionN_mem h
  have hbw := hwin b hb
  have hcw := hwin c hc
  have hbf := (hfits b hb).noWrap
  have hcf := (hfits c hc).noWrap
  rw [h0, hN, Buffer.rightBoundary_eq (hfits c hc)]
  exact ⟨⟨by omega, by omega, by omega⟩, by omega, by omega, by omega⟩

/-- A buffer inside a window no wider than its capacity is not shrunk. -/
theorem not_overCapacity {sb : StreamBuffer} {base width : ℕ}
    (hfits : ∀ b ∈ sb.buffers, b.Fits)
    (hwin : ∀ b ∈ sb.buffers, base ≤ b.seq ∧ b.seq + b.buf.length ≤ base + width)
    (hapart : Apart 1 sb.buffers) (hcap : (width : ℤ) ≤ sb.capacity) :
    sb.overCapacity = false := by
  cases hbs : sb.buffers with
  | nil => simp [overCapacity, isEmpty, hbs]
  | cons b rest =>
      have hne : sb.buffers ≠ [] := by simp [hbs]
      obtain ⟨⟨h1, h2, h3⟩, h4, h5, h6⟩ := positions_in_window hne hfits hwin
      -- The first buffer starts before the last one ends.
      have hle : sb.position0 ≤ sb.positionN := by
        obtain ⟨c, hc, hN⟩ := positionN_mem hne
        rw [hN, Buffer.rightBoundary_eq (hfits c hc), position0, hbs]
        dsimp only
        rw [hbs] at hc hapart
        rcases List.mem_cons.mp hc with rfl | hc
        · omega
        · have := (List.pairwise_cons.mp hapart).1 c hc
          omega
      have hsub := subU64_of_le hle h6
      have hcap' := ofInt64_of_nonneg (show 0 ≤ sb.capacity by omega)
      simp only [overCapacity, hsub, hcap', gt_iff_lt, Bool.and_eq_false_iff,
        decide_eq_false_iff_not, not_lt]
      exact Or.inr (by omega)

/-- No discard rule applies to a segment of the same window, if it is below 1 MiB. -/
theorem no_rule_in_window {sb : StreamBuffer} {base width seq : ℕ} (h : sb.buffers ≠ [])
    (hfits : ∀ b ∈ sb.buffers, b.Fits)
    (hwin : ∀ b ∈ sb.buffers, base ≤ b.seq ∧ b.seq + b.buf.length ≤ base + width)
    (hwidth : width < 1024 * 1024) (hlo : base ≤ seq) (hhi : seq ≤ base + width)
    (hseq : seq < 2 ^ 64) :
    sb.overflows seq = false ∧ sb.tooOld seq = false ∧ sb.largeGap seq = false := by
  obtain ⟨⟨h1, h2, h3⟩, h4, h5, h6⟩ := positions_in_window h hfits hwin
  -- All positions lie within the window, so no signed difference is as large as a rule wants.
  refine ⟨?_, ?_, ?_⟩
  · rw [overflows, toInt64_subU64 hseq (by omega) (by omega), maxBytesGapIndicateTcpSeqOverflow]
    exact decide_eq_false (by omega)
  · rw [tooOld, toInt64_subU64 hseq (by omega) (by omega), maxBytesGap]
    exact decide_eq_false (by omega)
  · rw [largeGap, toInt64_subU64 h6 (by omega) (by omega), maxBytesGap]
    exact decide_eq_false (by omega)

/-! ## The assembled state -/

/-- Segments that share no byte and lie in a window of fewer than 1 MiB that fits
the capacity, no more of them than the timestamp map holds. -/
structure Scattered (capacity : ℤ) (base width : ℕ) (segs : List Segment) : Prop where
  few : segs.length ≤ maxTimestampEntries
  beside : segs.Pairwise (fun g h => Beside g.seq g.data h.buffer)
  window : ∀ g ∈ segs, base ≤ g.seq ∧ g.seq + g.data.length ≤ base + width
  narrow : width < 1024 * 1024
  fitsCapacity : (width : ℤ) ≤ capacity

/-- The state holds the segments of `done` and nothing else: their union in
canonical form, and one timestamp for each. -/
structure Assembled (capacity : ℤ) (done : List Segment) (sb : StreamBuffer) : Prop where
  capacity_eq : sb.capacity = capacity
  fits : ∀ b ∈ sb.buffers, b.Fits
  apart : Apart 1 sb.buffers
  bytes : ∀ p a, Stores (sb.buffers.map Buffer.piece) p a
    ↔ ∃ g ∈ done, Holds (g.seq, g.data) p a
  times : ∀ k t, sb.timestamps.get? k = some t ↔ ∃ g ∈ done, g.seq = k ∧ g.ts = t
  size : sb.timestamps.size = done.length

section Assembled

variable {capacity : ℤ} {base width : ℕ} {done : List Segment} {sb : StreamBuffer}

/-- A position inside a buffer lies inside one of the segments. -/
theorem Assembled.mem_segment (h : Assembled capacity done sb) {b : Buffer}
    (hb : b ∈ sb.buffers) {p : ℕ} (hl : b.seq ≤ p) (hr : p < b.seq + b.buf.length) :
    ∃ g ∈ done, g.seq ≤ p ∧ p < g.seq + g.data.length := by
  obtain ⟨a, ha⟩ := exists_holds (x := b.piece) hl hr
  obtain ⟨g, hg, hold⟩ := (h.bytes p a).mp ⟨b.piece, List.mem_map_of_mem hb, ha⟩
  exact ⟨g, hg, hold.lt⟩

theorem Assembled.in_window (h : Assembled capacity done sb)
    (hwin : ∀ g ∈ done, base ≤ g.seq ∧ g.seq + g.data.length ≤ base + width) :
    ∀ b ∈ sb.buffers, base ≤ b.seq ∧ b.seq + b.buf.length ≤ base + width := by
  intro b hb
  have hpos := (h.fits b hb).length_pos
  -- The first and the last byte of the buffer each lie in a segment.
  obtain ⟨g, hg, hg1, hg2⟩ := h.mem_segment hb (p := b.seq) (by omega) (by omega)
  obtain ⟨k, hk, hk1, hk2⟩ :=
    h.mem_segment hb (p := b.seq + b.buf.length - 1) (by omega) (by omega)
  have := hwin g hg
  have := hwin k hk
  exact ⟨by omega, by omega⟩

theorem Assembled.beside (h : Assembled capacity done sb) {g : Segment}
    (hg : ∀ k ∈ done, Beside k.seq k.data g.buffer) :
    ∀ b ∈ sb.buffers, Beside g.seq g.data b := by
  intro b hb
  have hpos := (h.fits b hb).length_pos
  have hgpos := g.length_pos
  by_contra hover
  rw [Beside, not_or] at hover
  -- The greater of the two starts would be shared.
  obtain ⟨k, hk, hk1, hk2⟩ := h.mem_segment hb (p := max b.seq g.seq) (by omega) (by omega)
  have hbk := beside_buffer_iff.mp (hg k hk)
  omega

theorem Assembled.fresh (h : Assembled capacity done sb) {g : Segment}
    (hg : ∀ k ∈ done, Beside k.seq k.data g.buffer) : sb.timestamps.get? g.seq = none := by
  cases hget : sb.timestamps.get? g.seq with
  | none => rfl
  | some t =>
      obtain ⟨k, hk, hseq, -⟩ := (h.times _ _).mp hget
      have hkpos := k.length_pos
      have hgpos := g.length_pos
      have hbk := beside_buffer_iff.mp (hg k hk)
      omega

/-- What a new entry does to the timestamps. -/
theorem Assembled.times_put (h : Assembled capacity done sb) {g : Segment}
    (hfresh : sb.timestamps.get? g.seq = none) (k t : ℕ) :
    (sb.timestamps.put g.seq g.ts).get? k = some t
      ↔ ∃ g' ∈ done ++ [g], g'.seq = k ∧ g'.ts = t := by
  rw [SortedMap.get?_put]
  by_cases hk : k = g.seq
  · rw [if_pos hk]
    constructor
    · intro ht
      exact ⟨g, by simp, hk.symm, Option.some.inj ht⟩
    · rintro ⟨g', hg', hseq, hts⟩
      rcases List.mem_append.mp hg' with hg' | hg'
      · -- An earlier segment with this start would have an entry.
        have := (h.times g.seq g'.ts).mpr ⟨g', hg', by omega, rfl⟩
        rw [hfresh] at this
        cases this
      · rw [List.mem_singleton.mp hg'] at hts
        rw [hts]
  · rw [if_neg hk, h.times]
    constructor
    · rintro ⟨g', hg', hrest⟩
      exact ⟨g', List.mem_append_left _ hg', hrest⟩
    · rintro ⟨g', hg', hseq, hts⟩
      rcases List.mem_append.mp hg' with hg' | hg'
      · exact ⟨g', hg', hseq, hts⟩
      · rw [List.mem_singleton.mp hg'] at hseq
        exact absurd hseq.symm hk

theorem holds_append_singleton {p : ℕ} {a : UInt8} {g : Segment} :
    (∃ g' ∈ done ++ [g], Holds (g'.seq, g'.data) p a)
      ↔ (∃ g' ∈ done, Holds (g'.seq, g'.data) p a) ∨ Holds (g.seq, g.data) p a := by
  simp [or_and_right, exists_or]

theorem Assembled.size_put (h : Assembled capacity done sb) {g : Segment}
    (hfresh : sb.timestamps.get? g.seq = none) :
    (sb.timestamps.put g.seq g.ts).size = (done ++ [g]).length := by
  rw [SortedMap.size_put_of_get?_eq_none g.ts hfresh, h.size, List.length_append]
  rfl

/-- The first segment of an empty buffer. -/
theorem Assembled.restarted (h : Assembled capacity done sb) {g : Segment}
    (hfresh : sb.timestamps.get? g.seq = none) (hempty : sb.buffers = []) :
    Assembled capacity (done ++ [g]) (sb.restarted sb.timestamps g.seq g.data g.ts) := by
  refine ⟨h.capacity_eq, ?_, apart_singleton 1 _, ?_, h.times_put hfresh, h.size_put hfresh⟩
  · intro b hb
    rw [List.mem_singleton.mp hb]
    exact g.fits
  · intro p a
    rw [holds_append_singleton, ← h.bytes p a, hempty]
    simp [StreamBuffer.restarted, Stores, Buffer.piece]

/-- A segment placed beside the buffers, before the cleaners run. -/
theorem Assembled.withPlaced (h : Assembled capacity done sb) {g : Segment}
    (hfresh : sb.timestamps.get? g.seq = none) (hbeside : ∀ b ∈ sb.buffers, Beside g.seq g.data b)
    {bs : List Buffer} (hshape : Placed g.seq g.data sb.buffers bs) :
    Assembled capacity (done ++ [g]) (sb.withPlaced bs g.seq g.ts) := by
  refine ⟨h.capacity_eq, ?_, ?_, ?_, h.times_put hfresh, h.size_put hfresh⟩
  · exact closed_fits.placed hshape g.fits h.fits
  · exact h.apart.placed_beside hshape g.nonempty h.fits hbeside
  · intro p a
    rw [holds_append_singleton, ← h.bytes p a]
    exact hshape.stores g.nonempty h.fits hbeside p a

/-- **One `Add`**: the next segment joins the assembled ones, and only then, on a
buffer that was not empty, does the map get cleaned for its size. -/
theorem add_joined (h : Assembled capacity done sb) {g : Segment}
    (hg : ∀ k ∈ done, Beside k.seq k.data g.buffer)
    (hwin : ∀ k ∈ done ++ [g], base ≤ k.seq ∧ k.seq + k.data.length ≤ base + width)
    (hnarrow : width < 1024 * 1024) (hcap : (width : ℤ) ≤ capacity) :
    ∃ sb', Assembled capacity (done ++ [g]) sb'
      ∧ (sb.buffers = [] ∧ sb.step (.add g) = .ok sb'
        ∨ sb.step (.add g) = .ok sb'.cleanOldTimestamps) := by
  have hwin' : ∀ k ∈ done, base ≤ k.seq ∧ k.seq + k.data.length ≤ base + width :=
    fun k hk => hwin k (List.mem_append_left _ hk)
  have hgwin := hwin g (by simp)
  have hfresh := h.fresh hg
  -- Inside the window no discard rule applies, so what is left is to start or to place.
  have hnorule : sb.buffers ≠ [] →
      sb.overflows g.seq = false ∧ sb.tooOld g.seq = false ∧ sb.largeGap g.seq = false :=
    fun hne => no_rule_in_window hne h.fits (h.in_window hwin') hnarrow (by omega) (by omega)
      (by have := g.noWrap; omega)
  obtain ⟨r, sb', heq, hadded⟩ := add_added g.ts h.fits g.noWrap
  have hstep : sb.step (.add g) = .ok sb' := by rw [step, heq]; rfl
  cases hadded with
  | duplicate seen => simp [hfresh] at seen
  | reset _ hne rule =>
      obtain ⟨h1, h2, h3⟩ := hnorule hne
      simp [h1, h3] at rule
  | ignored _ hne rule => simp [(hnorule hne).2.1] at rule
  | first _ hempty => exact ⟨_, h.restarted hfresh hempty, Or.inl ⟨hempty, hstep⟩⟩
  | @placed _ _ bs _ hshape =>
      have hplaced := h.withPlaced hfresh (h.beside hg) hshape
      -- The window fits the capacity, so nothing is shrunk either.
      have hover : (sb.withPlaced bs g.seq g.ts).overCapacity = false :=
        not_overCapacity hplaced.fits (hplaced.in_window hwin) hplaced.apart
          (by rw [hplaced.capacity_eq]; exact hcap)
      rw [shrink_of_not_overCapacity hover] at hstep
      exact ⟨_, hplaced, Or.inr hstep⟩

/-- As long as the map has room for them, nothing is cleaned. -/
theorem add_assembled (h : Assembled capacity done sb) {g : Segment}
    (hs : Scattered capacity base width (done ++ [g])) :
    ∃ sb', sb.step (.add g) = .ok sb' ∧ Assembled capacity (done ++ [g]) sb' := by
  have hg : ∀ k ∈ done, Beside k.seq k.data g.buffer := fun k hk =>
    (List.pairwise_append.mp hs.beside).2.2 k hk g (List.mem_singleton.mpr rfl)
  obtain ⟨sb', h', hstep⟩ := add_joined h hg hs.window hs.narrow hs.fitsCapacity
  have hclean : sb'.cleanOldTimestamps = sb' :=
    cleanOldTimestamps_of_size_le (h'.size.trans_le hs.few)
  rw [hclean] at hstep
  rcases hstep with ⟨-, hstep⟩ | hstep
  · exact ⟨sb', hstep, h'⟩
  · exact ⟨sb', hstep, h'⟩

end Assembled

/-! ## The order of arrival -/

/-- Add the segments one after the other. -/
def addAll (sb : StreamBuffer) (segs : List Segment) : Except Panic StreamBuffer :=
  segs.foldlM (fun sb g => sb.step (.add g)) sb

theorem Scattered.sublist {capacity : ℤ} {base width : ℕ} {segs segs' : List Segment}
    (h : Scattered capacity base width segs) (hsub : segs'.Sublist segs) :
    Scattered capacity base width segs' :=
  ⟨hsub.length_le.trans h.few, h.beside.sublist hsub,
    fun g hg => h.window g (hsub.subset hg), h.narrow, h.fitsCapacity⟩

theorem Scattered.perm {capacity : ℤ} {base width : ℕ} {segs segs' : List Segment}
    (h : Scattered capacity base width segs) (hperm : segs.Perm segs') :
    Scattered capacity base width segs' := by
  refine ⟨hperm.length_eq ▸ h.few, ?_, fun g hg => h.window g (hperm.mem_iff.mpr hg), h.narrow,
    h.fitsCapacity⟩
  exact hperm.pairwise h.beside (fun {g k} hgk => Or.symm hgk)

theorem addAll_assembled {capacity : ℤ} {base width : ℕ} {done segs : List Segment}
    {sb : StreamBuffer} (h : Assembled capacity done sb)
    (hs : Scattered capacity base width (done ++ segs)) :
    ∃ sb', addAll sb segs = .ok sb' ∧ Assembled capacity (done ++ segs) sb' := by
  induction segs generalizing done sb with
  | nil => exact ⟨sb, rfl, by simpa using h⟩
  | cons g segs ih =>
      have hsplit : done ++ g :: segs = (done ++ [g]) ++ segs := by simp
      rw [hsplit] at hs ⊢
      obtain ⟨sb₁, hstep, h₁⟩ :=
        add_assembled h (hs.sublist (List.sublist_append_left _ _))
      obtain ⟨sb', hall, h'⟩ := ih h₁ hs
      refine ⟨sb', ?_, h'⟩
      rw [addAll, List.foldlM_cons, hstep]
      exact hall

theorem assembled_new (capacity : ℤ) : Assembled capacity [] (new capacity) where
  capacity_eq := rfl
  fits := by simp [new]
  apart := List.Pairwise.nil
  bytes := by simp [new, Stores]
  times := by simp [new]
  size := rfl

theorem Assembled.canonical {capacity : ℤ} {done : List Segment} {sb : StreamBuffer}
    (h : Assembled capacity done sb) : Canonical (sb.buffers.map Buffer.piece) := by
  refine ⟨?_, ?_⟩
  · intro x hx
    obtain ⟨b, hb, rfl⟩ := List.mem_map.mp hx
    exact (h.fits b hb).nonempty
  · rw [List.pairwise_map]
    exact h.apart

/-- Two states that hold the same segments are the same state. -/
theorem Assembled.unique {capacity : ℤ} {done done' : List Segment} {sb sb' : StreamBuffer}
    (h : Assembled capacity done sb) (h' : Assembled capacity done' sb')
    (hmem : ∀ g, g ∈ done ↔ g ∈ done') : sb = sb' := by
  have hpieces : sb.buffers.map Buffer.piece = sb'.buffers.map Buffer.piece := by
    refine h.canonical.ext h'.canonical (fun p a => ?_)
    rw [h.bytes, h'.bytes]
    simp only [hmem]
  have hinj : Function.Injective Buffer.piece := by
    rintro ⟨b, s⟩ ⟨b', s'⟩ heq
    cases heq
    rfl
  have htimes : sb.timestamps = sb'.timestamps := by
    refine SortedMap.ext_get? (fun k => Option.ext (fun t => ?_))
    rw [h.times, h'.times]
    simp only [hmem]
  have hbuffers := hinj.list_map hpieces
  have hcap := h.capacity_eq.trans h'.capacity_eq.symm
  cases sb
  cases sb'
  simp_all

/-- **Order independence.** Any two orders of the same scattered segments lead an
empty stream buffer to the same state: the maximal contiguous runs of their union
in ascending order, and the timestamp of every segment under its start. -/
theorem addAll_order_independent (capacity : ℤ) {base width : ℕ} {segs segs' : List Segment}
    (hs : Scattered capacity base width segs) (hperm : segs.Perm segs') :
    ∃ sb, addAll (new capacity) segs = .ok sb ∧ addAll (new capacity) segs' = .ok sb
      ∧ Canonical (sb.buffers.map Buffer.piece)
      ∧ (∀ p a, Stores (sb.buffers.map Buffer.piece) p a
          ↔ ∃ g ∈ segs, Holds (g.seq, g.data) p a)
      ∧ ∀ k t, sb.timestamps.get? k = some t ↔ ∃ g ∈ segs, g.seq = k ∧ g.ts = t := by
  have hnew := assembled_new capacity
  obtain ⟨sb, heq, h⟩ := addAll_assembled hnew (by simpa using hs)
  obtain ⟨sb', heq', h'⟩ := addAll_assembled hnew (by simpa using hs.perm hperm)
  rw [List.nil_append] at h h'
  have hsame : sb = sb' := h.unique h' (fun g => hperm.mem_iff)
  subst hsame
  exact ⟨sb, heq, heq', h.canonical, h.bytes, h.times⟩

/-- Bytes 6 to 8, which close the gap between `sampleHead` and bytes 9 on. -/
def sampleMiddle : Segment := ⟨6, [6, 7, 8], 4, by decide, by decide⟩

def sampleLast : Segment := ⟨9, [9, 10], 5, by decide, by decide⟩

/-- The closing segment may come last or in the middle. -/
theorem addAll_order_independent_sample : ∃ sb,
    addAll (new 1000) [sampleHead, sampleLast, sampleMiddle] = .ok sb
      ∧ addAll (new 1000) [sampleMiddle, sampleLast, sampleHead] = .ok sb := by
  have hs : Scattered 1000 0 100 [sampleHead, sampleLast, sampleMiddle] :=
    ⟨by decide, by simp [Beside, Segment.buffer, sampleHead, sampleLast, sampleMiddle],
      by simp [sampleHead, sampleLast, sampleMiddle], by decide, by decide⟩
  have hperm := (List.reverse_perm [sampleHead, sampleLast, sampleMiddle]).symm
  obtain ⟨sb, h1, h2, -⟩ := addAll_order_independent 1000 hs hperm
  exact ⟨sb, h1, h2⟩

end StreamBuffer

end Kyanos
