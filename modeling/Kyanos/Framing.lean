/-
Streams of frames that arrive in pieces.

A stream is a list of frames, one behind the other. Of its first `n` symbols some frames are whole and
the next one is cut: `whole` and `pending` are the frames on both sides of the cut, and `left` is how
much of the first pending one is there. Reading on from a cut is reading at once (`cut_add`), so what
has been read of a stream does not depend on the pieces it came in.

The pieces have stamps. A position has that of the last piece that starts at or before it
(`stampAt`), and later pieces do not change it (`stampAt_append`).
-/
import Mathlib.Data.List.Basic
import Mathlib.Algebra.Order.Group.Nat
import Mathlib.Algebra.BigOperators.Group.List.Basic

set_option autoImplicit false

universe u v w

namespace Framing

/-- What a frame looks like on the stream. -/
structure Layout (β : Type u) (φ : Type v) where
  bytes : φ → List β
  nonempty : ∀ f, bytes f ≠ []

namespace Layout

variable {β : Type u} {φ : Type v} (L : Layout β φ)

def len (f : φ) : ℕ := (L.bytes f).length

def stream (fs : List φ) : List β := fs.flatMap L.bytes

def total (fs : List φ) : ℕ := (L.stream fs).length

theorem len_pos (f : φ) : 0 < L.len f := List.length_pos_iff.mpr (L.nonempty f)

@[simp] theorem stream_nil : L.stream [] = [] := rfl

@[simp] theorem stream_cons (f : φ) (fs : List φ) : L.stream (f :: fs) = L.bytes f ++ L.stream fs := rfl

@[simp] theorem stream_append (fs gs : List φ) :
    L.stream (fs ++ gs) = L.stream fs ++ L.stream gs := List.flatMap_append

@[simp] theorem total_nil : L.total [] = 0 := rfl

@[simp] theorem total_cons (f : φ) (fs : List φ) : L.total (f :: fs) = L.len f + L.total fs :=
  List.length_append

@[simp] theorem total_append (fs gs : List φ) : L.total (fs ++ gs) = L.total fs + L.total gs := by
  rw [total, stream_append, List.length_append]
  rfl

/-! ## Where a stream is cut -/

/-- The frames that are whole in the first `n` symbols. -/
def whole : List φ → ℕ → List φ
  | [], _ => []
  | f :: fs, n => if L.len f ≤ n then f :: whole fs (n - L.len f) else []

/-- The frames that are not. -/
def pending : List φ → ℕ → List φ
  | [], _ => []
  | f :: fs, n => if L.len f ≤ n then pending fs (n - L.len f) else f :: fs

/-- How much of the first of these is there. -/
def left : List φ → ℕ → ℕ
  | [], n => n
  | f :: fs, n => if L.len f ≤ n then left fs (n - L.len f) else n

section Cut

variable {L} {fs : List φ} {n : ℕ}

theorem cut_cons_of_le {f : φ} (fs : List φ) (h : L.len f ≤ n) :
    L.whole (f :: fs) n = f :: L.whole fs (n - L.len f)
      ∧ L.pending (f :: fs) n = L.pending fs (n - L.len f)
      ∧ L.left (f :: fs) n = L.left fs (n - L.len f) :=
  ⟨if_pos h, if_pos h, if_pos h⟩

theorem cut_cons_of_lt {f : φ} (fs : List φ) (h : n < L.len f) :
    L.whole (f :: fs) n = [] ∧ L.pending (f :: fs) n = f :: fs ∧ L.left (f :: fs) n = n :=
  ⟨if_neg (Nat.not_le.mpr h), if_neg (Nat.not_le.mpr h), if_neg (Nat.not_le.mpr h)⟩

/-- Nothing is read of nothing. -/
theorem cut_zero (L : Layout β φ) (fs : List φ) :
    L.whole fs 0 = [] ∧ L.pending fs 0 = fs ∧ L.left fs 0 = 0 := by
  rcases fs with _ | ⟨f, fs⟩
  · exact ⟨rfl, rfl, rfl⟩
  · exact cut_cons_of_lt fs (L.len_pos f)

theorem whole_append_pending (L : Layout β φ) (fs : List φ) (n : ℕ) :
    L.whole fs n ++ L.pending fs n = fs := by
  induction fs generalizing n with
  | nil => rfl
  | cons f fs ih =>
      rw [whole, pending]
      split_ifs
      · rw [List.cons_append, ih]
      · rfl

theorem total_whole_add_left (L : Layout β φ) (fs : List φ) (n : ℕ) :
    L.total (L.whole fs n) + L.left fs n = n := by
  induction fs generalizing n with
  | nil => exact Nat.zero_add n
  | cons f fs ih =>
      rw [whole, left]
      split_ifs with hle
      · have hrest := ih (n - L.len f)
        rw [total_cons]
        omega
      · exact Nat.zero_add n

/-- Within the stream, nothing is there behind the last frame. -/
theorem left_le (h : n ≤ L.total fs) : L.left fs n ≤ L.total (L.pending fs n) := by
  have hsplit : L.total fs = L.total (L.whole fs n) + L.total (L.pending fs n) := by
    rw [← total_append, whole_append_pending]
  have hleft := L.total_whole_add_left fs n
  omega

/-- **Reading on.** Behind whole frames the cut is that of the frames that follow. -/
theorem cut_append (L : Layout β φ) (done rest : List φ) (k : ℕ) :
    L.whole (done ++ rest) (L.total done + k) = done ++ L.whole rest k
      ∧ L.pending (done ++ rest) (L.total done + k) = L.pending rest k
      ∧ L.left (done ++ rest) (L.total done + k) = L.left rest k := by
  induction done with
  | nil =>
      rw [total_nil, Nat.zero_add]
      exact ⟨rfl, rfl, rfl⟩
  | cons f done ih =>
      have hle : L.len f ≤ L.total (f :: done) + k := by
        rw [total_cons]
        omega
      have hrest : L.total (f :: done) + k - L.len f = L.total done + k := by
        rw [total_cons]
        omega
      obtain ⟨hwhole, hpending, hleft⟩ := ih
      rw [List.cons_append, whole, pending, left, if_pos hle, if_pos hle, if_pos hle, hrest, hwhole,
        hpending, hleft]
      exact ⟨rfl, rfl, rfl⟩

/-- More symbols are read behind the cut of those that were there. -/
theorem cut_add (L : Layout β φ) (fs : List φ) (n m : ℕ) :
    L.whole fs (n + m) = L.whole fs n ++ L.whole (L.pending fs n) (L.left fs n + m)
      ∧ L.pending fs (n + m) = L.pending (L.pending fs n) (L.left fs n + m)
      ∧ L.left fs (n + m) = L.left (L.pending fs n) (L.left fs n + m) := by
  have hsplit := L.cut_append (L.whole fs n) (L.pending fs n) (L.left fs n + m)
  rw [whole_append_pending, ← Nat.add_assoc, total_whole_add_left] at hsplit
  exact hsplit

/-- Symbols of one frame make that frame whole, or none. -/
theorem cut_within {f : φ} {m : ℕ} (hf : f ∈ (L.pending fs n).head?) (hm : L.left fs n + m ≤ L.len f) :
    (L.left fs n + m < L.len f ∧ L.whole (L.pending fs n) (L.left fs n + m) = []
        ∧ L.left fs (n + m) = L.left fs n + m)
      ∨ L.left fs n + m = L.len f ∧ L.whole (L.pending fs n) (L.left fs n + m) = [f]
        ∧ L.left fs (n + m) = 0 := by
  obtain ⟨-, -, hleft⟩ := L.cut_add fs n m
  rw [hleft]
  rcases hpending : L.pending fs n with _ | ⟨g, gs⟩
  · rw [hpending] at hf
    cases hf
  · rw [hpending] at hf
    cases hf
    rcases Nat.lt_or_eq_of_le hm with hlt | heq
    · obtain ⟨hwhole, -, hleft'⟩ := cut_cons_of_lt gs hlt
      exact Or.inl ⟨hlt, hwhole, hleft'⟩
    · -- The frame ends here, and behind it there is nothing.
      obtain ⟨hwhole, -, hleft'⟩ := cut_cons_of_le gs heq.ge
      obtain ⟨hzero, -, hzero'⟩ := L.cut_zero gs
      rw [heq, Nat.sub_self] at hwhole hleft'
      rw [heq, hwhole, hleft', hzero, hzero']
      exact Or.inr ⟨rfl, rfl, rfl⟩

/-- Behind the frames that are whole, the stream is that of the pending ones. -/
theorem drop_stream (L : Layout β φ) (fs : List φ) (n : ℕ) :
    (L.stream fs).drop n = (L.stream (L.pending fs n)).drop (L.left fs n) := by
  have hsplit := L.total_whole_add_left fs n
  calc (L.stream fs).drop n
      = (L.stream (L.whole fs n) ++ L.stream (L.pending fs n)).drop
          (L.total (L.whole fs n) + L.left fs n) := by
        rw [← stream_append, whole_append_pending, hsplit]
    _ = (L.stream (L.pending fs n)).drop (L.left fs n) := by
        rw [total, List.drop_append, List.drop_eq_nil_of_le (Nat.le_add_right _ _), List.nil_append,
          Nat.add_sub_cancel_left]

/-- The next part of a stream, behind what is left of it. -/
theorem take_pending {data : List β} (hdata : data <+: (L.stream fs).drop n) :
    (L.stream (L.pending fs n)).take (L.left fs n + data.length)
      = (L.stream (L.pending fs n)).take (L.left fs n) ++ data := by
  rw [drop_stream, List.prefix_iff_eq_take] at hdata
  rw [List.take_add, ← hdata]

/-- There are no more whole frames than frames. -/
theorem length_whole_le (L : Layout β φ) (fs : List φ) (n : ℕ) : (L.whole fs n).length ≤ fs.length := by
  have hsplit := congrArg List.length (L.whole_append_pending fs n)
  rw [List.length_append] at hsplit
  omega

end Cut

/-! ## Where the frames are -/

/-- The frames with the positions they start at, the first one at `pos`. -/
def placed : ℕ → List φ → List (ℕ × φ)
  | _, [] => []
  | pos, f :: fs => (pos, f) :: placed (pos + L.len f) fs

theorem placed_append (pos : ℕ) (fs gs : List φ) :
    L.placed pos (fs ++ gs) = L.placed pos fs ++ L.placed (pos + L.total fs) gs := by
  induction fs generalizing pos with
  | nil => rfl
  | cons f fs ih =>
      rw [List.cons_append, placed, placed, ih, total_cons, List.cons_append, Nat.add_assoc]

theorem placed_map_snd (pos : ℕ) (fs : List φ) : (L.placed pos fs).map Prod.snd = fs := by
  induction fs generalizing pos with
  | nil => rfl
  | cons f fs ih => rw [placed, List.map_cons, ih]

/-- A frame begins and ends within the stream. -/
theorem placed_bounds {pos : ℕ} {fs : List φ} {q : ℕ × φ} (hq : q ∈ L.placed pos fs) :
    pos ≤ q.1 ∧ q.1 + L.len q.2 ≤ pos + L.total fs := by
  induction fs generalizing pos with
  | nil => cases hq
  | cons f fs ih =>
      rw [total_cons]
      rcases List.mem_cons.mp hq with rfl | hq
      · exact ⟨le_rfl, by dsimp only; omega⟩
      · have hbounds := ih hq
        omega

end Layout

/-! ## Stamps -/

section Stamps

variable {τ : Type w}

/-- The stamp of the last piece that starts at or before a position. -/
def stampAt (pieces : List (ℕ × τ)) (pos : ℕ) : Option τ :=
  (pieces.filter fun piece => piece.1 ≤ pos).getLast?.map Prod.snd

/-- A later piece is that of the positions from its start on. -/
theorem stampAt_append (pieces : List (ℕ × τ)) (start : ℕ) (stamp : τ) (pos : ℕ) :
    stampAt (pieces ++ [(start, stamp)]) pos
      = if start ≤ pos then some stamp else stampAt pieces pos := by
  unfold stampAt
  rw [List.filter_append, List.filter_singleton]
  by_cases hle : start ≤ pos
  · rw [if_pos hle, decide_eq_true hle, cond_true, List.getLast?_concat]
    rfl
  · rw [if_neg hle, decide_eq_false hle, cond_false, List.append_nil]

/-- A stamp is that of a piece. -/
theorem mem_of_stampAt {pieces : List (ℕ × τ)} {pos : ℕ} {stamp : τ}
    (h : stampAt pieces pos = some stamp) : ∃ start, (start, stamp) ∈ pieces := by
  obtain ⟨⟨start, _⟩, hlast, rfl⟩ := Option.map_eq_some_iff.mp h
  exact ⟨start, (List.mem_filter.mp (List.mem_of_getLast? hlast)).1⟩

/-- A position behind the start of a piece has a stamp. -/
theorem stampAt_of_mem {pieces : List (ℕ × τ)} {start pos : ℕ} {stamp : τ} (h : (start, stamp) ∈ pieces)
    (hle : start ≤ pos) : ∃ stamp', stampAt pieces pos = some stamp' := by
  have hmem : (start, stamp) ∈ pieces.filter fun piece => piece.1 ≤ pos :=
    List.mem_filter.mpr ⟨h, decide_eq_true hle⟩
  unfold stampAt
  rcases hlast : (pieces.filter fun piece => piece.1 ≤ pos).getLast? with _ | piece
  · rw [List.getLast?_eq_none_iff.mp hlast] at hmem
    cases hmem
  · exact ⟨piece.2, by rw [hlast]; rfl⟩

end Stamps

end Framing
