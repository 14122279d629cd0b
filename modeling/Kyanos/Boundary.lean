/-
What a search for a boundary finds, and what is left of a stream buffer when the bytes before it are
removed.

A `FindBoundary` that looks at one position after the other and never gives up finds the first
position its test accepts (`FirstAt`). The parser then sees the same bytes from there on: they are
the head of the buffer that `RemovePrefix` leaves, and the time of a byte in it is known if that of
the byte at the head was.
-/
import Kyanos.Decoder

set_option autoImplicit false

open GoNum Trace

namespace Kyanos

/-- The first position from `startPos` on that has the property, or -1 if none before `last` has. -/
def FirstAt (P : ℤ → Prop) (startPos last pos : ℤ) : Prop :=
  pos = -1 ∧ (∀ i, startPos ≤ i → i < last → ¬ P i)
    ∨ startPos ≤ pos ∧ pos < last ∧ P pos ∧ ∀ i, startPos ≤ i → i < pos → ¬ P i

section FirstAt

variable {P Q : ℤ → Prop} {startPos last pos : ℤ}

theorem FirstAt.sound (h : FirstAt P startPos last pos) (hpos : 0 ≤ pos) :
    startPos ≤ pos ∧ pos < last ∧ P pos := by
  rcases h with ⟨rfl, -⟩ | ⟨hlo, hhi, hP, -⟩
  · omega
  · exact ⟨hlo, hhi, hP⟩

theorem FirstAt.least (h : FirstAt P startPos last pos) {i : ℤ} (hlo : startPos ≤ i) (hhi : i < last)
    (hP : P i) : startPos ≤ pos ∧ pos ≤ i ∧ P pos := by
  rcases h with ⟨-, hnone⟩ | ⟨hstart, -, hpos, hfirst⟩
  · exact absurd hP (hnone i hlo hhi)
  · refine ⟨hstart, ?_, hpos⟩
    by_contra hlt
    exact hfirst i hlo (by omega) hP

theorem FirstAt.unique {pos' : ℤ} (h : FirstAt P startPos last pos)
    (h' : FirstAt P startPos last pos') : pos = pos' := by
  rcases h with ⟨rfl, hnone⟩ | ⟨hlo, hhi, hpos, hfirst⟩ <;>
    rcases h' with ⟨rfl, hnone'⟩ | ⟨hlo', hhi', hpos', hfirst'⟩
  · rfl
  · exact absurd hpos' (hnone pos' hlo' hhi')
  · exact absurd hpos (hnone' pos hlo hhi)
  · by_contra hne
    rcases lt_or_gt_of_ne hne with hlt | hlt
    · exact hfirst' pos hlo hlt hpos
    · exact hfirst pos' hlo' hlt hpos'

/-- A property that implies another has its first position no earlier; it is the same one just when
the first position of the other has the property too. -/
theorem FirstAt.narrow_iff (hstart : 0 ≤ startPos) (himp : ∀ i, Q i → P i)
    (h : FirstAt P startPos last pos) :
    FirstAt Q startPos last pos ↔ (pos = -1 ∨ Q pos) := by
  constructor
  · rintro (⟨rfl, -⟩ | ⟨-, -, hQ, -⟩)
    · exact Or.inl rfl
    · exact Or.inr hQ
  · rcases h with ⟨rfl, hnone⟩ | ⟨hlo, hhi, -, hfirst⟩
    · intro _
      exact Or.inl ⟨rfl, fun i hi hi' hQ => hnone i hi hi' (himp i hQ)⟩
    · rintro (hnone | hQ)
      · omega
      · exact Or.inr ⟨hlo, hhi, hQ, fun i hi hi' hQ' => hfirst i hi hi' (himp i hQ')⟩

end FirstAt

section Scan

variable {probe : ℤ → Except Panic Probe} {P : ℤ → Prop} [DecidablePred P] {startPos last : ℤ}

theorem scanLoop_firstAt {n : ℕ} {i : ℤ}
    (hprobe : ∀ j, i ≤ j → j < i + n → probe j = .ok (if P j then .found else .next)) :
    ∃ pos, scanLoop probe n i = .ok pos ∧ FirstAt P i (i + n) pos := by
  induction n generalizing i with
  | zero =>
      refine ⟨-1, rfl, Or.inl ⟨rfl, ?_⟩⟩
      intro j hlo hhi
      omega
  | succ n ih =>
      rw [scanLoop, hprobe i le_rfl (by omega), ok_bind]
      by_cases hP : P i
      · rw [if_pos hP]
        exact ⟨i, rfl, Or.inr ⟨le_rfl, by omega, hP, fun j hlo hhi => by omega⟩⟩
      · rw [if_neg hP]
        obtain ⟨pos, hpos, hfirst⟩ := ih (i := i + 1) fun j hlo hhi =>
          hprobe j (by omega) (by push_cast; omega)
        refine ⟨pos, hpos, ?_⟩
        -- The position that was refused is put in front.
        have hfront : ∀ j, i ≤ j → (i + 1 ≤ j → ¬ P j) → ¬ P j := by
          intro j hlo hrest hj
          by_cases hji : j = i
          · exact hP (hji ▸ hj)
          · exact hrest (by omega) hj
        rcases hfirst with ⟨rfl, hnone⟩ | ⟨hlo, hhi, hpos', hfirst⟩
        · refine Or.inl ⟨rfl, fun j hj hj' => hfront j hj fun h => hnone j h ?_⟩
          push_cast at hj'
          omega
        · refine Or.inr ⟨by omega, ?_, hpos', fun j hj hj' => hfront j hj fun h => hfirst j h hj'⟩
          push_cast
          omega

/-- **A search** that goes on wherever its test refuses finds the first position it accepts. -/
theorem scan_firstAt
    (hprobe : ∀ j, startPos ≤ j → j < last → probe j = .ok (if P j then .found else .next)) :
    ∃ pos, scan probe startPos last = .ok pos ∧ FirstAt P startPos last pos := by
  obtain ⟨pos, hpos, hfirst⟩ := scanLoop_firstAt (n := (last - startPos).toNat) (P := P)
    fun j hlo hhi => hprobe j hlo (by omega)
  refine ⟨pos, hpos, ?_⟩
  by_cases hlt : startPos ≤ last
  · rwa [Int.toNat_of_nonneg (by omega), add_sub_cancel] at hfirst
  · rw [Int.toNat_of_nonpos (by omega), Nat.cast_zero, add_zero] at hfirst
    rcases hfirst with ⟨rfl, -⟩ | ⟨hlo, hhi, -, -⟩
    · exact Or.inl ⟨rfl, fun i hi hi' => by omega⟩
    · omega

/-- The scan stops at its first position just when that is a boundary. -/
theorem scan_start_iff (hlast : startPos < last) (hstart : 0 ≤ startPos) :
    scan probe startPos last = .ok startPos ↔ probe startPos = .ok .found := by
  obtain ⟨n, hn⟩ : ∃ n, (last - startPos).toNat = n + 1 := ⟨(last - startPos).toNat - 1, by omega⟩
  rw [scan, hn, scanLoop]
  constructor
  · intro h
    obtain ⟨answer, hanswer, h⟩ := bind_eq_ok.mp h
    rcases answer with _ | _ | _
    · exact hanswer
    · rcases scanLoop_bounds h with hnone | hbounds <;> omega
    · have hpos : (-1 : ℤ) = startPos := by
        injection h
      omega
  · intro h
    rw [h]
    rfl

end Scan

/-! ## The bytes from a boundary on -/

/-- Less than the head is removed from it alone. -/
theorem StreamBuffer.removePrefix_head {sb : StreamBuffer} {head : Buffer} (hhead : sb.head = some head)
    {n : ℕ} (hn : n < head.buf.length) :
    ∃ sb' head', sb.removePrefix n = .ok sb' ∧ sb'.head = some head' ∧ head'.buf = head.buf.drop n
      ∧ sb'.timestamps = sb.timestamps
      ∧ (head.seq < 2 ^ 64 → head'.seq = u64 (head.seq + n)) := by
  obtain ⟨buffers, capacity, timestamps⟩ := sb
  rcases buffers with _ | ⟨b, rest⟩
  · cases hhead
  obtain rfl : b = head := Option.some.inj hhead
  have hlen : (b.len : ℤ) > n := by
    rw [Buffer.len]
    omega
  unfold StreamBuffer.removePrefix removePrefixLoop
  rw [if_neg (by simp [isEmpty])]
  by_cases hzero : (n : ℤ) = 0
  · obtain rfl : n = 0 := by omega
    rw [if_pos hzero, ok_bind]
    exact ⟨_, b, rfl, rfl, rfl, rfl, fun hseq => (u64_of_lt hseq).symm⟩
  · rw [if_neg hzero, if_pos hlen, Buffer.removePrefix, if_pos hlen, if_neg (by omega), ok_bind, ok_bind]
    refine ⟨_, _, rfl, rfl, rfl, rfl, fun _ => ?_⟩
    rw [ofInt64_of_nonneg (by omega), Int.toNat_natCast]

end Kyanos
