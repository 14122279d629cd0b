/-
What length-encoded numbers and strings come back as.

A number of up to eight bytes is read at any place of a message, as a signed number of 64 bits. A
string is read by its length, and that fails in two ways. A length of eight bytes is taken as it is:
added to the offset it may wrap around, the comparison with the end of the message then lets it
through, and the slice panics. And a length of zero stands for the null value, so an empty string
comes back as `NULL`.
-/
import Kyanos.MysqlReadable
import Kyanos.MysqlWire

set_option autoImplicit false

open Trace

namespace Kyanos.Mysql

section Offsets

variable {s : GoString} {offset : ℤ}

/-- A number that is read takes at least its mark. -/
theorem processLengthEncodedInt_advances (hlo : 0 ≤ offset) (hhi : offset ≤ s.length) :
    ∃ n next ok, processLengthEncodedInt s offset = .ok (n, next, ok)
      ∧ (ok = true → offset < next ∧ next ≤ s.length) := by
  unfold processLengthEncodedInt
  by_cases hempty : s.length = 0
  · exact ⟨-1, offset, false, if_pos hempty, by simp⟩
  rw [if_neg hempty, slice_rest hlo hhi, ok_bind]
  have hlen : (s.drop offset.toNat).length = s.length - offset.toNat := List.length_drop
  rcases hrest : s.drop offset.toNat with _ | ⟨b, rest⟩
  · exact ⟨-1, offset, false, rfl, by simp⟩
  rw [hrest, List.length_cons] at hlen
  dsimp only
  split_ifs
  all_goals refine ⟨_, _, _, rfl, fun hok => ?_⟩
  all_goals first
    | exact absurd hok Bool.false_ne_true
    | omega

/-- A string returns just when it is not overlong, and one that is there takes at least its length. -/
theorem dissectStringParam_advances_iff (hlo : 0 ≤ offset) (hhi : offset ≤ s.length) :
    (∃ value next ok, dissectStringParam s offset = .ok (value, next, ok)
      ∧ (ok = true → offset < next ∧ next ≤ s.length)) ↔ overlong s offset = false := by
  obtain ⟨n, next, ok, hread, hadvances⟩ := processLengthEncodedInt_advances hlo hhi
  unfold dissectStringParam overlong
  rw [hread, ok_bind]
  rcases ok with _ | _
  · exact iff_of_true ⟨[], next, false, rfl, by simp⟩ rfl
  obtain ⟨hlt, hlen⟩ := hadvances rfl
  simp only [Bool.not_true, Bool.false_or, decide_eq_true_eq, ne_eq, Bool.and_eq_false_iff,
    decide_eq_false_iff_not, not_not]
  split_ifs with hshort hzero
  · exact iff_of_true ⟨[], next, false, rfl, by simp⟩ (Or.inr (by omega))
  · exact iff_of_true ⟨text "NULL", next, true, rfl, fun _ => ⟨hlt, hlen⟩⟩ (Or.inl hzero)
  by_cases hwraps : intOf 64 (next + n) < next
  · rw [slice, if_neg (by omega), error_bind]
    refine iff_of_false ?_ (by omega)
    rintro ⟨value, next', ok, ⟨⟩, -⟩
  · rw [slice, if_pos ⟨by omega, by omega, by omega⟩, ok_bind]
    exact iff_of_true ⟨_, _, true, rfl, fun _ => ⟨by omega, by omega⟩⟩ (Or.inr hwraps)

end Offsets

section Encodings

variable {front tail : GoString}

theorem dissectStringParam_lenencString_iff {w : GoString}
    (hfits : (front ++ lenencString w).length < 2 ^ 63) :
    dissectStringParam (front ++ (lenencString w ++ tail)) front.length
      = .ok (w, (front ++ lenencString w).length, true) ↔ w ≠ [] := by
  rw [dissectStringParam_lenencString hfits]
  split_ifs with hempty
  · rw [hempty]
    exact iff_of_false (by simp [text]) (not_not_intro rfl)
  · exact iff_of_true rfl hempty

end Encodings

/-- **Length-encoded values.** At every offset in a message a number is read, or is not there, without
a panic; a string returns just when it is not overlong. What is written comes back: a number with all
of its 64 bits, and a string just when it is not empty. -/
theorem lengthEncoded_iff {s front tail w : GoString} {offset : ℤ} (v : BitVec 64)
    (hlo : 0 ≤ offset) (hhi : offset ≤ s.length)
    (hfits : (front ++ (lenencString w ++ tail)).length < 2 ^ 63) :
    ((∃ n next ok, processLengthEncodedInt s offset = .ok (n, next, ok)
        ∧ (ok = true → offset < next ∧ next ≤ s.length))
      ∧ ((∃ value next ok, dissectStringParam s offset = .ok (value, next, ok)
        ∧ (ok = true → offset < next ∧ next ≤ s.length)) ↔ overlong s offset = false))
      ∧ processLengthEncodedInt (front ++ (lenencInt v.toNat ++ tail)) front.length
        = .ok (v.toInt, (front ++ lenencInt v.toNat).length, true)
      ∧ (dissectStringParam (front ++ (lenencString w ++ tail)) front.length
        = .ok (w, (front ++ lenencString w).length, true) ↔ w ≠ []) := by
  refine ⟨⟨processLengthEncodedInt_advances hlo hhi, dissectStringParam_advances_iff hlo hhi⟩, ?_, ?_⟩
  · rw [← intOf_toNat]
    exact processLengthEncodedInt_unsigned v.isLt
  · refine dissectStringParam_lenencString_iff ?_
    rw [← List.append_assoc, List.length_append] at hfits
    omega

/-- A byte that says five, and the five bytes. -/
theorem lengthEncoded_iff_sample :
    dissectStringParam ([0x77] ++ (lenencString (text "mysql") ++ [])) 1
      = .ok (text "mysql", 7, true) :=
  (@lengthEncoded_iff [] [0x77] [] (text "mysql") 0 0 le_rfl le_rfl (by decide)).2.2.mpr (by decide)

/-- A length of 2 ^ 64 - 1 is less than none, and the string ends before it begins. -/
theorem huge_length_panics :
    ¬ ∀ (s : GoString) (offset : ℤ), 0 ≤ offset → offset ≤ s.length →
      ∃ value next ok, dissectStringParam s offset = .ok (value, next, ok) := by
  intro h
  obtain ⟨value, next, ok, hread⟩ :=
    h [0xfe, 0xff, 0xff, 0xff, 0xff, 0xff, 0xff, 0xff, 0xff] 0 le_rfl (by decide)
  have hpanic : dissectStringParam [0xfe, 0xff, 0xff, 0xff, 0xff, 0xff, 0xff, 0xff, 0xff] 0
      = .error .sliceOutOfRange := rfl
  rw [hpanic] at hread
  cases hread

end Kyanos.Mysql
