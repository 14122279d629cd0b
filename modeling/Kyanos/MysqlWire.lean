/-
The wire format of MySQL: numbers and strings with their length before them, and the
definition of a column.

A number below 251 is one byte; the bytes from 252 on say how many bytes it has behind them. The
functions of the source take an offset, so what is written is read back at its place in a
message: behind some bytes, and before others.
-/
import Kyanos.MysqlPackets

set_option autoImplicit false

open Trace

namespace Kyanos.Mysql

/-- A length-encoded number. -/
def lenencInt (n : ℕ) : GoString :=
  if n < 251 then [UInt8.ofNat n]
  else if n < 2 ^ 16 then 0xfc :: leBytes 2 n
  else if n < 2 ^ 24 then 0xfd :: leBytes 3 n
  else 0xfe :: leBytes 8 n

/-- A string with its length. -/
def lenencString (str : GoString) : GoString := lenencInt str.length ++ str

section Reading

variable {front tail : GoString} {n : ℕ}

/-- What is written in as many bytes as a type has bits for is read back, as a number of the type. -/
theorem lEndianBytesToKInt_leBytes {w k : ℕ} (hn : n < 256 ^ k) (hw : 8 * k ≤ w)
    (tail : GoString) : lEndianBytesToKInt w (leBytes k n ++ tail) k = (intOf w n, true) := by
  have htake : (leBytes k n ++ tail).take k = leBytes k n :=
    List.take_left' (leBytes_length k n)
  have hlong : ¬ (leBytes k n ++ tail).length < k := by
    rw [List.length_append, leBytes_length]
    omega
  unfold lEndianBytesToKInt
  rw [if_neg (by omega), if_neg hlong, htake, littleEndian_leBytes, Nat.mod_eq_of_lt hn]

/-- A number of up to eight bytes is read as a signed one. -/
theorem processLengthEncodedInt_unsigned (hn : n < 2 ^ 64) :
    processLengthEncodedInt (front ++ (lenencInt n ++ tail)) front.length
      = .ok (intOf 64 n, (front ++ lenencInt n).length, true) := by
  have hpos : (front ++ (lenencInt n ++ tail)).length ≠ 0 := by
    rw [List.length_append, List.length_append]
    unfold lenencInt
    split_ifs <;> simp
  rw [processLengthEncodedInt, if_neg hpos, slice_append, ok_bind]
  -- Behind the mark there are as many bytes as it says.
  have hwide : ∀ k, n < 256 ^ k → k ≤ 8 →
      (if (leBytes k n ++ tail).length < k then ((-1 : ℤ), (front.length : ℤ), false)
        else ((lEndianBytesToKInt 64 (leBytes k n ++ tail) k).1, (front.length : ℤ) + 1 + k, true))
        = (intOf 64 n, (front.length : ℤ) + 1 + k, true) := by
    intro k hlt hk
    rw [if_neg (by rw [List.length_append, leBytes_length]; omega),
      lEndianBytesToKInt_leBytes hlt (show 8 * k ≤ 64 by omega)]
  unfold lenencInt
  split_ifs with hone htwo hthree
  · have hnat : (UInt8.ofNat n).toNat = n :=
      UInt8.toNat_ofNat_of_lt' (hone.trans (by decide))
    have hb : ∀ b : UInt8, 251 ≤ b.toNat → UInt8.ofNat n ≠ b := by
      intro b hb heq
      rw [← heq, hnat] at hb
      omega
    dsimp only [List.cons_append, List.nil_append]
    rw [if_neg (hb 0xfb (by decide)), if_neg (hb 0xfc (by decide)), if_neg (hb 0xfd (by decide)),
      if_neg (hb 0xfe (by decide)), hnat, List.length_append, intOf_of_lt (by omega) (by omega)]
    rfl
  · dsimp only [List.cons_append]
    rw [if_neg (by decide), if_pos rfl, hwide 2 (by omega) (by decide), List.length_append,
      List.length_cons, leBytes_length]
    rfl
  · dsimp only [List.cons_append]
    rw [if_neg (by decide), if_neg (by decide), if_pos rfl, hwide 3 (by omega) (by decide),
      List.length_append, List.length_cons, leBytes_length]
    rfl
  · dsimp only [List.cons_append]
    rw [if_neg (by decide), if_neg (by decide), if_neg (by decide), if_pos rfl,
      hwide 8 (by omega) (by decide), List.length_append, List.length_cons, leBytes_length]
    rfl

theorem processLengthEncodedInt_lenencInt (hn : n < 2 ^ 63) :
    processLengthEncodedInt (front ++ (lenencInt n ++ tail)) front.length
      = .ok (n, (front ++ lenencInt n).length, true) := by
  rw [processLengthEncodedInt_unsigned (by omega), intOf_of_lt (by omega) (by omega)]

/-- A string is read back, but an empty one as `NULL`. -/
theorem dissectStringParam_lenencString {str : GoString}
    (hfits : (front ++ lenencString str).length < 2 ^ 63) :
    dissectStringParam (front ++ (lenencString str ++ tail)) front.length
      = .ok (if str = [] then text "NULL" else str, (front ++ lenencString str).length, true) := by
  have hlen : (front ++ lenencString str).length
      = (front ++ lenencInt str.length).length + str.length := by
    rw [lenencString, ← List.append_assoc, List.length_append]
  have hsum : intOf 64 ((front ++ lenencInt str.length).length + (str.length : ℤ))
      = (front ++ lenencString str).length := by
    rw [hlen, intOf_of_lt (by omega) (by omega)]
    push_cast
    rfl
  have hmsg : front ++ (lenencString str ++ tail)
      = front ++ (lenencInt str.length ++ (str ++ tail)) := by
    rw [lenencString, List.append_assoc]
  rw [dissectStringParam, hmsg, processLengthEncodedInt_lenencInt (by omega), ok_bind]
  dsimp only
  rw [hsum, if_neg (by
    rw [← hmsg]
    simp only [Bool.not_true, Bool.false_or, decide_eq_true_eq, List.length_append]
    omega)]
  rcases str with _ | ⟨x, str⟩
  · rw [if_pos (by rfl), if_pos rfl, hlen]
    rfl
  · have hslice := slice_middle (front ++ lenencInt (x :: str).length) (x :: str) tail
    have hback : (front ++ lenencInt (x :: str).length) ++ (x :: str)
        = front ++ lenencString (x :: str) := by
      rw [lenencString, List.append_assoc]
    rw [hback, List.append_assoc] at hslice
    rw [if_neg (by simp; omega), if_neg (List.cons_ne_nil x str), hslice]
    rfl

/-- The mark of a null value. -/
theorem dissectStringParam_null (hfits : (front ++ [0xfb]).length < 2 ^ 63) :
    dissectStringParam (front ++ (0xfb :: tail)) front.length
      = .ok (text "NULL", (front ++ [0xfb]).length, true) := by
  have hlen : (front ++ (0xfb :: tail)).length = front.length + (tail.length + 1) := by
    rw [List.length_append, List.length_cons]
  have hone : (front ++ [(0xfb : UInt8)]).length = front.length + 1 := by
    rw [List.length_append, List.length_singleton]
  have hmark : processLengthEncodedInt (front ++ (0xfb :: tail)) front.length
      = .ok (0, (front ++ [0xfb]).length, true) := by
    rw [processLengthEncodedInt, if_neg (by omega), slice_append, ok_bind, hone]
    rfl
  have hsum : intOf 64 ((front ++ [(0xfb : UInt8)]).length + 0) = (front ++ [0xfb]).length := by
    rw [intOf_of_lt (by omega) (by omega), add_zero]
  have henough : ¬ ((front ++ (0xfb :: tail)).length : ℤ) < (front ++ [(0xfb : UInt8)]).length := by
    omega
  rw [dissectStringParam, hmark, ok_bind]
  dsimp only
  rw [hsum, Bool.not_true, Bool.false_or, decide_eq_false henough]
  rfl

theorem dissectInt_bytes {w k : ℕ} {field : GoString} (hk : field.length = k) :
    dissectInt w (front ++ (field ++ tail)) front.length k
      = .ok ((lEndianBytesToKInt w (field ++ tail) k).1, (front ++ field).length, true) := by
  have hlen : (front ++ (field ++ tail)).length = front.length + (k + tail.length) := by
    rw [List.length_append, List.length_append, hk]
  rw [dissectInt, if_neg (by omega), slice_append, ok_bind, List.length_append, hk]
  rfl

/-! The same along a message: what was read is put to what is in front. -/

theorem processLengthEncodedInt_along {msg : GoString} (h : msg = front ++ (lenencInt n ++ tail))
    (hn : n < 2 ^ 63) : processLengthEncodedInt msg front.length
        = .ok (n, (front ++ lenencInt n).length, true)
      ∧ msg = (front ++ lenencInt n) ++ tail := by
  have hread := @processLengthEncodedInt_lenencInt front tail n hn
  rw [← h] at hread
  exact ⟨hread, by rw [h, List.append_assoc]⟩

theorem dissectStringParam_along {msg str : GoString} (h : msg = front ++ (lenencString str ++ tail))
    (hfits : msg.length < 2 ^ 63) : dissectStringParam msg front.length
        = .ok (if str = [] then text "NULL" else str, (front ++ lenencString str).length, true)
      ∧ msg = (front ++ lenencString str) ++ tail := by
  have hback : msg = (front ++ lenencString str) ++ tail := by
    rw [h, List.append_assoc]
  refine ⟨?_, hback⟩
  rw [h]
  refine dissectStringParam_lenencString ?_
  rw [hback, List.length_append] at hfits
  omega

theorem dissectInt_along {w k : ℕ} {msg field : GoString} (h : msg = front ++ (field ++ tail))
    (hk : field.length = k) : dissectInt w msg front.length k
        = .ok ((lEndianBytesToKInt w (field ++ tail) k).1, (front ++ field).length, true)
      ∧ msg = (front ++ field) ++ tail := by
  have hread := @dissectInt_bytes front tail w k field hk
  rw [← h] at hread
  exact ⟨hread, by rw [h, List.append_assoc]⟩

end Reading

/-! ## Columns -/

/-- What the definition of a column says. -/
structure ColumnFields where
  schema : GoString
  table : GoString
  orgTable : GoString
  name : GoString
  orgName : GoString
  characterSet : BitVec 16
  columnLength : BitVec 32
  columnType : BitVec 8
  flags : BitVec 16
  decimals : BitVec 8
  filler : GoString

def ColumnFields.bytes (c : ColumnFields) : GoString :=
  lenencString (text "def") ++ (lenencString c.schema ++ (lenencString c.table
    ++ (lenencString c.orgTable ++ (lenencString c.name ++ (lenencString c.orgName
    ++ (lenencInt 12 ++ (leBytes 2 c.characterSet.toNat ++ (leBytes 4 c.columnLength.toNat
    ++ (leBytes 1 c.columnType.toNat ++ (leBytes 2 c.flags.toNat ++ (leBytes 1 c.decimals.toNat
    ++ c.filler)))))))))))

/-- The definition of a column, in a packet whose length is an `int`. -/
abbrev ColumnDef := { c : ColumnFields // c.bytes.length < 2 ^ 63 }

/-- **A column is read from its definition**, its type through a signed byte. -/
theorem processColumnDefPacket_type (c : ColumnDef) {packet : MysqlPacket}
    (h : packet.msg = c.val.bytes) : ∃ colDef, processColumnDefPacket packet = .ok (some colDef)
      ∧ colDef.columnType = c.val.columnType.toInt := by
  obtain ⟨c, hfits⟩ := c
  rw [← h] at hfits
  have h₀ : packet.msg = [] ++ c.bytes := h
  unfold ColumnFields.bytes at h₀
  obtain ⟨hcatalog, h₁⟩ := dissectStringParam_along h₀ hfits
  obtain ⟨hschema, h₂⟩ := dissectStringParam_along h₁ hfits
  obtain ⟨htable, h₃⟩ := dissectStringParam_along h₂ hfits
  obtain ⟨horgTable, h₄⟩ := dissectStringParam_along h₃ hfits
  obtain ⟨hname, h₅⟩ := dissectStringParam_along h₄ hfits
  obtain ⟨horgName, h₆⟩ := dissectStringParam_along h₅ hfits
  obtain ⟨hnext, h₇⟩ := processLengthEncodedInt_along h₆ (by decide)
  obtain ⟨hcharacterSet, h₈⟩ := dissectInt_along (w := 16) h₇ (leBytes_length 2 _)
  obtain ⟨hcolumnLength, h₉⟩ := dissectInt_along (w := 32) h₈ (leBytes_length 4 _)
  obtain ⟨hcolumnType, h₁₀⟩ := dissectInt_along (w := 8) h₉ (leBytes_length 1 _)
  have htype : c.columnType.toNat < 256 ^ 1 := c.columnType.isLt
  rw [lEndianBytesToKInt_leBytes htype (le_refl 8)] at hcolumnType
  obtain ⟨hflags, h₁₁⟩ := dissectInt_along (w := 16) h₁₀ (leBytes_length 2 _)
  obtain ⟨hdecimals, -⟩ := dissectInt_along (w := 8) h₁₁ (leBytes_length 1 _)
  have hzero : dissectStringParam packet.msg 0 = _ := hcatalog
  have hdef : (if text "def" = [] then text "NULL" else text "def") = text "def" := by decide
  have htwelve : ¬ intOf 8 ((12 : ℕ) : ℤ) ≠ 12 := by decide
  unfold processColumnDefPacket
  dsimp only
  rw [hzero, ok_bind]
  dsimp only
  rw [hdef, if_neg (by simp), hschema, ok_bind]
  dsimp only
  rw [if_neg (by simp), htable, ok_bind]
  dsimp only
  rw [if_neg (by simp), horgTable, ok_bind]
  dsimp only
  rw [if_neg (by simp), hname, ok_bind]
  dsimp only
  rw [if_neg (by simp), horgName, ok_bind]
  dsimp only
  rw [if_neg (by simp), hnext, ok_bind]
  dsimp only
  rw [if_neg htwelve, hcharacterSet, ok_bind]
  dsimp only
  rw [if_neg (by simp), hcolumnLength, ok_bind]
  dsimp only
  rw [if_neg (by simp), hcolumnType, ok_bind]
  dsimp only
  rw [if_neg (by simp), hflags, ok_bind]
  dsimp only
  rw [if_neg (by simp), hdecimals, ok_bind]
  have hsigned := intOf_toNat c.columnType
  generalize intOf 8 (c.columnType.toNat : ℤ) = columnType at hsigned ⊢
  exact ⟨_, rfl, hsigned⟩

theorem processColumnDefPacket_bytes (c : ColumnDef) {packet : MysqlPacket}
    (h : packet.msg = c.val.bytes) : ∃ colDef, processColumnDefPacket packet = .ok (some colDef) := by
  obtain ⟨colDef, hread, -⟩ := processColumnDefPacket_type c h
  exact ⟨colDef, hread⟩

end Kyanos.Mysql
