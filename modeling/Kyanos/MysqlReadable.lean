/-
Which MySQL packets can be read.

The decoders of `handler.go` index a packet without asking whether it has a byte, slice its null
bitmap without asking whether it is there, and add a length of eight bytes to an offset without
asking whether the sum wraps. What is here says of each decoder on which packets it returns: on
those with a byte in front, with a whole bitmap, and with no string among the ones that are read
whose length wraps (`overlongWithin`).

A decoder stops at the first thing it does not like, so what lies behind that is never asked for.
-/
import Kyanos.MysqlPackets

set_option autoImplicit false

open Trace

namespace Kyanos.Mysql

/-! ## Strings -/

/-- The string at the offset ends before it begins: its length is below zero, or wraps around with
the offset. -/
def overlong (msg : GoString) (offset : ℤ) : Bool :=
  match processLengthEncodedInt msg offset with
  | .ok (paramLength, next, true) => paramLength ≠ 0 && intOf 64 (next + paramLength) < next
  | _ => false

/-- Of the strings that follow each other from the offset on, one of the first `n` is overlong. -/
def overlongWithin (msg : GoString) : ℕ → ℤ → Bool
  | 0, _ => false
  | n + 1, offset => overlong msg offset ||
      match dissectStringParam msg offset with
      | .ok (_, next, true) => overlongWithin msg n next
      | _ => false

section Strings

variable {α : Type} {msg : GoString} {offset : ℤ}

/-- A string is overlong, or it can be read, or it is not there. -/
theorem dissectStringParam_cases (hlo : 0 ≤ offset) (hhi : offset ≤ msg.length) :
    (overlong msg offset = true ∧ ∃ e, dissectStringParam msg offset = .error e)
      ∨ overlong msg offset = false ∧ ∃ value next ok,
        dissectStringParam msg offset = .ok (value, next, ok) ∧ offset ≤ next ∧ next ≤ msg.length := by
  obtain ⟨paramLength, next, ok, hread, hlo', hhi'⟩ := processLengthEncodedInt_returns hlo hhi
  unfold dissectStringParam overlong
  rw [hread, ok_bind]
  rcases ok with _ | _
  · exact Or.inr ⟨rfl, [], next, false, rfl, hlo', hhi'⟩
  simp only [Bool.not_true, Bool.false_or, decide_eq_true_eq, ne_eq, Bool.and_eq_true,
    Bool.and_eq_false_iff, decide_eq_false_iff_not, not_not]
  split_ifs with hshort hzero
  · exact Or.inr ⟨Or.inr (by omega), [], next, false, rfl, hlo', hhi'⟩
  · exact Or.inr ⟨Or.inl hzero, text "NULL", next, true, rfl, hlo', hhi'⟩
  · by_cases hwraps : intOf 64 (next + paramLength) < next
    · refine Or.inl ⟨⟨hzero, hwraps⟩, .sliceOutOfRange, ?_⟩
      rw [slice, if_neg (by omega), error_bind]
    · rw [slice, if_pos ⟨by omega, by omega, by omega⟩, ok_bind]
      exact Or.inr ⟨Or.inr hwraps, _, _, true, rfl, by omega, by omega⟩

/-- Reading a string and going on behind it, or stopping when it is not there. -/
theorem returns_string_iff {stop : Except Panic α}
    {behind : GoString × ℤ × Bool → Except Panic α} {n : ℕ} (hlo : 0 ≤ offset)
    (hhi : offset ≤ msg.length) (hstop : Returns stop)
    (hbehind : ∀ value (next : ℤ), 0 ≤ next → next ≤ msg.length →
      (Returns (behind (value, next, true)) ↔ overlongWithin msg n next = false)) :
    Returns (do
      let read ← dissectStringParam msg offset
      if !read.2.2 then stop else behind read) ↔ overlongWithin msg (n + 1) offset = false := by
  rw [overlongWithin]
  rcases dissectStringParam_cases hlo hhi with ⟨hlong, e, hread⟩ | ⟨hlong, value, next, ok, hread, hle, hlen⟩
  · rw [hread, hlong, error_bind]
    exact iff_of_false (not_returns_error e) (by simp)
  · rw [hread, hlong, ok_bind, Bool.false_or]
    rcases ok with _ | _
    · exact iff_of_true hstop rfl
    · exact hbehind value next (hlo.trans hle) hlen

/-- A number never stands in the way. -/
theorem returns_int {w length : ℕ} {stop : Except Panic α} {behind : ℤ × ℤ × Bool → Except Panic α}
    (hlo : 0 ≤ offset) (hhi : offset ≤ msg.length) (hstop : Returns stop)
    (hbehind : ∀ value (next : ℤ), 0 ≤ next → next ≤ msg.length →
      Returns (behind (value, next, true))) :
    Returns (do
      let read ← dissectInt w msg offset length
      if !read.2.2 then stop else behind read) := by
  obtain ⟨value, next, ok, hread, hle, hlen, -⟩ := @dissectInt_returns msg offset w length hlo hhi
  rw [hread, ok_bind]
  rcases ok with _ | _
  · exact hstop
  · exact hbehind value next (hlo.trans hle) hlen

end Strings

/-! ## Kinds of packets -/

section Kinds

variable {packet : MysqlPacket}

theorem isErrPacket_returns_iff : Returns (isErrPacket packet) ↔ packet.msg ≠ [] := by
  rcases hmsg : packet.msg with _ | ⟨b, rest⟩
  · unfold isErrPacket
    rw [hmsg]
    exact iff_of_false (not_returns_error _) (fun h => h rfl)
  · rw [isErrPacket_cons hmsg]
    exact iff_of_true (returns_ok _) (List.cons_ne_nil b rest)

theorem isEOFPacketAll_returns_iff : Returns (isEOFPacketAll packet) ↔ packet.msg ≠ [] := by
  rcases hmsg : packet.msg with _ | ⟨b, rest⟩
  · unfold isEOFPacketAll isEOFPacket
    rw [hmsg]
    exact iff_of_false (not_returns_error _) (fun h => h rfl)
  · rw [isEOFPacketAll_cons hmsg]
    exact iff_of_true (returns_ok _) (List.cons_ne_nil b rest)

theorem isOkPacket_returns_iff : Returns (isOkPacket packet) ↔ packet.msg ≠ [] := by
  rcases hmsg : packet.msg with _ | ⟨b, rest⟩
  · unfold isOkPacket
    rw [hmsg]
    exact iff_of_false (not_returns_error _) (fun h => h rfl)
  · obtain ⟨ok, hok, -⟩ := isOkPacket_cons hmsg
    rw [hok]
    exact iff_of_true (returns_ok _) (List.cons_ne_nil b rest)

/-- Two numbers of an OK packet are there, and the flags behind them. -/
theorem isOkPacket_numbers (h : isOkPacket packet = .ok true) :
    ∃ v₁ o₁ v₂ o₂, processLengthEncodedInt packet.msg 1 = .ok (v₁, o₁, true)
      ∧ processLengthEncodedInt packet.msg o₁ = .ok (v₂, o₂, true)
      ∧ 0 ≤ o₂ ∧ o₂ < packet.msg.length := by
  unfold isOkPacket at h
  obtain ⟨header, hheader, h⟩ := bind_eq_ok.mp h
  have hpos : (1 : ℤ) ≤ packet.msg.length := by
    rcases hmsg : packet.msg with _ | ⟨b, rest⟩
    · rw [hmsg] at hheader
      cases hheader
    · rw [List.length_cons]
      omega
  obtain ⟨v₁, o₁, ok₁, hread₁, hlo₁, hhi₁⟩ :=
    processLengthEncodedInt_returns (by decide : (0 : ℤ) ≤ 1) hpos
  rw [hread₁, ok_bind] at h
  rcases ok₁ with _ | _
  · cases h
  obtain ⟨v₂, o₂, ok₂, hread₂, hlo₂, hhi₂⟩ :=
    processLengthEncodedInt_returns (by omega : 0 ≤ o₁) hhi₁
  simp only [Bool.not_true, Bool.false_eq_true, if_false] at h
  rw [hread₂, ok_bind] at h
  rcases ok₂ with _ | _
  · cases h
  obtain ⟨v₃, o₃, ok₃, hread₃, hlo₃, hhi₃, hsucc⟩ :=
    @dissectInt_returns packet.msg o₂ 16 2 (by omega) hhi₂
  simp only [Bool.not_true, Bool.false_eq_true, if_false] at h
  rw [hread₃, ok_bind] at h
  rcases ok₃ with _ | _
  · cases h
  have hnext := hsucc rfl
  exact ⟨v₁, o₁, v₂, o₂, hread₁, hread₂, by omega, by omega⟩

theorem moreResultsExist_returns (hmsg : packet.msg ≠ []) : Returns (moreResultsExist packet) := by
  unfold moreResultsExist
  refine returns_bind_iff.mpr ⟨isOkPacket_returns_iff.mpr hmsg, ?_⟩
  intro isOk hok
  split_ifs with his
  · rw [his] at hok
    obtain ⟨v₁, o₁, v₂, o₂, hread₁, hread₂, hlo, hhi⟩ := isOkPacket_numbers hok
    rw [hread₁, ok_bind]
    dsimp only
    rw [hread₂, ok_bind]
    dsimp only
    rw [byteAt, if_pos hlo, List.getElem?_eq_getElem (by omega)]
    exact returns_ok _
  · rcases hcons : packet.msg with _ | ⟨b, rest⟩
    · exact absurd hcons hmsg
    have heof : isEOFPacket packet true
        = .ok (b == kRespHeaderEOF && packet.msg.length == 5) := isEOFPacket_cons true hcons
    rw [heof, ok_bind]
    by_cases hfive : (b == kRespHeaderEOF && packet.msg.length == 5) = true
    · rw [if_pos hfive]
      simp only [Bool.and_eq_true, beq_iff_eq] at hfive
      rw [← hcons, byteAt, if_pos (by decide), List.getElem?_eq_getElem (by rw [hfive.2]; decide)]
      exact returns_ok _
    · rw [if_neg hfive]
      exact returns_ok _

end Kinds

/-! ## Definitions of columns -/

/-- None of the six strings of a definition is overlong; the last five are read only behind the
catalog `def`. -/
def ColumnDefReadable (packet : MysqlPacket) : Prop :=
  overlong packet.msg 0 = false ∧ ∀ next,
    dissectStringParam packet.msg 0 = .ok (text "def", next, true) →
      overlongWithin packet.msg 5 next = false

theorem processColumnDefPacket_returns_iff {packet : MysqlPacket} :
    Returns (processColumnDefPacket packet) ↔ ColumnDefReadable packet := by
  unfold processColumnDefPacket ColumnDefReadable
  dsimp only
  generalize packet.msg = msg
  have hnone : Returns (.ok none : Except Panic (Option ColDefinition)) := returns_ok none
  rcases dissectStringParam_cases le_rfl (by omega : (0 : ℤ) ≤ msg.length) with
    ⟨hlong, e, hread⟩ | ⟨hlong, catalog, next, ok, hread, hlo, hhi⟩
  · rw [hread, hlong, error_bind]
    exact iff_of_false (not_returns_error e) (by simp)
  rw [hread, hlong, ok_bind]
  rw [and_iff_right rfl]
  by_cases hstop : (!ok || decide (catalog ≠ text "def")) = true
  · rw [if_pos hstop]
    refine iff_of_true hnone ?_
    rintro next' ⟨⟩
    simp at hstop
  rw [if_neg hstop]
  obtain ⟨rfl, rfl⟩ : ok = true ∧ catalog = text "def" := by simpa using hstop
  have hiff : (∀ next', (.ok (text "def", next, true) : Except Panic (GoString × ℤ × Bool))
      = .ok (text "def", next', true) → overlongWithin msg 5 next' = false)
        ↔ overlongWithin msg 5 next = false := by
    constructor
    · intro h
      exact h next rfl
    · rintro h next' ⟨⟩
      exact h
  rw [hiff]
  refine returns_string_iff (hlo : 0 ≤ next) hhi hnone fun _ _ h₁ h₁' => ?_
  refine returns_string_iff h₁ h₁' hnone fun _ _ h₂ h₂' => ?_
  refine returns_string_iff h₂ h₂' hnone fun _ _ h₃ h₃' => ?_
  refine returns_string_iff h₃ h₃' hnone fun _ _ h₄ h₄' => ?_
  refine returns_string_iff h₄ h₄' hnone fun _ _ h₅ h₅' => ?_
  -- Behind the strings there are only numbers.
  refine iff_of_true ?_ rfl
  obtain ⟨result, _, ok, hresult, h₆, h₆'⟩ := processLengthEncodedInt_returns h₅ h₅'
  rw [hresult, ok_bind]
  by_cases hlength : intOf 8 result ≠ 12
  · rw [if_pos hlength]
    exact hnone
  rw [if_neg hlength]
  refine returns_int (h₅.trans h₆) h₆' hnone fun _ _ h₇ h₇' => ?_
  refine returns_int h₇ h₇' hnone fun _ _ h₈ h₈' => ?_
  refine returns_int h₈ h₈' hnone fun _ _ h₉ h₉' => ?_
  refine returns_int h₉ h₉' hnone fun _ _ h₁₀ h₁₀' => ?_
  exact returns_int h₁₀ h₁₀' hnone fun _ _ _ _ => returns_ok _

/-! ## Rows -/

/-- A text row is a null value, or none of its strings is overlong. -/
def TextRowReadable (packet : MysqlPacket) (numCol : ℕ) : Prop :=
  packet.msg = [0xfb] ∨ overlongWithin packet.msg numCol 0 = false

theorem textRowLoop_returns_iff {msg : GoString} {numCol : ℕ} {offset : ℤ} (hlo : 0 ≤ offset)
    (hhi : offset ≤ msg.length) :
    Returns (textRowLoop msg numCol offset) ↔ overlongWithin msg numCol offset = false := by
  induction numCol generalizing offset with
  | zero => exact iff_of_true (returns_ok _) rfl
  | succ numCol ih =>
      rw [textRowLoop]
      exact returns_string_iff hlo hhi (returns_ok _) fun _ _ h h' => ih h h'

theorem processTextResultsetRowPacket_returns_iff {packet : MysqlPacket} {numCol : ℕ} :
    Returns (processTextResultsetRowPacket packet numCol) ↔ TextRowReadable packet numCol := by
  unfold processTextResultsetRowPacket TextRowReadable
  split_ifs with hnull
  · exact iff_of_true (returns_ok true) (Or.inl hnull)
  rw [or_iff_right hnull, returns_bind, textRowLoop_returns_iff le_rfl (by omega)]
  intro read _
  rcases read with _ | offset
  · exact returns_ok false
  · exact returns_ok _

/-- The bit of a column in the null bitmap of a binary row. -/
def isNull (nullBitmap : GoString) (column : ℕ) : Bool :=
  nullBitmap[(column + 2) / 8]?.any fun byte => (byte >>> (UInt8.ofNat ((column + 2) % 8))) &&& 1 = 1

/-- The columns from `i` on that are not null. -/
def presentColumns (nullBitmap : GoString) (left i : ℕ) : ℕ :=
  (List.range' i left).countP fun column => !isNull nullBitmap column

/-- The null bitmap behind the header of a binary row. -/
def nullBitmapOf (msg : GoString) (numCol : ℕ) : GoString := (msg.drop 1).take ((numCol + 9) / 8)

/-- A binary row has a byte in front, and if that is the header of a row, a whole null bitmap; if
the first column holds strings, none of the values that are not null is an overlong one. -/
def BinaryRowReadable (packet : MysqlPacket) (columnDefs : List ColDefinition) : Prop :=
  packet.msg ≠ [] ∧ (packet.msg.head? = some 0 →
    1 + (columnDefs.length + 9) / 8 ≤ packet.msg.length ∧
      ∀ first ∈ columnDefs.head?, first.columnType ∈ stringTypes →
        overlongWithin packet.msg
          (presentColumns (nullBitmapOf packet.msg columnDefs.length) columnDefs.length 0)
          (1 + (columnDefs.length + 9) / 8 : ℕ) = false)

section Values

variable {floatText : GoString → GoString} {msg : GoString} {offset : ℤ} {columnType : ColType}

/-- A number is read where it is there; elsewhere the offset stays, and may lie behind the message. -/
theorem dissectIntParam_returns {nbytes : ℕ} (hlo : 0 ≤ offset) :
    ∃ value next, dissectIntParam msg offset nbytes = .ok (value, next)
      ∧ 0 ≤ next ∧ (offset ≤ msg.length → next ≤ msg.length) := by
  unfold dissectIntParam dissectInt
  split_ifs with hshort
  · exact ⟨_, offset, rfl, hlo, id⟩
  · rw [slice_rest hlo (by omega), ok_bind, ok_bind]
    exact ⟨_, _, rfl, by omega, by omega⟩

theorem dissectFloatParam_returns {length : ℕ} (hlo : 0 ≤ offset) :
    ∃ value next ok, dissectFloatParam floatText msg offset length = .ok (value, next, ok)
      ∧ 0 ≤ next ∧ (offset ≤ msg.length → next ≤ msg.length) := by
  unfold dissectFloatParam
  split_ifs with hshort
  · exact ⟨[], offset, false, rfl, hlo, id⟩
  · rw [slice, if_pos ⟨hlo, by omega, by omega⟩, ok_bind]
    exact ⟨_, _, true, rfl, by omega, by omega⟩

theorem dissectDateTimeParam_returns (hlo : 0 ≤ offset) :
    ∃ value next ok, dissectDateTimeParam msg offset = .ok (value, next, ok)
      ∧ 0 ≤ next ∧ (offset ≤ msg.length → next ≤ msg.length) := by
  unfold dissectDateTimeParam
  split_ifs with hshort
  · exact ⟨[], offset, false, rfl, hlo, id⟩
  · rw [byteAt, if_pos hlo, List.getElem?_eq_getElem (by omega), ok_bind]
    dsimp only
    split_ifs
    · exact ⟨[], offset + 1, false, rfl, by omega, by omega⟩
    · exact ⟨_, _, true, rfl, by omega, by omega⟩

/-- A number of a column is read within the message. -/
theorem column_number_returns {x : Except Panic (GoString × ℤ)} {offset : ℤ} {size : ℕ}
    (hhi : offset ≤ size)
    (h : ∃ value next, x = .ok (value, next) ∧ 0 ≤ next ∧ (offset ≤ size → next ≤ size)) :
    ∃ read, (do
      let (_, offset) ← x
      .ok (some offset) : Except Panic (Option ℤ)) = .ok read
        ∧ ∀ next ∈ read, 0 ≤ next ∧ next ≤ size := by
  obtain ⟨value, next, rfl, hlo, hnext⟩ := h
  refine ⟨some next, rfl, ?_⟩
  rintro _ ⟨⟩
  exact ⟨hlo, hnext hhi⟩

/-- A value of a column is read within the message, if it is there. -/
theorem column_value_returns {x : Except Panic (GoString × ℤ × Bool)} {offset : ℤ} {size : ℕ}
    (hhi : offset ≤ size)
    (h : ∃ value next ok, x = .ok (value, next, ok)
      ∧ 0 ≤ next ∧ (offset ≤ size → next ≤ size)) :
    ∃ read, (do
      let (_, offset, ok) ← x
      .ok (if ok then some offset else none) : Except Panic (Option ℤ)) = .ok read
        ∧ ∀ next ∈ read, 0 ≤ next ∧ next ≤ size := by
  obtain ⟨value, next, ok, rfl, hlo, hnext⟩ := h
  refine ⟨if ok then some next else none, rfl, ?_⟩
  rcases ok with _ | _
  · rintro _ ⟨⟩
  · rintro _ ⟨⟩
    exact ⟨hlo, hnext hhi⟩

/-- A value that is no string is read, or is not there. -/
theorem dissectBinaryColumn_returns (hstring : columnType ∉ stringTypes) (hlo : 0 ≤ offset)
    (hhi : offset ≤ msg.length) : ∃ read, dissectBinaryColumn floatText columnType msg offset = .ok read
      ∧ ∀ next ∈ read, 0 ≤ next ∧ next ≤ msg.length := by
  unfold dissectBinaryColumn
  rw [if_neg hstring]
  split_ifs
  · exact column_number_returns hhi (dissectIntParam_returns hlo)
  · exact column_number_returns hhi (dissectIntParam_returns hlo)
  · exact column_number_returns hhi (dissectIntParam_returns hlo)
  · exact column_number_returns hhi (dissectIntParam_returns hlo)
  · exact column_value_returns hhi (dissectFloatParam_returns hlo)
  · exact column_value_returns hhi (dissectFloatParam_returns hlo)
  · exact column_value_returns hhi (dissectDateTimeParam_returns hlo)
  · refine ⟨some offset, rfl, ?_⟩
    rintro _ ⟨⟩
    exact ⟨hlo, hhi⟩

end Values

section BinaryRows

variable {floatText : GoString → GoString} {msg nullBitmap : GoString} {offset : ℤ}
  {columnDefs : List ColDefinition} {first : ColDefinition} {left i : ℕ}

theorem presentColumns_succ (nullBitmap : GoString) (left i : ℕ) :
    presentColumns nullBitmap (left + 1) i
      = presentColumns nullBitmap left (i + 1) + if isNull nullBitmap i then 0 else 1 := by
  unfold presentColumns
  rw [List.range'_succ, List.countP_cons]
  rcases isNull nullBitmap i with _ | _ <;> rfl

/-- One column of the loop, whose bit is in the bitmap. -/
theorem binaryRowLoop_succ (hfirst : columnDefs.head? = some first)
    (hlt : (i + 2) / 8 < nullBitmap.length) :
    binaryRowLoop floatText columnDefs nullBitmap msg (left + 1) i offset
      = if isNull nullBitmap i then
          binaryRowLoop floatText columnDefs nullBitmap msg left (i + 1) offset
        else (do
          match ← dissectBinaryColumn floatText first.columnType msg offset with
          | none => .ok none
          | some offset => binaryRowLoop floatText columnDefs nullBitmap msg left (i + 1) offset) := by
  have hbit : isNull nullBitmap i = decide ((nullBitmap[(i + 2) / 8]
      >>> UInt8.ofNat ((i + 2) % 8)) &&& 1 = 1) := by
    unfold isNull
    rw [List.getElem?_eq_getElem hlt]
    rfl
  rw [binaryRowLoop, byteAt, if_pos (by omega), Int.toNat_natCast, List.getElem?_eq_getElem hlt,
    ok_bind, hbit, hfirst]
  by_cases hnull : (nullBitmap[(i + 2) / 8] >>> UInt8.ofNat ((i + 2) % 8)) &&& 1 = 1
  · rw [if_pos hnull, decide_eq_true hnull, if_pos rfl]
  · rw [if_neg hnull, decide_eq_false hnull]
    exact (if_neg Bool.false_ne_true).symm

/-- The loop over the columns that are left, whose bits are all in the bitmap. -/
theorem binaryRowLoop_returns_iff (hfirst : columnDefs.head? = some first)
    (hbitmap : (i + left + 9) / 8 ≤ nullBitmap.length) (hlo : 0 ≤ offset) (hhi : offset ≤ msg.length) :
    Returns (binaryRowLoop floatText columnDefs nullBitmap msg left i offset)
      ↔ (first.columnType ∈ stringTypes →
        overlongWithin msg (presentColumns nullBitmap left i) offset = false) := by
  induction left generalizing i offset with
  | zero => exact iff_of_true (returns_ok _) (fun _ => rfl)
  | succ left ih =>
      rw [binaryRowLoop_succ hfirst (by omega), presentColumns_succ]
      by_cases hnull : isNull nullBitmap i = true
      · rw [if_pos hnull, if_pos hnull]
        exact ih (by omega) hlo hhi
      rw [if_neg hnull, if_neg hnull]
      by_cases hstring : first.columnType ∈ stringTypes
      · rw [dissectBinaryColumn, if_pos hstring, overlongWithin]
        rcases dissectStringParam_cases hlo hhi with
          ⟨hlong, e, hread⟩ | ⟨hlong, value, next, ok, hread, hle, hlen⟩
        · rw [hread, hlong, error_bind]
          exact iff_of_false (not_returns_error e) (by simpa using hstring)
        · rw [hread, hlong, ok_bind, Bool.false_or]
          rcases ok with _ | _
          · exact iff_of_true (returns_ok none) (fun _ => rfl)
          · exact ih (by omega) (hlo.trans hle) hlen
      · obtain ⟨read, hread, hbounds⟩ := dissectBinaryColumn_returns hstring hlo hhi
        rw [hread, ok_bind]
        refine iff_of_true ?_ (fun h => absurd h hstring)
        rcases read with _ | next
        · exact returns_ok none
        · obtain ⟨hlo', hhi'⟩ := hbounds next rfl
          exact (ih (by omega) hlo' hhi').mpr (fun h => absurd h hstring)

theorem processBinaryResultsetRowPacket_returns_iff {packet : MysqlPacket} :
    Returns (processBinaryResultsetRowPacket floatText packet columnDefs)
      ↔ BinaryRowReadable packet columnDefs := by
  unfold processBinaryResultsetRowPacket BinaryRowReadable
  rcases hmsg : packet.msg with _ | ⟨header, rest⟩
  · exact iff_of_false (not_returns_error _) (fun h => h.1 rfl)
  have hbyte : byteAt (header :: rest) 0 = .ok header := rfl
  rw [hbyte, ok_bind]
  by_cases hheader : header = 0
  · rw [if_neg (not_not_intro hheader)]
    have hlen : ((columnDefs.length : ℤ) + 7 + 2) / 8 = ((columnDefs.length + 9) / 8 : ℕ) := by omega
    have hone : (1 : ℤ) + ((columnDefs.length + 9) / 8 : ℕ) = (1 + (columnDefs.length + 9) / 8 : ℕ) := by
      push_cast
      rfl
    dsimp only
    rw [hlen, hone]
    have hne : header :: rest ≠ [] := List.cons_ne_nil header rest
    have hhead : (header :: rest).head? = some 0 := by rw [hheader, List.head?_cons]
    generalize header :: rest = msg at hne hhead ⊢
    by_cases hwhole : 1 + (columnDefs.length + 9) / 8 ≤ msg.length
    · have hslice : slice msg 1 (1 + (columnDefs.length + 9) / 8 : ℕ)
          = .ok (nullBitmapOf msg columnDefs.length) := by
        rw [slice, if_pos ⟨by decide, by omega, by omega⟩, nullBitmapOf]
        congr 2
        omega
      rw [hslice, ok_bind, returns_bind (by rintro (_ | next) _ <;> exact returns_ok _)]
      have hbitmap : (0 + columnDefs.length + 9) / 8
          ≤ (nullBitmapOf msg columnDefs.length).length := by
        rw [nullBitmapOf, List.length_take, List.length_drop]
        omega
      rcases hdefs : columnDefs.head? with _ | first
      · rw [List.head?_eq_none_iff.mp hdefs]
        refine iff_of_true (returns_ok _) ⟨hne, fun _ => ⟨?_, ?_⟩⟩
        · rw [List.head?_eq_none_iff.mp hdefs] at hwhole
          exact hwhole
        · rintro _ ⟨⟩
      · rw [binaryRowLoop_returns_iff hdefs hbitmap (by omega) (by omega)]
        constructor
        · intro hall
          refine ⟨hne, fun _ => ⟨hwhole, ?_⟩⟩
          rintro _ ⟨⟩
          exact hall
        · rintro ⟨-, hall⟩
          exact (hall hhead).2 first rfl
    · rw [slice, if_neg (by omega), error_bind]
      exact iff_of_false (not_returns_error _) (fun h => hwhole (h.2 hhead).1)
  · rw [if_pos hheader]
    refine iff_of_true (returns_ok false) ⟨List.cons_ne_nil header rest, ?_⟩
    intro hzero
    exact absurd (Option.some.inj hzero) hheader

end BinaryRows

end Kyanos.Mysql
