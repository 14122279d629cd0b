/-
The parameters of an execute request, as a client writes them and as `handler.go` reads them.

A request names its statement and, when the statement has parameters, carries a bitmap of those
that are NULL, the types of all of them, and the values of those that are not NULL. So two offsets
move through it, one over the types and one over the values, and the second only stays where it
belongs if each step takes exactly the bytes its parameter has.

`HandleStmtExecuteParam` never looks at the bitmap, and the cases it has for `kShort`, `kLong`,
`kDate` and `kDateTime` are empty, since a case of Go does not fall through. What is here says of
each parameter whether its step ends where the parameter does (`Param.Aligned`), and of a request
whether it is decoded.
-/
import Kyanos.MysqlStatements

set_option autoImplicit false

open Trace

namespace Kyanos.Mysql

/-! ## What a client writes -/

inductive IntType
  | tiny | short | year | long | int24 | longLong
deriving DecidableEq

def IntType.code : IntType → UInt8
  | .tiny => 0x01
  | .short => 0x02
  | .long => 0x03
  | .longLong => 0x08
  | .int24 => 0x09
  | .year => 0x0d

/-- The bytes of a number. -/
def IntType.width : IntType → ℕ
  | .tiny => 1
  | .short | .year => 2
  | .long | .int24 => 4
  | .longLong => 8

inductive TimeType
  | date | dateTime | timestamp | time
deriving DecidableEq

def TimeType.code : TimeType → UInt8
  | .timestamp => 0x07
  | .date => 0x0a
  | .time => 0x0b
  | .dateTime => 0x0c

/-- The type of a parameter. A client may also write a NULL as a type of its own. -/
inductive ParamType
  | int (type : IntType)
  | string (type : { code : UInt8 // (code.toNat : ColType) ∈ stringTypes })
  | time (type : TimeType)
  | null

namespace ParamType

def code : ParamType → UInt8
  | .int type => type.code
  | .string type => type.val
  | .time type => type.code
  | .null => 0x06

/-- The values of a type. A date or a time is some bytes, with their number in one byte. -/
abbrev Value : ParamType → Type
  | .int type => BitVec (8 * type.width)
  | .string _ => GoString
  | .time _ => { payload : GoString // payload.length < 256 }
  | .null => Empty

def bytes : (type : ParamType) → type.Value → GoString
  | .int type, value => leBytes type.width value.toNat
  | .string _, str => lenencString str
  | .time _, payload => UInt8.ofNat payload.val.length :: payload.val
  | .null, value => nomatch value

end ParamType

/-- A parameter: its type, the flag behind the type, and its value unless it is NULL. -/
structure Param where
  type : ParamType
  flag : UInt8
  value : Option type.Value

/-- A NULL has no bytes among the values. -/
def Param.bytes : Param → GoString
  | ⟨_, _, none⟩ => []
  | ⟨type, _, some value⟩ => type.bytes value

def typeBytes (params : List Param) : GoString := params.flatMap fun p => [p.type.code, p.flag]

def valueBytes (params : List Param) : GoString := params.flatMap Param.bytes

/-- The bit of a parameter in a null bitmap. -/
def isMarked (nullBitmap : GoString) (i : ℕ) : Bool :=
  nullBitmap[i / 8]?.any fun byte => (byte >>> (UInt8.ofNat (i % 8))) &&& 1 = 1

/-- What a request to execute a statement says. -/
structure ExecuteFields where
  stmtId : BitVec 32
  flags : UInt8
  iterationCount : BitVec 32
  params : List Param
  nullBitmap : GoString
  nullBitmap_length : nullBitmap.length = (params.length + 7) / 8
  nullBitmap_marks : ∀ x ∈ params.zipIdx, isMarked nullBitmap x.2 = x.1.value.isNone

/-- What is sent along when the statement has parameters. -/
def ExecuteFields.bound (e : ExecuteFields) : GoString :=
  if e.params.isEmpty then []
  else e.nullBitmap ++ (1 :: (typeBytes e.params ++ valueBytes e.params))

def ExecuteFields.bytes (e : ExecuteFields) : GoString :=
  [0x17] ++ (leBytes 4 e.stmtId.toNat ++ (e.flags :: leBytes 4 e.iterationCount.toNat ++ e.bound))

/-- A request to execute a statement, in a packet whose length is an `int`. -/
abbrev ExecuteRequest := { e : ExecuteFields // e.bytes.length < 2 ^ 63 }

/-! ## What the handler goes through -/

/-- The loop over the parameters, with the offset of the values after each of them. -/
def executeSteps (floatText : GoString → GoString) (msg : GoString) :
    ℕ → ℤ → ℤ → Except Panic (Option (List (GoString × ℤ)))
  | 0, _, _ => .ok (some [])
  | n + 1, typeOffset, valOffset => do
      match ← handleStmtExecuteParam floatText msg typeOffset valOffset with
      | none => .ok none
      | some (value, valOffset) =>
          let steps ← executeSteps floatText msg n (typeOffset + 2) valOffset
          .ok (steps.map ((value, valOffset) :: ·))

theorem executeParams_eq_steps (floatText : GoString → GoString) (msg : GoString) (n : ℕ)
    (typeOffset valOffset : ℤ) : executeParams floatText msg n typeOffset valOffset
      = (executeSteps floatText msg n typeOffset valOffset).map
        (Option.map (List.map Prod.fst)) := by
  induction n generalizing typeOffset valOffset with
  | zero => rfl
  | succ n ih =>
      rw [executeParams, executeSteps]
      rcases handleStmtExecuteParam floatText msg typeOffset valOffset with e | _ | ⟨value, next⟩
      · rfl
      · rfl
      · rw [ok_bind, ok_bind]
        dsimp only
        rw [ih]
        rcases executeSteps floatText msg n (typeOffset + 2) next with e | _ | steps <;> rfl

/-- Where each parameter ends when the first one begins at the offset. -/
def valueEnds : ℕ → List Param → List ℤ
  | _, [] => []
  | start, p :: params => (start + p.bytes.length : ℕ) :: valueEnds (start + p.bytes.length) params

/-- Where the types and the values of a request begin. -/
def ExecuteFields.typesAt (e : ExecuteFields) : ℕ := 11 + e.nullBitmap.length

def ExecuteFields.valuesAt (e : ExecuteFields) : ℕ := e.typesAt + 2 * e.params.length

/-- The request is decoded: the handler succeeds, the loop returns one text for each parameter,
which shows it, and after each parameter the offset of the values is where the parameter ends. -/
def Decodes (shows : Param → GoString → Prop) (floatText : GoString → GoString) (m : State)
    (stmt : PreparedStatement) (e : ExecuteFields) (req : MysqlPacket) (record : Exchange) : Prop :=
  ∃ steps, executeSteps floatText req.msg e.params.length e.typesAt e.valuesAt = .ok (some steps)
    ∧ List.Forall₂ (fun p step => shows p step.1) e.params steps
    ∧ steps.map Prod.snd = valueEnds e.valuesAt e.params
    ∧ let req' := { req with msg := combinePrepareExecute stmt.request (steps.map Prod.fst) }
      handleStmtExecuteRequest floatText m req record
        = .ok (.success, { record with req := some req' }, req')

/-- A number is shown as its signed value. -/
def ShowsNumber : Param → GoString → Prop
  | ⟨.int _, _, some value⟩, shown => shown = text (toString value.toInt)
  | _, _ => True

/-- A number is shown as its signed value, and a string as it is. -/
def ShowsValue : Param → GoString → Prop
  | ⟨.string _, _, some str⟩, shown => shown = str
  | p, shown => ShowsNumber p shown

/-- The step of the parameter ends where the parameter does, before what is left of the values. A
number is taken for one that is not there when too few bytes are left, and then nothing is. -/
def Param.Aligned (later : GoString) : Param → Prop
  | ⟨.int type, _, some _⟩ => type ≠ .short ∧ type ≠ .long
  | ⟨.int type, _, none⟩ => type = .short ∨ type = .long ∨ later.length < type.width
  | ⟨.string _, _, value⟩ => value.isSome
  | ⟨.time type, _, some _⟩ => type = .timestamp ∨ type = .time
  | ⟨.time type, _, none⟩ => type = .date ∨ type = .dateTime
  | ⟨.null, _, _⟩ => True

/-- Every parameter's step ends where the parameter does. -/
def AllAligned : List Param → Prop
  | [] => True
  | p :: params => p.Aligned (valueBytes params) ∧ AllAligned params

/-- A number that is not of eight bytes is not below zero. -/
def Param.Unsigned : Param → Prop
  | ⟨.int type, _, some value⟩ => type ≠ .longLong → 0 ≤ value.toInt
  | _ => True

/-- A string has a byte. -/
def Param.Filled : Param → Prop
  | ⟨.string _, _, some str⟩ => str ≠ []
  | _ => True

/-- What the handler makes of a parameter whose step is aligned. -/
def Param.shown : Param → GoString
  | ⟨.int type, _, some value⟩ =>
      if type = .short ∨ type = .long then [] else text (toString (intOf 64 value.toNat))
  | ⟨.int type, _, none⟩ => if type = .short ∨ type = .long then [] else text (toString (0 : ℤ))
  | ⟨.string _, _, some str⟩ => if str = [] then text "NULL" else str
  | ⟨.time type, _, some _⟩ =>
      if type = .timestamp ∨ type = .time then text "MySQL DateTime rendering not implemented yet"
      else []
  | _ => []

/-! ## Numbers as texts -/

/-- The text of a number that is not negative begins with a digit, and so not with a sign. -/
theorem text_toString_nat (n : ℕ) : ∃ b rest, text (toString (n : ℤ)) = b :: rest ∧ b ≠ 0x2d := by
  have hlist : text (toString (n : ℤ)) = (Nat.toDigits 10 n).map fun c => UInt8.ofNat c.toNat := by
    rw [text, Int.toString_eq_repr, Int.repr_eq_if, if_pos (Int.natCast_nonneg n),
      Int.toNat_natCast, Nat.toList_repr]
  rcases hdigits : Nat.toDigits 10 n with _ | ⟨c, cs⟩
  · exact absurd hdigits Nat.toDigits_ne_nil
  refine ⟨UInt8.ofNat c.toNat, cs.map fun c => UInt8.ofNat c.toNat, by rw [hlist, hdigits]; rfl, ?_⟩
  have hdigit : c.isDigit := by
    refine @Nat.isDigit_of_mem_toDigits 10 n c (by decide) (by decide) ?_
    rw [hdigits]
    exact List.mem_cons_self
  have hrange : 48 ≤ c.toNat ∧ c.toNat ≤ 57 := by
    simpa [Char.isDigit, UInt32.le_iff_toNat_le] using hdigit
  intro hsign
  have hcode := congrArg UInt8.toNat hsign
  rw [UInt8.toNat_ofNat_of_lt' (by change c.toNat < 256; omega)] at hcode
  have : c.toNat = 45 := hcode
  omega

theorem text_toString_neg {x : ℤ} (hx : x < 0) : ∃ rest, text (toString x) = 0x2d :: rest := by
  refine ⟨text (-x).toNat.repr, ?_⟩
  rw [Int.toString_eq_repr, Int.repr_eq_if, if_neg (by omega), text, String.toList_append,
    List.map_append]
  rfl

/-- What a number of a type was read as shows its signed value, unless a sign was lost. -/
theorem shows_iff {type : IntType} (value : BitVec (8 * type.width)) :
    text (toString (intOf 64 value.toNat)) = text (toString value.toInt)
      ↔ (type ≠ .longLong → 0 ≤ value.toInt) := by
  by_cases hlong : type = .longLong
  · subst hlong
    exact iff_of_true (congrArg (fun x : ℤ => text (toString x)) (intOf_toNat value)) (fun h => absurd rfl h)
  rw [imp_iff_right hlong]
  have hsmall : value.toNat < 2 ^ 32 := by
    refine value.isLt.trans_le (Nat.pow_le_pow_right (by decide) ?_)
    cases type <;> first | decide | exact absurd rfl hlong
  rw [intOf_of_lt (by omega) (by omega)]
  constructor
  · intro htext
    by_contra hneg
    obtain ⟨rest, hsign⟩ := text_toString_neg (not_le.mp hneg)
    obtain ⟨b, rest', hnat, hb⟩ := text_toString_nat value.toNat
    rw [hsign, hnat] at htext
    exact hb (List.cons.inj htext).1
  · intro hnonneg
    have hlt := value.isLt
    rw [BitVec.toInt_eq_toNat_cond] at hnonneg ⊢
    split_ifs at hnonneg ⊢ with hhalf
    · rfl
    · omega

/-! ## One parameter -/

section Step

variable {floatText : GoString → GoString} {msg front later : GoString} {typeOffset valOffset : ℤ}

theorem handleStmtExecuteParam_int {type : IntType} (h : byteAt msg typeOffset = .ok type.code) :
    handleStmtExecuteParam floatText msg typeOffset valOffset
      = if type = .short ∨ type = .long then .ok (some ([], valOffset))
        else (do
          let (value, valOffset) ← dissectIntParam msg valOffset type.width
          .ok (some (value, valOffset))) := by
  rw [handleStmtExecuteParam, h, ok_bind]
  cases type <;> rfl

theorem handleStmtExecuteParam_string {code : UInt8} (h : byteAt msg typeOffset = .ok code)
    (hcode : (code.toNat : ColType) ∈ stringTypes) :
    handleStmtExecuteParam floatText msg typeOffset valOffset = (do
      let (value, valOffset, ok) ← dissectStringParam msg valOffset
      .ok (if ok then some (value, valOffset) else none)) := by
  rw [handleStmtExecuteParam, h, ok_bind]
  exact if_pos hcode

theorem handleStmtExecuteParam_time {type : TimeType} (h : byteAt msg typeOffset = .ok type.code) :
    handleStmtExecuteParam floatText msg typeOffset valOffset
      = if type = .timestamp ∨ type = .time then (do
          let (value, valOffset, ok) ← dissectDateTimeParam msg valOffset
          .ok (if ok then some (value, valOffset) else none))
        else .ok (some ([], valOffset)) := by
  rw [handleStmtExecuteParam, h, ok_bind]
  cases type <;> rfl

theorem handleStmtExecuteParam_null (h : byteAt msg typeOffset = .ok 0x06) :
    handleStmtExecuteParam floatText msg typeOffset valOffset = .ok (some ([], valOffset)) := by
  rw [handleStmtExecuteParam, h, ok_bind]
  rfl

/-- A number whose bytes are in front is read. -/
theorem dissectIntParam_bytes {n k : ℕ} (hn : n < 256 ^ k) (hk : k ≤ 8) :
    dissectIntParam (front ++ (leBytes k n ++ later)) front.length k
      = .ok (text (toString (intOf 64 n)), (front ++ leBytes k n).length) := by
  rw [dissectIntParam, dissectInt_bytes (leBytes_length k n), ok_bind,
    lEndianBytesToKInt_leBytes hn (by omega)]

/-- With too few bytes left there is no number, which is taken for a zero. -/
theorem dissectIntParam_short {k : ℕ} (h : later.length < k) :
    dissectIntParam (front ++ later) front.length k = .ok (text (toString (0 : ℤ)), front.length) := by
  rw [dissectIntParam, dissectInt, if_pos (by rw [List.length_append]; omega), ok_bind]

theorem processLengthEncodedInt_moves {s : GoString} {offset v next : ℤ}
    (h : processLengthEncodedInt s offset = .ok (v, next, true)) : offset < next := by
  unfold processLengthEncodedInt at h
  by_cases hempty : s.length = 0
  · rw [if_pos hempty] at h
    cases h
  rw [if_neg hempty] at h
  rcases hrest : slice s offset s.length with e | _ | ⟨b, rest⟩
  · rw [hrest, error_bind] at h
    cases h
  · rw [hrest, ok_bind] at h
    cases h
  rw [hrest, ok_bind] at h
  dsimp only at h
  split_ifs at h
  all_goals cases h
  all_goals omega

/-- Where a string is read, the offset moves. -/
theorem dissectStringParam_moves {s value : GoString} {offset next : ℤ}
    (h : dissectStringParam s offset = .ok (value, next, true)) : offset < next := by
  unfold dissectStringParam at h
  rcases hread : processLengthEncodedInt s offset with e | ⟨paramLength, behind, ok⟩
  · rw [hread, error_bind] at h
    cases h
  rw [hread, ok_bind] at h
  dsimp only at h
  split_ifs at h with hshort hzero
  · cases h
  · cases h
    rcases ok with _ | _
    · exact absurd rfl hshort
    · exact processLengthEncodedInt_moves hread
  · rcases ok with _ | _
    · exact absurd rfl hshort
    have hmoved := processLengthEncodedInt_moves hread
    -- The bytes of the string are between the two offsets.
    unfold slice at h
    split_ifs at h with hbounds
    · cases h
      omega
    · cases h

theorem dissectDateTimeParam_moves {s value : GoString} {offset next : ℤ}
    (h : dissectDateTimeParam s offset = .ok (value, next, true)) : offset < next := by
  unfold dissectDateTimeParam at h
  split_ifs at h with hshort
  · cases h
  rcases hbyte : byteAt s offset with e | length
  · rw [hbyte, error_bind] at h
    cases h
  rw [hbyte, ok_bind] at h
  dsimp only at h
  split_ifs at h
  · cases h
  · cases h
    omega

/-- A date or a time is passed over, with its length. -/
theorem dissectDateTimeParam_bytes {payload : GoString} (h : payload.length < 256) :
    dissectDateTimeParam (front ++ ((UInt8.ofNat payload.length :: payload) ++ later)) front.length
      = .ok (text "MySQL DateTime rendering not implemented yet",
        (front ++ (UInt8.ofNat payload.length :: payload)).length, true) := by
  have hlen : (front ++ ((UInt8.ofNat payload.length :: payload) ++ later)).length
      = front.length + (payload.length + 1 + later.length) := by
    rw [List.length_append, List.length_append, List.length_cons]
  have hnat : (UInt8.ofNat payload.length).toNat = payload.length := UInt8.toNat_ofNat_of_lt' h
  rw [dissectDateTimeParam, if_neg (by omega), List.cons_append, byteAt_append, ok_bind, hnat,
    if_neg (by rw [← List.cons_append]; omega), List.length_append, List.length_cons]
  congr 3
  push_cast
  omega

/-! The step of a parameter that stands at the offsets. -/

variable {p : Param}

theorem lt_of_width {type : IntType} (value : BitVec (8 * type.width)) :
    value.toNat < 256 ^ type.width := by
  have hlt := value.isLt
  rwa [pow_mul] at hlt

/-- What is left is read as a number, or taken for none when it is too short. -/
theorem dissectIntParam_rest {k : ℕ} {value : GoString}
    (h : dissectIntParam (front ++ later) front.length k = .ok (value, front.length)) (hk : k ≠ 0) :
    later.length < k := by
  by_contra henough
  rw [dissectIntParam, dissectInt, if_neg (by rw [List.length_append]; push_cast; omega),
    slice_append, ok_bind, ok_bind] at h
  have hnext := (Prod.mk.inj (Except.ok.inj h)).2
  omega

theorem Param.step_of_aligned (htype : byteAt msg typeOffset = .ok p.type.code)
    (hmsg : msg = front ++ (p.bytes ++ later)) (hfits : msg.length < 2 ^ 63)
    (haligned : p.Aligned later) : handleStmtExecuteParam floatText msg typeOffset front.length
      = .ok (some (p.shown, ((front ++ p.bytes).length : ℕ))) := by
  obtain ⟨type, flag, value⟩ := p
  cases type with
  | int type =>
      rw [handleStmtExecuteParam_int htype]
      rcases value with _ | value
      · change msg = front ++ later at hmsg
        rw [Param.bytes, List.append_nil]
        dsimp only [Param.shown]
        by_cases hempty : type = .short ∨ type = .long
        · rw [if_pos hempty, if_pos hempty]
        · have hshort : later.length < type.width := by
            rcases haligned with h | h | h
            · exact absurd (Or.inl h) hempty
            · exact absurd (Or.inr h) hempty
            · exact h
          rw [if_neg hempty, if_neg hempty, hmsg, dissectIntParam_short hshort, ok_bind]
      · have hempty : ¬ (type = .short ∨ type = .long) := not_or.mpr haligned
        change msg = front ++ (leBytes type.width value.toNat ++ later) at hmsg
        dsimp only [Param.shown]
        rw [if_neg hempty, if_neg hempty, hmsg, dissectIntParam_bytes (lt_of_width value)
          (by cases type <;> decide), ok_bind, Param.bytes, ParamType.bytes]
  | string code =>
      rw [handleStmtExecuteParam_string htype code.property]
      rcases value with _ | str
      · cases haligned
      · rw [(dissectStringParam_along hmsg hfits).1, ok_bind]
        rfl
  | time type =>
      rw [handleStmtExecuteParam_time htype]
      rcases value with _ | payload
      · have hempty : ¬ (type = .timestamp ∨ type = .time) := by
          rcases haligned with rfl | rfl <;> decide
        rw [if_neg hempty, Param.bytes, List.append_nil]
        rfl
      · have hread : type = .timestamp ∨ type = .time := haligned
        dsimp only [Param.shown]
        rw [if_pos hread, if_pos hread, hmsg]
        change (do
          let (value, valOffset, ok) ← dissectDateTimeParam (front ++ ((UInt8.ofNat
            payload.val.length :: payload.val) ++ later)) front.length
          .ok (if ok then some (value, valOffset) else none) : Except Panic (Option (GoString × ℤ)))
            = _
        rw [dissectDateTimeParam_bytes payload.property, ok_bind]
        rfl
  | null =>
      rcases value with _ | value
      · rw [handleStmtExecuteParam_null htype, Param.bytes, List.append_nil]
        rfl
      · exact nomatch value

/-- A step that ends where the parameter does is aligned. -/
theorem Param.aligned_of_step (htype : byteAt msg typeOffset = .ok p.type.code)
    (hmsg : msg = front ++ (p.bytes ++ later)) {shown : GoString}
    (hstep : handleStmtExecuteParam floatText msg typeOffset front.length
      = .ok (some (shown, ((front ++ p.bytes).length : ℕ)))) : p.Aligned later := by
  obtain ⟨type, flag, value⟩ := p
  -- A step that stays where it is ends before a value of at least one byte.
  have hstays : ∀ {bytes : GoString}, (Except.ok (some (([] : GoString), (front.length : ℤ)))
      : Except Panic (Option (GoString × ℤ)))
        = .ok (some (shown, ((front ++ bytes).length : ℕ))) → bytes.length = 0 := by
    intro bytes h
    have hnext := (Prod.mk.inj (Option.some.inj (Except.ok.inj h))).2
    rw [List.length_append] at hnext
    omega
  cases type with
  | int type =>
      rw [handleStmtExecuteParam_int htype] at hstep
      rcases value with _ | value
      · change msg = front ++ later at hmsg
        rw [Param.bytes, List.append_nil] at hstep
        by_cases hempty : type = .short ∨ type = .long
        · exact hempty.elim Or.inl fun h => Or.inr (Or.inl h)
        · rw [if_neg hempty] at hstep
          rcases hread : dissectIntParam msg front.length type.width with e | ⟨value, next⟩
          · rw [hread, error_bind] at hstep
            cases hstep
          · rw [hread, ok_bind] at hstep
            cases hstep
            rw [hmsg] at hread
            exact Or.inr (Or.inr (dissectIntParam_rest hread (by cases type <;> decide)))
      · refine not_or.mp fun hempty => ?_
        rw [if_pos hempty] at hstep
        have hzero := hstays hstep
        rw [Param.bytes, ParamType.bytes, leBytes_length] at hzero
        cases type <;> cases hzero
  | string code =>
      rw [handleStmtExecuteParam_string htype code.property] at hstep
      rcases value with _ | str
      · rw [Param.bytes, List.append_nil] at hstep
        rcases hread : dissectStringParam msg front.length with e | ⟨value, next, _ | _⟩
        · rw [hread, error_bind] at hstep
          cases hstep
        · rw [hread, ok_bind] at hstep
          cases hstep
        · rw [hread, ok_bind] at hstep
          cases hstep
          exact absurd (dissectStringParam_moves hread) (lt_irrefl _)
      · rfl
  | time type =>
      rw [handleStmtExecuteParam_time htype] at hstep
      by_cases hread : type = .timestamp ∨ type = .time
      · rw [if_pos hread] at hstep
        rcases value with _ | payload
        · rw [Param.bytes, List.append_nil] at hstep
          rcases hread' : dissectDateTimeParam msg front.length with e | ⟨value, next, _ | _⟩
          · rw [hread', error_bind] at hstep
            cases hstep
          · rw [hread', ok_bind] at hstep
            cases hstep
          · rw [hread', ok_bind] at hstep
            cases hstep
            exact absurd (dissectDateTimeParam_moves hread') (lt_irrefl _)
        · exact hread
      · rw [if_neg hread] at hstep
        rcases value with _ | payload
        · change type = .date ∨ type = .dateTime
          cases type <;> simp at hread ⊢
        · have hzero := hstays hstep
          cases hzero
  | null => trivial

end Step

/-! ## All parameters -/

theorem valueEnds_length (start : ℕ) (params : List Param) :
    (valueEnds start params).length = params.length := by
  induction params generalizing start with
  | nil => rfl
  | cons p params ih => rw [valueEnds, List.length_cons, List.length_cons, ih]

section Steps

variable {floatText : GoString → GoString} {msg typeFront typeTail front : GoString}
  {params : List Param}

/-- The type of the first parameter, and the places of the others. -/
theorem typeBytes_along {p : Param}
    (h : msg = typeFront ++ (typeBytes (p :: params) ++ typeTail)) :
    byteAt msg typeFront.length = .ok p.type.code
      ∧ msg = (typeFront ++ [p.type.code, p.flag]) ++ (typeBytes params ++ typeTail) := by
  have hcons : typeBytes (p :: params) = p.type.code :: p.flag :: typeBytes params := rfl
  rw [hcons] at h
  refine ⟨?_, by rw [h, List.append_assoc]; rfl⟩
  rw [h]
  exact byteAt_append typeFront p.type.code _

theorem valueBytes_along {p : Param} (h : msg = front ++ valueBytes (p :: params)) :
    msg = front ++ (p.bytes ++ valueBytes params)
      ∧ msg = (front ++ p.bytes) ++ valueBytes params := by
  refine ⟨h, ?_⟩
  rw [List.append_assoc]
  exact h

/-- **A run over aligned parameters.** Each step returns what it makes of its parameter and ends
where the parameter does. -/
theorem executeSteps_of_aligned (htypes : msg = typeFront ++ (typeBytes params ++ typeTail))
    (hvalues : msg = front ++ valueBytes params) (hfits : msg.length < 2 ^ 63)
    (haligned : AllAligned params) :
    executeSteps floatText msg params.length typeFront.length front.length
      = .ok (some ((params.map Param.shown).zip (valueEnds front.length params))) := by
  induction params generalizing typeFront front with
  | nil => rfl
  | cons p params ih =>
      obtain ⟨htype, htypes⟩ := typeBytes_along htypes
      obtain ⟨hvalue, hvalues⟩ := valueBytes_along hvalues
      have hrest := ih htypes hvalues haligned.2
      have htwo : ((typeFront ++ [p.type.code, p.flag]).length : ℤ) = typeFront.length + 2 := by
        rw [List.length_append]
        rfl
      rw [htwo] at hrest
      rw [List.length_cons, executeSteps, Param.step_of_aligned htype hvalue hfits haligned.1, ok_bind]
      dsimp only
      rw [hrest, ok_bind, List.length_append]
      rfl

theorem aligned_of_executeSteps {steps : List (GoString × ℤ)}
    (htypes : msg = typeFront ++ (typeBytes params ++ typeTail))
    (hvalues : msg = front ++ valueBytes params)
    (hsteps : executeSteps floatText msg params.length typeFront.length front.length
      = .ok (some steps)) (hends : steps.map Prod.snd = valueEnds front.length params) :
    AllAligned params := by
  induction params generalizing typeFront front steps with
  | nil => trivial
  | cons p params ih =>
      obtain ⟨htype, htypes⟩ := typeBytes_along htypes
      obtain ⟨hvalue, hvalues⟩ := valueBytes_along hvalues
      rw [List.length_cons, executeSteps] at hsteps
      rcases hstep : handleStmtExecuteParam floatText msg typeFront.length front.length
        with e | _ | ⟨shown, next⟩
      · rw [hstep, error_bind] at hsteps
        cases hsteps
      · rw [hstep, ok_bind] at hsteps
        cases hsteps
      rw [hstep, ok_bind] at hsteps
      dsimp only at hsteps
      rcases hrest : executeSteps floatText msg params.length (typeFront.length + 2) next
        with e | _ | later
      · rw [hrest, error_bind] at hsteps
        cases hsteps
      · rw [hrest, ok_bind] at hsteps
        cases hsteps
      rw [hrest, ok_bind] at hsteps
      cases hsteps
      obtain ⟨hnext, hlater⟩ := List.cons.inj hends
      have hend : next = ((front ++ p.bytes).length : ℕ) := by
        rw [List.length_append]
        exact hnext
      have htwo : (typeFront.length : ℤ) + 2 = (typeFront ++ [p.type.code, p.flag]).length := by
        rw [List.length_append]
        rfl
      rw [hend, htwo] at hrest
      rw [hend] at hstep
      rw [← List.length_append] at hlater
      exact ⟨Param.aligned_of_step htype hvalue hstep, ih htypes hvalues hrest hlater⟩

end Steps

/-! ## The request -/

section Request

variable {floatText : GoString → GoString} {m : State} {stmt : PreparedStatement}
  {req : MysqlPacket} {record : Exchange} {e : ExecuteFields}

/-- A request in its parts: what is in front of the types, the types, and the values. -/
theorem ExecuteFields.parts (hne : e.params ≠ []) : ∃ typeFront front,
    typeFront.length = e.typesAt ∧ front.length = e.valuesAt
      ∧ e.bytes = typeFront ++ (typeBytes e.params ++ valueBytes e.params)
      ∧ e.bytes = front ++ valueBytes e.params
      ∧ byteAt e.bytes (10 + (e.params.length + 7) / 8 : ℕ) = .ok 1 := by
  have hbound : e.bound = e.nullBitmap ++ (1 :: (typeBytes e.params ++ valueBytes e.params)) := by
    unfold ExecuteFields.bound
    rw [if_neg (by simpa using hne)]
  have htypes : (typeBytes e.params).length = 2 * e.params.length := by
    unfold typeBytes
    rw [List.length_flatMap]
    simp
    omega
  obtain ⟨header, hheader, hbytes⟩ : ∃ header : GoString,
      header.length = 10 + (e.params.length + 7) / 8
        ∧ e.bytes = header ++ 1 :: (typeBytes e.params ++ valueBytes e.params) := by
    refine ⟨[0x17] ++ (leBytes 4 e.stmtId.toNat ++ (e.flags
      :: leBytes 4 e.iterationCount.toNat ++ e.nullBitmap)), ?_, ?_⟩
    · simp only [List.length_append, List.length_cons, List.length_nil, leBytes_length,
        e.nullBitmap_length]
      omega
    · simp only [ExecuteFields.bytes, hbound, List.append_assoc, List.cons_append]
  refine ⟨header ++ [1], header ++ [1] ++ typeBytes e.params, ?_, ?_, ?_, ?_, ?_⟩
  · rw [List.length_append, hheader, ExecuteFields.typesAt, e.nullBitmap_length,
      List.length_singleton]
    omega
  · rw [List.length_append, List.length_append, hheader, htypes, ExecuteFields.valuesAt,
      ExecuteFields.typesAt, e.nullBitmap_length, List.length_singleton]
    omega
  · rw [hbytes, List.append_assoc]
    rfl
  · rw [hbytes, List.append_assoc, List.append_assoc]
    rfl
  · rw [← hheader, hbytes]
    exact byteAt_append header 1 _

/-- Up to its parameters a request is read. -/
theorem handleStmtExecuteRequest_bytes (hstmt : m.preparedStatements.get? e.stmtId.toInt = some stmt)
    (hparams : stmt.response.header.numParams = e.params.length) (hreq : req.msg = e.bytes) :
    handleStmtExecuteRequest floatText m req record = (do
      let stmtBound ← byteAt req.msg (10 + (e.params.length + 7) / 8 : ℕ)
      let params ← boundParams floatText req.msg stmtBound e.params.length e.typesAt
      match params with
      | none => .ok (.invalid, { record with req := some req }, req)
      | some params =>
          let req := { req with msg := combinePrepareExecute stmt.request params }
          .ok (.success, { record with req := some req }, req)) := by
  have hten : 10 ≤ req.msg.length := by
    rw [hreq]
    simp only [ExecuteFields.bytes, List.length_append, List.length_cons, List.length_nil,
      leBytes_length]
    omega
  have hid : headerField req.msg 1 4 = e.stmtId.toInt := by
    rw [hreq]
    exact @headerField_word [0x17] _ e.stmtId
  have htypesAt : (e.typesAt : ℤ) = (10 + (e.params.length + 7) / 8 : ℕ) + 1 := by
    rw [ExecuteFields.typesAt, e.nullBitmap_length]
    omega
  have hbitmapAt : (10 : ℤ) + ((e.params.length + 7) / 8 : ℕ)
      = (10 + (e.params.length + 7) / 8 : ℕ) := by
    push_cast
    rfl
  unfold handleStmtExecuteRequest
  rw [if_neg (by unfold kStmtIDBytes; omega)]
  dsimp only [kStmtIDBytes, kStmtIDStartOffset, kFlagsBytes, kIterationCountBytes]
  rw [hid, hstmt]
  dsimp only
  rw [if_neg (by omega), hparams, htypesAt]
  change (do
    let stmtBound ← byteAt req.msg ((10 : ℤ) + ((e.params.length + 7) / 8 : ℕ))
    _ : Except Panic (ParseState × Exchange × MysqlPacket)) = _
  rw [hbitmapAt]
  rfl

theorem aligned_of_mem {params : List Param} (h : AllAligned params) {p : Param} (hp : p ∈ params) :
    ∃ later, p.Aligned later := by
  induction params with
  | nil => cases hp
  | cons q params ih =>
      rcases List.mem_cons.mp hp with rfl | hp
      · exact ⟨_, h.1⟩
      · exact ih h.2 hp

theorem showsNumber_iff {p : Param} {later : GoString} (h : p.Aligned later) :
    ShowsNumber p p.shown ↔ p.Unsigned := by
  obtain ⟨type, flag, value⟩ := p
  cases type with
  | int type =>
      rcases value with _ | value
      · exact Iff.rfl
      · have hshown : Param.shown ⟨.int type, flag, some value⟩
            = text (toString (intOf 64 value.toNat)) := if_neg (not_or.mpr h)
        rw [hshown]
        exact shows_iff value
  | string code => rcases value with _ | str <;> exact Iff.rfl
  | time type => rcases value with _ | payload <;> exact Iff.rfl
  | null => exact Iff.rfl

theorem showsValue_iff (p : Param) :
    ShowsValue p p.shown ↔ ShowsNumber p p.shown ∧ p.Filled := by
  obtain ⟨type, flag, value⟩ := p
  cases type with
  | string code =>
      rcases value with _ | str
      · exact (and_iff_left trivial).symm
      · change (if str = [] then text "NULL" else str) = str ↔ True ∧ str ≠ []
        rw [true_and]
        by_cases hempty : str = []
        · subst hempty
          rw [if_pos rfl]
          exact iff_of_false (by decide) (fun h => h rfl)
        · exact iff_of_true (if_neg hempty) hempty
  | int type => exact (and_iff_left trivial).symm
  | time type => exact (and_iff_left trivial).symm
  | null => exact (and_iff_left trivial).symm

/-- A request without parameters ends before the byte that says whether their types are there. -/
theorem handleStmtExecuteRequest_empty
    (hstmt : m.preparedStatements.get? e.stmtId.toInt = some stmt)
    (hparams : stmt.response.header.numParams = e.params.length) (hreq : req.msg = e.bytes)
    (hempty : e.params = []) :
    handleStmtExecuteRequest floatText m req record = .error .indexOutOfRange := by
  have hten : req.msg.length = 10 := by
    rw [hreq]
    simp only [ExecuteFields.bytes, ExecuteFields.bound, hempty, List.isEmpty_nil, if_true,
      List.length_append, List.length_cons, List.length_nil, leBytes_length]
  rw [handleStmtExecuteRequest_bytes hstmt hparams hreq, hempty]
  change (byteAt req.msg 10 >>= _) = _
  rw [byteAt, if_pos (by decide), List.getElem?_eq_none (by rw [hten]; rfl)]
  rfl

theorem decodes_iff (shows : Param → GoString → Prop)
    (hstmt : m.preparedStatements.get? e.stmtId.toInt = some stmt)
    (hparams : stmt.response.header.numParams = e.params.length) (hreq : req.msg = e.bytes)
    (hfits : e.bytes.length < 2 ^ 63) : Decodes shows floatText m stmt e req record
      ↔ e.params ≠ [] ∧ AllAligned e.params ∧ ∀ p ∈ e.params, shows p p.shown := by
  by_cases hempty : e.params = []
  · refine iff_of_false ?_ (fun h => h.1 hempty)
    rintro ⟨steps, -, -, -, hhandle⟩
    rw [handleStmtExecuteRequest_empty hstmt hparams hreq hempty] at hhandle
    cases hhandle
  rw [and_iff_right hempty]
  obtain ⟨typeFront, front, htypeFront, hfront, htypes, hvalues, hbound⟩ := e.parts hempty
  rw [← hreq] at htypes hvalues hbound hfits
  have hrun := @executeSteps_of_aligned floatText req.msg typeFront (valueBytes e.params) front
    e.params htypes hvalues hfits
  have hlengths : (e.params.map Param.shown).length = (valueEnds front.length e.params).length := by
    rw [List.length_map, valueEnds_length]
  constructor
  · rintro ⟨steps, hsteps, hshows, hends, -⟩
    rw [← htypeFront, ← hfront] at hsteps
    rw [← hfront] at hends
    have haligned := aligned_of_executeSteps htypes hvalues hsteps hends
    rw [hrun haligned] at hsteps
    cases hsteps
    refine ⟨haligned, ?_⟩
    have hfirsts := List.forall₂_map_right_iff.mpr hshows
    rw [List.map_fst_zip (le_of_eq hlengths), List.forall₂_map_right_iff,
      List.forall₂_same] at hfirsts
    exact hfirsts
  · rintro ⟨haligned, hshows⟩
    refine ⟨(e.params.map Param.shown).zip (valueEnds front.length e.params), ?_, ?_, ?_, ?_⟩
    · rw [← htypeFront, ← hfront]
      exact hrun haligned
    · rw [← List.forall₂_map_right_iff, List.map_fst_zip (le_of_eq hlengths),
        List.forall₂_map_right_iff, List.forall₂_same]
      exact hshows
    · rw [← hfront, List.map_snd_zip (ge_of_eq hlengths)]
    · have hvaluesAt : (e.typesAt : ℤ) + 2 * e.params.length = front.length := by
        rw [hfront, ExecuteFields.valuesAt]
        push_cast
        rfl
      rw [handleStmtExecuteRequest_bytes hstmt hparams hreq, hbound, ok_bind, boundParams, if_pos rfl,
        executeParams_eq_steps, hvaluesAt, ← htypeFront, hrun haligned]
      rfl

/-- **Which execute requests are decoded.** A request is decoded, with each number as its signed
value, just if it has a parameter, the step of each parameter ends where the parameter does, and no
number of fewer than eight bytes is below zero; the strings are shown as they are just if none of
them is empty. -/
theorem handleStmtExecuteRequest_decodes_iff (floatText : GoString → GoString) (m : State)
    (stmt : PreparedStatement) (e : ExecuteRequest) (req : MysqlPacket) (record : Exchange)
    (hstmt : m.preparedStatements.get? e.val.stmtId.toInt = some stmt)
    (hparams : stmt.response.header.numParams = e.val.params.length)
    (hreq : req.msg = e.val.bytes) :
    (Decodes ShowsNumber floatText m stmt e.val req record
        ↔ e.val.params ≠ [] ∧ AllAligned e.val.params ∧ ∀ p ∈ e.val.params, p.Unsigned)
      ∧ (Decodes ShowsValue floatText m stmt e.val req record
        ↔ (e.val.params ≠ [] ∧ AllAligned e.val.params ∧ ∀ p ∈ e.val.params, p.Unsigned)
          ∧ ∀ p ∈ e.val.params, p.Filled) := by
  rw [decodes_iff ShowsNumber hstmt hparams hreq e.property,
    decodes_iff ShowsValue hstmt hparams hreq e.property]
  have hnumber : AllAligned e.val.params →
      ((∀ p ∈ e.val.params, ShowsNumber p p.shown) ↔ ∀ p ∈ e.val.params, p.Unsigned) := by
    intro haligned
    refine forall₂_congr fun p hp => ?_
    obtain ⟨later, h⟩ := aligned_of_mem haligned hp
    exact showsNumber_iff h
  have hvalue : (∀ p ∈ e.val.params, ShowsValue p p.shown)
      ↔ (∀ p ∈ e.val.params, ShowsNumber p p.shown) ∧ ∀ p ∈ e.val.params, p.Filled := by
    rw [← forall₂_and]
    exact forall₂_congr fun p _ => showsValue_iff p
  refine ⟨and_congr_right fun _ => and_congr_right hnumber, ?_⟩
  rw [hvalue, and_assoc, and_assoc]
  refine and_congr_right fun _ => and_congr_right fun haligned => ?_
  rw [hnumber haligned]

end Request

/-! A statement with its requests: one of a number, a NULL and a string, and one of a number whose
case in the source is empty. -/

def insertStatement (numParams : ℕ) : PreparedStatement :=
  { request := text "INSERT INTO t VALUES (?)"
    response := { header := ⟨1, 0, numParams, 0⟩, colDefs := [], paramDefs := [] } }

def insertState (numParams : ℕ) : State :=
  { preparedStatements := SortedMap.empty.put 1 (insertStatement numParams), active := true }

/-- `EXECUTE` of `5`, a NULL and `"ab"`, the NULL as the second bit of the bitmap. -/
def mixedFields : ExecuteFields where
  stmtId := 1
  flags := 0
  iterationCount := 1
  params := [⟨.int .tiny, 0, some 5#8⟩, ⟨.int .long, 0, none⟩,
    ⟨.string ⟨0xfd, by decide⟩, 0, some (text "ab")⟩]
  nullBitmap := [2]
  nullBitmap_length := rfl
  nullBitmap_marks := by
    simp only [List.zipIdx_cons, List.zipIdx_nil, List.forall_mem_cons]
    decide

/-- `EXECUTE` of one number of four bytes. -/
def longFields : ExecuteFields where
  stmtId := 1
  flags := 0
  iterationCount := 1
  params := [⟨.int .long, 0, some 7#32⟩]
  nullBitmap := [0]
  nullBitmap_length := rfl
  nullBitmap_marks := by
    simp only [List.zipIdx_cons, List.zipIdx_nil, List.forall_mem_cons]
    decide

def executePacket (e : ExecuteFields) : MysqlPacket :=
  { base := ⟨1, 4 + e.bytes.length, 0⟩, seqId := 0, msg := e.bytes, cmd := 0, isReq := true }

theorem handleStmtExecuteRequest_decodes_mixed :
    Decodes ShowsValue id (insertState 3) (insertStatement 3) mixedFields
      (executePacket mixedFields) Exchange.empty := by
  refine (handleStmtExecuteRequest_decodes_iff id (insertState 3) (insertStatement 3)
    ⟨mixedFields, by decide⟩ (executePacket mixedFields) Exchange.empty (by decide) rfl rfl).2.mpr ?_
  refine ⟨⟨List.cons_ne_nil _ _, ?_, ?_⟩, ?_⟩
  · exact ⟨⟨by decide, by decide⟩, Or.inr (Or.inl rfl), rfl, trivial⟩
  · intro p hp
    fin_cases hp
    · exact fun _ => by decide
    · trivial
    · trivial
  · intro p hp
    fin_cases hp
    · trivial
    · trivial
    · exact List.cons_ne_nil _ _

/-- The number is not read: nothing is shown for it, and the offset stays in front of its bytes. -/
theorem long_parameter_not_read :
    executeSteps id longFields.bytes 1 longFields.typesAt longFields.valuesAt
        = .ok (some [([], longFields.valuesAt)])
      ∧ valueEnds longFields.valuesAt longFields.params = [longFields.valuesAt + 4]
      ∧ ¬ Decodes ShowsNumber id (insertState 1) (insertStatement 1) longFields
        (executePacket longFields) Exchange.empty := by
  have hsteps : executeSteps id longFields.bytes 1 longFields.typesAt longFields.valuesAt
      = .ok (some [([], longFields.valuesAt)]) := by
    rfl
  refine ⟨hsteps, rfl, ?_⟩
  rintro ⟨steps, hrun, -, hends, -⟩
  have hsame : some steps = some [([], (longFields.valuesAt : ℤ))] :=
    Except.ok.inj (hrun.symm.trans hsteps)
  cases hsame
  exact absurd hends (by decide)

end Kyanos.Mysql
