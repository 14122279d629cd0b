/-
The wire format of Kafka, and that the decoder inverts it.

Numbers are big-endian words, or varints of seven bits a byte, lowest first, which a zigzag
makes of signed ones. A string or an array has its length before it: a word, or in the flexible
versions a varint that is one larger. A structure of a flexible version ends in tagged fields.

Each of these has a function that writes it and a lemma that the decoder reads it back
(`Reads`), at any place of a packet and with anything behind it.
-/
import Kyanos.KafkaBodies

set_option autoImplicit false

open GoNum ByteReader

namespace Kyanos.Kafka

/-! ## Numbers -/

/-- A word of `n` bytes, the highest first. -/
def wordBytes {n : ℕ} (x : BitVec (8 * n)) : List UInt8 := (leBytes n x.toNat).reverse

namespace Wire

def int8 (x : BitVec 8) : GoString := wordBytes (n := 1) x
def int16 (x : BitVec 16) : GoString := wordBytes (n := 2) x
def int32 (x : BitVec 32) : GoString := wordBytes (n := 4) x
def int64 (x : BitVec 64) : GoString := wordBytes (n := 8) x

end Wire

/-- A number as a varint. -/
def varintBytes (x : ℕ) : List UInt8 :=
  if x < 128 then [UInt8.ofNat x] else UInt8.ofNat (x % 128 + 128) :: varintBytes (x / 128)
termination_by x
decreasing_by omega

/-- A signed number as an unsigned one: the sign goes to the lowest bit. -/
def unzigzag (x : ℤ) : ℕ := if 0 ≤ x then (2 * x).toNat else (-2 * x - 1).toNat

theorem wordBytes_length {n : ℕ} (x : BitVec (8 * n)) : (wordBytes x).length = n := by
  rw [wordBytes, List.length_reverse, leBytes_length]

/-- A word read as signed is the number it stands for. -/
theorem intOf_bigEndian_wordBytes {n : ℕ} (x : BitVec (8 * n)) :
    intOf (8 * n) (bigEndian (wordBytes x)) = x.toInt := by
  have hpow : 256 ^ n = 2 ^ (8 * n) := by
    rw [pow_mul]
    norm_num
  rw [bigEndian, wordBytes, List.reverse_reverse, littleEndian_leBytes, hpow,
    Nat.mod_eq_of_lt x.isLt, BitVec.toInt_eq_toNat_bmod]
  rfl

/-- The highest bit of a byte says that there is more of a varint. -/
theorem firstBit_eq_zero {x : ℕ} (h : x < 256) : x &&& kFirstBitMask = 0 ↔ x < 128 := by
  change x &&& 2 ^ 7 = 0 ↔ x < 128
  rw [Nat.and_two_pow, Nat.testBit_eq_decide_div_mod_eq]
  by_cases hx : x < 128
  · have hbit : ¬ x / 128 % 2 = 1 := by omega
    simp [hx, hbit]
  · have hbit : x / 128 % 2 = 1 := by omega
    simp [hx, hbit]

theorem lastSevenBits (x : ℕ) : x &&& kLastSevenBitMask = x % 128 :=
  Nat.and_two_pow_sub_one_eq_mod x 7

/-- Bits above those that are there are added to them. -/
theorem or_shiftLeft {v i : ℕ} (h : v < 2 ^ i) (x : ℕ) : v ||| (x <<< i) = v + x * 2 ^ i := by
  rw [Nat.or_comm, ← Nat.shiftLeft_add_eq_or_of_lt h, Nat.shiftLeft_eq, Nat.add_comm]

theorem two_pow_seven_succ (k : ℕ) : (2 : ℕ) ^ (7 * (k + 1)) = 128 * 2 ^ (7 * k) := by
  rw [Nat.mul_succ, pow_add]
  norm_num
  ring

/-- Seven bits more of a varint, within 64 bits. -/
theorem or_sevenBits {k v x : ℕ} (hv : v < 2 ^ (7 * k)) (hx : x < 128)
    (hfits : x * 2 ^ (7 * k) < 2 ^ 64) :
    v ||| u64 (x <<< (7 * k)) = v + x * 2 ^ (7 * k) ∧ v + x * 2 ^ (7 * k) < 2 ^ (7 * (k + 1)) := by
  have hu : u64 (x <<< (7 * k)) = x <<< (7 * k) := by
    rw [Nat.shiftLeft_eq]
    exact u64_of_lt hfits
  refine ⟨by rw [hu, or_shiftLeft hv], ?_⟩
  calc v + x * 2 ^ (7 * k) < 2 ^ (7 * k) + 127 * 2 ^ (7 * k) :=
        add_lt_add_of_lt_of_le hv (Nat.mul_le_mul_right _ (by omega))
    _ = 2 ^ (7 * (k + 1)) := by
        rw [two_pow_seven_succ]
        ring

/-- The zigzag goes back and forth. -/
theorem zigzag_unzigzag {x : ℤ} (hlo : -2 ^ 63 ≤ x) (hhi : x < 2 ^ 63) : zigzag (unzigzag x) = x := by
  unfold zigzag unzigzag
  by_cases hx : 0 ≤ x
  · obtain ⟨n, rfl⟩ := Int.eq_ofNat_of_zero_le hx
    have htwice : (2 * (n : ℤ)).toNat = 2 * n := by omega
    have heven : (2 * n) &&& 1 = 0 := by
      rw [Nat.and_one_is_mod]
      omega
    rw [if_pos hx, htwice, heven, if_neg (by decide), Nat.xor_zero, Nat.shiftRight_eq_div_pow,
      show 2 * n / 2 ^ 1 = n by omega, toInt64, if_pos (by omega)]
  · obtain ⟨n, hn⟩ : ∃ n : ℕ, x = -(n : ℤ) - 1 := ⟨(-x - 1).toNat, by omega⟩
    subst hn
    have htwice : (-2 * (-(n : ℤ) - 1) - 1).toNat = 2 * n + 1 := by omega
    have hodd : (2 * n + 1) &&& 1 = 1 := by
      rw [Nat.and_one_is_mod]
      omega
    -- all 64 bits of the number are turned over
    have hnot : n ^^^ (2 ^ 64 - 1) = 2 ^ 64 - (n + 1) := by
      apply Nat.eq_of_testBit_eq
      intro i
      rw [Nat.testBit_xor, Nat.testBit_two_pow_sub_one, Nat.testBit_two_pow_sub_succ (by omega)]
      by_cases hi : i < 64
      · simp [hi]
      · have hbig : n < 2 ^ i :=
          lt_of_lt_of_le (by omega : n < 2 ^ 64) (Nat.pow_le_pow_right (by decide) (by omega))
        simp [hi, Nat.testBit_lt_two_pow hbig]
    rw [if_neg hx, htwice, hodd, if_pos rfl, Nat.shiftRight_eq_div_pow,
      show (2 * n + 1) / 2 ^ 1 = n by omega, hnot, toInt64, if_neg (by omega)]
    omega

theorem unzigzag_lt {x : ℤ} {w : ℕ} (hlo : -2 ^ w ≤ x) (hhi : x < 2 ^ w) :
    unzigzag x < 2 ^ (w + 1) := by
  have hpow : ((2 ^ (w + 1) : ℕ) : ℤ) = 2 * 2 ^ w := by
    push_cast
    ring
  unfold unzigzag
  split_ifs <;> omega

/-! ## Reading numbers -/

/-- What the decoders look at beside the bytes. -/
structure ApiInfo where
  apiVersion : ℤ
  isFlexible : Bool

def PacketDecoder.view (pd : PacketDecoder) : Cursor ApiInfo :=
  { rest := pd.binaryDecoder.str, marks := pd.markedBufs
    info := { apiVersion := pd.apiVersion, isFlexible := pd.isFlexible } }

/-- `p` inverts an encoding, in the version `c`. -/
abbrev Inverts {α : Type} (c : ApiInfo) (p : Extract α) (bytes : GoString) (a : α) : Prop :=
  Reads PacketDecoder.view c p bytes a

section Inverts

variable {c : ApiInfo} {pd : PacketDecoder} {bytes tail : GoString} {marks : List GoString}

theorem str_of_view (h : pd.view = ⟨bytes, marks, c⟩) : pd.binaryDecoder.str = bytes :=
  congrArg Cursor.rest h

/-- The bytes in front are taken off, and nothing else happens. -/
theorem view_taking (h : pd.view = ⟨bytes ++ tail, marks, c⟩) :
    PacketDecoder.view { pd with binaryDecoder := pd.binaryDecoder.taking bytes.length }
      = ⟨tail, marks, c⟩ := by
  have hstr := str_of_view h
  have hmarks : pd.markedBufs = marks := congrArg Cursor.marks h
  have hinfo : (⟨pd.apiVersion, pd.isFlexible⟩ : ApiInfo) = c := congrArg Cursor.info h
  unfold PacketDecoder.view BinaryDecoder.taking
  dsimp only
  rw [hstr, hmarks, hinfo, List.drop_left]

theorem inverts_byte (b : UInt8) : Inverts c extractByte [b] b := by
  intro tail marks pd hpd
  refine ⟨_, ?_, view_taking hpd⟩
  rw [extractByte, ofBinary, BinaryDecoder.extractByte, str_of_view hpd]
  rfl

theorem inverts_int {n : ℕ} (x : BitVec (8 * n)) :
    Inverts c (extractInt n) (wordBytes x) x.toInt := by
  intro tail marks pd hpd
  have hlen : ¬ (wordBytes x ++ tail).length < n := by
    rw [List.length_append, wordBytes_length]
    omega
  have htake : (wordBytes x ++ tail).take n = wordBytes x := by
    have h := @List.take_left _ (wordBytes x) tail
    rwa [wordBytes_length] at h
  have hview := view_taking hpd
  rw [wordBytes_length] at hview
  refine ⟨_, ?_, hview⟩
  rw [extractInt, ofBinary, BinaryDecoder.extractBEInt, BinaryDecoder.extractBE, str_of_view hpd,
    if_neg hlen, htake]
  exact congrArg (fun v => Outcome.done v _) (intOf_bigEndian_wordBytes x)

theorem inverts_bytes (str : GoString) : Inverts c (extractBytesCore str.length) str str := by
  intro tail marks pd hpd
  refine ⟨_, ?_, view_taking hpd⟩
  have hlong : ¬ (((str ++ tail).length : ℕ) : ℤ) < str.length := by
    rw [List.length_append]
    omega
  rw [extractBytesCore, BinaryDecoder.extractString, str_of_view hpd, if_neg hlong,
    if_neg (by omega), Int.toNat_natCast, List.take_left]

theorem inverts_int32 (x : BitVec 32) : Inverts c extractInt32 (Wire.int32 x) x.toInt :=
  @inverts_int c 4 x

theorem inverts_int64 (x : BitVec 64) : Inverts c extractInt64 (Wire.int64 x) x.toInt :=
  @inverts_int c 8 x

theorem inverts_int16 (x : BitVec 16) : Inverts c extractInt16 (Wire.int16 x) x.toInt :=
  @inverts_int c 2 x

theorem inverts_int8 (x : BitVec 8) : Inverts c extractInt8 (Wire.int8 x) x.toInt :=
  @inverts_int c 1 x

/-- A number of more than seven bits leaves some for the rounds after the first. -/
theorem sevenBits_left {n x : ℕ} (hx : x < 128 ^ (n + 1)) (hmore : ¬ x < 128) :
    0 < n ∧ x / 128 < 128 ^ n := by
  constructor
  · rcases n with _ | n
    · exact absurd hx (by norm_num; omega)
    · omega
  · rw [pow_succ] at hx
    exact Nat.div_lt_of_lt_mul (by rwa [Nat.mul_comm] at hx)

/-- A byte read into the loop of a varint. -/
theorem inverts_varintLoop {n k v x : ℕ} (hv : v < 2 ^ (7 * k)) (hx : x < 128 ^ n)
    (hn : 0 < n) (hfits : v + x * 2 ^ (7 * k) < 2 ^ 64) :
    Inverts c (varintLoop n (7 * k) v) (varintBytes x) (v + x * 2 ^ (7 * k)) := by
  induction n generalizing k v x with
  | zero => omega
  | succ n ih =>
      rw [varintBytes, varintLoop]
      by_cases hlast : x < 128
      · rw [if_pos hlast]
        have hbyte : (UInt8.ofNat x).toNat = x := by
          rw [UInt8.toNat_ofNat']
          omega
        refine (inverts_byte (UInt8.ofNat x)).bind ?_
        rw [hbyte, if_pos ((firstBit_eq_zero (by omega)).mpr hlast),
          (or_sevenBits hv hlast (by omega)).1]
        exact Reads.pure _
      · rw [if_neg hlast]
        have hbyte : (UInt8.ofNat (x % 128 + 128)).toNat = x % 128 + 128 := by
          rw [UInt8.toNat_ofNat']
          omega
        have hmore : ¬ (x % 128 + 128) &&& kFirstBitMask = 0 := by
          rw [firstBit_eq_zero (by omega)]
          omega
        have hseven : (x % 128 + 128) % 128 = x % 128 := by omega
        -- the number is its last seven bits and what the next rounds read
        have hsplit : x * 2 ^ (7 * k) = x % 128 * 2 ^ (7 * k) + x / 128 * 2 ^ (7 * (k + 1)) := by
          calc x * 2 ^ (7 * k) = (x % 128 + 128 * (x / 128)) * 2 ^ (7 * k) := by
                rw [Nat.mod_add_div]
            _ = x % 128 * 2 ^ (7 * k) + x / 128 * 2 ^ (7 * (k + 1)) := by
                rw [two_pow_seven_succ]
                ring
        obtain ⟨hor, hv'⟩ := or_sevenBits hv (Nat.mod_lt x (by decide)) (by omega)
        obtain ⟨hn', hx'⟩ := sevenBits_left hx hlast
        refine (inverts_byte (UInt8.ofNat (x % 128 + 128))).bind ?_
        rw [hbyte, if_neg hmore, lastSevenBits, hseven, hor, hsplit, ← add_assoc]
        exact ih hv' hx' hn' (by omega)

/-- A varint of at most `maxLength` bits. -/
theorem inverts_unsignedVarintCore {n x : ℕ} (hn : 0 < n) (hx : x < 128 ^ n)
    (hfits : x < 2 ^ 64) : Inverts c (extractUnsignedVarintCore (7 * n)) (varintBytes x) x := by
  have hrounds : (7 * n + kByteLength - 1) / kByteLength = n := by
    unfold kByteLength
    omega
  have h := @inverts_varintLoop c n 0 0 x (by norm_num) hx hn (by simpa using hfits)
  rw [extractUnsignedVarintCore, hrounds]
  simpa using h

theorem inverts_unsignedVarint {x : ℕ} (hx : x < 2 ^ 35) :
    Inverts c extractUnsignedVarint (varintBytes x) (intOf 32 x) := by
  have h := (@inverts_unsignedVarintCore c 5 x (by decide) (by omega) (by omega)).map
    (f := fun val => intOf 32 (toInt64 val))
  have hval : toInt64 x = x := if_pos (by omega)
  rwa [hval] at h

/-- A varint that is a number of 31 bits is read as that. -/
theorem inverts_unsignedVarint_small {x : ℕ} (hx : x < 2 ^ 31) :
    Inverts c extractUnsignedVarint (varintBytes x) x := by
  have h := @inverts_unsignedVarint c x (by omega)
  rwa [intOf_of_lt (by omega) (by omega)] at h

theorem inverts_varint {x : ℤ} (hlo : -2 ^ 31 ≤ x) (hhi : x < 2 ^ 31) :
    Inverts c extractVarint (varintBytes (unzigzag x)) x := by
  have hlt := unzigzag_lt hlo hhi
  have h := ((@inverts_unsignedVarintCore c 5 (unzigzag x) (by decide) (by omega)
    (by omega)).map (f := zigzag)).map (f := intOf 32)
  rwa [zigzag_unzigzag (by omega) (by omega), intOf_of_lt (by omega) (by omega)] at h

theorem inverts_varlong {x : ℤ} (hlo : -2 ^ 63 ≤ x) (hhi : x < 2 ^ 63) :
    Inverts c extractVarlong (varintBytes (unzigzag x)) x := by
  have hlt := unzigzag_lt hlo hhi
  have h := (@inverts_unsignedVarintCore c 10 (unzigzag x) (by decide) (by omega)
    (by omega)).map (f := zigzag)
  rwa [zigzag_unzigzag hlo hhi] at h

/-! ## Strings, arrays and tagged fields -/

/-- A string that a length of 16 bits allows. -/
abbrev ShortString : Type := { str : GoString // str.length ≤ 32767 }

/-- The length of a string: a word, or a varint that is one larger. -/
def stringBytes (flexible : Bool) (str : ShortString) : GoString :=
  (if flexible then varintBytes (str.val.length + 1)
    else wordBytes (n := 2) (BitVec.ofNat 16 str.val.length)) ++ str.val

def nullableStringBytes (flexible : Bool) : Option ShortString → GoString
  | none => if flexible then varintBytes 0 else wordBytes (n := 2) (BitVec.ofInt 16 (-1))
  | some str => stringBytes flexible str

/-- An array: the number of its elements, like the length of a string, and the elements. -/
def arrayBytes {α : Type} (flexible : Bool) (enc : α → GoString) (as : List α) : GoString :=
  (if flexible then varintBytes (as.length + 1)
    else wordBytes (n := 4) (BitVec.ofNat 32 as.length)) ++ as.flatMap enc

/-- As many elements as the number in front can say. -/
def CountFits (flexible : Bool) (n : ℕ) : Prop :=
  if flexible then n + 1 < 2 ^ 31 else n < 2 ^ 31

structure TaggedField where
  tag : BitVec 32
  data : { data : GoString // data.length < 2 ^ 31 }

/-- The tagged fields at the end of a structure. -/
abbrev TagSection : Type := { fields : List TaggedField // fields.length < 2 ^ 31 }

def taggedFieldBytes (field : TaggedField) : GoString :=
  [varintBytes field.tag.toNat, varintBytes field.data.val.length, field.data.val].flatten

def tagBytes (flexible : Bool) (tags : TagSection) : GoString :=
  if flexible then varintBytes tags.val.length ++ tags.val.flatMap taggedFieldBytes else []

theorem inverts_apiVersion : Inverts c apiVersion [] c.apiVersion :=
  Reads.look (fun pd h => by rw [← h]; rfl)

theorem inverts_flexible : Inverts c flexible [] c.isFlexible :=
  Reads.look (fun pd h => by rw [← h]; rfl)

/-- What is read in the flexible versions and what is read in the others. -/
theorem inverts_ite {α : Type} {p q : Extract α} {a : α}
    (hp : c.isFlexible = true → Inverts c p bytes a)
    (hq : c.isFlexible = false → Inverts c q bytes a) :
    Inverts c (do if ← flexible then p else q) bytes a := by
  refine inverts_flexible.bind ?_
  rcases hflexible : c.isFlexible with _ | _
  · exact hq hflexible
  · exact hp hflexible

theorem toInt_ofNat {w n : ℕ} (h : 2 * n < 2 ^ w) : (BitVec.ofNat w n).toInt = n := by
  rw [BitVec.toInt_ofNat']
  exact intOf_of_lt (by have : (0 : ℤ) < 2 ^ w := by positivity
                        omega) (by exact_mod_cast h)

theorem inverts_string (str : ShortString) :
    Inverts c extractString (stringBytes c.isFlexible str) str.val := by
  have hstr := str.property
  refine inverts_ite ?_ ?_
  · intro hflexible
    rw [stringBytes, if_pos hflexible]
    refine (inverts_unsignedVarint_small (by omega)).bind ?_
    have hlen : intOf 32 (((str.val.length + 1 : ℕ) : ℤ) - 1) = str.val.length := by
      rw [Nat.cast_succ, add_sub_cancel_right]
      exact intOf_of_lt (by omega) (by omega)
    dsimp only
    rw [hlen, if_neg (by omega)]
    exact inverts_bytes str.val
  · intro hregular
    rw [stringBytes, hregular, if_neg (by decide)]
    have hlen : (BitVec.ofNat 16 str.val.length).toInt = str.val.length := toInt_ofNat (by omega)
    have hword := @inverts_int c 2 (BitVec.ofNat 16 str.val.length)
    rw [hlen] at hword
    exact hword.bind (inverts_bytes str.val)

theorem inverts_nullableString (str : Option ShortString) :
    Inverts c extractNullableString (nullableStringBytes c.isFlexible str)
      (str.elim [] Subtype.val) := by
  rcases str with _ | str
  · refine inverts_ite ?_ ?_
    · intro hflexible
      rw [nullableStringBytes, if_pos hflexible, ← List.append_nil (varintBytes 0)]
      exact (inverts_unsignedVarint_small (by decide)).bind (Reads.pure [])
    · intro hregular
      rw [nullableStringBytes, hregular, if_neg (by decide),
        ← List.append_nil (wordBytes (n := 2) (BitVec.ofInt 16 (-1)))]
      exact (@inverts_int c 2 (BitVec.ofInt 16 (-1))).bind (Reads.pure [])
  · have hstr := str.property
    refine inverts_ite ?_ ?_
    · intro hflexible
      rw [nullableStringBytes, stringBytes, if_pos hflexible]
      refine (inverts_unsignedVarint_small (by omega)).bind ?_
      have hlen : intOf 32 (((str.val.length + 1 : ℕ) : ℤ) - 1) = str.val.length := by
        rw [Nat.cast_succ, add_sub_cancel_right]
        exact intOf_of_lt (by omega) (by omega)
      dsimp only
      rw [hlen, if_neg (by omega), if_neg (by omega)]
      exact inverts_bytes str.val
    · intro hregular
      rw [nullableStringBytes, stringBytes, hregular, if_neg (by decide)]
      have hlen : (BitVec.ofNat 16 str.val.length).toInt = str.val.length := toInt_ofNat (by omega)
      have hword := @inverts_int c 2 (BitVec.ofNat 16 str.val.length)
      rw [hlen] at hword
      refine hword.bind ?_
      rw [if_neg (by omega)]
      exact inverts_bytes str.val

/-- An array of the regular form. -/
theorem inverts_regularArray {α β : Type} {p : Extract β} {enc : α → GoString} {dec : α → β}
    {as : List α} (hfits : as.length < 2 ^ 31) (h : ∀ a ∈ as, Inverts c p (enc a) (dec a)) :
    Inverts c (extractRegularArray p) (arrayBytes false enc as) (as.map dec) := by
  have hlen : (BitVec.ofNat 32 as.length).toInt = as.length := toInt_ofNat (by omega)
  have hword := @inverts_int c 4 (BitVec.ofNat 32 as.length)
  rw [hlen] at hword
  rw [arrayBytes, if_neg (by decide)]
  refine hword.bind ?_
  rw [if_neg (by unfold kNullArray; omega), if_neg (by unfold kNullArray; omega),
    Int.toNat_natCast]
  exact Reads.readN h

theorem inverts_array {α β : Type} {p : Extract β} {enc : α → GoString} {dec : α → β}
    {as : List α} (hfits : CountFits c.isFlexible as.length)
    (h : ∀ a ∈ as, Inverts c p (enc a) (dec a)) :
    Inverts c (extractArray p) (arrayBytes c.isFlexible enc as) (as.map dec) := by
  refine inverts_ite ?_ ?_
  · intro hflexible
    rw [CountFits, if_pos hflexible] at hfits
    rw [arrayBytes, if_pos hflexible]
    refine (inverts_unsignedVarint_small hfits).bind ?_
    rw [if_neg (by omega), if_neg (by omega), Nat.cast_succ, add_sub_cancel_right,
      Int.toNat_natCast]
    exact Reads.readN h
  · intro hregular
    rw [CountFits, hregular, if_neg (by decide)] at hfits
    rw [hregular]
    exact inverts_regularArray hfits h

theorem inverts_taggedField (field : TaggedField) :
    Inverts c extractTaggedField (taggedFieldBytes field) () := by
  have htag := field.tag.isLt
  have hsize := field.data.property
  exact (inverts_unsignedVarint (by omega)).attempt.bind
    ((inverts_unsignedVarint_small hsize).bind
      ((inverts_bytes field.data.val).attempt.bind (Reads.pure ())))

theorem inverts_tagSection (tags : TagSection) :
    Inverts c extractTagSection (tagBytes c.isFlexible tags) () := by
  refine inverts_ite ?_ ?_
  · intro hflexible
    rw [tagBytes, if_pos hflexible]
    refine (inverts_unsignedVarint_small tags.property).bind ?_
    rw [Int.toNat_natCast]
    have hfields : Reads PacketDecoder.view c (readN extractTaggedField tags.val.length)
        (tags.val.flatMap taggedFieldBytes) (tags.val.map fun _ => ()) :=
      Reads.readN (fun field _ => inverts_taggedField field)
    exact hfields.map
  · intro hregular
    rw [tagBytes, hregular]
    exact Reads.pure ()

/-- A field that is there from a version on. -/
def sinceBytes (apiVersion version : ℤ) (bytes : GoString) : GoString :=
  if version ≤ apiVersion then bytes else []

theorem inverts_since {α : Type} {p : Extract α} {version : ℤ} {absent a : α}
    (h : version ≤ c.apiVersion → Inverts c p bytes a) :
    Inverts c (since version absent p) (sinceBytes c.apiVersion version bytes)
      (if version ≤ c.apiVersion then a else absent) := by
  by_cases hversion : version ≤ c.apiVersion
  · rw [sinceBytes, if_pos hversion, if_pos hversion]
    refine inverts_apiVersion.bind ?_
    rw [if_pos hversion]
    exact h hversion
  · rw [sinceBytes, if_neg hversion, if_neg hversion]
    refine inverts_apiVersion.bind ?_
    rw [if_neg hversion]
    exact Reads.pure absent

/-! ## Marks -/

theorem moves_markOffset {len : ℤ} (hlen : len = bytes.length) :
    Moves PacketDecoder.view (markOffset len) ⟨bytes ++ tail, marks, c⟩ ()
      ⟨bytes ++ tail, tail :: marks, c⟩ := by
  intro pd hpd
  have hstr := str_of_view hpd
  have hmarks : pd.markedBufs = marks := congrArg Cursor.marks hpd
  have hinfo : (⟨pd.apiVersion, pd.isFlexible⟩ : ApiInfo) = c := congrArg Cursor.info hpd
  have hnot : ¬ len > pd.binaryDecoder.str.length := by
    rw [hstr, List.length_append]
    omega
  refine ⟨_, by rw [markOffset, if_neg (by omega), if_neg hnot], ?_⟩
  rw [PacketDecoder.view, hlen, hstr, Int.toNat_natCast, List.drop_left]
  dsimp only
  rw [hmarks, hinfo]

theorem moves_jumpToOffset :
    Moves PacketDecoder.view jumpToOffset ⟨bytes, tail :: marks, c⟩ () ⟨tail, marks, c⟩ := by
  intro pd hpd
  have hmarks : pd.markedBufs = tail :: marks := congrArg Cursor.marks hpd
  have hinfo : (⟨pd.apiVersion, pd.isFlexible⟩ : ApiInfo) = c := congrArg Cursor.info hpd
  refine ⟨_, by rw [jumpToOffset, hmarks], ?_⟩
  rw [PacketDecoder.view, ← hinfo]

end Inverts

end Kyanos.Kafka
