/-
Where the lengths of a Kafka packet lead: its layouts, without the values.

A layout is a walk over the bytes of a packet. It goes on behind what it passes, it stops where
the bytes do not allow it, and it faults at a length below zero that nobody looks at: a regular
string takes its 16 bits as they are, and so does the data of a tagged field with its varint. The
decoders follow these walks (`Follows`), so a packet is decoded without a panic just when the
walk over it does not fault.
-/
import Kyanos.KafkaWire

set_option autoImplicit false

open GoNum ByteReader

namespace Kyanos.Kafka

/-! ## Numbers at the front -/

/-- A word of `n` bytes, and what is behind it. -/
def frontInt (n : ℕ) (b : GoString) : Option ℤ × GoString :=
  if b.length < n then (none, b) else (some (intOf (8 * n) (bigEndian (b.take n))), b.drop n)

/-- A varint of at most `n` bytes, and where its reading ends, also where it fails. -/
def frontVarint : ℕ → GoString → Option ℕ × GoString
  | 0, b => (none, b)
  | _ + 1, [] => (none, [])
  | n + 1, x :: b =>
      if x.toNat < 128 then (some x.toNat, b)
      else ((frontVarint n b).1.map (fun v => x.toNat % 128 + 128 * v), (frontVarint n b).2)

/-- The bits of a varint that an `int64` keeps. -/
def frontVarint64 (n : ℕ) : GoString → Option ℕ × GoString :=
  frontMap (fun v => v % 2 ^ 64) (frontVarint n)

def frontLength : GoString → Option ℤ × GoString :=
  frontMap (fun v => intOf 32 (toInt64 v)) (frontVarint64 5)

def frontSigned : GoString → Option ℤ × GoString :=
  frontMap (fun v => intOf 32 (zigzag v)) (frontVarint64 5)

def frontVarlong : GoString → Option ℤ × GoString := frontMap zigzag (frontVarint64 10)

/-! ## Walks -/

namespace Layout

/-- A word of `n` bytes. -/
def word (n : ℕ) : Walk := Walk.front (frontInt n) (fun _ => Verdict.goes)

/-- A word, and what its value leads to. -/
def sized (n : ℕ) (k : ℤ → Walk) : Walk := Walk.front (frontInt n) k

/-- A varint, and what its value leads to. -/
def varsized (k : ℤ → Walk) : Walk := Walk.front frontLength k

/-- `len` bytes; a length below zero passes the comparison and faults. -/
def span (len : ℤ) : Walk := fun b =>
  if (b.length : ℤ) < len then .stops else if len < 0 then .faults else .goes (b.drop len.toNat)

def regularString : Walk := sized 2 span

def regularNullable : Walk := sized 2 (fun len => if len = -1 then Verdict.goes else span len)

def compact : Walk := varsized (fun len =>
  if intOf 32 (len - 1) < 0 then fun _ => .stops else span (intOf 32 (len - 1)))

def compactNullable : Walk := varsized (fun len =>
  if intOf 32 (len - 1) < -1 then fun _ => .stops
  else if intOf 32 (len - 1) = -1 then Verdict.goes else span (intOf 32 (len - 1)))

/-- A tagged field: the tag, however it reads, and the data if there is as much. -/
def taggedField : Walk := fun b =>
  match frontLength (frontLength b).2 with
  | (none, _) => .stops
  | (some len, rest) =>
      match span len rest with
      | .goes rest' => .goes rest'
      | .stops => .goes rest
      | .faults => .faults

section Versions

variable (c : ApiInfo)

def string : Walk := if c.isFlexible then compact else regularString

def nullableString : Walk := if c.isFlexible then compactNullable else regularNullable

def tags : Walk :=
  if c.isFlexible then varsized (fun n => Walk.times taggedField n.toNat) else Verdict.goes

def regularArray (w : Walk) : Walk := sized 4 (fun len =>
  if len < -1 then fun _ => .stops else if len = -1 then Verdict.goes else w.times len.toNat)

def compactArray (w : Walk) : Walk := varsized (fun len =>
  if len < 0 then fun _ => .stops else if len = 0 then Verdict.goes else w.times (len - 1).toNat)

def array (w : Walk) : Walk := if c.isFlexible then compactArray w else regularArray w

def since (version : ℤ) (w : Walk) : Walk := if version ≤ c.apiVersion then w else Verdict.goes

end Versions

end Layout

/-! ## The decoders follow -/

/-- The decoder ends as the walk, in the version `c`. -/
abbrev FollowsIn {α : Type} (c : ApiInfo) (p : Extract α) (w : Walk) : Prop :=
  Follows PacketDecoder.view c p w

section Follow

variable {c : ApiInfo} {pd : PacketDecoder}

@[simp] theorem view_rest : (PacketDecoder.view pd).rest = pd.binaryDecoder.str := rfl

theorem extractInt_fronts (n : ℕ) : Fronts PacketDecoder.view (extractInt n) (frontInt n) := by
  intro pd
  rw [view_rest, frontInt]
  split_ifs with hshort
  · refine ⟨pd, rfl, .decode .resourceNotAvailble, ?_⟩
    rw [extractInt, ofBinary, BinaryDecoder.extractBEInt, BinaryDecoder.extractBE, if_pos hshort]
    rfl
  · refine ⟨{ pd with binaryDecoder := pd.binaryDecoder.taking n }, rfl, ?_⟩
    dsimp only
    rw [extractInt, ofBinary, BinaryDecoder.extractBEInt, BinaryDecoder.extractBE, if_neg hshort]
    rfl

/-- A shift that leaves 64 bits is cut, and the bits below it stay. -/
theorem or_u64_shiftLeft {v i : ℕ} (hv : v < 2 ^ i) (hv64 : v < 2 ^ 64) (x : ℕ) :
    v ||| u64 (x <<< i) = (v + x * 2 ^ i) % 2 ^ 64 := by
  rw [← or_shiftLeft hv, Nat.or_mod_two_pow, Nat.mod_eq_of_lt hv64]
  rfl

/-- How the loop of a varint ends: the bytes say whether, and with which 64 bits. -/
theorem varintLoop_ends (n i v : ℕ) (pd : PacketDecoder) :
    ∃ pd', pd'.view = { pd.view with rest := (frontVarint n pd.binaryDecoder.str).2 }
      ∧ match (frontVarint n pd.binaryDecoder.str).1 with
        | none => ∃ e, varintLoop n i v pd = .failed e pd'
        | some x => ∃ y, varintLoop n i v pd = .done y pd'
            ∧ ∀ k, i = 7 * k → v < 2 ^ (7 * k) → v < 2 ^ 64
              → y = (v + x * 2 ^ (7 * k)) % 2 ^ 64 := by
  induction n generalizing i v pd with
  | zero => exact ⟨pd, rfl, _, rfl⟩
  | succ n ih =>
      rcases hstr : pd.binaryDecoder.str with _ | ⟨x, b⟩
      · refine ⟨pd, ?_, .decode .resourceNotAvailble, ?_⟩
        · rw [PacketDecoder.view, hstr]
          rfl
        · rw [varintLoop, bind_failed]
          rw [extractByte, ofBinary, BinaryDecoder.extractByte, hstr]
      · have hbyte : extractByte pd
            = .done x { pd with binaryDecoder := pd.binaryDecoder.taking 1 } := by
          rw [extractByte, ofBinary, BinaryDecoder.extractByte, hstr]
        have hrest : (pd.binaryDecoder.taking 1).str = b := by
          rw [BinaryDecoder.taking, hstr]
          rfl
        have hx := x.toNat_lt
        rw [varintLoop, bind_done hbyte, frontVarint]
        by_cases hlast : x.toNat < 128
        · rw [if_pos hlast, if_pos ((firstBit_eq_zero (by omega)).mpr hlast)]
          refine ⟨_, ?_, _, rfl, ?_⟩
          · rw [PacketDecoder.view, PacketDecoder.view]
            dsimp only
            rw [hrest]
          · rintro k rfl hv hv64
            exact or_u64_shiftLeft hv hv64 x.toNat
        · rw [if_neg hlast, if_neg (by rw [firstBit_eq_zero (by omega)]; exact hlast)]
          obtain ⟨pd', hview, hends⟩ := ih (i + kByteLength)
            (v ||| u64 ((x.toNat &&& kLastSevenBitMask) <<< i))
            { pd with binaryDecoder := pd.binaryDecoder.taking 1 }
          dsimp only at hview hends
          rw [hrest] at hview hends
          refine ⟨pd', hview, ?_⟩
          rcases hfront : (frontVarint n b).1 with _ | y
          · rw [hfront] at hends
            exact hends
          · rw [hfront] at hends
            obtain ⟨z, hdone, hvalue⟩ := hends
            refine ⟨z, hdone, ?_⟩
            rintro k rfl hv hv64
            have hmod : x.toNat % 128 < 128 := Nat.mod_lt _ (by decide)
            have hor := or_u64_shiftLeft hv hv64 (x.toNat % 128)
            have hlt : v + x.toNat % 128 * 2 ^ (7 * k) < 2 ^ (7 * (k + 1)) := by
              rw [two_pow_seven_succ]
              nlinarith
            rw [lastSevenBits, hor] at hvalue
            rw [hvalue (k + 1) rfl ((Nat.mod_le _ _).trans_lt hlt) (Nat.mod_lt _ (by decide)),
              Nat.mod_add_mod, two_pow_seven_succ]
            congr 1
            ring

theorem extractUnsignedVarintCore_fronts (n : ℕ) :
    Fronts PacketDecoder.view (extractUnsignedVarintCore (7 * n)) (frontVarint64 n) := by
  intro pd
  have hn : (7 * n + kByteLength - 1) / kByteLength = n := by
    unfold kByteLength
    omega
  rw [extractUnsignedVarintCore, hn]
  obtain ⟨pd', hview, hends⟩ := varintLoop_ends n 0 0 pd
  refine ⟨pd', hview, ?_⟩
  rw [frontVarint64, frontMap, view_rest]
  dsimp only
  rcases hfront : (frontVarint n pd.binaryDecoder.str).1 with _ | x
  · rw [hfront] at hends
    exact hends
  · rw [hfront] at hends
    obtain ⟨y, hdone, hvalue⟩ := hends
    have hy : y = x % 2 ^ 64 := by
      rw [hvalue 0 rfl (by decide) (by decide), Nat.zero_add, Nat.mul_zero, Nat.pow_zero,
        Nat.mul_one]
    rw [hdone, hy]
    rfl

theorem extractUnsignedVarint_fronts :
    Fronts PacketDecoder.view extractUnsignedVarint frontLength :=
  (extractUnsignedVarintCore_fronts 5).map _

theorem extractVarint_fronts : Fronts PacketDecoder.view extractVarint frontSigned := by
  intro pd
  have h := ((extractUnsignedVarintCore_fronts 5).map zigzag).map (fun v => intOf 32 v)
  obtain ⟨pd', hview, hend⟩ := h pd
  refine ⟨pd', hview, ?_⟩
  unfold frontSigned
  unfold frontMap at hend ⊢
  dsimp only at hend ⊢
  rwa [Option.map_map] at hend

theorem extractVarlong_fronts : Fronts PacketDecoder.view extractVarlong frontVarlong :=
  (extractUnsignedVarintCore_fronts 10).map _

/-! ## Strings, arrays and tagged fields -/

open Layout

theorem follows_int (n : ℕ) : FollowsIn c (extractInt n) (word n) :=
  Follows.ofFront (extractInt_fronts n)

theorem follows_sized {α : Type} {n : ℕ} {f : ℤ → Extract α} {k : ℤ → Walk}
    (h : ∀ len, FollowsIn c (f len) (k len)) :
    FollowsIn c (extractInt n >>= f) (sized n k) :=
  Follows.front (extractInt_fronts n) h

theorem follows_varsized {α : Type} {f : ℤ → Extract α} {k : ℤ → Walk}
    (h : ∀ len, FollowsIn c (f len) (k len)) :
    FollowsIn c (extractUnsignedVarint >>= f) (varsized k) :=
  Follows.front extractUnsignedVarint_fronts h

theorem follows_span (len : ℤ) : FollowsIn c (extractBytesCore len) (span len) := by
  intro pd hpd
  rw [span, view_rest, extractBytesCore, BinaryDecoder.extractString]
  split_ifs
  · exact ⟨_, _, rfl⟩
  · exact ⟨_, rfl⟩
  · exact ⟨_, _, rfl, rfl, hpd⟩

theorem follows_ite {α : Type} {p q : Extract α} {w w' : Walk} (hp : FollowsIn c p w)
    (hq : FollowsIn c q w') :
    FollowsIn c (do if ← flexible then p else q) (if c.isFlexible then w else w') := by
  refine Follows.look (x := c.isFlexible) (fun pd h => by rw [← h]; rfl) ?_
  rcases c.isFlexible with _ | _
  · exact hq
  · exact hp

theorem follows_compact (msg : String) : FollowsIn c (extractCompact msg) compact := by
  refine follows_varsized (fun len => ?_)
  dsimp only
  split_ifs
  · exact Follows.fail _
  · exact follows_span _

theorem follows_compactNullable (msg : String) :
    FollowsIn c (extractCompactNullable msg) compactNullable := by
  refine follows_varsized (fun len => ?_)
  dsimp only
  split_ifs
  · exact Follows.fail _
  · exact Follows.pure _
  · exact follows_span _

theorem follows_string : FollowsIn c extractString (Layout.string c) :=
  follows_ite (follows_compact _) (follows_sized follows_span)

theorem follows_regularNullable : FollowsIn c extractRegularNullableString regularNullable := by
  refine follows_sized (fun len => ?_)
  split_ifs
  · exact Follows.pure _
  · exact follows_span _

theorem follows_nullableString : FollowsIn c extractNullableString (nullableString c) :=
  follows_ite (follows_compactNullable _) follows_regularNullable

/-- Byte strings have the lengths of strings. -/
theorem follows_bytes : FollowsIn c extractBytes (Layout.string c) :=
  follows_ite (follows_compact _) (follows_sized follows_span)

theorem follows_taggedField : FollowsIn c extractTaggedField taggedField := by
  intro pd hpd
  -- the tag moves the decoder, whether it can be read or not
  obtain ⟨pd₁, hview₁, hends₁⟩ := extractUnsignedVarint_fronts pd
  have htag : ∃ r, attempt extractUnsignedVarint pd = .done r pd₁ := by
    generalize (frontLength (PacketDecoder.view pd).rest).1 = tag at hends₁
    rcases tag with _ | tag
    · obtain ⟨e, hfailed⟩ := hends₁
      exact ⟨.error e, attempt_failed hfailed⟩
    · exact ⟨.ok tag, attempt_done hends₁⟩
  obtain ⟨r, hattempt⟩ := htag
  obtain ⟨pd₂, hview₂, hends₂⟩ := extractUnsignedVarint_fronts pd₁
  have hrest₁ : (PacketDecoder.view pd₁).rest = (frontLength (PacketDecoder.view pd).rest).2 := by
    rw [hview₁]
  have hinfo₂ : (PacketDecoder.view pd₂).info = c := by
    rw [hview₂, hview₁]
    exact hpd
  rw [hrest₁] at hview₂ hends₂
  rw [taggedField, extractTaggedField, bind_done hattempt]
  rcases hlength : frontLength (frontLength (PacketDecoder.view pd).rest).2 with ⟨_ | len, rest⟩
  · rw [hlength] at hends₂
    obtain ⟨e, hfailed⟩ := hends₂
    exact ⟨e, pd₂, bind_failed hfailed⟩
  · rw [hlength] at hends₂ hview₂
    dsimp only at hends₂
    rw [bind_done hends₂]
    have hstr₂ : pd₂.binaryDecoder.str = rest := congrArg Cursor.rest hview₂
    dsimp only
    unfold span
    rw [← hstr₂]
    split_ifs with hshort hneg
    · have hfailed : extractBytesCore len pd₂ = .failed (.decode .resourceNotAvailble) pd₂ := by
        rw [extractBytesCore, BinaryDecoder.extractString, if_pos hshort]
      exact ⟨(), pd₂, bind_done (attempt_failed hfailed), rfl, hinfo₂⟩
    · have hfault : extractBytesCore len pd₂ = .fault .sliceOutOfRange := by
        rw [extractBytesCore, BinaryDecoder.extractString, if_neg hshort, if_pos hneg]
      exact ⟨_, bind_fault (attempt_fault hfault)⟩
    · have hdone : extractBytesCore len pd₂ = .done (pd₂.binaryDecoder.str.take len.toNat)
          { pd₂ with binaryDecoder := pd₂.binaryDecoder.taking len.toNat } := by
        rw [extractBytesCore, BinaryDecoder.extractString, if_neg hshort, if_neg hneg]
      exact ⟨(), _, bind_done (attempt_done hdone), rfl, hinfo₂⟩

theorem follows_tagSection : FollowsIn c extractTagSection (tags c) :=
  follows_ite (follows_varsized fun n => (follows_taggedField.readN n.toNat).map) (Follows.pure ())

theorem extractTagSection_keepsMarks : KeepsMarks PacketDecoder.view extractTagSection := by
  have hlength := KeepsMarks.ofFront extractUnsignedVarint_fronts
  have hbytes : ∀ len, KeepsMarks PacketDecoder.view (extractBytesCore len) := by
    intro len pd
    unfold extractBytesCore BinaryDecoder.extractString
    split_ifs
    · exact rfl
    · trivial
    · exact rfl
  have hfield : KeepsMarks PacketDecoder.view extractTaggedField :=
    hlength.attempt.bind fun _ => hlength.bind fun len =>
      (hbytes len).attempt.bind fun _ => KeepsMarks.pure ()
  have hflexible : KeepsMarks PacketDecoder.view flexible := fun _ => rfl
  refine hflexible.bind (fun isFlexible => ?_)
  split_ifs
  · exact hlength.bind fun n => (hfield.readN n.toNat).bind fun _ => KeepsMarks.pure ()
  · exact KeepsMarks.pure ()

theorem follows_regularArray {α : Type} {p : Extract α} {w : Walk} (hp : FollowsIn c p w) :
    FollowsIn c (extractRegularArray p) (regularArray w) := by
  refine follows_sized (fun len => ?_)
  unfold kNullArray
  split_ifs
  · exact Follows.fail _
  · exact Follows.pure _
  · exact hp.readN _

theorem follows_compactArray {α : Type} {p : Extract α} {w : Walk} (hp : FollowsIn c p w) :
    FollowsIn c (extractCompactArray p) (compactArray w) := by
  refine follows_varsized (fun len => ?_)
  split_ifs
  · exact Follows.fail _
  · exact Follows.pure _
  · exact hp.readN _

theorem follows_array {α : Type} {p : Extract α} {w : Walk} (hp : FollowsIn c p w) :
    FollowsIn c (extractArray p) (array c w) :=
  follows_ite (follows_compactArray hp) (follows_regularArray hp)

theorem follows_since {α : Type} {p : Extract α} {w : Walk} (version : ℤ) (absent : α)
    (hp : FollowsIn c p w) :
    FollowsIn c (Kafka.since version absent p) (Layout.since c version w) := by
  refine Follows.look (x := c.apiVersion) (fun pd h => by rw [← h]; rfl) ?_
  unfold Layout.since
  split_ifs
  · exact hp
  · exact Follows.pure absent

/-! ## Message sets -/

/-- What is read within the length of a record. -/
def recordFields : Extract RecordMessage := do
  let _ ← extractInt8
  let _ ← extractVarlong
  let _ ← extractVarint
  let key ← extractBytesZigZag
  let value ← extractBytesZigZag
  pure { key := key, value := value }

/-- What is read within the length of a batch. -/
def batchFields (offset length : ℤ) : Extract (RecordBatch × ℤ) := do
  let _ ← extractInt32
  let magic ← extractInt8
  if magic < 2 then failNew "old record batch (message set) format not supported"
  else if magic > 2 then failNew "unknown magic in ExtractRecordBatch"
  else
    let _ ← extractInt32
    let _ ← extractInt16
    let _ ← extractInt32
    let _ ← extractInt64
    let _ ← extractInt64
    let _ ← extractInt64
    let _ ← extractInt16
    let _ ← extractInt32
    let records ← extractRegularArray extractRecordMessage
    pure ({ records := records },
      intOf 32 (offset + intOf 32 (length + kBaseOffsetLength + kLengthLength)))

theorem extractRecordMessage_within : extractRecordMessage = (do
    let length ← extractVarint
    markOffset length >>= fun _ => recordFields >>= fun r => jumpToOffset >>= fun _ => pure r) := by
  simp only [extractRecordMessage, recordFields, bind_assoc, pure_bind]

theorem extractRecordBatch_within (offset : ℤ) : extractRecordBatch offset = (do
    let _ ← extractInt64
    let length ← extractInt32
    markOffset length >>= fun _ => batchFields offset length >>= fun r =>
      jumpToOffset >>= fun _ => pure r) := by
  unfold extractRecordBatch batchFields
  simp only [bind_assoc]
  congr 1
  funext _
  congr 1
  funext length
  congr 1
  funext _
  congr 1
  funext _
  congr 1
  funext magic
  split_ifs
  · rfl
  · rfl
  · simp only [bind_assoc, pure_bind]

/-- A part is read, whatever is read in it. -/
abbrev EndsIn {α : Type} (p : Extract α) (part : Section Unit) : Prop :=
  Ends PacketDecoder.view (fun _ _ => True) p part

namespace Layout

def zigzagBytes : Section Unit := (Section.value frontSigned).bind fun len =>
  if len < -1 then fun _ => .cut
  else if len = 0 ∨ len = -1 then .read ()
  else fun b => if (b.length : ℤ) < len then .cut else .read () (b.drop len.toNat)

def record : Section Unit := (Section.value frontSigned).bind fun length => Section.within length <|
  (Section.value (frontInt 1)).bind fun _ => (Section.value frontVarlong).bind fun _ =>
    (Section.value frontSigned).bind fun _ => zigzagBytes.bind fun _ => zigzagBytes

def records : Section Unit := (Section.value (frontInt 4)).bind fun n =>
  if n < -1 then fun _ => .cut else if n = -1 then .read () else record.times n.toNat

/-- A batch, and the offset behind it. -/
def batch (offset : ℤ) : Section ℤ := (Section.value (frontInt 8)).bind fun _ =>
  (Section.value (frontInt 4)).bind fun length => Section.within length <|
    (Section.value (frontInt 4)).bind fun _ => (Section.value (frontInt 1)).bind fun magic =>
      if magic < 2 then fun _ => .cut
      else if magic > 2 then fun _ => .cut
      else
        (Section.value (frontInt 4)).bind fun _ => (Section.value (frontInt 2)).bind fun _ =>
          (Section.value (frontInt 4)).bind fun _ => (Section.value (frontInt 8)).bind fun _ =>
            (Section.value (frontInt 8)).bind fun _ => (Section.value (frontInt 8)).bind fun _ =>
              (Section.value (frontInt 2)).bind fun _ => (Section.value (frontInt 4)).bind fun _ =>
                records.bind fun _ => .read
                  (intOf 32 (offset + intOf 32 (length + kBaseOffsetLength + kLengthLength)))

/-- The batches of a set that ends at `after`: whether they get to its size, and where they
end. A batch that cannot be read leads to the end that was marked last. -/
def batches (size : ℤ) (after : GoString) : ℕ → ℤ → GoString → Bool × GoString
  | 0, _, b => (true, b)
  | n + 1, offset, b =>
      if offset < size then
        match batch offset b with
        | .read offset rest => batches size after n offset rest
        | .cut => (false, after)
        | .broken rest => (false, rest)
      else (true, b)

/-- The batches of a set, and its tagged fields if they got to the size. -/
def setBody (c : ApiInfo) (size : ℤ) : Walk := fun b =>
  if size < 0 ∨ (b.length : ℤ) < size then .stops
  else
    match batches size (b.drop size.toNat) (b.length + 1) 0 b with
    | (false, rest) => .goes rest
    | (true, rest) => (tags c).andThen (fun _ => .goes (b.drop size.toNat)) rest

def messageSet (c : ApiInfo) : Walk :=
  if c.isFlexible then varsized (setBody c) else sized 4 (setBody c)

end Layout

theorem markOffset_marks : Marks PacketDecoder.view markOffset jumpToOffset := by
  constructor
  · intro len pd hlen
    rw [view_rest] at hlen
    unfold markOffset
    by_cases hneg : len < 0
    · exact ⟨_, if_pos hneg⟩
    · exact ⟨_, (if_neg hneg).trans (if_pos (by omega))⟩
  · intro len pd hlen
    rw [view_rest] at hlen
    unfold markOffset
    refine ⟨_, (if_neg (by omega)).trans (if_neg (by omega)), rfl⟩
  · intro pd rest marks hmarks
    have hmarked : pd.markedBufs = rest :: marks := hmarks
    refine ⟨_, by rw [jumpToOffset, hmarked], rfl⟩

theorem ends_zigzagBytes : EndsIn extractBytesZigZag zigzagBytes := by
  refine (Ends.value extractVarint_fronts).bind (fun len _ hlen => ?_)
  subst hlen
  split_ifs with hneg hnone
  · exact Ends.fail _
  · exact Ends.pure trivial
  · intro pd
    rw [view_rest]
    dsimp only
    split_ifs with hshort
    · refine ⟨.decode .resourceNotAvailble, pd, ?_, rfl, rfl⟩
      rw [extractBytesCore, BinaryDecoder.extractString, if_pos hshort]
    · refine ⟨pd.binaryDecoder.str.take len.toNat,
        { pd with binaryDecoder := pd.binaryDecoder.taking len.toNat }, ?_, trivial, rfl⟩
      rw [extractBytesCore, BinaryDecoder.extractString, if_neg hshort, if_neg (by omega)]

theorem ends_record : EndsIn extractRecordMessage record := by
  rw [extractRecordMessage_within]
  refine (Ends.value extractVarint_fronts).bind (fun length _ hlength => ?_)
  subst hlength
  refine Ends.within markOffset_marks length ?_
  refine (Ends.value (extractInt_fronts 1)).bind (fun _ _ _ => ?_)
  refine (Ends.value extractVarlong_fronts).bind (fun _ _ _ => ?_)
  refine (Ends.value extractVarint_fronts).bind (fun _ _ _ => ?_)
  refine ends_zigzagBytes.bind (fun key _ _ => ?_)
  exact ends_zigzagBytes.map (fun _ _ _ => trivial)

theorem ends_records : EndsIn (extractRegularArray extractRecordMessage) records := by
  refine (Ends.value (extractInt_fronts 4)).bind (fun n _ hn => ?_)
  subst hn
  unfold kNullArray
  split_ifs
  · exact Ends.fail _
  · exact Ends.pure trivial
  · exact ends_record.readN _

theorem ends_batch (offset : ℤ) : Ends PacketDecoder.view (fun r offset' => r.2 = offset')
    (extractRecordBatch offset) (batch offset) := by
  rw [extractRecordBatch_within]
  refine (Ends.value (extractInt_fronts 8)).bind (fun _ _ _ => ?_)
  refine (Ends.value (extractInt_fronts 4)).bind (fun length _ hlength => ?_)
  subst hlength
  refine Ends.within markOffset_marks length ?_
  refine (Ends.value (extractInt_fronts 4)).bind (fun _ _ _ => ?_)
  refine (Ends.value (extractInt_fronts 1)).bind (fun magic _ hmagic => ?_)
  subst hmagic
  split_ifs
  · exact Ends.fail _
  · exact Ends.fail _
  · refine (Ends.value (extractInt_fronts 4)).bind (fun _ _ _ => ?_)
    refine (Ends.value (extractInt_fronts 2)).bind (fun _ _ _ => ?_)
    refine (Ends.value (extractInt_fronts 4)).bind (fun _ _ _ => ?_)
    refine (Ends.value (extractInt_fronts 8)).bind (fun _ _ _ => ?_)
    refine (Ends.value (extractInt_fronts 8)).bind (fun _ _ _ => ?_)
    refine (Ends.value (extractInt_fronts 8)).bind (fun _ _ _ => ?_)
    refine (Ends.value (extractInt_fronts 2)).bind (fun _ _ _ => ?_)
    refine (Ends.value (extractInt_fronts 4)).bind (fun _ _ _ => ?_)
    exact ends_records.bind (fun _ _ _ => Ends.pure rfl)

/-- The loop over the batches ends where it is said, and behind the last of them the end of the
set is still the one marked last. -/
theorem extractRecordBatches_ends (size offset : ℤ) {after : GoString} {marks : List GoString}
    (n : ℕ) (pd : PacketDecoder) (hmarks : pd.markedBufs = after :: marks) :
    ∃ recordBatches pd', extractRecordBatches size n offset pd
        = .done (recordBatches, (batches size after n offset pd.binaryDecoder.str).1) pd'
      ∧ pd'.view.info = pd.view.info
      ∧ pd'.view.rest = (batches size after n offset pd.binaryDecoder.str).2
      ∧ ((batches size after n offset pd.binaryDecoder.str).1 = true
        → pd'.markedBufs = after :: marks) := by
  induction n generalizing offset pd with
  | zero => exact ⟨[], pd, rfl, rfl, rfl, fun _ => hmarks⟩
  | succ n ih =>
      rw [extractRecordBatches, batches]
      by_cases hsize : offset < size
      · rw [if_pos hsize, if_pos hsize]
        have hend := ends_batch offset pd
        rw [view_rest] at hend
        generalize batch offset pd.binaryDecoder.str = ended at hend ⊢
        rcases ended with ⟨offset', rest⟩ | _ | rest
        · obtain ⟨⟨recordBatch, _⟩, pd₁, hdone, rfl, hview⟩ := hend
          have hrest : pd₁.binaryDecoder.str = rest := congrArg Cursor.rest hview
          have hmarks₁ : pd₁.markedBufs = after :: marks :=
            (congrArg Cursor.marks hview).trans hmarks
          obtain ⟨recordBatches, pd₂, hloop, hinfo, hrest₂, hmarks₂⟩ := ih _ pd₁ hmarks₁
          rw [hrest] at hloop hrest₂ hmarks₂
          refine ⟨recordBatch :: recordBatches, pd₂, ?_, ?_, hrest₂, hmarks₂⟩
          · rw [bind_done (attempt_done hdone)]
            dsimp only
            rw [bind_done hloop]
            rfl
          · rw [hinfo, hview]
        · obtain ⟨e, pd₁, hfailed, hmarks₁, hinfo⟩ := hend
          obtain ⟨pd₂, hjump, hview₂⟩ := markOffset_marks.jump pd₁ after marks
            (hmarks₁.trans hmarks)
          refine ⟨[], pd₂, ?_, ?_, by rw [hview₂], by simp⟩
          · rw [bind_done (attempt_failed hfailed)]
            dsimp only
            rw [bind_done hjump]
            rfl
          · rw [hview₂]
            exact hinfo
        · obtain ⟨e, pd₁, deeper, hfailed, hmarks₁, hinfo⟩ := hend
          obtain ⟨pd₂, hjump, hview₂⟩ := markOffset_marks.jump pd₁ rest _ hmarks₁
          refine ⟨[], pd₂, ?_, ?_, by rw [hview₂], by simp⟩
          · rw [bind_done (attempt_failed hfailed)]
            dsimp only
            rw [bind_done hjump]
            rfl
          · rw [hview₂]
            exact hinfo
      · rw [if_neg hsize, if_neg hsize]
        exact ⟨[], pd, rfl, rfl, rfl, fun _ => hmarks⟩

/-- What `ExtractMessageSet` does behind the size. -/
def messageSetBody (size : ℤ) : Extract MessageSet := do
  markOffset size
  let remaining ← look (fun pd => pd.binaryDecoder.str.length)
  let (recordBatches, whole) ← extractRecordBatches size (remaining + 1) 0
  if whole then
    extractTagSection
    jumpToOffset
    pure { size := size, recordBatches := recordBatches }
  else pure { size := size, recordBatches := recordBatches }

theorem follows_setBody (size : ℤ) : FollowsIn c (messageSetBody size) (setBody c size) := by
  intro pd hpd
  rw [view_rest, setBody]
  split_ifs with hsize
  · obtain ⟨e, hfailed⟩ := markOffset_marks.short size pd hsize
    exact ⟨e, pd, bind_failed hfailed⟩
  · obtain ⟨pd₁, hmark, hview₁⟩ := markOffset_marks.mark size pd hsize
    have hstr₁ : pd₁.binaryDecoder.str = pd.binaryDecoder.str := congrArg Cursor.rest hview₁
    have hmarks₁ : pd₁.markedBufs = pd.binaryDecoder.str.drop size.toNat :: pd.markedBufs :=
      congrArg Cursor.marks hview₁
    obtain ⟨recordBatches, pd₂, hloop, hinfo₂, hrest₂, hmarks₂⟩ :=
      extractRecordBatches_ends size 0 (pd.binaryDecoder.str.length + 1) pd₁ hmarks₁
    have hinfo : (PacketDecoder.view pd₂).info = c := by
      rw [hinfo₂, hview₁]
      exact hpd
    rw [hstr₁] at hloop hrest₂ hmarks₂
    have hlook : (look (fun pd => pd.binaryDecoder.str.length) : Extract ℕ) pd₁
        = .done pd.binaryDecoder.str.length pd₁ := by
      rw [look, hstr₁]
    rw [messageSetBody, bind_done hmark, bind_done hlook, bind_done hloop]
    rcases hbatches : batches size (pd.binaryDecoder.str.drop size.toNat)
      (pd.binaryDecoder.str.length + 1) 0 pd.binaryDecoder.str with ⟨_ | _, rest⟩
    · rw [hbatches] at hrest₂
      exact ⟨_, pd₂, rfl, hrest₂, hinfo⟩
    · rw [hbatches] at hrest₂ hmarks₂
      have htags := follows_tagSection (c := c) pd₂ hinfo
      have hkeeps := extractTagSection_keepsMarks pd₂
      rw [hrest₂] at htags
      unfold Walk.andThen
      dsimp only
      generalize tags c rest = verdict at htags ⊢
      rcases verdict with rest' | _ | _
      · obtain ⟨_, pd₃, hdone, -, hinfo₃⟩ := htags
        rw [hdone] at hkeeps
        obtain ⟨pd₄, hjump, hview₄⟩ := markOffset_marks.jump pd₃ _ pd.markedBufs
          (hkeeps.trans (hmarks₂ rfl))
        refine ⟨_, pd₄, (bind_done hdone).trans (bind_done hjump), ?_, ?_⟩
        · rw [hview₄]
        · rw [hview₄]
          exact hinfo₃
      · obtain ⟨e, pd₃, hfailed⟩ := htags
        exact ⟨e, pd₃, bind_failed hfailed⟩
      · obtain ⟨q, hfault⟩ := htags
        exact ⟨q, bind_fault hfault⟩

theorem follows_messageSet : FollowsIn c extractMessageSet (messageSet c) := by
  have hsize : FollowsIn c (extractSetSize >>= messageSetBody) (messageSet c) := by
    unfold extractSetSize
    rw [bind_assoc]
    refine Follows.look (x := c.isFlexible) (fun pd h => by rw [← h]; rfl) ?_
    unfold messageSet
    rcases c.isFlexible with _ | _
    · exact follows_sized follows_setBody
    · exact follows_varsized follows_setBody
  exact hsize

/-- A batch is longer than nothing. -/
theorem batch_shorter {offset offset' : ℤ} {b rest : GoString}
    (h : batch offset b = .read offset' rest) : rest.length < b.length := by
  have hword : ∀ {δ : Type} {n : ℕ} {k : ℤ → Section δ} {b : GoString} {v : δ} {rest : GoString},
      (Section.value (frontInt n)).bind k b = .read v rest →
      n ≤ b.length ∧ ∃ x, k x (b.drop n) = .read v rest := by
    intro δ n k b v rest h
    unfold Section.bind Section.value frontInt at h
    by_cases hshort : b.length < n
    · rw [if_pos hshort] at h
      cases h
    · rw [if_neg hshort] at h
      exact ⟨Nat.le_of_not_lt hshort, _, h⟩
  obtain ⟨hlong, _, h⟩ := hword h
  obtain ⟨-, length, h⟩ := hword h
  unfold Section.within at h
  split_ifs at h
  split at h
  · cases h
    rw [List.length_drop, List.length_drop, List.length_drop]
    omega
  · cases h
  · cases h

/-- The bound of the loop over the batches is not noticed: above the number of bytes, every
bound gives the same. -/
theorem extractRecordBatches_enough {size offset : ℤ} {n m : ℕ} {pd : PacketDecoder}
    (hn : pd.binaryDecoder.str.length < n) (hm : pd.binaryDecoder.str.length < m) :
    extractRecordBatches size n offset pd = extractRecordBatches size m offset pd := by
  induction n generalizing offset m pd with
  | zero => exact absurd hn (Nat.not_lt_zero _)
  | succ n ih =>
      obtain ⟨m, rfl⟩ := Nat.exists_eq_add_one_of_ne_zero (Nat.ne_zero_of_lt hm)
      rw [extractRecordBatches, extractRecordBatches]
      split_ifs
      · have hend := ends_batch offset pd
        rcases hbatch : batch offset pd.binaryDecoder.str with ⟨offset', rest⟩ | _ | rest
        · rw [view_rest, hbatch] at hend
          obtain ⟨⟨recordBatch, offset₁⟩, pd₁, hdone, -, hview⟩ := hend
          have hrest : pd₁.binaryDecoder.str = rest := congrArg Cursor.rest hview
          have hshorter := batch_shorter hbatch
          rw [bind_done (attempt_done hdone), bind_done (attempt_done hdone)]
          have hlast : pd₁.binaryDecoder.str.length < n := by
            rw [hrest]
            omega
          exact bind_of_eq (ih hlast (by rw [hrest]; omega))
        · rw [view_rest, hbatch] at hend
          obtain ⟨e, pd₁, hfailed, -⟩ := hend
          rw [bind_done (attempt_failed hfailed), bind_done (attempt_failed hfailed)]
        · rw [view_rest, hbatch] at hend
          obtain ⟨e, pd₁, deeper, hfailed, -⟩ := hend
          rw [bind_done (attempt_failed hfailed), bind_done (attempt_failed hfailed)]
      · rfl

end Follow

end Kyanos.Kafka
