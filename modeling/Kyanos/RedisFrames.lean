/-
The grammar of the Redis parser.

A `Frame` is what `ParseMessage` takes apart: a line, a string of an announced size with the two
bytes behind it, or an array of frames. The parser reads no more of a line than where it ends,
and nothing of the two bytes, so a frame keeps them as they are; `Taken` says what is checked,
which is that the sizes are decimal numbers of at most sixteen characters and fit what follows.

The parser and the grammar agree (`parseMessage_frame`, `parseMessage_sound`), and a frame that
is cut anywhere is reported as incomplete (`parseMessage_cut`). The cases of all three are those
of the frame; the elements of an array are the hypothesis of its induction.
-/
import Kyanos.Redis

set_option autoImplicit false

open Trace

namespace Kyanos.Redis

open BinaryDecoder

/-! ## Lines -/

/-- The text of a line: the terminal sequence is not in it. -/
def OneLine (str : GoString) : Prop := ¬ kTerminalSequence <:+: str

/-- A line ends at the first terminal sequence behind it. -/
theorem index_line {s : GoString} (h : OneLine s) (rest : GoString) :
    index (s ++ (kTerminalSequence ++ rest)) kTerminalSequence = some s.length := by
  rw [index_eq_some_iff]
  refine ⟨?_, ?_, ?_⟩
  · rw [List.drop_left]
    exact List.prefix_append _ _
  · rw [List.length_append]
    omega
  · intro j hj
    rw [List.drop_append_of_le_length hj.le]
    rintro ⟨t, ht⟩
    -- An earlier one would lie in the line, or end with its own first character.
    rcases hdrop : s.drop j with _ | ⟨x, _ | ⟨y, u⟩⟩
    · have := List.drop_eq_nil_iff.mp hdrop
      omega
    · rw [hdrop] at ht
      simp [kTerminalSequence] at ht
    · rw [hdrop] at ht
      simp only [kTerminalSequence, List.cons_append, List.nil_append, List.cons.injEq] at ht
      obtain ⟨rfl, rfl, -⟩ := ht
      refine h ⟨s.take j, u, ?_⟩
      rw [List.append_assoc, kTerminalSequence, List.cons_append, List.cons_append,
        List.nil_append, ← hdrop, List.take_append_drop]

/-- What is in front of the first terminal sequence is a line. -/
theorem index_some {s : GoString} {i : ℕ} (h : index s kTerminalSequence = some i) :
    OneLine (s.take i) ∧ s = s.take i ++ (kTerminalSequence ++ s.drop (i + 2)) := by
  obtain ⟨⟨t, ht⟩, -, hfirst⟩ := index_eq_some_iff.mp h
  have hdrop : s.drop (i + 2) = t := by
    rw [← List.drop_drop, ← ht]
    rfl
  refine ⟨?_, by rw [hdrop, ht, List.take_append_drop]⟩
  rintro ⟨a, b, hab⟩
  have hlen : a.length + 2 ≤ i := by
    have hle : (s.take i).length ≤ i := List.length_take_le _ _
    rw [← hab, List.length_append, List.length_append] at hle
    change a.length + 2 + b.length ≤ i at hle
    omega
  refine hfirst a.length (by omega) ?_
  refine ⟨b ++ s.drop i, ?_⟩
  calc kTerminalSequence ++ (b ++ s.drop i)
      = (a ++ (kTerminalSequence ++ (b ++ s.drop i))).drop a.length := by rw [List.drop_left]
    _ = s.drop a.length := by
        rw [← List.append_assoc kTerminalSequence, ← List.append_assoc a, ← List.append_assoc a,
          hab, List.take_append_drop]

/-! ## Frames -/

/-- What the parser takes apart, as it stands in the bytes. -/
inductive Frame
  | simple (str : GoString)
  | error (str : GoString)
  | integer (str : GoString)
  | bulk (size payload terminal : GoString)
  | nullBulk (size : GoString)
  | array (size : GoString) (elements : List Frame)
  | nullArray (size : GoString)

/-- A line of the text, behind its marker. -/
def lineBytes (marker : UInt8) (str : GoString) : GoString := marker :: (str ++ kTerminalSequence)

theorem lineBytes_append (marker : UInt8) (str rest : GoString) :
    lineBytes marker str ++ rest = marker :: (str ++ (kTerminalSequence ++ rest)) := by
  rw [lineBytes, List.cons_append, List.append_assoc]

mutual

def Frame.bytes : Frame → GoString
  | .simple str => lineBytes kSimpleStringMarker str
  | .error str => lineBytes kErrorMarker str
  | .integer str => lineBytes kIntegerMarker str
  | .bulk size payload terminal => lineBytes kBulkStringsMarker size ++ (payload ++ terminal)
  | .nullBulk size => lineBytes kBulkStringsMarker size
  | .array size elements => lineBytes kArrayMarker size ++ Frame.bytesAll elements
  | .nullArray size => lineBytes kArrayMarker size

def Frame.bytesAll : List Frame → GoString
  | [] => []
  | f :: fs => f.bytes ++ Frame.bytesAll fs

end

/-- A line that `ParseSize` reads as a size. -/
def SizeLine (size : GoString) (n : ℤ) : Prop := OneLine size ∧ size.length ≤ 16 ∧ atoi size = some n

mutual

/-- What the parser checks of a frame. -/
def Frame.Taken : Frame → Prop
  | .simple str => OneLine str
  | .error str => OneLine str
  | .integer str => OneLine str
  | .bulk size payload terminal =>
      SizeLine size payload.length ∧ payload.length ≤ 512 * 1024 * 1024 ∧ terminal.length = 2
  | .nullBulk size => SizeLine size kNullSize
  | .array size elements => SizeLine size elements.length ∧ Frame.TakenAll elements
  | .nullArray size => SizeLine size kNullSize

def Frame.TakenAll : List Frame → Prop
  | [] => True
  | f :: fs => f.Taken ∧ Frame.TakenAll fs

end

/-- The induction over frames: for an array, what is claimed holds of its elements. -/
theorem Frame.induction {P : Frame → Prop} (simple : ∀ str, P (.simple str))
    (error : ∀ str, P (.error str)) (integer : ∀ str, P (.integer str))
    (bulk : ∀ size payload terminal, P (.bulk size payload terminal))
    (nullBulk : ∀ size, P (.nullBulk size))
    (array : ∀ size elements, (∀ f ∈ elements, P f) → P (.array size elements))
    (nullArray : ∀ size, P (.nullArray size)) (f : Frame) : P f := by
  refine @Frame.rec P (fun fs => ∀ f ∈ fs, P f) simple error integer bulk nullBulk array nullArray
    ?_ ?_ f
  · intro f hf
    cases hf
  · intro f fs ihf ihfs
    exact List.forall_mem_cons.mpr ⟨ihf, ihfs⟩

theorem Frame.takenAll_iff {fs : List Frame} : Frame.TakenAll fs ↔ ∀ f ∈ fs, f.Taken := by
  induction fs with
  | nil => simp [Frame.TakenAll]
  | cons f fs ih => rw [Frame.TakenAll, ih, List.forall_mem_cons]

theorem Frame.bytes_ne_nil (f : Frame) : f.bytes ≠ [] := by
  rcases f <;> simp [Frame.bytes, lineBytes]

/-! ## The parser reads frames -/

variable {d d' : BinaryDecoder} {timestamp seq : ℕ}

theorem extractByte_eq {b : UInt8} {rest : GoString} (h : d.str = b :: rest) :
    ∃ d', d.extractByte = .ok (b, d') ∧ d'.str = rest := by
  refine ⟨d.taking 1, ?_, ?_⟩
  · unfold extractByte
    rw [h]
  · unfold taking
    rw [h]
    rfl

theorem extractLine_eq {str rest : GoString} (hline : OneLine str)
    (h : d.str = str ++ (kTerminalSequence ++ rest)) :
    ∃ d', d.extractStringUntil kTerminalSequence = .ok (str, d') ∧ d'.str = rest := by
  refine ⟨d.taking (str.length + kTerminalSequence.length), ?_, ?_⟩
  · unfold extractStringUntil
    rw [h, index_line hline]
    dsimp only
    rw [List.take_left]
  · unfold taking
    rw [h, ← List.append_assoc, ← List.length_append]
    exact List.drop_left

theorem extractString_eq {str rest : GoString} {n : ℤ} (hn : n = str.length)
    (h : d.str = str ++ rest) :
    ∃ d', d.extractString n = .ok (str, d') ∧ d'.str = rest := by
  have hlen : d.str.length = str.length + rest.length := by rw [h, List.length_append]
  have hshort : ¬ (d.str.length : ℤ) < n := by omega
  have hneg : ¬ n < 0 := by omega
  refine ⟨d.taking n.toNat, ?_, ?_⟩
  · unfold extractString
    rw [if_neg hshort, if_neg hneg, hn, Int.toNat_natCast, h, List.take_left]
  · unfold taking
    rw [h, hn, Int.toNat_natCast]
    exact List.drop_left

theorem parseSize_eq {size rest : GoString} {n : ℤ} (hsize : SizeLine size n)
    (hn : kNullSize ≤ n) (h : d.str = size ++ (kTerminalSequence ++ rest)) :
    ∃ d', parseSize d = .ok (n, d') ∧ d'.str = rest := by
  obtain ⟨hline, hlen, hatoi⟩ := hsize
  obtain ⟨d', hread, hrest⟩ := extractLine_eq hline h
  refine ⟨d', ?_, hrest⟩
  unfold parseSize
  rw [hread]
  change (if size.length > 16 then _ else _) = _
  rw [if_neg (by omega), hatoi]
  exact if_neg (by omega)

theorem parseBulkString_eq {size payload terminal rest : GoString}
    (hsize : SizeLine size payload.length) (hmax : payload.length ≤ 512 * 1024 * 1024)
    (hterminal : terminal.length = 2)
    (h : d.str = size ++ (kTerminalSequence ++ (payload ++ (terminal ++ rest)))) :
    ∃ d', parseBulkString d = .ok (payload, d') ∧ d'.str = rest := by
  obtain ⟨d₁, hread, hrest⟩ := parseSize_eq hsize (by unfold kNullSize; omega) h
  rw [← List.append_assoc] at hrest
  have hboth : (payload.length : ℤ) + 2 = (payload ++ terminal).length := by
    rw [List.length_append]
    omega
  obtain ⟨d₂, hread₂, hrest₂⟩ := extractString_eq hboth hrest
  refine ⟨d₂, ?_, hrest₂⟩
  unfold parseBulkString
  rw [hread]
  change (if (payload.length : ℤ) > 512 * 1024 * 1024 then _ else _) = _
  have hnull : ¬ (payload.length : ℤ) = kNullSize := by
    unfold kNullSize
    omega
  rw [if_neg (by omega), if_neg hnull, hread₂]
  change Except.ok ((payload ++ terminal).take (payload.length : ℤ).toNat, d₂) = _
  rw [Int.toNat_natCast, List.take_left]

theorem parseBulkString_null {size rest : GoString} (hsize : SizeLine size kNullSize)
    (h : d.str = size ++ (kTerminalSequence ++ rest)) :
    ∃ d', parseBulkString d = .ok (text "<NULL>", d') ∧ d'.str = rest := by
  obtain ⟨d₁, hread, hrest⟩ := parseSize_eq hsize le_rfl h
  refine ⟨d₁, ?_, hrest⟩
  unfold parseBulkString
  rw [hread]
  rfl

/-- The parser of elements reads the frame whatever lies behind it. -/
def ReadsFrame (parse : BinaryDecoder → Except Failure (RedisMessage × BinaryDecoder)) (k : ℕ)
    (f : Frame) : Prop :=
  ∀ (d : BinaryDecoder) (rest : GoString), d.str = f.bytes ++ rest → d.str.length ≤ k →
    ∃ m d', parse d = .ok (m, d') ∧ d'.str = rest

theorem parseElements_frames
    {parse : BinaryDecoder → Except Failure (RedisMessage × BinaryDecoder)} {k : ℕ}
    {fs : List Frame} (hparse : ∀ f ∈ fs, ReadsFrame parse k f) {rest : GoString}
    (h : d.str = Frame.bytesAll fs ++ rest) (hk : d.str.length ≤ k) :
    ∃ ms d', parseElements parse fs.length d = .ok (ms, d') ∧ d'.str = rest := by
  induction fs generalizing d with
  | nil => exact ⟨[], d, rfl, h⟩
  | cons f fs ih =>
      obtain ⟨hf, hfs⟩ := List.forall_mem_cons.mp hparse
      rw [Frame.bytesAll, List.append_assoc] at h
      obtain ⟨m, d₁, hm, hrest⟩ := hf d _ h hk
      have hk₁ : d₁.str.length ≤ k := by
        rw [h, List.length_append, ← hrest] at hk
        omega
      obtain ⟨ms, d₂, hms, hrest₂⟩ := ih hfs hrest hk₁
      refine ⟨m :: ms, d₂, ?_, hrest₂⟩
      rw [List.length_cons, parseElements, hm]
      change (parseElements parse fs.length d₁ >>= _) = _
      rw [hms]
      rfl

theorem parseArray_frames
    {parse : BinaryDecoder → Except Failure (RedisMessage × BinaryDecoder)} {k : ℕ}
    {size : GoString} {fs : List Frame} (hsize : SizeLine size fs.length)
    (hparse : ∀ f ∈ fs, ReadsFrame parse k f) {rest : GoString}
    (h : d.str = size ++ (kTerminalSequence ++ (Frame.bytesAll fs ++ rest)))
    (hk : d.str.length ≤ k) :
    ∃ m d', parseArray timestamp seq parse d = .ok (m, d') ∧ d'.str = rest := by
  obtain ⟨d₁, hread, hrest⟩ := parseSize_eq hsize (by unfold kNullSize; omega) h
  have hk₁ : d₁.str.length ≤ k := by
    rw [h, ← hrest, List.length_append, List.length_append] at hk
    omega
  obtain ⟨ms, d₂, hms, hrest₂⟩ := parseElements_frames hparse hrest hk₁
  have hnull : ¬ (fs.length : ℤ) = kNullSize := by
    unfold kNullSize
    omega
  unfold parseArray
  rw [hread, ok_bind]
  dsimp only
  rw [if_neg hnull, Int.toNat_natCast, hms]
  exact ⟨_, d₂, rfl, hrest₂⟩

theorem parseArray_null
    {parse : BinaryDecoder → Except Failure (RedisMessage × BinaryDecoder)}
    {size rest : GoString} (hsize : SizeLine size kNullSize)
    (h : d.str = size ++ (kTerminalSequence ++ rest)) :
    ∃ m d', parseArray timestamp seq parse d = .ok (m, d') ∧ d'.str = rest := by
  obtain ⟨d₁, hread, hrest⟩ := parseSize_eq hsize le_rfl h
  unfold parseArray
  rw [hread]
  exact ⟨_, d₁, rfl, hrest⟩

/-- `ParseMessage` from its marker on. -/
theorem parseMessage_marker {marker : UInt8} {rest : GoString} (h : d.str = marker :: rest)
    (n : ℕ) : ∃ d₁, d₁.str = rest ∧ parseMessage timestamp seq (n + 1) d =
      if marker = kSimpleStringMarker then do
        let (str, decoder) ← orFail (d₁.extractStringUntil kTerminalSequence)
        .ok (plainMessage timestamp seq decoder str .successStatus, decoder)
      else if marker = kBulkStringsMarker then do
        let (str, decoder) ← parseBulkString d₁
        .ok (plainMessage timestamp seq decoder str .successStatus, decoder)
      else if marker = kErrorMarker then do
        let (str, decoder) ← orFail (d₁.extractStringUntil kTerminalSequence)
        .ok (plainMessage timestamp seq decoder (45 :: str) .failStatus, decoder)
      else if marker = kIntegerMarker then do
        let (str, decoder) ← orFail (d₁.extractStringUntil kTerminalSequence)
        .ok (plainMessage timestamp seq decoder str .successStatus, decoder)
      else if marker = kArrayMarker then
        parseArray timestamp seq (parseMessage timestamp seq n) d₁
      else .error (.err .invalidArgument) := by
  obtain ⟨d₁, hread, hrest⟩ := extractByte_eq h
  refine ⟨d₁, hrest, ?_⟩
  rw [parseMessage, hread]
  rfl

/-- A frame is not empty, so without a byte left there is nothing to show. -/
theorem readsFrame_of_succ {f : Frame}
    (h : ∀ n, ReadsFrame (parseMessage timestamp seq (n + 1)) (n + 1) f) (n : ℕ) :
    ReadsFrame (parseMessage timestamp seq n) n f := by
  rcases n with _ | n
  · intro d rest hd hn
    have hpos := List.length_pos_iff.mpr f.bytes_ne_nil
    rw [hd, List.length_append] at hn
    omega
  · exact h n

/-- **Every frame is read**, whatever lies behind it. -/
theorem parseMessage_frame {f : Frame} (hf : f.Taken) (n : ℕ) :
    ReadsFrame (parseMessage timestamp seq n) n f := by
  apply readsFrame_of_succ
  induction f using Frame.induction with
  | simple str =>
      intro n d rest h hn
      rw [Frame.bytes, lineBytes_append] at h
      obtain ⟨d₁, hd₁, hparse⟩ := parseMessage_marker h n
      obtain ⟨d₂, hread, hrest⟩ := extractLine_eq hf hd₁
      rw [hparse, if_pos rfl, hread]
      exact ⟨_, d₂, rfl, hrest⟩
  | error str =>
      intro n d rest h hn
      rw [Frame.bytes, lineBytes_append] at h
      obtain ⟨d₁, hd₁, hparse⟩ := parseMessage_marker h n
      obtain ⟨d₂, hread, hrest⟩ := extractLine_eq hf hd₁
      rw [hparse, if_neg (by decide), if_neg (by decide), if_pos rfl, hread]
      exact ⟨_, d₂, rfl, hrest⟩
  | integer str =>
      intro n d rest h hn
      rw [Frame.bytes, lineBytes_append] at h
      obtain ⟨d₁, hd₁, hparse⟩ := parseMessage_marker h n
      obtain ⟨d₂, hread, hrest⟩ := extractLine_eq hf hd₁
      rw [hparse, if_neg (by decide), if_neg (by decide), if_neg (by decide), if_pos rfl, hread]
      exact ⟨_, d₂, rfl, hrest⟩
  | bulk size payload terminal =>
      obtain ⟨hsize, hmax, hterminal⟩ := hf
      intro n d rest h hn
      rw [Frame.bytes, List.append_assoc, lineBytes_append] at h
      obtain ⟨d₁, hd₁, hparse⟩ := parseMessage_marker h n
      rw [List.append_assoc] at hd₁
      obtain ⟨d₂, hread, hrest⟩ := parseBulkString_eq hsize hmax hterminal hd₁
      rw [hparse, if_neg (by decide), if_pos rfl, hread]
      exact ⟨_, d₂, rfl, hrest⟩
  | nullBulk size =>
      intro n d rest h hn
      rw [Frame.bytes, lineBytes_append] at h
      obtain ⟨d₁, hd₁, hparse⟩ := parseMessage_marker h n
      obtain ⟨d₂, hread, hrest⟩ := parseBulkString_null hf hd₁
      rw [hparse, if_neg (by decide), if_pos rfl, hread]
      exact ⟨_, d₂, rfl, hrest⟩
  | array size elements ih =>
      obtain ⟨hsize, helements⟩ := hf
      intro n d rest h hn
      rw [Frame.bytes, List.append_assoc, lineBytes_append] at h
      obtain ⟨d₁, hd₁, hparse⟩ := parseMessage_marker h n
      have hn₁ : d₁.str.length ≤ n := by
        rw [h, ← hd₁, List.length_cons] at hn
        omega
      have hread : ∀ f ∈ elements, ReadsFrame (parseMessage timestamp seq n) n f :=
        fun f hf => readsFrame_of_succ (ih f hf (Frame.takenAll_iff.mp helements f hf)) n
      rw [hparse, if_neg (by decide), if_neg (by decide), if_neg (by decide), if_neg (by decide),
        if_pos rfl]
      exact parseArray_frames hsize hread hd₁ hn₁
  | nullArray size =>
      intro n d rest h hn
      rw [Frame.bytes, lineBytes_append] at h
      obtain ⟨d₁, hd₁, hparse⟩ := parseMessage_marker h n
      rw [hparse, if_neg (by decide), if_neg (by decide), if_neg (by decide), if_neg (by decide),
        if_pos rfl]
      exact parseArray_null hf hd₁

/-! ## Frames that are cut -/

/-- The beginning of a text, but not all of it. -/
def Cut (p l : GoString) : Prop := p <+: l ∧ p.length < l.length

theorem cut_append {p a b : GoString} (h : Cut p (a ++ b)) :
    Cut p a ∨ ∃ q, p = a ++ q ∧ Cut q b := by
  obtain ⟨hfront, hlen⟩ := h
  by_cases hle : a.length ≤ p.length
  · right
    obtain ⟨q, rfl⟩ := List.prefix_of_prefix_length_le (List.prefix_append a b) hfront hle
    refine ⟨q, rfl, (List.prefix_append_right_inj a).mp hfront, ?_⟩
    rw [List.length_append, List.length_append] at hlen
    omega
  · left
    have hshort : p.length ≤ a.length := by omega
    exact ⟨List.prefix_of_prefix_length_le hfront (List.prefix_append a b) hshort, by omega⟩

/-- The errors that `ParseStream` takes for a message that goes on. -/
def Incomplete (e : DecodeError) : Prop := e = .notFound ∨ e = .resourceNotAvailble

theorem extractLine_cut {str : GoString} (hline : OneLine str)
    (h : Cut d.str (str ++ kTerminalSequence)) :
    d.extractStringUntil kTerminalSequence = .error .notFound := by
  unfold extractStringUntil
  rcases hidx : index d.str kTerminalSequence with _ | i
  · rfl
  · -- A terminal sequence in the cut line would be the one that ends the whole line.
    obtain ⟨hfirst, hsplit⟩ := index_some hidx
    obtain ⟨⟨u, hu⟩, hlen⟩ := h
    have hwhole := index_line hline []
    rw [List.append_nil, ← hu, hsplit, List.append_assoc, List.append_assoc,
      index_line hfirst] at hwhole
    have hi := index_le hidx
    have htake := List.length_take (i := i) (l := d.str)
    rw [Option.some.injEq] at hwhole
    rw [List.length_append] at hlen
    omega

theorem parseSize_cut {size : GoString} (hline : OneLine size)
    (h : Cut d.str (size ++ kTerminalSequence)) : parseSize d = .error (.err .notFound) := by
  unfold parseSize
  rw [extractLine_cut hline h]
  rfl

theorem parseBulkString_cut {size payload terminal : GoString}
    (hsize : SizeLine size payload.length) (hmax : payload.length ≤ 512 * 1024 * 1024)
    (hterminal : terminal.length = 2)
    (h : Cut d.str ((size ++ kTerminalSequence) ++ (payload ++ terminal))) :
    ∃ e, parseBulkString d = .error (.err e) ∧ Incomplete e := by
  rcases cut_append h with hcut | ⟨q, hq, -, hlen⟩
  · refine ⟨_, ?_, Or.inl rfl⟩
    unfold parseBulkString
    rw [parseSize_cut hsize.1 hcut]
    rfl
  · rw [List.append_assoc] at hq
    obtain ⟨d₁, hread, hrest⟩ := parseSize_eq hsize (by unfold kNullSize; omega) hq
    refine ⟨_, ?_, Or.inr rfl⟩
    have hnull : ¬ (payload.length : ℤ) = kNullSize := by
      unfold kNullSize
      omega
    have hshort : (d₁.str.length : ℤ) < payload.length + 2 := by
      rw [List.length_append] at hlen
      rw [hrest]
      omega
    unfold parseBulkString
    rw [hread, ok_bind]
    dsimp only
    rw [if_neg (by omega), if_neg hnull, extractString, if_pos hshort]
    rfl

/-- A frame that is cut is reported as incomplete. -/
def ReportsCut (parse : BinaryDecoder → Except Failure (RedisMessage × BinaryDecoder)) (k : ℕ)
    (f : Frame) : Prop :=
  ∀ d : BinaryDecoder, Cut d.str f.bytes → d.str.length ≤ k →
    ∃ e, parse d = .error (.err e) ∧ Incomplete e

theorem parseElements_cut
    {parse : BinaryDecoder → Except Failure (RedisMessage × BinaryDecoder)} {k : ℕ}
    {fs : List Frame} (hparse : ∀ f ∈ fs, ReadsFrame parse k f)
    (hcut : ∀ f ∈ fs, ReportsCut parse k f) (h : Cut d.str (Frame.bytesAll fs))
    (hk : d.str.length ≤ k) :
    ∃ e, parseElements parse fs.length d = .error (.err e) ∧ Incomplete e := by
  induction fs generalizing d with
  | nil => exact absurd h.2 (Nat.not_lt_zero _)
  | cons f fs ih =>
      obtain ⟨hf, hfs⟩ := List.forall_mem_cons.mp hparse
      obtain ⟨hcutf, hcutfs⟩ := List.forall_mem_cons.mp hcut
      rw [List.length_cons, parseElements]
      rcases cut_append h with hfirst | ⟨q, hq, hlater⟩
      · obtain ⟨e, he, hincomplete⟩ := hcutf d hfirst hk
        rw [he]
        exact ⟨e, rfl, hincomplete⟩
      · obtain ⟨m, d₁, hm, hrest⟩ := hf d q hq hk
        have hk₁ : d₁.str.length ≤ k := by
          rw [hq, List.length_append, ← hrest] at hk
          omega
        rw [← hrest] at hlater
        obtain ⟨e, he, hincomplete⟩ := ih hfs hcutfs hlater hk₁
        rw [hm, ok_bind]
        dsimp only
        rw [he]
        exact ⟨e, rfl, hincomplete⟩

theorem parseArray_cut {parse : BinaryDecoder → Except Failure (RedisMessage × BinaryDecoder)}
    {k : ℕ} {size : GoString} {fs : List Frame} (hsize : SizeLine size fs.length)
    (hparse : ∀ f ∈ fs, ReadsFrame parse k f) (hcut : ∀ f ∈ fs, ReportsCut parse k f)
    (h : Cut d.str ((size ++ kTerminalSequence) ++ Frame.bytesAll fs)) (hk : d.str.length ≤ k) :
    ∃ e, parseArray timestamp seq parse d = .error (.err e) ∧ Incomplete e := by
  rcases cut_append h with hline | ⟨q, hq, helements⟩
  · refine ⟨_, ?_, Or.inl rfl⟩
    unfold parseArray
    rw [parseSize_cut hsize.1 hline]
    rfl
  · rw [List.append_assoc] at hq
    obtain ⟨d₁, hread, hrest⟩ := parseSize_eq hsize (by unfold kNullSize; omega) hq
    have hk₁ : d₁.str.length ≤ k := by
      rw [hq, List.length_append, List.length_append, ← hrest] at hk
      omega
    rw [← hrest] at helements
    obtain ⟨e, he, hincomplete⟩ := parseElements_cut hparse hcut helements hk₁
    have hnull : ¬ (fs.length : ℤ) = kNullSize := by
      unfold kNullSize
      omega
    refine ⟨e, ?_, hincomplete⟩
    unfold parseArray
    rw [hread, ok_bind]
    dsimp only
    rw [if_neg hnull, Int.toNat_natCast, he]
    rfl

theorem cut_marker {p str tail : GoString} {marker : UInt8}
    (h : Cut p (lineBytes marker str ++ tail)) :
    p = [] ∨ ∃ q, p = marker :: q ∧ Cut q ((str ++ kTerminalSequence) ++ tail) := by
  rcases p with _ | ⟨b, q⟩
  · exact Or.inl rfl
  · obtain ⟨hfront, hlen⟩ := h
    rw [lineBytes, List.cons_append, List.cons_prefix_cons] at hfront
    obtain ⟨rfl, hfront⟩ := hfront
    rw [lineBytes, List.cons_append, List.length_cons, List.length_cons] at hlen
    exact Or.inr ⟨q, rfl, hfront, by omega⟩

/-- Without a byte there is no message. -/
theorem parseMessage_nil (h : d.str = []) (n : ℕ) :
    parseMessage timestamp seq n d = .error (.err .resourceNotAvailble) := by
  rcases n with _ | n
  · rfl
  · rw [parseMessage, extractByte, h]
    rfl

/-- The cases of a cut: nothing is left, or the marker is. -/
theorem reportsCut_of_marker {f : Frame} {marker : UInt8} {str tail : GoString}
    (hbytes : f.bytes = lineBytes marker str ++ tail) {n : ℕ}
    (h : ∀ n (d : BinaryDecoder) (q : GoString), d.str = marker :: q →
      Cut q ((str ++ kTerminalSequence) ++ tail) → d.str.length ≤ n + 1 →
      ∃ e, parseMessage timestamp seq (n + 1) d = .error (.err e) ∧ Incomplete e) :
    ReportsCut (parseMessage timestamp seq n) n f := by
  intro d hcut hn
  rw [hbytes] at hcut
  rcases cut_marker hcut with hnil | ⟨q, hq, hcut⟩
  · exact ⟨_, parseMessage_nil hnil n, Or.inr rfl⟩
  · rcases n with _ | n
    · rw [hq, List.length_cons] at hn
      omega
    · exact h n d q hq hcut hn

/-- A line that is cut, behind its marker. -/
theorem parseLine_cut {str : GoString} (hline : OneLine str)
    (hcut : Cut d.str ((str ++ kTerminalSequence) ++ [])) {α : Type}
    (f : GoString × BinaryDecoder → Except Failure α) :
    (orFail (d.extractStringUntil kTerminalSequence) >>= f) = .error (.err .notFound) := by
  rw [List.append_nil] at hcut
  rw [extractLine_cut hline hcut]
  rfl

/-- **A frame that is cut anywhere is reported as incomplete.** -/
theorem parseMessage_cut {f : Frame} (hf : f.Taken) (n : ℕ) :
    ReportsCut (parseMessage timestamp seq n) n f := by
  induction f using Frame.induction generalizing n with
  | simple str =>
      refine reportsCut_of_marker (List.append_nil _).symm ?_
      intro n d q hq hcut hn
      obtain ⟨d₁, rfl, hparse⟩ := parseMessage_marker hq n
      rw [hparse, if_pos rfl]
      exact ⟨_, parseLine_cut hf hcut _, Or.inl rfl⟩
  | error str =>
      refine reportsCut_of_marker (List.append_nil _).symm ?_
      intro n d q hq hcut hn
      obtain ⟨d₁, rfl, hparse⟩ := parseMessage_marker hq n
      rw [hparse, if_neg (by decide), if_neg (by decide), if_pos rfl]
      exact ⟨_, parseLine_cut hf hcut _, Or.inl rfl⟩
  | integer str =>
      refine reportsCut_of_marker (List.append_nil _).symm ?_
      intro n d q hq hcut hn
      obtain ⟨d₁, rfl, hparse⟩ := parseMessage_marker hq n
      rw [hparse, if_neg (by decide), if_neg (by decide), if_neg (by decide), if_pos rfl]
      exact ⟨_, parseLine_cut hf hcut _, Or.inl rfl⟩
  | bulk size payload terminal =>
      obtain ⟨hsize, hmax, hterminal⟩ := hf
      refine reportsCut_of_marker rfl ?_
      intro n d q hq hcut hn
      obtain ⟨d₁, rfl, hparse⟩ := parseMessage_marker hq n
      obtain ⟨e, he, hincomplete⟩ := parseBulkString_cut hsize hmax hterminal hcut
      rw [hparse, if_neg (by decide), if_pos rfl, he]
      exact ⟨e, rfl, hincomplete⟩
  | nullBulk size =>
      refine reportsCut_of_marker (List.append_nil _).symm ?_
      intro n d q hq hcut hn
      obtain ⟨d₁, rfl, hparse⟩ := parseMessage_marker hq n
      rw [List.append_nil] at hcut
      rw [hparse, if_neg (by decide), if_pos rfl, parseBulkString, parseSize_cut hf.1 hcut]
      exact ⟨_, rfl, Or.inl rfl⟩
  | array size elements ih =>
      obtain ⟨hsize, helements⟩ := hf
      have htaken := Frame.takenAll_iff.mp helements
      refine reportsCut_of_marker rfl ?_
      intro n d q hq hcut hn
      obtain ⟨d₁, rfl, hparse⟩ := parseMessage_marker hq n
      have hn₁ : d₁.str.length ≤ n := by
        rw [hq, List.length_cons] at hn
        omega
      rw [hparse, if_neg (by decide), if_neg (by decide), if_neg (by decide), if_neg (by decide),
        if_pos rfl]
      exact parseArray_cut hsize (fun f hf => parseMessage_frame (htaken f hf) n)
        (fun f hf => ih f hf (htaken f hf) n) hcut hn₁
  | nullArray size =>
      refine reportsCut_of_marker (List.append_nil _).symm ?_
      intro n d q hq hcut hn
      obtain ⟨d₁, rfl, hparse⟩ := parseMessage_marker hq n
      rw [List.append_nil] at hcut
      rw [hparse, if_neg (by decide), if_neg (by decide), if_neg (by decide), if_neg (by decide),
        if_pos rfl, parseArray, parseSize_cut hf.1 hcut]
      exact ⟨_, rfl, Or.inl rfl⟩

/-! ## The parser reads nothing else -/

theorem extractLine_sound {str : GoString}
    (h : d.extractStringUntil kTerminalSequence = .ok (str, d')) :
    OneLine str ∧ d.str = str ++ (kTerminalSequence ++ d'.str) := by
  unfold extractStringUntil at h
  rcases hidx : index d.str kTerminalSequence with _ | i
  · rw [hidx] at h
    cases h
  · rw [hidx] at h
    cases h
    exact index_some hidx

theorem extractString_sound {str : GoString} {n : ℤ} (h : d.extractString n = .ok (str, d')) :
    (str.length : ℤ) = n ∧ d.str = str ++ d'.str := by
  unfold extractString at h
  split_ifs at h with hshort hneg
  cases h
  refine ⟨?_, (List.take_append_drop _ _).symm⟩
  rw [List.length_take]
  omega

theorem parseSize_sound {n : ℤ} (h : parseSize d = .ok (n, d')) :
    ∃ size, SizeLine size n ∧ d.str = size ++ (kTerminalSequence ++ d'.str) := by
  unfold parseSize at h
  obtain ⟨⟨size, d₁⟩, hread, h⟩ := bind_eq_ok.mp h
  obtain ⟨hline, hstr⟩ := extractLine_sound (orFail_eq_ok hread)
  dsimp only at h
  split_ifs at h with hlen
  split at h
  · cases h
  · rename_i n' hatoi
    split_ifs at h
    cases h
    exact ⟨size, ⟨hline, by omega, hatoi⟩, hstr⟩

/-- A string that is read was announced by a size, or by the size of the null string. -/
theorem parseBulkString_sound {str : GoString} (h : parseBulkString d = .ok (str, d')) :
    ∃ f : Frame, f.Taken ∧ kBulkStringsMarker :: d.str = f.bytes ++ d'.str := by
  unfold parseBulkString at h
  obtain ⟨⟨n, d₁⟩, hread, h⟩ := bind_eq_ok.mp h
  obtain ⟨size, hsize, hstr⟩ := parseSize_sound hread
  dsimp only at h
  split_ifs at h with hmax hnull
  · cases h
    refine ⟨.nullBulk size, ?_, ?_⟩
    · rw [hnull] at hsize
      exact hsize
    · rw [Frame.bytes, lineBytes_append, hstr]
  · obtain ⟨⟨both, d₂⟩, hboth, h⟩ := bind_eq_ok.mp h
    obtain ⟨hlen, hrest⟩ := extractString_sound hboth
    obtain ⟨-, hmin⟩ := parseSize_advances hread
    have hn : 0 ≤ n := by
      unfold kNullSize at hnull hmin
      omega
    cases h
    have htake : ((both.take n.toNat).length : ℤ) = n := by
      rw [List.length_take]
      omega
    refine ⟨.bulk size (both.take n.toNat) (both.drop n.toNat), ⟨?_, by omega, ?_⟩, ?_⟩
    · rw [htake]
      exact hsize
    · rw [List.length_drop]
      omega
    · rw [Frame.bytes, List.take_append_drop, List.append_assoc, lineBytes_append, hstr, hrest]

theorem parseElements_sound
    {parse : BinaryDecoder → Except Failure (RedisMessage × BinaryDecoder)}
    (hparse : ∀ {d m d'}, parse d = .ok (m, d') →
      ∃ f : Frame, f.Taken ∧ d.str = f.bytes ++ d'.str) {n : ℕ} {ms : List RedisMessage}
    (h : parseElements parse n d = .ok (ms, d')) :
    ∃ fs, fs.length = n ∧ Frame.TakenAll fs ∧ d.str = Frame.bytesAll fs ++ d'.str := by
  induction n generalizing d ms with
  | zero =>
      cases h
      exact ⟨[], rfl, trivial, rfl⟩
  | succ n ih =>
      rw [parseElements] at h
      obtain ⟨⟨m, d₁⟩, hm, h⟩ := bind_eq_ok.mp h
      obtain ⟨⟨ms', d₂⟩, hms, h⟩ := bind_eq_ok.mp h
      cases h
      obtain ⟨f, hf, hstr⟩ := hparse hm
      obtain ⟨fs, hlen, hfs, hrest⟩ := ih hms
      refine ⟨f :: fs, by rw [List.length_cons, hlen], ⟨hf, hfs⟩, ?_⟩
      rw [Frame.bytesAll, List.append_assoc, hstr, hrest]

theorem parseArray_sound
    {parse : BinaryDecoder → Except Failure (RedisMessage × BinaryDecoder)}
    (hparse : ∀ {d m d'}, parse d = .ok (m, d') →
      ∃ f : Frame, f.Taken ∧ d.str = f.bytes ++ d'.str) {m : RedisMessage}
    (h : parseArray timestamp seq parse d = .ok (m, d')) :
    ∃ f : Frame, f.Taken ∧ kArrayMarker :: d.str = f.bytes ++ d'.str := by
  unfold parseArray at h
  obtain ⟨⟨n, d₁⟩, hread, h⟩ := bind_eq_ok.mp h
  obtain ⟨size, hsize, hstr⟩ := parseSize_sound hread
  dsimp only at h
  split_ifs at h with hnull
  · cases h
    refine ⟨.nullArray size, ?_, ?_⟩
    · rw [hnull] at hsize
      exact hsize
    · rw [Frame.bytes, lineBytes_append, hstr]
  · obtain ⟨⟨ms, d₂⟩, hms, h⟩ := bind_eq_ok.mp h
    obtain ⟨fs, hlen, hfs, hrest⟩ := parseElements_sound hparse hms
    obtain ⟨-, hmin⟩ := parseSize_advances hread
    have hn : (fs.length : ℤ) = n := by
      unfold kNullSize at hnull hmin
      omega
    cases h
    refine ⟨.array size fs, ⟨?_, hfs⟩, ?_⟩
    · rw [hn]
      exact hsize
    · rw [Frame.bytes, List.append_assoc, lineBytes_append, hstr, hrest]

/-- **What is read is a frame**, and what is left lies behind it. -/
theorem parseMessage_sound {n : ℕ} {m : RedisMessage}
    (h : parseMessage timestamp seq n d = .ok (m, d')) :
    ∃ f : Frame, f.Taken ∧ d.str = f.bytes ++ d'.str := by
  induction n generalizing d m d' with
  | zero => cases h
  | succ n ih =>
      rcases hstr : d.str with _ | ⟨marker, rest⟩
      · rw [parseMessage_nil hstr] at h
        cases h
      · obtain ⟨d₁, rfl, hparse⟩ := parseMessage_marker hstr n
        rw [hparse] at h
        split_ifs at h with h1 h2 h3 h4 h5
        · obtain ⟨⟨str, d₂⟩, hread, h⟩ := bind_eq_ok.mp h
          obtain ⟨hline, hrest⟩ := extractLine_sound (orFail_eq_ok hread)
          cases h
          exact ⟨.simple str, hline, by rw [Frame.bytes, lineBytes_append, h1, hrest]⟩
        · obtain ⟨⟨str, d₂⟩, hread, h⟩ := bind_eq_ok.mp h
          cases h
          rw [h2]
          exact parseBulkString_sound hread
        · obtain ⟨⟨str, d₂⟩, hread, h⟩ := bind_eq_ok.mp h
          obtain ⟨hline, hrest⟩ := extractLine_sound (orFail_eq_ok hread)
          cases h
          exact ⟨.error str, hline, by rw [Frame.bytes, lineBytes_append, h3, hrest]⟩
        · obtain ⟨⟨str, d₂⟩, hread, h⟩ := bind_eq_ok.mp h
          obtain ⟨hline, hrest⟩ := extractLine_sound (orFail_eq_ok hread)
          cases h
          exact ⟨.integer str, hline, by rw [Frame.bytes, lineBytes_append, h4, hrest]⟩
        · rw [h5]
          exact parseArray_sound (fun hm => ih hm) h

end Kyanos.Redis
