/-
A buffered reader over bytes in memory, as the package `bufio` has it, and where it stands in its
buffer.

The reader keeps a buffer of `size` bytes, of which those from `r` on are still to be read. A call
that asks for more than these moves them to the front of the buffer and fills up behind them, so
`r` is an offset in the buffer and not a position in the source. A read into a slice as large as
the buffer goes around it when it is empty.

`Reader.consume` says that calls read exactly some bytes of the source and ask for no others.
`consume_at` is the rule about `r`: where these bytes fit into the buffer, it is the number of
bytes read, whatever comes behind them in the source. Where they do not, it cannot be
(`Reader.r_le`).
-/
import Mathlib

set_option autoImplicit false

namespace Bufio

/-! ## The reader -/

/-- A reader: its offset `r`, the bytes in its buffer from there on, and what the source still has.
The source gives as much as it is asked for, if it has that. -/
structure Reader (size : ℕ) where
  r : ℕ
  buffered : List UInt8
  rest : List UInt8
  fits : r + buffered.length ≤ size
deriving DecidableEq

/-- `bufio.ErrBufferFull`, and the end of the source. -/
inductive ReadError
  | bufferFull
  | eof
deriving DecidableEq

variable {size : ℕ}

namespace Reader

/-- `NewReader`. -/
def new (s : List UInt8) : Reader size := { r := 0, buffered := [], rest := s, fits := Nat.zero_le _ }

/-- The bytes that are not read. -/
def unread (b : Reader size) : List UInt8 := b.buffered ++ b.rest

/-- `fill`: what is buffered goes to the front. -/
def fill (b : Reader size) : Reader size :=
  { r := 0
    buffered := b.buffered ++ b.rest.take (size - b.buffered.length)
    rest := b.rest.drop (size - b.buffered.length)
    fits := by
      have hfits := b.fits
      rw [List.length_append, List.length_take]
      omega }

/-- The first `k` buffered bytes are read. -/
def advance (b : Reader size) (k : ℕ) : Reader size :=
  { r := b.r + min k b.buffered.length
    buffered := b.buffered.drop k
    rest := b.rest
    fits := by
      have hfits := b.fits
      rw [List.length_drop]
      omega }

/-- `ReadSlice`. After one filling the buffer is full or the source is at its end. -/
def readSlice (b : Reader size) (delim : UInt8) : List UInt8 × Option ReadError × Reader size :=
  match b.buffered.findIdx? (· == delim) with
  | some i => (b.buffered.take (i + 1), none, b.advance (i + 1))
  | none =>
      let b := if b.buffered.length < size then b.fill else b
      match b.buffered.findIdx? (· == delim) with
      | some i => (b.buffered.take (i + 1), none, b.advance (i + 1))
      | none =>
          (b.buffered, some (if b.buffered.length < size then .eof else .bufferFull),
            b.advance b.buffered.length)

/-- The last byte that was read is put back into the buffer. -/
def putBack (b : Reader size) (x : UInt8) : Reader size :=
  if h : 0 < b.r then
    { r := b.r - 1, buffered := x :: b.buffered, rest := b.rest
      fits := by
        have hfits := b.fits
        rw [List.length_cons]
        omega }
  else b

/-- The line without its end, `\r\n` or `\n`. -/
def trimLine (line : List UInt8) : List UInt8 :=
  if line.getLast? = some 10 then
    if line.dropLast.getLast? = some 13 then line.dropLast.dropLast else line.dropLast
  else line

/-- `ReadLine`: of a line that does not fit into the buffer a `\r` at the end of it is put back, as
it may belong to `\r\n`. -/
def readLine (b : Reader size) : List UInt8 × Option ReadError × Reader size :=
  let (line, err, b) := b.readSlice 10
  match err with
  | some .bufferFull =>
      if line.getLast? = some 13 then (line.dropLast, none, b.putBack 13) else (line, none, b)
  | _ => if line = [] then ([], err, b) else (trimLine line, none, b)

/-- `ReadByte`. -/
def readByte (b : Reader size) : Option UInt8 × Reader size :=
  let b := if b.buffered = [] then b.fill else b
  (b.buffered.head?, b.advance 1)

/-- `Peek`. -/
def peek (b : Reader size) (n : ℕ) : List UInt8 × Reader size :=
  let b := if b.buffered.length < n ∧ b.buffered.length < size then b.fill else b
  (b.buffered.take n, b)

/-- `Read`, into a slice of `n` bytes. -/
def read (b : Reader size) (n : ℕ) : List UInt8 × Option ReadError × Reader size :=
  if b.buffered = [] then
    if n = 0 then ([], none, b)
    else if size ≤ n then
      (b.rest.take n, if b.rest = [] then some .eof else none, { b with rest := b.rest.drop n })
    else
      let b := b.fill
      (b.buffered.take n, if b.buffered = [] then some .eof else none, b.advance n)
  else (b.buffered.take n, none, b.advance n)

theorem r_le (b : Reader size) : b.r ≤ size := by
  have hfits := b.fits
  omega

@[simp] theorem fill_unread (b : Reader size) : b.fill.unread = b.unread := by
  unfold unread fill
  dsimp only
  rw [List.append_assoc, List.take_append_drop]

theorem advance_unread (b : Reader size) {k : ℕ} (hk : k ≤ b.buffered.length) :
    (b.advance k).unread = b.unread.drop k := by
  unfold unread advance
  dsimp only
  rw [List.drop_append_of_le_length hk]

end Reader

/-! ## Calls that read some bytes exactly -/

/-- The calls. A byte that is read and put back at once is one that is peeked at. -/
inductive Call
  | readLine
  | readByte
  | peek (n : ℕ)
  | read (n : ℕ)

/-- The call reads into a slice. -/
def Call.isRead : Call → Bool
  | .read _ => true
  | _ => false

/-- The reader after a call. -/
def Reader.call (b : Reader size) : Call → Reader size
  | .readLine => b.readLine.2.2
  | .readByte => b.readByte.2
  | .peek n => (b.peek n).2
  | .read n => (b.read n).2.2

/-- The call asks for no byte behind the bytes `m` that are to be read: a line that ends in them, one
of them, as many as there are, or a look at what is buffered. -/
def Call.Within (m : List UInt8) (b : Reader size) : Call → Prop
  | .readLine => 10 ∈ m
  | .readByte => m ≠ []
  | .peek n => n ≤ m.length ∨ n ≤ b.buffered.length
  | .read n => 0 < n ∧ n ≤ m.length

instance (m : List UInt8) (b : Reader size) : ∀ c : Call, Decidable (c.Within m b)
  | .readLine => inferInstanceAs (Decidable (10 ∈ m))
  | .readByte => inferInstanceAs (Decidable (m ≠ []))
  | .peek _ => inferInstanceAs (Decidable (_ ∨ _))
  | .read _ => inferInstanceAs (Decidable (_ ∧ _))

/-- The reader after the calls, if they read exactly the bytes `m` and ask for no others. -/
def Reader.consume (b : Reader size) : List Call → List UInt8 → Option (Reader size)
  | [], m => if m = [] then some b else none
  | c :: calls, m =>
      let taken := b.unread.length - (b.call c).unread.length
      if c.Within m b ∧ taken ≤ m.length then (b.call c).consume calls (m.drop taken) else none

/-! ## The offset -/

/-- The bytes to be read are in the buffer. -/
def Reader.Holds (b : Reader size) (m : List UInt8) : Prop := m <+: b.buffered

/-- The reader has read `k` bytes and has `m` before it: these are in the buffer, or it is a new one
whose buffer they fit into. -/
structure Reader.At (b : Reader size) (k : ℕ) (m : List UInt8) : Prop where
  offset : b.r = k
  before : b.Holds m ∨ k = 0 ∧ b.buffered = [] ∧ m <+: b.rest ∧ m.length ≤ size

namespace Reader

variable {b : Reader size} {k : ℕ} {m : List UInt8}

theorem at_new {m suffix : List UInt8} (hfits : m.length ≤ size) :
    (new (m ++ suffix) : Reader size).At 0 m :=
  ⟨rfl, Or.inr ⟨rfl, rfl, List.prefix_append _ _, hfits⟩⟩

/-- A new reader that is filled has the bytes in its buffer. -/
theorem fill_holds (hempty : b.buffered = []) (hrest : m <+: b.rest) (hfits : m.length ≤ size) :
    b.fill.Holds m := by
  unfold Holds fill
  dsimp only
  rw [hempty, List.nil_append, List.length_nil, Nat.sub_zero, List.prefix_take_iff]
  exact ⟨hrest, hfits⟩

/-- **Reading from the buffer** moves the offset by what was read. -/
theorem advance_at (hoffset : b.r = k) (hholds : b.Holds m) {j : ℕ} (hj : j ≤ b.buffered.length) :
    b.unread.length - (b.advance j).unread.length = j ∧ (b.advance j).At (k + j) (m.drop j) := by
  rw [advance_unread b hj, List.length_drop]
  have hlen : j ≤ b.unread.length := by
    unfold unread
    rw [List.length_append]
    omega
  refine ⟨by omega, ?_, Or.inl ?_⟩
  · change b.r + min j b.buffered.length = k + j
    omega
  · exact hholds.drop j

/-- Nothing is read. -/
theorem taken_self (b : Reader size) : b.unread.length - b.unread.length = 0 := Nat.sub_self _

/-- **A call on the buffer**: where the bytes are there, none is filled in. -/
theorem call_of_holds (hoffset : b.r = k) (hholds : b.Holds m) {c : Call} (hwithin : c.Within m b) :
    (b.call c).At (k + (b.unread.length - (b.call c).unread.length))
      (m.drop (b.unread.length - (b.call c).unread.length)) := by
  have hlen := hholds.length_le
  have hadvance : ∀ j ≤ b.buffered.length,
      (b.advance j).At (k + (b.unread.length - (b.advance j).unread.length))
        (m.drop (b.unread.length - (b.advance j).unread.length)) := by
    intro j hj
    obtain ⟨htaken, hat⟩ := advance_at hoffset hholds hj
    rw [htaken]
    exact hat
  cases c with
  | readLine =>
      have hmem : (10 : UInt8) ∈ b.buffered := hholds.subset hwithin
      obtain ⟨i, hi⟩ : ∃ i, b.buffered.findIdx? (· == (10 : UInt8)) = some i := by
        rw [← Option.isSome_iff_exists, List.findIdx?_isSome, List.any_eq_true]
        exact ⟨10, hmem, rfl⟩
      have hcall : b.call .readLine = b.advance (i + 1) := by
        unfold call readLine readSlice
        rw [hi]
        dsimp only
        split
        · rfl
        · rfl
      have hlt := (List.findIdx?_eq_some_iff_findIdx_eq.mp hi).1
      rw [hcall]
      exact hadvance (i + 1) hlt
  | readByte =>
      have hne : b.buffered ≠ [] := by
        intro hnil
        rw [hnil, List.length_nil] at hlen
        exact hwithin (List.length_eq_zero_iff.mp (by omega))
      have hcall : b.call .readByte = b.advance 1 := by
        change b.readByte.2 = b.advance 1
        unfold readByte
        rw [if_neg hne]
      rw [hcall]
      exact hadvance 1 (List.length_pos_iff.mpr hne)
  | peek n =>
      have hcall : b.call (.peek n) = b := by
        have hn : n ≤ b.buffered.length := by
          rcases hwithin with hn | hn
          · omega
          · exact hn
        change (b.peek n).2 = b
        unfold peek
        rw [if_neg fun h => absurd h.1 (not_lt.mpr hn)]
      rw [hcall, taken_self]
      exact ⟨hoffset, Or.inl hholds⟩
  | read n =>
      obtain ⟨hpos, hn⟩ := hwithin
      have hne : b.buffered ≠ [] := by
        intro hnil
        rw [hnil, List.length_nil] at hlen
        omega
      have hcall : b.call (.read n) = b.advance n := by
        change (b.read n).2.2 = b.advance n
        unfold read
        rw [if_neg hne]
      rw [hcall]
      exact hadvance n (by omega)

/-- A call on a new reader asks for a byte and fills the buffer first, or looks at none. -/
theorem call_of_new (hempty : b.buffered = []) (hrest : m <+: b.rest)
    (hfits : m.length ≤ size) {c : Call} (hkind : c.isRead = false) (hwithin : c.Within m b) :
    b.call c = b ∨ b.call c = b.fill.call c ∧ c.Within m b.fill := by
  have hholds := fill_holds hempty hrest hfits
  have hlen := hholds.length_le
  cases c with
  | readLine =>
      right
      refine ⟨?_, hwithin⟩
      have hsize : 0 < size := by
        have := List.length_pos_of_mem hwithin
        omega
      obtain ⟨i, hi⟩ : ∃ i, b.fill.buffered.findIdx? (· == (10 : UInt8)) = some i := by
        rw [← Option.isSome_iff_exists, List.findIdx?_isSome, List.any_eq_true]
        exact ⟨10, hholds.subset hwithin, rfl⟩
      have hslice : b.readSlice 10 = b.fill.readSlice 10 := by
        unfold readSlice
        rw [hi, hempty, List.findIdx?_nil, List.length_nil]
        dsimp only
        rw [if_pos hsize, hi]
      change b.readLine.2.2 = b.fill.readLine.2.2
      unfold readLine
      rw [hslice]
  | readByte =>
      right
      refine ⟨?_, hwithin⟩
      have hne : b.fill.buffered ≠ [] := by
        intro hnil
        rw [hnil, List.length_nil] at hlen
        exact hwithin (List.length_eq_zero_iff.mp (by omega))
      change b.readByte.2 = b.fill.readByte.2
      unfold readByte
      rw [if_pos hempty, if_neg hne]
  | peek n =>
      by_cases hn : n = 0
      · left
        change (b.peek n).2 = b
        unfold peek
        rw [if_neg (by omega)]
      · right
        have hnm : n ≤ m.length := by
          rcases hwithin with hnm | hbuffered
          · exact hnm
          · rw [hempty, List.length_nil] at hbuffered
            omega
        refine ⟨?_, Or.inl hnm⟩
        have hpeek : (b.peek n).2 = b.fill := by
          unfold peek
          rw [if_pos ⟨by rw [hempty, List.length_nil]; omega, by
            rw [hempty, List.length_nil]; omega⟩]
        have hfull : (b.fill.peek n).2 = b.fill := by
          unfold peek
          rw [if_neg fun h => absurd h.1 (by omega)]
        change (b.peek n).2 = (b.fill.peek n).2
        rw [hpeek, hfull]
  | read n => cases hkind

/-- **One call**: the offset moves by what is read. -/
theorem call_at (h : b.At k m) {c : Call} (hkind : c.isRead = false ∨ 0 < k)
    (hwithin : c.Within m b) :
    (b.call c).At (k + (b.unread.length - (b.call c).unread.length))
      (m.drop (b.unread.length - (b.call c).unread.length)) := by
  obtain ⟨hoffset, hholds | ⟨rfl, hempty, hrest, hfits⟩⟩ := h
  · exact call_of_holds hoffset hholds hwithin
  · have hkind := hkind.resolve_right (lt_irrefl 0)
    rcases call_of_new hempty hrest hfits hkind hwithin with hsame | ⟨hfill, hwithin'⟩
    · rw [hsame, taken_self]
      exact ⟨hoffset, Or.inr ⟨rfl, hempty, hrest, hfits⟩⟩
    · have hunread := b.fill_unread
      have hat := call_of_holds (k := 0) (b := b.fill) rfl (fill_holds hempty hrest hfits) hwithin'
      rw [hunread] at hat
      rw [hfill]
      exact hat

/-- What is asked for of some bytes is asked for of more. -/
theorem within_append {c : Call} (h : c.Within m b) (later : List UInt8) :
    c.Within (m ++ later) b := by
  cases c with
  | readLine => exact List.mem_append_left _ h
  | readByte =>
      intro hnil
      exact h (List.append_eq_nil_iff.mp hnil).1
  | peek n =>
      rcases h with hn | hn
      · refine Or.inl ?_
        rw [List.length_append]
        omega
      · exact Or.inr hn
  | read n =>
      refine ⟨h.1, ?_⟩
      rw [List.length_append]
      have := h.2
      omega

/-- **The rule for calls**: reading some bytes exactly moves the offset by their number. By induction
on the calls; what is to be read later goes along. -/
theorem consume_at {calls : List Call} {later : List UInt8} {b' : Reader size}
    (h : b.At k (m ++ later)) (hkind : (∀ c ∈ calls, c.isRead = false) ∨ 0 < k)
    (hconsume : b.consume calls m = some b') : b'.At (k + m.length) later := by
  induction calls generalizing b k m with
  | nil =>
      rw [consume] at hconsume
      split_ifs at hconsume with hnil
      cases hconsume
      rw [hnil] at h ⊢
      exact h
  | cons c calls ih =>
      rw [consume] at hconsume
      split_ifs at hconsume with hallowed
      obtain ⟨hwithin, htaken⟩ := hallowed
      have hstep := call_at h (hkind.imp (fun hall => hall c List.mem_cons_self) id)
        (within_append hwithin later)
      rw [List.drop_append_of_le_length htaken] at hstep
      have hrest := ih hstep
        (hkind.imp (fun hall c hc => hall c (List.mem_cons_of_mem _ hc)) fun hpos => by omega)
        hconsume
      rw [List.length_drop] at hrest
      have hsum : k + (b.unread.length - (b.call c).unread.length)
          + (m.length - (b.unread.length - (b.call c).unread.length)) = k + m.length := by omega
      rw [hsum] at hrest
      exact hrest

end Reader

end Bufio
