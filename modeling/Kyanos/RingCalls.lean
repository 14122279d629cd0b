/-
`common/ringbuffer.go` under any sequence of calls: the ring is a list of bounded length.

The list a ring represents was read off one operation at a time so far, where the operation
succeeds. Here a caller makes any calls in any order, with any index, on a new ring of any size.
The abstract object is `BoundedList`, a list that carries its bound: a call appends, takes or looks
at the front, reads, inserts or drops at an index, empties, measures or visits, and the list's own
conditions say when it is refused. `Represents.call_agrees` compares the two call by call, also
where they fail, and the rules for objects in `Calls` carry it to whole sequences.

The values are of an arbitrary type `α`, and `any` with its `nil` is one of them. The function
that `ForEach` gets keeps what it does in a `σ` of the caller's.
-/
import Kyanos.RingBuffer
import Kyanos.Calls

set_option autoImplicit false

namespace Kyanos

/-! ## The abstract object -/

/-- A list of at most `size` elements. -/
structure BoundedList (α : Type) (size : ℕ) where
  toList : List α
  length_le : toList.length ≤ size

namespace BoundedList

variable {α : Type} {size : ℕ}

def empty : BoundedList α size := ⟨[], Nat.zero_le _⟩

/-- Whether an index is the place of an element. -/
def Has (b : BoundedList α size) (index : ℤ) : Prop := 0 ≤ index ∧ index < b.toList.length

/-- Whether there can be an element at an index after an insertion. -/
def CanHave (b : BoundedList α size) (index : ℤ) : Prop := 0 ≤ index ∧ index ≤ b.toList.length

instance (b : BoundedList α size) (index : ℤ) : Decidable (b.Has index) :=
  inferInstanceAs (Decidable (_ ∧ _))

instance (b : BoundedList α size) (index : ℤ) : Decidable (b.CanHave index) :=
  inferInstanceAs (Decidable (_ ∧ _))

def append (b : BoundedList α size) (value : α) : Except RingError (BoundedList α size) :=
  if h : b.toList.length < size then
    .ok ⟨b.toList ++ [value], by rw [List.length_append, List.length_singleton]; omega⟩
  else .error .full

def head : BoundedList α size → Except RingError α
  | ⟨[], _⟩ => .error .empty
  | ⟨a :: _, _⟩ => .ok a

def popFront : BoundedList α size → Except RingError (α × BoundedList α size)
  | ⟨[], _⟩ => .error .empty
  | ⟨a :: l, h⟩ => .ok (a, ⟨l, (Nat.le_succ _).trans h⟩)

def nth (b : BoundedList α size) (index : ℤ) : Except RingError (Option α) :=
  if b.Has index then .ok b.toList[index.toNat]? else .error .indexOutOfRange

def insertAt (b : BoundedList α size) (index : ℤ) (value : α) :
    Except RingError (BoundedList α size) :=
  if b.CanHave index then
    if h : b.toList.length < size then
      .ok ⟨b.toList.insertIdx index.toNat value,
        List.length_insertIdx_le_succ.trans h⟩
    else .error .full
  else .error .indexOutOfRange

def dropFirst (b : BoundedList α size) (index : ℤ) : Except RingError (BoundedList α size) :=
  if b.Has index then
    .ok ⟨b.toList.drop index.toNat, by
      rw [List.length_drop]
      exact (Nat.sub_le _ _).trans b.length_le⟩
  else .error .indexOutOfRange

/-! ### When an operation is refused -/

open Calls (Refused refused_error not_refused_ok)

variable (b : BoundedList α size)

theorem append_refused_iff (v : α) : Refused (b.append v) ↔ b.toList.length = size := by
  have hle := b.length_le
  unfold append
  split_ifs with hroom
  · exact iff_of_false (not_refused_ok _) (by omega)
  · exact iff_of_true (refused_error _) (by omega)

theorem head_refused_iff : Refused b.head ↔ b.toList = [] := by
  obtain ⟨l, hl⟩ := b
  cases l with
  | nil => exact iff_of_true (refused_error _) rfl
  | cons a l => exact iff_of_false (not_refused_ok _) (List.cons_ne_nil a l)

theorem popFront_refused_iff : Refused b.popFront ↔ b.toList = [] := by
  obtain ⟨l, hl⟩ := b
  cases l with
  | nil => exact iff_of_true (refused_error _) rfl
  | cons a l => exact iff_of_false (not_refused_ok _) (List.cons_ne_nil a l)

theorem nth_refused_iff (index : ℤ) : Refused (b.nth index) ↔ ¬ b.Has index := by
  unfold nth
  split_ifs with hin
  · exact iff_of_false (not_refused_ok _) (not_not_intro hin)
  · exact iff_of_true (refused_error _) hin

theorem insertAt_refused_iff (index : ℤ) (v : α) :
    Refused (b.insertAt index v) ↔ b.toList.length = size ∨ ¬ b.CanHave index := by
  have hle := b.length_le
  unfold insertAt
  split_ifs with hin hroom
  · refine iff_of_false (not_refused_ok _) ?_
    rintro (hfull | hout)
    · omega
    · exact hout hin
  · exact iff_of_true (refused_error _) (Or.inl (by omega))
  · exact iff_of_true (refused_error _) (Or.inr hin)

theorem dropFirst_refused_iff (index : ℤ) : Refused (b.dropFirst index) ↔ ¬ b.Has index := by
  unfold dropFirst
  split_ifs with hin
  · exact iff_of_false (not_refused_ok _) (not_not_intro hin)
  · exact iff_of_true (refused_error _) hin

end BoundedList

/-! ## Calls -/

/-- A call of one of the methods. -/
inductive RingCall (α σ : Type)
  | write (value : α)
  | read
  | peek
  | readIndex (index : ℤ)
  | insert (index : ℤ) (value : α)
  | discardBeforeIndex (index : ℤ)
  | clear
  | count
  | isEmpty
  | isFull
  | forEach (action : σ → Option α → Except Panic (σ × Bool)) (s : σ)

/-- What a call returns besides its error. -/
inductive RingReply (α σ : Type)
  | done
  | value (v : Option α)
  | number (n : ℕ)
  | flag (b : Bool)
  | visited (r : Except Panic σ)

variable {α σ : Type}

/-- `Clear`. -/
def RingBuffer.clear (rb : RingBuffer α) : RingBuffer α :=
  { rb with data := List.replicate rb.size none, start := 0, stop := 0, isFull := false }

namespace RingCall

def onRing : RingCall α σ → RingBuffer α → Except RingError (RingReply α σ × RingBuffer α)
  | .write value, rb => do
      let rb' ← rb.write value
      .ok (.done, rb')
  | .read, rb => do
      let (v, rb') ← rb.read
      .ok (.value v, rb')
  | .peek, rb => do
      let v ← rb.peek
      .ok (.value v, rb)
  | .readIndex index, rb => do
      let v ← rb.readIndex index
      .ok (.value v, rb)
  | .insert index value, rb => do
      let rb' ← rb.insert index value
      .ok (.done, rb')
  | .discardBeforeIndex index, rb => do
      let rb' ← rb.discardBeforeIndex index
      .ok (.done, rb')
  | .clear, rb => .ok (.done, rb.clear)
  | .count, rb => .ok (.number rb.count, rb)
  | .isEmpty, rb => .ok (.flag rb.isEmpty, rb)
  | .isFull, rb => .ok (.flag rb.isFull, rb)
  | .forEach action s, rb => .ok (.visited (rb.forEach action s), rb)

/-- What the same call does to a bounded list. -/
def onList {size : ℕ} :
    RingCall α σ → BoundedList α size → Except RingError (RingReply α σ × BoundedList α size)
  | .write value, b => do
      let b' ← b.append value
      .ok (.done, b')
  | .read, b => do
      let (v, b') ← b.popFront
      .ok (.value (some v), b')
  | .peek, b => do
      let v ← b.head
      .ok (.value (some v), b)
  | .readIndex index, b => do
      let v ← b.nth index
      .ok (.value v, b)
  | .insert index value, b => do
      let b' ← b.insertAt index value
      .ok (.done, b')
  | .discardBeforeIndex index, b => do
      let b' ← b.dropFirst index
      .ok (.done, b')
  | .clear, _ => .ok (.done, .empty)
  | .count, b => .ok (.number b.toList.length, b)
  | .isEmpty, b => .ok (.flag (decide (b.toList = [])), b)
  | .isFull, b => .ok (.flag (decide (b.toList.length = size)), b)
  | .forEach action s, b => .ok (.visited (RingBuffer.iterate action b.toList s), b)

attribute [simp] onRing onList

/-- When a list of bounded length refuses a call: a full one another element, an empty one a look
at its front, and any list an index outside of it. -/
def RefusedBy {size : ℕ} (b : BoundedList α size) : RingCall α σ → Prop
  | .write _ => b.toList.length = size
  | .read | .peek => b.toList = []
  | .readIndex index | .discardBeforeIndex index => ¬ b.Has index
  | .insert index _ => b.toList.length = size ∨ ¬ b.CanHave index
  | .clear | .count | .isEmpty | .isFull | .forEach _ _ => False

end RingCall

/-! ## One call -/

/-- The ring has the bound of the list and represents it. -/
structure Represents {size : ℕ} (rb : RingBuffer α) (b : BoundedList α size) : Prop where
  size_eq : rb.size = size
  refines : rb.Refines b.toList

namespace RingBuffer.Refines

variable {rb : RingBuffer α} {l : List α}

/-- The errors of an index are those of the list: negative ones and ones too large. -/
theorem outside_iff (h : Refines rb l) (index : ℤ) :
    (index < 0 ∨ index ≥ rb.count) ↔ ¬ (0 ≤ index ∧ index < l.length) := by
  rw [h.count_eq]
  omega

theorem write_refused (h : Refines rb l) (hfull : ¬ l.length < rb.size) (v : α) :
    rb.write v = .error .full := by
  have hle := h.length_le
  exact h.write_full (by omega) v

theorem readIndex_outside (h : Refines rb l) {index : ℤ}
    (hout : ¬ (0 ≤ index ∧ index < l.length)) : rb.readIndex index = .error .indexOutOfRange :=
  if_pos ((h.outside_iff index).mpr hout)

theorem discardBeforeIndex_outside (h : Refines rb l) {index : ℤ}
    (hout : ¬ (0 ≤ index ∧ index < l.length)) :
    rb.discardBeforeIndex index = .error .indexOutOfRange :=
  if_pos ((h.outside_iff index).mpr hout)

theorem insert_outside (h : Refines rb l) {index : ℤ} (hout : ¬ (0 ≤ index ∧ index ≤ l.length))
    (v : α) : rb.insert index v = .error .indexOutOfRange := by
  refine if_pos ?_
  rw [h.count_eq]
  omega

theorem clear_refines (h : Refines rb l) : Refines rb.clear [] :=
  new_refines (Nat.zero_lt_of_lt h.start_lt)

end RingBuffer.Refines

namespace Represents

variable {size : ℕ} {rb : RingBuffer α} {b : BoundedList α size}

theorem write_agrees (h : Represents rb b) (v : α) :
    Calls.Agree Represents (RingCall.onRing (.write v : RingCall α σ) rb)
      (RingCall.onList (.write v) b) := by
  rw [RingCall.onRing, RingCall.onList, BoundedList.append]
  by_cases hroom : b.toList.length < size
  · obtain ⟨rb', hwrite, hrefines, hsize⟩ := h.refines.write_ok (by rwa [h.size_eq]) v
    rw [hwrite, dif_pos hroom]
    exact .ok _ ⟨by rw [hsize, h.size_eq], hrefines⟩
  · rw [h.refines.write_refused (by rwa [h.size_eq]) v, dif_neg hroom]
    exact .error _

theorem read_agrees (h : Represents rb b) :
    Calls.Agree Represents (RingCall.onRing (.read : RingCall α σ) rb)
      (RingCall.onList .read b) := by
  obtain ⟨l, hl⟩ := b
  rw [RingCall.onRing, RingCall.onList]
  cases l with
  | nil =>
      have hread : rb.read = .error .empty := if_pos (h.refines.isEmpty_iff.mpr rfl)
      rw [hread]
      exact .error _
  | cons a l =>
      rw [h.refines.read_eq.2]
      exact .ok _ ⟨h.size_eq, h.refines.tail⟩

theorem peek_agrees (h : Represents rb b) :
    Calls.Agree Represents (RingCall.onRing (.peek : RingCall α σ) rb)
      (RingCall.onList .peek b) := by
  obtain ⟨l, hl⟩ := b
  rw [RingCall.onRing, RingCall.onList]
  cases l with
  | nil =>
      have hpeek : rb.peek = .error .empty := if_pos (h.refines.isEmpty_iff.mpr rfl)
      rw [hpeek]
      exact .error _
  | cons a l =>
      rw [h.refines.read_eq.1]
      exact .ok _ h

theorem readIndex_agrees (h : Represents rb b) (index : ℤ) :
    Calls.Agree Represents (RingCall.onRing (.readIndex index : RingCall α σ) rb)
      (RingCall.onList (.readIndex index) b) := by
  rw [RingCall.onRing, RingCall.onList, BoundedList.nth]
  by_cases hin : b.Has index
  · obtain ⟨i, rfl⟩ := Int.eq_ofNat_of_zero_le hin.1
    have hi : i < b.toList.length := by exact_mod_cast hin.2
    rw [h.refines.readIndex_eq hi, if_pos hin, Int.toNat_natCast, List.getElem?_eq_getElem hi]
    exact .ok _ h
  · rw [h.refines.readIndex_outside hin, if_neg hin]
    exact .error _

theorem insert_agrees (h : Represents rb b) (index : ℤ) (v : α) :
    Calls.Agree Represents (RingCall.onRing (.insert index v : RingCall α σ) rb)
      (RingCall.onList (.insert index v) b) := by
  rw [RingCall.onRing, RingCall.onList, BoundedList.insertAt]
  by_cases hin : b.CanHave index
  · obtain ⟨i, rfl⟩ := Int.eq_ofNat_of_zero_le hin.1
    have hi : i ≤ b.toList.length := by exact_mod_cast hin.2
    rw [if_pos hin]
    by_cases hroom : b.toList.length < size
    · obtain ⟨rb', hinsert, hrefines, hsize⟩ :=
        h.refines.insert_ok hi (by rwa [h.size_eq]) v
      rw [hinsert, dif_pos hroom]
      exact .ok _ ⟨by rw [hsize, h.size_eq], hrefines⟩
    -- The index is checked first, so a full ring refuses only indices that there could be.
    · have hfull : b.toList.length = rb.size := by
        have hle := b.length_le
        rw [h.size_eq]
        omega
      rw [h.refines.insert_full hi hfull v, dif_neg hroom]
      exact .error _
  · rw [h.refines.insert_outside hin v, if_neg hin]
    exact .error _

theorem discardBeforeIndex_agrees (h : Represents rb b) (index : ℤ) :
    Calls.Agree Represents (RingCall.onRing (.discardBeforeIndex index : RingCall α σ) rb)
      (RingCall.onList (.discardBeforeIndex index) b) := by
  rw [RingCall.onRing, RingCall.onList, BoundedList.dropFirst]
  by_cases hin : b.Has index
  · obtain ⟨i, rfl⟩ := Int.eq_ofNat_of_zero_le hin.1
    have hi : i < b.toList.length := by exact_mod_cast hin.2
    obtain ⟨rb', hdiscard, hrefines, hsize⟩ := h.refines.discardBeforeIndex_ok hi
    rw [hdiscard, if_pos hin]
    exact .ok _ ⟨by rw [hsize, h.size_eq], hrefines⟩
  · rw [h.refines.discardBeforeIndex_outside hin, if_neg hin]
    exact .error _

/-- **One call on the ring is the call on its list**: refused on both sides with the same error, or
with the same reply and a list the ring again represents. -/
theorem call_agrees (c : RingCall α σ) (h : Represents rb b) :
    Calls.Agree Represents (c.onRing rb) (c.onList b) := by
  cases c with
  | write v => exact h.write_agrees v
  | read => exact h.read_agrees
  | peek => exact h.peek_agrees
  | readIndex index => exact h.readIndex_agrees index
  | insert index v => exact h.insert_agrees index v
  | discardBeforeIndex index => exact h.discardBeforeIndex_agrees index
  | clear => exact .ok _ ⟨h.size_eq, h.refines.clear_refines⟩
  | count =>
      rw [RingCall.onRing, RingCall.onList]
      rw [h.refines.count_eq]
      exact .ok _ h
  | isEmpty =>
      have hempty : rb.isEmpty = decide (b.toList = []) := by
        rw [Bool.eq_iff_iff, h.refines.isEmpty_iff, decide_eq_true_iff]
      rw [RingCall.onRing, RingCall.onList]
      rw [hempty]
      exact .ok _ h
  | isFull =>
      have hfull : rb.isFull = decide (b.toList.length = size) := by
        rw [Bool.eq_iff_iff, h.refines.full, decide_eq_true_iff, h.size_eq]
      rw [RingCall.onRing, RingCall.onList]
      rw [hfull]
      exact .ok _ h
  | forEach action s =>
      rw [RingCall.onRing, RingCall.onList]
      rw [h.refines.forEach_eq action s]
      exact .ok _ h

end Represents

/-- The list refuses just the calls that `RefusedBy` names. -/
theorem RingCall.onList_refused_iff {size : ℕ} (c : RingCall α σ) (b : BoundedList α size) :
    Calls.Refused (c.onList b) ↔ c.RefusedBy b := by
  cases c with
  | write v => exact Calls.refused_bind_iff.trans (b.append_refused_iff v)
  | read => exact Calls.refused_bind_iff.trans b.popFront_refused_iff
  | peek => exact Calls.refused_bind_iff.trans b.head_refused_iff
  | readIndex index => exact Calls.refused_bind_iff.trans (b.nth_refused_iff index)
  | insert index v => exact Calls.refused_bind_iff.trans (b.insertAt_refused_iff index v)
  | discardBeforeIndex index => exact Calls.refused_bind_iff.trans (b.dropFirst_refused_iff index)
  | clear => exact iff_of_false (Calls.not_refused_ok _) not_false
  | count => exact iff_of_false (Calls.not_refused_ok _) not_false
  | isEmpty => exact iff_of_false (Calls.not_refused_ok _) not_false
  | isFull => exact iff_of_false (Calls.not_refused_ok _) not_false
  | forEach action s => exact iff_of_false (Calls.not_refused_ok _) not_false

/-! ## Any sequence of calls -/

/-- After any calls a new ring represents what they make of the empty list. -/
theorem represents_final {size : ℕ} (hsize : 1 ≤ size) (calls : List (RingCall α σ)) :
    Represents (Calls.final RingCall.onRing calls (RingBuffer.new size))
      (Calls.final RingCall.onList calls (.empty : BoundedList α size)) :=
  Calls.final_rel (fun c _ _ h => h.call_agrees c) calls ⟨rfl, RingBuffer.new_refines hsize⟩

/-- **The ring is a bounded list.** For every size from one on and every sequence of calls on a new
ring, all replies and errors are those of the list, which starts empty; the ring ends up
representing the list; and whichever call comes next, it is refused just when the list is full or
empty or the index is outside of it, and a refused call leaves the list in the ring as it is. -/
theorem ring_refines_boundedList {size : ℕ} (hsize : 1 ≤ size) (calls : List (RingCall α σ)) :
    Calls.replies RingCall.onRing calls (RingBuffer.new size)
        = Calls.replies RingCall.onList calls (.empty : BoundedList α size)
      ∧ ∃ b : BoundedList α size, b = Calls.final RingCall.onList calls .empty
        ∧ (Calls.final RingCall.onRing calls (RingBuffer.new size)).Refines b.toList
        ∧ ∀ c : RingCall α σ,
          (Calls.Refused (c.onRing (Calls.final RingCall.onRing calls (RingBuffer.new size)))
            ↔ c.RefusedBy b)
          ∧ (c.RefusedBy b → (Calls.final RingCall.onRing (calls ++ [c])
              (RingBuffer.new size)).contents = b.toList) := by
  have hnew : Represents (RingBuffer.new size : RingBuffer α) (.empty : BoundedList α size) :=
    ⟨rfl, RingBuffer.new_refines hsize⟩
  have hagrees : ∀ (c : RingCall α σ) (rb : RingBuffer α) (b : BoundedList α size),
      Represents rb b → Calls.Agree Represents (c.onRing rb) (c.onList b) :=
    fun c _ _ h => h.call_agrees c
  -- After the calls the ring represents the list, so the next call agrees too.
  have hfinal := represents_final hsize calls
  refine ⟨Calls.replies_eq_of_refines hagrees calls hnew, _, rfl, hfinal.refines, fun c => ?_⟩
  have hrefused := ((hfinal.call_agrees c).refused_iff).trans (c.onList_refused_iff _)
  refine ⟨hrefused, fun hc => ?_⟩
  rw [Calls.final_append, Calls.after_of_refused (hrefused.mpr hc)]
  exact hfinal.refines.contents_eq

/-- Two elements fill a ring of two, and the third call is refused. -/
theorem ring_refines_boundedList_two :
    Calls.replies (RingCall.onRing : RingCall ℕ Unit → _)
        [.write 7, .insert 0 5, .write 9, .discardBeforeIndex 1, .peek] (RingBuffer.new 2)
      = Calls.replies RingCall.onList
        [.write 7, .insert 0 5, .write 9, .discardBeforeIndex 1, .peek]
        (.empty : BoundedList ℕ 2) :=
  (ring_refines_boundedList (by decide) _).1

end Kyanos
