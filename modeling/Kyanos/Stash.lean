/-
What the beginning of a call puts aside for its end.

Threads make calls that come back later, or never. Where a call begins, values are put into slots of its
thread; while it goes on, they may be changed in place; where it ends, it looks at the slots of its
thread and some of them are cleared. `State` has, beside the slots, the call that each thread is in with
the values of its own.

A call finds its own (`Kept`), and `beyond` is what it finds besides. That is nothing, if each call
clears what it puts aside (`Covered`) and comes back before its thread makes the next (`Tidy`).
-/
import Mathlib

set_option autoImplicit false

namespace Stash

variable {Thread Slot Call : Type*} {Value : Slot → Type*}

/-- What lies in the slots of a thread. -/
abbrev Row (Value : Slot → Type*) := (slot : Slot) → Option (Value slot)

namespace Row

def empty : Row Value := fun _ => none

def touch (f : (slot : Slot) → Value slot → Value slot) (row : Row Value) : Row Value :=
  fun slot => (row slot).map (f slot)

/-- What lies in the first row lies in the second. -/
def Within (own row : Row Value) : Prop := ∀ slot v, own slot = some v → row slot = some v

/-- What lies in the second row alone. -/
def beyond (own row : Row Value) : Row Value :=
  fun slot => if (own slot).isSome then none else row slot

/-- A slot has what is one's own, or what is not. -/
theorem Within.slot {own row : Row Value} (h : Within own row) (slot : Slot) :
    (row slot = own slot ∧ own.beyond row slot = none)
      ∨ (own slot = none ∧ own.beyond row slot = row slot) := by
  unfold beyond
  rcases hown : own slot with _ | v
  · exact Or.inr ⟨rfl, rfl⟩
  · exact Or.inl ⟨h slot v hown, rfl⟩

theorem Within.touch {own row : Row Value} (h : Within own row)
    (f : (slot : Slot) → Value slot → Value slot) : Within (own.touch f) (row.touch f) := by
  intro slot v hv
  obtain ⟨w, hw, rfl⟩ := Option.map_eq_some_iff.mp hv
  exact Option.map_eq_some_iff.mpr ⟨w, h slot w hw, rfl⟩

theorem touch_eq_none {f : (slot : Slot) → Value slot → Value slot} {row : Row Value} {slot : Slot} :
    row.touch f slot = none ↔ row slot = none := Option.map_eq_none_iff

variable [DecidableEq Slot]

def put (row : Row Value) (p : Σ slot, Value slot) : Row Value := Function.update row p.1 (some p.2)

/-- Put values aside, one after the other. -/
def puts (ps : List (Σ slot, Value slot)) (row : Row Value) : Row Value := ps.foldl put row

def clear (taken : List Slot) (row : Row Value) : Row Value :=
  fun slot => if slot ∈ taken then none else row slot

theorem Within.put {own row : Row Value} (h : Within own row) (p : Σ slot, Value slot) :
    Within (own.put p) (row.put p) := by
  intro slot v hv
  unfold Row.put at hv ⊢
  by_cases hslot : slot = p.1
  · subst hslot
    rw [Function.update_self] at hv ⊢
    exact hv
  · rw [Function.update_of_ne hslot] at hv ⊢
    exact h slot v hv

theorem Within.puts {own row : Row Value} (h : Within own row) (ps : List (Σ slot, Value slot)) :
    Within (own.puts ps) (row.puts ps) := by
  induction ps generalizing own row with
  | nil => exact h
  | cons p ps ih => exact ih (h.put p)

/-- Only what is put aside lies there. -/
theorem mem_of_puts {ps : List (Σ slot, Value slot)} {row : Row Value} {slot : Slot}
    (h : row.puts ps slot ≠ none) (hempty : row slot = none) : slot ∈ ps.map Sigma.fst := by
  induction ps generalizing row with
  | nil => exact absurd hempty h
  | cons p ps ih =>
      rw [List.map_cons, List.mem_cons]
      by_cases hslot : slot = p.1
      · exact Or.inl hslot
      · exact Or.inr (ih h ((Function.update_of_ne hslot _ _).trans hempty))

end Row

/-- The slots of the threads, and the call that each thread is in with what this call put aside. -/
structure State (Thread Call : Type*) (Value : Slot → Type*) where
  rows : Thread → Row Value
  current : Thread → Option (Call × Row Value)

namespace State

def start : State Thread Call Value := { rows := fun _ => Row.empty, current := fun _ => none }

/-- What the call of a thread put aside. -/
def own (s : State Thread Call Value) (t : Thread) : Row Value := (s.current t).elim Row.empty Prod.snd

/-- A call finds what it put aside. -/
def Kept (s : State Thread Call Value) : Prop := ∀ t, (s.own t).Within (s.rows t)

/-- Nothing lies in the slots of a thread but what its call put aside. -/
def Tidy (s : State Thread Call Value) : Prop := ∀ t, s.rows t = s.own t

/-- A call clears what it put aside. -/
def Covered (taken : Call → List Slot) (s : State Thread Call Value) : Prop :=
  ∀ t call own, s.current t = some (call, own) → ∀ slot, own slot ≠ none → slot ∈ taken call

theorem Kept.start : Kept (start : State Thread Call Value) := by
  intro t slot v h
  cases h

theorem Tidy.start : Tidy (start : State Thread Call Value) := fun _ => rfl

theorem Covered.start {taken : Call → List Slot} :
    Covered taken (start : State Thread Call Value) := by
  intro t call own h
  cases h

variable [DecidableEq Thread]

/-- Another row and another call for a thread. -/
def set (s : State Thread Call Value) (t : Thread) (row : Row Value)
    (current : Option (Call × Row Value)) : State Thread Call Value :=
  { rows := Function.update s.rows t row, current := Function.update s.current t current }

def touch (s : State Thread Call Value) (t : Thread) (f : (slot : Slot) → Value slot → Value slot) :
    State Thread Call Value :=
  s.set t ((s.rows t).touch f) ((s.current t).map fun call => (call.1, call.2.touch f))

variable {s : State Thread Call Value} {t : Thread}

@[simp] theorem set_rows_self (row : Row Value) (current : Option (Call × Row Value)) :
    (s.set t row current).rows t = row := Function.update_self _ _ _

@[simp] theorem set_current_self (row : Row Value) (current : Option (Call × Row Value)) :
    (s.set t row current).current t = current := Function.update_self _ _ _

theorem set_rows_other {t' : Thread} (h : t' ≠ t) (row : Row Value)
    (current : Option (Call × Row Value)) : (s.set t row current).rows t' = s.rows t' :=
  Function.update_of_ne h _ _

theorem set_current_other {t' : Thread} (h : t' ≠ t) (row : Row Value)
    (current : Option (Call × Row Value)) : (s.set t row current).current t' = s.current t' :=
  Function.update_of_ne h _ _

theorem set_own_self (row : Row Value) (current : Option (Call × Row Value)) :
    (s.set t row current).own t = current.elim Row.empty Prod.snd := by
  unfold own
  rw [set_current_self]

theorem set_own_other {t' : Thread} (h : t' ≠ t) (row : Row Value)
    (current : Option (Call × Row Value)) : (s.set t row current).own t' = s.own t' := by
  unfold own
  rw [set_current_other h]

theorem Kept.set (h : s.Kept) {row : Row Value} {current : Option (Call × Row Value)}
    (hset : Row.Within (current.elim Row.empty Prod.snd) row) : (s.set t row current).Kept := by
  intro t'
  by_cases ht : t' = t
  · subst ht
    rw [set_own_self, set_rows_self]
    exact hset
  · rw [set_own_other ht, set_rows_other ht]
    exact h t'

theorem Tidy.set (h : s.Tidy) {row : Row Value} {current : Option (Call × Row Value)}
    (hset : row = current.elim Row.empty Prod.snd) : (s.set t row current).Tidy := by
  intro t'
  by_cases ht : t' = t
  · subst ht
    rw [set_own_self, set_rows_self]
    exact hset
  · rw [set_own_other ht, set_rows_other ht]
    exact h t'

theorem Covered.set {taken : Call → List Slot} (h : s.Covered taken) {row : Row Value}
    {current : Option (Call × Row Value)}
    (hset : ∀ call own, current = some (call, own) → ∀ slot, own slot ≠ none → slot ∈ taken call) :
    (s.set t row current).Covered taken := by
  intro t' call own hcurrent
  by_cases ht : t' = t
  · subst ht
    rw [set_current_self] at hcurrent
    exact hset call own hcurrent
  · rw [set_current_other ht] at hcurrent
    exact h t' call own hcurrent

theorem Kept.touch (h : s.Kept) (f : (slot : Slot) → Value slot → Value slot) : (s.touch t f).Kept := by
  refine h.set ?_
  have ht := h t
  unfold own at ht
  rcases hcurrent : s.current t with _ | ⟨call, own⟩
  · -- A thread without a call has nothing of its own.
    intro slot v hv
    cases hv
  · rw [hcurrent] at ht
    exact ht.touch f

theorem Tidy.touch (h : s.Tidy) (f : (slot : Slot) → Value slot → Value slot) : (s.touch t f).Tidy := by
  refine h.set ?_
  have ht := h t
  unfold own at ht
  rw [ht]
  rcases s.current t with _ | call
  · rfl
  · rfl

theorem Covered.touch {taken : Call → List Slot} (h : s.Covered taken)
    (f : (slot : Slot) → Value slot → Value slot) : (s.touch t f).Covered taken := by
  refine h.set fun call own hcurrent slot hslot => ?_
  obtain ⟨⟨call', own'⟩, hown, heq⟩ := Option.map_eq_some_iff.mp hcurrent
  cases heq
  exact h t call' own' hown slot fun hnone => hslot (Row.touch_eq_none.mpr hnone)

variable [DecidableEq Slot]

/-- A call begins. One of the thread that is under way will not come back. -/
def enter (s : State Thread Call Value) (t : Thread) (call : Call) (ps : List (Σ slot, Value slot)) :
    State Thread Call Value :=
  s.set t ((s.rows t).puts ps) (some (call, Row.empty.puts ps))

/-- A call ends. -/
def leave (s : State Thread Call Value) (t : Thread) (taken : List Slot) : State Thread Call Value :=
  s.set t ((s.rows t).clear taken) none

theorem Kept.enter (h : s.Kept) (call : Call) (ps : List (Σ slot, Value slot)) :
    (s.enter t call ps).Kept := by
  refine h.set (Row.Within.puts (fun slot v hv => ?_) ps)
  cases hv

theorem Tidy.enter (h : s.Tidy) (hidle : s.current t = none) (call : Call)
    (ps : List (Σ slot, Value slot)) : (s.enter t call ps).Tidy := by
  refine h.set ?_
  have ht := h t
  unfold own at ht
  rw [hidle] at ht
  rw [ht]
  rfl

theorem Covered.enter {taken : Call → List Slot} (h : s.Covered taken) {call : Call}
    {ps : List (Σ slot, Value slot)} (hps : ∀ slot ∈ ps.map Sigma.fst, slot ∈ taken call) :
    (s.enter t call ps).Covered taken := by
  refine h.set fun call' own hcurrent slot hslot => ?_
  cases hcurrent
  exact hps slot (Row.mem_of_puts hslot rfl)

theorem Kept.leave (h : s.Kept) (taken : List Slot) : (s.leave t taken).Kept := by
  refine h.set fun slot v hv => ?_
  cases hv

/-- The call clears all that it put aside. -/
theorem Tidy.leave (h : s.Tidy) {taken : List Slot} (hall : ∀ slot, s.own t slot ≠ none → slot ∈ taken) :
    (s.leave t taken).Tidy := by
  refine h.set ?_
  rw [h t]
  funext slot
  change (if slot ∈ taken then none else s.own t slot) = none
  split_ifs with htaken
  · rfl
  · by_contra hne
    exact htaken (hall slot hne)

theorem Covered.leave {taken : Call → List Slot} (h : s.Covered taken) (cleared : List Slot) :
    (s.leave t cleared).Covered taken := by
  refine h.set fun call own hcurrent => ?_
  cases hcurrent

end State

end Stash
