/-
Objects that are called: each call replies and changes the state, or fails and leaves it.

An object of type `σ` is given by what a call makes of its state, `call : ι → σ → Except ε (ρ × σ)`
for calls `ι`, replies `ρ` and errors `ε`. A failed call has no new state, so the next one meets
the old one (`after`). One object refines another under a relation of their states when every call
agrees on related states: the same error on both sides, or the same reply and related states again.
`replies_eq_of_refines` carries that to whole sequences of calls: nobody who only calls the objects
can tell them apart.
-/
import Mathlib.Data.List.Basic

set_option autoImplicit false

universe u

namespace Calls

variable {ι ε ρ σ τ : Type*}

/-- The state after a call. -/
def after (s : σ) : Except ε (ρ × σ) → σ
  | .ok (_, s') => s'
  | .error _ => s

/-- What the caller sees of a call. -/
def seen : Except ε (ρ × σ) → Except ε ρ
  | .ok (r, _) => .ok r
  | .error e => .error e

/-- The call is refused. -/
def Refused {α : Type*} (x : Except ε α) : Prop := ∃ e, x = .error e

/-- The state after a sequence of calls. -/
def final (call : ι → σ → Except ε (ρ × σ)) : List ι → σ → σ
  | [], s => s
  | i :: is, s => final call is (after s (call i s))

/-- What the caller sees of a sequence of calls. -/
def replies (call : ι → σ → Except ε (ρ × σ)) : List ι → σ → List (Except ε ρ)
  | [], _ => []
  | i :: is, s => seen (call i s) :: replies call is (after s (call i s))

theorem final_append (call : ι → σ → Except ε (ρ × σ)) (is : List ι) (i : ι) (s : σ) :
    final call (is ++ [i]) s = after (final call is s) (call i (final call is s)) := by
  induction is generalizing s with
  | nil => rfl
  | cons j is ih => exact ih _

theorem refused_error {α : Type*} (e : ε) : Refused (.error e : Except ε α) := ⟨e, rfl⟩

theorem not_refused_ok {α : Type*} (a : α) : ¬ Refused (.ok a : Except ε α) := by
  rintro ⟨e, he⟩
  cases he

/-- What comes behind an operation does not refuse. -/
theorem refused_bind_iff {α β : Type u} {x : Except ε α} {f : α → β} :
    Refused (x >>= fun a => Except.ok (f a)) ↔ Refused x := by
  cases x with
  | error e => exact iff_of_true (refused_error e) (refused_error e)
  | ok a => exact iff_of_false (not_refused_ok (f a)) (not_refused_ok a)

theorem after_of_refused {s : σ} {x : Except ε (ρ × σ)} (h : Refused x) : after s x = s := by
  obtain ⟨e, rfl⟩ := h
  rfl

/-- The two outcomes agree: the same error, or the same reply and related states. -/
inductive Agree (rel : σ → τ → Prop) : Except ε (ρ × σ) → Except ε (ρ × τ) → Prop
  | ok (r : ρ) {s : σ} {t : τ} (h : rel s t) : Agree rel (.ok (r, s)) (.ok (r, t))
  | error (e : ε) : Agree rel (.error e) (.error e)

namespace Agree

variable {rel : σ → τ → Prop} {x : Except ε (ρ × σ)} {y : Except ε (ρ × τ)}

theorem seen_eq (h : Agree rel x y) : seen x = seen y := by
  cases h with
  | ok r h => rfl
  | error e => rfl

theorem after_rel (h : Agree rel x y) {s : σ} {t : τ} (hst : rel s t) :
    rel (after s x) (after t y) := by
  cases h with
  | ok r h => exact h
  | error e => exact hst

theorem refused_iff (h : Agree rel x y) : Refused x ↔ Refused y := by
  cases h with
  | ok r h => exact iff_of_false (not_refused_ok _) (not_refused_ok _)
  | error e => exact iff_of_true (refused_error e) (refused_error e)

end Agree

section Refinement

variable {call : ι → σ → Except ε (ρ × σ)} {spec : ι → τ → Except ε (ρ × τ)} {rel : σ → τ → Prop}

/-- Related states stay related. -/
theorem final_rel (hcall : ∀ i s t, rel s t → Agree rel (call i s) (spec i t)) (is : List ι)
    {s : σ} {t : τ} (hst : rel s t) : rel (final call is s) (final spec is t) := by
  induction is generalizing s t with
  | nil => exact hst
  | cons i is ih => exact ih ((hcall i s t hst).after_rel hst)

/-- **A refinement has the same replies**, in every sequence of calls. -/
theorem replies_eq_of_refines (hcall : ∀ i s t, rel s t → Agree rel (call i s) (spec i t))
    (is : List ι) {s : σ} {t : τ} (hst : rel s t) :
    replies call is s = replies spec is t := by
  induction is generalizing s t with
  | nil => rfl
  | cons i is ih =>
      have hagree := hcall i s t hst
      unfold replies
      rw [hagree.seen_eq, ih (hagree.after_rel hst)]

end Refinement

end Calls
