/-
Runs of a fallible transition function, and the rule that proves an invariant of
them.

A system here is a step function `step : σ → ι → Except ε σ` with a precondition
`pre` that says which inputs its callers may give it in which state. `Run` is the
relation "this list of inputs, each of them allowed where it is given, leads from
the initial state to that state"; it keeps the inputs, because several properties
are about what was fed in earlier.

`Run.invariant` is the induction every safety theorem uses: the property holds
initially and no allowed step breaks it. `Run.history` is the same for properties
of the inputs so far. Where a step does what it should on a condition only,
`Run.steps_iff` and `Run.invariant_iff` say which runs do.

The last section is a loop whose body says whether to stop. It has a bound on its
rounds, and `loop_returns` is the rule for removing the bound: a measure that every
round which goes on makes smaller. `loop_invariant` is the invariant rule for its rounds,
and `observe` puts beside the body an observer that sees each round and changes nothing
(`loop_observe`).
-/
import Mathlib

set_option autoImplicit false

universe u v w

namespace Trace

variable {σ : Type u} {ι : Type v} {ε : Type w}

/-- The states a list of allowed inputs leads to. -/
inductive Run (step : σ → ι → Except ε σ) (pre : σ → ι → Prop) (s₀ : σ) :
    List ι → σ → Prop
  | nil : Run step pre s₀ [] s₀
  | snoc {is : List ι} {s s' : σ} {i : ι} (prev : Run step pre s₀ is s) (allowed : pre s i)
      (stepped : step s i = .ok s') : Run step pre s₀ (is ++ [i]) s'

variable {step : σ → ι → Except ε σ} {pre : σ → ι → Prop} {s₀ : σ}

/-- **The invariant rule.** What holds initially and survives every allowed step
holds in every state of every run. -/
theorem Run.invariant {I : σ → Prop} (hinit : I s₀)
    (hstep : ∀ s i s', I s → pre s i → step s i = .ok s' → I s')
    {is : List ι} {s : σ} (h : Run step pre s₀ is s) : I s := by
  induction h with
  | nil => exact hinit
  | snoc _ allowed stepped ih => exact hstep _ _ _ ih allowed stepped

/-- The same rule for a property of the inputs so far and the state they lead to. -/
theorem Run.history {I : List ι → σ → Prop} (hinit : I [] s₀)
    (hstep : ∀ is s i s', I is s → pre s i → step s i = .ok s' → I (is ++ [i]) s')
    {is : List ι} {s : σ} (h : Run step pre s₀ is s) : I is s := by
  induction h with
  | nil => exact hinit
  | snoc _ allowed stepped ih => exact hstep _ _ _ _ ih allowed stepped

/-- A run under one precondition is one under a weaker one. -/
theorem Run.mono {pre' : σ → ι → Prop} (hpre : ∀ s i, pre s i → pre' s i) {is : List ι} {s : σ}
    (h : Run step pre s₀ is s) : Run step pre' s₀ is s := by
  induction h with
  | nil => exact .nil
  | snoc _ allowed stepped ih => exact ih.snoc (hpre _ _ allowed) stepped

theorem Run.of_nil {s : σ} (h : Run step pre s₀ [] s) : s = s₀ := by
  generalize hnil : ([] : List ι) = is at h
  cases h with
  | nil => rfl
  | snoc _ _ _ => simp at hnil

/-- The last step of a run. -/
theorem Run.of_snoc {is : List ι} {i : ι} {s' : σ} (h : Run step pre s₀ (is ++ [i]) s') :
    ∃ s, Run step pre s₀ is s ∧ pre s i ∧ step s i = .ok s' := by
  generalize hsnoc : is ++ [i] = js at h
  cases h with
  | nil => simp at hsnoc
  | snoc prev allowed stepped =>
      obtain ⟨rfl, hlast⟩ := List.append_inj' hsnoc rfl
      cases hlast
      exact ⟨_, prev, allowed, stepped⟩

/-- A list of inputs leads to one state. -/
theorem Run.unique {is : List ι} {s s' : σ} (h : Run step pre s₀ is s)
    (h' : Run step pre s₀ is s') : s = s' := by
  induction is using List.reverseRecOn generalizing s s' with
  | nil => exact h.of_nil.trans h'.of_nil.symm
  | append_singleton is i ih =>
      obtain ⟨s₁, prev, -, hstep⟩ := h.of_snoc
      obtain ⟨s₂, prev', -, hstep'⟩ := h'.of_snoc
      rw [ih prev prev', hstep'] at hstep
      exact (Except.ok.inj hstep).symm

/-- **Runs that return.** If a step returns just on a condition, a list of inputs goes through
just when the condition holds before each of them. -/
theorem Run.exists_iff {ok : σ → ι → Prop} (hok : ∀ s i, (∃ s', step s i = .ok s') ↔ ok s i)
    (is : List ι) : (∃ s, Run step (fun _ _ => True) s₀ is s)
      ↔ ∀ front i back s, is = front ++ i :: back → Run step (fun _ _ => True) s₀ front s →
        ok s i := by
  induction is using List.reverseRecOn with
  | nil =>
      refine iff_of_true ⟨s₀, .nil⟩ ?_
      intro front i back s heq
      simp at heq
  | append_singleton is j ih =>
      constructor
      · rintro ⟨s', hrun⟩ front i back s heq hfront
        obtain ⟨s₁, prev, -, hstep⟩ := hrun.of_snoc
        rcases List.eq_nil_or_concat back with rfl | ⟨back, k, rfl⟩
        · obtain ⟨rfl, hlast⟩ := List.append_inj' heq rfl
          cases hlast
          rw [hfront.unique prev]
          exact (hok s₁ j).mp ⟨s', hstep⟩
        · have hsplit : is ++ [j] = (front ++ i :: back) ++ [k] := by
            rw [heq]
            simp
          obtain ⟨hinit, -⟩ := List.append_inj' hsplit rfl
          exact ih.mp ⟨s₁, prev⟩ front i back s hinit hfront
      · intro hall
        obtain ⟨s, prev⟩ := ih.mpr (by
          intro front i back s heq hfront
          exact hall front i (back ++ [j]) s (by rw [heq]; simp) hfront)
        obtain ⟨s', hstep⟩ := (hok s j).mpr (hall is j [] s rfl prev)
        exact ⟨s', prev.snoc trivial hstep⟩

/-- **Steps up to a condition.** If a step of a run does what is asked of it just on a condition,
every step does just when the condition is met at each of them. -/
theorem Run.steps_iff {P : ι → σ → Prop} {meets : σ → ι → Prop}
    (hstep : ∀ front s i s', Run step pre s₀ front s → pre s i → step s i = .ok s' →
      (P i s' ↔ meets s i))
    {is : List ι} {s : σ} (h : Run step pre s₀ is s) :
    (∀ front i s', front ++ [i] <+: is → Run step pre s₀ (front ++ [i]) s' → P i s')
      ↔ Run step (fun s i => pre s i ∧ meets s i) s₀ is s := by
  constructor
  · intro hall
    induction h with
    | nil => exact .nil
    | @snoc is s s' i prev allowed stepped ih =>
        have hfront := ih (fun front j s₁ hfront =>
          hall front j s₁ (hfront.trans (List.prefix_append is [i])))
        have hs' := hall is i s' (List.prefix_refl _) (prev.snoc allowed stepped)
        exact hfront.snoc ⟨allowed, (hstep is s i s' prev allowed stepped).mp hs'⟩ stepped
  · intro hmeets
    induction hmeets with
    | nil =>
        intro front i s' hfront _
        have hnil := List.prefix_nil.mp hfront
        simp at hnil
    | @snoc is s s' i prev allowed stepped ih =>
        intro front j s₁ hfront hrun
        have hprev : Run step pre s₀ is s := prev.mono (fun _ _ => And.left)
        rcases List.prefix_concat_iff.mp hfront with heq | hfront
        · obtain ⟨rfl, hlast⟩ := List.append_inj' heq rfl
          cases hlast
          rw [hrun.unique (hprev.snoc allowed.1 stepped)]
          exact (hstep front s i s' hprev allowed.1 stepped).mpr allowed.2
        · exact ih hprev front j s₁ hfront hrun

/-- **Invariants up to a condition.** If an allowed step keeps the invariant just on a
condition, the invariant holds all along a run just when it holds initially and the condition
is met at every step. -/
theorem Run.invariant_iff {I : σ → Prop} {meets : σ → ι → Prop}
    (hstep : ∀ s i s', I s → pre s i → step s i = .ok s' → (I s' ↔ meets s i))
    {is : List ι} {s : σ} (h : Run step pre s₀ is s) :
    (∀ front s', front <+: is → Run step pre s₀ front s' → I s')
      ↔ I s₀ ∧ Run step (fun s i => pre s i ∧ meets s i) s₀ is s := by
  constructor
  · intro hall
    refine ⟨hall [] s₀ List.nil_prefix .nil, ?_⟩
    induction h with
    | nil => exact .nil
    | @snoc is s s' i prev allowed stepped ih =>
        have hfront := ih (fun front s₁ hfront =>
          hall front s₁ (hfront.trans (List.prefix_append is [i])))
        have hs := hall is s (List.prefix_append is [i]) prev
        have hs' := hall (is ++ [i]) s' (List.prefix_refl _) (prev.snoc allowed stepped)
        exact hfront.snoc ⟨allowed, (hstep s i s' hs allowed stepped).mp hs'⟩ stepped
  · rintro ⟨hinit, hmeets⟩
    induction hmeets with
    | nil =>
        intro front s' hfront hrun
        rw [List.prefix_nil.mp hfront] at hrun
        rw [hrun.of_nil]
        exact hinit
    | @snoc is s s₁ i prev allowed stepped ih =>
        intro front s' hfront hrun
        have hprev : Run step pre s₀ is s := prev.mono (fun _ _ => And.left)
        rcases List.prefix_concat_iff.mp hfront with rfl | hfront
        · rw [hrun.unique (hprev.snoc allowed.1 stepped)]
          have hs := ih hprev is s (List.prefix_refl is) hprev
          exact (hstep s i s₁ hs allowed.1 stepped).mpr allowed.2
        · exact ih hprev front s' hfront hrun

/-- What holds wherever a relation leads holds here, and wherever it leads from the next step. -/
theorem forall_reflTransGen_iff {r : σ → σ → Prop} {P : σ → Prop} {s : σ} :
    (∀ t, Relation.ReflTransGen r s t → P t)
      ↔ P s ∧ ∀ s', r s s' → ∀ t, Relation.ReflTransGen r s' t → P t := by
  constructor
  · intro h
    exact ⟨h s .refl, fun s' hstep t hrest => h t (.head hstep hrest)⟩
  · rintro ⟨hs, hrest⟩ t ht
    rcases ht.cases_head with rfl | ⟨s', hstep, ht⟩
    · exact hs
    · exact hrest s' hstep t ht

/-- Run a list of inputs, checking the precondition of each. -/
def exec (step : σ → ι → Except ε σ) (pre : σ → ι → Prop) [∀ s i, Decidable (pre s i)] :
    σ → List ι → Option σ
  | s, [] => some s
  | s, i :: is =>
      if pre s i then
        match step s i with
        | .ok s' => exec step pre s' is
        | .error _ => none
      else none

theorem Run.exec [∀ s i, Decidable (pre s i)] {is js : List ι} {s s' : σ}
    (h : Run step pre s₀ is s) (hexec : exec step pre s js = some s') :
    Run step pre s₀ (is ++ js) s' := by
  induction js generalizing is s with
  | nil =>
      rw [Trace.exec] at hexec
      cases hexec
      simpa using h
  | cons j js ih =>
      rw [Trace.exec] at hexec
      split_ifs at hexec with hpre
      split at hexec
      · rename_i s₁ hstep
        have := ih (h.snoc hpre hstep) hexec
        simpa using this
      · cases hexec

/-- An execution that goes through is a run, so a concrete one is found by evaluation. -/
theorem Run.of_exec [∀ s i, Decidable (pre s i)] {is : List ι} {s : σ}
    (h : Trace.exec step pre s₀ is = some s) : Run step pre s₀ is s := by
  simpa using Run.nil.exec h

theorem ok_bind {α β : Type u} (a : α) (f : α → Except ε β) : (Except.ok a >>= f) = f a := rfl

theorem error_bind {α β : Type u} (e : ε) (f : α → Except ε β) :
    (Except.error e >>= f) = .error e := rfl

/-- What a successful bind is made of. -/
theorem bind_eq_ok {α β : Type u} {x : Except ε α} {f : α → Except ε β} {b : β} :
    (x >>= f) = .ok b ↔ ∃ a, x = .ok a ∧ f a = .ok b := by
  cases x with
  | error e =>
      constructor
      · intro h
        cases h
      · rintro ⟨a, h, _⟩
        cases h
  | ok a =>
      constructor
      · intro h
        exact ⟨a, rfl, h⟩
      · rintro ⟨a', h, hf⟩
        cases h
        exact hf

/-- The computation returns. -/
def Returns {α : Type u} (x : Except ε α) : Prop := ∃ a, x = .ok a

theorem returns_ok {α : Type u} (a : α) : Returns (.ok a : Except ε α) := ⟨a, rfl⟩

theorem not_returns_error {α : Type u} (e : ε) : ¬ Returns (.error e : Except ε α) := by
  rintro ⟨a, h⟩
  cases h

theorem returns_bind_iff {α β : Type u} {x : Except ε α} {f : α → Except ε β} :
    Returns (x >>= f) ↔ Returns x ∧ ∀ a, x = .ok a → Returns (f a) := by
  rcases x with e | a
  · exact iff_of_false (not_returns_error e) (fun h => not_returns_error e h.1)
  · constructor
    · intro h
      refine ⟨returns_ok a, ?_⟩
      rintro a' ⟨⟩
      exact h
    · intro h
      exact h.2 a rfl

/-- Behind a computation whose continuation returns. -/
theorem returns_bind {α β : Type u} {x : Except ε α} {f : α → Except ε β}
    (hf : ∀ a, x = .ok a → Returns (f a)) : Returns (x >>= f) ↔ Returns x :=
  returns_bind_iff.trans (and_iff_left hf)

theorem map_eq_ok {α β : Type u} {x : Except ε α} {f : α → β} {b : β} (h : x.map f = .ok b) :
    ∃ a, x = .ok a ∧ f a = b := by
  rcases x with e | a
  · cases h
  · exact ⟨a, rfl, Except.ok.inj h⟩

/-! ## Loops -/

/-- `for !stop && !done { body }` with at most `n` rounds; `none` when these are used up. -/
def loop (done : σ → Bool) (body : σ → Except ε (Bool × σ)) : ℕ → σ → Option (Except ε σ)
  | 0, _ => none
  | n + 1, s =>
      if done s then some (.ok s)
      else
        match body s with
        | .error e => some (.error e)
        | .ok (true, s) => some (.ok s)
        | .ok (false, s) => loop done body n s

/-- **The rule for loops.** If every round that does not stop keeps the invariant and makes
the measure smaller, the loop returns: every bound above the measure gives one and the same
result, and it is that of the round the loop ends with. -/
theorem loop_returns {done : σ → Bool} {body : σ → Except ε (Bool × σ)} {I : σ → Prop}
    {P : Except ε σ → Prop} (μ : σ → ℕ) (hdone : ∀ s, I s → done s = true → P (.ok s))
    (hbody : ∀ s, I s → done s = false →
      (∃ e, body s = .error e ∧ P (.error e)) ∨ (∃ s', body s = .ok (true, s') ∧ P (.ok s'))
        ∨ ∃ s', body s = .ok (false, s') ∧ I s' ∧ μ s' < μ s)
    {s : σ} (hI : I s) : ∃ r, P r ∧ ∀ n, μ s < n → loop done body n s = some r := by
  induction hm : μ s using Nat.strong_induction_on generalizing s with
  | _ m ih =>
      subst hm
      -- A bound above the measure leaves a round to make; what it does decides the result.
      have hround : ∀ {r : Except ε σ}, (∀ n, μ s < n + 1 → loop done body (n + 1) s = some r) →
          ∀ n, μ s < n → loop done body n s = some r := by
        intro r hsucc n hn
        obtain ⟨k, rfl⟩ : ∃ k, n = k + 1 := ⟨n - 1, by omega⟩
        exact hsucc k hn
      by_cases hd : done s = true
      · refine ⟨.ok s, hdone s hI hd, hround ?_⟩
        intro n _
        rw [loop, if_pos hd]
      · rcases hbody s hI (Bool.eq_false_iff.mpr hd) with ⟨e, heq, hP⟩ | ⟨s', heq, hP⟩ | h
        · refine ⟨.error e, hP, hround ?_⟩
          intro n _
          rw [loop, if_neg hd, heq]
        · refine ⟨.ok s', hP, hround ?_⟩
          intro n _
          rw [loop, if_neg hd, heq]
        · obtain ⟨s', heq, hI', hlt⟩ := h
          obtain ⟨r, hP, hr⟩ := ih (μ s') hlt hI' rfl
          refine ⟨r, hP, hround ?_⟩
          intro n hn
          rw [loop, if_neg hd, heq]
          exact hr n (by omega)

/-- **The invariant rule for loops.** What every round keeps holds where the loop ends. -/
theorem loop_invariant {done : σ → Bool} {body : σ → Except ε (Bool × σ)} {I : σ → Prop}
    (hbody : ∀ s stop s', I s → done s = false → body s = .ok (stop, s') → I s')
    {n : ℕ} {s s' : σ} (hI : I s) (h : loop done body n s = some (.ok s')) : I s' := by
  induction n generalizing s with
  | zero => cases h
  | succ n ih =>
      rw [loop] at h
      by_cases hd : done s = true
      · rw [if_pos hd] at h
        cases h
        exact hI
      · rw [if_neg hd] at h
        have hgo : done s = false := Bool.eq_false_iff.mpr hd
        rcases hround : body s with e | ⟨stop, s₁⟩
        · rw [hround] at h
          cases h
        · have hI₁ := hbody s stop s₁ hI hgo hround
          rw [hround] at h
          rcases stop with _ | _
          · exact ih hI₁ h
          · cases h
            exact hI₁

variable {τ : Type u}

/-- The body with an observer beside it, which is told the state before and after. -/
def observe (body : σ → Except ε (Bool × σ)) (note : σ → σ → τ → τ) (p : σ × τ) :
    Except ε (Bool × σ × τ) :=
  match body p.1 with
  | .error e => .error e
  | .ok (stop, s) => .ok (stop, s, note p.1 s p.2)

/-- The observer is outside the loop: without it the loop is what it was. -/
theorem loop_observe (done : σ → Bool) (body : σ → Except ε (Bool × σ)) (note : σ → σ → τ → τ)
    (n : ℕ) (s : σ) (t : τ) :
    (loop (fun p => done p.1) (observe body note) n (s, t)).map (Except.map Prod.fst)
      = loop done body n s := by
  induction n generalizing s t with
  | zero => rfl
  | succ n ih =>
      rw [loop, loop]
      by_cases hd : done s = true
      · rw [if_pos hd, if_pos hd]
        rfl
      · rw [if_neg hd, if_neg hd]
        unfold observe
        dsimp only
        rcases body s with e | ⟨stop, s₁⟩
        · rfl
        · rcases stop with _ | _
          · exact ih s₁ (note s s₁ t)
          · rfl

theorem observe_eq_ok {body : σ → Except ε (Bool × σ)} {note : σ → σ → τ → τ} {p p' : σ × τ}
    {stop : Bool} (h : observe body note p = .ok (stop, p')) :
    body p.1 = .ok (stop, p'.1) ∧ p'.2 = note p.1 p'.1 p.2 := by
  unfold observe at h
  rcases hbody : body p.1 with e | ⟨stop', s⟩
  · rw [hbody] at h
    cases h
  · rw [hbody] at h
    cases h
    exact ⟨rfl, rfl⟩

end Trace
