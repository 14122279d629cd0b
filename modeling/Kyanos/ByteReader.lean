/-
Readers: programs that read values off the front of a buffer, can fail, and can fault.

A failure is an error the caller sees, and what was read before it stays read; a fault ends
the program. A reader may remember ends of sections of the buffer and jump to the last one
it remembered. `Cursor` is what such a program works on: the bytes that are left, the ends it
remembers, and whatever else the reader looks at, which it does not change.

`Moves view p cur a cur'` says what one reader does at one cursor. `Reads view c p bytes a` says
that `p` inverts an encoding: wherever the buffer begins with `bytes`, it returns `a` and leaves
what is behind them, with the same ends remembered. The rules compose both along a program:
`Reads.bind` puts two encodings one behind the other, and `Reads.readN` repeats one. `Starts` is the
same of a program that gets its value right and is somewhere else behind it.

A `Walk` is a layout without the values: where on a text it ends, or that it stops or faults.
`Follows view c p w` says that the reader `p` goes where the walk `w` goes, fails where that
stops and faults where that faults. The rules are those of `Reads`, and with them one learns on
which bytes a program faults.

Programs that go on after a failure need more: where it left them, and which end is remembered
then. `Ends view R p part` says how the reading of a section ends, and `Ends.within` is the rule
for a section that lies in another one.
-/
import Mathlib

set_option autoImplicit false

namespace ByteReader

/-- How a reader ends. -/
inductive Outcome (σ ε π α : Type)
  | done (a : α) (s : σ)
  | failed (e : ε) (s : σ)
  | fault (p : π)
deriving DecidableEq

/-- A reader over the state `σ`. -/
def Reader (σ ε π α : Type) : Type := σ → Outcome σ ε π α

variable {σ ε π α β γ κ : Type}

/-- `x`, and then `f` on what it returned. -/
def Reader.andThen (x : Reader σ ε π α) (f : α → Reader σ ε π β) : Reader σ ε π β := fun s =>
  match x s with
  | .done a s => f a s
  | .failed e s => .failed e s
  | .fault p => .fault p

instance : Monad (Reader σ ε π) where
  pure a s := .done a s
  bind := Reader.andThen

instance : LawfulMonad (Reader σ ε π) := by
  refine LawfulMonad.mk' _ ?_ ?_ ?_
  · intro α x
    funext s
    change Reader.andThen x (fun a s => .done a s) s = x s
    unfold Reader.andThen
    rcases x s with _ | _ | _ <;> rfl
  · intro α β a f
    rfl
  · intro α β γ x f g
    funext s
    change Reader.andThen (Reader.andThen x f) g s
      = Reader.andThen x (fun a => Reader.andThen (f a) g) s
    unfold Reader.andThen
    rcases x s with _ | _ | _ <;> rfl

@[simp] theorem pure_apply (a : α) (s : σ) : (pure a : Reader σ ε π α) s = .done a s := rfl

theorem bind_done {x : Reader σ ε π α} {f : α → Reader σ ε π β} {s s' : σ} {a : α}
    (h : x s = .done a s') : (x >>= f) s = f a s' := by
  change Reader.andThen x f s = f a s'
  rw [Reader.andThen, h]

theorem bind_failed {x : Reader σ ε π α} {f : α → Reader σ ε π β} {s s' : σ} {e : ε}
    (h : x s = .failed e s') : (x >>= f) s = .failed e s' := by
  change Reader.andThen x f s = .failed e s'
  rw [Reader.andThen, h]

theorem bind_fault {x : Reader σ ε π α} {f : α → Reader σ ε π β} {s : σ} {p : π}
    (h : x s = .fault p) : (x >>= f) s = .fault p := by
  change Reader.andThen x f s = .fault p
  rw [Reader.andThen, h]

theorem bind_eq_done {x : Reader σ ε π α} {f : α → Reader σ ε π β} {s s' : σ} {b : β}
    (h : (x >>= f) s = .done b s') : ∃ a s₁, x s = .done a s₁ ∧ f a s₁ = .done b s' := by
  rcases hx : x s with ⟨a, s₁⟩ | ⟨e, s₁⟩ | q
  · rw [bind_done hx] at h
    exact ⟨a, s₁, rfl, h⟩
  · rw [bind_failed hx] at h
    cases h
  · rw [bind_fault hx] at h
    cases h

theorem bind_of_eq {x y : Reader σ ε π α} {f : α → Reader σ ε π β} {s s' : σ}
    (h : x s = y s') : (x >>= f) s = (y >>= f) s' := by
  change Reader.andThen x f s = Reader.andThen y f s'
  rw [Reader.andThen, Reader.andThen, h]

/-- The error `e`. -/
def fail (e : ε) : Reader σ ε π α := fun s => .failed e s

/-- What the reader sees of its state. -/
def look (f : σ → α) : Reader σ ε π α := fun s => .done (f s) s

/-- The end of `p` as a value: a failure is handed on to what follows. -/
def attempt (p : Reader σ ε π α) : Reader σ ε π (Except ε α) := fun s =>
  match p s with
  | .done a s => .done (.ok a) s
  | .failed e s => .done (.error e) s
  | .fault q => .fault q

theorem attempt_done {p : Reader σ ε π α} {s s' : σ} {a : α} (h : p s = .done a s') :
    attempt p s = .done (.ok a) s' := by
  rw [attempt, h]

theorem attempt_failed {p : Reader σ ε π α} {s s' : σ} {e : ε} (h : p s = .failed e s') :
    attempt p s = .done (.error e) s' := by
  rw [attempt, h]

theorem attempt_fault {p : Reader σ ε π α} {s : σ} {q : π} (h : p s = .fault q) :
    attempt p s = .fault q := by
  rw [attempt, h]

/-- `p` as often as there is room in a list of `n` values. -/
def readN (p : Reader σ ε π α) : ℕ → Reader σ ε π (List α)
  | 0 => pure []
  | n + 1 => do
      let a ← p
      let as ← readN p n
      pure (a :: as)

theorem readN_succ_eq_done {p : Reader σ ε π α} {n : ℕ} {s s' : σ} {as : List α}
    (h : readN p (n + 1) s = .done as s') :
    ∃ a s₁ rest, p s = .done a s₁ ∧ readN p n s₁ = .done rest s' ∧ as = a :: rest := by
  obtain ⟨a, s₁, ha, h⟩ := bind_eq_done h
  obtain ⟨rest, s₂, hrest, h⟩ := bind_eq_done h
  cases h
  exact ⟨a, s₁, rest, ha, hrest, rfl⟩

/-! ## Cursors -/

structure Cursor (κ : Type) where
  rest : List UInt8
  marks : List (List UInt8)
  info : κ

/-- `p` returns `a` and goes from one cursor to another. -/
def Moves (view : σ → Cursor κ) (p : Reader σ ε π α) (cur : Cursor κ) (a : α)
    (cur' : Cursor κ) : Prop :=
  ∀ s, view s = cur → ∃ s', p s = .done a s' ∧ view s' = cur'

/-- `p` inverts an encoding: where the buffer begins with `bytes` it returns `a`, and leaves
what is behind them. -/
def Reads (view : σ → Cursor κ) (c : κ) (p : Reader σ ε π α) (bytes : List UInt8) (a : α) : Prop :=
  ∀ tail marks, Moves view p ⟨bytes ++ tail, marks, c⟩ a ⟨tail, marks, c⟩

section Reads

variable {view : σ → Cursor κ} {c : κ} {p : Reader σ ε π α} {bytes bytes' : List UInt8} {a : α}
  {cur cur' cur'' : Cursor κ}

theorem Moves.pure (a : α) : Moves view (pure a : Reader σ ε π α) cur a cur := by
  intro s hs
  exact ⟨s, rfl, hs⟩

theorem Moves.bind {f : α → Reader σ ε π β} {b : β} (hp : Moves view p cur a cur')
    (hf : Moves view (f a) cur' b cur'') : Moves view (p >>= f) cur b cur'' := by
  intro s hs
  obtain ⟨s₁, hdone, hs₁⟩ := hp s hs
  obtain ⟨s₂, hdone₂, hs₂⟩ := hf s₁ hs₁
  exact ⟨s₂, (bind_done hdone).trans hdone₂, hs₂⟩

/-- What the reader looks at beside the bytes is known. -/
theorem Moves.look {f : σ → β} {x : β} (hx : ∀ s, view s = cur → f s = x) :
    Moves view (look f : Reader σ ε π β) cur x cur := by
  intro s hs
  refine ⟨s, ?_, hs⟩
  rw [ByteReader.look, hx s hs]

/-- What is read first of a program that returns is known. -/
theorem Moves.of_bind {f : α → Reader σ ε π β} {b : β} {s s' : σ} (hp : Moves view p cur a cur')
    (hs : view s = cur) (h : (p >>= f) s = .done b s') :
    ∃ s₁, view s₁ = cur' ∧ f a s₁ = .done b s' := by
  obtain ⟨s₁, hdone, hs₁⟩ := hp s hs
  rw [bind_done hdone] at h
  exact ⟨s₁, hs₁, h⟩

/-- A reader that does not fail can be attempted. -/
theorem Moves.attempt (hp : Moves view p cur a cur') :
    Moves view (attempt p) cur (.ok a) cur' := by
  intro s hs
  obtain ⟨s', hdone, hs'⟩ := hp s hs
  exact ⟨s', attempt_done hdone, hs'⟩

theorem Reads.pure (a : α) : Reads view c (pure a : Reader σ ε π α) [] a := by
  intro tail marks
  exact Moves.pure a

/-- Two encodings one behind the other. -/
theorem Reads.bind {f : α → Reader σ ε π β} {b : β} (hp : Reads view c p bytes a)
    (hf : Reads view c (f a) bytes' b) : Reads view c (p >>= f) (bytes ++ bytes') b := by
  intro tail marks
  rw [List.append_assoc]
  exact (hp _ marks).bind (hf tail marks)

/-- The encoding that is read first of a program that returns. -/
theorem Reads.of_bind {f : α → Reader σ ε π β} {b : β} {s s' : σ} {tail : List UInt8}
    {marks : List (List UInt8)} (hp : Reads view c p bytes a)
    (hs : view s = ⟨(bytes ++ bytes') ++ tail, marks, c⟩) (h : (p >>= f) s = .done b s') :
    ∃ s₁, view s₁ = ⟨bytes' ++ tail, marks, c⟩ ∧ f a s₁ = .done b s' := by
  rw [List.append_assoc] at hs
  exact (hp _ marks).of_bind hs h

/-- The last encoding of a program, behind which a value is put together. -/
theorem Reads.map {f : α → β} (hp : Reads view c p bytes a) :
    Reads view c (p >>= fun x => Pure.pure (f x)) bytes (f a) := by
  rw [← List.append_nil bytes]
  exact hp.bind (Reads.pure (f a))

theorem Reads.look {f : σ → β} {x : β} (hx : ∀ s, (view s).info = c → f s = x) :
    Reads view c (look f : Reader σ ε π β) [] x := by
  intro tail marks
  exact Moves.look (fun s hs => hx s (by rw [hs]))

theorem Reads.attempt (hp : Reads view c p bytes a) :
    Reads view c (attempt p) bytes (.ok a) := by
  intro tail marks
  exact (hp tail marks).attempt

/-- A list is encoded element by element. -/
theorem Reads.readN {enc : γ → List UInt8} {dec : γ → α} {xs : List γ}
    (h : ∀ x ∈ xs, Reads view c p (enc x) (dec x)) :
    Reads view c (readN p xs.length) (xs.flatMap enc) (xs.map dec) := by
  induction xs with
  | nil => exact Reads.pure []
  | cons x xs ih =>
      obtain ⟨hx, hxs⟩ := List.forall_mem_cons.mp h
      rw [List.flatMap_cons]
      exact hx.bind (ih hxs).map

/-! ### Readers that do not read to the end -/

/-- `p` reads a value off an encoding, wherever it gets to behind that. -/
def Starts (view : σ → Cursor κ) (c : κ) (p : Reader σ ε π α) (bytes : List UInt8) (a : α) : Prop :=
  ∀ tail marks, ∃ rest, Moves view p ⟨bytes ++ tail, marks, c⟩ a ⟨rest, marks, c⟩

theorem Reads.starts (hp : Reads view c p bytes a) : Starts view c p bytes a :=
  fun tail marks => ⟨tail, hp tail marks⟩

theorem Starts.append (hp : Starts view c p bytes a) (bytes' : List UInt8) :
    Starts view c p (bytes ++ bytes') a := by
  intro tail marks
  rw [List.append_assoc]
  exact hp (bytes' ++ tail) marks

theorem Reads.bind_starts {f : α → Reader σ ε π β} {b : β} (hp : Reads view c p bytes a)
    (hf : Starts view c (f a) bytes' b) : Starts view c (p >>= f) (bytes ++ bytes') b := by
  intro tail marks
  obtain ⟨rest, hmoves⟩ := hf tail marks
  rw [List.append_assoc]
  exact ⟨rest, (hp _ marks).bind hmoves⟩

/-- Behind the value the program only looks at what it knows. -/
theorem Starts.bind {f : α → Reader σ ε π β} {b : β} (hp : Starts view c p bytes a)
    (hf : Reads view c (f a) [] b) : Starts view c (p >>= f) bytes b := by
  intro tail marks
  obtain ⟨rest, hmoves⟩ := hp tail marks
  exact ⟨rest, hmoves.bind (hf rest marks)⟩

end Reads

/-! ## Fronts -/

/-- The reader reads its value off the front of the bytes, as `front` does, and leaves the rest
of them where that says, also if it fails. -/
def Fronts (view : σ → Cursor κ) (p : Reader σ ε π α)
    (front : List UInt8 → Option α × List UInt8) : Prop :=
  ∀ s, ∃ s', view s' = { view s with rest := (front (view s).rest).2 }
    ∧ match (front (view s).rest).1 with
      | none => ∃ e, p s = .failed e s'
      | some x => p s = .done x s'

/-- A value at the front, and what is made of it. -/
def frontMap (f : α → β) (front : List UInt8 → Option α × List UInt8) (b : List UInt8) :
    Option β × List UInt8 :=
  ((front b).1.map f, (front b).2)

theorem Fronts.map {view : σ → Cursor κ} {p : Reader σ ε π α}
    {front : List UInt8 → Option α × List UInt8} (f : α → β) (hp : Fronts view p front) :
    Fronts view (p >>= fun x => Pure.pure (f x)) (frontMap f front) := by
  intro s
  obtain ⟨s₁, hview, hend⟩ := hp s
  refine ⟨s₁, hview, ?_⟩
  unfold frontMap
  dsimp only
  rcases hfront : (front (view s).rest).1 with _ | x
  · rw [hfront] at hend
    obtain ⟨e, hfailed⟩ := hend
    exact ⟨e, bind_failed hfailed⟩
  · rw [hfront] at hend
    exact bind_done hend

/-! ## Readers that do not mark -/

/-- However the reader ends, the ends it remembers are those from before. -/
def KeepsMarks (view : σ → Cursor κ) (p : Reader σ ε π α) : Prop :=
  ∀ s, match p s with
    | .done _ s' => (view s').marks = (view s).marks
    | .failed _ s' => (view s').marks = (view s).marks
    | .fault _ => True

section KeepsMarks

variable {view : σ → Cursor κ} {p : Reader σ ε π α}

theorem KeepsMarks.pure (a : α) : KeepsMarks view (pure a : Reader σ ε π α) := fun _ => rfl

theorem KeepsMarks.ofFront {front : List UInt8 → Option α × List UInt8}
    (hp : Fronts view p front) : KeepsMarks view p := by
  intro s
  obtain ⟨s₁, hview, hend⟩ := hp s
  have hmarks : (view s₁).marks = (view s).marks := by rw [hview]
  generalize (front (view s).rest).1 = x at hend
  rcases x with _ | x
  · obtain ⟨e, hfailed⟩ := hend
    rw [hfailed]
    exact hmarks
  · rw [show p s = .done x s₁ from hend]
    exact hmarks

theorem KeepsMarks.bind {f : α → Reader σ ε π β} (hp : KeepsMarks view p)
    (hf : ∀ a, KeepsMarks view (f a)) : KeepsMarks view (p >>= f) := by
  intro s
  have h := hp s
  rcases hend : p s with ⟨a, s₁⟩ | ⟨e, s₁⟩ | q
  · rw [hend] at h
    have h₁ := hf a s₁
    rw [bind_done hend]
    rw [show (view s₁).marks = (view s).marks from h] at h₁
    exact h₁
  · rw [hend] at h
    rw [bind_failed hend]
    exact h
  · rw [bind_fault hend]
    trivial

theorem KeepsMarks.attempt (hp : KeepsMarks view p) : KeepsMarks view (attempt p) := by
  intro s
  have h := hp s
  rcases hend : p s with ⟨a, s₁⟩ | ⟨e, s₁⟩ | q
  · rw [hend] at h
    rw [attempt_done hend]
    exact h
  · rw [hend] at h
    rw [attempt_failed hend]
    exact h
  · rw [attempt_fault hend]
    trivial

theorem KeepsMarks.readN (hp : KeepsMarks view p) (n : ℕ) : KeepsMarks view (readN p n) := by
  induction n with
  | zero => exact KeepsMarks.pure []
  | succ n ih => exact hp.bind (fun a => ih.bind (fun as => KeepsMarks.pure (a :: as)))

end KeepsMarks

/-! ## Walks -/

/-- How a walk over a text ends. -/
inductive Verdict
  | goes (rest : List UInt8)
  | stops
  | faults
deriving DecidableEq

abbrev Walk : Type := List UInt8 → Verdict

/-- `w`, and then `w'` from where it got to. -/
def Walk.andThen (w w' : Walk) : Walk := fun b =>
  match w b with
  | .goes rest => w' rest
  | .stops => .stops
  | .faults => .faults

/-- A value at the front, and the walk it leads to. -/
def Walk.front (front : List UInt8 → Option α × List UInt8) (k : α → Walk) : Walk := fun b =>
  match front b with
  | (none, _) => .stops
  | (some x, rest) => k x rest

/-- One walk behind the other. -/
def Walk.seq : List Walk → Walk
  | [] => Verdict.goes
  | w :: ws => w.andThen (Walk.seq ws)

def Walk.times (w : Walk) : ℕ → Walk
  | 0 => Verdict.goes
  | n + 1 => w.andThen (w.times n)

/-- The reader ends as the walk over the bytes that are left. -/
def Follows (view : σ → Cursor κ) (c : κ) (p : Reader σ ε π α) (w : Walk) : Prop :=
  ∀ s, (view s).info = c →
    match w (view s).rest with
    | .goes rest => ∃ a s', p s = .done a s' ∧ (view s').rest = rest ∧ (view s').info = c
    | .stops => ∃ e s', p s = .failed e s'
    | .faults => ∃ q, p s = .fault q

section Follows

variable {view : σ → Cursor κ} {c : κ} {p : Reader σ ε π α} {w w' : Walk}
  {fr : List UInt8 → Option α × List UInt8}

theorem Follows.pure (a : α) : Follows view c (pure a : Reader σ ε π α) Verdict.goes :=
  fun s hs => ⟨a, s, rfl, rfl, hs⟩

theorem Follows.fail (e : ε) : Follows view c (fail e : Reader σ ε π α) (fun _ => .stops) :=
  fun s _ => ⟨e, s, rfl⟩

theorem Follows.bind {f : α → Reader σ ε π β} (hp : Follows view c p w)
    (hf : ∀ a, Follows view c (f a) w') : Follows view c (p >>= f) (w.andThen w') := by
  intro s hs
  have h := hp s hs
  unfold Walk.andThen
  generalize w (view s).rest = verdict at h ⊢
  rcases verdict with rest | _ | _
  · obtain ⟨a, s₁, hdone, hrest, hinfo⟩ := h
    have h₁ := hf a s₁ hinfo
    rw [bind_done hdone]
    rwa [hrest] at h₁
  · obtain ⟨e, s₁, hfailed⟩ := h
    exact ⟨e, s₁, bind_failed hfailed⟩
  · obtain ⟨q, hfault⟩ := h
    exact ⟨q, bind_fault hfault⟩

/-- The last walk of a program. -/
theorem Follows.map {f : α → β} (hp : Follows view c p w) :
    Follows view c (p >>= fun a => Pure.pure (f a)) w := by
  have h := hp.bind (fun a => Follows.pure (f a))
  have hw : w.andThen Verdict.goes = w := by
    funext b
    unfold Walk.andThen
    rcases w b with _ | _ | _ <;> rfl
  rwa [hw] at h

/-- A value that is read decides how the reader goes on. -/
theorem Follows.front {f : α → Reader σ ε π β} {k : α → Walk} (hp : Fronts view p fr)
    (hf : ∀ x, Follows view c (f x) (k x)) : Follows view c (p >>= f) (Walk.front fr k) := by
  intro s hs
  obtain ⟨s₁, hview, hend⟩ := hp s
  unfold Walk.front
  rcases hfront : fr (view s).rest with ⟨_ | x, rest⟩
  · rw [hfront] at hend
    obtain ⟨e, hfailed⟩ := hend
    exact ⟨e, s₁, bind_failed hfailed⟩
  · rw [hfront] at hend hview
    have h₁ := hf x s₁ (by rw [hview]; exact hs)
    dsimp only at hend ⊢
    rw [bind_done hend]
    rwa [hview] at h₁

theorem Follows.ofFront (hp : Fronts view p fr) :
    Follows view c p (Walk.front fr fun _ => Verdict.goes) := by
  intro s hs
  obtain ⟨s₁, hview, hend⟩ := hp s
  unfold Walk.front
  rcases hfront : fr (view s).rest with ⟨_ | x, rest⟩
  · rw [hfront] at hend
    obtain ⟨e, hfailed⟩ := hend
    exact ⟨e, s₁, hfailed⟩
  · rw [hfront] at hend hview
    exact ⟨x, s₁, hend, by rw [hview], by rw [hview]; exact hs⟩

/-- What the reader looks at beside the bytes decides how it goes on. -/
theorem Follows.look {f : σ → β} {g : β → Reader σ ε π α} {x : β}
    (hx : ∀ s, (view s).info = c → f s = x) (hg : Follows view c (g x) w) :
    Follows view c (look f >>= g) w := by
  intro s hs
  have hdone : (ByteReader.look f : Reader σ ε π β) s = .done x s := by
    rw [ByteReader.look, hx s hs]
  rw [bind_done hdone]
  exact hg s hs

theorem Follows.readN (hp : Follows view c p w) (n : ℕ) :
    Follows view c (readN p n) (w.times n) := by
  induction n with
  | zero => exact Follows.pure []
  | succ n ih => exact hp.bind (fun a => ih.map)

end Follows

/-! ## Sections -/

/-- How the reading of a section ends: it is read; it fails before an end of its own was
remembered; or it fails behind that, and `rest` is the end remembered last, on top of those from
before. -/
inductive SectionEnd (δ : Type)
  | read (v : δ) (rest : List UInt8)
  | cut
  | broken (rest : List UInt8)

abbrev Section (δ : Type) : Type := List UInt8 → SectionEnd δ

variable {δ δ' : Type}

/-- `part`, and what its value leads to. -/
def Section.bind (part : Section δ) (k : δ → Section δ') : Section δ' := fun b =>
  match part b with
  | .read v rest => k v rest
  | .cut => .cut
  | .broken rest => .broken rest

/-- A value at the front. -/
def Section.value (front : List UInt8 → Option δ × List UInt8) : Section δ := fun b =>
  match front b with
  | (none, _) => .cut
  | (some v, rest) => .read v rest

def Section.times (part : Section δ) : ℕ → Section Unit
  | 0 => .read ()
  | n + 1 => part.bind (fun _ => part.times n)

/-- `part` within the next `len` bytes, whose end is remembered. -/
def Section.within (len : ℤ) (part : Section δ) : Section δ := fun b =>
  if len < 0 ∨ (b.length : ℤ) < len then .cut
  else
    match part b with
    | .read v _ => .read v (b.drop len.toNat)
    | .cut => .broken (b.drop len.toNat)
    | .broken rest => .broken rest

/-- The reader ends as it is said; what it returns and the value of the section are related. -/
def EndsAs (view : σ → Cursor κ) (R : α → δ → Prop) (p : Reader σ ε π α) (s : σ) :
    SectionEnd δ → Prop
  | .read v rest => ∃ a s', p s = .done a s' ∧ R a v ∧ view s' = { view s with rest := rest }
  | .cut => ∃ e s', p s = .failed e s' ∧ (view s').marks = (view s).marks
      ∧ (view s').info = (view s).info
  | .broken rest => ∃ e s' deeper, p s = .failed e s'
      ∧ (view s').marks = rest :: (deeper ++ (view s).marks) ∧ (view s').info = (view s).info

def Ends (view : σ → Cursor κ) (R : α → δ → Prop) (p : Reader σ ε π α) (part : Section δ) : Prop :=
  ∀ s, EndsAs view R p s (part (view s).rest)

/-- How ends are marked and jumped to: `mark len` remembers the end of the next `len` bytes, if
there are as many, and `jump` goes to the end remembered last and forgets it. -/
structure Marks (view : σ → Cursor κ) (mark : ℤ → Reader σ ε π Unit)
    (jump : Reader σ ε π Unit) : Prop where
  short : ∀ len s, (len < 0 ∨ ((view s).rest.length : ℤ) < len) → ∃ e, mark len s = .failed e s
  mark : ∀ len s, ¬ (len < 0 ∨ ((view s).rest.length : ℤ) < len) → ∃ s', mark len s = .done () s'
    ∧ view s' = { view s with marks := (view s).rest.drop len.toNat :: (view s).marks }
  jump : ∀ s rest marks, (view s).marks = rest :: marks → ∃ s', jump s = .done () s'
    ∧ view s' = { view s with rest := rest, marks := marks }

section Ends

variable {view : σ → Cursor κ} {R : α → δ → Prop} {R' : β → δ' → Prop} {p : Reader σ ε π α}
  {part : Section δ}

theorem Ends.pure {a : α} {v : δ} (h : R a v) :
    Ends view R (pure a : Reader σ ε π α) (.read v) :=
  fun s => ⟨a, s, rfl, h, rfl⟩

theorem Ends.fail (e : ε) : Ends view R (fail e : Reader σ ε π α) (fun _ => .cut) :=
  fun s => ⟨e, s, rfl, rfl, rfl⟩

theorem Ends.value {fr : List UInt8 → Option α × List UInt8} (hp : Fronts view p fr) :
    Ends view Eq p (Section.value fr) := by
  intro s
  obtain ⟨s₁, hview, hend⟩ := hp s
  unfold Section.value
  rcases hfront : fr (view s).rest with ⟨_ | x, rest⟩
  · rw [hfront] at hend
    obtain ⟨e, hfailed⟩ := hend
    exact ⟨e, s₁, hfailed, by rw [hview], by rw [hview]⟩
  · rw [hfront] at hend hview
    exact ⟨x, s₁, hend, rfl, hview⟩

theorem Ends.bind {f : α → Reader σ ε π β} {k : δ → Section δ'} (hp : Ends view R p part)
    (hf : ∀ a v, R a v → Ends view R' (f a) (k v)) :
    Ends view R' (p >>= f) (part.bind k) := by
  intro s
  have h := hp s
  unfold Section.bind
  generalize part (view s).rest = ended at h ⊢
  rcases ended with ⟨v, rest⟩ | _ | rest
  · obtain ⟨a, s₁, hdone, hR, hview⟩ := h
    have h₁ := hf a v hR s₁
    rw [hview] at h₁
    dsimp only at h₁ ⊢
    -- The end is that of the second, for which only the bytes are others.
    generalize k v rest = ended at h₁ ⊢
    rcases ended with ⟨v', rest'⟩ | _ | rest'
    · obtain ⟨b, s₂, hdone₂, hR', hview₂⟩ := h₁
      refine ⟨b, s₂, (bind_done hdone).trans hdone₂, hR', ?_⟩
      rw [hview₂, hview]
    · obtain ⟨e, s₂, hfailed, hmarks, hinfo⟩ := h₁
      refine ⟨e, s₂, (bind_done hdone).trans hfailed, ?_, ?_⟩
      · rw [hmarks, hview]
      · rw [hinfo, hview]
    · obtain ⟨e, s₂, deeper, hfailed, hmarks, hinfo⟩ := h₁
      refine ⟨e, s₂, deeper, (bind_done hdone).trans hfailed, ?_, ?_⟩
      · rw [hmarks, hview]
      · rw [hinfo, hview]
  · obtain ⟨e, s₁, hfailed, hsame⟩ := h
    exact ⟨e, s₁, bind_failed hfailed, hsame⟩
  · obtain ⟨e, s₁, deeper, hfailed, hsame⟩ := h
    exact ⟨e, s₁, deeper, bind_failed hfailed, hsame⟩

/-- The last section of a program. -/
theorem Ends.map {f : α → β} {S : β → δ → Prop} (hp : Ends view R p part)
    (hf : ∀ a v, R a v → S (f a) v) : Ends view S (p >>= fun a => Pure.pure (f a)) part := by
  have hpure : ∀ a v, R a v →
      Ends view S (Pure.pure (f a) : Reader σ ε π β) (.read v) :=
    fun a v hR => Ends.pure (hf a v hR)
  have h := hp.bind hpure
  have hpart : part.bind (fun v => .read v) = part := by
    funext b
    unfold Section.bind
    rcases part b with _ | _ | _ <;> rfl
  rwa [hpart] at h

/-- Sections one behind the other; what is read of them is not looked at. -/
theorem Ends.readN (hp : Ends view R p part) (n : ℕ) :
    Ends view (fun _ _ => True) (readN p n) (part.times n) := by
  induction n with
  | zero => exact Ends.pure trivial
  | succ n ih => exact hp.bind (fun a _ _ => ih.map (fun _ _ _ => trivial))

/-- A section in another one: its end is marked, and jumped to behind what is read. -/
theorem Ends.within {mark : ℤ → Reader σ ε π Unit} {jump : Reader σ ε π Unit}
    (hmarks : Marks view mark jump) (len : ℤ) (hp : Ends view R p part) :
    Ends view R (mark len >>= fun _ => p >>= fun a => jump >>= fun _ => Pure.pure a)
      (Section.within len part) := by
  intro s
  unfold Section.within
  split_ifs with hlen
  · obtain ⟨e, hfailed⟩ := hmarks.short len s hlen
    exact ⟨e, s, bind_failed hfailed, rfl, rfl⟩
  · obtain ⟨s₁, hdone, hview⟩ := hmarks.mark len s hlen
    have h := hp s₁
    rw [hview] at h
    dsimp only at h
    generalize part (view s).rest = ended at h ⊢
    rcases ended with ⟨v, rest⟩ | _ | rest
    · obtain ⟨a, s₂, hread, hR, hview₂⟩ := h
      obtain ⟨s₃, hjump, hview₃⟩ := hmarks.jump s₂ ((view s).rest.drop len.toNat) (view s).marks
        (by rw [hview₂, hview])
      refine ⟨a, s₃, ?_, hR, ?_⟩
      · rw [bind_done hdone, bind_done hread, bind_done hjump]
        rfl
      · rw [hview₃, hview₂, hview]
    · obtain ⟨e, s₂, hfailed, hmark, hinfo⟩ := h
      refine ⟨e, s₂, [], (bind_done hdone).trans (bind_failed hfailed), ?_, ?_⟩
      · rw [hmark, hview]
        rfl
      · rw [hinfo, hview]
    · obtain ⟨e, s₂, deeper, hfailed, hmark, hinfo⟩ := h
      -- The end of the section lies below those of the parts in it.
      refine ⟨e, s₂, deeper ++ [(view s).rest.drop len.toNat],
        (bind_done hdone).trans (bind_failed hfailed), ?_, ?_⟩
      · rw [hmark, hview, List.append_assoc]
        rfl
      · rw [hinfo, hview]

end Ends

end ByteReader
