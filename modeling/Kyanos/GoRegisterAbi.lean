/-
`agent/uprobe/dwarf_reader/reader.go`: where a Go function finds its arguments.

Since Go 1.17 an argument is in registers of its class, as long as enough of them are left, and on the
stack else; return values have registers of their own. `resolveLocationForReg` threads what is left of
four register files, and five offsets, through the parameters of a function.

Sizes and offsets are those of the types of a program, far below what an `int` counts up to, and are
natural numbers here.

For an argument of the class of floating point the code takes the registers of the integers. So it is
right about such an argument only where that makes no difference: it has no variables, or more of them
than there are floating-point registers. `resolveAll_abides_iff` says that the locations of a whole
sequence of parameters follow the ABI just if every such argument is one of these.
-/
import Kyanos.Trace

set_option autoImplicit false

open Trace

namespace Kyanos.Dwarf

/-! ## The model of the ABI -/

inductive RegisterName
  | kRAX | kRBX | kRCX | kRDX | kRDI | kRSI | kR8 | kR9 | kR10 | kR11
  | kXMM0 | kXMM1 | kXMM2 | kXMM3 | kXMM4 | kXMM5 | kXMM6 | kXMM7 | kXMM8 | kXMM9 | kXMM10 | kXMM11
  | kXMM12 | kXMM13 | kXMM14
deriving DecidableEq

inductive TypeClass
  | kNone
  | kInteger
  | kFloat
  | kMixed
deriving DecidableEq

inductive LocationType
  | kUnknown
  | kStack
  | kStackBP
  | kRegister
  | kRegisterFP
deriving DecidableEq

structure VarLocation where
  locType : LocationType
  offset : ℕ
  registers : List RegisterName
deriving DecidableEq

structure GolangRegABIModel where
  regSize : ℕ
  currentStackOffset : ℕ
  currentIntArgRegOffset : ℕ
  currentFpArgRegOffset : ℕ
  currentIntRetvalRegOffset : ℕ
  currentFpRetvalRegOffset : ℕ
  intArgRegisters : List RegisterName
  fpArgRegisters : List RegisterName
  intRetvalRegisters : List RegisterName
  fpRetvalRegisters : List RegisterName
deriving DecidableEq

def intRegisters : List RegisterName :=
  [.kRAX, .kRBX, .kRCX, .kRDI, .kRSI, .kR8, .kR9, .kR10, .kR11]

def fpRegisters : List RegisterName :=
  [.kXMM0, .kXMM1, .kXMM2, .kXMM3, .kXMM4, .kXMM5, .kXMM6, .kXMM7, .kXMM8, .kXMM9, .kXMM10, .kXMM11,
    .kXMM12, .kXMM13, .kXMM14]

def newGolangRegABIModel : GolangRegABIModel :=
  { regSize := 8, currentStackOffset := 0
    currentIntArgRegOffset := 0, currentFpArgRegOffset := 0
    currentIntRetvalRegOffset := 0, currentFpRetvalRegOffset := 0
    intArgRegisters := intRegisters, fpArgRegisters := fpRegisters
    intRetvalRegisters := intRegisters, fpRetvalRegisters := fpRegisters }

def intRoundUpDivide (x y : ℕ) : ℕ := (x + y - 1) / y

def snapUpToMultiple (x size : ℕ) : ℕ := intRoundUpDivide x size * size

/-! ## The location of an argument -/

/-- The pointers `regOffset` and `registers`: what they point to, and how it is written back. -/
structure RegisterCell where
  regOffset : ℕ
  registers : List RegisterName
  set : ℕ → List RegisterName → GolangRegABIModel

/-- The choice of the file, where an argument of floating point gets the integer registers. -/
def GolangRegABIModel.cell (model : GolangRegABIModel) (tc : TypeClass) (isRetArg : Bool) :
    Option RegisterCell :=
  match tc, isRetArg with
  | .kInteger, true =>
      some ⟨model.currentIntRetvalRegOffset, model.intRetvalRegisters, fun offset registers =>
        { model with currentIntRetvalRegOffset := offset, intRetvalRegisters := registers }⟩
  | .kInteger, false =>
      some ⟨model.currentIntArgRegOffset, model.intArgRegisters, fun offset registers =>
        { model with currentIntArgRegOffset := offset, intArgRegisters := registers }⟩
  | .kFloat, true =>
      some ⟨model.currentFpRetvalRegOffset, model.fpRetvalRegisters, fun offset registers =>
        { model with currentFpRetvalRegOffset := offset, fpRetvalRegisters := registers }⟩
  | .kFloat, false =>
      some ⟨model.currentFpArgRegOffset, model.intArgRegisters, fun offset registers =>
        { model with currentFpArgRegOffset := offset, intArgRegisters := registers }⟩
  | _, _ => none

def resolveLocationForReg (tc : TypeClass) (typeSize align numVars : ℕ) (isRetArg : Bool)
    (model : GolangRegABIModel) : Except String (VarLocation × GolangRegABIModel) :=
  match model.cell tc isRetArg with
  | none => .error "not implented"
  | some cell =>
      if numVars ≤ cell.registers.length then
        .ok ({ locType := if tc = .kInteger then .kRegister else .kRegisterFP
               offset := cell.regOffset
               registers := cell.registers.take numVars },
          cell.set (cell.regOffset + numVars * model.regSize) (cell.registers.drop numVars))
      else
        let offset := snapUpToMultiple model.currentStackOffset align
        .ok ({ locType := .kStack, offset := offset, registers := [] },
          { model with currentStackOffset := offset + typeSize })

/-- An argument or a return value, of one of the two classes that have registers. -/
structure Argument where
  tc : TypeClass
  typeSize : ℕ
  align : ℕ
  numVars : ℕ
  isRetArg : Bool
  tc_eq : tc = .kInteger ∨ tc = .kFloat
  align_eq : ∃ k, align = 2 ^ k

/-- The locations of the parameters of a function, in turn. -/
def resolveAll : List Argument → GolangRegABIModel →
    Except String (List (Argument × VarLocation) × GolangRegABIModel)
  | [], model => .ok ([], model)
  | a :: as, model => do
      let (loc, model) ← resolveLocationForReg a.tc a.typeSize a.align a.numVars a.isRetArg model
      let (rest, model) ← resolveAll as model
      .ok ((a, loc) :: rest, model)

/-! ## What the ABI says -/

/-- The class and the direction of an argument: each has a register file. -/
structure ArgKind where
  isFloat : Bool
  isRetArg : Bool
deriving DecidableEq

def Argument.kind (a : Argument) : ArgKind := ⟨a.tc = .kFloat, a.isRetArg⟩

/-- What is left of the file of a kind. -/
def GolangRegABIModel.file (model : GolangRegABIModel) : ArgKind → List RegisterName
  | ⟨false, false⟩ => model.intArgRegisters
  | ⟨true, false⟩ => model.fpArgRegisters
  | ⟨false, true⟩ => model.intRetvalRegisters
  | ⟨true, true⟩ => model.fpRetvalRegisters

/-- The location type of the registers of a kind. -/
def ArgKind.registerType (k : ArgKind) : LocationType :=
  if k.isFloat then .kRegisterFP else .kRegister

abbrev Located := Argument × VarLocation

/-- The registers that the arguments of a kind have, one behind the other. -/
def taken (k : ArgKind) (located : List Located) : List RegisterName :=
  (located.filter fun p => p.1.kind = k).flatMap fun p => p.2.registers

/-- The argument is on the stack just if too few registers of its kind are left behind the others, and
has one for each variable else. -/
def Placed (before : List Located) (p : Located) : Prop :=
  if (newGolangRegABIModel.file p.1.kind).length - (taken p.1.kind before).length < p.1.numVars then
    p.2.locType = .kStack ∧ p.2.registers = []
  else p.2.locType = p.1.kind.registerType ∧ p.2.registers.length = p.1.numVars

/-- Two arguments on the stack do not overlap. -/
def Apart (p q : Located) : Prop :=
  p.2.locType = .kStack → q.2.locType = .kStack →
    p.2.offset + p.1.typeSize ≤ q.2.offset ∨ q.2.offset + q.1.typeSize ≤ p.2.offset

/-- The locations follow the ABI. -/
structure Abides (located : List Located) : Prop where
  /-- Each kind has the first registers of its file, in the file's order. -/
  inOrder : ∀ k, taken k located <+: newGolangRegABIModel.file k
  once : located.Pairwise fun p q =>
    p.1.isRetArg = q.1.isRetArg → p.2.registers.Disjoint q.2.registers
  placed : ∀ before p after, located = before ++ p :: after → Placed before p
  aligned : ∀ p ∈ located, p.2.locType = .kStack → p.1.align ∣ p.2.offset
  apart : located.Pairwise Apart

/-- The file makes no difference: it is an argument of floating point without variables, or with more
of them than that has registers; or it is no such argument. -/
def Argument.Harmless (a : Argument) : Prop :=
  a.tc = .kFloat → a.isRetArg = false → a.numVars = 0 ∨ fpRegisters.length < a.numVars

/-! ## Stack slots -/

theorem dvd_snapUpToMultiple (x size : ℕ) : size ∣ snapUpToMultiple x size :=
  Nat.dvd_mul_left size _

theorem le_snapUpToMultiple {x size : ℕ} (h : 0 < size) : x ≤ snapUpToMultiple x size := by
  unfold snapUpToMultiple intRoundUpDivide
  have hdiv := Nat.lt_div_mul_add h (a := x + size - 1)
  omega

theorem Argument.align_pos (a : Argument) : 0 < a.align := by
  obtain ⟨k, hk⟩ := a.align_eq
  rw [hk]
  exact Nat.two_pow_pos k

/-! ## One argument -/

/-- What the ABI makes of an argument: it takes its registers off its file, or a slot off the stack. -/
inductive Follows (a : Argument) (model : GolangRegABIModel) (loc : VarLocation)
    (model' : GolangRegABIModel) : Prop
  | registers (hfits : a.numVars ≤ (model.file a.kind).length)
      (htype : loc.locType = a.kind.registerType)
      (hregisters : loc.registers = (model.file a.kind).take a.numVars)
      (hfile : ∀ k, model'.file k
        = if k = a.kind then (model.file a.kind).drop a.numVars else model.file k)
      (hstack : model'.currentStackOffset = model.currentStackOffset)
  | stack (hfew : (model.file a.kind).length < a.numVars)
      (htype : loc.locType = .kStack) (hregisters : loc.registers = [])
      (hoffset : loc.offset = snapUpToMultiple model.currentStackOffset a.align)
      (hfile : ∀ k, model'.file k = model.file k)
      (hstack : model'.currentStackOffset = loc.offset + a.typeSize)

/-- Whether the code takes an argument's registers off the file of its kind. -/
def Argument.OwnFile (a : Argument) : Prop := ¬(a.tc = .kFloat ∧ a.isRetArg = false)

theorem cell_file {a : Argument} (h : a.OwnFile) (model : GolangRegABIModel) :
    ∃ cell, model.cell a.tc a.isRetArg = some cell ∧ cell.registers = model.file a.kind
      ∧ ∀ offset registers,
        (∀ k, (cell.set offset registers).file k = if k = a.kind then registers else model.file k)
        ∧ (cell.set offset registers).currentStackOffset = model.currentStackOffset := by
  obtain ⟨tc, typeSize, align, numVars, isRetArg, htc, halign⟩ := a
  obtain rfl | rfl := htc <;> cases isRetArg
  · refine ⟨_, rfl, rfl, fun offset registers => ⟨?_, rfl⟩⟩
    rintro ⟨_ | _, _ | _⟩ <;> rfl
  · refine ⟨_, rfl, rfl, fun offset registers => ⟨?_, rfl⟩⟩
    rintro ⟨_ | _, _ | _⟩ <;> rfl
  · exact absurd ⟨rfl, rfl⟩ h
  · refine ⟨_, rfl, rfl, fun offset registers => ⟨?_, rfl⟩⟩
    rintro ⟨_ | _, _ | _⟩ <;> rfl

theorem registerType_eq (a : Argument) :
    (if a.tc = .kInteger then LocationType.kRegister else .kRegisterFP) = a.kind.registerType := by
  obtain ⟨tc, typeSize, align, numVars, isRetArg, htc, halign⟩ := a
  obtain rfl | rfl := htc <;> rfl

section Step

variable {a : Argument} {model : GolangRegABIModel}

/-- An argument that takes its registers off its own file. -/
theorem resolve_ownFile (h : a.OwnFile) (model : GolangRegABIModel) :
    ∃ loc model', resolveLocationForReg a.tc a.typeSize a.align a.numVars a.isRetArg model
        = .ok (loc, model') ∧ Follows a model loc model' := by
  obtain ⟨cell, hcell, hregisters, hset⟩ := cell_file h model
  unfold resolveLocationForReg
  rw [hcell]
  dsimp only
  rw [registerType_eq, hregisters]
  by_cases hfits : a.numVars ≤ (model.file a.kind).length
  · rw [if_pos hfits]
    exact ⟨_, _, rfl, .registers hfits rfl rfl (hset _ _).1 (hset _ _).2⟩
  · rw [if_neg hfits]
    exact ⟨_, _, rfl, .stack (not_le.mp hfits) rfl rfl rfl (fun k => rfl) rfl⟩

/-- An argument of floating point, of which the code asks the file of the integers. -/
theorem resolve_floatArg (htc : a.tc = .kFloat) (harg : a.isRetArg = false)
    (model : GolangRegABIModel) :
    resolveLocationForReg a.tc a.typeSize a.align a.numVars a.isRetArg model
      = if a.numVars ≤ model.intArgRegisters.length then
          .ok (⟨.kRegisterFP, model.currentFpArgRegOffset, model.intArgRegisters.take a.numVars⟩,
            { model with
              currentFpArgRegOffset := model.currentFpArgRegOffset + a.numVars * model.regSize
              intArgRegisters := model.intArgRegisters.drop a.numVars })
        else
          .ok (⟨.kStack, snapUpToMultiple model.currentStackOffset a.align, []⟩,
            { model with
              currentStackOffset :=
                snapUpToMultiple model.currentStackOffset a.align + a.typeSize }) := by
  rw [htc, harg]
  rfl

theorem kind_floatArg (htc : a.tc = .kFloat) (harg : a.isRetArg = false) : a.kind = ⟨true, false⟩ := by
  rw [Argument.kind, htc, harg]
  rfl

/-- Where the file makes no difference, the code does what the ABI says. -/
theorem resolve_follows (h : a.Harmless)
    (hint : model.intArgRegisters.length ≤ intRegisters.length)
    (hfp : model.fpArgRegisters.length ≤ fpRegisters.length) :
    ∃ loc model', resolveLocationForReg a.tc a.typeSize a.align a.numVars a.isRetArg model
        = .ok (loc, model') ∧ Follows a model loc model' := by
  by_cases hown : a.OwnFile
  · exact resolve_ownFile hown model
  · obtain ⟨htc, harg⟩ := not_not.mp hown
    have hkind := kind_floatArg htc harg
    have hfile : model.file a.kind = model.fpArgRegisters := by
      rw [hkind]
      rfl
    rw [resolve_floatArg htc harg]
    rcases h htc harg with hnone | hmany
    · rw [hnone, if_pos (Nat.zero_le _)]
      refine ⟨_, _, rfl, .registers (by omega) ?_ ?_ ?_ rfl⟩
      · rw [hkind]
        rfl
      · rw [hnone]
        rfl
      · rw [hnone, hkind]
        rintro ⟨_ | _, _ | _⟩ <;> rfl
    -- More than fit into the larger file do not fit into the other one either.
    · have hmore : intRegisters.length < fpRegisters.length := by decide
      rw [if_neg (by omega)]
      refine ⟨_, _, rfl, .stack ?_ rfl rfl rfl (fun k => rfl) rfl⟩
      rw [hfile]
      omega

end Step

/-! ## A sequence of arguments -/

/-- The arguments so far follow the ABI; what they have taken and what is left are the files, and
their slots are below the end of the stack. -/
structure Resolved (located : List Located) (model : GolangRegABIModel) : Prop where
  abides : Abides located
  files : ∀ k, taken k located ++ model.file k = newGolangRegABIModel.file k
  below : ∀ p ∈ located, p.2.locType = .kStack →
    p.2.offset + p.1.typeSize ≤ model.currentStackOffset

theorem taken_append (k : ArgKind) (xs ys : List Located) :
    taken k (xs ++ ys) = taken k xs ++ taken k ys := by
  rw [taken, List.filter_append, List.flatMap_append, taken, taken]

theorem taken_singleton (k : ArgKind) (p : Located) :
    taken k [p] = if p.1.kind = k then p.2.registers else [] := by
  unfold taken
  by_cases h : p.1.kind = k
  · rw [List.filter_cons_of_pos (by simpa using h), if_pos h]
    simp
  · rw [List.filter_cons_of_neg (by simpa using h), if_neg h]
    simp

theorem mem_taken {k : ArgKind} {located : List Located} {p : Located} (hp : p ∈ located)
    (hk : p.1.kind = k) {r : RegisterName} (hr : r ∈ p.2.registers) : r ∈ taken k located :=
  List.mem_flatMap.mpr ⟨p, List.mem_filter.mpr ⟨hp, by simpa using hk⟩, hr⟩

/-- The registers of a file are all different. -/
theorem file_nodup (k : ArgKind) : (newGolangRegABIModel.file k).Nodup := by
  rcases k with ⟨_ | _, _ | _⟩ <;> decide

theorem intRegisters_disjoint : intRegisters.Disjoint fpRegisters := by
  have h : ∀ r ∈ intRegisters, r ∉ fpRegisters := by decide
  exact fun r hint hfp => h r hint hfp

/-- The files of one direction have no register in common. -/
theorem file_disjoint {k k' : ArgKind} (hne : k ≠ k') (hret : k.isRetArg = k'.isRetArg) :
    (newGolangRegABIModel.file k).Disjoint (newGolangRegABIModel.file k') := by
  obtain ⟨isFloat, isRetArg⟩ := k
  obtain ⟨isFloat', isRetArg'⟩ := k'
  obtain rfl : isRetArg = isRetArg' := hret
  cases isFloat <;> cases isFloat'
  · exact absurd rfl hne
  · cases isRetArg <;> exact intRegisters_disjoint
  · cases isRetArg <;> exact intRegisters_disjoint.symm
  · exact absurd rfl hne

namespace Resolved

variable {located : List Located} {model model' : GolangRegABIModel} {a : Argument}
  {loc : VarLocation}

theorem nil : Resolved [] newGolangRegABIModel := by
  refine ⟨⟨fun k => List.nil_prefix, List.Pairwise.nil, ?_, by simp, List.Pairwise.nil⟩,
    fun k => rfl, by simp⟩
  intro before p after h
  simp at h

/-- How many registers of a kind are left. -/
theorem left_eq (h : Resolved located model) (k : ArgKind) :
    (newGolangRegABIModel.file k).length - (taken k located).length = (model.file k).length := by
  rw [← h.files k, List.length_append]
  omega

theorem length_file_le (h : Resolved located model) (k : ArgKind) :
    (model.file k).length ≤ (newGolangRegABIModel.file k).length := by
  rw [← h.files k, List.length_append]
  omega

/-- What an argument gets is not what another one has. -/
theorem disjoint_of_files (hfiles : ∀ k, taken k located ++ model.file k = newGolangRegABIModel.file k)
    {p : Located} (hp : p ∈ located) {k : ArgKind} (hret : p.1.isRetArg = k.isRetArg)
    {registers : List RegisterName} (hregisters : registers ⊆ model.file k) :
    p.2.registers.Disjoint registers := by
  intro r hr hr'
  have htaken := mem_taken hp rfl hr
  by_cases hk : p.1.kind = k
  · -- Within a file, what is taken is not left.
    have hnodup := file_nodup k
    rw [← hfiles k] at hnodup
    rw [hk] at htaken
    exact (List.nodup_append'.mp hnodup).2.2 htaken (hregisters hr')
  · have hmem : r ∈ newGolangRegABIModel.file p.1.kind := by
      rw [← hfiles]
      exact List.mem_append_left _ htaken
    have hmem' : r ∈ newGolangRegABIModel.file k := by
      rw [← hfiles]
      exact List.mem_append_right _ (hregisters hr')
    exact file_disjoint hk hret hmem hmem'

/-- Each argument behind the others is placed, if the last one is and the others are. -/
theorem placed_append {p : Located}
    (h : ∀ before q after, located = before ++ q :: after → Placed before q) (hp : Placed located p) :
    ∀ before q after, located ++ [p] = before ++ q :: after → Placed before q := by
  intro before q after heq
  rcases List.eq_nil_or_concat after with rfl | ⟨after, last, rfl⟩
  · obtain ⟨rfl, hq⟩ := List.append_inj' heq rfl
    obtain rfl := List.singleton_inj.mp hq
    exact hp
  · rw [List.concat_eq_append, ← List.cons_append, ← List.append_assoc] at heq
    obtain ⟨hlocated, -⟩ := List.append_inj' heq rfl
    exact h before q after hlocated

theorem pairwise_snoc {r : Located → Located → Prop} {p : Located} (h : located.Pairwise r)
    (hp : ∀ q ∈ located, r q p) : (located ++ [p]).Pairwise r := by
  refine List.pairwise_append.mpr ⟨h, List.pairwise_singleton _ _, ?_⟩
  intro q hq p' hp'
  rw [List.mem_singleton.mp hp']
  exact hp q hq

/-- One more argument that follows the ABI. -/
theorem step (h : Resolved located model) (hfollows : Follows a model loc model') :
    Resolved (located ++ [(a, loc)]) model' := by
  have hleft := h.left_eq a.kind
  cases hfollows with
  | registers hfits htype hregisters hfile hstack =>
      have hfiles : ∀ k, taken k (located ++ [(a, loc)]) ++ model'.file k
          = newGolangRegABIModel.file k := by
        intro k
        rw [taken_append, taken_singleton, hfile k]
        by_cases hk : k = a.kind
        · subst hk
          rw [if_pos rfl, if_pos rfl, hregisters, List.append_assoc, List.take_append_drop,
            h.files]
        · rw [if_neg (fun heq => hk heq.symm), if_neg hk, List.append_nil, h.files]
      have hnot : ¬ loc.locType = .kStack := by
        rw [htype, ArgKind.registerType]
        split_ifs <;> decide
      refine ⟨⟨fun k => ⟨_, hfiles k⟩, pairwise_snoc h.abides.once ?_,
        placed_append h.abides.placed ?_, ?_, pairwise_snoc h.abides.apart ?_⟩, hfiles, ?_⟩
      · intro p hp hret
        refine disjoint_of_files h.files hp (k := a.kind) hret ?_
        rw [hregisters]
        exact List.take_subset _ _
      · unfold Placed
        rw [hleft, if_neg (by dsimp only; omega)]
        refine ⟨htype, ?_⟩
        rw [hregisters, List.length_take]
        exact Nat.min_eq_left hfits
      · refine List.forall_mem_append.mpr ⟨h.abides.aligned, ?_⟩
        intro p hp
        rw [List.mem_singleton.mp hp]
        exact fun hstack' => absurd hstack' hnot
      · intro p hp _ hstack'
        exact absurd hstack' hnot
      · rw [hstack]
        refine List.forall_mem_append.mpr ⟨h.below, ?_⟩
        intro p hp
        rw [List.mem_singleton.mp hp]
        exact fun hstack' => absurd hstack' hnot
  | stack hfew htype hregisters hoffset hfile hstack =>
      have hfiles : ∀ k, taken k (located ++ [(a, loc)]) ++ model'.file k
          = newGolangRegABIModel.file k := by
        intro k
        rw [taken_append, taken_singleton, hfile k, hregisters, ite_self, List.append_nil, h.files]
      have hend : model.currentStackOffset ≤ loc.offset := by
        rw [hoffset]
        exact le_snapUpToMultiple a.align_pos
      refine ⟨⟨fun k => ⟨_, hfiles k⟩, pairwise_snoc h.abides.once ?_,
        placed_append h.abides.placed ?_, ?_, pairwise_snoc h.abides.apart ?_⟩, hfiles, ?_⟩
      · intro p _ _
        rw [hregisters]
        exact List.disjoint_nil_right _
      · unfold Placed
        rw [hleft, if_pos hfew]
        exact ⟨htype, hregisters⟩
      · refine List.forall_mem_append.mpr ⟨h.abides.aligned, ?_⟩
        intro p hp _
        rw [List.mem_singleton.mp hp, hoffset]
        exact dvd_snapUpToMultiple _ _
      · intro p hp hstack' _
        exact Or.inl ((h.below p hp hstack').trans hend)
      · rw [hstack]
        refine List.forall_mem_append.mpr ⟨fun p hp hstack' => ?_, ?_⟩
        · exact (h.below p hp hstack').trans (hend.trans (Nat.le_add_right _ _))
        · intro p hp _
          rw [List.mem_singleton.mp hp]

end Resolved

/-! ## A function's parameters -/

/-- Every argument has a location. -/
theorem resolve_ok (a : Argument) (model : GolangRegABIModel) : ∃ loc model',
    resolveLocationForReg a.tc a.typeSize a.align a.numVars a.isRetArg model
      = .ok (loc, model') := by
  by_cases hown : a.OwnFile
  · obtain ⟨loc, model', hok, -⟩ := resolve_ownFile hown model
    exact ⟨loc, model', hok⟩
  · obtain ⟨htc, harg⟩ := not_not.mp hown
    rw [resolve_floatArg htc harg]
    split_ifs
    · exact ⟨_, _, rfl⟩
    · exact ⟨_, _, rfl⟩

theorem resolveAll_cons {a : Argument} {as : List Argument} {model model₁ model' : GolangRegABIModel}
    {loc : VarLocation} {rest : List Located}
    (hfirst : resolveLocationForReg a.tc a.typeSize a.align a.numVars a.isRetArg model
      = .ok (loc, model₁)) (hrest : resolveAll as model₁ = .ok (rest, model')) :
    resolveAll (a :: as) model = .ok ((a, loc) :: rest, model') := by
  unfold resolveAll
  rw [hfirst, ok_bind]
  dsimp only
  rw [hrest, ok_bind]

theorem resolveAll_ok (as : List Argument) (model : GolangRegABIModel) :
    ∃ located model', resolveAll as model = .ok (located, model') ∧ located.map Prod.fst = as := by
  induction as generalizing model with
  | nil => exact ⟨[], model, rfl, rfl⟩
  | cons a as ih =>
      obtain ⟨loc, model₁, hfirst⟩ := resolve_ok a model
      obtain ⟨rest, model', hrest, hargs⟩ := ih model₁
      exact ⟨_, model', resolveAll_cons hfirst hrest, by rw [List.map_cons, hargs]⟩

theorem resolveAll_append {as bs : List Argument} {model model₁ model' : GolangRegABIModel}
    {located rest : List Located} (hfirst : resolveAll as model = .ok (located, model₁))
    (hrest : resolveAll bs model₁ = .ok (rest, model')) :
    resolveAll (as ++ bs) model = .ok (located ++ rest, model') := by
  induction as generalizing model located with
  | nil =>
      cases hfirst
      exact hrest
  | cons a as ih =>
      obtain ⟨loc, model₂, hok⟩ := resolve_ok a model
      obtain ⟨located', model₃, hok', -⟩ := resolveAll_ok as model₂
      rw [resolveAll_cons hok hok'] at hfirst
      cases hfirst
      exact resolveAll_cons hok (ih hok')

/-- Harmless arguments follow the ABI, in a sequence of any length. -/
theorem resolveAll_resolved {as : List Argument} (hharmless : ∀ a ∈ as, a.Harmless)
    {located : List Located} {model : GolangRegABIModel} (h : Resolved located model) :
    ∃ rest model', resolveAll as model = .ok (rest, model')
      ∧ Resolved (located ++ rest) model' := by
  induction as generalizing located model with
  | nil => exact ⟨[], model, rfl, by rwa [List.append_nil]⟩
  | cons a as ih =>
      obtain ⟨ha, has⟩ := List.forall_mem_cons.mp hharmless
      obtain ⟨loc, model₁, hfirst, hfollows⟩ := resolve_follows ha
        (h.length_file_le ⟨false, false⟩) (h.length_file_le ⟨true, false⟩)
      obtain ⟨rest, model', hrest, hresolved⟩ := ih has (h.step hfollows)
      refine ⟨_, model', resolveAll_cons hfirst hrest, ?_⟩
      rwa [List.append_assoc] at hresolved

/-- Harmless arguments of floating point take no registers. -/
theorem taken_floatArg {located : List Located} (h : Abides located)
    (hharmless : ∀ p ∈ located, p.1.Harmless) : taken ⟨true, false⟩ located = [] := by
  refine List.flatMap_eq_nil_iff.mpr (fun p hp => ?_)
  obtain ⟨hp, hkind⟩ := List.mem_filter.mp hp
  have hkind : p.1.kind = ⟨true, false⟩ := by simpa using hkind
  have htc : p.1.tc = .kFloat := by simpa [Argument.kind] using congrArg ArgKind.isFloat hkind
  obtain ⟨before, after, hsplit⟩ := List.append_of_mem hp
  have hplaced := h.placed before p after hsplit
  have hfile : (newGolangRegABIModel.file p.1.kind).length = fpRegisters.length := by
    rw [hkind]
    rfl
  unfold Placed at hplaced
  rw [hfile] at hplaced
  split_ifs at hplaced with hfew
  · exact hplaced.2
  · rcases hharmless p hp htc (congrArg ArgKind.isRetArg hkind) with hnone | hmany
    · rw [hnone] at hplaced
      exact List.eq_nil_of_length_eq_zero hplaced.2
    · omega

/-- The first argument that is not harmless does not follow the ABI, whatever comes behind it. -/
theorem not_abides {located after : List Located} {model model' : GolangRegABIModel} {a : Argument}
    {loc : VarLocation} (h : Resolved located model) (hharmless : ∀ p ∈ located, p.1.Harmless)
    (ha : ¬ a.Harmless)
    (hresolve : resolveLocationForReg a.tc a.typeSize a.align a.numVars a.isRetArg model
      = .ok (loc, model')) : ¬ Abides (located ++ (a, loc) :: after) := by
  intro habides
  unfold Argument.Harmless at ha
  simp only [not_forall, not_or, not_lt] at ha
  obtain ⟨htc, harg, hsome, hfew⟩ := ha
  have hkind := kind_floatArg htc harg
  -- No register of floating point is taken, so the ABI gives it some.
  have hplaced := habides.placed located (a, loc) after rfl
  unfold Placed at hplaced
  dsimp only at hplaced
  rw [hkind, taken_floatArg h.abides hharmless] at hplaced
  change (if fpRegisters.length < a.numVars then _ else _) at hplaced
  rw [if_neg (not_lt.mpr hfew)] at hplaced
  obtain ⟨-, hlength⟩ := hplaced
  obtain ⟨r, hr⟩ : ∃ r, r ∈ loc.registers :=
    List.exists_mem_of_length_pos (by rw [hlength]; omega)
  have hfp : r ∈ fpRegisters :=
    (habides.inOrder ⟨true, false⟩).subset
      (mem_taken (List.mem_append_right _ List.mem_cons_self) hkind hr)
  -- What the code gives it is a register of the integers, or none.
  rw [resolve_floatArg htc harg] at hresolve
  split_ifs at hresolve
  · cases hresolve
    have hint : r ∈ intRegisters := by
      change r ∈ newGolangRegABIModel.file ⟨false, false⟩
      rw [← h.files]
      exact List.mem_append_right _ (List.mem_of_mem_take hr)
    exact intRegisters_disjoint hint hfp
  · cases hresolve
    cases hr

/-- **The locations follow the ABI** just if no argument of floating point takes registers. For every
sequence of arguments and return values of the two classes, with any sizes, alignments and numbers of
variables: each kind has its registers in the order of its file and none twice, the stack is taken
just where too few are left, and the slots on it are aligned and apart, if and only if every argument
of floating point has no variables or more than there are registers for it. -/
theorem resolveAll_abides_iff (as : List Argument) :
    ∃ located model, resolveAll as newGolangRegABIModel = .ok (located, model)
      ∧ located.map Prod.fst = as ∧ (Abides located ↔ ∀ a ∈ as, a.Harmless) := by
  obtain ⟨located, model, hok, hargs⟩ := resolveAll_ok as newGolangRegABIModel
  refine ⟨located, model, hok, hargs, ?_, ?_⟩
  · intro habides
    by_contra hharmful
    -- Up to the first argument that is not harmless, all is well.
    classical
    obtain ⟨a, hfind⟩ : ∃ a, as.find? (fun a => ¬ a.Harmless) = some a := by
      rw [← Option.isSome_iff_exists, List.find?_isSome]
      simpa using hharmful
    obtain ⟨ha, before, after, hsplit, hbefore⟩ := List.find?_eq_some_iff_append.mp hfind
    have hharmless : ∀ b ∈ before, b.Harmless := fun b hb => by simpa using hbefore b hb
    obtain ⟨first, model₁, hfirst, hresolved⟩ := resolveAll_resolved hharmless Resolved.nil
    rw [List.nil_append] at hresolved
    obtain ⟨loc, model₂, hresolve⟩ := resolve_ok a model₁
    obtain ⟨rest, model₃, hrest, -⟩ := resolveAll_ok after model₂
    have hall := resolveAll_append hfirst (resolveAll_cons hresolve hrest)
    rw [← hsplit, hok] at hall
    obtain ⟨rfl, rfl⟩ := Prod.mk.inj (Except.ok.inj hall)
    obtain ⟨first', model₁', hfirst', hargs'⟩ := resolveAll_ok before newGolangRegABIModel
    rw [hfirst] at hfirst'
    obtain ⟨rfl, rfl⟩ := Prod.mk.inj (Except.ok.inj hfirst')
    refine not_abides hresolved (fun p hp => ?_) (by simpa using ha) hresolve habides
    refine hharmless p.1 ?_
    rw [← hargs']
    exact List.mem_map_of_mem hp
  · intro hharmless
    obtain ⟨located', model', hok', hresolved⟩ := resolveAll_resolved hharmless Resolved.nil
    rw [hok] at hok'
    obtain ⟨rfl, rfl⟩ := Prod.mk.inj (Except.ok.inj hok')
    exact hresolved.abides

/-- `func f(x int64, y float64)`. -/
def intAndFloat : List Argument :=
  [⟨.kInteger, 8, 8, 1, false, Or.inl rfl, 3, rfl⟩, ⟨.kFloat, 8, 8, 1, false, Or.inr rfl, 3, rfl⟩]

/-- Its second argument is said to be in `RBX`, and is in `XMM0`. -/
theorem float_in_integer_register : ∃ located model,
    resolveAll intAndFloat newGolangRegABIModel = .ok (located, model) ∧ ¬ Abides located := by
  refine ⟨_, _, rfl, fun habides => ?_⟩
  have hprefix := habides.inOrder ⟨true, false⟩
  revert hprefix
  decide

end Kyanos.Dwarf
