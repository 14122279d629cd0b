/-
Whether `ParseStream` takes as much as a MongoDB message says it has.

A message gives its length, each section in it gives one, and each document of a section. The
loops go on until a length has been reached or passed, and nothing looks at what has been read in
between. So the bytes that are read are the declared ones and what documents run past
their section and sections past the message (`sectionLoop_read`): none just when all of them end
together (`SectionsExact`). A document whose length is below zero is cut out with that length,
which panics (`SectionsPositive`), and so does a message to skip that is shorter than its own
header.

`parseStream_framed_iff` puts these together. The loops are bounded by a number of rounds in the
model, which is enough when it is above the length of the head: every document that is read takes a
byte at least, since the decoder for documents takes none of zero bytes.
-/
import Kyanos.Mongo

set_option autoImplicit false

open Trace

namespace Kyanos.Mongo

/-! ## The lengths -/

/-- The documents of a section, by their lengths: what is left of the section behind the last one,
and the decoder there. -/
def behindDocuments : ℕ → ℤ → BinaryDecoder → ℤ × BinaryDecoder
  | 0, remaining, d => (remaining, d)
  | n + 1, remaining, d =>
      if remaining ≤ 0 then (remaining, d)
      else
        behindDocuments n (remaining - d.lEndianBytesToInt) (d.taking d.lEndianBytesToInt.toNat)

/-- The documents of every section end with it, and the sections with the message. -/
def SectionsExact (rounds : ℕ) (frame : MongoDBFrame) : ℕ → ℤ → BinaryDecoder → Prop
  | n, allSectionsLength, d =>
      if allSectionsLength ≤ 0 then allSectionsLength = 0
      else
        match n with
        | 0 => True
        | n + 1 =>
            match sectionHead frame d with
            | .error _ => True
            | .ok (sec, remaining, d) =>
                (behindDocuments rounds remaining d).1 = 0
                  ∧ SectionsExact rounds frame n (allSectionsLength - (sec.length + kSectionKindSize))
                    (behindDocuments rounds remaining d).2

/-- No document of a section that is come to gives a length below zero. -/
def DocumentsPositive (bson : GoString → Option Document) (kind : ℕ) :
    ℕ → ℤ → MongoDBFrame → BinaryDecoder → Prop
  | n, remaining, frame, d =>
      if remaining ≤ 0 then True
      else
        match n with
        | 0 => True
        | n + 1 =>
            0 ≤ d.lEndianBytesToInt
              ∧ match extractDocument frame d d.lEndianBytesToInt with
                | .error _ => True
                | .ok (body, d') =>
                    match convertDocument bson kind frame body with
                    | none => True
                    | some (_, frame) => DocumentsPositive bson kind n
                        (intOf 32 (remaining - d.lEndianBytesToInt)) frame d'

/-- No document of the message that is come to does. -/
def SectionsPositive (bson : GoString → Option Document) (rounds : ℕ) :
    ℕ → ℤ → MongoDBFrame → BinaryDecoder → Prop
  | n, allSectionsLength, frame, d =>
      if allSectionsLength ≤ 0 then True
      else
        match n with
        | 0 => True
        | n + 1 =>
            match sectionHead frame d with
            | .error _ => True
            | .ok (sec, remaining, d) =>
                DocumentsPositive bson sec.kind rounds remaining frame d
                  ∧ match documentLoop bson rounds remaining sec frame d with
                    | .error _ => True
                    | .ok (sec, frame, d) => SectionsPositive bson rounds n
                        (intOf 32 (allSectionsLength - intOf 32 (sec.length + kSectionKindSize)))
                        { frame with sections := frame.sections ++ [sec] } d

def checksumBytes (frame : MongoDBFrame) : ℤ := if frame.checksumPresent then 4 else 0

/-- The length a message gives its sections. -/
def sectionsLength (frame : MongoDBFrame) : ℤ :=
  frame.length - kHeaderAndFlagSize - checksumBytes frame

/-- No document of the payload that is come to gives a length below zero. -/
def PayloadPositive (bson : GoString → Option Document) (rounds : ℕ) (frame : MongoDBFrame)
    (d : BinaryDecoder) : Prop :=
  match d.extractLE 4 with
  | .error _ => True
  | .ok (flagBits, d) =>
      if flagBits &&& 0xFFFC ≠ 0 then True
      else SectionsPositive bson rounds rounds (intOf 32 (sectionsLength (withFlags frame flagBits)))
        (withFlags frame flagBits) d

/-- The sections of the payload and their documents end with the message. -/
def PayloadExact (rounds : ℕ) (frame : MongoDBFrame) (d : BinaryDecoder) : Prop :=
  match d.extractLE 4 with
  | .error _ => True
  | .ok (flagBits, d) => SectionsExact rounds (withFlags frame flagBits) rounds
      (sectionsLength (withFlags frame flagBits)) d

/-! ## Documents -/

section Documents

variable {bson : GoString → Option Document} {frame frame' : MongoDBFrame}
  {d d' : BinaryDecoder} {sec sec' : MongoSection}

theorem extractDocument_eq_ok {documentLength : ℤ} {body : GoString}
    (h : extractDocument frame d documentLength = .ok (body, d')) :
    0 ≤ documentLength ∧ documentLength ≤ kMaxBSONObjSize ∧ documentLength ≤ d.str.length
      ∧ body = d.str.take documentLength.toNat ∧ d' = d.taking documentLength.toNat := by
  unfold extractDocument BinaryDecoder.extractString at h
  split_ifs at h with hmax hshort hneg
  cases h
  exact ⟨not_lt.mp hneg, not_lt.mp hmax, not_lt.mp hshort, rfl, rfl⟩

/-- **The documents of a section** take what it has left, and what they run past it. -/
theorem documentLoop_read {n : ℕ} {remaining : ℤ} (hremaining : remaining < 2 ^ 31)
    (h : documentLoop bson n remaining sec frame d = .ok (sec', frame', d')) :
    ∃ rest, behindDocuments n remaining d = (rest, d') ∧ rest ≤ 0
      ∧ d'.readBytes + rest = d.readBytes + remaining ∧ sec'.length = sec.length := by
  induction n generalizing remaining sec frame d with
  | zero =>
      rw [documentLoop] at h
      split_ifs at h with hdone
      cases h
      exact ⟨remaining, rfl, hdone, rfl, rfl⟩
  | succ n ih =>
      rw [documentLoop] at h
      rw [behindDocuments]
      split_ifs at h ⊢ with hdone
      · cases h
        exact ⟨remaining, rfl, hdone, rfl, rfl⟩
      · obtain ⟨⟨body, d₁⟩, hbody, h⟩ := bind_eq_ok.mp h
        obtain ⟨hlo, hhi, -, -, hd⟩ := extractDocument_eq_ok hbody
        dsimp only at h
        split at h
        · cases h
        · unfold kMaxBSONObjSize at hhi
          have hwhole : intOf 32 (remaining - d.lEndianBytesToInt)
              = remaining - d.lEndianBytesToInt := intOf_of_lt (by omega) (by omega)
          rw [hwhole] at h
          obtain ⟨rest, hbehind, hrest, hread, hlen⟩ := ih (by omega) h
          rw [hd] at hbehind hread
          refine ⟨rest, hbehind, hrest, ?_, hlen⟩
          rw [hread, BinaryDecoder.taking]
          dsimp only
          omega

/-- **The loop over documents aborts** just when it comes to one with a length below zero. -/
theorem documentLoop_aborts_iff (hbson : bson [] = none) {n : ℕ} {remaining : ℤ}
    (hn : d.str.length < n) :
    (∃ a, documentLoop bson n remaining sec frame d = .error (.abort a))
      ↔ ¬ DocumentsPositive bson sec.kind n remaining frame d := by
  induction n generalizing remaining sec frame d with
  | zero => omega
  | succ n ih =>
      rw [documentLoop, DocumentsPositive]
      split_ifs with hdone
      · simp
      rcases hbody : extractDocument frame d d.lEndianBytesToInt with stop | ⟨body, d₁⟩
      · -- no document: the length is too long, or below zero
        have hstop : (∃ a, stop = Stop.abort a) ↔ d.lEndianBytesToInt < 0 := by
          unfold extractDocument BinaryDecoder.extractString at hbody
          split_ifs at hbody with hmax hshort hneg
          · cases hbody
            unfold kMaxBSONObjSize at hmax
            simp only [reduceCtorEq, exists_false, false_iff]
            omega
          · cases hbody
            simp only [reduceCtorEq, exists_false, false_iff]
            omega
          · cases hbody
            exact iff_of_true ⟨_, rfl⟩ hneg
        dsimp only
        rw [hbody]
        change (∃ a, Except.error stop = Except.error (.abort a)) ↔ ¬ (_ ∧ True)
        simp only [Except.error.injEq, hstop, and_true, not_le]
      · obtain ⟨hlo, hhi, hfits, hbodyEq, hd⟩ := extractDocument_eq_ok hbody
        dsimp only
        rw [hbody]
        dsimp only [Bind.bind, Except.bind]
        rcases hconvert : convertDocument bson sec.kind frame body with _ | ⟨jsonDoc, frame₁⟩
        · simp [hlo]
        · -- a document has a byte at least
          have hpos : d.lEndianBytesToInt ≠ 0 := by
            intro hzero
            rw [hzero] at hbodyEq
            rw [hbodyEq] at hconvert
            simp [convertDocument, kSectionLengthSize, hbson] at hconvert
          have hshorter : d₁.str.length < n := by
            rw [hd, BinaryDecoder.taking]
            dsimp only
            rw [List.length_drop]
            omega
          dsimp only
          rw [ih hshorter]
          simp [hlo]

end Documents

/-! ## Sections -/

section Sections

variable {bson : GoString → Option Document} {frame frame' : MongoDBFrame}
  {d d' : BinaryDecoder} {sec sec' : MongoSection}

/-- The head of a section and its documents are as many bytes as it says, with its kind. -/
structure Headed (d d' : BinaryDecoder) (sec : MongoSection) (remaining : ℤ) : Prop where
  advances : d.Advances 1 d'
  whole : d'.readBytes + remaining = d.readBytes + (sec.length + kSectionKindSize)
  fits : remaining < 2 ^ 31
  length : 4 ≤ sec.length ∧ sec.length < 2 ^ 31

theorem extractLE_readBytes {k x : ℕ} (h : d.extractLE k = .ok (x, d')) :
    d'.readBytes = d.readBytes + k := by
  unfold BinaryDecoder.extractLE at h
  split_ifs at h
  cases h
  rfl

theorem extractLEInt_eq_ok {x : ℤ} (h : d.extractLEInt 4 = .ok (x, d')) :
    x = d.lEndianBytesToInt ∧ d'.readBytes = d.readBytes + 4 := by
  by_cases hlen : 4 ≤ d.str.length
  · rw [extractLEInt_eq hlen] at h
    cases h
    exact ⟨rfl, rfl⟩
  · unfold BinaryDecoder.extractLEInt BinaryDecoder.extractLE at h
    rw [if_pos (by omega)] at h
    cases h

theorem extractStringUntil_readBytes {sentinel str : List UInt8}
    (h : d.extractStringUntil sentinel = .ok (str, d')) :
    d'.readBytes = d.readBytes + str.length + sentinel.length := by
  unfold BinaryDecoder.extractStringUntil at h
  rcases hidx : index d.str sentinel with _ | idx
  · rw [hidx] at h
    cases h
  · rw [hidx] at h
    cases h
    have hle := BinaryDecoder.index_le hidx
    rw [BinaryDecoder.taking, List.length_take, Nat.min_eq_left (by omega)]
    push_cast
    omega

theorem sectionHead_headed {remaining : ℤ}
    (h : sectionHead frame d = .ok (sec, remaining, d')) : Headed d d' sec remaining := by
  obtain ⟨⟨kind, d₁⟩, hkind, h⟩ := bind_eq_ok.mp h
  have hkind := orInvalid_eq_ok hkind
  have h₁ := BinaryDecoder.extractLE_advances hkind
  have hread₁ := extractLE_readBytes hkind
  dsimp only at h
  unfold kSectionLengthSize at h
  split_ifs at h with hzero hlow hone
  · cases h
    have hhi := (lEndianBytesToInt_bounds d').2
    refine ⟨h₁, ?_, hhi, not_lt.mp hlow, hhi⟩
    unfold kSectionKindSize
    dsimp only
    omega
  · obtain ⟨⟨length, d₂⟩, hlength, h⟩ := bind_eq_ok.mp h
    have hlength := orInvalid_eq_ok hlength
    have h₂ := BinaryDecoder.extractLEInt_advances hlength
    obtain ⟨hlength, hread₂⟩ := extractLEInt_eq_ok hlength
    have hhi := (lEndianBytesToInt_bounds d₁).2
    rw [← hlength] at hhi
    dsimp only at h
    split_ifs at h with hlow
    obtain ⟨⟨identifier, d₃⟩, hidentifier, h⟩ := bind_eq_ok.mp h
    have hidentifier := orInvalid_eq_ok hidentifier
    have h₃ := BinaryDecoder.extractStringUntil_advances hidentifier
    have hread₃ := extractStringUntil_readBytes hidentifier
    dsimp only at h
    split_ifs at h with hknown
    cases h
    -- the three names are short
    have hshort : identifier.length ≤ 9 := by
      rw [List.contains_iff_mem] at hknown
      simp only [List.mem_cons, List.not_mem_nil, or_false] at hknown
      rcases hknown with rfl | rfl | rfl <;> decide
    have hident : intOf 32 identifier.length = identifier.length :=
      intOf_of_lt (by omega) (by omega)
    have hlow := not_lt.mp hlow
    unfold kSectionKindSize
    rw [hident]
    have hrest : intOf 32 (length - 4 - identifier.length - 1)
        = length - 4 - identifier.length - 1 := intOf_of_lt (by omega) (by omega)
    refine ⟨((h₁.trans h₂).trans h₃).weaken (by simp), ?_, ?_, hlow, hhi⟩
    · rw [hrest]
      unfold kSectionKindSize
      simp only [List.length_singleton] at hread₃
      dsimp only
      omega
    · rw [hrest]
      omega

theorem sectionHead_error {stop : Stop} (h : sectionHead frame d = .error stop) :
    ∃ frame' d', stop = .invalid frame' d' := by
  have horInvalid : ∀ {α : Type} {d : BinaryDecoder} {x : Except DecodeError α} {stop : Stop},
      orInvalid frame d x = .error stop → ∃ frame' d', stop = .invalid frame' d' := by
    intro α d x stop h
    rcases x with e | a
    · cases h
      exact ⟨_, _, rfl⟩
    · cases h
  unfold sectionHead at h
  rcases hkind : orInvalid frame d (d.extractLE 1) with stop₁ | ⟨kind, d₁⟩
  · rw [hkind] at h
    cases h
    exact horInvalid hkind
  rw [hkind, ok_bind] at h
  dsimp only at h
  split_ifs at h
  · cases h
    exact ⟨_, _, rfl⟩
  · rcases hlength : orInvalid frame d₁ (d₁.extractLEInt 4) with stop₁ | ⟨length, d₂⟩
    · rw [hlength] at h
      cases h
      exact horInvalid hlength
    rw [hlength, ok_bind] at h
    dsimp only at h
    split_ifs at h
    · cases h
      exact ⟨_, _, rfl⟩
    · rcases hidentifier : orInvalid frame d₂ (d₂.extractStringUntil [0]) with
        stop₁ | ⟨identifier, d₃⟩
      · rw [hidentifier] at h
        cases h
        exact horInvalid hidentifier
      rw [hidentifier, ok_bind] at h
      dsimp only at h
      split_ifs at h
      cases h
      exact ⟨_, _, rfl⟩
  · cases h
    exact ⟨_, _, rfl⟩

/-- The frame is only there to be given back. -/
theorem sectionHead_frame {frame' : MongoDBFrame} {x : MongoSection × ℤ × BinaryDecoder}
    (h : sectionHead frame d = .ok x) : sectionHead frame' d = .ok x := by
  have horInvalid : ∀ {α : Type} {d : BinaryDecoder} {x : Except DecodeError α} {a : α},
      orInvalid frame d x = .ok a → orInvalid frame' d x = .ok a := by
    intro α d x a h
    rw [orInvalid_eq_ok h]
    rfl
  unfold sectionHead at h ⊢
  obtain ⟨⟨kind, d₁⟩, hkind, h⟩ := bind_eq_ok.mp h
  rw [horInvalid hkind, ok_bind]
  dsimp only at h ⊢
  split_ifs at h ⊢
  · exact h
  · obtain ⟨⟨length, d₂⟩, hlength, h⟩ := bind_eq_ok.mp h
    rw [horInvalid hlength, ok_bind]
    dsimp only at h ⊢
    split_ifs at h ⊢
    obtain ⟨⟨identifier, d₃⟩, hidentifier, h⟩ := bind_eq_ok.mp h
    rw [horInvalid hidentifier, ok_bind]
    dsimp only at h ⊢
    split_ifs at h ⊢
    exact h

/-- **The sections** take the length they are given, and what documents and sections run past it. -/
theorem sectionLoop_read {rounds n : ℕ} {remaining : ℤ} {frame₀ : MongoDBFrame}
    (hlo : -2 ^ 31 ≤ remaining) (hhi : remaining < 2 ^ 31)
    (h : sectionLoop bson rounds n remaining frame d = .ok (frame', d')) :
    ∃ past, 0 ≤ past ∧ d'.readBytes = d.readBytes + remaining + past
      ∧ (past = 0 ↔ SectionsExact rounds frame₀ n remaining d) := by
  induction n generalizing remaining frame d with
  | zero =>
      rw [sectionLoop] at h
      split_ifs at h with hdone
      cases h
      refine ⟨-remaining, by omega, by omega, ?_⟩
      rw [SectionsExact, if_pos hdone]
      exact neg_eq_zero
  | succ n ih =>
      rw [sectionLoop] at h
      rw [SectionsExact]
      split_ifs at h ⊢ with hdone
      · cases h
        exact ⟨-remaining, by omega, by omega, neg_eq_zero⟩
      · obtain ⟨⟨sec₁, remaining₁, d₁⟩, hhead, h⟩ := bind_eq_ok.mp h
        obtain ⟨⟨sec₂, frame₂, d₂⟩, hdocuments, h⟩ := bind_eq_ok.mp h
        have hheaded := sectionHead_headed hhead
        obtain ⟨rest, hbehind, hrest, hread, hlen⟩ := documentLoop_read hheaded.fits hdocuments
        obtain ⟨hshort, hlong⟩ := hheaded.length
        have hwhole := hheaded.whole
        -- two differences of 32 bits are one
        have hleft : intOf 32 (remaining - intOf 32 (sec₂.length + kSectionKindSize))
            = remaining - (sec₁.length + kSectionKindSize) := by
          rw [intOf, intOf, Int.sub_bmod_bmod, hlen]
          unfold kSectionKindSize
          exact intOf_of_lt (by omega) (by omega)
        dsimp only at h
        rw [hleft] at h
        obtain ⟨past, hpast, hreads, hiff⟩ := ih (by unfold kSectionKindSize; omega)
          (by unfold kSectionKindSize; omega) h
        rw [sectionHead_frame hhead]
        dsimp only
        rw [hbehind]
        dsimp only
        rw [← hiff]
        refine ⟨past - rest, by omega, by omega, ?_⟩
        omega

/-- **The loop over sections aborts** just when it comes to a document with a length below zero. -/
theorem sectionLoop_aborts_iff (hbson : bson [] = none) {rounds n : ℕ} {remaining : ℤ}
    (hn : d.str.length < n) (hrounds : d.str.length < rounds) :
    (∃ a, sectionLoop bson rounds n remaining frame d = .error (.abort a))
      ↔ ¬ SectionsPositive bson rounds n remaining frame d := by
  induction n generalizing remaining frame d with
  | zero => omega
  | succ n ih =>
      rw [sectionLoop, SectionsPositive]
      split_ifs with hdone
      · simp
      rcases hhead : sectionHead frame d with stop | ⟨sec, remaining₁, d₁⟩
      · obtain ⟨frame', d', rfl⟩ := sectionHead_error hhead
        simp [Bind.bind, Except.bind]
      have hshorter : d₁.str.length < d.str.length := by
        have hadvances := (sectionHead_headed hhead).advances
        have hcounted := hadvances.counted
        have hmoved := hadvances.moved
        omega
      have hdocuments : (∃ a, documentLoop bson rounds remaining₁ sec frame d₁ = .error (.abort a))
          ↔ ¬ DocumentsPositive bson sec.kind rounds remaining₁ frame d₁ :=
        documentLoop_aborts_iff hbson (hshorter.trans hrounds)
      rw [ok_bind]
      dsimp only
      rcases hloop : documentLoop bson rounds remaining₁ sec frame d₁ with
        stop | ⟨sec₂, frame₂, d₂⟩
      · rw [hloop] at hdocuments
        dsimp only
        rw [and_true, ← hdocuments]
        simp [Bind.bind, Except.bind]
      · rw [hloop] at hdocuments
        have hpositive : DocumentsPositive bson sec.kind rounds remaining₁ frame d₁ := by
          by_contra hnot
          obtain ⟨a, ha⟩ := hdocuments.mpr hnot
          cases ha
        have hadvances := documentLoop_advances hloop
        have hcounted := hadvances.counted
        have hmoved := hadvances.moved
        rw [ok_bind]
        dsimp only
        rw [ih (by omega) (by omega)]
        simp [hpositive]

end Sections

/-! ## Messages -/

section Messages

variable {bson : GoString → Option Document} {frame frame' : MongoDBFrame}
  {d d' : BinaryDecoder}

theorem checksumBytes_bounds (frame : MongoDBFrame) :
    0 ≤ checksumBytes frame ∧ checksumBytes frame ≤ 4 := by
  unfold checksumBytes
  split_ifs
  · omega
  · omega

theorem opMsgType_checksum {document : Document} (h : opMsgType frame document = some frame') :
    frame'.checksumPresent = frame.checksumPresent := by
  unfold opMsgType at h
  rcases hok : document.ok with _ | field
  · rw [hok] at h
    cases h
  rw [hok] at h
  dsimp only at h
  split_ifs at h
  · cases h
    rfl
  · cases h
    rfl
  · rcases field with _ | _ | t
    · cases h
    · cases h
      rfl
    · cases h
      rfl

theorem convertDocument_checksum {kind : ℕ} {body json : GoString}
    (h : convertDocument bson kind frame body = some (json, frame')) :
    frame'.checksumPresent = frame.checksumPresent := by
  unfold convertDocument at h
  split at h
  · cases h
    rfl
  rcases hbson : bson body with _ | document
  · rw [hbson] at h
    cases h
  rw [hbson] at h
  dsimp only at h
  split at h
  · obtain ⟨frame₁, htype, heq⟩ := Option.map_eq_some_iff.mp h
    cases heq
    exact opMsgType_checksum htype
  · cases h
    rfl

theorem documentLoop_checksum {n : ℕ} {remaining : ℤ} {sec sec' : MongoSection}
    (h : documentLoop bson n remaining sec frame d = .ok (sec', frame', d')) :
    frame'.checksumPresent = frame.checksumPresent := by
  induction n generalizing remaining sec frame d with
  | zero =>
      rw [documentLoop] at h
      split_ifs at h
      cases h
      rfl
  | succ n ih =>
      rw [documentLoop] at h
      split_ifs at h
      · cases h
        rfl
      · obtain ⟨⟨body, d₁⟩, hbody, h⟩ := bind_eq_ok.mp h
        dsimp only at h
        split at h
        · cases h
        · rename_i hconvert
          rw [ih h, convertDocument_checksum hconvert]

theorem sectionLoop_checksum {rounds n : ℕ} {remaining : ℤ}
    (h : sectionLoop bson rounds n remaining frame d = .ok (frame', d')) :
    frame'.checksumPresent = frame.checksumPresent := by
  induction n generalizing remaining frame d with
  | zero =>
      rw [sectionLoop] at h
      split_ifs at h
      cases h
      rfl
  | succ n ih =>
      rw [sectionLoop] at h
      split_ifs at h
      · cases h
        rfl
      · obtain ⟨⟨sec₁, remaining₁, d₁⟩, hhead, h⟩ := bind_eq_ok.mp h
        obtain ⟨⟨sec₂, frame₂, d₂⟩, hdocuments, h⟩ := bind_eq_ok.mp h
        have hsame := documentLoop_checksum hdocuments
        rw [ih h]
        exact hsame

theorem extractChecksum_readBytes (h : extractChecksum frame d = .ok (frame', d')) :
    d'.readBytes = d.readBytes + checksumBytes frame := by
  unfold extractChecksum at h
  unfold checksumBytes
  split_ifs at h ⊢
  · obtain ⟨⟨checksum, d₁⟩, hchecksum, h⟩ := bind_eq_ok.mp h
    cases h
    exact extractLE_readBytes (orInvalid_eq_ok hchecksum)
  · cases h
    exact (Int.add_zero _).symm

/-- **A valid payload** is read to the end of the message just when its sections and their
documents end there. -/
theorem processOpMsg_read_iff {rounds : ℕ} (hlo : 16 ≤ frame.length) (hhi : frame.length < 2 ^ 31)
    (h : processOpMsg bson rounds frame d = .ok (frame', d')) :
    d'.readBytes = d.readBytes + (frame.length - kHeaderLength) ↔ PayloadExact rounds frame d := by
  obtain ⟨⟨flagBits, d₁⟩, hflags, h⟩ := bind_eq_ok.mp h
  have hflags := orInvalid_eq_ok hflags
  have hread₁ := extractLE_readBytes hflags
  rw [PayloadExact, hflags]
  dsimp only at h ⊢
  split at h
  · cases h
  obtain ⟨⟨frame₂, d₂⟩, hsections, h⟩ := bind_eq_ok.mp h
  have hread₂ : d'.readBytes = d₂.readBytes + checksumBytes frame₂ := extractChecksum_readBytes h
  have hsame : checksumBytes frame₂ = checksumBytes (withFlags frame flagBits) := by
    unfold checksumBytes
    rw [sectionLoop_checksum hsections]
  obtain ⟨hcsLo, hcsHi⟩ := checksumBytes_bounds (withFlags frame flagBits)
  have hwhole : intOf 32 (sectionsLength (withFlags frame flagBits))
      = sectionsLength (withFlags frame flagBits) := by
    unfold sectionsLength kHeaderAndFlagSize
    change intOf 32 (frame.length - 20 - _) = frame.length - 20 - _
    exact intOf_of_lt (by omega) (by omega)
  have hlength : sectionsLength (withFlags frame flagBits)
      = frame.length - 20 - checksumBytes (withFlags frame flagBits) := rfl
  change sectionLoop bson rounds rounds (intOf 32 (sectionsLength (withFlags frame flagBits)))
    (withFlags frame flagBits) d₁ = _ at hsections
  rw [hwhole] at hsections
  obtain ⟨past, hpast, hread, hexact⟩ := sectionLoop_read (by omega) (by omega) hsections
  rw [← hexact]
  unfold kHeaderLength
  omega

/-- **A payload aborts** just when it comes to a document with a length below zero. -/
theorem processOpMsg_aborts_iff (hbson : bson [] = none) {rounds : ℕ}
    (hrounds : d.str.length < rounds) :
    (∃ a, processOpMsg bson rounds frame d = .error (.abort a))
      ↔ ¬ PayloadPositive bson rounds frame d := by
  unfold processOpMsg PayloadPositive
  rcases hflags : d.extractLE 4 with e | ⟨flagBits, d₁⟩
  · simp [orInvalid, Bind.bind, Except.bind]
  have hadvances := BinaryDecoder.extractLE_advances hflags
  have hshorter : d₁.str.length < rounds := by
    have hcounted := hadvances.counted
    have hmoved := hadvances.moved
    omega
  have hsections : (∃ a, sectionLoop bson rounds rounds
      (intOf 32 (sectionsLength (withFlags frame flagBits))) (withFlags frame flagBits) d₁
        = .error (.abort a)) ↔ _ := sectionLoop_aborts_iff hbson hshorter hshorter
  rw [orInvalid, ok_bind]
  dsimp only
  split
  · simp
  rw [← hsections]
  change (∃ a, (sectionLoop bson rounds rounds
    (intOf 32 (sectionsLength (withFlags frame flagBits))) (withFlags frame flagBits) d₁
      >>= _) = _) ↔ _
  rcases sectionLoop bson rounds rounds (intOf 32 (sectionsLength (withFlags frame flagBits)))
    (withFlags frame flagBits) d₁ with stop | ⟨frame₂, d₂⟩
  · simp [Bind.bind, Except.bind]
  · -- the checksum is there, or the frame is not valid
    rw [ok_bind]
    dsimp only
    unfold extractChecksum
    split
    · rcases d₂.extractLE 4 with e | ⟨checksum, d₃⟩
      · simp [orInvalid, Bind.bind, Except.bind]
      · simp [orInvalid, Bind.bind, Except.bind]
    · simp

end Messages

/-! ## `ParseStream` -/

/-- The length a message declares. -/
def declared (buf : List UInt8) : ℤ := (BinaryDecoder.new buf).lEndianBytesToInt

def opCode (buf : List UInt8) : ℤ := ((BinaryDecoder.new buf).taking 12).lEndianBytesToInt

/-- The frame of a head, before its payload is decoded. -/
def headFrame (buf : List UInt8) (messageType : MessageType) : MongoDBFrame :=
  frameOf ⟨declared buf, ((BinaryDecoder.new buf).taking 4).lEndianBytesToInt,
    ((BinaryDecoder.new buf).taking 8).lEndianBytesToInt, opCode buf⟩ messageType

/-- There is a header, and the head is as long as it says. -/
def Arrived (buf : List UInt8) : Prop := 16 ≤ buf.length ∧ declared buf ≤ intOf 32 buf.length

/-- `ParseStream` returns, and what it takes off the head is the message as it declares itself. -/
def Framed (bson : GoString → Option Document) (rounds : ℕ) (m : State) (sb : StreamBuffer)
    (head : Buffer) (messageType : MessageType) : Prop :=
  ∃ r m', parseStream bson rounds m sb messageType = .ok (r, m')
    ∧ (r.parseState = .success ∨ r.parseState = .ignore →
      16 ≤ declared head.buf ∧ r.readBytes = declared head.buf)

/-- The lengths of a message agree: one to skip is as long as its header; of one to decode no
document that is come to has a length below zero, and if the payload is valid, the documents end with
their sections and the sections with the message. -/
structure Consistent (bson : GoString → Option Document) (rounds : ℕ) (sb : StreamBuffer)
    (head : Buffer) (messageType : MessageType) : Prop where
  skipped : opCode head.buf ∈ opCodes → opCode head.buf ≠ kOPMsg → 16 ≤ declared head.buf
  positive : opCode head.buf = kOPMsg →
    PayloadPositive bson rounds (headFrame head.buf messageType)
      ((BinaryDecoder.new head.buf).taking 16)
  exact : opCode head.buf = kOPMsg →
    (∃ x, processOpMsg bson rounds (headFrame head.buf messageType)
      ((BinaryDecoder.new head.buf).taking 16) = .ok x) →
    (sb.findTimestampBySeq head.leftBoundary).isSome →
    16 ≤ declared head.buf ∧ PayloadExact rounds (headFrame head.buf messageType)
      ((BinaryDecoder.new head.buf).taking 16)

section ParseStream

variable {bson : GoString → Option Document} {rounds : ℕ} {m : State} {sb : StreamBuffer}
  {head : Buffer} {messageType : MessageType}

/-- What `ParseStream` does with a message to decode. -/
theorem parseStream_decode (hhead : sb.head = some head)
    (htyped : messageType = .request ∨ messageType = .response) (harrived : Arrived head.buf)
    (hcode : opCode head.buf = kOPMsg) :
    parseStream bson rounds m sb messageType
      = match processOpMsg bson rounds (headFrame head.buf messageType)
            ((BinaryDecoder.new head.buf).taking 16) with
        | .error (.abort a) => .error a
        | .error (.invalid frame d) => .ok (finishFrame m sb head messageType .invalid frame d)
        | .ok (frame, d) => .ok (finishFrame m sb head messageType .success frame d) := by
  obtain ⟨hlen, hcomplete⟩ := harrived
  have hnot : ¬ (messageType ≠ .request ∧ messageType ≠ .response) :=
    fun h => htyped.elim h.1 h.2
  have hsize : ¬ (BinaryDecoder.new head.buf).getSize < kHeaderLength := by
    unfold BinaryDecoder.getSize BinaryDecoder.new kHeaderLength
    dsimp only
    omega
  have hfull : ¬ intOf 32 (BinaryDecoder.new head.buf).getSize
      < (BinaryDecoder.new head.buf).lEndianBytesToInt := not_lt.mpr hcomplete
  have hcode' : ((BinaryDecoder.new head.buf).taking 12).lEndianBytesToInt = kOPMsg := hcode
  unfold parseStream
  rw [if_neg hnot, hhead]
  dsimp only
  rw [if_neg hsize, if_neg hfull, extractHeader_eq hlen]
  dsimp only
  rw [if_neg (by rw [hcode']; decide), if_neg (not_not.mpr hcode')]
  rfl

/-- A message that has not arrived is waited for, and one of no known kind is `Invalid`. -/
theorem parseStream_other (hhead : sb.head = some head)
    (h : ¬ Arrived head.buf ∨ opCode head.buf ∉ opCodes) :
    ∃ r, parseStream bson rounds m sb messageType = .ok (r, m)
      ∧ ¬ (r.parseState = .success ∨ r.parseState = .ignore) := by
  unfold parseStream
  rw [hhead]
  dsimp only
  split
  · exact ⟨_, rfl, by simp⟩
  split
  · exact ⟨_, rfl, by simp⟩
  rename_i hsize
  split
  · exact ⟨_, rfl, by simp⟩
  rename_i hfull
  have hlen : 16 ≤ head.buf.length := by
    unfold BinaryDecoder.getSize BinaryDecoder.new kHeaderLength at hsize
    dsimp only at hsize
    omega
  have hcode := h.resolve_left (not_not.mpr ⟨hlen, not_lt.mp hfull⟩)
  rw [extractHeader_eq hlen]
  dsimp only
  rw [if_pos (by simpa [opCode] using hcode)]
  exact ⟨_, rfl, by simp⟩

theorem intOf_le {n : ℕ} : intOf 32 n ≤ n := by
  unfold intOf
  rw [Int.bmod_def]
  push_cast
  split_ifs
  · omega
  · omega

theorem framed_iff_of_ok {x : ParseResult MongoDBFrame × State}
    (h : parseStream bson rounds m sb messageType = .ok x) :
    Framed bson rounds m sb head messageType
      ↔ (x.1.parseState = .success ∨ x.1.parseState = .ignore →
        16 ≤ declared head.buf ∧ x.1.readBytes = declared head.buf) := by
  constructor
  · rintro ⟨r, m', hparse, hframed⟩
    rw [h] at hparse
    cases hparse
    exact hframed
  · intro hframed
    exact ⟨x.1, x.2, h, hframed⟩

/-- A message to skip is framed just when it is as long as its header. -/
theorem framed_skip_iff (hhead : sb.head = some head)
    (htyped : messageType = .request ∨ messageType = .response) (harrived : Arrived head.buf)
    (hknown : opCode head.buf ∈ opCodes) (hskip : opCode head.buf ≠ kOPMsg) :
    Framed bson rounds m sb head messageType ↔ 16 ≤ declared head.buf := by
  have hparse := @parseStream_skip bson rounds m sb head messageType hhead htyped harrived.1
    ⟨hknown, hskip⟩ harrived.2
  have hcomplete := harrived.2
  have hle := @intOf_le head.buf.length
  have hhi := (lEndianBytesToInt_bounds (BinaryDecoder.new head.buf)).2
  have hstr : ((BinaryDecoder.new head.buf).taking 16).str.length = head.buf.length - 16 :=
    List.length_drop
  constructor
  · rintro ⟨r, m', h, hframed⟩
    rw [hparse] at h
    split at h
    · cases h
    · cases h
      exact (hframed (Or.inr rfl)).1
  · intro hlo
    unfold declared at hlo hcomplete
    obtain ⟨d', hcut⟩ := (removePrefix_eq_ok_iff (d := (BinaryDecoder.new head.buf).taking 16)
      (intOf 32 ((BinaryDecoder.new head.buf).lEndianBytesToInt - 16))).mpr (by
        rw [intOf_of_lt (by omega) (by omega), hstr]
        omega)
    rw [hcut] at hparse
    exact ⟨_, _, hparse, fun _ => ⟨hlo, rfl⟩⟩

/-- What is framed of a message to decode. -/
theorem framed_decode_iff (hbson : bson [] = none) (hhead : sb.head = some head)
    (htyped : messageType = .request ∨ messageType = .response)
    (hrounds : head.buf.length < rounds) (harrived : Arrived head.buf)
    (hcode : opCode head.buf = kOPMsg) :
    Framed bson rounds m sb head messageType
      ↔ PayloadPositive bson rounds (headFrame head.buf messageType)
          ((BinaryDecoder.new head.buf).taking 16)
        ∧ ((∃ x, processOpMsg bson rounds (headFrame head.buf messageType)
            ((BinaryDecoder.new head.buf).taking 16) = .ok x) →
          (sb.findTimestampBySeq head.leftBoundary).isSome →
          16 ≤ declared head.buf ∧ PayloadExact rounds (headFrame head.buf messageType)
            ((BinaryDecoder.new head.buf).taking 16)) := by
  have hparse := @parseStream_decode bson rounds m sb head messageType hhead htyped harrived hcode
  have hhi := (lEndianBytesToInt_bounds (BinaryDecoder.new head.buf)).2
  have hshorter : ((BinaryDecoder.new head.buf).taking 16).str.length < rounds := by
    have hdrop : ((BinaryDecoder.new head.buf).taking 16).str.length = head.buf.length - 16 :=
      List.length_drop
    omega
  have haborts : (∃ a, processOpMsg bson rounds (headFrame head.buf messageType)
      ((BinaryDecoder.new head.buf).taking 16) = .error (.abort a)) ↔ _ :=
    processOpMsg_aborts_iff hbson hshorter
  have hpositive : (∀ a, processOpMsg bson rounds (headFrame head.buf messageType)
      ((BinaryDecoder.new head.buf).taking 16) ≠ .error (.abort a)) →
      PayloadPositive bson rounds (headFrame head.buf messageType)
        ((BinaryDecoder.new head.buf).taking 16) := by
    intro hno
    by_contra hnot
    obtain ⟨a, ha⟩ := haborts.mpr hnot
    exact hno a ha
  rcases hpayload : processOpMsg bson rounds (headFrame head.buf messageType)
    ((BinaryDecoder.new head.buf).taking 16) with (a | ⟨frame', d'⟩) | ⟨frame', d'⟩
  · -- a document with a length below zero
    refine iff_of_false ?_ (fun h => haborts.mp ⟨a, hpayload⟩ h.1)
    rintro ⟨r, m', h, -⟩
    rw [hparse, hpayload] at h
    cases h
  · -- the payload is not valid
    rw [hpayload] at hparse hpositive
    rw [framed_iff_of_ok hparse]
    refine iff_of_true ?_ ⟨hpositive (by simp), ?_⟩
    · intro hstate
      rcases finishFrame_result m sb head messageType .invalid frame' d' with hnone | ⟨hsame, -⟩
      · rw [hnone] at hstate
        simp at hstate
      · rw [hsame] at hstate
        simp at hstate
    · rintro ⟨x, hx⟩
      cases hx
  · have hwhole : 16 ≤ declared head.buf → (d'.readBytes = declared head.buf
        ↔ PayloadExact rounds (headFrame head.buf messageType)
          ((BinaryDecoder.new head.buf).taking 16)) := by
      intro hlo
      rw [← processOpMsg_read_iff hlo hhi hpayload]
      change _ ↔ d'.readBytes = 0 + 16 + (declared head.buf - 16)
      omega
    rw [hpayload] at hparse hpositive
    have hpositive := hpositive (by simp)
    rw [framed_iff_of_ok hparse, finishFrame, createFrameBase]
    rcases sb.findTimestampBySeq head.leftBoundary with _ | ts
    · exact iff_of_true (by simp) ⟨hpositive, fun _ h => by cases h⟩
    · constructor
      · intro hframed
        obtain ⟨hlo, hbytes⟩ := hframed (Or.inl rfl)
        exact ⟨hpositive, fun _ _ => ⟨hlo, (hwhole hlo).mp hbytes⟩⟩
      · rintro ⟨-, hexact⟩ -
        obtain ⟨hlo, hexact⟩ := hexact ⟨_, rfl⟩ rfl
        exact ⟨hlo, (hwhole hlo).mpr hexact⟩

/-- **The exact condition.** On every head, `ParseStream` returns and takes off the message as it
declares itself just when the message has not arrived or its lengths agree. -/
theorem parseStream_framed_iff (hbson : bson [] = none) (hhead : sb.head = some head)
    (htyped : messageType = .request ∨ messageType = .response)
    (hrounds : head.buf.length < rounds) :
    Framed bson rounds m sb head messageType
      ↔ (Arrived head.buf → Consistent bson rounds sb head messageType) := by
  by_cases harrived : Arrived head.buf
  swap
  · obtain ⟨r, hparse, hstate⟩ := @parseStream_other bson rounds m sb head messageType hhead
      (Or.inl harrived)
    exact iff_of_true ⟨r, m, hparse, fun h => absurd h hstate⟩ (fun h => absurd h harrived)
  rw [forall_prop_of_true harrived]
  by_cases hknown : opCode head.buf ∈ opCodes
  swap
  · obtain ⟨r, hparse, hstate⟩ := @parseStream_other bson rounds m sb head messageType hhead
      (Or.inr hknown)
    refine iff_of_true ⟨r, m, hparse, fun h => absurd h hstate⟩ ?_
    have hcode : opCode head.buf ≠ kOPMsg := by
      intro hcode
      rw [hcode] at hknown
      exact hknown (by decide)
    exact ⟨fun h => absurd h hknown, fun h => absurd h hcode, fun h => absurd h hcode⟩
  by_cases hcode : opCode head.buf = kOPMsg
  swap
  · rw [framed_skip_iff hhead htyped harrived hknown hcode]
    exact ⟨fun h => ⟨fun _ _ => h, fun h => absurd h hcode, fun h => absurd h hcode⟩,
      fun h => h.skipped hknown hcode⟩
  rw [framed_decode_iff hbson hhead htyped hrounds harrived hcode]
  exact ⟨fun h => ⟨fun _ h => absurd hcode h, fun _ => h.1, fun _ => h.2⟩,
    fun h => ⟨h.positive hcode, h.exact hcode⟩⟩

end ParseStream

/-- A message of one section, whose document is empty. -/
def emptyDocument : List UInt8 :=
  [25, 0, 0, 0, 1, 0, 0, 0, 0, 0, 0, 0, 221, 7, 0, 0, 0, 0, 0, 0, 0, 4, 0, 0, 0]

theorem parseStream_framed_iff_sample :
    Framed (fun _ => none) 32 ⟨[]⟩ (bufferOf emptyDocument) ⟨emptyDocument, 0⟩ .request
      ∧ Consistent (fun _ => none) 32 (bufferOf emptyDocument) ⟨emptyDocument, 0⟩ .request := by
  have hread : (parseStream (fun _ => none) 32 ⟨[]⟩ (bufferOf emptyDocument) .request).map
      (fun x => x.1.readBytes) = .ok 25 := by decide +kernel
  obtain ⟨x, hparse, hbytes⟩ := map_eq_ok hread
  have hframed : Framed (fun _ => none) 32 ⟨[]⟩ (bufferOf emptyDocument) ⟨emptyDocument, 0⟩
      .request := by
    refine (framed_iff_of_ok hparse).mpr (fun _ => ?_)
    rw [hbytes]
    decide +kernel
  refine ⟨hframed, ?_⟩
  exact (parseStream_framed_iff rfl rfl (Or.inl rfl) (by decide)).mp hframed (by
    unfold Arrived
    decide +kernel)

/-- A query whose length is zero. -/
def emptyQuery : List UInt8 := [0, 0, 0, 0, 1, 0, 0, 0, 0, 0, 0, 0, 212, 7, 0, 0]

/-- The query is cut by sixteen bytes less than it has, which panics. -/
theorem short_query_panics :
    ¬ ∀ bson rounds m sb head messageType, bson [] = none → sb.head = some head →
      (messageType = .request ∨ messageType = .response) → head.buf.length < rounds →
      Framed bson rounds m sb head messageType := by
  intro h
  obtain ⟨r, m', hparse, -⟩ := h (fun _ => none) 32 ⟨[]⟩ (bufferOf emptyQuery) ⟨emptyQuery, 0⟩
    .request rfl rfl (Or.inl rfl) (by decide)
  have hpanics : (parseStream (fun _ => none) 32 ⟨[]⟩ (bufferOf emptyQuery) .request).map
      (fun x => x.1.readBytes) = .error (.panic .sliceOutOfRange) := by decide +kernel
  rw [hparse] at hpanics
  cases hpanics

end Kyanos.Mongo
