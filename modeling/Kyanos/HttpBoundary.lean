/-
What `FindBoundary` of `agent/protocol/http.go` finds.

The search takes the headers in front of the next empty line, and in them the first place of each
start pattern. What it returns is the last of these. So it finds a start whenever there is one in
front of an empty line, and what it finds is one; but where a message begins just at the position
to start from, it finds that only if no other pattern stands in the headers of the message.
`findBoundary_aligned_iff` says so.

`parseStreamBuffer` starts at the head of the stream buffer and removes what lies before the
boundary: there a message whose headers name another method is lost.
-/
import Kyanos.Http

set_option autoImplicit false

namespace Kyanos.Http

open BinaryDecoder

/-! ## What is owed -/

/-- A start pattern begins at the position. -/
def PatternAt (messageType : MessageType) (buf : GoString) (pos : ℕ) : Prop :=
  ∃ pattern ∈ matchPattern messageType, pattern <+: buf.drop pos

/-- The empty line begins at the position or behind it. -/
def MarkerFrom (buf : GoString) (pos : ℕ) : Prop :=
  ∃ e, pos ≤ e ∧ httpBoundaryMarker <+: buf.drop e

/-- What a search from `startPos` that returns `p` owes. -/
structure Aligned (messageType : MessageType) (buf : GoString) (startPos : ℕ) (p : ℤ) : Prop where
  sound : 0 ≤ p → startPos ≤ p ∧ PatternAt messageType buf p.toNat ∧ MarkerFrom buf p.toNat
  complete : ∀ pos, startPos ≤ pos → PatternAt messageType buf pos → MarkerFrom buf pos → p ≠ -1
  first : PatternAt messageType buf startPos → MarkerFrom buf startPos → p = startPos

/-- If a message starts at `startPos`, what stands in front of its empty line is no other pattern. -/
def Unmixed (messageType : MessageType) (buf : GoString) (startPos : ℕ) : Prop :=
  PatternAt messageType buf startPos → MarkerFrom buf startPos →
    ∀ pattern ∈ matchPattern messageType, ∀ pos, startPos ≤ pos → pattern <+: buf.drop pos →
      (∀ e, startPos ≤ e → e ≤ pos → ¬httpBoundaryMarker <+: buf.drop e) →
        pattern <+: buf.drop startPos

/-! ## Words and lines -/

/-- The text has bytes, and none of them ends a line. -/
structure Word (pattern : GoString) : Prop where
  ne_nil : pattern ≠ []
  cr : (13 : UInt8) ∉ pattern
  lf : (10 : UInt8) ∉ pattern

theorem matchPattern_word {messageType : MessageType} {pattern : GoString}
    (h : pattern ∈ matchPattern messageType) : Word pattern := by
  have hall : ∀ pattern ∈ httpReqStartPattern ++ httpRespStartPattern,
      pattern ≠ [] ∧ (13 : UInt8) ∉ pattern ∧ (10 : UInt8) ∉ pattern := by decide +kernel
  have hmem : pattern ∈ httpReqStartPattern ++ httpRespStartPattern := by
    rcases messageType with _ | _ | _
    · exact List.mem_append_left _ h
    · exact List.mem_append_right _ h
    · cases h
  obtain ⟨hne, hcr, hlf⟩ := hall pattern hmem
  exact ⟨hne, hcr, hlf⟩

section Headers

variable {s pattern : GoString} {b i : ℕ}

/-- What a pattern covers are its bytes. -/
theorem getElem_of_prefix (h : pattern <+: s.drop i) {j : ℕ} (hij : i ≤ j)
    (hj : j < i + pattern.length) : ∃ x ∈ pattern, s[j]? = some x := by
  obtain ⟨t, ht⟩ := h
  have hlt : j - i < pattern.length := by omega
  refine ⟨pattern[j - i], List.getElem_mem hlt, ?_⟩
  have hdrop : s[j]? = (s.drop i)[j - i]? := by
    rw [List.getElem?_drop]
    congr 1
    omega
  rw [hdrop, ← ht, List.getElem?_append_left hlt, List.getElem?_eq_getElem hlt]

/-- The bytes of the empty line. -/
theorem marker_getElem (h : httpBoundaryMarker <+: s.drop b) {j : ℕ} (hb : b ≤ j)
    (hj : j < b + httpBoundaryMarker.length) : s[j]? = some 13 ∨ s[j]? = some 10 := by
  obtain ⟨x, hx, heq⟩ := getElem_of_prefix h hb hj
  have hbytes : ∀ x ∈ httpBoundaryMarker, x = 13 ∨ x = 10 := by decide +kernel
  rcases hbytes x hx with rfl | rfl
  · exact Or.inl heq
  · exact Or.inr heq

/-- A word does not cover a byte of the empty line. -/
theorem Word.apart (hword : Word pattern) (hmarker : httpBoundaryMarker <+: s.drop b)
    (h : pattern <+: s.drop i) {j : ℕ} (hb : b ≤ j) (hj : j < b + httpBoundaryMarker.length) :
    ¬(i ≤ j ∧ j < i + pattern.length) := by
  rintro ⟨hij, hji⟩
  obtain ⟨x, hx, heq⟩ := getElem_of_prefix h hij hji
  rcases marker_getElem hmarker hb hj with h13 | h10
  · rw [h13] at heq
    cases heq
    exact hword.cr hx
  · rw [h10] at heq
    cases heq
    exact hword.lf hx

/-- **A word in the headers** stands in front of the empty line, or behind all of it. -/
theorem Word.prefix_take_iff (hword : Word pattern) (hmarker : httpBoundaryMarker <+: s.drop b) :
    pattern <+: (s.take b).drop i ↔ pattern <+: s.drop i ∧ i < b := by
  have hpos := List.length_pos_iff.mpr hword.ne_nil
  rw [List.drop_take, List.prefix_take_iff]
  constructor
  · rintro ⟨h, hle⟩
    exact ⟨h, by omega⟩
  · rintro ⟨h, hlt⟩
    refine ⟨h, ?_⟩
    by_contra hlong
    have hlen : httpBoundaryMarker.length = 4 := rfl
    exact hword.apart hmarker h (le_refl b) (by omega) ⟨by omega, by omega⟩

theorem Word.behind (hword : Word pattern) (hmarker : httpBoundaryMarker <+: s.drop b)
    (h : pattern <+: s.drop i) (hle : b ≤ i) : b + httpBoundaryMarker.length ≤ i := by
  have hpos := List.length_pos_iff.mpr hword.ne_nil
  by_contra hlt
  exact hword.apart hmarker h hle (by omega) ⟨le_refl i, by omega⟩

end Headers

/-! ## The last of the first places -/

theorem lastPattern_concat (substr : GoString) (patterns : List GoString) (pattern : GoString) :
    lastPattern substr (patterns ++ [pattern])
      = match index substr pattern with
        | none => lastPattern substr patterns
        | some patternIndex =>
            match lastPattern substr patterns with
            | none => some patternIndex
            | some prevPos => some (max prevPos patternIndex) :=
  List.foldl_concat ..

/-- What is returned is the first place of a pattern. -/
theorem lastPattern_mem {substr : GoString} {patterns : List GoString} {pos : ℕ}
    (h : lastPattern substr patterns = some pos) :
    ∃ pattern ∈ patterns, index substr pattern = some pos := by
  induction patterns using List.reverseRecOn generalizing pos with
  | nil => cases h
  | append_singleton patterns pattern ih =>
      rw [lastPattern_concat] at h
      have hprev : ∀ {pos}, lastPattern substr patterns = some pos →
          ∃ pattern' ∈ patterns ++ [pattern], index substr pattern' = some pos := by
        intro pos hpos
        obtain ⟨pattern', hmem, hindex⟩ := ih hpos
        exact ⟨pattern', List.mem_append_left _ hmem, hindex⟩
      have hlast := List.mem_append_right patterns (List.mem_singleton_self pattern)
      split at h
      · exact hprev h
      · rename_i patternIndex hindex
        split at h
        · cases h
          exact ⟨pattern, hlast, hindex⟩
        · rename_i prevPos hpos
          cases h
          rcases max_choice prevPos patternIndex with hmax | hmax
          · rw [hmax]
            exact hprev hpos
          · rw [hmax]
            exact ⟨pattern, hlast, hindex⟩

/-- No pattern has its first place behind what is returned. -/
theorem lastPattern_max {substr : GoString} {patterns : List GoString} {pattern : GoString} {i : ℕ}
    (hmem : pattern ∈ patterns) (hindex : index substr pattern = some i) :
    ∃ pos, lastPattern substr patterns = some pos ∧ i ≤ pos := by
  induction patterns using List.reverseRecOn with
  | nil => cases hmem
  | append_singleton patterns last ih =>
      rw [lastPattern_concat]
      rcases List.mem_append.mp hmem with hmem | hmem
      · obtain ⟨pos, hpos, hle⟩ := ih hmem
        rw [hpos]
        split
        · exact ⟨pos, rfl, hle⟩
        · exact ⟨_, rfl, hle.trans (le_max_left _ _)⟩
      · rw [← List.mem_singleton.mp hmem, hindex]
        dsimp only
        split
        · exact ⟨i, rfl, le_refl i⟩
        · exact ⟨_, rfl, le_max_right _ _⟩

/-! ## One round of the loop -/

section Rounds

variable {messageType : MessageType} {buf : GoString} {startPos : ℕ}

/-- The headers end at the next empty line. -/
theorem marker_at {b : ℕ} (hb : index (buf.drop startPos) httpBoundaryMarker = some b) :
    httpBoundaryMarker <+: buf.drop (startPos + b) := by
  have hmarker := (index_eq_some_iff.mp hb).1
  rwa [List.drop_drop] at hmarker

/-- A position behind `startPos` as one from there. -/
theorem patternAt_add {pattern : GoString} {i : ℕ} :
    pattern <+: (buf.drop startPos).drop i ↔ pattern <+: buf.drop (startPos + i) := by
  rw [List.drop_drop]

/-- **A start in the headers**: the first place of its pattern is looked at. -/
theorem found_in_headers {b pos : ℕ} {pattern : GoString}
    (hb : index (buf.drop startPos) httpBoundaryMarker = some b)
    (hmem : pattern ∈ matchPattern messageType) (hle : startPos ≤ pos)
    (hpattern : pattern <+: buf.drop pos) (hlt : pos < startPos + b) :
    ∃ i, index ((buf.drop startPos).take b) pattern = some i ∧ startPos + i ≤ pos := by
  have hword := matchPattern_word hmem
  have hmarker := (index_eq_some_iff.mp hb).1
  have hplace : pattern <+: ((buf.drop startPos).take b).drop (pos - startPos) := by
    rw [hword.prefix_take_iff hmarker, patternAt_add, Nat.add_sub_cancel' hle]
    exact ⟨hpattern, by omega⟩
  rcases hindex : index ((buf.drop startPos).take b) pattern with _ | i
  · refine absurd hplace (index_eq_none_iff.mp hindex _ ?_)
    have hlen := hplace.length_le
    have hpos := List.length_pos_iff.mpr hword.ne_nil
    rw [List.length_drop] at hlen
    omega
  · refine ⟨i, rfl, ?_⟩
    by_contra hgt
    exact (index_eq_some_iff.mp hindex).2.2 _ (by omega) hplace

/-- What is looked at is a start in the headers. -/
theorem of_found_in_headers {b i : ℕ} {pattern : GoString}
    (hb : index (buf.drop startPos) httpBoundaryMarker = some b)
    (hmem : pattern ∈ matchPattern messageType)
    (hindex : index ((buf.drop startPos).take b) pattern = some i) :
    pattern <+: buf.drop (startPos + i) ∧ i < b := by
  have hplace := (index_eq_some_iff.mp hindex).1
  rw [(matchPattern_word hmem).prefix_take_iff (index_eq_some_iff.mp hb).1, patternAt_add] at hplace
  exact hplace

/-- Where an empty line follows, the search finds the end of the headers. -/
theorem MarkerFrom.found {pos : ℕ} (h : MarkerFrom buf pos) (hle : startPos ≤ pos) :
    ∃ b, index (buf.drop startPos) httpBoundaryMarker = some b := by
  obtain ⟨e, he, hmarker⟩ := h
  rcases hindex : index (buf.drop startPos) httpBoundaryMarker with _ | b
  · have hlen := hmarker.length_le
    have hpos : httpBoundaryMarker.length = 4 := rfl
    rw [List.length_drop] at hlen
    refine absurd ?_ (index_eq_none_iff.mp hindex (e - startPos) ?_)
    · rw [patternAt_add, Nat.add_sub_cancel' (hle.trans he)]
      exact hmarker
    · rw [List.length_drop]
      omega
  · exact ⟨b, rfl⟩

/-- A start that is in the buffer has a byte there. -/
theorem PatternAt.lt {pos : ℕ} (h : PatternAt messageType buf pos) : pos < buf.length := by
  obtain ⟨pattern, hmem, hpattern⟩ := h
  have hpos := List.length_pos_iff.mpr (matchPattern_word hmem).ne_nil
  have hlen := hpattern.length_le
  rw [List.length_drop] at hlen
  omega

/-! ## The search -/

/-- What is found is a start, in front of an empty line. -/
theorem boundaryLoop_sound (h : 0 ≤ boundaryLoop messageType buf startPos) :
    (startPos : ℤ) ≤ boundaryLoop messageType buf startPos
      ∧ PatternAt messageType buf (boundaryLoop messageType buf startPos).toNat
      ∧ MarkerFrom buf (boundaryLoop messageType buf startPos).toNat := by
  induction startPos using boundaryLoop.induct messageType buf with
  | case1 startPos hlt hnone =>
      have hloop : boundaryLoop messageType buf startPos = -1 := by
        rw [boundaryLoop, if_pos hlt, hnone]
      omega
  | case2 startPos hlt b hb pos hpos =>
      obtain ⟨pattern, hmem, hindex⟩ := lastPattern_mem hpos
      obtain ⟨hpattern, hbefore⟩ := of_found_in_headers hb hmem hindex
      have hloop : boundaryLoop messageType buf startPos = (startPos + pos : ℕ) := by
        rw [boundaryLoop, if_pos hlt, hb]
        dsimp only
        rw [hpos]
        rfl
      rw [hloop, Int.toNat_natCast]
      refine ⟨by omega, ⟨pattern, hmem, hpattern⟩, ⟨startPos + b, by omega, marker_at hb⟩⟩
  | case3 startPos hlt b hb hnone ih =>
      have hloop : boundaryLoop messageType buf startPos
          = boundaryLoop messageType buf (startPos + b + httpBoundaryMarker.length) := by
        rw [boundaryLoop, if_pos hlt, hb]
        dsimp only
        rw [hnone]
      rw [hloop] at h ⊢
      obtain ⟨hle, hfound⟩ := ih h
      exact ⟨by omega, hfound⟩
  | case4 startPos hge =>
      rw [boundaryLoop, if_neg hge] at h
      exact absurd h (by decide)

/-- A start in front of an empty line is not missed. By the rounds of the loop: it stands in the
headers that are looked at, or behind their empty line. -/
theorem boundaryLoop_complete {pos : ℕ} (hle : startPos ≤ pos)
    (hpattern : PatternAt messageType buf pos) (hmarker : MarkerFrom buf pos) :
    boundaryLoop messageType buf startPos ≠ -1 := by
  induction startPos using boundaryLoop.induct messageType buf with
  | case1 startPos hlt hnone =>
      obtain ⟨b, hb⟩ := hmarker.found hle
      rw [hb] at hnone
      cases hnone
  | case2 startPos hlt b hb prevPos hprev =>
      rw [boundaryLoop, if_pos hlt, hb]
      dsimp only
      rw [hprev]
      dsimp only
      omega
  | case3 startPos hlt b hb hnone ih =>
      rw [boundaryLoop, if_pos hlt, hb]
      dsimp only
      rw [hnone]
      refine ih ?_
      obtain ⟨pattern, hmem, hplace⟩ := hpattern
      have hbehind : startPos + b ≤ pos := by
        by_contra hbefore
        obtain ⟨i, hindex, -⟩ := found_in_headers hb hmem hle hplace (by omega)
        obtain ⟨last, hlast, -⟩ := lastPattern_max hmem hindex
        rw [hnone] at hlast
        cases hlast
      exact (matchPattern_word hmem).behind (marker_at hb) hplace hbehind
  | case4 startPos hge =>
      have := hpattern.lt
      omega

/-- **An aligned message**: the search returns its start just if no other pattern stands in its
headers. -/
theorem boundaryLoop_first_iff (hpattern : PatternAt messageType buf startPos)
    (hmarker : MarkerFrom buf startPos) :
    boundaryLoop messageType buf startPos = startPos ↔ Unmixed messageType buf startPos := by
  obtain ⟨b, hb⟩ := hmarker.found (le_refl startPos)
  obtain ⟨-, hbin, hbfirst⟩ := index_eq_some_iff.mp hb
  obtain ⟨own, howned, hown⟩ := hpattern
  -- The message's own pattern is in front of the empty line.
  have hpos : 0 < b := by
    rcases Nat.eq_zero_or_pos b with rfl | hpos
    · have hword := matchPattern_word howned
      have hlen := List.length_pos_iff.mpr hword.ne_nil
      have hmark : httpBoundaryMarker.length = 4 := rfl
      exact absurd ⟨le_refl startPos, by omega⟩
        (hword.apart (marker_at hb) hown (le_refl startPos) (by omega))
    · exact hpos
  obtain ⟨i, hi, -⟩ := found_in_headers hb howned (le_refl startPos) hown (by omega)
  obtain ⟨pos, hlast, -⟩ := lastPattern_max howned hi
  have hlt := PatternAt.lt ⟨own, howned, hown⟩
  have hloop : boundaryLoop messageType buf startPos = (startPos + pos : ℕ) := by
    rw [boundaryLoop, if_pos hlt, hb]
    dsimp only
    rw [hlast]
    rfl
  rw [hloop]
  constructor
  · intro hfirst _ _ pattern hmem place hle hplace hbefore
    have hin : place < startPos + b := by
      by_contra hbehind
      exact hbefore (startPos + b) (by omega) (by omega) (marker_at hb)
    obtain ⟨j, hj, -⟩ := found_in_headers hb hmem hle hplace hin
    obtain ⟨pos', hlast', hjle⟩ := lastPattern_max hmem hj
    have hpos' : pos = pos' := Option.some.inj (hlast.symm.trans hlast')
    have hzero : j = 0 := by omega
    rw [hzero] at hj
    exact (of_found_in_headers hb hmem hj).1
  · intro hunmixed
    obtain ⟨pattern, hmem, hindex⟩ := lastPattern_mem hlast
    obtain ⟨hplace, hbefore⟩ := of_found_in_headers hb hmem hindex
    have hstart := hunmixed ⟨own, howned, hown⟩ hmarker pattern hmem (startPos + pos) (by omega)
      hplace (by
        intro e he hle hmark
        refine hbfirst (e - startPos) (by omega) ?_
        rw [patternAt_add, Nat.add_sub_cancel' he]
        exact hmark)
    obtain ⟨j, hj, hjle⟩ := found_in_headers hb hmem (le_refl startPos) hstart (by omega)
    have hsame : pos = j := Option.some.inj (hindex.symm.trans hj)
    omega

end Rounds

/-- **`FindBoundary` finds an aligned boundary** just if the message it starts at, when there is one,
has no other pattern in its headers. -/
theorem findBoundary_aligned_iff {sb : StreamBuffer} {head : Buffer} (hhead : sb.head = some head)
    (messageType : MessageType) (startPos : ℕ) :
    ∃ p, findBoundary sb messageType startPos = .ok p
      ∧ (Aligned messageType head.buf startPos p ↔ Unmixed messageType head.buf startPos) := by
  refine ⟨boundaryLoop messageType head.buf startPos, ?_, ?_, ?_⟩
  · unfold findBoundary
    rw [hhead]
  · intro h hpattern hmarker
    exact (boundaryLoop_first_iff hpattern hmarker).mp (h.first hpattern hmarker) hpattern hmarker
  · intro h
    refine ⟨boundaryLoop_sound, fun pos hle => boundaryLoop_complete hle, ?_⟩
    intro hpattern hmarker
    exact (boundaryLoop_first_iff hpattern hmarker).mpr h

/-- A response that came through a proxy which speaks the older version. -/
def viaResponse : GoString :=
  text "HTTP/1.1 200 OK\r\nVia: HTTP/1.0 fred\r\nContent-Length: 0\r\n\r\n"

theorem findBoundary_aligned_iff_sample :
    ∃ p, findBoundary (bufferOf viaResponse) .response 0 = .ok p
      ∧ (Aligned .response viaResponse 0 p ↔ Unmixed .response viaResponse 0) :=
  @findBoundary_aligned_iff (bufferOf viaResponse) ⟨viaResponse, 0⟩ rfl .response 0

/-- The response stands at the head of the buffer, and the search returns the place of its `Via`. -/
theorem aligned_response_skipped :
    findBoundary (bufferOf viaResponse) .response 0 = .ok 22
      ∧ ¬Aligned .response viaResponse 0 22 := by
  constructor
  · have hb : index (viaResponse.drop 0) httpBoundaryMarker = some 54 := by decide +kernel
    have hlast : lastPattern ((viaResponse.drop 0).take 54) (matchPattern .response) = some 22 := by
      decide +kernel
    have hloop : boundaryLoop .response viaResponse 0 = 22 := by
      rw [boundaryLoop, if_pos (by decide +kernel), hb]
      dsimp only
      rw [hlast]
      rfl
    exact congrArg Except.ok hloop
  · intro h
    have hfirst := h.first ⟨text "HTTP/1.1 ", by decide +kernel, by decide +kernel⟩
      ⟨54, by decide, by decide +kernel⟩
    exact absurd hfirst (by decide)

end Kyanos.Http
