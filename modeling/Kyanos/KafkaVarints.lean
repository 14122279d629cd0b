/-
`agent/protocol/kafka/decoder/packet_decoder.go`: the varints of Kafka, decoded from their
encodings and from what is no encoding.

The wire format says that a decoder gets an encoding back, wherever it stands, and the layouts say
what a decoder makes of arbitrary bytes. Both look at the bytes that are left. Here the rest of the
decoder's state is followed too (`Takes`): it moves over some bytes of the buffer and counts them,
whether it returns or fails. With that an encoding of 32 or of 64 bits is taken off exactly
(`Decodes`), a strict prefix of one is an error, and so are bytes that go on beyond the number of
rounds of the loop (`TooLong`).
-/
import Kyanos.KafkaLayouts

set_option autoImplicit false

open GoNum ByteReader

namespace Kyanos.Kafka

/-- The decoder `n` bytes further. -/
def PacketDecoder.skip (pd : PacketDecoder) (n : ℕ) : PacketDecoder :=
  { pd with binaryDecoder := pd.binaryDecoder.taking n }

/-- `p` gets `x` back from the encoding `bytes`, whatever is behind it, and takes just that off;
from less of it there is an error. -/
structure Decodes (p : Extract ℤ) (bytes : GoString) (x : ℤ) : Prop where
  exact : ∀ (suffix : GoString) (pd : PacketDecoder), pd.binaryDecoder.str = bytes ++ suffix →
    p pd = .done x (pd.skip bytes.length) ∧ (pd.skip bytes.length).binaryDecoder.str = suffix
  short : ∀ (pre : GoString) (pd : PacketDecoder), pre <+: bytes → pre ≠ bytes →
    pd.binaryDecoder.str = pre → ∃ e, p pd = .failed e (pd.skip pre.length)

/-- The byte says that there is more of a varint. -/
def Continues (b : UInt8) : Prop := b.toNat &&& kFirstBitMask ≠ 0

/-- `p` gives up after `n` bytes that all say that there is more. -/
def TooLong (p : Extract ℤ) (n : ℕ) : Prop :=
  ∀ (bytes suffix : GoString) (pd : PacketDecoder), bytes.length = n → (∀ b ∈ bytes, Continues b) →
    pd.binaryDecoder.str = bytes ++ suffix → ∃ e, p pd = .failed e (pd.skip n)

theorem continues_iff (b : UInt8) : Continues b ↔ 128 ≤ b.toNat := by
  have hb := b.toNat_lt
  rw [Continues, Ne, firstBit_eq_zero (by omega)]
  omega

/-! ## Where a decoder ends -/

theorem PacketDecoder.skip_zero (pd : PacketDecoder) : pd.skip 0 = pd := by
  obtain ⟨marks, ⟨str, readBytes⟩, key, version, flexible⟩ := pd
  simp [PacketDecoder.skip, BinaryDecoder.taking]

theorem PacketDecoder.skip_skip (pd : PacketDecoder) (m n : ℕ) :
    (pd.skip m).skip n = pd.skip (m + n) := by
  simp [PacketDecoder.skip, BinaryDecoder.taking, add_assoc]

/-- However `p` ends, it is some bytes of the buffer further. -/
def Takes {α : Type} (p : Extract α) : Prop :=
  ∀ pd : PacketDecoder, ∃ k ≤ pd.binaryDecoder.str.length,
    (∃ a, p pd = .done a (pd.skip k)) ∨ ∃ e, p pd = .failed e (pd.skip k)

theorem Takes.pure {α : Type} (a : α) : Takes (pure a : Extract α) := by
  intro pd
  refine ⟨0, Nat.zero_le _, Or.inl ⟨a, ?_⟩⟩
  rw [pd.skip_zero]
  rfl

theorem Takes.failNew {α : Type} (msg : String) : Takes (failNew msg : Extract α) := by
  intro pd
  refine ⟨0, Nat.zero_le _, Or.inr ⟨.new (text msg), ?_⟩⟩
  rw [pd.skip_zero]
  rfl

theorem Takes.byte : Takes extractByte := by
  intro pd
  rcases hstr : pd.binaryDecoder.str with _ | ⟨x, b⟩
  · refine ⟨0, Nat.zero_le _, Or.inr ⟨.decode .resourceNotAvailble, ?_⟩⟩
    rw [pd.skip_zero, extractByte, ofBinary, BinaryDecoder.extractByte, hstr]
  · refine ⟨1, by simp, Or.inl ⟨x, ?_⟩⟩
    rw [extractByte, ofBinary, BinaryDecoder.extractByte, hstr, PacketDecoder.skip]

theorem Takes.bind {α β : Type} {p : Extract α} {f : α → Extract β} (hp : Takes p)
    (hf : ∀ a, Takes (f a)) : Takes (p >>= f) := by
  intro pd
  obtain ⟨k, hk, ⟨a, hdone⟩ | ⟨e, hfailed⟩⟩ := hp pd
  · obtain ⟨m, hm, hends⟩ := hf a (pd.skip k)
    have hlen : (pd.skip k).binaryDecoder.str.length = pd.binaryDecoder.str.length - k :=
      List.length_drop
    rw [pd.skip_skip] at hends
    refine ⟨k + m, by omega, ?_⟩
    rw [bind_done hdone]
    exact hends
  · exact ⟨k, hk, Or.inr ⟨e, bind_failed hfailed⟩⟩

theorem Takes.varintLoop (n i v : ℕ) : Takes (varintLoop n i v) := by
  induction n generalizing i v with
  | zero => exact Takes.failNew _
  | succ n ih =>
      refine Takes.byte.bind (fun b => ?_)
      split_ifs
      · exact Takes.pure _
      · exact ih _ _

theorem Takes.unsignedVarint : Takes extractUnsignedVarint :=
  (Takes.varintLoop _ _ _).bind (fun _ => Takes.pure _)

theorem Takes.varintCore (maxLength : ℕ) : Takes (extractVarintCore maxLength) :=
  (Takes.varintLoop _ _ _).bind (fun _ => Takes.pure _)

theorem Takes.varint : Takes extractVarint := (Takes.varintCore _).bind (fun _ => Takes.pure _)

theorem Takes.varlong : Takes extractVarlong := Takes.varintCore _

/-- What is left tells how far the decoder went. -/
theorem skip_eq_of_rest {pd : PacketDecoder} {bytes suffix : GoString} {k : ℕ}
    (hstr : pd.binaryDecoder.str = bytes ++ suffix) (hk : k ≤ pd.binaryDecoder.str.length)
    (hrest : (pd.skip k).binaryDecoder.str = suffix) : k = bytes.length := by
  have hlen : (pd.skip k).binaryDecoder.str.length = pd.binaryDecoder.str.length - k :=
    List.length_drop
  rw [hrest] at hlen
  rw [hstr, List.length_append] at hk hlen
  omega

theorem skip_rest {pd : PacketDecoder} {bytes suffix : GoString}
    (hstr : pd.binaryDecoder.str = bytes ++ suffix) :
    (pd.skip bytes.length).binaryDecoder.str = suffix := by
  change pd.binaryDecoder.str.drop bytes.length = suffix
  rw [hstr, List.drop_left]

/-- A decoder that inverts an encoding takes just that off. -/
theorem Takes.done_eq {p : Extract ℤ} {bytes : GoString} {x : ℤ} (hp : Takes p)
    (hinv : ∀ c, Inverts c p bytes x) {suffix : GoString} {pd : PacketDecoder}
    (hstr : pd.binaryDecoder.str = bytes ++ suffix) :
    p pd = .done x (pd.skip bytes.length) := by
  have hview : pd.view = ⟨bytes ++ suffix, pd.markedBufs, ⟨pd.apiVersion, pd.isFlexible⟩⟩ := by
    rw [PacketDecoder.view, hstr]
  obtain ⟨pd', hdone, hview'⟩ := hinv _ suffix _ pd hview
  obtain ⟨k, hk, ⟨a, ha⟩ | ⟨e, he⟩⟩ := hp pd
  · obtain ⟨rfl, rfl⟩ : a = x ∧ pd.skip k = pd' := by
      rw [ha] at hdone
      cases hdone
      exact ⟨rfl, rfl⟩
    rw [← skip_eq_of_rest hstr hk (str_of_view hview'), ha]
  · rw [hdone] at he
    cases he

/-- A decoder that finds no value at the front has gone over what it looked at. -/
theorem Takes.failed_eq {p : Extract ℤ} {front : GoString → Option ℤ × GoString} (hp : Takes p)
    (hfronts : Fronts PacketDecoder.view p front) {bytes suffix : GoString} {pd : PacketDecoder}
    (hstr : pd.binaryDecoder.str = bytes ++ suffix)
    (hfront : front (bytes ++ suffix) = (none, suffix)) :
    ∃ e, p pd = .failed e (pd.skip bytes.length) := by
  obtain ⟨pd', hview, hend⟩ := hfronts pd
  -- How far the decoder went shows in what is left of the buffer.
  rw [view_rest, hstr, hfront] at hview hend
  obtain ⟨e, hfailed⟩ := hend
  obtain ⟨k, hk, ⟨a, ha⟩ | ⟨e', he'⟩⟩ := hp pd
  · rw [hfailed] at ha
    cases ha
  · obtain rfl : pd.skip k = pd' := by
      rw [he'] at hfailed
      cases hfailed
      rfl
    refine ⟨e, ?_⟩
    rw [← skip_eq_of_rest hstr hk (str_of_view hview)]
    exact hfailed

/-! ## Bytes that are no encoding -/

/-- Bytes that all say that there is more are passed over, as far as there are rounds. -/
theorem frontVarint_continued {n : ℕ} {bytes suffix : GoString} (hmore : ∀ b ∈ bytes, Continues b)
    (hend : bytes.length = n ∨ bytes.length < n ∧ suffix = []) :
    frontVarint n (bytes ++ suffix) = (none, suffix) := by
  induction bytes generalizing n with
  | nil =>
      obtain rfl | ⟨hn, rfl⟩ := hend
      · rfl
      · cases n with
        | zero => exact absurd hn (lt_irrefl 0)
        | succ n => rfl
  | cons b bytes ih =>
      rw [List.length_cons] at hend
      obtain ⟨hb, hbytes⟩ := List.forall_mem_cons.mp hmore
      rw [continues_iff] at hb
      cases n with
      | zero => omega
      | succ n =>
          have hend' : bytes.length = n ∨ bytes.length < n ∧ suffix = [] :=
            hend.imp Nat.succ.inj (And.imp_left Nat.lt_of_succ_lt_succ)
          rw [List.cons_append, frontVarint, if_neg (by omega), ih hbytes hend']
          rfl

theorem frontMap_none {α β : Type} {f : α → β} {front : GoString → Option α × GoString}
    {b suffix : GoString} (h : front b = (none, suffix)) :
    frontMap f front b = (none, suffix) := by
  rw [frontMap, h]
  rfl

/-- All bytes of a strict prefix of an encoding say that there is more. -/
theorem continues_of_strictPrefix {x : ℕ} {pre : GoString} (hpre : pre <+: varintBytes x)
    (hne : pre ≠ varintBytes x) : ∀ b ∈ pre, Continues b := by
  induction x using Nat.strongRecOn generalizing pre with
  | ind x ih =>
      rw [varintBytes] at hpre hne
      cases pre with
      | nil => simp
      | cons c pre =>
          split_ifs at hpre hne with hlast
          · -- the encoding is one byte, which only the empty prefix is short of
            obtain ⟨rfl, hnil⟩ := List.cons_prefix_cons.mp hpre
            rw [List.prefix_nil.mp hnil] at hne
            exact absurd rfl hne
          · obtain ⟨rfl, hrest⟩ := List.cons_prefix_cons.mp hpre
            have hrest' : pre ≠ varintBytes (x / 128) := fun h => hne (by rw [h])
            refine List.forall_mem_cons.mpr ⟨?_, ih (x / 128) (by omega) hrest hrest'⟩
            rw [continues_iff, UInt8.toNat_ofNat']
            omega

theorem length_varintBytes_le {n x : ℕ} (hn : 0 < n) (hx : x < 128 ^ n) :
    (varintBytes x).length ≤ n := by
  induction n generalizing x with
  | zero => omega
  | succ n ih =>
      rw [varintBytes]
      split_ifs with hlast
      · exact Nat.succ_le_succ (Nat.zero_le n)
      · rw [List.length_cons]
        obtain ⟨hn', hx'⟩ := sevenBits_left hx hlast
        exact Nat.succ_le_succ (ih hn' hx')

theorem length_lt_of_strictPrefix {α : Type} {pre l : List α} (hpre : pre <+: l) (hne : pre ≠ l) :
    pre.length < l.length :=
  lt_of_le_of_ne hpre.length_le (fun h => hne (hpre.eq_of_length h))

/-! ## The decoders -/

/-- A decoder of `n` rounds that inverts the encodings also fails on their strict prefixes. -/
theorem Takes.decodes {p : Extract ℤ} {n X : ℕ} {x : ℤ} {f : ℕ → ℤ} (hp : Takes p)
    (hinv : ∀ c, Inverts c p (varintBytes X) x)
    (hfronts : Fronts PacketDecoder.view p (frontMap f (frontVarint64 n))) (hn : 0 < n)
    (hX : X < 128 ^ n) : Decodes p (varintBytes X) x where
  exact suffix pd hstr := ⟨hp.done_eq hinv hstr, skip_rest hstr⟩
  short pre pd hpre hne hstr := by
    have hlen := length_lt_of_strictPrefix hpre hne
    have hle := length_varintBytes_le hn hX
    have happ : pd.binaryDecoder.str = pre ++ [] := by
      rw [hstr, List.append_nil]
    -- The loop has rounds left when the bytes end.
    refine hp.failed_eq hfronts happ ?_
    exact frontMap_none (frontMap_none (frontVarint_continued (continues_of_strictPrefix hpre hne)
      (Or.inr ⟨by omega, rfl⟩)))

theorem Takes.tooLong {p : Extract ℤ} {n : ℕ} {f : ℕ → ℤ} (hp : Takes p)
    (hfronts : Fronts PacketDecoder.view p (frontMap f (frontVarint64 n))) : TooLong p n := by
  intro bytes suffix pd hlen hmore hstr
  rw [← hlen]
  exact hp.failed_eq hfronts hstr
    (frontMap_none (frontMap_none (frontVarint_continued hmore (Or.inl hlen))))

/-- **Varints are decoded as they were encoded.** For every value of 32 and of 64 bits the decoder
returns it from its encoding, unsigned or by the zigzag, with anything behind it, and takes just
the encoding off; a strict prefix of one is an error; and five bytes, or ten, that all say that
there is more are one after just these. -/
theorem varints_decoded (x : BitVec 32) (y : BitVec 64) :
    Decodes extractUnsignedVarint (varintBytes x.toNat) x.toInt
      ∧ Decodes extractVarint (varintBytes (unzigzag x.toInt)) x.toInt
      ∧ Decodes extractVarlong (varintBytes (unzigzag y.toInt)) y.toInt
      ∧ TooLong extractUnsignedVarint 5 ∧ TooLong extractVarint 5 ∧ TooLong extractVarlong 10 := by
  have hx := x.isLt
  have hxlo : -2 ^ 31 ≤ x.toInt := BitVec.le_toInt x
  have hxhi : x.toInt < 2 ^ 31 := BitVec.toInt_lt
  have hylo : -2 ^ 63 ≤ y.toInt := BitVec.le_toInt y
  have hyhi : y.toInt < 2 ^ 63 := BitVec.toInt_lt
  have hzx := unzigzag_lt hxlo hxhi
  have hzy := unzigzag_lt hylo hyhi
  refine ⟨?_, ?_, ?_, ?_, ?_, ?_⟩
  · refine Takes.unsignedVarint.decodes (fun c => ?_) extractUnsignedVarint_fronts (by decide)
      (by omega)
    rw [← intOf_toNat x]
    exact inverts_unsignedVarint (by omega)
  · exact Takes.varint.decodes (fun c => inverts_varint hxlo hxhi) extractVarint_fronts (by decide)
      (by omega)
  · exact Takes.varlong.decodes (fun c => inverts_varlong hylo hyhi) extractVarlong_fronts
      (by decide) (by omega)
  · exact Takes.unsignedVarint.tooLong extractUnsignedVarint_fronts
  · exact Takes.varint.tooLong extractVarint_fronts
  · exact Takes.varlong.tooLong extractVarlong_fronts

end Kyanos.Kafka
