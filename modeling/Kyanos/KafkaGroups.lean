/-
Requests to join and to synchronise a group, and their responses, on the wire, and what the
decoders of `join_group.go` and `sync_group.go` make of them.

A protocol comes with its metadata, a member with its metadata or its assignment: BYTES, whose
length has 32 bits or is a varint. `ExtractRegularBytes` reads a length of 16 bits, the high half of
the one that is there. For less than 65536 bytes that is zero, so nothing is skipped, and the next
element of the list is read from the low half on: its name is what should have been
skipped (`extractNamed_misread`). One element is right all the same, as nothing is read behind it.
The response to a join has a protocol type from version 7 on, and the decoder reads one in every
version. The response to a synchronisation may have null for its protocol, and the decoder reads
strings that are not null.

`group_decoded` says where the names of the members, of their instances and of the protocols are
decoded nevertheless, and what has to coincide for them to be decoded anywhere else.
-/
import Kyanos.KafkaWire

set_option autoImplicit false

open ByteReader

namespace Kyanos.Kafka

/-! ## Groups on the wire -/

/-- Bytes that a length of 32 bits allows. -/
abbrev Payload : Type := { data : GoString // data.length < 2 ^ 31 }

/-- BYTES: the length, a word or a varint that is one larger, and the bytes. -/
def payloadBytes (flexible : Bool) (data : Payload) : GoString :=
  (if flexible then varintBytes (data.val.length + 1)
    else Wire.int32 (BitVec.ofNat 32 data.val.length)) ++ data.val

namespace Wire

/-- A protocol with its metadata, or a member with its assignment. -/
structure Named where
  name : ShortString
  payload : Payload
  tags : TagSection

structure JoinMember where
  memberId : ShortString
  groupInstanceId : Option ShortString
  metadata : Payload
  tags : TagSection

structure JoinGroupRequest where
  groupId : ShortString
  sessionTimeoutMs : BitVec 32
  rebalanceTimeoutMs : BitVec 32
  memberId : ShortString
  groupInstanceId : Option ShortString
  protocolType : ShortString
  protocols : List Named
  tags : TagSection

structure JoinGroupResponse where
  throttleTimeMs : BitVec 32
  errorCode : BitVec 16
  generationId : BitVec 32
  protocolType : Option ShortString
  protocolName : Option ShortString
  leader : ShortString
  memberId : ShortString
  members : List JoinMember
  tags : TagSection

structure SyncGroupRequest where
  groupId : ShortString
  generationId : BitVec 32
  memberId : ShortString
  groupInstanceId : Option ShortString
  protocolType : Option ShortString
  protocolName : Option ShortString
  assignments : List Named
  tags : TagSection

structure SyncGroupResponse where
  throttleTimeMs : BitVec 32
  errorCode : BitVec 16
  protocolType : Option ShortString
  protocolName : Option ShortString
  assignment : Payload
  tags : TagSection

section Bytes

variable (version : ℤ) (flexible : Bool)

def Named.bytes (x : Named) : GoString :=
  [stringBytes flexible x.name,
    payloadBytes flexible x.payload,
    tagBytes flexible x.tags].flatten

def JoinMember.bytes (m : JoinMember) : GoString :=
  [stringBytes flexible m.memberId,
    sinceBytes version 5 (nullableStringBytes flexible m.groupInstanceId),
    payloadBytes flexible m.metadata,
    tagBytes flexible m.tags].flatten

def JoinGroupRequest.bytes (r : JoinGroupRequest) : GoString :=
  [stringBytes flexible r.groupId,
    int32 r.sessionTimeoutMs,
    sinceBytes version 1 (int32 r.rebalanceTimeoutMs),
    stringBytes flexible r.memberId,
    sinceBytes version 5 (nullableStringBytes flexible r.groupInstanceId),
    stringBytes flexible r.protocolType,
    arrayBytes flexible (Named.bytes flexible) r.protocols,
    tagBytes flexible r.tags].flatten

def JoinGroupResponse.bytes (r : JoinGroupResponse) : GoString :=
  [sinceBytes version 2 (int32 r.throttleTimeMs),
    int16 r.errorCode,
    int32 r.generationId,
    sinceBytes version 7 (nullableStringBytes flexible r.protocolType),
    nullableStringBytes flexible r.protocolName,
    stringBytes flexible r.leader,
    stringBytes flexible r.memberId,
    arrayBytes flexible (JoinMember.bytes version flexible) r.members,
    tagBytes flexible r.tags].flatten

def SyncGroupRequest.bytes (r : SyncGroupRequest) : GoString :=
  [stringBytes flexible r.groupId,
    int32 r.generationId,
    stringBytes flexible r.memberId,
    sinceBytes version 3 (nullableStringBytes flexible r.groupInstanceId),
    sinceBytes version 5 (nullableStringBytes flexible r.protocolType),
    sinceBytes version 5 (nullableStringBytes flexible r.protocolName),
    arrayBytes flexible (Named.bytes flexible) r.assignments,
    tagBytes flexible r.tags].flatten

def SyncGroupResponse.bytes (r : SyncGroupResponse) : GoString :=
  [sinceBytes version 1 (int32 r.throttleTimeMs),
    int16 r.errorCode,
    sinceBytes version 5 (nullableStringBytes flexible r.protocolType),
    sinceBytes version 5 (nullableStringBytes flexible r.protocolName),
    payloadBytes flexible r.assignment,
    tagBytes flexible r.tags].flatten

end Bytes

/-! ## What they are decoded to -/

/-- A string that may be null; the decoders make the empty one of null. -/
def orEmpty (str : Option ShortString) : GoString := str.elim [] Subtype.val

def JoinMember.decoded (version : ℤ) (m : JoinMember) : JoinGroupMember :=
  { memberID := m.memberId.val
    groupInstanceID := if 5 ≤ version then orEmpty m.groupInstanceId else [] }

def JoinGroupRequest.decoded (version : ℤ) (r : JoinGroupRequest) : JoinGroupReq :=
  { groupID := r.groupId.val
    sessionTimeoutMs := r.sessionTimeoutMs.toInt
    rebalanceTimeoutMs := if 1 ≤ version then r.rebalanceTimeoutMs.toInt else 0
    memberID := r.memberId.val
    groupInstanceID := if 5 ≤ version then orEmpty r.groupInstanceId else []
    protocolType := r.protocolType.val
    protocols := r.protocols.map fun x => ⟨x.name.val⟩ }

def JoinGroupResponse.decoded (version : ℤ) (r : JoinGroupResponse) : JoinGroupResp :=
  { throttleTimeMs := if 2 ≤ version then r.throttleTimeMs.toInt else 0
    errorCode := r.errorCode.toInt
    generationID := r.generationId.toInt
    protocolType := if 7 ≤ version then orEmpty r.protocolType else []
    protocolName := orEmpty r.protocolName
    leader := r.leader.val
    memberID := r.memberId.val
    members := r.members.map (JoinMember.decoded version) }

def SyncGroupRequest.decoded (version : ℤ) (r : SyncGroupRequest) : SyncGroupReq :=
  { groupID := r.groupId.val
    generationID := r.generationId.toInt
    memberID := r.memberId.val
    groupInstanceID := if 3 ≤ version then orEmpty r.groupInstanceId else []
    protocolType := if 5 ≤ version then orEmpty r.protocolType else []
    protocolName := if 5 ≤ version then orEmpty r.protocolName else []
    assignments := r.assignments.map fun x => ⟨x.name.val⟩ }

def SyncGroupResponse.decoded (version : ℤ) (r : SyncGroupResponse) : SyncGroupResp :=
  { throttleTimeMs := if 1 ≤ version then r.throttleTimeMs.toInt else 0
    errorCode := r.errorCode.toInt
    protocolType := if 5 ≤ version then orEmpty r.protocolType else []
    protocolName := if 5 ≤ version then orEmpty r.protocolName else [] }

end Wire

/-! ## Names and payloads -/

section Payloads

variable {c : ApiInfo}

/-- A name, a payload that is not kept, and tagged fields: `ExtractJoinGroupProtocol` and
`ExtractSyncGroupAssignment`. -/
def extractNamed {β : Type} (mk : GoString → β) : Extract β := do
  let name ← extractString
  let _ ← extractBytes
  extractTagSection
  pure (mk name)

theorem extractJoinGroupProtocol_eq :
    extractJoinGroupProtocol = extractNamed JoinGroupProtocol.mk := rfl

theorem extractSyncGroupAssignment_eq :
    extractSyncGroupAssignment = extractNamed SyncGroupAssignment.mk := rfl

/-- BYTES are read to their end in the flexible versions. -/
theorem inverts_payload (hflexible : c.isFlexible = true) (data : Payload) :
    Inverts c extractBytes (payloadBytes c.isFlexible data) data.val := by
  have hdata := data.property
  refine inverts_ite ?_ ?_
  · intro _
    rw [payloadBytes, if_pos hflexible]
    refine (inverts_unsignedVarint (by omega)).bind ?_
    -- the length of the longest payload wraps, and wraps back
    have hlen : intOf 32 (intOf 32 ((data.val.length + 1 : ℕ) : ℤ) - 1) = data.val.length := by
      rw [intOf, intOf, Int.bmod_sub_bmod, Nat.cast_succ, add_sub_cancel_right]
      exact intOf_of_lt (by omega) (by omega)
    dsimp only
    rw [hlen, if_neg (by omega)]
    exact inverts_bytes data.val
  · intro hregular
    rw [hflexible] at hregular
    cases hregular

/-- A word of 32 bits is its two halves. -/
theorem int32_halves {n : ℕ} (h : n < 2 ^ 31) :
    Wire.int32 (BitVec.ofNat 32 n)
      = Wire.int16 (BitVec.ofNat 16 (n / 65536)) ++ Wire.int16 (BitVec.ofNat 16 (n % 65536)) := by
  have hword : (BitVec.ofNat 32 n).toNat = n := by
    rw [BitVec.toNat_ofNat]
    omega
  have hhigh : (BitVec.ofNat 16 (n / 65536)).toNat = n / 65536 := by
    rw [BitVec.toNat_ofNat]
    omega
  have hlow : (BitVec.ofNat 16 (n % 65536)).toNat = n % 65536 := by
    rw [BitVec.toNat_ofNat]
    omega
  have hbyte : ∀ {x y : ℕ}, x % 256 = y % 256 → UInt8.ofNat x = UInt8.ofNat y := by
    intro x y hxy
    rw [← UInt8.toNat_inj, UInt8.toNat_ofNat', UInt8.toNat_ofNat']
    exact hxy
  unfold Wire.int32 Wire.int16 wordBytes
  rw [hword, hhigh, hlow]
  change [_, _, _, _] = [_, _, _, _]
  rw [List.cons.injEq, List.cons.injEq, List.cons.injEq, List.cons.injEq]
  exact ⟨hbyte (by omega), hbyte (by omega), hbyte (by omega), hbyte (by omega), rfl⟩

/-- Outside the flexible versions as many bytes are skipped as the high half of the length says. -/
theorem inverts_highHalf (hregular : c.isFlexible = false) {str : GoString}
    (hstr : str.length < 32768) :
    Inverts c extractBytes (Wire.int16 (BitVec.ofNat 16 str.length) ++ str) str := by
  refine inverts_ite ?_ ?_
  · intro hflexible
    rw [hregular] at hflexible
    cases hflexible
  · intro _
    have hword := inverts_int16 (c := c) (BitVec.ofNat 16 str.length)
    rw [toInt_ofNat (by omega)] at hword
    exact hword.bind (inverts_bytes str)

/-- What is left of a payload behind the high half of its length. -/
def lowPart (data : Payload) : GoString :=
  Wire.int16 (BitVec.ofNat 16 (data.val.length % 65536)) ++ data.val

theorem payloadBytes_regular (data : Payload) :
    payloadBytes false data
      = Wire.int16 (BitVec.ofNat 16 (data.val.length / 65536)) ++ lowPart data := by
  rw [payloadBytes, if_neg (by decide), int32_halves data.property, lowPart, List.append_assoc]

/-- A payload can be skipped, though not to its end. -/
theorem starts_payload (hregular : c.isFlexible = false) (data : Payload) :
    Starts PacketDecoder.view c extractBytes (payloadBytes c.isFlexible data)
      ((lowPart data).take (data.val.length / 65536)) := by
  have hdata := data.property
  have hlen : ((lowPart data).take (data.val.length / 65536)).length = data.val.length / 65536 := by
    rw [List.length_take, lowPart, List.length_append, Wire.int16, wordBytes_length]
    omega
  have hread : Inverts c extractBytes _ ((lowPart data).take (data.val.length / 65536)) :=
    inverts_highHalf hregular (by omega)
  rw [hlen] at hread
  rw [hregular, payloadBytes_regular, ← List.take_append_drop (data.val.length / 65536)
    (lowPart data), ← List.append_assoc, List.take_append_drop]
  exact hread.starts.append _

/-- Of a short payload nothing is skipped. -/
theorem inverts_nothing (hregular : c.isFlexible = false) {data : Payload}
    (hshort : data.val.length < 65536) :
    Inverts c extractBytes (Wire.int16 (BitVec.ofNat 16 (data.val.length / 65536))) [] := by
  have hread : Inverts c extractBytes _ [] := inverts_highHalf hregular (by decide)
  rw [List.append_nil] at hread
  rwa [Nat.div_eq_of_lt hshort]

/-- A name and its payload are read to their end in the flexible versions. -/
theorem inverts_named {β : Type} (mk : GoString → β) (hflexible : c.isFlexible = true)
    (x : Wire.Named) :
    Inverts c (extractNamed mk) (x.bytes c.isFlexible) (mk x.name.val) := by
  refine (inverts_string x.name).bind ?_
  refine (inverts_payload hflexible x.payload).bind ?_
  exact (inverts_tagSection x.tags).bind (Reads.pure _)

theorem inverts_noTags (hregular : c.isFlexible = false) : Inverts c extractTagSection [] () := by
  have h := @inverts_tagSection c ⟨[], by decide⟩
  rwa [tagBytes, hregular] at h

/-- In the others the name is. -/
theorem starts_named {β : Type} (mk : GoString → β) (hregular : c.isFlexible = false)
    (x : Wire.Named) :
    Starts PacketDecoder.view c (extractNamed mk) (x.bytes c.isFlexible) (mk x.name.val) := by
  refine (inverts_string x.name).bind_starts ?_
  refine (starts_payload hregular x.payload).append _ |>.bind ?_
  exact (inverts_noTags hregular).bind (Reads.pure _)

/-- What is read as a string at the low half of a length is the payload. -/
theorem extractString_low (hregular : c.isFlexible = false) {data : Payload} {tail : GoString}
    {marks : List GoString} (hshort : data.val.length < 65536) {pd pd' : PacketDecoder}
    {str : GoString} (hpd : pd.view = ⟨lowPart data ++ tail, marks, c⟩)
    (h : extractString pd = .done str pd') : str = data.val := by
  by_cases hsmall : data.val.length ≤ 32767
  · have hlow : lowPart data = stringBytes c.isFlexible ⟨data.val, hsmall⟩ := by
      rw [stringBytes, hregular, if_neg (by decide), lowPart, Nat.mod_eq_of_lt hshort]
      rfl
    rw [hlow] at hpd
    obtain ⟨pd₁, hdone, -⟩ := inverts_string ⟨data.val, hsmall⟩ tail marks pd hpd
    rw [hdone, Outcome.done.injEq] at h
    exact h.1.symm
  · -- the low half is a length below zero
    rw [lowPart, List.append_assoc] at hpd
    obtain ⟨pd₁, hpd₁, h⟩ := (inverts_flexible _ _).of_bind hpd h
    rw [hregular] at h
    obtain ⟨pd₂, -, h⟩ := (inverts_int16 _ _ _).of_bind hpd₁ h
    have hneg : (BitVec.ofNat 16 (data.val.length % 65536)).toInt < 0 := by
      rw [BitVec.toInt_ofNat', Int.bmod_def]
      omega
    rw [extractBytesCore, BinaryDecoder.extractString, if_neg (by omega), if_pos hneg] at h
    cases h

/-- **The name that is read behind a short payload is the payload.** -/
theorem extractNamed_misread {β : Type} {mk : GoString → β} (hregular : c.isFlexible = false)
    {data : Payload} {tail : GoString} {marks : List GoString} (hshort : data.val.length < 65536)
    {pd pd' : PacketDecoder} {b : β} (hpd : pd.view = ⟨lowPart data ++ tail, marks, c⟩)
    (h : extractNamed mk pd = .done b pd') : b = mk data.val := by
  obtain ⟨str, pd₁, hstr, h⟩ := bind_eq_done h
  obtain ⟨_, pd₂, -, h⟩ := bind_eq_done h
  obtain ⟨_, pd₃, -, h⟩ := bind_eq_done h
  cases h
  rw [extractString_low hregular hshort hpd hstr]

/-- The first element of a list is read up to the low half of its payload's length. -/
theorem inverts_namedFront {β : Type} (mk : GoString → β) (hregular : c.isFlexible = false)
    {x : Wire.Named} (hshort : x.payload.val.length < 65536) :
    Inverts c (extractNamed mk) (stringBytes c.isFlexible x.name
      ++ Wire.int16 (BitVec.ofNat 16 (x.payload.val.length / 65536))) (mk x.name.val) := by
  refine (inverts_string x.name).bind ?_
  rw [← List.append_nil (Wire.int16 _)]
  exact (inverts_nothing hregular hshort).bind ((inverts_noTags hregular).bind (Reads.pure _))

/-- **Of two elements the second is misread.** -/
theorem extractArray_misread {β : Type} {mk : GoString → β} (hregular : c.isFlexible = false)
    {x y : Wire.Named} {xs : List Wire.Named} {tail : GoString} {marks : List GoString}
    (hfits : (x :: y :: xs).length < 2 ^ 31) (hshort : x.payload.val.length < 65536)
    {pd pd' : PacketDecoder} {bs : List β}
    (hpd : pd.view
      = ⟨arrayBytes c.isFlexible (Wire.Named.bytes c.isFlexible) (x :: y :: xs) ++ tail, marks, c⟩)
    (h : extractArray (extractNamed mk) pd = .done bs pd') :
    ∃ rest, bs = mk x.name.val :: mk x.payload.val :: rest := by
  obtain ⟨pd₁, hpd₁, h⟩ := (inverts_flexible _ _).of_bind hpd h
  have hlen : (BitVec.ofNat 32 (x :: y :: xs).length).toInt = (x :: y :: xs).length :=
    toInt_ofNat (by omega)
  have hcount : arrayBytes c.isFlexible (Wire.Named.bytes c.isFlexible) (x :: y :: xs) ++ tail
      = Wire.int32 (BitVec.ofNat 32 (x :: y :: xs).length)
        ++ ((x :: y :: xs).flatMap (Wire.Named.bytes c.isFlexible) ++ tail) := by
    rw [arrayBytes, hregular, if_neg (by decide), List.append_assoc]
    rfl
  have hfirst : (x :: y :: xs).flatMap (Wire.Named.bytes c.isFlexible) ++ tail
      = (stringBytes c.isFlexible x.name
          ++ Wire.int16 (BitVec.ofNat 16 (x.payload.val.length / 65536)))
        ++ (lowPart x.payload
          ++ ((y :: xs).flatMap (Wire.Named.bytes c.isFlexible) ++ tail)) := by
    rw [List.flatMap_cons, Wire.Named.bytes, hregular, payloadBytes_regular]
    simp [tagBytes]
  change pd₁.view = ⟨_ ++ tail, marks, c⟩ at hpd₁
  rw [hcount] at hpd₁
  rw [hregular] at h
  obtain ⟨pd₂, hpd₂, h⟩ := (inverts_int32 _ _ _).of_bind hpd₁ h
  rw [hlen, if_neg (by unfold kNullArray; omega), if_neg (by unfold kNullArray; omega),
    Int.toNat_natCast] at h
  obtain ⟨b, pd₃, bs', hb, hrest, rfl⟩ := readN_succ_eq_done h
  obtain ⟨b', pd₄, bs'', hb', -, rfl⟩ := readN_succ_eq_done hrest
  -- the first element is read up to the low half, and the second from there on
  rw [hfirst] at hpd₂
  obtain ⟨pd₅, hdone, hpd₅⟩ := inverts_namedFront mk hregular hshort _ _ pd₂ hpd₂
  rw [hdone, Outcome.done.injEq] at hb
  obtain ⟨rfl, rfl⟩ := hb
  rw [extractNamed_misread hregular hshort hpd₅ hb']
  exact ⟨bs'', rfl⟩

/-- A list of names is decoded in the flexible versions, and elsewhere if it has one element at
most. -/
theorem starts_namedArray {β : Type} (mk : GoString → β) {xs : List Wire.Named}
    (hfits : CountFits c.isFlexible xs.length) (hone : c.isFlexible = true ∨ xs.length ≤ 1) :
    Starts PacketDecoder.view c (extractArray (extractNamed mk))
      (arrayBytes c.isFlexible (Wire.Named.bytes c.isFlexible) xs)
      (xs.map fun x => mk x.name.val) := by
  rcases hregular : c.isFlexible with _ | _
  swap
  · rw [← hregular]
    exact (inverts_array hfits fun x _ => inverts_named mk hregular x).starts
  rcases xs with _ | ⟨x, _ | ⟨y, xs⟩⟩
  · rw [← hregular]
    exact (inverts_array hfits (by simp)).starts
  · -- behind the one element nothing is read
    refine inverts_flexible.bind_starts ?_
    rw [hregular]
    refine (inverts_int32 (BitVec.ofNat 32 1)).bind_starts ?_
    change Starts _ _ (extractNamed mk >>= fun b => readN (extractNamed mk) 0 >>= fun bs =>
      pure (b :: bs)) (x.bytes false ++ []) _
    rw [← hregular]
    refine ((starts_named mk hregular x).append _).bind ?_
    exact (Reads.pure []).bind (Reads.pure _)
  · rw [hregular] at hone
    simp at hone

end Payloads

/-! ## Messages -/

section Messages

variable {c : ApiInfo}

open Wire

theorem inverts_orEmpty (str : Option ShortString) :
    Inverts c extractNullableString (nullableStringBytes c.isFlexible str) (orEmpty str) :=
  inverts_nullableString str

theorem starts_joinGroupReq {r : JoinGroupRequest}
    (hfits : CountFits c.isFlexible r.protocols.length)
    (hone : c.isFlexible = true ∨ r.protocols.length ≤ 1) :
    Starts PacketDecoder.view c extractJoinGroupReq (r.bytes c.apiVersion c.isFlexible)
      (r.decoded c.apiVersion) := by
  refine (inverts_string r.groupId).bind_starts ?_
  refine (inverts_int32 r.sessionTimeoutMs).bind_starts ?_
  refine (inverts_since fun _ => inverts_int32 r.rebalanceTimeoutMs).bind_starts ?_
  refine (inverts_string r.memberId).bind_starts ?_
  refine (inverts_since fun _ => inverts_orEmpty r.groupInstanceId).bind_starts ?_
  refine (inverts_string r.protocolType).bind_starts ?_
  -- the tagged fields of the request are not read
  exact ((starts_namedArray JoinGroupProtocol.mk hfits hone).append _).bind (Reads.pure _)

theorem inverts_joinMember (hflexible : c.isFlexible = true) (m : JoinMember) :
    Inverts c extractJoinGroupMember (m.bytes c.apiVersion c.isFlexible)
      (m.decoded c.apiVersion) := by
  refine (inverts_string m.memberId).bind ?_
  refine (inverts_since fun _ => inverts_orEmpty m.groupInstanceId).bind ?_
  refine (inverts_payload hflexible m.metadata).bind ?_
  exact (inverts_tagSection m.tags).bind (Reads.pure _)

theorem inverts_nullableSince {version : ℤ} (hversion : version ≤ c.apiVersion)
    (str : Option ShortString) :
    Inverts c (extractStringNullableSince version) (nullableStringBytes c.isFlexible str)
      (orEmpty str) := by
  refine inverts_apiVersion.bind ?_
  rw [if_pos hversion]
  exact inverts_orEmpty str

theorem inverts_stringBefore {version : ℤ} (hversion : ¬ version ≤ c.apiVersion)
    (str : ShortString) :
    Inverts c (extractStringNullableSince version) (stringBytes c.isFlexible str) str.val := by
  refine inverts_apiVersion.bind ?_
  rw [if_neg hversion]
  exact inverts_string str

theorem starts_joinGroupResp {r : JoinGroupResponse}
    (hfits : CountFits c.isFlexible r.members.length) (hflexible : c.isFlexible = true)
    (hversion : 7 ≤ c.apiVersion) :
    Starts PacketDecoder.view c extractJoinGroupResp (r.bytes c.apiVersion c.isFlexible)
      (r.decoded c.apiVersion) := by
  have htype : sinceBytes c.apiVersion 7 (nullableStringBytes c.isFlexible r.protocolType)
      = nullableStringBytes c.isFlexible r.protocolType := if_pos hversion
  have hdecoded : (r.decoded c.apiVersion).protocolType = orEmpty r.protocolType := if_pos hversion
  unfold JoinGroupResponse.bytes
  rw [htype]
  refine (inverts_since fun _ => inverts_int32 r.throttleTimeMs).bind_starts ?_
  refine (inverts_int16 r.errorCode).bind_starts ?_
  refine (inverts_int32 r.generationId).bind_starts ?_
  refine (inverts_nullableSince hversion r.protocolType).bind_starts ?_
  rw [← hdecoded]
  refine (inverts_nullableSince hversion r.protocolName).bind_starts ?_
  refine (inverts_string r.leader).bind_starts ?_
  refine (inverts_string r.memberId).bind_starts ?_
  -- the tagged fields of the response are not read
  exact ((inverts_array hfits fun m _ => inverts_joinMember hflexible m).starts.append _).bind
    (Reads.pure _)

theorem starts_syncGroupReq {r : SyncGroupRequest}
    (hfits : CountFits c.isFlexible r.assignments.length)
    (hone : c.isFlexible = true ∨ r.assignments.length ≤ 1) :
    Starts PacketDecoder.view c extractSyncGroupReq (r.bytes c.apiVersion c.isFlexible)
      (r.decoded c.apiVersion) := by
  refine (inverts_string r.groupId).bind_starts ?_
  refine (inverts_int32 r.generationId).bind_starts ?_
  refine (inverts_string r.memberId).bind_starts ?_
  refine (inverts_since fun _ => inverts_orEmpty r.groupInstanceId).bind_starts ?_
  refine (inverts_since fun _ => inverts_orEmpty r.protocolType).bind_starts ?_
  refine (inverts_since fun _ => inverts_orEmpty r.protocolName).bind_starts ?_
  rcases hregular : c.isFlexible with _ | _
  · rw [← hregular]
    refine ((starts_namedArray SyncGroupAssignment.mk hfits hone).append _).bind ?_
    exact (inverts_noTags hregular).bind (Reads.pure _)
  · rw [← hregular]
    refine (inverts_array hfits fun x _ =>
      inverts_named SyncGroupAssignment.mk hregular x).bind_starts ?_
    refine Reads.starts ?_
    exact (inverts_tagSection r.tags).bind (Reads.pure _)

theorem starts_payloadTags {β : Type} (data : Payload) (tags : TagSection) (b : β) :
    Starts PacketDecoder.view c (do
        let _ ← extractBytes
        extractTagSection
        pure b)
      (payloadBytes c.isFlexible data ++ (tagBytes c.isFlexible tags ++ [])) b := by
  rcases hregular : c.isFlexible with _ | _
  · rw [← hregular]
    exact ((starts_payload hregular data).append _).bind
      ((inverts_noTags hregular).bind (Reads.pure _))
  · rw [← hregular]
    refine Reads.starts ?_
    exact (inverts_payload hregular data).bind ((inverts_tagSection tags).bind (Reads.pure _))

theorem starts_syncGroupResp {r : SyncGroupResponse}
    (hsome : 5 ≤ c.apiVersion → r.protocolType.isSome ∧ r.protocolName.isSome) :
    Starts PacketDecoder.view c extractSyncGroupResp (r.bytes c.apiVersion c.isFlexible)
      (r.decoded c.apiVersion) := by
  have hstring : ∀ {str : Option ShortString}, str.isSome →
      Inverts c extractString (nullableStringBytes c.isFlexible str) (orEmpty str) := by
    intro str hstr
    obtain ⟨str, rfl⟩ := Option.isSome_iff_exists.mp hstr
    exact inverts_string str
  refine (inverts_since fun _ => inverts_int32 r.throttleTimeMs).bind_starts ?_
  refine (inverts_int16 r.errorCode).bind_starts ?_
  refine (inverts_since fun h5 => hstring (hsome h5).1).bind_starts ?_
  refine (inverts_since fun h5 => hstring (hsome h5).2).bind_starts ?_
  exact starts_payloadTags r.assignment r.tags _

/-! ### What is misread -/

variable {tail : GoString} {marks : List GoString} {pd pd' : PacketDecoder}

theorem joinGroupReq_protocols {r : JoinGroupRequest} {x : JoinGroupReq}
    (hpd : pd.view = ⟨r.bytes c.apiVersion c.isFlexible ++ tail, marks, c⟩)
    (h : extractJoinGroupReq pd = .done x pd') :
    ∃ pd₁ pd₂ tail', pd₁.view
        = ⟨arrayBytes c.isFlexible (Named.bytes c.isFlexible) r.protocols ++ tail', marks, c⟩
      ∧ extractArray (extractNamed JoinGroupProtocol.mk) pd₁ = .done x.protocols pd₂ := by
  obtain ⟨pd₁, hpd₁, h⟩ := (inverts_string r.groupId).of_bind hpd h
  obtain ⟨pd₂, hpd₂, h⟩ := (inverts_int32 r.sessionTimeoutMs).of_bind hpd₁ h
  obtain ⟨pd₃, hpd₃, h⟩ :=
    (inverts_since fun _ => inverts_int32 r.rebalanceTimeoutMs).of_bind hpd₂ h
  obtain ⟨pd₄, hpd₄, h⟩ := (inverts_string r.memberId).of_bind hpd₃ h
  obtain ⟨pd₅, hpd₅, h⟩ :=
    (inverts_since fun _ => inverts_orEmpty r.groupInstanceId).of_bind hpd₄ h
  obtain ⟨pd₆, hpd₆, h⟩ := (inverts_string r.protocolType).of_bind hpd₅ h
  obtain ⟨protocols, pd₇, harray, h⟩ := bind_eq_done h
  cases h
  rw [List.flatten_cons, List.append_assoc] at hpd₆
  exact ⟨pd₆, pd', _, hpd₆, harray⟩

theorem syncGroupReq_assignments {r : SyncGroupRequest} {x : SyncGroupReq}
    (hpd : pd.view = ⟨r.bytes c.apiVersion c.isFlexible ++ tail, marks, c⟩)
    (h : extractSyncGroupReq pd = .done x pd') :
    ∃ pd₁ pd₂ tail', pd₁.view
        = ⟨arrayBytes c.isFlexible (Named.bytes c.isFlexible) r.assignments ++ tail', marks, c⟩
      ∧ extractArray (extractNamed SyncGroupAssignment.mk) pd₁ = .done x.assignments pd₂ := by
  obtain ⟨pd₁, hpd₁, h⟩ := (inverts_string r.groupId).of_bind hpd h
  obtain ⟨pd₂, hpd₂, h⟩ := (inverts_int32 r.generationId).of_bind hpd₁ h
  obtain ⟨pd₃, hpd₃, h⟩ := (inverts_string r.memberId).of_bind hpd₂ h
  obtain ⟨pd₄, hpd₄, h⟩ :=
    (inverts_since fun _ => inverts_orEmpty r.groupInstanceId).of_bind hpd₃ h
  obtain ⟨pd₅, hpd₅, h⟩ :=
    (inverts_since fun _ => inverts_orEmpty r.protocolType).of_bind hpd₄ h
  obtain ⟨pd₆, hpd₆, h⟩ :=
    (inverts_since fun _ => inverts_orEmpty r.protocolName).of_bind hpd₅ h
  obtain ⟨assignments, pd₇, harray, h⟩ := bind_eq_done h
  obtain ⟨_, pd₈, -, h⟩ := bind_eq_done h
  cases h
  rw [List.flatten_cons, List.append_assoc] at hpd₆
  exact ⟨pd₆, pd₇, _, hpd₆, harray⟩

/-- Before version 7 the name of the protocol is read as its type, and the leader as its name. -/
theorem joinGroupResp_leader {r : JoinGroupResponse} {x : JoinGroupResp} {name : ShortString}
    (hversion : ¬ 7 ≤ c.apiVersion) (hname : r.protocolName = some name)
    (hpd : pd.view = ⟨r.bytes c.apiVersion c.isFlexible ++ tail, marks, c⟩)
    (h : extractJoinGroupResp pd = .done x pd') : x.protocolName = r.leader.val := by
  have habsent : sinceBytes c.apiVersion 7 (nullableStringBytes c.isFlexible r.protocolType)
      = [] := if_neg hversion
  unfold JoinGroupResponse.bytes at hpd
  rw [habsent, hname] at hpd
  obtain ⟨pd₁, hpd₁, h⟩ :=
    (inverts_since fun _ => inverts_int32 r.throttleTimeMs).of_bind hpd h
  obtain ⟨pd₂, hpd₂, h⟩ := (inverts_int16 r.errorCode).of_bind hpd₁ h
  obtain ⟨pd₃, hpd₃, h⟩ := (inverts_int32 r.generationId).of_bind hpd₂ h
  obtain ⟨pd₄, hpd₄, h⟩ := (inverts_stringBefore hversion name).of_bind hpd₃ h
  obtain ⟨pd₅, hpd₅, h⟩ := (inverts_stringBefore hversion r.leader).of_bind hpd₄ h
  obtain ⟨_, pd₆, -, h⟩ := bind_eq_done h
  obtain ⟨_, pd₇, -, h⟩ := bind_eq_done h
  obtain ⟨_, pd₈, -, h⟩ := bind_eq_done h
  cases h
  rfl

/-- A string that must not be null fails on null. -/
theorem extractString_null {str : GoString} (hflexible : c.isFlexible = true)
    (hpd : pd.view = ⟨nullableStringBytes c.isFlexible none ++ tail, marks, c⟩)
    (h : extractString pd = .done str pd') : False := by
  rw [nullableStringBytes, if_pos hflexible] at hpd
  obtain ⟨pd₁, hpd₁, h⟩ := (inverts_flexible _ _).of_bind hpd h
  rw [hflexible] at h
  obtain ⟨pd₂, -, h⟩ := (inverts_unsignedVarint_small (by decide) _ _).of_bind hpd₁ h
  rw [if_pos (by decide)] at h
  cases h

/-- A field that is there is read. -/
theorem since_eq_done {α : Type} {p : Extract α} {version : ℤ} {absent a : α} {bytes : GoString}
    (hversion : version ≤ c.apiVersion) (hpd : pd.view = ⟨bytes, marks, c⟩)
    (h : since version absent p pd = .done a pd') :
    ∃ pd₁, pd₁.view = ⟨bytes, marks, c⟩ ∧ p pd₁ = .done a pd' := by
  obtain ⟨pd₁, hpd₁, h⟩ := (inverts_apiVersion _ _).of_bind hpd h
  rw [if_pos hversion] at h
  exact ⟨pd₁, hpd₁, h⟩

theorem inverts_there {α : Type} {p : Extract α} {version : ℤ} {absent a : α} {bytes : GoString}
    (hversion : version ≤ c.apiVersion) (h : Inverts c p bytes a) :
    Inverts c (since version absent p) bytes a := by
  have hsince : Inverts c (since version absent p) _ _ := inverts_since fun _ => h
  rwa [sinceBytes, if_pos hversion, if_pos hversion] at hsince

/-- From version 5 on a response that is decoded has no null in it. -/
theorem syncGroupResp_some {r : SyncGroupResponse} {x : SyncGroupResp}
    (hversion : 5 ≤ c.apiVersion) (hflexible : c.isFlexible = true)
    (hpd : pd.view = ⟨r.bytes c.apiVersion c.isFlexible ++ tail, marks, c⟩)
    (h : extractSyncGroupResp pd = .done x pd') :
    r.protocolType.isSome ∧ r.protocolName.isSome := by
  have hthere : ∀ bytes, sinceBytes c.apiVersion 5 bytes = bytes := fun _ => if_pos hversion
  unfold SyncGroupResponse.bytes at hpd
  rw [hthere, hthere] at hpd
  obtain ⟨pd₁, hpd₁, h⟩ :=
    (inverts_since fun _ => inverts_int32 r.throttleTimeMs).of_bind hpd h
  obtain ⟨pd₂, hpd₂, h⟩ := (inverts_int16 r.errorCode).of_bind hpd₁ h
  rcases htype : r.protocolType with _ | type
  · rw [htype, List.flatten_cons, List.append_assoc] at hpd₂
    obtain ⟨_, pd₃, hread, -⟩ := bind_eq_done h
    obtain ⟨pd₄, hpd₄, hread⟩ := since_eq_done hversion hpd₂ hread
    exact (extractString_null hflexible hpd₄ hread).elim
  rw [htype] at hpd₂
  obtain ⟨pd₃, hpd₃, h⟩ := (inverts_there hversion (inverts_string type)).of_bind hpd₂ h
  rcases hname : r.protocolName with _ | name
  · rw [hname, List.flatten_cons, List.append_assoc] at hpd₃
    obtain ⟨_, pd₄, hread, -⟩ := bind_eq_done h
    obtain ⟨pd₅, hpd₅, hread⟩ := since_eq_done hversion hpd₃ hread
    exact (extractString_null hflexible hpd₅ hread).elim
  · exact ⟨rfl, rfl⟩

end Messages

/-! ## Groups -/

open Wire

/-- A message of `join_group.go` or `sync_group.go`. -/
inductive GroupMessage
  | joinReq (r : JoinGroupRequest)
  | joinResp (r : JoinGroupResponse)
  | syncReq (r : SyncGroupRequest)
  | syncResp (r : SyncGroupResponse)

namespace GroupMessage

def apiKey : GroupMessage → ℤ
  | joinReq _ => kJoinGroup
  | joinResp _ => kJoinGroup
  | syncReq _ => kSyncGroup
  | syncResp _ => kSyncGroup

def lastVersion : GroupMessage → ℤ
  | joinReq _ => 7
  | joinResp _ => 7
  | syncReq _ => 5
  | syncResp _ => 5

def bytes (version : ℤ) (msg : GroupMessage) : GoString :=
  match msg with
  | joinReq r => r.bytes version (isFlexible kJoinGroup version)
  | joinResp r => r.bytes version (isFlexible kJoinGroup version)
  | syncReq r => r.bytes version (isFlexible kSyncGroup version)
  | syncResp r => r.bytes version (isFlexible kSyncGroup version)

/-- The numbers of elements can be written, and the name of a protocol may be null from version 7
on. -/
def Fits (version : ℤ) : GroupMessage → Prop
  | joinReq r => CountFits (isFlexible kJoinGroup version) r.protocols.length
  | joinResp r => CountFits (isFlexible kJoinGroup version) r.members.length
      ∧ (version < 7 → r.protocolName.isSome)
  | syncReq r => CountFits (isFlexible kSyncGroup version) r.assignments.length
  | syncResp _ => True

/-- The message is decoded, with the ids of its members and of their instances, the names of its
protocols, and as many of them as there are. -/
def Decodes (version : ℤ) (pd : PacketDecoder) : GroupMessage → Prop
  | joinReq r => ∃ x pd', extractJoinGroupReq pd = .done x pd'
      ∧ x.memberID = r.memberId.val
      ∧ x.groupInstanceID = (r.decoded version).groupInstanceID
      ∧ x.protocols = (r.decoded version).protocols
  | joinResp r => ∃ x pd', extractJoinGroupResp pd = .done x pd'
      ∧ x.protocolName = orEmpty r.protocolName
      ∧ x.memberID = r.memberId.val
      ∧ x.members = (r.decoded version).members
  | syncReq r => ∃ x pd', extractSyncGroupReq pd = .done x pd'
      ∧ x.memberID = r.memberId.val
      ∧ x.groupInstanceID = (r.decoded version).groupInstanceID
      ∧ x.protocolName = (r.decoded version).protocolName
      ∧ x.assignments = (r.decoded version).assignments
  | syncResp r => ∃ x pd', extractSyncGroupResp pd = .done x pd'
      ∧ x.protocolName = (r.decoded version).protocolName

/-- The version is flexible or no list is longer than one, a response to a join is of version 7, and
one to a synchronisation has no null. -/
def Legible (version : ℤ) : GroupMessage → Prop
  | joinReq r => 6 ≤ version ∨ r.protocols.length ≤ 1
  | joinResp _ => 7 ≤ version
  | syncReq r => 4 ≤ version ∨ r.assignments.length ≤ 1
  | syncResp r => 5 ≤ version → r.protocolType.isSome ∧ r.protocolName.isSome

/-- The second name is the first payload, or that one is too long for a length of 16 bits. -/
def SecondIsFirst : List Named → Prop
  | x :: y :: _ => y.name.val = x.payload.val ∨ 65536 ≤ x.payload.val.length
  | _ => False

/-- What a message must have in common with what is misread in its place. -/
def Coincides : GroupMessage → Prop
  | joinReq r => SecondIsFirst r.protocols
  | joinResp r => r.leader.val = orEmpty r.protocolName
  | syncReq r => SecondIsFirst r.assignments
  | syncResp _ => False

end GroupMessage

theorem isFlexible_kJoinGroup {version : ℤ} :
    isFlexible kJoinGroup version = decide (6 ≤ version) := rfl

theorem isFlexible_kSyncGroup {version : ℤ} :
    isFlexible kSyncGroup version = decide (4 ≤ version) := rfl

/-- A decoder that is set to a version of the API, with a message of that version in front. -/
structure GroupInput (version : ℤ) (msg : GroupMessage) (tail : GoString) (pd : PacketDecoder) :
    Prop where
  known : 0 ≤ version ∧ version ≤ msg.lastVersion
  fits : msg.Fits version
  str_eq : pd.binaryDecoder.str = msg.bytes version ++ tail
  apiVersion_eq : pd.apiVersion = version
  isFlexible_eq : pd.isFlexible = isFlexible msg.apiKey version

section Groups

variable {version : ℤ} {msg : GroupMessage} {tail : GoString} {pd : PacketDecoder}

theorem GroupInput.view (h : GroupInput version msg tail pd) :
    pd.view = ⟨msg.bytes version ++ tail, pd.markedBufs,
      ⟨version, isFlexible msg.apiKey version⟩⟩ := by
  rw [PacketDecoder.view, h.str_eq, h.apiVersion_eq, h.isFlexible_eq]

/-- **A legible message is decoded.** -/
theorem GroupInput.decodes (h : GroupInput version msg tail pd) (hlegible : msg.Legible version) :
    msg.Decodes version pd := by
  have hview := h.view
  have hfits := h.fits
  cases msg with
  | joinReq r =>
      have hone : isFlexible kJoinGroup version = true ∨ r.protocols.length ≤ 1 := by
        rw [isFlexible_kJoinGroup, decide_eq_true_eq]
        exact hlegible
      obtain ⟨rest, hmoves⟩ :=
        @starts_joinGroupReq ⟨version, isFlexible kJoinGroup version⟩ r hfits hone tail pd.markedBufs
      obtain ⟨pd', hdone, -⟩ := hmoves pd hview
      exact ⟨_, pd', hdone, rfl, rfl, rfl⟩
  | joinResp r =>
      have hflexible : isFlexible kJoinGroup version = true := by
        rw [isFlexible_kJoinGroup, decide_eq_true_eq]
        exact le_trans (by decide) hlegible
      obtain ⟨rest, hmoves⟩ := @starts_joinGroupResp ⟨version, isFlexible kJoinGroup version⟩ r
        hfits.1 hflexible hlegible tail pd.markedBufs
      obtain ⟨pd', hdone, -⟩ := hmoves pd hview
      exact ⟨_, pd', hdone, rfl, rfl, rfl⟩
  | syncReq r =>
      have hone : isFlexible kSyncGroup version = true ∨ r.assignments.length ≤ 1 := by
        rw [isFlexible_kSyncGroup, decide_eq_true_eq]
        exact hlegible
      obtain ⟨rest, hmoves⟩ :=
        @starts_syncGroupReq ⟨version, isFlexible kSyncGroup version⟩ r hfits hone tail pd.markedBufs
      obtain ⟨pd', hdone, -⟩ := hmoves pd hview
      exact ⟨_, pd', hdone, rfl, rfl, rfl, rfl⟩
  | syncResp r =>
      obtain ⟨rest, hmoves⟩ := @starts_syncGroupResp ⟨version, isFlexible kSyncGroup version⟩ r
        hlegible tail pd.markedBufs
      obtain ⟨pd', hdone, -⟩ := hmoves pd hview
      exact ⟨_, pd', hdone, rfl⟩

/-- A list of names that is read right although it is misread. -/
theorem secondIsFirst_of_read {β : Type} {mk : GoString → β} (hmk : Function.Injective mk)
    {c : ApiInfo} (hregular : c.isFlexible = false) {xs : List Named} {marks : List GoString}
    {pd' : PacketDecoder} (hfits : xs.length < 2 ^ 31) (hlong : ¬ xs.length ≤ 1)
    (hpd : pd.view
      = ⟨arrayBytes c.isFlexible (Named.bytes c.isFlexible) xs ++ tail, marks, c⟩)
    (h : extractArray (extractNamed mk) pd = .done (xs.map fun x => mk x.name.val) pd') :
    GroupMessage.SecondIsFirst xs := by
  rcases xs with _ | ⟨x, _ | ⟨y, xs⟩⟩
  · simp at hlong
  · simp at hlong
  by_contra hnot
  obtain ⟨hname, hshort⟩ := not_or.mp hnot
  obtain ⟨rest, heq⟩ := extractArray_misread hregular hfits (not_le.mp hshort) hpd h
  rw [List.map_cons, List.map_cons, List.cons.injEq, List.cons.injEq] at heq
  exact hname (hmk heq.2.1)

/-- **A message that is decoded** is legible, or coincides with what is read in its place. -/
theorem GroupInput.legible_or (h : GroupInput version msg tail pd)
    (hdecodes : msg.Decodes version pd) : msg.Legible version ∨ msg.Coincides := by
  have hview := h.view
  have hfits := h.fits
  cases msg with
  | joinReq r =>
      by_cases hlegible : (GroupMessage.joinReq r).Legible version
      · exact Or.inl hlegible
      right
      obtain ⟨hversion, hlong⟩ := not_or.mp hlegible
      obtain ⟨x, pd', hdone, -, -, hprotocols⟩ := hdecodes
      have hregular : isFlexible kJoinGroup version = false := by
        rw [isFlexible_kJoinGroup]
        exact decide_eq_false hversion
      change CountFits (isFlexible kJoinGroup version) _ at hfits
      rw [hregular, CountFits, if_neg (by decide)] at hfits
      obtain ⟨pd₁, pd₂, tail', hpd₁, harray⟩ :=
        @joinGroupReq_protocols ⟨version, isFlexible kJoinGroup version⟩ _ _ _ _ r x hview hdone
      rw [hprotocols] at harray
      exact secondIsFirst_of_read (fun _ _ => JoinGroupProtocol.mk.inj) hregular hfits hlong hpd₁
        harray
  | joinResp r =>
      by_cases hversion : 7 ≤ version
      · exact Or.inl hversion
      right
      obtain ⟨x, pd', hdone, hname, -, -⟩ := hdecodes
      obtain ⟨name, hsome⟩ := Option.isSome_iff_exists.mp (hfits.2 (not_le.mp hversion))
      have hleader := @joinGroupResp_leader ⟨version, isFlexible kJoinGroup version⟩ _ _ _ _ r x name
        hversion hsome hview hdone
      exact hleader.symm.trans hname
  | syncReq r =>
      by_cases hlegible : (GroupMessage.syncReq r).Legible version
      · exact Or.inl hlegible
      right
      obtain ⟨hversion, hlong⟩ := not_or.mp hlegible
      obtain ⟨x, pd', hdone, -, -, -, hassignments⟩ := hdecodes
      have hregular : isFlexible kSyncGroup version = false := by
        rw [isFlexible_kSyncGroup]
        exact decide_eq_false hversion
      change CountFits (isFlexible kSyncGroup version) _ at hfits
      rw [hregular, CountFits, if_neg (by decide)] at hfits
      obtain ⟨pd₁, pd₂, tail', hpd₁, harray⟩ :=
        @syncGroupReq_assignments ⟨version, isFlexible kSyncGroup version⟩ _ _ _ _ r x hview hdone
      rw [hassignments] at harray
      exact secondIsFirst_of_read (fun _ _ => SyncGroupAssignment.mk.inj) hregular hfits hlong hpd₁
        harray
  | syncResp r =>
      left
      intro hversion
      obtain ⟨x, pd', hdone, -⟩ := hdecodes
      have hflexible : isFlexible kSyncGroup version = true := by
        rw [isFlexible_kSyncGroup, decide_eq_true_eq]
        exact le_trans (by decide) hversion
      exact @syncGroupResp_some ⟨version, isFlexible kSyncGroup version⟩ _ _ _ _ r x hversion
        hflexible hview hdone

/-- **Messages of groups**, in every version. One that is legible is decoded, and one that is not
only if what it says coincides with what is read in its place. -/
theorem group_decoded (h : GroupInput version msg tail pd) :
    (msg.Legible version → msg.Decodes version pd)
      ∧ (msg.Decodes version pd → msg.Legible version ∨ msg.Coincides) :=
  ⟨h.decodes, h.legible_or⟩

end Groups

theorem noString_fits : ([] : GoString).length ≤ 32767 := by decide

theorem noTags_fit : ([] : List TaggedField).length < 2 ^ 31 := by decide

/-- A request to join with two protocols. -/
def joinWithTwo : JoinGroupRequest :=
  { groupId := ⟨text "orders", by decide⟩, sessionTimeoutMs := 10000, rebalanceTimeoutMs := 300000
    memberId := ⟨[], noString_fits⟩, groupInstanceId := none
    protocolType := ⟨text "consumer", by decide⟩
    protocols := [⟨⟨text "range", by decide⟩, ⟨[0, 1], by decide⟩, ⟨[], noTags_fit⟩⟩,
      ⟨⟨text "roundrobin", by decide⟩, ⟨[0, 1], by decide⟩, ⟨[], noTags_fit⟩⟩]
    tags := ⟨[], noTags_fit⟩ }

/-- The request in front of a decoder. -/
def joinInput (version : ℤ) : PacketDecoder :=
  (PacketDecoder.new (joinWithTwo.bytes version (isFlexible kJoinGroup version))).setAPIInfo
    kJoinGroup version

theorem joinInput_group {version : ℤ} (hknown : 0 ≤ version ∧ version ≤ 7) :
    GroupInput version (.joinReq joinWithTwo) [] (joinInput version) := by
  refine ⟨hknown, ?_, (List.append_nil _).symm, rfl, rfl⟩
  change CountFits _ 2
  unfold CountFits
  split_ifs
  · decide
  · decide

theorem group_decoded_flexible : (GroupMessage.joinReq joinWithTwo).Decodes 7 (joinInput 7) :=
  (group_decoded (joinInput_group (by decide))).1 (Or.inl (by decide))

/-- In version 0 the second protocol is named after the metadata of the first. -/
theorem two_protocols_misread :
    ¬ (GroupMessage.joinReq joinWithTwo).Decodes 0 (joinInput 0) := by
  intro hdecodes
  rcases (joinInput_group (by decide)).legible_or hdecodes with hlegible | hcoincides
  · have hlong : ¬ ((6 : ℤ) ≤ 0 ∨ 2 ≤ 1) := by decide
    exact hlong hlegible
  · have hdiffer : ¬ (text "roundrobin" = [0, 1] ∨ 65536 ≤ 2) := by decide
    exact hdiffer hcoincides

end Kyanos.Kafka
