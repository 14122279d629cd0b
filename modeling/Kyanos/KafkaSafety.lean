/-
When the Kafka parser panics.

`ParseStream` does not, on a head. `Match` decodes the packets of a pair it accepts, and there a
length below zero that nobody looks at faults, and a message whose header cannot be read is
written to although it is nil. Both can be seen from the bytes: a packet is readable if the walk
over its header goes through, and the walk over its body does not fault (`Layout`).

`Session.Readable` asks that of the pairs a `Match` is about to make, and a run of calls returns
just when it holds before every call (`run_returns_iff`).
-/
import Kyanos.KafkaLayouts
import Kyanos.KafkaMatches

set_option autoImplicit false

open GoNum Trace ByteReader

namespace Kyanos.Kafka

/-! ## The layouts of the bodies -/

namespace Layout

section Bodies

variable (c : ApiInfo)

/-- A string that may be null from a version on. -/
def nullableSince (version : ℤ) : Walk :=
  if version ≤ c.apiVersion then nullableString c else string c

def fetchReqPartition : Walk :=
  Walk.seq [word 4, since c 9 (word 4), word 8, since c 12 (word 4), since c 5 (word 8), word 4,
    tags c]

def fetchReqTopic : Walk := Walk.seq [string c, array c (fetchReqPartition c), tags c]

def forgottenTopic : Walk := Walk.seq [string c, array c (word 4), tags c]

def fetchReq : Walk :=
  Walk.seq [word 4, word 4, word 4, since c 3 (word 4), since c 4 (word 1), since c 7 (word 4),
    since c 7 (word 4), array c (fetchReqTopic c), since c 7 (array c (forgottenTopic c)),
    since c 11 (string c), tags c]

def abortedTransaction : Walk := Walk.seq [word 8, word 8, tags c]

def fetchRespPartition : Walk :=
  Walk.seq [word 4, word 2, word 8, since c 4 (word 8), since c 5 (word 8),
    since c 4 (array c (abortedTransaction c)), since c 11 (word 4), messageSet c]

def fetchRespTopic : Walk := Walk.seq [string c, array c (fetchRespPartition c), tags c]

def fetchResp : Walk :=
  Walk.seq [since c 1 (word 4), since c 7 (word 2), since c 7 (word 4),
    array c (fetchRespTopic c), tags c]

def produceReqPartition : Walk := Walk.seq [word 4, messageSet c]

def produceReqTopic : Walk := Walk.seq [string c, array c (produceReqPartition c), tags c]

def transactionalID : Walk :=
  if c.isFlexible then compactNullable else since c 3 (nullableString c)

def produceReq : Walk :=
  Walk.seq [transactionalID c, word 2, word 4, array c (produceReqTopic c)]

def recordError : Walk := Walk.seq [word 4, nullableString c, tags c]

def produceRespPartition : Walk :=
  Walk.seq [word 4, word 2, word 8, since c 2 (word 8), since c 5 (word 8),
    since c 8 (array c (recordError c)), since c 8 (nullableString c), tags c]

def produceRespTopic : Walk :=
  if c.isFlexible then Walk.seq [compact, compactArray (produceRespPartition c), tags c]
  else Walk.seq [string c, array c (produceRespPartition c)]

def produceResp : Walk := Walk.seq [array c (produceRespTopic c), since c 1 (word 4), tags c]

/-- A member of a group, or what is sent to one: byte strings have the lengths of strings. -/
def protocol : Walk := Walk.seq [string c, string c, tags c]

def joinGroupMember : Walk :=
  Walk.seq [string c, since c 5 (nullableString c), string c, tags c]

def joinGroupReq : Walk :=
  Walk.seq [string c, word 4, since c 1 (word 4), string c, since c 5 (nullableString c), string c,
    array c (protocol c)]

def joinGroupResp : Walk :=
  Walk.seq [since c 2 (word 4), word 2, word 4, nullableSince c 7, nullableSince c 7, string c,
    string c, array c (joinGroupMember c)]

def syncGroupReq : Walk :=
  Walk.seq [string c, word 4, string c, since c 3 (nullableString c), since c 5 (nullableString c),
    since c 5 (nullableString c), array c (protocol c), tags c]

def syncGroupResp : Walk :=
  Walk.seq [since c 1 (word 4), word 2, since c 5 (string c), since c 5 (string c), string c,
    tags c]

def metadataReqTopic : Walk := Walk.seq [since c 10 (string c), nullableSince c 10, tags c]

/-- The last flag of a metadata request, up to version 10. -/
def topicAuthorized : Walk := if c.apiVersion ≤ 10 then word 1 else Verdict.goes

def metadataReq : Walk :=
  Walk.seq [array c (metadataReqTopic c), since c 4 (word 1), since c 8 (word 1),
    since c 8 (topicAuthorized c), tags c]

def reqBody (apiKey : ℤ) : Walk :=
  if apiKey = kProduce then produceReq c
  else if apiKey = kFetch then fetchReq c
  else if apiKey = kJoinGroup then joinGroupReq c
  else if apiKey = kSyncGroup then syncGroupReq c
  else if apiKey = kMetadata then metadataReq c
  else Verdict.goes

def respBody (apiKey : ℤ) : Walk :=
  if apiKey = kProduce then produceResp c
  else if apiKey = kFetch then fetchResp c
  else if apiKey = kJoinGroup then joinGroupResp c
  else if apiKey = kSyncGroup then syncGroupResp c
  else Verdict.goes

/-- What is behind the API of a request: the correlation id, the client id and tagged fields. -/
def reqHeader : Walk := Walk.seq [word 4, regularNullable, tags c]

def respHeader : Walk := (word 4).andThen (tags c)

end Bodies

end Layout

/-! ## The decoders of the bodies follow -/

section Follow

open Layout

variable {c : ApiInfo}

theorem follows_bool : FollowsIn c extractBool (word 1) := (follows_int 1).map

theorem follows_stringNullableSince (version : ℤ) :
    FollowsIn c (extractStringNullableSince version) (nullableSince c version) := by
  refine Follows.look (x := c.apiVersion) (fun pd h => by rw [← h]; rfl) ?_
  unfold nullableSince
  split_ifs
  · exact follows_nullableString
  · exact follows_string

theorem follows_fetchReqPartition : FollowsIn c extractFetchReqPartition (fetchReqPartition c) := by
  refine (follows_int 4).bind (fun _ => ?_)
  refine (follows_since 9 _ (follows_int 4)).bind (fun _ => ?_)
  refine (follows_int 8).bind (fun _ => ?_)
  refine (follows_since 12 _ (follows_int 4)).bind (fun _ => ?_)
  refine (follows_since 5 _ (follows_int 8)).bind (fun _ => ?_)
  refine (follows_int 4).bind (fun _ => ?_)
  exact follows_tagSection.bind (fun _ => Follows.pure _)

theorem follows_fetchReqTopic : FollowsIn c extractFetchReqTopic (fetchReqTopic c) := by
  refine follows_string.bind (fun _ => ?_)
  refine (follows_array follows_fetchReqPartition).bind (fun _ => ?_)
  exact follows_tagSection.bind (fun _ => Follows.pure _)

theorem follows_forgottenTopic :
    FollowsIn c extractFetchForgottenTopicsData (forgottenTopic c) := by
  refine follows_string.bind (fun _ => ?_)
  refine (follows_array (follows_int 4)).bind (fun _ => ?_)
  exact follows_tagSection.bind (fun _ => Follows.pure _)

theorem follows_fetchReq : FollowsIn c extractFetchReq (fetchReq c) := by
  refine (follows_int 4).bind (fun _ => ?_)
  refine (follows_int 4).bind (fun _ => ?_)
  refine (follows_int 4).bind (fun _ => ?_)
  refine (follows_since 3 _ (follows_int 4)).bind (fun _ => ?_)
  refine (follows_since 4 _ (follows_int 1)).bind (fun _ => ?_)
  refine (follows_since 7 _ (follows_int 4)).bind (fun _ => ?_)
  refine (follows_since 7 _ (follows_int 4)).bind (fun _ => ?_)
  refine (follows_array follows_fetchReqTopic).bind (fun _ => ?_)
  refine (follows_since 7 _ (follows_array follows_forgottenTopic)).bind (fun _ => ?_)
  refine (follows_since 11 _ follows_string).bind (fun _ => ?_)
  exact follows_tagSection.bind (fun _ => Follows.pure _)

theorem follows_abortedTransaction :
    FollowsIn c extractFetchRespAbortedTransaction (abortedTransaction c) := by
  refine (follows_int 8).bind (fun _ => ?_)
  refine (follows_int 8).bind (fun _ => ?_)
  exact follows_tagSection.bind (fun _ => Follows.pure _)

theorem follows_fetchRespPartition :
    FollowsIn c extractFetchRespPartition (fetchRespPartition c) := by
  refine (follows_int 4).bind (fun _ => ?_)
  refine (follows_int 2).bind (fun _ => ?_)
  refine (follows_int 8).bind (fun _ => ?_)
  refine (follows_since 4 _ (follows_int 8)).bind (fun _ => ?_)
  refine (follows_since 5 _ (follows_int 8)).bind (fun _ => ?_)
  refine (follows_since 4 _ (follows_array follows_abortedTransaction)).bind (fun _ => ?_)
  refine (follows_since 11 _ (follows_int 4)).bind (fun _ => ?_)
  exact follows_messageSet.bind (fun _ => Follows.pure _)

theorem follows_fetchRespTopic : FollowsIn c extractFetchRespTopic (fetchRespTopic c) := by
  refine follows_string.bind (fun _ => ?_)
  refine (follows_array follows_fetchRespPartition).bind (fun _ => ?_)
  exact follows_tagSection.bind (fun _ => Follows.pure _)

theorem follows_fetchResp : FollowsIn c extractFetchResp (fetchResp c) := by
  refine (follows_since 1 _ (follows_int 4)).bind (fun _ => ?_)
  refine (follows_since 7 _ (follows_int 2)).bind (fun _ => ?_)
  refine (follows_since 7 _ (follows_int 4)).bind (fun _ => ?_)
  refine (follows_array follows_fetchRespTopic).bind (fun _ => ?_)
  exact follows_tagSection.bind (fun _ => Follows.pure _)

theorem follows_produceReqPartition :
    FollowsIn c extractProduceReqPartition (produceReqPartition c) := by
  refine (follows_int 4).bind (fun _ => ?_)
  exact follows_messageSet.bind (fun _ => Follows.pure _)

theorem follows_produceReqTopic : FollowsIn c extractProduceReqTopic (produceReqTopic c) := by
  refine follows_string.bind (fun _ => ?_)
  refine (follows_array follows_produceReqPartition).bind (fun _ => ?_)
  exact follows_tagSection.bind (fun _ => Follows.pure _)

theorem follows_transactionalID : FollowsIn c extractTransactionalID (transactionalID c) :=
  follows_ite (follows_compactNullable _) (follows_since 3 _ follows_nullableString)

theorem follows_produceReq : FollowsIn c extractProduceReq (produceReq c) := by
  refine follows_transactionalID.bind (fun _ => ?_)
  refine (follows_int 2).bind (fun _ => ?_)
  refine (follows_int 4).bind (fun _ => ?_)
  exact (follows_array follows_produceReqTopic).bind (fun _ => Follows.pure _)

theorem follows_recordError : FollowsIn c extractRecordError (recordError c) := by
  refine (follows_int 4).bind (fun _ => ?_)
  refine follows_nullableString.bind (fun _ => ?_)
  exact follows_tagSection.bind (fun _ => Follows.pure _)

theorem follows_produceRespPartition :
    FollowsIn c extractProduceRespPartition (produceRespPartition c) := by
  refine (follows_int 4).bind (fun _ => ?_)
  refine (follows_int 2).bind (fun _ => ?_)
  refine (follows_int 8).bind (fun _ => ?_)
  refine (follows_since 2 _ (follows_int 8)).bind (fun _ => ?_)
  refine (follows_since 5 _ (follows_int 8)).bind (fun _ => ?_)
  refine (follows_since 8 _ (follows_array follows_recordError)).bind (fun _ => ?_)
  refine (follows_since 8 _ follows_nullableString).bind (fun _ => ?_)
  exact follows_tagSection.bind (fun _ => Follows.pure _)

theorem follows_produceRespTopic : FollowsIn c extractProduceRespTopic (produceRespTopic c) := by
  refine follows_ite ?_ ?_
  · refine (follows_compact _).bind (fun _ => ?_)
    refine (follows_compactArray follows_produceRespPartition).bind (fun _ => ?_)
    exact follows_tagSection.bind (fun _ => Follows.pure _)
  · refine follows_string.bind (fun _ => ?_)
    exact (follows_array follows_produceRespPartition).bind (fun _ => Follows.pure _)

theorem follows_produceResp : FollowsIn c extractProduceResp (produceResp c) := by
  refine (follows_array follows_produceRespTopic).bind (fun _ => ?_)
  refine (follows_since 1 _ (follows_int 4)).bind (fun _ => ?_)
  exact follows_tagSection.bind (fun _ => Follows.pure _)

theorem follows_joinGroupProtocol : FollowsIn c extractJoinGroupProtocol (protocol c) := by
  refine follows_string.bind (fun _ => ?_)
  refine follows_bytes.bind (fun _ => ?_)
  exact follows_tagSection.bind (fun _ => Follows.pure _)

theorem follows_joinGroupMember : FollowsIn c extractJoinGroupMember (joinGroupMember c) := by
  refine follows_string.bind (fun _ => ?_)
  refine (follows_since 5 _ follows_nullableString).bind (fun _ => ?_)
  refine follows_bytes.bind (fun _ => ?_)
  exact follows_tagSection.bind (fun _ => Follows.pure _)

theorem follows_joinGroupReq : FollowsIn c extractJoinGroupReq (joinGroupReq c) := by
  refine follows_string.bind (fun _ => ?_)
  refine (follows_int 4).bind (fun _ => ?_)
  refine (follows_since 1 _ (follows_int 4)).bind (fun _ => ?_)
  refine follows_string.bind (fun _ => ?_)
  refine (follows_since 5 _ follows_nullableString).bind (fun _ => ?_)
  refine follows_string.bind (fun _ => ?_)
  exact (follows_array follows_joinGroupProtocol).bind (fun _ => Follows.pure _)

theorem follows_joinGroupResp : FollowsIn c extractJoinGroupResp (joinGroupResp c) := by
  refine (follows_since 2 _ (follows_int 4)).bind (fun _ => ?_)
  refine (follows_int 2).bind (fun _ => ?_)
  refine (follows_int 4).bind (fun _ => ?_)
  refine (follows_stringNullableSince 7).bind (fun _ => ?_)
  refine (follows_stringNullableSince 7).bind (fun _ => ?_)
  refine follows_string.bind (fun _ => ?_)
  refine follows_string.bind (fun _ => ?_)
  exact (follows_array follows_joinGroupMember).bind (fun _ => Follows.pure _)

theorem follows_syncGroupAssignment : FollowsIn c extractSyncGroupAssignment (protocol c) := by
  refine follows_string.bind (fun _ => ?_)
  refine follows_bytes.bind (fun _ => ?_)
  exact follows_tagSection.bind (fun _ => Follows.pure _)

theorem follows_syncGroupReq : FollowsIn c extractSyncGroupReq (syncGroupReq c) := by
  refine follows_string.bind (fun _ => ?_)
  refine (follows_int 4).bind (fun _ => ?_)
  refine follows_string.bind (fun _ => ?_)
  refine (follows_since 3 _ follows_nullableString).bind (fun _ => ?_)
  refine (follows_since 5 _ follows_nullableString).bind (fun _ => ?_)
  refine (follows_since 5 _ follows_nullableString).bind (fun _ => ?_)
  refine (follows_array follows_syncGroupAssignment).bind (fun _ => ?_)
  exact follows_tagSection.bind (fun _ => Follows.pure _)

theorem follows_syncGroupResp : FollowsIn c extractSyncGroupResp (syncGroupResp c) := by
  refine (follows_since 1 _ (follows_int 4)).bind (fun _ => ?_)
  refine (follows_int 2).bind (fun _ => ?_)
  refine (follows_since 5 _ follows_string).bind (fun _ => ?_)
  refine (follows_since 5 _ follows_string).bind (fun _ => ?_)
  refine follows_bytes.bind (fun _ => ?_)
  exact follows_tagSection.bind (fun _ => Follows.pure _)

theorem follows_metadataReqTopic : FollowsIn c extractMetadataReqTopic (metadataReqTopic c) := by
  refine (follows_since 10 _ follows_string).bind (fun _ => ?_)
  refine (follows_stringNullableSince 10).bind (fun _ => ?_)
  exact follows_tagSection.bind (fun _ => Follows.pure _)

theorem follows_topicAuthorized : FollowsIn c extractTopicAuthorized (topicAuthorized c) := by
  refine Follows.look (x := c.apiVersion) (fun pd h => by rw [← h]; rfl) ?_
  unfold topicAuthorized
  split_ifs
  · exact follows_bool
  · exact Follows.pure _

theorem follows_metadataReq : FollowsIn c extractMetadataReq (metadataReq c) := by
  refine (follows_array follows_metadataReqTopic).bind (fun _ => ?_)
  refine (follows_since 4 _ follows_bool).bind (fun _ => ?_)
  refine (follows_since 8 _ follows_bool).bind (fun _ => ?_)
  refine (follows_since 8 _ follows_topicAuthorized).bind (fun _ => ?_)
  exact follows_tagSection.bind (fun _ => Follows.pure _)

theorem follows_reqBody (apiKey : ℤ) : FollowsIn c (extractReqBody apiKey) (reqBody c apiKey) := by
  unfold extractReqBody reqBody
  split_ifs
  · exact follows_produceReq.map
  · exact follows_fetchReq.map
  · exact follows_joinGroupReq.map
  · exact follows_syncGroupReq.map
  · exact follows_metadataReq.map
  · exact Follows.pure _

theorem follows_respBody (apiKey : ℤ) :
    FollowsIn c (extractRespBody apiKey) (respBody c apiKey) := by
  unfold extractRespBody respBody
  split_ifs
  · exact follows_produceResp.map
  · exact follows_fetchResp.map
  · exact follows_joinGroupResp.map
  · exact follows_syncGroupResp.map
  · exact Follows.pure _

theorem follows_respHeader : FollowsIn c extractRespHeader (respHeader c) := by
  refine (follows_int 4).bind (fun _ => ?_)
  exact follows_tagSection

end Follow

/-! ## Packets -/

def ApiInfo.of (apiKey apiVersion : ℤ) : ApiInfo :=
  { apiVersion := apiVersion, isFlexible := Kafka.isFlexible apiKey apiVersion }

/-- The API a request names, and the bytes behind it. -/
def frontApi (msg : GoString) : Option (ℤ × ℤ × GoString) :=
  match frontInt 2 msg with
  | (none, _) => none
  | (some apiKey, b) =>
      match frontInt 2 b with
      | (none, _) => none
      | (some apiVersion, b) => some (apiKey, apiVersion, b)

/-- The header is there, and nothing in the body faults. -/
def Readable (header body : Walk) (b : GoString) : Prop :=
  ∃ rest, header b = .goes rest ∧ body rest ≠ .faults

def ReadableReq (msg : GoString) (apiKey apiVersion : ℤ) : Prop :=
  ∃ b, frontApi msg = some (apiKey, apiVersion, b)
    ∧ Readable (Layout.reqHeader (ApiInfo.of apiKey apiVersion))
      (Layout.reqBody (ApiInfo.of apiKey apiVersion) apiKey) b

def ReadableResp (msg : GoString) (apiKey apiVersion : ℤ) : Prop :=
  Readable (Layout.respHeader (ApiInfo.of apiKey apiVersion))
    (Layout.respBody (ApiInfo.of apiKey apiVersion) apiKey) msg

/-- The request is later than the response, and so the pair is refused; or both are readable, the
response in the API of the request. -/
def ReadablePair (req resp : Packet) : Prop :=
  req.base.timestampNs > resp.base.timestampNs
    ∨ ∃ apiKey apiVersion, ReadableReq req.msg apiKey apiVersion
      ∧ ReadableResp resp.msg apiKey apiVersion

section Packets

variable {c : ApiInfo} {pd : PacketDecoder}

theorem onPacket_returns_iff {α : Type} {p : Extract α} {w : Walk} (hp : FollowsIn c p w)
    (hinfo : pd.view.info = c) :
    (∃ r, onPacket p pd = .ok r) ↔ w pd.binaryDecoder.str ≠ .faults := by
  have h := hp pd hinfo
  rw [view_rest] at h
  unfold onPacket
  generalize w pd.binaryDecoder.str = verdict at h ⊢
  rcases verdict with rest | _ | _
  · obtain ⟨a, pd', hdone, -⟩ := h
    rw [hdone]
    simp
  · obtain ⟨e, pd', hfailed⟩ := h
    rw [hfailed]
    simp
  · obtain ⟨q, hfault⟩ := h
    rw [hfault]
    simp

theorem onPacket_some_iff {α : Type} {p : Extract α} {w : Walk} (hp : FollowsIn c p w)
    (hinfo : pd.view.info = c) :
    (∃ a, onPacket p pd = .ok (some a)) ↔ ∃ rest, w pd.binaryDecoder.str = .goes rest := by
  have h := hp pd hinfo
  rw [view_rest] at h
  unfold onPacket
  generalize w pd.binaryDecoder.str = verdict at h ⊢
  rcases verdict with rest | _ | _
  · obtain ⟨a, pd', hdone, -⟩ := h
    rw [hdone]
    simp
  · obtain ⟨e, pd', hfailed⟩ := h
    rw [hfailed]
    simp
  · obtain ⟨q, hfault⟩ := h
    rw [hfault]
    simp

theorem onPacket_map {α β : Type} (p : Extract α) (f : α → β) :
    onPacket (p >>= fun a => pure (f a)) pd = (onPacket p pd).map (Option.map f) := by
  unfold onPacket
  rcases hend : p pd with ⟨a, pd'⟩ | ⟨e, pd'⟩ | q
  · rw [bind_done hend]
    rfl
  · rw [bind_failed hend]
    rfl
  · rw [bind_fault hend]
    rfl

theorem readable_iff {header body : Walk} {b : GoString} : Readable header body b
    ↔ (∃ rest, header b = .goes rest) ∧ (header.andThen body) b ≠ .faults := by
  unfold Readable Walk.andThen
  rcases header b with rest | _ | _
  · simp
  · simp
  · simp

/-- What `ExtractReqHeader` reads behind the API. -/
def behindApi : Extract GoString := do
  let _ ← extractInt32
  let clientId ← extractRegularNullableString
  extractTagSection
  pure clientId

theorem follows_behindApi : FollowsIn c behindApi (Layout.reqHeader c) := by
  refine (follows_int 4).bind (fun _ => ?_)
  refine follows_regularNullable.bind (fun _ => ?_)
  exact follows_tagSection.bind (fun _ => Follows.pure _)

theorem extractReqHeader_behindApi : extractReqHeader = (do
    let apiKey ← extractInt16
    let apiVersion ← extractInt16
    setAPIInfo apiKey apiVersion
    let clientId ← behindApi
    pure (apiKey, apiVersion, clientId)) := by
  simp only [extractReqHeader, behindApi, bind_assoc, pure_bind]

/-- Without an API there is no header. -/
theorem extractReqHeader_none {msg : GoString} (h : frontApi msg = none) :
    ∃ e pd', extractReqHeader (PacketDecoder.new msg) = .failed e pd' := by
  rw [extractReqHeader_behindApi]
  obtain ⟨pd₁, hview₁, hend₁⟩ := extractInt_fronts 2 (PacketDecoder.new msg)
  have hstr : (PacketDecoder.view (PacketDecoder.new msg)).rest = msg := rfl
  rw [hstr] at hview₁ hend₁
  unfold frontApi at h
  rcases hkey : frontInt 2 msg with ⟨_ | apiKey, b⟩
  · rw [hkey] at hend₁
    obtain ⟨e, hfailed⟩ := hend₁
    exact ⟨e, pd₁, bind_failed hfailed⟩
  · rw [hkey] at hend₁ hview₁ h
    dsimp only at hend₁ h
    obtain ⟨pd₂, hview₂, hend₂⟩ := extractInt_fronts 2 pd₁
    have hrest₁ : (PacketDecoder.view pd₁).rest = b := by rw [hview₁]
    rw [hrest₁] at hend₂
    rcases hversion : frontInt 2 b with ⟨_ | apiVersion, b'⟩
    · rw [hversion] at hend₂
      obtain ⟨e, hfailed⟩ := hend₂
      exact ⟨e, pd₂, (bind_done hend₁).trans (bind_failed hfailed)⟩
    · rw [hversion] at h
      cases h

/-- Behind the API of a request its version is known. -/
theorem extractReqHeader_some {msg b : GoString} {apiKey apiVersion : ℤ}
    (h : frontApi msg = some (apiKey, apiVersion, b)) :
    ∃ pd' : PacketDecoder, pd'.binaryDecoder.str = b
      ∧ pd'.view.info = ApiInfo.of apiKey apiVersion
      ∧ extractReqHeader (PacketDecoder.new msg)
        = (behindApi >>= fun clientId => pure (apiKey, apiVersion, clientId)) pd' := by
  rw [extractReqHeader_behindApi]
  obtain ⟨pd₁, hview₁, hend₁⟩ := extractInt_fronts 2 (PacketDecoder.new msg)
  have hstr : (PacketDecoder.view (PacketDecoder.new msg)).rest = msg := rfl
  rw [hstr] at hview₁ hend₁
  unfold frontApi at h
  rcases hkey : frontInt 2 msg with ⟨_ | _, b₁⟩
  · rw [hkey] at h
    cases h
  · rw [hkey] at hend₁ hview₁ h
    dsimp only at hend₁ h
    obtain ⟨pd₂, hview₂, hend₂⟩ := extractInt_fronts 2 pd₁
    have hrest₁ : (PacketDecoder.view pd₁).rest = b₁ := by rw [hview₁]
    rw [hrest₁] at hview₂ hend₂
    rcases hversion : frontInt 2 b₁ with ⟨_ | _, b₂⟩
    · rw [hversion] at h
      cases h
    · rw [hversion] at hend₂ hview₂ h
      cases h
      refine ⟨pd₂.setAPIInfo apiKey apiVersion, ?_, rfl, ?_⟩
      · exact congrArg Cursor.rest hview₂
      · exact (bind_done hend₁).trans ((bind_done hend₂).trans (bind_done rfl))

theorem processReq_readable_iff {packet : Packet} {apiKey apiVersion : ℤ} :
    (∃ reqMsg, processReq packetDecoders packet = .ok (some reqMsg)
      ∧ reqMsg.apikey = apiKey ∧ reqMsg.apiVersion = apiVersion)
      ↔ ReadableReq packet.msg apiKey apiVersion := by
  unfold processReq packetDecoders ReadableReq
  dsimp only
  rcases hapi : frontApi packet.msg with _ | ⟨apiKey', apiVersion', b⟩
  · obtain ⟨e, pd', hfailed⟩ := extractReqHeader_none hapi
    have hheader : onPacket extractReqHeader (PacketDecoder.new packet.msg) = .ok none := by
      rw [onPacket, hfailed]
    rw [hheader]
    simp [ok_bind]
  · obtain ⟨pd', hstr, hinfo, hbehind⟩ := extractReqHeader_some hapi
    have hheader := onPacket_some_iff follows_behindApi hinfo
    have hbody := onPacket_returns_iff
      (follows_behindApi.bind fun _ => follows_reqBody apiKey') hinfo
    have hreq : onPacket extractReqHeader (PacketDecoder.new packet.msg)
        = (onPacket behindApi pd').map (Option.map fun clientId =>
          (apiKey', apiVersion', clientId)) := by
      rw [← onPacket_map, onPacket, hbehind]
      rfl
    have hbehindBody : (extractReqHeader >>= fun header => extractReqBody header.1)
        (PacketDecoder.new packet.msg) = (behindApi >>= fun _ => extractReqBody apiKey') pd' := by
      rw [bind_of_eq hbehind, bind_assoc]
      rfl
    have hreqBody : onPacket (extractReqHeader >>= fun header => extractReqBody header.1)
        (PacketDecoder.new packet.msg)
        = onPacket (behindApi >>= fun _ => extractReqBody apiKey') pd' := by
      rw [onPacket, hbehindBody]
      rfl
    rw [hstr] at hheader hbody
    rw [hreq, hreqBody]
    have hreadable : (∃ b₁, some (apiKey', apiVersion', b) = some (apiKey, apiVersion, b₁)
        ∧ Readable (Layout.reqHeader (ApiInfo.of apiKey apiVersion))
          (Layout.reqBody (ApiInfo.of apiKey apiVersion) apiKey) b₁)
        ↔ (apiKey' = apiKey ∧ apiVersion' = apiVersion)
          ∧ Readable (Layout.reqHeader (ApiInfo.of apiKey' apiVersion'))
            (Layout.reqBody (ApiInfo.of apiKey' apiVersion') apiKey') b := by
      constructor
      · rintro ⟨b₁, heq, h⟩
        cases heq
        exact ⟨⟨rfl, rfl⟩, h⟩
      · rintro ⟨⟨rfl, rfl⟩, h⟩
        exact ⟨b, rfl, h⟩
    rw [hreadable, readable_iff, ← hheader, ← hbody]
    generalize onPacket behindApi pd' = header
    generalize onPacket _ pd' = body
    rcases header with p | _ | clientId
    · simp [Except.map, error_bind]
    · simp [Except.map, ok_bind]
    · rcases body with p | origin
      · simp [Except.map, ok_bind, error_bind]
      · simp [Except.map, ok_bind]

theorem processResp_readable_iff {packet : Packet} {apiKey apiVersion : ℤ} :
    (∃ respMsg, processResp packetDecoders packet apiKey apiVersion = .ok (some respMsg))
      ↔ ReadableResp packet.msg apiKey apiVersion := by
  have hinfo : ((PacketDecoder.new packet.msg).setAPIInfo apiKey apiVersion).view.info
      = ApiInfo.of apiKey apiVersion := rfl
  have hheader := onPacket_some_iff follows_respHeader hinfo
  have hbody := onPacket_returns_iff
    (follows_respHeader.bind fun _ => follows_respBody apiKey) hinfo
  have hstr : ((PacketDecoder.new packet.msg).setAPIInfo apiKey apiVersion).binaryDecoder.str
      = packet.msg := rfl
  rw [hstr] at hheader hbody
  rw [ReadableResp, readable_iff, ← hheader, ← hbody]
  unfold processResp packetDecoders
  dsimp only
  generalize onPacket extractRespHeader _ = header
  generalize onPacket _ _ = body
  rcases header with p | _ | header
  · simp [error_bind]
  · simp [ok_bind]
  · rcases body with p | origin
    · simp [ok_bind, error_bind]
    · simp [ok_bind]

theorem processReqRespPair_returns_iff {req resp : Packet} :
    (∃ pair, processReqRespPair packetDecoders req resp = .ok pair) ↔ ReadablePair req resp := by
  unfold processReqRespPair ReadablePair
  by_cases hlater : req.base.timestampNs > resp.base.timestampNs
  · rw [if_pos hlater]
    exact iff_of_true ⟨none, rfl⟩ (Or.inl hlater)
  · rw [if_neg hlater, or_iff_right hlater]
    simp only [← processReq_readable_iff, ← processResp_readable_iff]
    rcases processReq packetDecoders req with p | _ | reqMsg
    · simp [error_bind]
    · simp [ok_bind]
    · rw [ok_bind]
      dsimp only
      rcases hresp : processResp packetDecoders resp reqMsg.apikey reqMsg.apiVersion with
        p | _ | respMsg
      · refine iff_of_false ?_ ?_
        · rintro ⟨pair, h⟩
          cases h
        · rintro ⟨_, _, ⟨_, heq, rfl, rfl⟩, respMsg, h⟩
          cases heq
          rw [hresp] at h
          cases h
      · refine iff_of_false ?_ ?_
        · rintro ⟨pair, h⟩
          cases h
        · rintro ⟨_, _, ⟨_, heq, rfl, rfl⟩, respMsg, h⟩
          cases heq
          rw [hresp] at h
          cases h
      · exact iff_of_true ⟨_, rfl⟩ ⟨_, _, ⟨reqMsg, rfl, rfl, rfl⟩, respMsg, hresp⟩

end Packets

/-! ## Runs -/

/-- The last response in the queue with a correlation id. -/
def lastWith (id : ℤ) (respStream : List Tagged) : Option Tagged :=
  respStream.reverse.find? (fun resp => resp.id = id)

theorem tagMap_get?_eq (id : ℤ) (respStream : List Tagged) :
    (tagMap respStream).get? id = lastWith id respStream := by
  unfold tagMap lastWith
  rw [← List.foldr_reverse]
  generalize respStream.reverse = l
  induction l with
  | nil => rfl
  | cons resp l ih =>
      rw [List.foldr_cons, SortedMap.get?_put, List.find?_cons, ih]
      by_cases hid : resp.id = id
      · simp [hid]
      · rw [if_neg (fun h => hid h.symm), decide_eq_false hid]

/-- The loop returns just when each pair it comes to does. -/
theorem tagLoop_returns_iff {decoders : Decoders} {k : State} {m : SortedMap ℤ Tagged}
    {reqStream : List Tagged} : (∃ r, tagLoop decoders k m reqStream = .ok r)
      ↔ ∀ id req resp, firstWith id reqStream = some req → m.get? id = some resp →
        ∃ pair, processReqRespPair decoders req.packet resp.packet = .ok pair := by
  induction reqStream generalizing k m with
  | nil => simp [tagLoop, firstWith]
  | cons req reqStream ih =>
      rw [tagLoop]
      rcases hresp : m.get? req.id with _ | resp
      · have hne : ∀ id resp, m.get? id = some resp → req.id ≠ id := by
          rintro id resp hid rfl
          rw [hresp] at hid
          cases hid
        constructor
        · rintro ⟨r, h⟩ id req' resp' hfirst hid
          obtain ⟨r₁, hloop, -⟩ := bind_eq_ok.mp h
          rw [firstWith_cons_of_ne (hne _ _ hid)] at hfirst
          exact ih.mp ⟨r₁, hloop⟩ id req' resp' hfirst hid
        · intro hall
          obtain ⟨r₁, hloop⟩ := (ih (k := k) (m := m)).mpr (by
            intro id req' resp' hfirst hid
            refine hall id req' resp' ?_ hid
            rw [firstWith_cons_of_ne (hne _ _ hid)]
            exact hfirst)
          exact ⟨_, bind_eq_ok.mpr ⟨r₁, hloop, rfl⟩⟩
      · constructor
        · rintro ⟨r, h⟩ id req' resp' hfirst hid
          obtain ⟨pair, hpair, h⟩ := bind_eq_ok.mp h
          obtain ⟨r₁, hloop, -⟩ := bind_eq_ok.mp h
          by_cases hsame : req.id = id
          · subst hsame
            rw [firstWith_cons_self] at hfirst
            rw [hresp] at hid
            cases hfirst
            cases hid
            exact ⟨pair, hpair⟩
          · rw [firstWith_cons_of_ne hsame] at hfirst
            refine ih.mp ⟨r₁, hloop⟩ id req' resp' hfirst ?_
            rw [SortedMap.get?_remove, if_neg (fun h => hsame h.symm)]
            exact hid
        · intro hall
          obtain ⟨pair, hpair⟩ := hall req.id req resp (firstWith_cons_self req reqStream) hresp
          obtain ⟨r₁, hloop⟩ := (ih (k := answered k req.packet pair) (m := m.remove req.id)).mpr
            (by
              intro id req' resp' hfirst hid
              rw [SortedMap.get?_remove] at hid
              split_ifs at hid with hsame
              refine hall id req' resp' ?_ hid
              rw [firstWith_cons_of_ne (fun h => hsame h.symm)]
              exact hfirst)
          exact ⟨_, bind_eq_ok.mpr ⟨pair, hpair, bind_eq_ok.mpr ⟨r₁, hloop, rfl⟩⟩⟩

/-- What a call asks of the state before it: a parse, that the buffer has a head; a match, that
the first request and the last response of each correlation id are a readable pair. -/
def Session.Readable (s : Session) : Call → Prop
  | .parseStream sb _ => sb.head ≠ none
  | .matchStreams => ∀ id req resp, firstWith id s.reqStream = some req →
      lastWith id s.respStream = some resp → ReadablePair req.packet resp.packet

theorem Session.step_returns_iff (s : Session) (call : Call) :
    (∃ s', s.step packetDecoders call = .ok s') ↔ s.Readable call := by
  rcases call with ⟨sb, messageType⟩ | _
  · unfold Session.step Session.Readable
    dsimp only
    rcases hhead : sb.head with _ | head
    · unfold parseStream
      rw [hhead]
      simp [error_bind]
    · obtain ⟨r, k, hparse, -⟩ := parseStream_returns s.parser messageType hhead
      rw [hparse]
      simp [ok_bind]
  · unfold Session.step Session.Readable tagMatch
    dsimp only
    split_ifs with hempty
    · refine iff_of_true ⟨_, rfl⟩ ?_
      intro id req resp hreq hresp
      rcases hempty with hempty | hempty
      · rw [List.length_eq_zero_iff.mp hempty] at hreq
        cases hreq
      · rw [List.length_eq_zero_iff.mp hempty] at hresp
        cases hresp
    · simp only [← processReqRespPair_returns_iff, ← tagMap_get?_eq]
      rw [← tagLoop_returns_iff (k := s.parser)]
      constructor
      · rintro ⟨s', h⟩
        obtain ⟨r, hmatch, -⟩ := bind_eq_ok.mp h
        obtain ⟨r₁, hloop, -⟩ := bind_eq_ok.mp hmatch
        exact ⟨r₁, hloop⟩
      · rintro ⟨r₁, hloop⟩
        exact ⟨_, bind_eq_ok.mpr ⟨_, bind_eq_ok.mpr ⟨r₁, hloop, rfl⟩, rfl⟩⟩

/-- **The parser returns** from every call of a run just when, in the state before each `Match`,
the pairs it is about to make are readable. -/
theorem run_returns_iff (calls : List Call) :
    (∃ s, Run (Session.step packetDecoders) (fun _ _ => True) Session.new calls s)
      ↔ ∀ front call back s, calls = front ++ call :: back →
        Run (Session.step packetDecoders) (fun _ _ => True) Session.new front s →
          s.Readable call :=
  Run.exists_iff Session.step_returns_iff calls

/-- A request to join a group, whose id has the length -1, and a response to it. -/
def negativeLengthParses : List Call :=
  [.parseStream (headAt 1 [0, 0, 0, 12, 0, 11, 0, 0, 0, 0, 0, 1, 255, 255, 255, 255]) .request,
    .parseStream (headAt 2 [0, 0, 0, 5, 0, 0, 0, 1, 0]) .response]

/-- The length is not looked at, and `Match` panics. -/
theorem negative_length_panics :
    ¬ ∀ calls, (∀ sb messageType, Call.parseStream sb messageType ∈ calls → sb.head ≠ none) →
      ∃ s, Run (Session.step packetDecoders) (fun _ _ => True) Session.new calls s := by
  intro h
  obtain ⟨s', hrun⟩ := h (negativeLengthParses ++ [.matchStreams]) (by
    intro sb messageType hmem
    simp only [negativeLengthParses, List.cons_append, List.nil_append, List.mem_cons,
      Call.parseStream.injEq, List.not_mem_nil, or_false, reduceCtorEq] at hmem
    rcases hmem with ⟨rfl, -⟩ | ⟨rfl, -⟩ <;> simp [headAt, StreamBuffer.head])
  obtain ⟨s, hparses, -, hmatch⟩ := hrun.of_snoc
  have hpanic : (exec (Session.step packetDecoders) (fun _ _ => True) Session.new
      negativeLengthParses).map (fun s => (s.step packetDecoders .matchStreams).isOk)
        = some false := by decide +kernel
  obtain ⟨s₁, hexec, herror⟩ := Option.map_eq_some_iff.mp hpanic
  rw [hparses.unique (Run.of_exec hexec)] at hmatch
  rw [hmatch] at herror
  cases herror

end Kyanos.Kafka
