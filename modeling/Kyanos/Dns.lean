/-
`agent/protocol/dns/dns.go`: the DNS matcher.

A response is paired with the first request of its transaction id, which is looked for only
among the requests up to its own time. A request that is consumed leaves the queue when it
has come to the front, and can be found again until then.
-/
import Kyanos.Messages

set_option autoImplicit false

namespace Kyanos.Dns

def recordOf (reqFrame respFrame : DnsFrame) : Record Message :=
  { req := some (.dns reqFrame), resp := some (.dns respFrame), responseStatus := .noneStatus }

def consume (frame : DnsFrame) : DnsFrame := { frame with consumed := true }

/-- The loop over the requests: the one that is found, and the queue with it consumed. -/
def findRequest (resp : DnsFrame) : List DnsFrame → Option DnsFrame × List DnsFrame
  | [] => (none, [])
  | req :: reqStream =>
      if req.base.timestampNs > resp.base.timestampNs then (none, req :: reqStream)
      -- Whether it is consumed already is not asked.
      else if req.txid = resp.txid then (some (consume req), consume req :: reqStream)
      else
        let (found, reqStream) := findRequest resp reqStream
        (found, req :: reqStream)

/-- The loop of `Match` over the responses. -/
def matchLoop (records : List (Record Message)) (reqStream : List DnsFrame) :
    List DnsFrame → List (Record Message) × List DnsFrame
  | [] => (records, reqStream)
  | resp :: respStream =>
      let (found, reqStream) := findRequest resp reqStream
      matchLoop (records ++ (found.map (recordOf · resp)).toList)
        -- Consumed requests go from the front, behind every response.
        (reqStream.dropWhile DnsFrame.consumed) respStream

/-- `Match`, on the queues of stream 0. -/
def matchStreams (reqStream respStream : List DnsFrame) :
    List (Record Message) × List DnsFrame × List DnsFrame :=
  if reqStream.length = 0 ∨ respStream.length = 0 then ([], reqStream, respStream)
  else
    let (records, reqStream) := matchLoop [] reqStream respStream
    (records, reqStream, [])

/-- The request that is found is not later than the response, and of its transaction. -/
theorem findRequest_found {resp req : DnsFrame} {reqStream : List DnsFrame}
    (h : (findRequest resp reqStream).1 = some req) :
    req.base.timestampNs ≤ resp.base.timestampNs ∧ req.txid = resp.txid := by
  induction reqStream with
  | nil => cases h
  | cons first reqStream ih =>
      rw [findRequest] at h
      split_ifs at h with hlater htxid
      · cases h
        exact ⟨Nat.le_of_not_lt hlater, htxid⟩
      · exact ih h

theorem matchLoop_forward {records : List (Record Message)} {reqStream respStream : List DnsFrame}
    (h : ∀ record ∈ records, record.Forward) :
    ∀ record ∈ (matchLoop records reqStream respStream).1, record.Forward := by
  induction respStream generalizing records reqStream with
  | nil => exact h
  | cons resp respStream ih =>
      apply ih
      refine List.forall_mem_append.mpr ⟨h, ?_⟩
      intro record hnew
      rw [Option.mem_toList] at hnew
      obtain ⟨req, hreq, rfl⟩ := Option.map_eq_some_iff.mp hnew
      exact ⟨_, _, rfl, rfl, (findRequest_found hreq).1⟩

/-- **The records of the DNS matcher run forward**, in whatever order the queues are. -/
theorem matchStreams_forward (reqStream respStream : List DnsFrame) :
    ∀ record ∈ (matchStreams reqStream respStream).1, record.Forward := by
  unfold matchStreams
  split_ifs
  · simp
  · exact matchLoop_forward (by simp)

end Kyanos.Dns
