/-
A stream buffer that has one run of bytes, and the times of the pieces it came in.

The timestamps lie under the positions the pieces started at, so the time of a byte is that of the
last piece that started at or before it (`Framing.stampAt`). Adding the next piece keeps this as long
as the map does not throw the start of the run away, which takes more than 50000 pieces behind it
(`StampedRun.add`); and removing whole frames from the front keeps it for the rest
(`StampedRun.removePrefix`).
-/
import Kyanos.Framing
import Kyanos.VectoredEvents

set_option autoImplicit false

open GoNum Trace Framing

namespace Kyanos

/-- One run of bytes from `lo` on, in pieces that started at `starts`. -/
structure StampedRun (capacity : ℤ) (lo : ℕ) (bytes : List UInt8) (starts : List (ℕ × ℕ))
    (sb : StreamBuffer) : Prop where
  run : Bpf.OneRun capacity lo bytes sb
  stamps : ∀ pos, lo ≤ pos → pos < lo + bytes.length →
    ∃ ts, stampAt starts pos = some ts ∧ sb.findTimestampBySeq pos = some ts
  keys : ∀ k, (sb.timestamps.get? k).isSome → k ∈ starts.map Prod.fst

namespace StampedRun

variable {capacity : ℤ} {lo : ℕ} {bytes data : List UInt8} {starts : List (ℕ × ℕ)}
  {sb : StreamBuffer}

theorem new (capacity : ℤ) (lo : ℕ) : StampedRun capacity lo [] [] (StreamBuffer.new capacity) := by
  refine ⟨Bpf.oneRun_new capacity lo, ?_, ?_⟩
  · intro pos hlo hhi
    rw [List.length_nil] at hhi
    omega
  · intro k hk
    cases hk

/-! ## Timestamps -/

theorem findTimestampBySeq_eq_some_iff {pos ts : ℕ} :
    sb.findTimestampBySeq pos = some ts ↔ ∃ k, sb.timestamps.floor pos = some (k, ts) := by
  unfold StreamBuffer.findTimestampBySeq
  rw [Option.map_eq_some_iff]
  exact ⟨fun ⟨⟨k, _⟩, hfloor, rfl⟩ => ⟨k, hfloor⟩, fun ⟨k, hfloor⟩ => ⟨(k, ts), hfloor, rfl⟩⟩

/-- The time of a byte is that of a start at or before it, with none between. -/
theorem findTimestampBySeq_of {m : SortedMap ℕ ℕ} {pos k ts : ℕ} (hm : sb.timestamps = m)
    (hget : m.get? k = some ts) (hle : k ≤ pos)
    (hbest : ∀ j, (m.get? j).isSome → j ≤ pos → j ≤ k) : sb.findTimestampBySeq pos = some ts := by
  rw [findTimestampBySeq_eq_some_iff, hm]
  exact ⟨k, SortedMap.floor_eq_some_iff.mpr ⟨hget, hle, hbest⟩⟩

/-- The start of the next piece is behind those that are recorded. -/
theorem stamps_put (h : StampedRun capacity lo bytes starts sb) (timestamp : ℕ) {sb' : StreamBuffer}
    (htimes : sb'.timestamps = sb.timestamps.put (lo + bytes.length) timestamp) (pos : ℕ)
    (hlo : lo ≤ pos) :
    ∃ ts, stampAt (starts ++ [(lo + bytes.length, timestamp)]) pos = some ts
      ∧ sb'.findTimestampBySeq pos = some ts := by
  rw [stampAt_append]
  by_cases hnew : lo + bytes.length ≤ pos
  · refine ⟨timestamp, if_pos hnew, findTimestampBySeq_of htimes (k := lo + bytes.length) ?_ hnew ?_⟩
    · rw [SortedMap.get?_put, if_pos rfl]
    · intro j hj _
      by_contra hlt
      rw [SortedMap.get?_put, if_neg (by omega), h.run.times j (by omega)] at hj
      cases hj
  · obtain ⟨ts, hstamp, hfind⟩ := h.stamps pos hlo (by omega)
    obtain ⟨k, hfloor⟩ := findTimestampBySeq_eq_some_iff.mp hfind
    obtain ⟨hget, hle, hbest⟩ := SortedMap.floor_eq_some hfloor
    refine ⟨ts, by rw [if_neg hnew, hstamp], findTimestampBySeq_of htimes ?_ hle ?_⟩
    · rw [SortedMap.get?_put, if_neg (by omega), hget]
    · intro j hj hjpos
      rw [SortedMap.get?_put, if_neg (by omega)] at hj
      exact hbest j hj hjpos

/-- A map that is too large loses its older half, and no start the run needs. -/
theorem stamps_clean {m : SortedMap ℕ ℕ} {sb' : StreamBuffer} (hsize : maxTimestampEntries < m.size)
    (htimes : sb'.timestamps = m.removeAll (m.keys.take (m.size / 2)))
    (hfew : (m.keys.filter (fun k => lo < k)).length ≤ maxTimestampEntries / 2) {pos ts : ℕ}
    (hlo : lo ≤ pos) (hfloor : ∃ k, m.floor pos = some (k, ts)) :
    sb'.findTimestampBySeq pos = some ts := by
  obtain ⟨k, hfloor⟩ := hfloor
  obtain ⟨hget, hle, hbest⟩ := SortedMap.floor_eq_some hfloor
  have hkept : k ∉ m.keys.take (m.size / 2) := by
    apply SortedMap.not_mem_take_keys
    -- A start above that of the byte is above the byte, and so behind the start of the run.
    have habove :
        (m.keys.filter (fun j => k < j)).length ≤ (m.keys.filter (fun j => lo < j)).length := by
      rw [← List.countP_eq_length_filter, ← List.countP_eq_length_filter]
      apply List.countP_mono_left
      intro j hj hkj
      have hlt : k < j := of_decide_eq_true hkj
      have hpos : ¬j ≤ pos := fun hjpos => absurd (hbest j (SortedMap.mem_keys.mp hj) hjpos) (by omega)
      exact decide_eq_true (by omega)
    unfold maxTimestampEntries at hsize hfew
    omega
  refine findTimestampBySeq_of htimes ?_ hle ?_
  · rw [SortedMap.get?_removeAll, if_neg hkept, hget]
  · intro j hj hjpos
    rw [SortedMap.get?_removeAll] at hj
    split_ifs at hj
    · cases hj
    · exact hbest j hj hjpos

/-! ## The next piece -/

/-- What `Add` leaves of the timestamps when the piece joins the run. -/
theorem add_timestamps {sb' : StreamBuffer} (h : Bpf.OneRun capacity lo bytes sb) (timestamp : ℕ)
    (hdata : data ≠ []) (hend : lo + bytes.length + data.length < 2 ^ 63)
    (hadd : sb.add (lo + bytes.length) data timestamp = .ok (true, sb'))
    (h' : Bpf.OneRun capacity lo (bytes ++ data) sb') :
    sb'.timestamps = sb.timestamps.put (lo + bytes.length) timestamp
      ∨ maxTimestampEntries < (sb.timestamps.put (lo + bytes.length) timestamp).size
        ∧ sb'.timestamps = (sb.timestamps.put (lo + bytes.length) timestamp).removeAll
            ((sb.timestamps.put (lo + bytes.length) timestamp).keys.take
              ((sb.timestamps.put (lo + bytes.length) timestamp).size / 2)) := by
  have hne : bytes ++ data ≠ [] := fun hnil => hdata (List.append_eq_nil_iff.mp hnil).2
  have hbuffers : sb'.buffers = [⟨bytes ++ data, lo⟩] := by rw [h'.buffers, if_neg hne]
  have hlonger : bytes ++ data ≠ bytes := fun heq => hdata (List.append_right_eq_self.mp heq)
  -- There is one buffer at most, and its end is below 2^63.
  have hfits : ∀ b ∈ sb.buffers, b.Fits := by
    intro b hb
    rw [h.buffers] at hb
    split_ifs at hb with hempty
    · cases hb
    · rw [List.mem_singleton.mp hb]
      exact ⟨hempty, by dsimp only; omega⟩
  obtain ⟨r, sb₁, heq, hadded⟩ :=
    @StreamBuffer.add_added sb (lo + bytes.length) data timestamp hfits (by omega)
  rw [hadd] at heq
  obtain ⟨rfl, rfl⟩ := Prod.mk.inj (Except.ok.inj heq)
  cases hadded with
  | first => exact Or.inl rfl
  | reset fresh nonempty rule =>
      -- Starting over would have lost what was there.
      have hbytes : bytes ≠ [] := fun hnil => nonempty (by rw [h.buffers, if_pos hnil])
      have hone : [(⟨data, lo + bytes.length⟩ : Buffer)] = [⟨bytes ++ data, lo⟩] := hbuffers
      have hseq := congrArg Buffer.seq (List.cons.inj hone).1
      have hpos := List.length_pos_iff.mpr hbytes
      dsimp only at hseq
      omega
  | ignored fresh nonempty rule =>
      -- An ignored piece would have left the bytes as they were.
      rw [h.buffers] at hbuffers
      split_ifs at hbuffers with hempty
      have hbuf := congrArg Buffer.buf (List.cons.inj hbuffers).1
      exact absurd hbuf.symm hlonger
  | @placed fresh reached bs eq shape =>
      -- In the end there is one buffer, so the shrinking loop dropped none.
      have hkept : (sb.withPlaced bs (lo + bytes.length) timestamp).shrinkBufferUntilSizeBelowCapacity
          = sb.withPlaced bs (lo + bytes.length) timestamp := by
        rcases StreamBuffer.shrink_cases (sb.withPlaced bs (lo + bytes.length) timestamp) with
          hsame | ⟨dropped, last, kept, hbs, hshrunk⟩
        · exact hsame
        · -- There was one buffer, so none is left behind a dropped one.
          have hbytes : bytes ≠ [] := by
            intro hnil
            rw [StreamBuffer.reachesPlace, StreamBuffer.isEmpty, h.buffers, if_pos hnil] at reached
            simp at reached
          have hone : bs = [⟨bytes ++ data, lo⟩] :=
            Bpf.placed_behind shape (by rw [h.buffers, if_neg hbytes]) rfl
          have hnone : kept = [] := by
            have hlen := congrArg List.length (hone.symm.trans hbs)
            simp only [List.length_append, List.length_cons, List.length_nil] at hlen
            exact List.length_eq_zero_iff.mp (by omega)
          rw [StreamBuffer.cleanOldTimestamps_buffers, hshrunk, hnone] at hbuffers
          cases hbuffers
      rw [hkept, StreamBuffer.cleanOldTimestamps]
      split_ifs with hsize
      · exact Or.inl rfl
      · exact Or.inr ⟨Nat.lt_of_not_le hsize, rfl⟩

theorem keys_put {m : SortedMap ℕ ℕ} {starts : List (ℕ × ℕ)} {start stamp : ℕ}
    (h : ∀ k, (m.get? k).isSome → k ∈ starts.map Prod.fst) {k : ℕ}
    (hk : ((m.put start stamp).get? k).isSome) : k ∈ (starts ++ [(start, stamp)]).map Prod.fst := by
  rw [SortedMap.get?_put] at hk
  rw [List.map_append, List.mem_append]
  split_ifs at hk with heq
  · exact Or.inr (by simp [heq])
  · exact Or.inl (h k hk)

/-- A map with the keys of the starts has no more of them behind a position than there are starts. -/
theorem keys_few {m : SortedMap ℕ ℕ} {starts : List (ℕ × ℕ)}
    (h : ∀ k, (m.get? k).isSome → k ∈ starts.map Prod.fst) (lo : ℕ) :
    (m.keys.filter (fun k => lo < k)).length ≤ (starts.filter (fun s => lo < s.1)).length := by
  have hnodup : (m.keys.filter (fun k => lo < k)).Nodup :=
    (m.keys_sorted.imp (fun hlt => Nat.ne_of_lt hlt)).filter _
  have hsubset : m.keys.filter (fun k => lo < k) ⊆ (starts.filter (fun s => lo < s.1)).map Prod.fst := by
    intro k hk
    obtain ⟨hmem, hlt⟩ := List.mem_filter.mp hk
    obtain ⟨s, hs, rfl⟩ := List.mem_map.mp (h k (SortedMap.mem_keys.mp hmem))
    exact List.mem_map_of_mem (List.mem_filter.mpr ⟨hs, hlt⟩)
  have hle := (hnodup.subperm hsubset).length_le
  rwa [List.length_map] at hle

/-- **The next piece** joins the run, and its bytes have its time. -/
theorem add (h : StampedRun capacity lo bytes starts sb) (timestamp : ℕ) (hdata : data ≠ [])
    (hend : lo + bytes.length + data.length < 2 ^ 63)
    (hroom : ((bytes ++ data).length : ℤ) ≤ capacity)
    (hfew : ((starts ++ [(lo + bytes.length, timestamp)]).filter (fun s => lo < s.1)).length
      ≤ maxTimestampEntries / 2) :
    ∃ sb', sb.add (lo + bytes.length) data timestamp = .ok (true, sb')
      ∧ StampedRun capacity lo (bytes ++ data) (starts ++ [(lo + bytes.length, timestamp)]) sb' := by
  obtain ⟨sb', hadd, hrun⟩ := h.run.add timestamp hdata hend hroom
  have hkeys : ∀ k, ((sb.timestamps.put (lo + bytes.length) timestamp).get? k).isSome →
      k ∈ (starts ++ [(lo + bytes.length, timestamp)]).map Prod.fst := fun k hk => keys_put h.keys hk
  refine ⟨sb', hadd, hrun, ?_, ?_⟩
  · intro pos hlo _
    rcases add_timestamps h.run timestamp hdata hend hadd hrun with hput | ⟨hsize, hclean⟩
    · exact h.stamps_put timestamp hput pos hlo
    · -- The older half is dropped, but of those behind the front there are too few to be in it.
      have hput : (sb.updateTimestamp (lo + bytes.length) timestamp).timestamps
          = sb.timestamps.put (lo + bytes.length) timestamp := rfl
      obtain ⟨ts, hstamp, hfind⟩ := h.stamps_put timestamp hput pos hlo
      refine ⟨ts, hstamp, stamps_clean hsize hclean ?_ hlo (findTimestampBySeq_eq_some_iff.mp hfind)⟩
      exact (keys_few hkeys lo).trans hfew
  · intro k hk
    rcases add_timestamps h.run timestamp hdata hend hadd hrun with hput | ⟨-, hclean⟩
    · rw [hput] at hk
      exact hkeys k hk
    · rw [hclean, SortedMap.get?_removeAll] at hk
      split_ifs at hk
      · cases hk
      · exact hkeys k hk

/-! ## Removing from the front -/

/-- What `RemovePrefix` leaves of one run. -/
theorem removePrefix_one {front rest : List UInt8} (hbuffers : sb.buffers = [⟨front ++ rest, lo⟩])
    (hfront : front ≠ []) (hlo : lo + front.length < 2 ^ 64) :
    ∃ sb', sb.removePrefix front.length = .ok sb' ∧ sb'.capacity = sb.capacity
      ∧ sb'.buffers = (if rest = [] then [] else [⟨rest, lo + front.length⟩])
      ∧ sb'.timestamps
        = if rest = [] then StreamBuffer.cleanBySeq sb.timestamps lo else sb.timestamps := by
  have hpos := List.length_pos_iff.mpr hfront
  have hsome : ¬sb.isEmpty = true := by
    rw [StreamBuffer.isEmpty_iff, hbuffers]
    exact List.cons_ne_nil _ _
  have hlen : (front ++ rest).length = front.length + rest.length := List.length_append
  have hbuf : (⟨front ++ rest, lo⟩ : Buffer).len = front.length + rest.length := hlen
  unfold StreamBuffer.removePrefix
  rw [if_neg hsome, hbuffers, StreamBuffer.removePrefixLoop, if_neg (by omega), hbuf]
  by_cases hrest : rest = []
  · have hnone : rest.length = 0 := by rw [hrest]; rfl
    have hall : ((front.length + rest.length : ℕ) : ℤ) = front.length := by omega
    rw [if_pos hrest, if_pos hrest, hall, if_neg (lt_irrefl _), sub_self,
      StreamBuffer.removePrefixLoop, if_pos rfl]
    exact ⟨_, rfl, rfl, rfl, rfl⟩
  · have hmore := List.length_pos_iff.mpr hrest
    rw [if_neg hrest, if_neg hrest, if_pos (by omega), Buffer.removePrefix, hbuf, if_pos (by omega),
      if_neg (by omega)]
    refine ⟨_, rfl, rfl, ?_, rfl⟩
    simp only [Int.toNat_natCast, List.drop_left]
    rw [ofInt64_of_nonneg (by omega), u64_of_lt (by omega)]
    rfl

/-- **Removing the front** leaves the rest with the times it had. -/
theorem removePrefix {front rest : List UInt8}
    (h : StampedRun capacity lo (front ++ rest) starts sb) (hfront : front ≠ [])
    (hlo : lo + front.length < 2 ^ 64) :
    ∃ sb', sb.removePrefix front.length = .ok sb'
      ∧ StampedRun capacity (lo + front.length) rest starts sb' := by
  have hne : front ++ rest ≠ [] := fun hnil => hfront (List.append_eq_nil_iff.mp hnil).1
  have hbuffers : sb.buffers = [⟨front ++ rest, lo⟩] := by rw [h.run.buffers, if_neg hne]
  obtain ⟨sb', hremove, hcapacity, hbuffers', htimes⟩ := removePrefix_one hbuffers hfront hlo
  have hlen : (front ++ rest).length = front.length + rest.length := List.length_append
  have hget : ∀ k, (sb'.timestamps.get? k).isSome → sb'.timestamps.get? k = sb.timestamps.get? k := by
    intro k hk
    rw [htimes] at hk ⊢
    split_ifs at hk ⊢
    · rw [StreamBuffer.get?_cleanBySeq] at hk ⊢
      split_ifs at hk ⊢
      · cases hk
      · rfl
    · rfl
  refine ⟨sb', hremove, ⟨hcapacity.trans h.run.capacity_eq, hbuffers', ?_⟩, ?_, ?_⟩
  · intro seq hseq
    by_contra hsome
    have hk := Option.isSome_iff_ne_none.mpr hsome
    rw [hget seq hk, h.run.times seq (by omega)] at hk
    cases hk
  · intro pos hlo hhi
    have hrest : rest ≠ [] := by
      intro hnil
      rw [hnil, List.length_nil] at hhi
      omega
    obtain ⟨ts, hstamp, hfind⟩ := h.stamps pos (by omega) (by omega)
    rw [if_neg hrest] at htimes
    refine ⟨ts, hstamp, ?_⟩
    rw [findTimestampBySeq_eq_some_iff] at hfind ⊢
    rwa [htimes]
  · intro k hk
    apply h.keys k
    rwa [← hget k hk]

end StampedRun

end Kyanos
