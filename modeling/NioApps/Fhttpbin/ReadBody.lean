import NioApps.Fhttpbin.Library
import NioApps.Lib.Loop
import NioApps.Lib.Streak

/-!
# Fhttpbin — `read_body`

The loop that reads a response: reads that are not ready are issued again, up to 500 times between
two that deliver, and each chunk is appended to `body_buf` as far as it fits.

* `readBodyStep` — one pass of the loop, over the calls made so far.
* `Reading` — its invariant.
* `readBody_reassembles` — what holds of a run that returns, whatever the library answers.
* `answered_iff` — which reads a run succeeds on.
-/

namespace NioApps.Fhttpbin

/-! ## The loop -/

/-- The variables of `read_body`, `body_buf` with what stands behind it, and the calls made. -/
structure ReadState (build : Build) where
  offset : Nat
  stored : Nat
  retries : Nat
  body : Nat → UInt8
  calls : List (ReadCall build)

/-- What `read_body` leaves: its result, `*total_out`, `body_buf` and the calls it made. -/
structure ReadResult (build : Build) where
  result : UInt8
  total : Option Nat
  body : Nat → UInt8
  calls : List (ReadCall build)

/-- `body_buf` and `stored` after a chunk of `data`. -/
def storeChunk (body : Nat → UInt8) (stored : Nat) (data : List UInt8) : (Nat → UInt8) × Nat :=
  let copyLen :=
    if maxBody < stored + data.length then u16 (65536 + maxBody - stored) else data.length
  if copyLen ≠ 0 then
    let stored' := u16 (stored + copyLen)
    (overlay (overlay body stored (data.take copyLen)) stored' [0], stored')
  else (body, stored)

section

variable (h : NetworkHeader) {build : Build} (reads : Nat → ReadOutcome build)

def readBodyStart (body : Nat → UInt8) : ReadState build where
  offset := 0
  stored := 0
  retries := 500
  body := overlay body 0 [0]
  calls := []

/-- One pass. The library answers the `k`-th call with `reads k`; `totalOut` is what `total_out`
points to, if it is not null. -/
def readBodyStep (totalOut : Option Nat) (s : ReadState build) :
    ReadState build ⊕ ReadResult build :=
  let call : ReadCall build := ⟨s.offset, reads s.calls.length⟩
  let result := call.outcome.result
  let calls := s.calls ++ [call]
  if result = h.errNotReady ∨ result = h.errBusy then
    if 0 < s.retries then .inl { s with retries := s.retries - 1, calls := calls }
    else .inr ⟨result, totalOut, s.body, calls⟩
  else if result ≠ h.fnOk then .inr ⟨result, totalOut, s.body, calls⟩
  else
    let data := call.outcome.data
    if data.length = 0 then .inr ⟨h.fnOk, totalOut.map fun _ => s.offset, s.body, calls⟩
    else
      let stored := storeChunk s.body s.stored data
      let offset := u32 (s.offset + data.length)
      if call.outcome.flags &&& h.readEof ≠ 0 then
        .inr ⟨h.fnOk, totalOut.map fun _ => offset, stored.1, calls⟩
      else .inl ⟨offset, stored.2, 500, stored.1, calls⟩

/-- `read_body` within a number of passes. -/
def readBody (fuel : Nat) (totalOut : Option Nat) (body : Nat → UInt8) :
    Option (ReadResult build) :=
  (Loop.after (readBodyStep h reads totalOut) fuel (readBodyStart body)).getRight?

end

/-! ## The buffer -/

/-- `body_buf` holds the first `HTTPBIN_MAX_BODY` bytes of a stream and a NUL after them. -/
def BodyHolds (body : Nat → UInt8) (stream : List UInt8) : Prop :=
  ∀ i, i ≤ (stream.take maxBody).length → body i = (stream.take maxBody).getD i 0

/-- At the start the buffer holds no body: it begins with a NUL. -/
theorem bodyHolds_start (body : Nat → UInt8) : BodyHolds (overlay body 0 [0]) [] := by
  intro i hi
  obtain rfl : i = 0 := by simpa using hi
  rfl

theorem take_maxBody_length_le (stream : List UInt8) :
    (stream.take maxBody).length ≤ maxBody := by
  rw [List.length_take]
  exact Nat.min_le_left _ _

/-- What `copy_len` is: the part of the chunk that still fits. -/
theorem take_copyLen (stream data : List UInt8) {n : Nat}
    (hn : n = if maxBody < (stream.take maxBody).length + data.length then
      u16 (65536 + maxBody - (stream.take maxBody).length) else data.length) :
    (stream ++ data).take maxBody = stream.take maxBody ++ data.take n ∧
      (stream.take maxBody).length + n ≤ maxBody ∧ n ≤ data.length := by
  have hle := take_maxBody_length_le stream
  have hmax : maxBody = 768 := rfl
  have hfits : n = min data.length (maxBody - (stream.take maxBody).length) := by
    rw [hn]
    unfold u16
    split
    next => omega
    next => omega
  have hlen : (stream.take maxBody).length = min maxBody stream.length := List.length_take
  refine ⟨?_, by omega, by omega⟩
  rw [List.take_append, List.take_eq_take_iff.mpr (show min (maxBody - stream.length) data.length =
    min n data.length from by omega)]

/-- A chunk is stored as far as it fits. -/
theorem storeChunk_spec {body : Nat → UInt8} {stream : List UInt8}
    (hbody : BodyHolds body stream) (data : List UInt8) :
    (storeChunk body (stream.take maxBody).length data).2 =
        ((stream ++ data).take maxBody).length ∧
      BodyHolds (storeChunk body (stream.take maxBody).length data).1 (stream ++ data) ∧
      ∀ i, maxBody < i →
        (storeChunk body (stream.take maxBody).length data).1 i = body i := by
  unfold storeChunk
  extract_lets n stored
  obtain ⟨htake, hroom, hle⟩ := take_copyLen stream data (n := n) rfl
  have hlen : (data.take n).length = n := List.length_take_of_le hle
  have hstored : stored = ((stream ++ data).take maxBody).length := by
    rw [htake, List.length_append, hlen]
    have hmax : maxBody = 768 := rfl
    exact u16_of_lt (by omega)
  split
  next =>
    refine ⟨hstored, fun i hi => ?_, fun i hi => ?_⟩
    · have hold := hbody i
      rw [hstored]
      rw [htake, List.length_append, hlen] at hi ⊢
      dsimp only
      rcases Nat.lt_trichotomy i ((stream.take maxBody).length + n) with hlt | rfl | hgt
      · rw [overlay_of_lt hlt]
        rcases Nat.lt_or_ge i (stream.take maxBody).length with hfront | hback
        · -- below the chunk nothing changed
          rw [overlay_of_lt hfront, hold (Nat.le_of_lt hfront),
            List.getD_append _ _ _ _ hfront]
        · obtain ⟨j, rfl⟩ := Nat.exists_eq_add_of_le hback
          rw [overlay_add (by omega), List.getD_append_right _ _ _ _ hback,
            Nat.add_sub_cancel_left]
      · -- the terminator
        rw [List.getD_eq_default _ _ (by rw [List.length_append, hlen])]
        exact overlay_add (j := 0) (by simp)
      · omega
    · rw [hstored, htake, List.length_append, hlen]
      dsimp only
      rw [overlay_of_ge (by rw [List.length_singleton]; omega),
        overlay_of_ge (by rw [hlen]; omega)]
  next hzero =>
    -- a full buffer, or an empty chunk
    have hnil : data.take n = [] := by simp [Decidable.not_not.mp hzero]
    rw [hnil, List.append_nil] at htake
    refine ⟨by rw [htake], fun i hi => ?_, fun _ _ => rfl⟩
    rw [htake] at hi ⊢
    exact hbody i hi

/-! ## The calls made -/

section

variable (h : NetworkHeader) {build : Build} (reads : Nat → ReadOutcome build)

/-- The calls met the outcomes of the library in their order, each at the offset of the bytes
delivered before it. -/
structure Logged (calls : List (ReadCall build)) : Prop where
  outcomes : calls.map ReadCall.outcome = (List.range calls.length).map reads
  offsets : ∀ before c after, calls = before ++ c :: after →
    c.offset = u32 (delivered h before).length

variable {h reads} {calls : List (ReadCall build)}

theorem Logged.nil : Logged h reads [] where
  outcomes := rfl
  offsets before c after hsplit := by simp at hsplit

/-- One read more, at the offset that the reads so far delivered. -/
theorem Logged.next (hlog : Logged h reads calls) {c : ReadCall build}
    (houtcome : c.outcome = reads calls.length)
    (hoffset : c.offset = u32 (delivered h calls).length) : Logged h reads (calls ++ [c]) where
  outcomes := by
    rw [List.map_append, List.length_append, List.length_singleton, List.range_succ,
      List.map_append, hlog.outcomes, List.map_singleton, List.map_singleton, houtcome]
  offsets before c' after hsplit := by
    rcases split_concat hsplit with ⟨rfl, rfl, -⟩ | ⟨rest, -, hrest⟩
    · exact hoffset
    · exact hlog.offsets before c' rest hrest

end

/-! ## The invariant -/

section

variable (h : NetworkHeader) {build : Build} (reads : Nat → ReadOutcome build)
  (mem : Nat → UInt8)

/-- Between two passes: what the variables hold, in terms of the calls made. -/
structure Reading (s : ReadState build) : Prop where
  logged : Logged h reads s.calls
  offset : s.offset = u32 (delivered h s.calls).length
  stored : s.stored = ((delivered h s.calls).take maxBody).length
  body : BodyHolds s.body (delivered h s.calls)
  beyond : ∀ i, maxBody < i → s.body i = mem i
  going : ∀ c ∈ s.calls, (c.again h = true ∨ c.outcome.result = h.fnOk) ∧ ¬ c.Ends h
  budget : s.retries + streak (ReadCall.again h) s.calls = 500
  patient : ∀ front, front <+: s.calls → streak (ReadCall.again h) front ≤ 500

/-- What is asked of a run that returns: how it read, what it stored and what it reports. -/
structure Reassembles (totalOut : Option Nat) (r : ReadResult build) : Prop where
  logged : Logged h reads r.calls
  inBuffer : ∀ i, maxBody < i → r.body i = mem i
  stops : r.result = h.fnOk → ∃ front c, r.calls = front ++ [c] ∧ c.Ends h ∧
    ∀ c' ∈ front, ¬ c'.Ends h
  total : r.result = h.fnOk →
    r.total = totalOut.map fun _ => (delivered h r.calls).length % 2 ^ 32
  body : r.result = h.fnOk →
    (List.range (min (delivered h r.calls).length maxBody + 1)).map r.body =
      (delivered h r.calls).take maxBody ++ [0]
  givesUp : (r.result = h.errNotReady ∨ r.result = h.errBusy) ↔
    ∃ before run after, r.calls = before ++ run ++ after ∧ run.length = 501 ∧
      ∀ c ∈ run, c.again h = true
  atOnce : ∀ before c after, r.calls = before ++ c :: after → c.again h = false →
    c.outcome.result ≠ h.fnOk → after = [] ∧ r.result = c.outcome.result
  last : ∃ front c, r.calls = front ++ [c] ∧ r.result = c.outcome.result

variable {h reads mem} {s : ReadState build} {totalOut : Option Nat} {r : ReadResult build}
  {c : ReadCall build}

/-- The loop starts with nothing read. -/
theorem reading_start : Reading h reads mem (readBodyStart mem) where
  logged := .nil
  offset := rfl
  stored := rfl
  body := bodyHolds_start mem
  beyond i hi := overlay_of_ge (by rw [List.length_singleton]; omega)
  going c hc := by cases hc
  budget := rfl
  patient front hfront := by
    rw [List.prefix_nil.mp hfront]
    exact Nat.zero_le _

/-- The loop reads again where the device is not ready or busy. -/
theorem again_iff : c.again h = true ↔
    c.outcome.result = h.errNotReady ∨ c.outcome.result = h.errBusy := by
  rw [ReadCall.again, ReadOutcome.again, Bool.or_eq_true, beq_iff_eq, beq_iff_eq]

theorem not_again_of_ok (hok : c.outcome.result = h.fnOk) : c.again h = false := by
  rw [ReadCall.again, ReadOutcome.again, Bool.or_eq_false_iff, beq_eq_false_iff_ne,
    beq_eq_false_iff_ne, hok]
  exact ⟨h.notReady_ne.symm, h.busy_ne.symm⟩

theorem not_ok_of_again (hagain : c.again h = true) : c.outcome.result ≠ h.fnOk := by
  intro hok
  rw [not_again_of_ok hok] at hagain
  cases hagain

/-- A call that is read again delivers nothing. -/
theorem delivered_again (hagain : c.again h = true) (calls : List (ReadCall build)) :
    delivered h (calls ++ [c]) = delivered h calls := by
  rw [delivered_append, ReadCall.delivered, ReadOutcome.delivered,
    if_neg (not_ok_of_again hagain), List.append_nil]

/-- The bytes of a buffer that holds a stream. -/
theorem BodyHolds.bytes {body : Nat → UInt8} {stream : List UInt8} (hbody : BodyHolds body stream) :
    (List.range (min stream.length maxBody + 1)).map body = stream.take maxBody ++ [0] := by
  have hlen : (stream.take maxBody).length = min stream.length maxBody := by
    rw [List.length_take, Nat.min_comm]
  apply List.ext_getElem
  · rw [List.length_map, List.length_range, List.length_append, hlen, List.length_singleton]
  · intro i hi _
    rw [List.length_map, List.length_range, ← hlen] at hi
    rw [List.getElem_map, List.getElem_range, hbody i (Nat.le_of_lt_succ hi)]
    rcases Nat.lt_or_ge i (stream.take maxBody).length with hlt | hge
    · rw [List.getD_eq_getElem _ _ hlt, List.getElem_append_left hlt]
    · rw [List.getD_eq_default _ _ hge, List.getElem_append_right hge, List.getElem_singleton]

/-- A pass that leaves after the call `c`: the result is that of `c`, nothing past the buffer was
written, the budget was spent if `c` was to be read again, and a success ends the stream. -/
theorem Reading.leaves (hs : Reading h reads mem s) (hcalls : r.calls = s.calls ++ [c])
    (houtcome : c.outcome = reads s.calls.length) (hoffset : c.offset = s.offset)
    (hresult : r.result = c.outcome.result) (hbeyond : ∀ i, maxBody < i → r.body i = s.body i)
    (hspent : c.again h = true → s.retries = 0)
    (hok : c.outcome.result = h.fnOk → c.Ends h ∧ BodyHolds r.body (delivered h r.calls) ∧
      r.total = totalOut.map fun _ => (delivered h r.calls).length % 2 ^ 32) :
    Reassembles h reads mem totalOut r where
  logged := by
    rw [hcalls]
    exact hs.logged.next houtcome (hoffset.trans hs.offset)
  inBuffer i hi := (hbeyond i hi).trans (hs.beyond i hi)
  stops hr :=
    ⟨s.calls, c, hcalls, (hok (hresult ▸ hr)).1, fun c' hc' => (hs.going c' hc').2⟩
  total hr := (hok (hresult ▸ hr)).2.2
  body hr := (hok (hresult ▸ hr)).2.1.bytes
  givesUp := by
    rw [hresult, ← again_iff, ← exists_streak_iff, hcalls]
    constructor
    · intro hagain
      refine ⟨s.calls ++ [c], List.prefix_refl _, ?_⟩
      have hbudget := hs.budget
      rw [hspent hagain] at hbudget
      rw [streak_append_singleton, if_pos hagain]
      omega
    · rintro ⟨front, hfront, hlong⟩
      -- a streak of 501 can only end at the last call
      rcases List.prefix_concat_iff.mp hfront with rfl | hfront
      · rw [streak_append_singleton] at hlong
        split at hlong
        next hagain => exact hagain
        next => omega
      · have hpatient := hs.patient front hfront
        omega
  atOnce before c' after hsplit hagain hfail := by
    rw [hcalls] at hsplit
    rcases split_concat hsplit with ⟨-, rfl, hafter⟩ | ⟨rest, -, hrest⟩
    · exact ⟨hafter, hresult⟩
    · have hgoing := (hs.going c' (by simp [hrest])).1
      rw [hagain] at hgoing
      exact absurd hgoing (by simpa using hfail)
  last := ⟨s.calls, c, hcalls, hresult⟩

/-- A call that is read again within the budget. -/
theorem Reading.retry (hs : Reading h reads mem s) (houtcome : c.outcome = reads s.calls.length)
    (hoffset : c.offset = s.offset) (hagain : c.again h = true) (hleft : 0 < s.retries) :
    Reading h reads mem { s with retries := s.retries - 1, calls := s.calls ++ [c] } where
  -- nothing was delivered, so that offset, buffer and total stay
  logged := hs.logged.next houtcome (hoffset.trans hs.offset)
  offset := by rw [delivered_again hagain]; exact hs.offset
  stored := by rw [delivered_again hagain]; exact hs.stored
  body := by rw [delivered_again hagain]; exact hs.body
  beyond := hs.beyond
  going := by
    intro c' hc'
    rcases List.mem_append.mp hc' with hc' | hc'
    · exact hs.going c' hc'
    · -- the call that is new is one to make again
      rw [List.mem_singleton.mp hc']
      exact ⟨.inl hagain, fun hends => not_ok_of_again hagain hends.1⟩
  budget := by
    have hbudget := hs.budget
    rw [streak_append_singleton, if_pos hagain]
    dsimp only
    omega
  patient front hfront := by
    rcases List.prefix_concat_iff.mp hfront with rfl | hfront
    · -- the streak is one longer, and one retry less is left
      have hbudget := hs.budget
      rw [streak_append_singleton, if_pos hagain]
      omega
    · exact hs.patient front hfront

/-- A call that delivers a chunk and does not end the stream. -/
theorem Reading.chunk (hs : Reading h reads mem s) (houtcome : c.outcome = reads s.calls.length)
    (hoffset : c.offset = s.offset) (hok : c.outcome.result = h.fnOk) (hends : ¬ c.Ends h) :
    Reading h reads mem
      { offset := u32 (s.offset + c.outcome.data.length)
        stored := (storeChunk s.body s.stored c.outcome.data).2
        retries := 500
        body := (storeChunk s.body s.stored c.outcome.data).1
        calls := s.calls ++ [c] } := by
  -- what is new is delivered whole
  have hdelivered : delivered h (s.calls ++ [c]) = delivered h s.calls ++ c.outcome.data := by
    rw [delivered_append, ReadCall.delivered, ReadOutcome.delivered, if_pos hok]
  obtain ⟨hstored, hbody, hbeyond⟩ := storeChunk_spec hs.body c.outcome.data
  rw [← hs.stored, ← hdelivered] at hstored
  rw [← hs.stored, ← hdelivered] at hbody
  rw [← hs.stored] at hbeyond
  -- a chunk ends the streak, and the retries start again
  have hstreak : streak (ReadCall.again h) (s.calls ++ [c]) = 0 := by
    rw [streak_append_singleton, not_again_of_ok hok]
    rfl
  exact {
    logged := hs.logged.next houtcome (hoffset.trans hs.offset)
    -- the offset is the total modulo 2^32
    offset := by
      rw [hdelivered, List.length_append, hs.offset]
      exact Nat.mod_add_mod _ _ _
    stored := hstored
    body := hbody
    beyond := fun i hi => (hbeyond i hi).trans (hs.beyond i hi)
    going := by
      intro c' hc'
      rcases List.mem_append.mp hc' with hc' | hc'
      · exact hs.going c' hc'
      · rw [List.mem_singleton.mp hc']
        exact ⟨.inr hok, hends⟩
    budget := by rw [hstreak]
    patient := by
      intro front hfront
      rcases List.prefix_concat_iff.mp hfront with rfl | hfront
      · rw [hstreak]
        exact Nat.zero_le _
      · exact hs.patient front hfront }

/-- What one pass keeps, or makes of it on leaving. -/
theorem readBodyStep_spec (hs : Reading h reads mem s) :
    Sum.elim (Reading h reads mem) (Reassembles h reads mem totalOut)
      (readBodyStep h reads totalOut s) := by
  unfold readBodyStep
  extract_lets call result calls data stored offset
  split
  next hcode =>
    have hagain : call.again h = true := again_iff.mpr hcode
    split
    next hleft => exact hs.retry rfl rfl hagain hleft
    next hspent =>
      refine hs.leaves rfl rfl rfl rfl (fun _ _ => rfl) (fun _ => by omega) fun hok => ?_
      exact absurd hok (not_ok_of_again hagain)
  next hcode =>
    have hagain : call.again h = false := by
      rw [← Bool.not_eq_true, again_iff]
      exact hcode
    have hnever : call.again h = true → s.retries = 0 := by
      rw [hagain]
      intro habsurd
      cases habsurd
    split
    next hfail =>
      exact hs.leaves rfl rfl rfl rfl (fun _ _ => rfl) hnever fun hok => absurd hok hfail
    next hfail =>
      have hok : call.outcome.result = h.fnOk := Decidable.not_not.mp hfail
      have hdelivered : delivered h (s.calls ++ [call]) = delivered h s.calls ++ data := by
        rw [delivered_append, ReadCall.delivered, ReadOutcome.delivered, if_pos hok]
      split
      next hempty =>
        -- nothing delivered: the stream stands where it stood
        have hnil : data = [] := List.eq_nil_of_length_eq_zero hempty
        rw [hnil, List.append_nil] at hdelivered
        refine hs.leaves rfl rfl rfl hok.symm (fun _ _ => rfl) hnever fun _ => ⟨?_, ?_, ?_⟩
        · exact ⟨hok, .inl hnil⟩
        · exact hdelivered ▸ hs.body
        · show totalOut.map (fun _ => s.offset) = _
          rw [hs.offset, ← hdelivered]
          rfl
      next hempty =>
        obtain ⟨-, hbody, hbeyond⟩ := storeChunk_spec hs.body data
        rw [← hs.stored] at hbody hbeyond
        split
        next hflag =>
          refine hs.leaves rfl rfl rfl hok.symm hbeyond hnever fun _ => ⟨⟨hok, .inr hflag⟩, ?_, ?_⟩
          · exact hdelivered ▸ hbody
          · show totalOut.map (fun _ => u32 (s.offset + data.length)) = _
            rw [hs.offset, hdelivered, List.length_append]
            exact congrArg (fun n => totalOut.map fun _ => n) (Nat.mod_add_mod _ _ _)
        next hflag =>
          apply hs.chunk rfl rfl hok
          rintro ⟨-, hnil | hend⟩
          · exact hempty (List.length_eq_zero_iff.mpr hnil)
          · exact hflag hend

/-- A run that returns is one that left the loop. -/
theorem reassembles_of_readBody {fuel : Nat}
    (hret : readBody h reads fuel totalOut mem = some r) :
    Reassembles h reads mem totalOut r := by
  have hall := Loop.after_preserves
    (Sum.elim (Reading h reads mem) (Reassembles h reads mem totalOut))
    (fun _ => readBodyStep_spec) reading_start fuel
  rw [readBody, Sum.getRight?_eq_some_iff] at hret
  rwa [hret] at hall

end

/-! ## The whole function -/

/-- **`read_body` reassembles the stream.** Whatever the library answers to the reads, a run that
returns read at the offsets of the bytes delivered, stopped at the first end of the stream or gave
up after 501 reads in a row that were to be repeated, and left in `body_buf` what fits of the
stream. -/
theorem readBody_reassembles (h : NetworkHeader) {build : Build}
    (reads : Nat → ReadOutcome build) (fuel : Nat) (totalOut : Option Nat) (mem : Nat → UInt8)
    (r : ReadResult build) (hret : readBody h reads fuel totalOut mem = some r) :
    Reassembles h reads mem totalOut r :=
  reassembles_of_readBody hret

/-- A body of two characters in one chunk, with the end flagged. -/
def okChunk : ReadOutcome .cc65 := ⟨0, 1, [0x6F, 0x6B], by decide⟩

/-- `okChunk`, not ready at first. -/
def lateReads (k : Nat) : ReadOutcome .cc65 :=
  if k = 0 then ⟨4, 0, [], by decide⟩ else okChunk

theorem readBody_reassembles_late :
    ∃ r, readBody sampleNetworkHeader lateReads 2 (some 0) (fun _ => 0xFF) = some r ∧
      r.result = 0 ∧ r.total = some 2 ∧
        Reassembles sampleNetworkHeader lateReads (fun _ => 0xFF) (some 0) r :=
  ⟨_, rfl, rfl, rfl, readBody_reassembles sampleNetworkHeader lateReads 2 (some 0) _ _ rfl⟩

/-! ## Which responses are read to their end -/

section

variable (h : NetworkHeader) {build : Build} (reads : Nat → ReadOutcome build)

/-- The reads up to the `n`-th make up a response: that one ends the stream and none before it does,
and the others deliver or are read again, no 501 of them in a row. -/
structure Answered (n : Nat) : Prop where
  ends : (reads n).Ends h
  goesOn : ∀ k < n, ((reads k).again h = true ∨ (reads k).result = h.fnOk) ∧ ¬ (reads k).Ends h
  patient : ¬ ∃ before run after, (List.range n).map reads = before ++ run ++ after ∧
    run.length = 501 ∧ ∀ o ∈ run, o.again h = true

/-- The bytes that the reads up to the `n`-th deliver. -/
def response (n : Nat) : List UInt8 :=
  ((List.range (n + 1)).map reads).flatMap (ReadOutcome.delivered h)

variable {h reads} {mem : Nat → UInt8} {s : ReadState build} {totalOut : Option Nat}
  {r : ReadResult build} {fuel n : Nat} {calls : List (ReadCall build)}

/-- The k-th outcome in the log is the k-th of the stream. -/
theorem Logged.outcome_eq (hlog : Logged h reads calls) {k : Nat} (hk : k < calls.length) :
    calls[k].outcome = reads k := by
  have hget := congrArg (fun outcomes => outcomes[k]?) hlog.outcomes
  simpa [hk] using hget

/-- The bytes delivered by the calls of a run. -/
theorem Logged.response_eq (hlog : Logged h reads calls) (hlen : calls.length = n + 1) :
    response h reads n = delivered h calls := by
  rw [response, ← hlen, ← hlog.outcomes, List.flatMap_map]
  rfl

/-- 501 calls in a row to be read again are 501 outcomes in a row. -/
theorem Logged.run_iff (hlog : Logged h reads calls) :
    (∃ before run after, calls = before ++ run ++ after ∧ run.length = 501 ∧
        ∀ c ∈ run, c.again h = true) ↔
      ∃ before run after, (List.range calls.length).map reads = before ++ run ++ after ∧
        run.length = 501 ∧ ∀ o ∈ run, o.again h = true := by
  -- the log and the stream have the same outcomes
  rw [← hlog.outcomes]
  constructor
  · rintro ⟨before, run, after, rfl, hlen, hagain⟩
    refine ⟨before.map ReadCall.outcome, run.map ReadCall.outcome, after.map ReadCall.outcome,
      ?_, ?_, ?_⟩
    · rw [List.map_append, List.map_append]
    · rw [List.length_map, hlen]
    · exact List.forall_mem_map.mpr hagain
  · rintro ⟨before, run, after, hsplit, hlen, hagain⟩
    obtain ⟨front, after, rfl, hfront, rfl⟩ := List.map_eq_append_iff.mp hsplit
    obtain ⟨before, run, rfl, rfl, rfl⟩ := List.map_eq_append_iff.mp hfront
    rw [List.length_map] at hlen
    exact ⟨before, run, after, rfl, hlen, List.forall_mem_map.mp hagain⟩

/-- The call a pass leaves after is its own. -/
theorem readBodyStep_calls (hstep : readBodyStep h reads totalOut s = .inr r) :
    r.calls = s.calls ++ [⟨s.offset, reads s.calls.length⟩] := by
  unfold readBodyStep at hstep
  extract_lets call result calls data stored offset at hstep
  -- one case for each way on or out: only the ways out have a result
  split at hstep
  next =>
    split at hstep
    next => cases hstep
    next => cases hstep; rfl
  next =>
    split at hstep
    next => cases hstep; rfl
    next =>
      split at hstep
      next => cases hstep; rfl
      next =>
        split at hstep
        next => cases hstep; rfl
        next => cases hstep

/-- A run that returns left after one more call than a state it was in. -/
theorem left_of_readBody (hret : readBody h reads fuel totalOut mem = some r) :
    ∃ s c, Reading h reads mem s ∧ c.outcome = reads s.calls.length ∧
      r.calls = s.calls ++ [c] := by
  let Left (r : ReadResult build) : Prop :=
    ∃ s c, Reading h reads mem s ∧ c.outcome = reads s.calls.length ∧ r.calls = s.calls ++ [c]
  have hpass : ∀ s, Reading h reads mem s →
      Sum.elim (Reading h reads mem) Left (readBodyStep h reads totalOut s) := by
    intro s hs
    have hnext : Sum.elim (Reading h reads mem) (Reassembles h reads mem totalOut)
        (readBodyStep h reads totalOut s) := readBodyStep_spec hs
    -- a step that ends the loop is the last of a log that was sound so far
    cases hstep : readBodyStep h reads totalOut s with
    | inl s' =>
      rw [hstep] at hnext
      exact hnext
    | inr r => exact ⟨s, _, hs, rfl, readBodyStep_calls hstep⟩
  have hall := Loop.after_preserves (Sum.elim (Reading h reads mem) Left) hpass reading_start fuel
  rw [readBody, Sum.getRight?_eq_some_iff] at hret
  rwa [hret] at hall

/-- **Which responses are read to their end.** A run that returns succeeded exactly when the reads
it made make up a response. -/
theorem answered_iff (hret : readBody h reads fuel totalOut mem = some r) :
    Answered h reads n ↔ r.result = h.fnOk ∧ r.calls.length = n + 1 := by
  have hr := reassembles_of_readBody hret
  obtain ⟨s, c, hs, houtcome, hcalls⟩ := left_of_readBody hret
  have hlen : r.calls.length = s.calls.length + 1 := by
    rw [hcalls, List.length_append, List.length_singleton]
  have hresult : r.result = c.outcome.result := by
    obtain ⟨front, c', hlast, hresult⟩ := hr.last
    rw [hresult, List.singleton_inj.mp (List.append_inj' (hlast.symm.trans hcalls) rfl).2]
  have hgoing : ∀ k < s.calls.length,
      ((reads k).again h = true ∨ (reads k).result = h.fnOk) ∧ ¬ (reads k).Ends h := by
    intro k hk
    have hcall := hs.going _ (List.getElem_mem hk)
    rw [← hs.logged.outcome_eq hk]
    exact hcall
  have hends : r.result = h.fnOk → c.Ends h := by
    intro hok
    obtain ⟨front, c', hlast, hends, -⟩ := hr.stops hok
    rwa [List.singleton_inj.mp (List.append_inj' (hlast.symm.trans hcalls) rfl).2] at hends
  have hspent := hr.logged.run_iff
  rw [← hr.givesUp, hresult, ← again_iff, hlen] at hspent
  constructor
  · intro hans
    rcases Nat.lt_trichotomy s.calls.length n with hshort | rfl | hlong
    · exfalso
      -- left too early, after a read that should have gone on
      obtain ⟨hcode, hnot⟩ := hans.goesOn _ hshort
      rw [← houtcome] at hcode hnot
      rcases hcode with hagain | hok
      · obtain ⟨before, run, after, hsplit, hrun⟩ := hspent.mp hagain
        obtain ⟨d, rfl⟩ := Nat.exists_eq_add_of_le hshort
        refine hans.patient ⟨before, run,
          after ++ ((List.range d).map (s.calls.length + 1 + ·)).map reads, ?_, hrun⟩
        rw [List.range_add, List.map_append, hsplit, List.append_assoc]
      · exact hnot (hends (hresult.trans hok))
    · have hlast := hans.ends
      rw [← houtcome] at hlast
      exact ⟨hresult.trans hlast.1, hlen⟩
    · exact absurd hans.ends (hgoing n hlong).2
  · rintro ⟨hok, hn⟩
    obtain rfl : s.calls.length = n := by omega
    refine ⟨houtcome ▸ hends hok, hgoing, ?_⟩
    rintro ⟨before, run, after, hsplit, hrun⟩
    refine absurd (hresult.symm.trans hok) (not_ok_of_again (hspent.mpr ?_))
    refine ⟨before, run, after ++ [reads s.calls.length], ?_, hrun⟩
    rw [List.range_succ, List.map_append, hsplit, List.append_assoc, List.map_singleton]

end

end NioApps.Fhttpbin
