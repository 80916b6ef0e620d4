import Mathlib.Data.Set.Insert
import NioApps.Fnsvc.Diagnostics

/-!
# Fnsvc — what a program knows of the disk slots

The disk service keeps a table of slots. A program that calls `fnsvc_disk_mount`,
`fnsvc_disk_unmount` and `fnsvc_disk_restore_boot` sees of it only what each call returns and what
`fnsvc_disk_last_error` says then; a request may be lost on its way, and so may the reply to one
that was carried out. `mayHold` is what a program can conclude from this about each slot, and
`mayHold_run` says that over any run the slot holds one of these.

* `DiskServer` — a service that keeps slots, and the device it makes.
* `mayHold` — what each slot may hold, by the calls of a run.
* `makes_mayHold` — one call.
* `mayHold_run` — a run.
-/

namespace NioApps.Fnsvc

/-! ## The service -/

/-- What is mounted in a slot. -/
structure Medium where
  uri : List UInt8
  flags : UInt8
  sectorSizeHint : Nat
  deriving DecidableEq

/-- What a request asks of the slots. -/
inductive DiskOp where
  | mount (slot : UInt8) (medium : Medium)
  | unmount (slot : UInt8)
  | restoreBoot (slot : UInt8)

/-- The request of two bytes: version and slot. -/
def decodeSlot : List UInt8 → Option UInt8
  | [version, slot] => if version = nioDiskVersion then some slot else none
  | _ => none

/-- What a request for the disk device asks for. -/
def Request.diskOp (r : Request) : Option DiskOp :=
  if r.device ≠ nioDeviceidDisk then none
  else if r.command = nioDiskMount then
    (decodeMount r.frame).map fun m => .mount m.slot ⟨m.uri, m.flags, m.sectorSizeHint⟩
  else if r.command = nioDiskUnmount then (decodeSlot r.frame).map .unmount
  else if r.command = nioDiskRestoreBoot then (decodeSlot r.frame).map .restoreBoot
  else none

/-- The slots of the service, which counts them from 1. -/
abbrev Slots := UInt8 → Option Medium

/-- An operation carried out; `boot` is what the service restores. -/
def DiskOp.apply (boot : Slots) : DiskOp → Slots → Slots
  | .mount slot medium, slots => Function.update slots slot (some medium)
  | .unmount slot, slots => Function.update slots slot none
  | .restoreBoot slot, slots => Function.update slots slot (boot slot)

/-- A service with disk slots. What it answers with OK it has carried out, and what it answers with
another status it has not; of a request without an answer either may be true. -/
structure DiskServer (σ : Type) where
  start : σ
  slots : σ → Slots
  boot : Slots
  serve : Request → σ → Reply × σ
  within_capacity : ∀ r s status payload,
    (serve r s).1 = .answered status payload → payload.length ≤ r.capacity
  ok : ∀ r s op, r.diskOp = some op → (serve r s).1.isOk = true →
    slots (serve r s).2 = op.apply boot (slots s)
  refused : ∀ r s op status payload, r.diskOp = some op →
    (serve r s).1 = .answered status payload → status ≠ fnsvcStatusOk →
    slots (serve r s).2 = slots s
  lost : ∀ r s op code, r.diskOp = some op → (serve r s).1 = .failed code →
    slots (serve r s).2 = slots s ∨ slots (serve r s).2 = op.apply boot (slots s)
  other : ∀ r s, r.diskOp = none → slots (serve r s).2 = slots s

section

variable {σ : Type} (S : DiskServer σ)

/-- The service once it has had some requests. -/
def DiskServer.after (past : List Request) : σ := past.foldl (fun s r => (S.serve r s).2) S.start

def DiskServer.device : Device where
  respond past r := (S.serve r (S.after past)).1
  within_capacity past r := S.within_capacity r (S.after past)

/-- The slots once the service has had some requests. -/
def DiskServer.slotsAfter (past : List Request) : Slots := S.slots (S.after past)

theorem DiskServer.after_concat (past : List Request) (r : Request) :
    S.after (past ++ [r]) = (S.serve r (S.after past)).2 := by
  rw [DiskServer.after, List.foldl_concat]
  rfl

/-- A request that asks nothing of the slots leaves them. -/
theorem DiskServer.slotsAfter_other (past : List Request) {r : Request} (hop : r.diskOp = none) :
    S.slotsAfter (past ++ [r]) = S.slotsAfter past := by
  rw [DiskServer.slotsAfter, S.after_concat, S.other r _ hop]
  rfl

end

/-! ## What the program can conclude -/

/-- The slot of a call, as the program counts them. -/
def DiskCall.slot : DiskCall → UInt8
  | .mount slot _ _ _ => slot
  | .unmount slot => slot
  | .restoreBoot slot => slot

/-- What a call asks the slot to hold. -/
def DiskCall.wanted (boot : Slots) : DiskCall → Option Medium
  | .mount _ uri readonly sectorSizeHint =>
    some ⟨uri.bytes, if readonly ≠ 0 then 0x01 else 0x00, sectorSizeHint.toNat⟩
  | .unmount _ => none
  | .restoreBoot slot => boot (slot + 1)

/-- The errors after which a call that returned 0 may have been carried out: nothing was reported,
or a restore was answered with OK and something else than the body asked for. -/
def DiskCall.Uncertain (h : FujinetNio) (error : UInt8) : DiskCall → Prop
  | .restoreBoot _ => error = h.diskErrUnreported ∨ error = h.diskErrNone
  | _ => error = h.diskErrUnreported

instance (h : FujinetNio) (error : UInt8) (c : DiskCall) : Decidable (c.Uncertain h error) :=
  match c with
  | .restoreBoot _ => instDecidableOr
  | .mount _ _ _ _ => instDecidableEqUInt8 _ _
  | .unmount _ => instDecidableEqUInt8 _ _

/-- What the slot of a call may hold after it, from what it may have held before, the value returned
and the error. -/
def DiskCall.leaves (h : FujinetNio) (boot : Slots) (c : DiskCall) (ret : Bool) (error : UInt8)
    (before : Set (Option Medium)) : Set (Option Medium) :=
  if ret = true then {c.wanted boot}
  else if c.Uncertain h error then insert (c.wanted boot) before
  else before

instance : DecidablePred DiskCall.Rejected
  | .mount slot uri _ _ => inferInstanceAs
      (Decidable (slot.toNat ≥ fnctlMaxUnits ∨ u16 uri.len = 0 ∨ u16 uri.len + 8 > fnsvcIoBufSize))
  | .unmount slot => inferInstanceAs (Decidable (slot.toNat ≥ fnctlMaxUnits))
  | .restoreBoot slot => inferInstanceAs (Decidable (slot.toNat ≥ fnctlMaxUnits))

/-- What the slots may hold after a call. -/
def CallStep.learn (h : FujinetNio) (boot : Slots)
    (may : UInt8 → Set (Option Medium)) (s : CallStep) : UInt8 → Set (Option Medium) :=
  match s.call with
  | .disk c =>
    if c.Rejected then may
    else
      Function.update may (c.slot + 1)
        (c.leaves h boot s.ret s.after.diskLastError (may (c.slot + 1)))
  | _ => may

/-- What the slots may hold after a run. -/
def mayHold (h : FujinetNio) (boot : Slots) (may : UInt8 → Set (Option Medium))
    (steps : List CallStep) : UInt8 → Set (Option Medium) :=
  steps.foldl (CallStep.learn h boot) may

/-- A call that stores nothing past `req_buf` and mounts no uri that is cut. -/
def FnsvcCall.Whole : FnsvcCall → Prop
  | .disk (.mount _ uri _ _) => uri.len < 65536
  | c => ¬ c.Overruns

/-- What the request of a call asks for. -/
def DiskCall.op : DiskCall → DiskOp
  | .mount slot uri readonly sectorSizeHint =>
    .mount (slot + 1) ⟨sentUri uri, if readonly ≠ 0 then 0x01 else 0x00, sectorSizeHint.toNat⟩
  | .unmount slot => .unmount (slot + 1)
  | .restoreBoot slot => .restoreBoot (slot + 1)

/-- The server reads from the request the operation that was asked for. -/
theorem diskOp_request (c : DiskCall) : c.request.diskOp = some c.op := by
  cases c with
  | mount slot uri readonly sectorSizeHint =>
    show (decodeMount (mountFrame slot uri readonly sectorSizeHint)).map _ = _
    rw [decodeMount_frame]
    rfl
  | unmount slot => rfl
  | restoreBoot slot => rfl

/-- The operation does to the slot what the call asked for, if the whole uri went with it. -/
theorem apply_op {c : DiskCall} (hwhole : (FnsvcCall.disk c).Whole) (boot slots : Slots) :
    c.op.apply boot slots = Function.update slots (c.slot + 1) (c.wanted boot) := by
  cases c with
  | mount slot uri readonly sectorSizeHint =>
    have huri : sentUri uri = uri.bytes := by
      rw [sentUri, u16_of_lt (show uri.len < 65536 from hwhole)]
      exact List.take_length
    rw [DiskCall.op, huri]
    rfl
  | unmount slot => rfl
  | restoreBoot slot => rfl

/-! ## One call -/

section

variable {h : FujinetNio} {dev : Device} {w w' : World}

variable (h dev w) in
/-- A disk call that is not rejected sends its request and nothing else. -/
theorem diskCall_sends {c : DiskCall} (hsent : ¬ c.Rejected) :
    (c.call h dev w).2.past = w.past ++ [c.request] := by
  cases c with
  | mount slot uri readonly sectorSizeHint => exact (fnsvcDiskMount_sends h dev w hsent).1
  | unmount slot =>
    have hsends := (diskService_sends h dev nioDiskUnmount w (slotChunk_fits w.reqBuf slot)
      (show 16 ≤ fnctlMaxData by decide)).1
    rw [slotChunk_frame] at hsends
    have hslot : ¬ slot.toNat ≥ fnctlMaxUnits := hsent
    unfold DiskCall.call fnsvcDiskUnmount
    dsimp only
    rw [if_neg hslot]
    exact hsends
  | restoreBoot slot => exact (fnsvcDiskRestoreBoot_leaves h dev (Nat.lt_of_not_le hsent) w).1

variable {σ : Type} {S : DiskServer σ}

/-- A listing asks nothing of the slots. -/
theorem listing_slots {uri : CStr} (hover : ¬ (FnsvcCall.listDirectory uri true).Overruns)
    (k : Nat) :
    S.slotsAfter (worldOf (fnsvcListDirectory S.device uri true k w)).past =
      S.slotsAfter w.past := by
  rw [fnsvcListDirectory, if_pos rfl]
  apply Loop.after_preserves fun out => S.slotsAfter (worldOf out).past = S.slotsAfter w.past
  · intro s hs
    rcases Nat.lt_or_ge fnsvcIoBufSize (u16 uri.len + fnsvcListRequestOverhead) with
      hlarge | hchecked
    · rw [listStep_tooLarge S.device s hlarge]
      exact hs
    · have hfit := listUriMax_of_not_overruns hover hchecked
      rw [(listStep_sends S.device s hfit).1, S.slotsAfter_other _ rfl]
      exact hs
  · rfl

/-- **No other call changes a slot.** -/
theorem makes_slots_other {call : FnsvcCall} {ret : Bool} (hmakes : Makes h S.device call w ret w')
    (hother : ∀ c, call ≠ .disk c) (hwhole : call.Whole) :
    S.slotsAfter w'.past = S.slotsAfter w.past := by
  cases hmakes with
  -- neither a listing nor a resolve asks for a disk operation
  | @listDirectory uri cb _ k r hr =>
    cases cb with
    | false =>
      rw [← Sum.inr.inj hr]
      rfl
    | true =>
      have hslots := listing_slots (S := S) (w := w) hwhole k
      rw [hr] at hslots
      exact hslots
  | @resolvePath a =>
    by_cases hvalid : ∃ base, a.Valid base
    case neg =>
      rw [fnsvcResolvePath_invalid (not_exists.mp hvalid)]
      rfl
    obtain ⟨base, hvalid⟩ := hvalid
    rcases Nat.lt_or_ge 512 (u16 (a.total base)) with hlarge | hfit
    · rw [fnsvcResolvePath_tooLarge hvalid hlarge]
      rfl
    · rw [(fnsvcResolvePath_sends S.device w hvalid hfit).1, S.slotsAfter_other _ rfl]
  | @disk c => exact absurd rfl (hother c)

/-- What became of the slots, by the reply to the request. -/
theorem diskCall_slots {c : DiskCall} (hwhole : (FnsvcCall.disk c).Whole) (hsent : ¬ c.Rejected)
    {reply : Reply} (hreply : S.device.respond w.past c.request = reply) :
    (S.slotsAfter (c.call h S.device w).2.past =
        Function.update (S.slotsAfter w.past) (c.slot + 1) (c.wanted S.boot) ∨
      S.slotsAfter (c.call h S.device w).2.past = S.slotsAfter w.past) ∧
    (reply.isOk = true → S.slotsAfter (c.call h S.device w).2.past =
      Function.update (S.slotsAfter w.past) (c.slot + 1) (c.wanted S.boot)) ∧
    (∀ status payload, reply = .answered status payload → reply.isOk = false →
      S.slotsAfter (c.call h S.device w).2.past = S.slotsAfter w.past) := by
  have hop := diskOp_request c
  have happly := apply_op hwhole S.boot (S.slotsAfter w.past)
  -- the call sends its one request, and the server serves it
  rw [diskCall_sends h S.device w hsent, ← happly]
  simp only [DiskServer.slotsAfter, S.after_concat]
  have hserve : (S.serve c.request (S.after w.past)).1 = reply := hreply
  have hok := S.ok c.request (S.after w.past) c.op hop
  rw [hserve] at hok
  -- an answer that is not OK comes from a server that has refused
  have hrefused : ∀ status payload, reply = .answered status payload → reply.isOk = false →
      S.slots (S.serve c.request (S.after w.past)).2 = S.slots (S.after w.past) := by
    rintro status payload rfl hnot
    exact S.refused c.request _ c.op status payload hop hserve (of_decide_eq_false hnot)
  refine ⟨?_, hok, hrefused⟩
  cases reply with
  -- a request that was lost may have been served or not
  | failed code => exact (S.lost c.request _ c.op code hop hserve).symm
  | answered status payload =>
    cases hstatus : (Reply.answered status payload).isOk with
    | true => exact .inl (hok hstatus)
    | false => exact .inr (hrefused status payload rfl hstatus)

/-- A call whose request failed in the transport is uncertain. -/
theorem uncertain_of_failed {c : DiskCall} (code : UInt8) :
    c.Uncertain h (recordedError h (.failed code)) := by
  cases c with
  | mount slot uri readonly sectorSizeHint => rfl
  | unmount slot => rfl
  | restoreBoot slot => exact .inl rfl

/-- A call that was answered with OK and returned 0 is a restore. -/
theorem uncertain_of_ok {c : DiskCall} {reply : Reply} (hok : reply.isOk = true)
    (hnot : c.accepts reply = false) : c.Uncertain h (recordedError h reply) := by
  have herror : recordedError h reply = h.diskErrNone := by rw [recordedError, if_pos hok]
  cases c with
  | mount slot uri readonly sectorSizeHint => exact absurd (hok.symm.trans hnot) Bool.noConfusion
  | unmount slot => exact absurd (hok.symm.trans hnot) Bool.noConfusion
  | restoreBoot slot => exact .inr herror

/-- The slot of a call holds what the program takes it to hold. -/
theorem diskCall_leaves {c : DiskCall} (hwhole : (FnsvcCall.disk c).Whole) (hsent : ¬ c.Rejected)
    {before : Set (Option Medium)} (hbefore : S.slotsAfter w.past (c.slot + 1) ∈ before) :
    S.slotsAfter (c.call h S.device w).2.past (c.slot + 1) ∈
      c.leaves h S.boot (c.call h S.device w).1 (c.call h S.device w).2.diskLastError before := by
  have hrun : DiskRun h S.device c w (c.call h S.device w) := diskCall_run c w
  obtain ⟨reply, hreply⟩ : ∃ reply, S.device.respond w.past c.request = reply := ⟨_, rfl⟩
  obtain ⟨heither, hok, hrefused⟩ := diskCall_slots (h := h) hwhole hsent hreply
  rw [DiskCall.leaves, hrun.ret hsent, hrun.recorded hsent, hreply]
  split
  next haccepts =>
    rw [hok ((accepts_iff c reply).mp haccepts).1]
    exact Function.update_self _ _ _
  next hnot =>
    split
    next hunsure =>
      -- carried out or not
      rcases heither with hdone | hsame
      · rw [hdone]
        exact .inl (Function.update_self _ _ _)
      · rw [hsame]
        exact .inr hbefore
    next hsure =>
      cases reply with
      | failed code => exact absurd (uncertain_of_failed code) hsure
      | answered status payload =>
        have hstatus : (Reply.answered status payload).isOk = false :=
          Bool.eq_false_of_not_eq_true fun hok' =>
            hsure (uncertain_of_ok hok' (Bool.eq_false_of_not_eq_true hnot))
        rw [hrefused status payload rfl hstatus]
        exact hbefore

/-- **One call.** -/
theorem makes_mayHold {call : FnsvcCall} {ret : Bool} (hmakes : Makes h S.device call w ret w')
    (hwhole : call.Whole) {may : UInt8 → Set (Option Medium)}
    (hmay : ∀ slot, S.slotsAfter w.past slot ∈ may slot) (slot : UInt8) :
    S.slotsAfter w'.past slot ∈ CallStep.learn h S.boot may ⟨call, w, ret, w'⟩ slot := by
  -- only a disk call can change what is known
  cases hcall : call with
  | listDirectory uri cb =>
    rw [makes_slots_other hmakes (by simp [hcall]) hwhole]
    exact hmay slot
  | resolvePath a =>
    rw [makes_slots_other hmakes (by simp [hcall]) hwhole]
    exact hmay slot
  | disk c =>
    subst hcall
    cases hmakes
    rw [CallStep.learn]
    dsimp only
    split
    -- a rejected call sends nothing
    next hrejected =>
      rw [(diskCall_run c w).rejected hrejected]
      exact hmay slot
    next hsent =>
      by_cases hslot : slot = c.slot + 1
      · subst hslot
        -- the slot of the call: what it may hold is what the call leaves there
        rw [Function.update_self]
        exact diskCall_leaves hwhole hsent (hmay _)
      · rw [Function.update_of_ne hslot]
        -- another slot keeps what it held, whether the call was served or not
        rcases (diskCall_slots (h := h) hwhole hsent rfl).1 with hdone | hsame
        · rw [hdone, Function.update_of_ne hslot]
          exact hmay slot
        · rw [hsame]
          exact hmay slot

end

/-! ## Runs -/

/-- A call of a run that returned 0 and may have been carried out. -/
def CallStep.Uncertain (h : FujinetNio) (s : CallStep) : Prop :=
  ∃ c, s.call = .disk c ∧ ¬ c.Rejected ∧ s.ret = false ∧ c.Uncertain h s.after.diskLastError

/-- A call that is not uncertain leaves one content for a slot that had one. -/
theorem learn_singleton {h : FujinetNio} (boot : Slots) {may : UInt8 → Set (Option Medium)}
    {s : CallStep} (hsure : ¬ s.Uncertain h) (hmay : ∀ slot, ∃ m, may slot = {m}) (slot : UInt8) :
    ∃ m, CallStep.learn h boot may s slot = {m} := by
  unfold CallStep.learn
  cases hcall : s.call with
  | listDirectory uri cb => exact hmay slot
  | resolvePath a => exact hmay slot
  | disk c =>
    dsimp only
    split
    next => exact hmay slot
    next hsent =>
      by_cases hslot : slot = c.slot + 1
      · subst hslot
        -- a call that returned 1 leaves its medium, and one that is sure to have failed leaves the
        -- old
        rw [Function.update_self, DiskCall.leaves]
        split
        next => exact ⟨_, rfl⟩
        next hret =>
          rw [if_neg fun hunsure =>
            hsure ⟨c, hcall, hsent, Bool.eq_false_of_not_eq_true hret, hunsure⟩]
          exact hmay _
      · rw [Function.update_of_ne hslot]
        exact hmay slot

/-- Where no step is uncertain, what a slot holds stays known. -/
theorem mayHold_singleton {h : FujinetNio} (boot : Slots) {steps : List CallStep}
    (hsure : ∀ s ∈ steps, ¬ s.Uncertain h) {may : UInt8 → Set (Option Medium)}
    (hmay : ∀ slot, ∃ m, may slot = {m}) (slot : UInt8) :
    ∃ m, mayHold h boot may steps slot = {m} := by
  induction steps generalizing may with
  | nil => exact hmay slot
  | cons s steps ih =>
    exact ih (fun s' hs' => hsure s' (List.mem_cons_of_mem s hs'))
      fun slot => learn_singleton boot (hsure s List.mem_cons_self) hmay slot

/-- What the slot holds is among what it may hold, by induction over the run. -/
theorem mem_mayHold {σ : Type} {S : DiskServer σ} {h : FujinetNio} {w w' : World}
    {steps : List CallStep} (hrun : Run h S.device w steps w')
    (hwhole : ∀ s ∈ steps, s.call.Whole) {may : UInt8 → Set (Option Medium)}
    (hmay : ∀ slot, S.slotsAfter w.past slot ∈ may slot) (slot : UInt8) :
    S.slotsAfter w'.past slot ∈ mayHold h S.boot may steps slot := by
  induction hrun generalizing may with
  | nil w => exact hmay slot
  | @cons call w w' w'' ret steps hmakes hrest ih =>
    exact ih (fun s hs => hwhole s (List.mem_cons_of_mem _ hs))
      fun slot => makes_mayHold hmakes (hwhole _ List.mem_cons_self) hmay slot

/-- **What a program knows of the slots.** Over any service and any run, every slot holds one of the
contents that the program takes it to hold; and where no call was uncertain, a program that knew the
slots before knows them after. -/
theorem mayHold_run {σ : Type} (S : DiskServer σ) {h : FujinetNio} {w w' : World}
    {steps : List CallStep} (hrun : Run h S.device w steps w')
    (hwhole : ∀ s ∈ steps, s.call.Whole) :
    (∀ may, (∀ slot, S.slotsAfter w.past slot ∈ may slot) →
      ∀ slot, S.slotsAfter w'.past slot ∈ mayHold h S.boot may steps slot) ∧
    ((∀ s ∈ steps, ¬ s.Uncertain h) →
      ∀ slot, mayHold h S.boot (fun slot => {S.slotsAfter w.past slot}) steps slot =
        {S.slotsAfter w'.past slot}) := by
  refine ⟨fun may hmay slot => mem_mayHold hrun hwhole hmay slot, fun hsure slot => ?_⟩
  have hmem := mem_mayHold hrun hwhole
    (fun slot => Set.mem_singleton (S.slotsAfter w.past slot)) slot
  obtain ⟨m, hm⟩ := mayHold_singleton S.boot hsure
    (fun slot => ⟨S.slotsAfter w.past slot, rfl⟩) slot
  rw [hm] at hmem ⊢
  rw [Set.mem_singleton_iff.mp hmem]

/-- A service that answers a mount, and carries out the other requests without an answer. -/
def quietServer : DiskServer Slots where
  start := fun _ => none
  slots s := s
  boot := fun _ => none
  serve r s :=
    match r.diskOp with
    | some (.mount slot medium) =>
      (.answered fnsvcStatusOk [], (DiskOp.mount slot medium).apply (fun _ => none) s)
    | some op => (.failed 6, op.apply (fun _ => none) s)
    | none => (.failed 6, s)
  within_capacity r s status payload hanswer := by
    cases hop : r.diskOp with
    | none => simp [hop] at hanswer
    | some op => cases op <;> simp [hop] at hanswer; simp [hanswer]
  ok r s op hop _ := by cases op <;> simp [hop]
  refused r s op status payload hop hanswer hstatus := by
    cases op with
    | mount slot medium => simp [hop, Ne.symm hstatus] at hanswer
    | unmount slot => simp [hop] at hanswer
    | restoreBoot slot => simp [hop] at hanswer
  lost r s op code hop hanswer := by cases op <;> simp [hop]
  other r s hop := by simp [hop]

/-- Slot 1 after a mount and an unmount whose reply is lost. -/
theorem mayHold_run_quietServer :
    quietServer.slotsAfter ((DiskCall.unmount 0).call sampleHeader quietServer.device
        ((DiskCall.mount 0 (letters 1) 0 0).call sampleHeader quietServer.device
          (World.initial 0)).2).2.past 1 ∈
      mayHold sampleHeader quietServer.boot (fun _ => {none})
        (diskSteps quietServer.device [.mount 0 (letters 1) 0 0, .unmount 0]
          (World.initial 0)) 1 := by
  have hwhole : ∀ s ∈ diskSteps quietServer.device [.mount 0 (letters 1) 0 0, .unmount 0]
      (World.initial 0), s.call.Whole := by
    intro s hs
    rcases List.mem_pair.mp hs with rfl | rfl
    · exact show 1 < 65536 by decide
    · exact id
  exact (mayHold_run quietServer (run_diskSteps quietServer.device _ _) hwhole).1 _
    (fun _ => rfl) 1

end NioApps.Fnsvc
