import NioApps.Fnsvc.Diagnostics

/-!
# Fnsvc — the diagnostics after any history

The diagnostics are there to say how the call just made went: NONE exactly when it returned 1, and
the same three values after any two histories that end in the same call with the same replies.
`describes_iff` says which calls meet this: those that get past their argument checks, build a
request that fits `req_buf`, and get no answer whose second length lies past `resp_buf`.

* `Leaves`, `Reached` — what a call may leave, and the statics after a history of calls.
* `Describes` — what is asked of a call with its replies, over all histories that end in it.
* `describes_iff` — it holds exactly when the call is `Fresh`.
-/

namespace NioApps.Fnsvc

open BufProg

/-! ## Histories -/

/-- The statics as the program is loaded, with what lies past the end of `resp_buf`. -/
def World.loaded (diskErrNone : UInt8) (beyond : Nat → UInt8) : World :=
  { World.initial diskErrNone with
    respBuf := fun i => if i < fnsvcIoBufSize then 0 else beyond i }

section

variable (h : FujinetNio) (dev : Device)

/-- What a call made in `w` may leave. A store past the end of `req_buf` is undefined: it may
leave any values in the other statics. -/
inductive Leaves (c : FnsvcCall) (w : World) (ret : Bool) : World → Prop where
  | kept {w' : World} (hmakes : Makes h dev c w ret w') : Leaves c w ret w'
  | overrun {w' w'' : World} (hmakes : Makes h dev c w ret w') (hover : c.Overruns)
      (hpast : w''.past = w'.past) (hname : w''.listName.length = w'.listName.length) :
      Leaves c w ret w''

/-- The statics after some history of calls. -/
inductive Reached : World → Prop where
  | loaded (beyond : Nat → UInt8) : Reached (World.loaded h.diskErrNone beyond)
  | call {c : FnsvcCall} {w w' : World} {ret : Bool} (hreached : Reached w)
      (hleaves : Leaves h dev c w ret w') : Reached w'

end

section

variable (h : FujinetNio)

/-- Some history ends in the call `c`, which gets `replies`, returns `ret` and leaves the
diagnostics `d`. -/
def EndsIn (c : FnsvcCall) (replies : List Reply) (ret : Bool) (d : Diagnostics) : Prop :=
  ∃ dev w w', Reached h dev w ∧ Leaves h dev c w ret w' ∧
    answers dev w.past (sentSince w w') = replies ∧ w'.diagnostics = d

/-- **The diagnostics describe the call just made**: over all histories that end in the call with
these replies, the error is NONE exactly when it returned 1, and the three values are the same. -/
structure Describes (c : FnsvcCall) (replies : List Reply) : Prop where
  none_iff : ∀ ret d, EndsIn h c replies ret d → (d.error = .none ↔ ret = true)
  determined : ∀ ret d ret' d', EndsIn h c replies ret d → EndsIn h c replies ret' d' → d = d'

end

/-- The condition: the call gets to the opening assignments, its request fits `req_buf`, and no
answer strays. -/
structure Fresh (c : FnsvcCall) (replies : List Reply) : Prop where
  resets : c.Resets
  fits : ¬ c.Overruns
  stays : ∀ reply ∈ replies, ¬ c.Strays reply

variable {h : FujinetNio} {dev : Device} {c : FnsvcCall}

/-! ## `list_name` keeps its size -/

/-- A transport call does not touch `list_name`. -/
theorem listName_fnctlNioCall (dev : Device) (r : Request) (w : World) :
    (fnctlNioCall dev r w).2.listName = w.listName := by
  unfold fnctlNioCall
  split
  · rfl
  · dsimp only
    cases dev.respond w.past r with
    | failed code => rfl
    | answered status payload => rfl

theorem listName_serviceCall (dev : Device) (r : Request) (w : World) :
    (serviceCall dev r w).2.listName = w.listName := by
  have hname := listName_fnctlNioCall dev r w
  unfold serviceCall
  generalize fnctlNioCall dev r w = out at hname
  obtain ⟨_ | reply, w'⟩ := out <;> exact hname

theorem listName_diskResult (h : FujinetNio) (called : Bool) (status : UInt8) (respLen : Nat)
    (w : World) : (diskResult h called status respLen w).2.listName = w.listName := by
  obtain ⟨e, he⟩ := diskResult_records h called status respLen w
  rw [he]
  rfl

theorem listName_restoreBootChecks (status : UInt8) (respLen : Nat) (w : World) :
    (restoreBootChecks status respLen w).2.listName = w.listName := by
  obtain ⟨e, he⟩ := restoreBootChecks_records status respLen w
  rw [he]
  rfl

theorem listName_diskService (command : UInt8) (capacity : Nat) (b : FrameBuf) (w : World) :
    (diskService h dev command capacity b w).2.listName = w.listName := by
  have hname := listName_serviceCall dev ⟨nioDeviceidDisk, command, b.frame, capacity⟩
    { w with reqBuf := b.mem }
  unfold diskService diskExchange
  generalize serviceCall dev _ _ = out at hname
  obtain ⟨_ | ⟨status, respLen⟩, w'⟩ := out
  · exact (listName_diskResult h false 0 0 w').trans hname
  · exact (listName_diskResult h true status respLen w').trans hname

theorem listName_diskCall (c : DiskCall) (w : World) :
    (c.call h dev w).2.listName = w.listName := by
  cases c with
  | mount slot uri readonly sectorSizeHint =>
    unfold DiskCall.call fnsvcDiskMount
    dsimp only
    split
    · rfl
    · exact listName_diskService _ _ _ w
  | unmount slot =>
    unfold DiskCall.call fnsvcDiskUnmount
    dsimp only
    split
    · rfl
    · exact listName_diskService _ _ _ w
  | restoreBoot slot =>
    unfold DiskCall.call fnsvcDiskRestoreBoot diskExchange
    dsimp only
    split
    · rfl
    · -- only a listing writes to `list_name`
      have hname := listName_serviceCall dev
        ⟨nioDeviceidDisk, nioDiskRestoreBoot,
          ((FrameBuf.mk w.reqBuf 0).put (slotChunk slot)).frame, 16⟩
        { w.clearLast with reqBuf := ((FrameBuf.mk w.reqBuf 0).put (slotChunk slot)).mem }
      generalize serviceCall dev _ _ = out at hname
      obtain ⟨_ | ⟨status, respLen⟩, w'⟩ := out
      · exact (listName_diskResult h false 0 0 w').trans hname
      · dsimp only
        rw [listName_restoreBootChecks, listName_diskResult]
        exact hname

theorem listName_fnsvcResolvePath (a : ResolveArgs) (w : World) :
    (fnsvcResolvePath dev a w).world.listName = w.listName := by
  by_cases hvalid : ∃ base, a.Valid base
  -- invalid arguments and requests that are too large return before the exchange
  case neg =>
    rw [fnsvcResolvePath_invalid (not_exists.mp hvalid)]
    rfl
  obtain ⟨base, hvalid⟩ := hvalid
  rcases Nat.lt_or_ge 512 (u16 (a.total base)) with hlarge | hfit
  · rw [fnsvcResolvePath_tooLarge hvalid hlarge]
    rfl
  · rw [fnsvcResolvePath_exchange hvalid hfit]
    cases dev.respond w.past (w.resolveSent a base) with
    | failed code => rfl
    | answered status payload =>
      unfold resolveResponse
      dsimp only
      split
      · rfl
      · split <;> rfl

/-- Every call of the module keeps the size of `list_name`. -/
theorem makes_listName {w w' : World} {ret : Bool} (hmakes : Makes h dev c w ret w')
    (hname : w.listName.length = fnsvcListNameMax + 1) :
    w'.listName.length = fnsvcListNameMax + 1 := by
  cases hmakes with
  | @listDirectory uri cb _ k r hr =>
    have hsound := fnsvcListDirectory_sound dev uri cb k hname
    rw [hr] at hsound
    exact hsound.listName_length
  | resolvePath => rwa [listName_fnsvcResolvePath]
  | disk => rwa [listName_diskCall]

/-- The same for what a call may leave, overruns included. -/
theorem Leaves.listName_length {w w' : World} {ret : Bool} (hleaves : Leaves h dev c w ret w')
    (hname : w.listName.length = fnsvcListNameMax + 1) :
    w'.listName.length = fnsvcListNameMax + 1 := by
  cases hleaves with
  | kept hmakes => exact makes_listName hmakes hname
  | overrun hmakes _ _ hsize => exact hsize.trans (makes_listName hmakes hname)

/-- By induction over the history: `list_name` keeps its declared size. -/
theorem Reached.listName_length {w : World} (hreached : Reached h dev w) :
    w.listName.length = fnsvcListNameMax + 1 := by
  induction hreached with
  | loaded beyond => exact length_listName_initial h.diskErrNone
  | call _ hleaves ih => exact hleaves.listName_length ih

/-! ## A fresh call -/

/-- **A fresh call** leaves the same diagnostics at the end of every history. -/
theorem EndsIn.of_fresh {replies : List Reply} {ret : Bool} {d : Diagnostics}
    (hfresh : Fresh c replies) (hends : EndsIn h c replies ret d) :
    d = c.diagnosticsOf replies ∧ (d.error = .none ↔ ret = true) := by
  obtain ⟨dev, w, w', hreached, hleaves, rfl, rfl⟩ := hends
  cases hleaves with
  | overrun _ hover => exact absurd hover hfresh.fits
  | kept hmakes =>
    have hown := makes_diagnostics hmakes hreached.listName_length hfresh.resets hfresh.fits
      hfresh.stays
    exact ⟨hown.eq, hown.none_iff⟩

/-- A fresh call describes itself: what it leaves is a function of its replies. -/
theorem describes_of_fresh {replies : List Reply} (hfresh : Fresh c replies) :
    Describes h c replies where
  none_iff _ _ hends := (hends.of_fresh hfresh).2
  determined _ _ _ _ hends hends' :=
    (hends.of_fresh hfresh).1.trans (hends'.of_fresh hfresh).1.symm

/-! ## A call that does not reset -/

variable (h dev) in
/-- A call that leaves before the opening assignments sends nothing and keeps the status of the
call before. -/
theorem makes_of_not_resets (hdiag : c.Diagnosed) (hnot : ¬ c.Resets) (w : World) :
    ∃ ret w', Makes h dev c w ret w' ∧ w'.past = w.past ∧ w'.lastStatus = w.lastStatus := by
  cases hdiag with
  | listDirectory uri cb =>
    -- a listing that does not get to its reset has no callback
    obtain rfl : cb = false := Bool.eq_false_of_not_eq_true hnot
    have hleft : fnsvcListDirectory dev uri false 0 w = .inr ⟨false, w.fail .invalidArg, [], []⟩ :=
      rfl
    exact ⟨_, _, .listDirectory hleft, rfl, rfl⟩
  | resolvePath a =>
    refine ⟨_, _, .resolvePath, ?_⟩
    by_cases hvalid : ∃ base, a.Valid base
    -- and a resolve has arguments that are invalid or a total that is too large
    case neg =>
      rw [fnsvcResolvePath_invalid (not_exists.mp hvalid)]
      exact ⟨rfl, rfl⟩
    obtain ⟨base, hvalid⟩ := hvalid
    have hlarge : 512 < u16 (a.total base) :=
      Nat.lt_of_not_le fun hfit => hnot ⟨base, hvalid, hfit⟩
    rw [fnsvcResolvePath_tooLarge hvalid hlarge]
    exact ⟨rfl, rfl⟩
  | restoreBoot slot =>
    refine ⟨_, _, .disk, ?_⟩
    -- and a restore a slot that there is not
    have hslot : slot.toNat ≥ fnctlMaxUnits := Nat.le_of_not_lt hnot
    rw [(diskCall_run (.restoreBoot slot) w).rejected hslot]
    exact ⟨rfl, rfl⟩

/-- A call made in one state ends in one way. -/
theorem Makes.unique {w w₁ w₂ : World} {ret₁ ret₂ : Bool} (h₁ : Makes h dev c w ret₁ w₁)
    (h₂ : Makes h dev c w ret₂ w₂) : w₁ = w₂ := by
  cases h₁ with
  | @listDirectory uri cb _ k r hr =>
    cases h₂ with
    | @listDirectory _ _ _ k' r' hr' =>
      cases cb with
      | false => rw [← Sum.inr.inj hr, ← Sum.inr.inj hr']
      | true =>
        have hleft : Loop.Returns (listStep dev uri) (listStart w) r := ⟨k, hr⟩
        rw [hleft.unique ⟨k', hr'⟩]
  | resolvePath =>
    cases h₂
    rfl
  | disk =>
    cases h₂
    rfl

/-- A device that refuses everything with status 1. -/
def refusingDevice : Device := Device.script fun _ => .answered 1 [7]

/-- What a restore leaves that was refused. -/
theorem reached_refused : ∃ w, Reached h refusingDevice w ∧ w.diagnostics = ⟨.status, 1, 1⟩ := by
  have hleft := fnsvcDiskRestoreBoot_leaves h refusingDevice (show (0 : UInt8).toNat < 8 by decide)
    (World.loaded h.diskErrNone fun _ => 0)
  exact ⟨_, .call (.loaded fun _ => 0) (.kept (.disk (c := .restoreBoot 0))), hleft.2.1⟩

/-- A call that returns before its reset shows what an earlier call left. Two histories are enough:
one that left nothing and one that left an error. -/
theorem not_describes_of_not_resets {replies : List Reply} {ret : Bool} {d : Diagnostics}
    (hdiag : c.Diagnosed) (hends : EndsIn h c replies ret d) (hnot : ¬ c.Resets)
    (hover : ¬ c.Overruns) : ¬ Describes h c replies := by
  have hempty : replies = [] := by
    obtain ⟨dev, w, w', -, hleaves, rfl, -⟩ := hends
    obtain ⟨ret', w₁, hmakes, hpast, -⟩ := makes_of_not_resets h dev hdiag hnot w
    cases hleaves with
    | overrun _ hover' => exact absurd hover' hover
    | kept hmakes' =>
      rw [hmakes'.unique hmakes, sentSince_eq_nil hpast]
      rfl
  -- after any history the call leaves the status it found
  have hkeeps : ∀ dev w, Reached h dev w →
      ∃ ret d, EndsIn h c replies ret d ∧ d.status = w.lastStatus := by
    intro dev w hreached
    obtain ⟨ret', w₁, hmakes, hpast, hstatus⟩ :=
      makes_of_not_resets h dev hdiag hnot w
    refine ⟨ret', w₁.diagnostics, ⟨dev, w, w₁, hreached, .kept hmakes, ?_, rfl⟩, hstatus⟩
    rw [sentSince_eq_nil hpast, hempty]
    rfl
  intro hdescribes
  obtain ⟨w, hreached, hrefused⟩ := reached_refused (h := h)
  have hone : w.lastStatus = 1 := congrArg Diagnostics.status hrefused
  obtain ⟨ret₀, d₀, hends₀, hstatus₀⟩ := hkeeps deadDevice _ (.loaded fun _ => 0)
  obtain ⟨ret₁, d₁, hends₁, hstatus₁⟩ := hkeeps refusingDevice w hreached
  have hsame := congrArg Diagnostics.status (hdescribes.determined _ _ _ _ hends₀ hends₁)
  rw [hstatus₀, hstatus₁, hone] at hsame
  exact absurd hsame (show (0 : UInt8) ≠ 1 by decide)

/-! ## A call that stores past `req_buf` -/

/-- A call that overruns `req_buf` may leave anything, so that it describes nothing. -/
theorem not_describes_of_overruns {replies : List Reply} {ret : Bool} {d : Diagnostics}
    (hends : EndsIn h c replies ret d) (hover : c.Overruns) : ¬ Describes h c replies := by
  obtain ⟨dev, w, w', hreached, hleaves, hreplies, -⟩ := hends
  obtain ⟨w₁, hmakes, hpast⟩ : ∃ w₁, Makes h dev c w ret w₁ ∧ w'.past = w₁.past := by
    cases hleaves with
    | kept hmakes => exact ⟨w', hmakes, rfl⟩
    | overrun hmakes _ hpast _ => exact ⟨_, hmakes, hpast⟩
  -- the same call may leave any status
  have hany : ∀ status, EndsIn h c replies ret { w₁ with lastStatus := status }.diagnostics := by
    intro status
    have hspoilt : Leaves h dev c w ret { w₁ with lastStatus := status } :=
      .overrun hmakes hover rfl rfl
    refine ⟨dev, w, _, hreached, hspoilt, ?_, rfl⟩
    rw [← hreplies, sentSince, sentSince, hpast]
  intro hdescribes
  have hsame := congrArg Diagnostics.status (hdescribes.determined _ _ _ _ (hany 0) (hany 1))
  exact absurd hsame (show (0 : UInt8) ≠ 1 by decide)

/-! ## An answer that strays -/

/-- An answer that strays is judged by two bytes past `resp_buf`, where the code reads the second
length. -/
theorem value_resolveProg_strays (m : Nat → UInt8) (a : ResolveArgs) {payload : List UInt8}
    {k : Nat} (hk : k < 2) (hfirst : firstLen (listMem payload) = 65528 + k)
    (hlen : 8 ≤ payload.length) (hmax : payload.length ≤ 512)
    (hver : listMem payload 0 = nioFileVersion) :
    (exec (overlay m 0 payload) (resolveProg a payload.length)).value =
      if payload.length < u16 (k + u16At m (65534 + k)) then .error .shortResponse
      else .ok ⟨⟩ := by
  have hbyte : overlay m 0 payload 0 = listMem payload 0 := overlay_zero_of_lt (by omega)
  -- the first length is that of the answer, whatever stood in the buffer
  have hlen₁ : u16At (overlay m 0 payload) 4 = 65528 + k :=
    (u16At_overlay m (by omega)).trans hfirst
  -- the second is read past the answer, which ends before offset 512
  have hpast : u16At (overlay m 0 payload) (65534 + k) = u16At m (65534 + k) := by
    unfold u16At
    rw [overlay_of_ge (i := 65534 + k) (by omega), overlay_of_ge (i := 65534 + k + 1) (by omega)]
  have hoff : u16 (6 + (65528 + k)) = 65534 + k := by
    unfold u16
    omega
  have hnext : u16 (65534 + k + 2) = k := by
    unfold u16
    omega
  -- the sum of the first check wraps round to 0 or 1, and passes
  have hin : ¬ u16 (6 + (65528 + k) + 2) > payload.length := by
    unfold u16
    omega
  rw [value_resolveProg _ a hlen (hbyte.trans hver), hlen₁, if_neg hin, hoff, value_resolveTail,
    hnext, hpast]

/-- No error stands after a resolve exactly where the decoding went through. -/
theorem resolveResponse_none_iff (a : ResolveArgs) {w : World} (hnone : w.lastError = .none)
    (respLen : Nat) :
    (resolveResponse a w fnsvcStatusOk respLen).world.lastError = .none ↔
      (exec w.respBuf (resolveProg a respLen)).value = .ok ⟨⟩ := by
  unfold resolveResponse
  rw [if_neg (by simp)]
  dsimp only
  rw [show (w.setLast fnsvcStatusOk respLen).respBuf = w.respBuf from rfl]
  cases hvalue : (exec w.respBuf (resolveProg a respLen)).value with
  | error e => simp [World.fail, resolveProg_ne_none _ a hvalue]
  | ok _ => simp [World.setLast, hnone]

/-- A resolve that gets an answer ends with what the parser makes of it over `resp_buf`. -/
theorem endsIn_resolve (h : FujinetNio) {a : ResolveArgs} (hargs : (FnsvcCall.resolvePath a).Resets)
    {payload : List UInt8} (hmax : payload.length ≤ 512) (beyond : Nat → UInt8) :
    ∃ ret d, EndsIn h (.resolvePath a) [.answered fnsvcStatusOk payload] ret d ∧
      (d.error = .none ↔ (exec (overlay (World.loaded h.diskErrNone beyond).respBuf 0 payload)
        (resolveProg a payload.length)).value = .ok ⟨⟩) := by
  obtain ⟨base, hvalid, hfit⟩ := hargs
  let dev := Device.script fun _ => .answered fnsvcStatusOk payload
  let w := World.loaded h.diskErrNone beyond
  have hresp : dev.respond w.past (w.resolveSent a base) = .answered fnsvcStatusOk payload :=
    congrArg (Reply.answered fnsvcStatusOk) (List.take_of_length_le hmax)
  refine ⟨_, _, ⟨dev, w, _, .loaded beyond, .kept .resolvePath, ?_, rfl⟩, ?_⟩
  · rw [sentSince_append (fnsvcResolvePath_sends dev w hvalid hfit).1]
    exact congrArg (fun reply => [reply]) hresp
  · rw [fnsvcResolvePath_exchange hvalid hfit, hresp]
    exact resolveResponse_none_iff a rfl payload.length

/-- Past `resp_buf` stands what was there when the program was loaded. -/
theorem u16At_loaded (diskErrNone b : UInt8) {i : Nat} (hi : 512 ≤ i) :
    u16At (World.loaded diskErrNone fun _ => b).respBuf i = leValue [b, b] := by
  have hbyte : ∀ j, 512 ≤ j → (World.loaded diskErrNone fun _ => b).respBuf j = b :=
    fun j hj => if_neg (Nat.not_lt_of_le hj)
  rw [u16At, hbyte i hi, hbyte (i + 1) (by omega)]

/-- A stray answer is the one reply of its call, of at most 512 bytes. -/
theorem EndsIn.strayAnswer {a : ResolveArgs} {replies : List Reply} {ret : Bool} {d : Diagnostics}
    (hends : EndsIn h (.resolvePath a) replies ret d) (hargs : (FnsvcCall.resolvePath a).Resets)
    (hover : ¬ (FnsvcCall.resolvePath a).Overruns) {reply : Reply} (hreply : reply ∈ replies)
    (hstrays : (FnsvcCall.resolvePath a).Strays reply) :
    ∃ payload : List UInt8, replies = [.answered fnsvcStatusOk payload] ∧ 8 ≤ payload.length ∧
      payload.length ≤ 512 ∧ listMem payload 0 = nioFileVersion ∧
      (firstLen (listMem payload) = 65528 ∨ firstLen (listMem payload) = 65529) := by
  obtain ⟨dev, w, w', -, hleaves, hreplies, -⟩ := hends
  obtain ⟨base, hvalid, hfit⟩ := hargs
  cases hleaves with
  | overrun _ hover' => exact absurd hover' hover
  | kept hmakes =>
    obtain rfl := hmakes.unique .resolvePath
    -- a resolve that does not overrun sends one request, and so has one reply
    rw [sentSince_append (fnsvcResolvePath_sends dev w hvalid hfit).1] at hreplies
    subst hreplies
    obtain rfl : reply = dev.respond w.past (w.resolveSent a base) := List.mem_singleton.mp hreply
    cases hresp : dev.respond w.past (w.resolveSent a base) with
    | failed code =>
      rw [hresp] at hstrays
      exact absurd hstrays id
    -- a reply that strays is an answer of the right version with such a first length
    | answered status payload =>
      rw [hresp] at hstrays
      obtain ⟨rfl, hlen, hver, hfirst⟩ := hstrays
      refine ⟨payload, ?_, hlen, dev.within_capacity _ _ _ _ hresp, hver, hfirst⟩
      rw [← hresp]
      rfl

/-- A call whose answer strays does not describe itself: with one filling past `resp_buf` it fails,
with another it does not. -/
theorem not_describes_of_strays {a : ResolveArgs} {replies : List Reply} {ret : Bool}
    {d : Diagnostics} (hends : EndsIn h (.resolvePath a) replies ret d)
    (hargs : (FnsvcCall.resolvePath a).Resets) (hover : ¬ (FnsvcCall.resolvePath a).Overruns)
    {reply : Reply} (hreply : reply ∈ replies) (hstrays : (FnsvcCall.resolvePath a).Strays reply) :
    ¬ Describes h (.resolvePath a) replies := by
  obtain ⟨payload, rfl, hlen, hmax, hver, hfirst⟩ :=
    hends.strayAnswer hargs hover hreply hstrays
  obtain ⟨k, hk, hfirst⟩ : ∃ k < 2, firstLen (listMem payload) = 65528 + k := by
    rcases hfirst with hfirst | hfirst
    · exact ⟨0, by omega, hfirst⟩
    · exact ⟨1, by omega, hfirst⟩
  -- past `resp_buf` the memory may hold zeros, or bytes that make a long second length
  obtain ⟨ret₀, d₀, hends₀, hnone₀⟩ := endsIn_resolve h hargs hmax fun _ => 0
  obtain ⟨ret₁, d₁, hends₁, hnone₁⟩ := endsIn_resolve h hargs hmax fun _ => 0x7F
  rw [value_resolveProg_strays _ a hk hfirst hlen hmax hver] at hnone₀ hnone₁
  have h₀ : u16At (World.loaded h.diskErrNone fun _ => 0).respBuf (65534 + k) = 0 :=
    u16At_loaded _ 0 (by omega)
  have h₁ : u16At (World.loaded h.diskErrNone fun _ => 0x7F).respBuf (65534 + k) = 0x7F7F :=
    u16At_loaded _ 0x7F (by omega)
  have hzero : u16 (k + 0) = k := u16_of_lt (by omega)
  have hlong : u16 (k + 0x7F7F) = k + 0x7F7F := u16_of_lt (by omega)
  rw [h₀, hzero, if_neg (by omega)] at hnone₀
  rw [h₁, hlong, if_pos (by omega)] at hnone₁
  intro hdescribes
  obtain rfl := hdescribes.determined _ _ _ _ hends₀ hends₁
  exact absurd (hnone₁.mp (hnone₀.mpr rfl)) (by simp)

/-! ## Exactly when -/

/-- **When the diagnostics describe the call just made.** For every header, and every history
that ends in a listing, a resolve or a restore with its replies: exactly when the call gets past
its argument checks, its request fits `req_buf` and no answer strays. -/
theorem describes_iff {replies : List Reply} {ret : Bool} {d : Diagnostics} (hdiag : c.Diagnosed)
    (hends : EndsIn h c replies ret d) : Describes h c replies ↔ Fresh c replies := by
  refine ⟨fun hdescribes => ?_, describes_of_fresh⟩
  have hfits : ¬ c.Overruns :=
    fun hover => not_describes_of_overruns hends hover hdescribes
  have hresets : c.Resets :=
    by_contra fun hnot => not_describes_of_not_resets hdiag hends hnot hfits hdescribes
  refine ⟨hresets, hfits, fun reply hreply hstrays => ?_⟩
  cases hdiag with
  | resolvePath a => exact not_describes_of_strays hends hresets hfits hreply hstrays hdescribes
  -- only a resolve has such answers
  | listDirectory _ _ => exact hstrays
  | restoreBoot _ => exact hstrays

/-- The equivalence for a listing that nobody answers. -/
theorem describes_deadDevice :
    Describes sampleHeader (.listDirectory (letters 1) true) [.failed 6] ↔
      Fresh (.listDirectory (letters 1) true) [.failed 6] := by
  obtain ⟨w, hw⟩ : ∃ w, w = World.loaded sampleHeader.diskErrNone fun _ => 0 := ⟨_, rfl⟩
  have hresp : deadDevice.respond (listStart w).world.past (listRequest (letters 1) 0) =
      .failed 6 := rfl
  have hstep := listStep_failed (s := listStart w) (show u16 (letters 1).len ≤ listUriMax by decide)
    hresp
  have hleft : fnsvcListDirectory deadDevice (letters 1) true 1 w = .inr _ :=
    Loop.after_succ_inr hstep 0
  have hends : EndsIn sampleHeader (.listDirectory (letters 1) true) [.failed 6] false
      ⟨.transport, 0, 0⟩ := by
    refine ⟨deadDevice, w, _, hw ▸ .loaded _, .kept (.listDirectory hleft), ?_, rfl⟩
    rw [hw]
    rfl
  exact describes_iff (.listDirectory _ _) hends

/-- A restore of slot 9 returns 0: as the first call it leaves NONE, and after a restore that was
refused with status 1 it leaves the error, the status and the length of that one. -/
theorem rejectedRestore_keeps_diagnostics :
    EndsIn sampleHeader (.disk (.restoreBoot 9)) [] false ⟨.none, 0, 0⟩ ∧
      EndsIn sampleHeader (.disk (.restoreBoot 9)) [] false ⟨.status, 1, 1⟩ ∧
      ¬ Describes sampleHeader (.disk (.restoreBoot 9)) [] := by
  have hends : ∀ dev w, Reached sampleHeader dev w →
      EndsIn sampleHeader (.disk (.restoreBoot 9)) [] false w.diagnostics := by
    intro dev w hreached
    have hmakes : Makes sampleHeader dev (.disk (.restoreBoot 9)) w false w := .disk
    refine ⟨dev, w, w, hreached, .kept hmakes, ?_, rfl⟩
    rw [sentSince_eq_nil rfl]
    rfl
  have hfirst : EndsIn sampleHeader (.disk (.restoreBoot 9)) [] false ⟨.none, 0, 0⟩ :=
    hends deadDevice _ (.loaded fun _ => 0)
  obtain ⟨w, hreached, hrefused⟩ := reached_refused (h := sampleHeader)
  refine ⟨hfirst, hrefused ▸ hends refusingDevice w hreached, fun hdescribes => ?_⟩
  exact absurd ((hdescribes.none_iff _ _ hfirst).mp rfl) (by simp)

end NioApps.Fnsvc
