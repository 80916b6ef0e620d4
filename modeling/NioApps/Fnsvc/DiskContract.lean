import NioApps.Fnsvc.Disk
import NioApps.Fnsvc.ListDirectory
import NioApps.Fnsvc.ResolvePath

/-!
# Fnsvc — the contract of `fnsvc_disk_last_error`

The header promises, for the most recent disk call: NONE after success, the reason after a
failure the device explained, UNREPORTED otherwise. `run_diskContract_iff` says which calls of a
run keep it: all but those that reject their arguments while an earlier reason is on display,
and restores whose OK answer has a body the function then rejects.

* `Makes`, `Run` — one call of the module, and runs of them in any order.
* `DiskContract` — the promise for one call of a run.
* `diskContract_iff` — one disk call keeps it exactly when it meets `ReasonKept`.
-/

namespace NioApps.Fnsvc

/-- The calls of the module with their arguments. `cb` says whether a listing has a callback; the
callback is one that calls no function of this module, so that only the listing itself writes the
statics while it runs. -/
inductive FnsvcCall where
  | listDirectory (uri : CStr) (cb : Bool)
  | resolvePath (a : ResolveArgs)
  | disk (c : DiskCall)

section

variable (h : FujinetNio) (dev : Device)

/-- A call made in the world `w` returns `ret` and leaves `w'`. A listing need not return. -/
inductive Makes : FnsvcCall → World → Bool → World → Prop where
  | listDirectory {uri : CStr} {cb : Bool} {w : World} {k : Nat} {r : ListResult}
      (hr : fnsvcListDirectory dev uri cb k w = .inr r) :
      Makes (.listDirectory uri cb) w r.ret r.world
  | resolvePath {a : ResolveArgs} {w : World} :
      Makes (.resolvePath a) w (fnsvcResolvePath dev a w).ret (fnsvcResolvePath dev a w).world
  | disk {c : DiskCall} {w : World} :
      Makes (.disk c) w (c.call h dev w).1 (c.call h dev w).2

structure CallStep where
  call : FnsvcCall
  before : World
  ret : Bool
  after : World

/-- A run of calls from the world `w`, each made in the world the one before left. -/
inductive Run : World → List CallStep → World → Prop where
  | nil (w : World) : Run w [] w
  | cons {call : FnsvcCall} {w w' w'' : World} {ret : Bool} {steps : List CallStep}
      (hmakes : Makes h dev call w ret w') (hrest : Run w' steps w'') :
      Run w (⟨call, w, ret, w'⟩ :: steps) w''

/-- The reply a disk call gets; none when it rejects its arguments. -/
def DiskCall.Gets (c : DiskCall) (w : World) (reply : Reply) : Prop :=
  ¬ c.Rejected ∧ dev.respond w.past c.request = reply

/-- **The contract** for a call of a run: after a disk call the recorded error is NONE if it
returned 1, the reason if the device explained the failure, and UNREPORTED in every other
case. -/
structure DiskContract (s : CallStep) : Prop where
  success : ∀ c, s.call = .disk c → s.ret = true → s.after.diskLastError = h.diskErrNone
  explained : ∀ c reply e, s.call = .disk c → s.ret = false → c.Gets dev s.before reply →
    reply.explains = some e → s.after.diskLastError = e
  unexplained : ∀ c, s.call = .disk c → s.ret = false →
    (∀ reply, c.Gets dev s.before reply → reply.explains = none) →
    s.after.diskLastError = h.diskErrUnreported

/-- The calls that keep the contract: a rejected call is made while UNREPORTED stands, and an OK
answer to a restore has the body asked for. -/
def ReasonKept : FnsvcCall → World → Prop
  | .disk c, w =>
    (c.Rejected → w.diskLastError = h.diskErrUnreported) ∧
    ∀ slot, c = .restoreBoot slot → ∀ reply, c.Gets dev w reply →
      reply.isOk = true → reply.bootBody = true
  | _, _ => True

end

/-! ## One call -/

/-- A reply that gives a reason is not OK. -/
theorem isOk_of_explains {reply : Reply} {e : UInt8} (h : reply.explains = some e) :
    reply.isOk = false := by
  unfold Reply.explains at h
  split at h
  · cases h
  · split at h
    next hbody =>
      split at h
      next hcond => simp [Reply.isOk, hcond.1]
      · cases h
    · cases h

/-- A call returns 1 exactly on an OK whose body, for a restore, is the one asked for. -/
theorem accepts_iff (c : DiskCall) (reply : Reply) :
    c.accepts reply = true ↔
      reply.isOk = true ∧ ∀ slot, c = .restoreBoot slot → reply.bootBody = true := by
  cases c <;> simp [DiskCall.accepts]

/-- A call that rejects its arguments leaves what stood. -/
theorem diskContract_iff_of_rejected {h : FujinetNio} {dev : Device} {c : DiskCall} (w : World)
    (hrejected : c.Rejected) :
    DiskContract h dev ⟨.disk c, w, (c.call h dev w).1, (c.call h dev w).2⟩ ↔
      ReasonKept h dev (.disk c) w := by
  have hrun : DiskRun h dev c w (c.call h dev w) := diskCall_run c w
  rw [hrun.rejected hrejected]
  have hgets : ∀ reply, ¬ c.Gets dev w reply := fun reply hg => hg.1 hrejected
  constructor
  · intro hc
    refine ⟨fun _ => ?_, fun _ _ reply hg => absurd hg (hgets reply)⟩
    exact hc.unexplained c rfl rfl fun reply hg => absurd hg (hgets reply)
  · intro hk
    refine ⟨fun _ _ hret => by simp at hret, fun c' reply e hc' _ hg => ?_, fun _ _ _ _ => ?_⟩
    · obtain rfl := FnsvcCall.disk.inj hc'
      exact absurd hg (hgets reply)
    · exact hk.1 hrejected

/-- A call that sends its request leaves what the reply says. -/
theorem diskContract_iff_of_sent {h : FujinetNio} {dev : Device} {c : DiskCall} (w : World)
    (hsent : ¬ c.Rejected) :
    DiskContract h dev ⟨.disk c, w, (c.call h dev w).1, (c.call h dev w).2⟩ ↔
      ReasonKept h dev (.disk c) w := by
  have hrun : DiskRun h dev c w (c.call h dev w) := diskCall_run c w
  have hret := hrun.ret hsent
  have hrecorded := hrun.recorded hsent
  generalize c.call h dev w = out at hret hrecorded
  generalize hreply : dev.respond w.past c.request = reply at hret hrecorded
  have hgets : c.Gets dev w reply := ⟨hsent, hreply⟩
  have honly : ∀ reply', c.Gets dev w reply' → reply' = reply :=
    fun reply' hg => hg.2.symm.trans hreply
  constructor
  · intro hc
    refine ⟨fun hr => absurd hr hsent, fun slot hslot reply' hg hok => ?_⟩
    obtain rfl := honly reply' hg
    by_contra hbody
    -- the body is rejected after NONE was recorded
    have hbody' : reply'.bootBody = false := by simpa using hbody
    have hfalse : out.1 = false := by simp [hret, hslot, DiskCall.accepts, hbody']
    have hunexplained : reply'.explains = none := by
      cases hexp : reply'.explains with
      | none => rfl
      | some e => rw [isOk_of_explains hexp] at hok; cases hok
    have hleft := hc.unexplained c rfl hfalse fun reply hg' => by
      rw [honly reply hg', hunexplained]
    rw [show out.2.diskLastError = h.diskErrUnreported from hleft, recordedError,
      if_pos hok] at hrecorded
    exact h.diskErr_ne hrecorded.symm
  · rintro ⟨-, hbody⟩
    have hok : reply.isOk = true → out.1 = true := by
      intro hok
      rw [hret, accepts_iff]
      exact ⟨hok, fun slot hslot => hbody slot hslot reply hgets hok⟩
    refine ⟨fun c' hc' htrue => ?_, fun c' reply' e hc' hfalse hg hexp => ?_,
      fun c' hc' hfalse hnone => ?_⟩
    -- accepted; failed with a reason; failed without one
    · have haccepted := (accepts_iff c reply).mp (hret.symm.trans htrue)
      rw [hrecorded, recordedError, if_pos haccepted.1]
    · obtain rfl := FnsvcCall.disk.inj hc'
      obtain rfl := honly reply' hg
      rw [hrecorded, recordedError, isOk_of_explains hexp, hexp]
      rfl
    · obtain rfl := FnsvcCall.disk.inj hc'
      have hnot : ¬ reply.isOk = true := fun h => by
        have htrue := hok h
        rw [show out.1 = false from hfalse] at htrue
        cases htrue
      rw [hrecorded, recordedError, if_neg hnot, hnone reply hgets]
      rfl

/-- **One disk call.** It keeps the contract exactly when it meets the condition. -/
theorem diskContract_iff {h : FujinetNio} {dev : Device} (c : DiskCall) (w : World) :
    DiskContract h dev ⟨.disk c, w, (c.call h dev w).1, (c.call h dev w).2⟩ ↔
      ReasonKept h dev (.disk c) w := by
  by_cases hrejected : c.Rejected
  · exact diskContract_iff_of_rejected w hrejected
  · exact diskContract_iff_of_sent w hrejected

/-- A call that is no disk call is not under the contract. -/
theorem diskContract_other {h : FujinetNio} {dev : Device} {s : CallStep}
    (hs : ∀ c, s.call ≠ .disk c) : DiskContract h dev s where
  success c hc := absurd hc (hs c)
  explained c _ _ hc := absurd hc (hs c)
  unexplained c hc := absurd hc (hs c)

/-! ## Runs -/

/-- One call of a run, whatever it is. -/
theorem makes_diskContract_iff {h : FujinetNio} {dev : Device} {call : FnsvcCall} {w w' : World}
    {ret : Bool} (hmakes : Makes h dev call w ret w') :
    DiskContract h dev ⟨call, w, ret, w'⟩ ↔ ReasonKept h dev call w := by
  cases hmakes with
  | listDirectory _ => exact ⟨fun _ => trivial, fun _ => diskContract_other fun c hc => by cases hc⟩
  | resolvePath => exact ⟨fun _ => trivial, fun _ => diskContract_other fun c hc => by cases hc⟩
  | disk => exact diskContract_iff _ _

/-- **When `fnsvc_disk_last_error` keeps its contract over a run.** For every header, every
device and every run of calls, in any order and from any statics: exactly when every call of the
run meets the condition. -/
theorem run_diskContract_iff {h : FujinetNio} {dev : Device} {w w' : World}
    {steps : List CallStep} (hrun : Run h dev w steps w') :
    (∀ s ∈ steps, DiskContract h dev s) ↔ ∀ s ∈ steps, ReasonKept h dev s.call s.before := by
  induction hrun with
  | nil => simp
  | cons hmakes _ ih => rw [List.forall_mem_cons, List.forall_mem_cons,
      makes_diskContract_iff hmakes, ih]

/-- The run of some disk calls from `w`, one after another. -/
def diskSteps (dev : Device) : List DiskCall → World → List CallStep
  | [], _ => []
  | c :: cs, w =>
    ⟨.disk c, w, (c.call sampleHeader dev w).1, (c.call sampleHeader dev w).2⟩ ::
      diskSteps dev cs (c.call sampleHeader dev w).2

def afterDisk (dev : Device) (cs : List DiskCall) (w : World) : World :=
  cs.foldl (fun w c => (c.call sampleHeader dev w).2) w

theorem run_diskSteps (dev : Device) (cs : List DiskCall) (w : World) :
    Run sampleHeader dev w (diskSteps dev cs w) (afterDisk dev cs w) := by
  induction cs generalizing w with
  | nil => exact .nil w
  | cons c cs ih => exact .cons .disk (ih _)

/-- An unmount that nobody answers, one of a slot that is not there while UNREPORTED stands, and
a mount that nobody answers. -/
def keptCalls : List DiskCall := [.unmount 0, .unmount 9, .mount 1 (letters 3) 0 0]

/-- The second of the three calls is rejected with UNREPORTED on display, and all three keep the
contract. -/
theorem run_diskContract_deadDevice :
    (afterDisk deadDevice [.unmount 0, .unmount 9] (World.initial 0)).diskLastError =
        sampleHeader.diskErrUnreported ∧
      ∀ s ∈ diskSteps deadDevice keptCalls (World.initial 0),
        DiskContract sampleHeader deadDevice s := by
  refine ⟨by decide,
    (run_diskContract_iff (run_diskSteps deadDevice keptCalls (World.initial 0))).mpr ?_⟩
  intro s hs
  simp only [diskSteps, keptCalls, List.mem_cons, List.not_mem_nil, or_false] at hs
  rcases hs with rfl | rfl | rfl
  · exact ⟨fun hrejected => absurd hrejected (by decide : ¬ 0 ≥ 8), fun _ hslot => by cases hslot⟩
  · exact ⟨fun _ => by decide, fun _ hslot => by cases hslot⟩
  · exact ⟨fun _ => by decide, fun _ hslot => by cases hslot⟩

/-- An unmount of slot 9 as the first call: it returns 0 and leaves NONE on display. -/
theorem unmount_nine_breaks_contract :
    Run sampleHeader deadDevice (World.initial 0)
        (diskSteps deadDevice [.unmount 9] (World.initial 0)) (World.initial 0) ∧
      ¬ ∀ s ∈ diskSteps deadDevice [.unmount 9] (World.initial 0),
        DiskContract sampleHeader deadDevice s := by
  refine ⟨run_diskSteps deadDevice [.unmount 9] (World.initial 0), fun hall => ?_⟩
  have hcontract := hall _ (List.mem_singleton.mpr rfl)
  have hleft := hcontract.unexplained (.unmount 9) rfl rfl
    fun reply hg => absurd hg.1 (not_not.mpr (by decide : 9 ≥ 8))
  exact absurd hleft (by decide)

end NioApps.Fnsvc
