import NioApps.AmigaDos.Inhibit

/-!
# AmigaDOS — the program `diskinspect.c`

The program asks `fujinet-disk.device` about a slot of the catalog and classifies the medium in it.

* `diskinspect` — the program; the two classifications are the support library's.
* `diskinspect_outcome` — when it exits with 0, and what it still holds when it ends: the port, and
  the request where there is one, if the device could not be opened.
-/

namespace NioApps.Diskinspect

open Custody
open Inhibit (Resource)

/-- What the device tells about a slot. -/
structure Inspection where
  sectorSize : UInt16
  sectorCount : UInt32
  boot : List UInt8
  deriving DecidableEq

inductive Call where
  | createPort (found : Bool)
  | createExtIo (found : Bool)
  | openDevice (unit : UInt32) (error : Int)
  | inspectCatalog (slot : UInt8) (result : Int)
  | closeDevice
  | deleteExtIo
  | deletePort
  deriving DecidableEq

inductive Line where
  | failed (result : Int)
  | inspected (size : UInt16) (count : UInt32) (profile : Nat) (dosType : UInt32)
  deriving DecidableEq

/-- The answers of the system, of `atoi` and of the support library. -/
structure Answers where
  port : Bool
  request : Bool
  openError : Int
  result : Int
  inspection : Inspection
  atoi : String → Int
  classifyMediaProfile : Inspection → Option Nat
  classifyFilesystem : List UInt8 → Option UInt32

structure Outcome where
  exitCode : Nat
  calls : List Call
  lines : List Line

/-- What comes after the device has been closed. -/
def classify (a : Answers) : Nat × List Line :=
  if a.result ≠ 0 then (10, [.failed a.result])
  else
    match a.classifyMediaProfile a.inspection, a.classifyFilesystem a.inspection.boot with
    | some profile, some dosType =>
      (0, [.inspected a.inspection.sectorSize a.inspection.sectorCount profile dosType])
    | _, _ => (11, [])

/-- `argv` is without the name of the program. -/
def diskinspect (a : Answers) (argv : List String) : Outcome :=
  match argv with
  | [unit, slot] =>
    let unit := UInt32.ofInt (a.atoi unit)
    if a.port then
      if a.request then
        if a.openError = 0 then
          ⟨(classify a).1, [.createPort true, .createExtIo true, .openDevice unit 0,
            .inspectCatalog (UInt8.ofInt (a.atoi slot)) a.result, .closeDevice, .deleteExtIo,
            .deletePort], (classify a).2⟩
        else ⟨20, [.createPort true, .createExtIo true, .openDevice unit a.openError], []⟩
      else ⟨20, [.createPort true, .createExtIo false], []⟩
    else ⟨20, [.createPort false], []⟩
  | _ => ⟨10, [], []⟩

def Call.act : Call → Option (Act Resource)
  | .createPort found => if found then some (.take .port) else none
  | .createExtIo found => if found then some (.take .request) else none
  | .openDevice _ error => if error = 0 then some (.take .device) else none
  | .inspectCatalog _ _ => some (.use .device)
  | .closeDevice => some (.give .device)
  | .deleteExtIo => some (.give .request)
  | .deletePort => some (.give .port)

/-- What is left over where the device could not be opened. -/
def leftOver (a : Answers) : List Resource :=
  if a.port then
    if a.request then if a.openError = 0 then [] else [.request, .port]
    else [.port]
  else []

/-- The classification goes well exactly where the disk was inspected and both classifiers of the
support library give an answer. -/
theorem classify_eq_zero_iff (a : Answers) :
    (classify a).1 = 0 ↔ a.result = 0 ∧ (a.classifyMediaProfile a.inspection).isSome ∧
      (a.classifyFilesystem a.inspection.boot).isSome := by
  unfold classify
  split
  next hresult => exact iff_of_false (Nat.succ_ne_zero 9) fun h => hresult h.1
  next hresult =>
    have hzero : a.result = 0 := not_not.mp hresult
    cases hprofile : a.classifyMediaProfile a.inspection with
    | none => simp
    | some profile =>
      cases htype : a.classifyFilesystem a.inspection.boot with
      | none => simp
      | some dosType => simp [hzero]

/-- **What `diskinspect` does.** It exits with 0 where the slot could be inspected and both the
medium and its file system are known. Its calls are in order, and it still holds the port and the
request where the device could not be opened. -/
theorem diskinspect_outcome (a : Answers) (unit slot : String) :
    ((diskinspect a [unit, slot]).exitCode = 0 ↔
      (a.port = true ∧ a.request = true ∧ a.openError = 0) ∧ a.result = 0 ∧
        (a.classifyMediaProfile a.inspection).isSome ∧
        (a.classifyFilesystem a.inspection.boot).isSome) ∧
    InOrder Resource.needs [] ((diskinspect a [unit, slot]).calls.filterMap Call.act)
      (leftOver a) := by
  unfold diskinspect leftOver
  dsimp only
  split
  next hport =>
    split
    next hrequest =>
      split
      next hopen =>
        -- the device is open: only here is the disk inspected at all
        rw [classify_eq_zero_iff]
        exact ⟨(and_iff_right ⟨hport, hrequest, hopen⟩).symm, rfl⟩
      next hopen =>
        -- a device that does not open is never held
        have hact : ∀ unit, Call.act (.openDevice unit a.openError) = none := fun _ => if_neg hopen
        refine ⟨iff_of_false (Nat.succ_ne_zero 19) fun h => hopen h.1.2.2, ?_⟩
        simp only [List.filterMap_cons, List.filterMap_nil, hact]
        rfl
    next hrequest => exact ⟨iff_of_false (Nat.succ_ne_zero 19) fun h => hrequest h.1.2.1, rfl⟩
  next hport => exact ⟨iff_of_false (Nat.succ_ne_zero 19) fun h => hport h.1.1, rfl⟩

end NioApps.Diskinspect
