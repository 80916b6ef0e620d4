import NioApps.Fnctl.AppStore
import NioApps.Lib.Scan
import NioApps.Nio.DiskInfo
import NioApps.Nio.Nioread

/-!
# Nio — the program `nioprobe.c`

`main` asks for the record of a slot and prints its fields. The flags are printed as a number and
once more by name.

* `nioprobe` — the program, over any command line, device and result of `fn_init`.
* `AsksSlot` — which command lines ask for a record, and of which slot.
* `readReport` — a reader of what it prints.
* `nioprobe_exact` — the program shows a record exactly when the device sends one, and the reader
  gets this record back.
-/

namespace NioApps.Nio

open Fnctl (ascii)
open Fnsvc
open Format (Piece render)
open Scan (Conv Readable NoDigit conv scan)

/-! ## The code -/

def crlf : List UInt8 := [0x0D, 0x0A]

def nioDiskInfoInserted : UInt8 := 0x01
def nioDiskInfoReadonly : UInt8 := 0x02
def nioDiskInfoDirty : UInt8 := 0x04
def nioDiskInfoChanged : UInt8 := 0x08
def nioDiskInfoHasGeometry : UInt8 := 0x10
def nioDiskInfoHasLastError : UInt8 := 0x20

/-- The flags, and what is printed for each. -/
def flagNames : List (UInt8 × List UInt8) :=
  [(nioDiskInfoInserted, ascii " inserted"), (nioDiskInfoReadonly, ascii " readonly"),
    (nioDiskInfoDirty, ascii " dirty"), (nioDiskInfoChanged, ascii " changed"),
    (nioDiskInfoHasGeometry, ascii " geometry"),
    (nioDiskInfoHasLastError, ascii " last-error")]

/-- The names of the flags that are set. -/
def namesOf (flags : UInt8) : List (List UInt8) :=
  (flagNames.filter fun flag => flags &&& flag.1 != 0).map Prod.snd

def flagsHead (flags : UInt8) : List Piece := [.text (ascii "flags: 0x"), .hex 2 flags.toNat]

def printFlags (flags : UInt8) : List Piece :=
  flagsHead flags ++ (namesOf flags).map .text ++ [.text [0x0A]]

def probeUsage : List Piece :=
  [.text (ascii "Usage: NIOPROBE [slot]"), .text [0x0A], .text (ascii "  slot defaults to 1"),
    .text [0x0A]]

def probeBanner (slot : UInt8) : List Piece :=
  [.text (ascii "NIOPROBE slot "), .unsigned 0 slot.toNat, .text crlf]

def initFailed (result : UInt8) : List Piece :=
  [.text (ascii "NIO init failed: "), .unsigned 0 result.toNat, .text crlf]

/-- `Disk info failed`, with the status where the transport gave one. -/
def infoFailed (status : UInt8) : List Piece :=
  [.text (ascii "Disk info failed")] ++
    (match failureReason status with
    | some (status, name) => [.text (ascii ": status "), .unsigned 0 status.toNat,
        .text (ascii " ("), .text (ascii name), .text (ascii ")")]
    | none => []) ++ [.text [0x0A]]

/-- The report up to the flags. -/
def reportHead (response : NioResponse) : List Piece :=
  [.text (ascii "status: "), .unsigned 0 response.status.toNat, .text (ascii " ("),
    .text (ascii (nioStatusName response.status)), .text (ascii ")"), .text crlf,
    .text (ascii "reply bytes: "), .unsigned 0 response.payloadLength, .text crlf]

/-- The report after the flags. -/
def reportTail (info : DiskInfo) : List Piece :=
  [.text (ascii "reported slot: "), .unsigned 0 info.slot.toNat, .text crlf,
    .text (ascii "image type: "), .unsigned 0 info.imageType.toNat, .text crlf,
    .text (ascii "sector size: "), .unsigned 0 info.sectorSize.toNat, .text crlf,
    .text (ascii "sector count: "), .unsigned 0 info.sectorCount.toNat, .text crlf,
    .text (ascii "last error: "), .unsigned 0 info.lastError.toNat, .text crlf]

/-- The arguments after the program's name; `none` where the usage is printed. -/
def probeSlot (lib : CLib) (args : List CStr) : Option UInt8 :=
  if args.length > 1 ∨ args.head?.any asksUsage then none
  else some ((args[0]?.map fun arg => (lib.atoi arg).toUInt8).getD 1)

/-- The exit code, what was printed, and the reads of the reply array. -/
structure NioprobeRun where
  exit : Nat
  printed : List Piece
  reads : List Nat

section

variable (fnInit : UInt8) (dev : Device) (past : List Request) (stack : Nat → UInt8)

/-- `main` from the banner on; `info` is what stands in the record before the call. -/
def probe (info : DiskInfo) (slot : UInt8) : NioprobeRun :=
  if fnInit ≠ 0 then ⟨2, probeBanner slot ++ initFailed fnInit, []⟩
  else
    let call := nioDiskInfo dev past slot stack
    if call.ret = false then
      ⟨2, probeBanner slot ++ infoFailed call.response.status, call.reads⟩
    else
      let info := call.info info
      ⟨0, probeBanner slot ++ reportHead call.response ++ printFlags info.flags ++
        reportTail info, call.reads⟩

def nioprobe (lib : CLib) (info : DiskInfo) (args : List CStr) : NioprobeRun :=
  match probeSlot lib args with
  | none => ⟨1, probeUsage, []⟩
  | some slot => probe fnInit dev past stack info slot

end

/-! ## A reader -/

/-- What the report says. -/
structure ProbeReport where
  slot : UInt8
  replyBytes : Nat
  info : DiskInfo
  deriving DecidableEq

/-- The conversions of a report whose status is OK. -/
def reportConvs : List Conv :=
  (probeBanner 0 ++ reportHead ⟨nioStatusOk, 0⟩ ++ flagsHead 0).map conv ++
    .line :: (.text [0x0A] :: reportTail ⟨0, 0, 0, 0, 0, 0⟩).map conv

/-- The report in what was printed; none where it is not one. -/
def readReport (printed : List UInt8) : Option ProbeReport :=
  match scan reportConvs printed with
  | some [slot, 0, replyBytes, flags, reported, imageType, sectorSize, sectorCount, lastError] =>
    some ⟨UInt8.ofNat slot, replyBytes, ⟨UInt8.ofNat flags, UInt8.ofNat reported,
      UInt8.ofNat imageType, UInt16.ofNat sectorSize, UInt32.ofNat sectorCount,
      UInt8.ofNat lastError⟩⟩
  | _ => none

/-- There is no line feed among the names of the flags. -/
theorem newline_notMem_names (flags : UInt8) :
    0x0A ∉ render ((namesOf flags).map .text) := by
  have hplain : ∀ flag ∈ flagNames, 0x0A ∉ flag.2 := by decide
  intro hmem
  obtain ⟨piece, hpiece, hmem⟩ := List.mem_flatMap.mp hmem
  obtain ⟨name, hname, rfl⟩ := List.mem_map.mp hpiece
  obtain ⟨flag, hflag, rfl⟩ := List.mem_map.mp hname
  exact hplain flag (List.mem_of_mem_filter hflag) hmem

theorem noDigit_cons {c : UInt8} (hc : Scan.isDigit c = false) (rest : List UInt8) :
    NoDigit (c :: rest) := by
  intro c' hc'
  obtain rfl := Option.some.inj hc'
  exact hc

theorem readable_banner (slot : UInt8) (rest : List UInt8) : Readable (probeBanner slot) rest :=
  ⟨rfl, noDigit_cons rfl _, trivial⟩

/-- The first half of the report is read back, up to the names of the flags. -/
theorem readable_head (response : NioResponse) (flags : UInt8) (rest : List UInt8) :
    Readable (reportHead response ++ flagsHead flags) rest :=
  ⟨rfl, noDigit_cons rfl _, rfl, noDigit_cons rfl _, flags.toNat_lt, trivial⟩

/-- The second half is read back, from the line after the flags on. -/
theorem readable_tail (info : DiskInfo) (rest : List UInt8) :
    Readable (.text [0x0A] :: reportTail info) rest :=
  ⟨rfl, noDigit_cons rfl _, rfl, noDigit_cons rfl _, rfl, noDigit_cons rfl _, rfl,
    noDigit_cons rfl _, rfl, noDigit_cons rfl _, trivial⟩

/-- What goes on after the banner with other text than a report is read as none. -/
theorem readReport_banner {slot : UInt8} {rest : List Piece}
    (hrest : ∀ convs, scan (.text (ascii "status: ") :: convs) (render rest) = none) :
    readReport (render (probeBanner slot ++ rest)) = none := by
  have hscan : scan reportConvs (render (probeBanner slot ++ rest)) = none := by
    rw [render, List.flatMap_append, ← render, ← render]
    show scan ((probeBanner slot).map conv ++ .text (ascii "status: ") :: _) _ = none
    rw [Scan.scan_pieces (readable_banner slot _), hrest]
    rfl
  rw [readReport, hscan]

/-- **Round trip.** The report on a record is read back as this record. -/
theorem readReport_report (slot : UInt8) (payloadLength : Nat) (info : DiskInfo) :
    readReport (render (probeBanner slot ++ reportHead ⟨nioStatusOk, payloadLength⟩ ++
      printFlags info.flags ++ reportTail info)) = some ⟨slot, payloadLength, info⟩ := by
  have htext : render (probeBanner slot ++ reportHead ⟨nioStatusOk, payloadLength⟩ ++
      printFlags info.flags ++ reportTail info) =
      render (probeBanner slot ++ (reportHead ⟨nioStatusOk, payloadLength⟩ ++
        flagsHead info.flags)) ++ (render ((namesOf info.flags).map .text) ++
        0x0A :: (render (reportTail info) ++ [])) := by
    simp [render, printFlags, Piece.render]
  have hreadable : ∀ rest, Readable (probeBanner slot ++
      (reportHead ⟨nioStatusOk, payloadLength⟩ ++ flagsHead info.flags)) rest := fun rest =>
    ⟨rfl, noDigit_cons rfl _, readable_head _ info.flags rest⟩
  have hscan : scan reportConvs (render (probeBanner slot ++
      reportHead ⟨nioStatusOk, payloadLength⟩ ++ printFlags info.flags ++ reportTail info)) =
      some [slot.toNat, 0, payloadLength, info.flags.toNat, info.slot.toNat, info.imageType.toNat,
        info.sectorSize.toNat, info.sectorCount.toNat, info.lastError.toNat] := by
    rw [htext]
    show scan ((probeBanner slot ++ (reportHead ⟨nioStatusOk, payloadLength⟩ ++
      flagsHead info.flags)).map conv ++ .line ::
        ((.text [0x0A] :: reportTail info).map conv ++ [])) _ = _
    rw [Scan.scan_pieces (hreadable _), Scan.scan_line (newline_notMem_names info.flags)]
    show Option.map _ (scan ((.text [0x0A] :: reportTail info).map conv ++ [])
      (render (.text [0x0A] :: reportTail info) ++ [])) = _
    rw [Scan.scan_pieces (readable_tail info [])]
    rfl
  rw [readReport, hscan]
  simp only [UInt8.ofNat_toNat, UInt16.ofNat_toNat, UInt32.ofNat_toNat]

/-! ## The command line -/

/-- The command lines that ask for a slot: none given is slot 1; of the number given, in an argument
that does not begin with `?`, the low byte counts. -/
inductive AsksSlot (lib : CLib) : List CStr → UInt8 → Prop where
  | nothing : AsksSlot lib [] 1
  | slot {slot : CStr} (plain : Plain slot) : AsksSlot lib [slot] (lib.atoi slot).toUInt8

/-- **The command line.** The program goes on with a slot exactly where it is asked for. -/
theorem probeSlot_iff {lib : CLib} {args : List CStr} {slot : UInt8} :
    probeSlot lib args = some slot ↔ AsksSlot lib args slot := by
  constructor
  · intro h
    unfold probeSlot at h
    split at h
    next => cases h
    next hplain =>
      obtain ⟨hlen, hplain⟩ := not_or.mp hplain
      obtain rfl := Option.some.inj h
      match args with
      | [] => exact .nothing
      | [arg] => exact .slot (asksUsage_eq_false_iff.mp (Bool.eq_false_iff.mpr hplain))
      | _ :: _ :: rest => exact absurd hlen (by simp)
  · intro h
    unfold probeSlot
    cases h with
    | nothing => rfl
    | slot plain => simp [asksUsage_eq_false_iff.mpr plain]

/-! ## The program -/

/-- What a run with a slot does. -/
structure ProbesExactly (fnInit : UInt8) (dev : Device) (past : List Request) (slot : UInt8)
    (r : NioprobeRun) : Prop where
  notReady : fnInit ≠ 0 → r.exit = 2 ∧ r.printed = probeBanner slot ++ initFailed fnInit ∧
    readReport (render r.printed) = none
  refused : fnInit = 0 → (¬ ∃ p : InfoReply, dev.respond past (diskInfoRequest slot) =
    .answered nioStatusOk p.encode) → r.exit = 2 ∧ r.printed = probeBanner slot ++
      infoFailed (reportedStatus (dev.respond past (diskInfoRequest slot))) ∧
    readReport (render r.printed) = none
  shown : ∀ p : InfoReply, fnInit = 0 →
    dev.respond past (diskInfoRequest slot) = .answered nioStatusOk p.encode →
    r.exit = 0 ∧ readReport (render r.printed) = some ⟨slot, p.encode.length, p.info⟩
  reads_from : ∀ i ∈ r.reads, ∃ payload,
    dev.respond past (diskInfoRequest slot) = .answered nioStatusOk payload ∧ i < payload.length

section Program

variable {fnInit : UInt8} {dev : Device} {past : List Request} {stack : Nat → UInt8} {slot : UInt8}

/-- The status that the report shows is that of the reply. -/
theorem diskInfo_status :
    (nioDiskInfo dev past slot stack).response.status =
      reportedStatus (dev.respond past (diskInfoRequest slot)) := by
  unfold nioDiskInfo nioCall
  cases dev.respond past (diskInfoRequest slot) with
  | failed code => rfl
  | answered status payload =>
    dsimp only
    split
    next => rfl
    next => rfl

/-- Every byte of the reply array that is read came with the answer. -/
theorem diskInfo_reads {i : Nat} (hi : i ∈ (nioDiskInfo dev past slot stack).reads) :
    ∃ payload, dev.respond past (diskInfoRequest slot) = .answered nioStatusOk payload ∧
      i < payload.length := by
  by_cases hnone : ∃ payload, dev.respond past (diskInfoRequest slot) =
      .answered nioStatusOk payload
  · obtain ⟨payload, hresp⟩ := hnone
    refine ⟨payload, hresp, ?_⟩
    by_cases haccepted : ∃ p : InfoReply, dev.respond past (diskInfoRequest slot) =
        .answered nioStatusOk p.encode
    · obtain ⟨p, hp⟩ := haccepted
      obtain ⟨-, rfl⟩ := Reply.answered.inj (hresp.symm.trans hp)
      have hlen : 12 ≤ p.encode.length := by
        rw [length_encode]
        omega
      rw [nioDiskInfo_encode stack hp] at hi
      simp only [List.mem_append, List.mem_range'_1] at hi
      rcases hi with (hi | hi) | hi
      · omega
      · omega
      · split at hi
        next hlong =>
          rw [List.mem_singleton.mp hi]
          exact hlong
        next => cases hi
    · have hlt := (nioDiskInfo_refused stack haccepted).2.2 i hi
      rw [nioDiskInfo_answered stack hresp] at hlt
      exact hlt
  · rw [(nioDiskInfo_unanswered stack (not_exists.mp hnone)).2.2] at hi
    cases hi

/-- What the program does with the slot that it was asked for. -/
theorem probesExactly (info : DiskInfo) :
    ProbesExactly fnInit dev past slot (probe fnInit dev past stack info slot) := by
  unfold probe
  split
  next hinit =>
    refine ⟨fun _ => ⟨rfl, rfl, readReport_banner fun _ => rfl⟩, fun hzero => absurd hzero hinit,
      fun _ hzero => absurd hzero hinit, nofun⟩
  next hinit =>
    have hreads : ∀ i ∈ (nioDiskInfo dev past slot stack).reads, _ := fun i => diskInfo_reads
    by_cases haccepted : ∃ p : InfoReply, dev.respond past (diskInfoRequest slot) =
        .answered nioStatusOk p.encode
    · obtain ⟨p, hp⟩ := haccepted
      have hcall := nioDiskInfo_encode stack hp
      dsimp only
      rw [hcall] at hreads ⊢
      rw [if_neg Bool.noConfusion]
      refine ⟨fun hne => absurd hne hinit, fun _ hnone => absurd ⟨p, hp⟩ hnone,
        fun q _ hq => ⟨rfl, ?_⟩, hreads⟩
      obtain ⟨-, hencode⟩ := Reply.answered.inj (hp.symm.trans hq)
      have hinfo : q.info = p.info := by
        rw [← (infoAt_encode q).2, ← (infoAt_encode p).2, hencode]
      rw [← hencode, hinfo]
      exact readReport_report slot p.encode.length p.info
    · obtain ⟨hret, -, -⟩ := nioDiskInfo_refused stack haccepted
      dsimp only
      rw [if_pos hret]
      refine ⟨fun hne => absurd hne hinit, fun _ _ => ⟨rfl, by rw [diskInfo_status], ?_⟩,
        fun q _ hq => absurd ⟨q, hq⟩ haccepted, hreads⟩
      exact readReport_banner fun _ => rfl

end Program

/-- **What `NIOPROBE` does.** For every command line, device, stack and result of `fn_init`: with a
command line that asks for no slot it only prints its usage and exits with 1. Otherwise it exits
with 0 exactly when the library is ready and the answer is the encoding of a reply, and then what it
prints is read back as the slot that was asked for, the length of the reply and its record; in all
other cases it exits with 2, and what it prints is read as no report. Only bytes the device sent are
read. -/
theorem nioprobe_exact (lib : CLib) (fnInit : UInt8) (dev : Device) (past : List Request)
    (stack : Nat → UInt8) (info : DiskInfo) (args : List CStr) :
    ((∀ slot, ¬ AsksSlot lib args slot) → nioprobe fnInit dev past stack lib info args =
      ⟨1, probeUsage, []⟩) ∧
    ∀ slot, AsksSlot lib args slot →
      ProbesExactly fnInit dev past slot (nioprobe fnInit dev past stack lib info args) := by
  unfold nioprobe
  cases hargs : probeSlot lib args with
  | none =>
    refine ⟨fun _ => rfl, fun slot hasks => ?_⟩
    rw [probeSlot_iff.mpr hasks] at hargs
    cases hargs
  | some slot =>
    refine ⟨fun hnone => absurd (probeSlot_iff.mp hargs) (hnone slot), fun slot' hasks => ?_⟩
    obtain rfl := Option.some.inj (hargs.symm.trans (probeSlot_iff.mpr hasks))
    exact probesExactly info

/-- A reply for slot 3: inserted and read-only, 720 sectors of 512 bytes. -/
def sampleReply : InfoReply where
  info := ⟨3, 3, 1, 512, 720, 0⟩
  reserved₂ := 0
  reserved₃ := 0
  rest := []
  lastError_eq := rfl

/-- `NIOPROBE 3` on a device that gives this reply. -/
theorem nioprobe_exact_sampleReply :
    let r := nioprobe 0 (Device.script fun _ => .answered 0 sampleReply.encode) [] (fun _ => 0xFF)
      decimalLib ⟨0, 0, 0, 0, 0, 0⟩ [⟨[0x33], by decide⟩]
    r.exit = 0 ∧ readReport (render r.printed) = some ⟨3, 12, sampleReply.info⟩ := by
  have hasks : AsksSlot decimalLib [⟨[0x33], by decide⟩] 3 := .slot (by decide)
  exact ((nioprobe_exact decimalLib 0 _ [] _ _ _).2 3 hasks).shown sampleReply rfl rfl

end NioApps.Nio
