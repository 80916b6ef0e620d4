import NioApps.Nio.Hexdump
import NioApps.Nio.ReadSector

/-!
# Nio — the program `nioread.c`

`main` takes a slot, a sector and a number of bytes from its command line, reads the sector into an
array of 1024 bytes and dumps it. The length of a read is at most that of the array, which keeps the
sum in `nio_disk_read_sector` from wrapping.

* `parseArgs`, `nioread` — the command line, and the program.
* `AsksFor` — which command lines ask for a read, and for which one.
* `nioDiskReadSector_ret_iff` — which answers a read of at most 1024 bytes accepts.
* `nioread_exact` — what the program does, for every command line and every device.
-/

namespace NioApps.Nio

open Fnsvc

/-! ## The code -/

/-- The library functions that read the command line; an `int` has sixteen bits. -/
structure CLib where
  atoi : CStr → UInt16
  strtoul : CStr → UInt32

/-- `sizeof(sector)`. -/
def sectorMax : Nat := 1024

structure ReadCommand where
  slot : UInt8
  lba : UInt32
  bytes : UInt16
  deriving DecidableEq

/-- `argv[1][0] == '?'` -/
def asksUsage (arg : CStr) : Bool := arg.bytes.head? == some 0x3F

/-- The arguments after the program's name; `none` where the usage is printed. -/
def parseArgs (lib : CLib) (args : List CStr) : Option ReadCommand :=
  if args.length > 3 ∨ args.head?.any asksUsage then none
  else
    let slot := (args[0]?.map fun arg => (lib.atoi arg).toUInt8).getD 1
    let lba := (args[1]?.map lib.strtoul).getD 0
    let bytes := (args[2]?.map lib.atoi).getD 512
    if bytes = 0 ∨ bytes.toNat > sectorMax then none else some ⟨slot, lba, bytes⟩

def nioStatusName (status : UInt8) : String :=
  if status = nioStatusOk then "OK"
  else if status = nioStatusDeviceNotFound then "DEVICE_NOT_FOUND"
  else if status = nioStatusInvalidRequest then "INVALID_REQUEST"
  else if status = nioStatusDeviceBusy then "DEVICE_BUSY"
  else if status = nioStatusNotReady then "NOT_READY"
  else if status = nioStatusIoError then "IO_ERROR"
  else if status = nioStatusTimeout then "TIMEOUT"
  else if status = nioStatusInternalError then "INTERNAL_ERROR"
  else if status = nioStatusUnsupported then "UNSUPPORTED"
  else "UNKNOWN"

/-- What the program prints, with what it puts into each of its texts. -/
inductive Printed where
  | usage
  | banner (command : ReadCommand)
  | initFailed (code : UInt8)
  | readFailed (reason : Option (UInt8 × String))
  | status (status : UInt8) (name : String)
  | bytesRead (n : Nat)
  | dump (text : List UInt8)
  deriving DecidableEq

/-- What follows `Read failed`: nothing for an internal error. -/
def failureReason (status : UInt8) : Option (UInt8 × String) :=
  if status ≠ nioStatusInternalError then some (status, nioStatusName status) else none

/-- The read into `sector`. -/
def ReadCommand.args (command : ReadCommand) : ReadSectorArgs where
  slot := command.slot
  lba := command.lba
  buffer := true
  bufferLength := command.bytes
  bytesRead := true

/-- The exit code, what was printed, and the reads of the reply array. -/
structure NioreadRun where
  exit : Nat
  printed : List Printed
  reads : List Nat

/-- `main` from the banner on, for a result of `fn_init`, if the dump is done after `fuel` passes. -/
def readAndDump (fnInit : UInt8) (dev : Device) (past : List Request) (stack : Nat → UInt8)
    (command : ReadCommand) (fuel : Nat) : Option NioreadRun :=
  if fnInit ≠ 0 then some ⟨2, [.banner command, .initFailed fnInit], []⟩
  else
    let read := nioDiskReadSector dev past command.args stack
    if read.ret = false then
      some ⟨2, [.banner command, .readFailed (failureReason read.response.status)], read.reads⟩
    else
      -- `sector` is static, and `bytes_read` starts at 0
      let out := read.out ⟨fun _ => 0, 0⟩
      (hexdump out.buffer (UInt16.ofNat out.bytesRead) fuel).map fun text =>
        ⟨0, [.banner command, .status read.response.status (nioStatusName read.response.status),
          .bytesRead out.bytesRead, .dump text], read.reads⟩

def nioread (lib : CLib) (fnInit : UInt8) (dev : Device) (past : List Request)
    (stack : Nat → UInt8) (args : List CStr) (fuel : Nat) : Option NioreadRun :=
  match parseArgs lib args with
  | none => some ⟨1, [.usage], []⟩
  | some command => readAndDump fnInit dev past stack command fuel

/-! ## The read -/

/-- An answer that a read accepts. -/
structure Delivers (dev : Device) (past : List Request) (a : ReadSectorArgs)
    (payload : List UInt8) : Prop where
  answered : dev.respond past (readSectorRequest a) = .answered nioStatusOk payload
  version : listMem payload 0 = nioDiskVersion
  fitsBuffer : dataLen payload ≤ a.bufferLength.toNat
  fitsReply : 11 + dataLen payload ≤ payload.length

/-- The data of an answer. -/
def sectorData (payload : List UInt8) : List UInt8 := (payload.drop 11).take (dataLen payload)

/-- The status that `nio_call` reports for an answer. -/
def reportedStatus : Reply → UInt8
  | .failed code => mapFnError code
  | .answered status _ => status

section Read

variable {dev : Device} {past : List Request} {a : ReadSectorArgs} {stack : Nat → UInt8}

/-- A read of at most 1024 bytes is safe. -/
theorem sectorSafe_of_small (hsmall : a.bufferLength.toNat ≤ sectorMax) (o : SectorOut) :
    SectorSafe dev past a stack o := by
  have hmax : a.bufferLength.toNat ≤ 1024 := hsmall
  rcases Classical.em (∃ payload, dev.respond past (readSectorRequest a) =
      .answered nioStatusOk payload) with ⟨payload, hresp⟩ | hnone
  · rcases Classical.em (11 ≤ payload.length ∧ listMem payload 0 = nioDiskVersion) with
      ⟨hlen, hver⟩ | hbad
    · exact sectorSafe_of_unwrapped hresp hlen hver (by omega)
    · refine sectorSafe_of_badVersion hresp ?_
      rcases Nat.lt_or_ge payload.length 11 with hshort | hlen
      · exact .inl hshort
      · exact .inr fun hver => hbad ⟨hlen, hver⟩
  · obtain ⟨hret, hevents, hreads⟩ := nioDiskReadSector_unanswered stack (not_exists.mp hnone)
    apply sectorSafe_of_rejected hret hevents
    rw [hreads]
    exact nofun

/-- **Which answers are accepted.** A read of at most 1024 bytes returns 1 exactly on those. -/
theorem nioDiskReadSector_ret_iff (hsmall : a.bufferLength.toNat ≤ sectorMax) :
    (nioDiskReadSector dev past a stack).ret = true ↔ ∃ payload, Delivers dev past a payload := by
  constructor
  · intro hret
    obtain ⟨payload, hresp, hcopied⟩ :=
      (sectorSafe_of_small hsmall ⟨fun _ => 0, 0⟩ : SectorSafe dev past a stack _).accepted hret
    exact ⟨payload, hresp, hcopied.version, hcopied.fitsBuffer, hcopied.fitsReply⟩
  · rintro ⟨payload, hresp, hver, hbuffer, hreply⟩
    have hmax : a.bufferLength.toNat ≤ 1024 := hsmall
    obtain ⟨h0, h9⟩ := overlay_header stack (show 11 ≤ payload.length by omega)
    have hexec := exec_readSectorProg (overlay stack 0 payload) a payload.length (by omega)
      (h0.trans hver)
    have hsum : u16 (11 + dataLen payload) = 11 + dataLen payload := u16_of_lt (by omega)
    rw [h9, hsum, if_neg (by omega)] at hexec
    rw [nioDiskReadSector_answered stack hresp, hexec]

/-- Every byte of the reply array that is read came with the answer. -/
theorem reads_from_answer (hsmall : a.bufferLength.toNat ≤ sectorMax) :
    ∀ i ∈ (nioDiskReadSector dev past a stack).reads, ∃ payload,
      dev.respond past (readSectorRequest a) = .answered nioStatusOk payload ∧
        i < payload.length := by
  intro i hi
  have hlt := (sectorSafe_of_small hsmall ⟨fun _ => 0, 0⟩ : SectorSafe dev past a stack _).reads_lt
    i hi
  by_cases hnone : ∃ payload, dev.respond past (readSectorRequest a) =
      .answered nioStatusOk payload
  · obtain ⟨payload, hresp⟩ := hnone
    rw [nioDiskReadSector_answered stack hresp] at hlt
    exact ⟨payload, hresp, hlt⟩
  · rw [(nioDiskReadSector_unanswered stack (not_exists.mp hnone)).2.2] at hi
    cases hi

/-- The status that is shown is that of the reply. -/
theorem response_status :
    (nioDiskReadSector dev past a stack).response.status =
      reportedStatus (dev.respond past (readSectorRequest a)) := by
  unfold nioDiskReadSector nioCall
  cases dev.respond past (readSectorRequest a) with
  | failed code => rfl
  | answered status payload =>
    dsimp only
    split
    next => rfl
    next => rfl

end Read

/-! ## The command line -/

/-- An argument that does not begin with `?`. -/
def Plain (arg : CStr) : Prop := ¬ [0x3F] <+: arg.bytes

instance (arg : CStr) : Decidable (Plain arg) :=
  inferInstanceAs (Decidable (¬ [0x3F] <+: arg.bytes))

/-- The test of the code for a first argument that asks for help. -/
theorem asksUsage_eq_false_iff {arg : CStr} : asksUsage arg = false ↔ Plain arg := by
  unfold asksUsage Plain
  cases arg.bytes with
  | nil => simp
  | cons c cs =>
    rw [List.cons_prefix_cons]
    simpa using ne_comm

/-- The command lines that ask for a read: at most a slot, a sector and a number of bytes from 1 to
1024, the first of which does not begin with `?`. What is left out is slot 1, sector 0 and 512
bytes; of the slot the low byte counts. -/
inductive AsksFor (lib : CLib) : List CStr → ReadCommand → Prop where
  | nothing : AsksFor lib [] ⟨1, 0, 512⟩
  | slot {slot : CStr} (plain : Plain slot) :
      AsksFor lib [slot] ⟨(lib.atoi slot).toUInt8, 0, 512⟩
  | lba {slot lba : CStr} (plain : Plain slot) :
      AsksFor lib [slot, lba] ⟨(lib.atoi slot).toUInt8, lib.strtoul lba, 512⟩
  | bytes {slot lba bytes : CStr} (plain : Plain slot) (some_byte : 1 ≤ (lib.atoi bytes).toNat)
      (fits : (lib.atoi bytes).toNat ≤ 1024) :
      AsksFor lib [slot, lba, bytes]
        ⟨(lib.atoi slot).toUInt8, lib.strtoul lba, lib.atoi bytes⟩

/-- **The command line.** The program goes on with a command exactly where it is asked for. -/
theorem parseArgs_iff {lib : CLib} {args : List CStr} {command : ReadCommand} :
    parseArgs lib args = some command ↔ AsksFor lib args command := by
  have hbytes : ∀ bytes : UInt16,
      ¬ (bytes = 0 ∨ bytes.toNat > sectorMax) ↔ 1 ≤ bytes.toNat ∧ bytes.toNat ≤ 1024 := by
    intro bytes
    rw [not_or, ← UInt16.toNat_inj, UInt16.toNat_zero, Nat.not_lt, Nat.one_le_iff_ne_zero]
    rfl
  constructor
  · intro h
    unfold parseArgs at h
    split at h
    next => cases h
    next hplain =>
      obtain ⟨hlen, hplain⟩ := not_or.mp hplain
      dsimp only at h
      split at h
      next => cases h
      next hrange =>
        obtain rfl := Option.some.inj h
        -- by the number of arguments
        match args with
        | [] => exact .nothing
        | [slot] => exact .slot (asksUsage_eq_false_iff.mp (Bool.eq_false_iff.mpr hplain))
        | [slot, lba] => exact .lba (asksUsage_eq_false_iff.mp (Bool.eq_false_iff.mpr hplain))
        | [slot, lba, bytes] =>
          obtain ⟨hsome, hfits⟩ := (hbytes (lib.atoi bytes)).mp hrange
          exact .bytes (asksUsage_eq_false_iff.mp (Bool.eq_false_iff.mpr hplain)) hsome hfits
        | _ :: _ :: _ :: _ :: rest => exact absurd hlen (by simp)
  · intro h
    unfold parseArgs
    cases h with
    | nothing => rfl
    | slot plain => simp [asksUsage_eq_false_iff.mpr plain, sectorMax]
    | lba plain => simp [asksUsage_eq_false_iff.mpr plain, sectorMax]
    | bytes plain some_byte fits =>
      simp only [List.head?_cons, Option.any_some, asksUsage_eq_false_iff.mpr plain]
      rw [if_neg (by simp)]
      exact if_neg ((hbytes _).mpr ⟨some_byte, fits⟩)

/-- What is asked for fits the buffer of the program. -/
theorem AsksFor.small {lib : CLib} {args : List CStr} {command : ReadCommand}
    (h : AsksFor lib args command) : command.bytes.toNat ≤ sectorMax := by
  cases h with
  | nothing => exact show 512 ≤ 1024 by decide
  | slot plain => exact show 512 ≤ 1024 by decide
  | lba plain => exact show 512 ≤ 1024 by decide
  | bytes plain some_byte fits => exact fits

/-! ## The program -/

/-- What a run with a command does. -/
structure ReadsExactly (fnInit : UInt8) (dev : Device) (past : List Request)
    (command : ReadCommand) (r : NioreadRun) : Prop where
  notReady : fnInit ≠ 0 → r = ⟨2, [.banner command, .initFailed fnInit], []⟩
  refused : fnInit = 0 → (¬ ∃ payload, Delivers dev past command.args payload) →
    r.exit = 2 ∧ r.printed = [.banner command, .readFailed (failureReason
      (reportedStatus (dev.respond past (readSectorRequest command.args))))]
  shown : ∀ payload, fnInit = 0 → Delivers dev past command.args payload →
    r.exit = 0 ∧ ∃ text, r.printed = [.banner command, .status nioStatusOk "OK",
      .bytesRead (sectorData payload).length, .dump text] ∧
      readDump text = rowsOf (sectorData payload)
  reads_from : ∀ i ∈ r.reads, ∃ payload,
    dev.respond past (readSectorRequest command.args) = .answered nioStatusOk payload ∧
      i < payload.length

section Program

variable {fnInit : UInt8} {dev : Device} {past : List Request} {stack : Nat → UInt8}
  {command : ReadCommand}

/-- The data of an accepted answer has the length that the answer gives. -/
theorem length_sectorData {payload : List UInt8} {a : ReadSectorArgs}
    (hdelivers : Delivers dev past a payload) : (sectorData payload).length = dataLen payload := by
  have hfits := hdelivers.fitsReply
  rw [sectorData, List.length_take, List.length_drop]
  omega

/-- What the caller's variables hold after an accepted read. -/
theorem out_of_delivers (hsmall : command.bytes.toNat ≤ sectorMax) {payload : List UInt8}
    (hdelivers : Delivers dev past command.args payload) (o : SectorOut) :
    ((nioDiskReadSector dev past command.args stack).out o).bytesRead =
        (sectorData payload).length ∧
      (List.range (sectorData payload).length).map
        ((nioDiskReadSector dev past command.args stack).out o).buffer = sectorData payload := by
  have hret : (nioDiskReadSector dev past command.args stack).ret = true :=
    (nioDiskReadSector_ret_iff hsmall).mpr ⟨payload, hdelivers⟩
  obtain ⟨payload', hresp, hcopied⟩ :=
    (sectorSafe_of_small hsmall o : SectorSafe dev past command.args stack o).accepted hret
  obtain ⟨-, rfl⟩ := Reply.answered.inj (hdelivers.answered.symm.trans hresp)
  rw [length_sectorData hdelivers]
  exact ⟨hcopied.length rfl, hcopied.copied rfl⟩

/-- The data of an accepted answer is no longer than the array. -/
theorem length_sectorData_le (hsmall : command.bytes.toNat ≤ sectorMax) {payload : List UInt8}
    (hdelivers : Delivers dev past command.args payload) :
    (sectorData payload).length ≤ sectorMax := by
  rw [length_sectorData hdelivers]
  exact Nat.le_trans hdelivers.fitsBuffer hsmall

/-- The dump of an accepted answer, as a reader sees it. -/
theorem readDump_of_delivers (hsmall : command.bytes.toNat ≤ sectorMax) {payload : List UInt8}
    (hdelivers : Delivers dev past command.args payload) (o : SectorOut) {fuel : Nat}
    {text : List UInt8}
    (htext : hexdump ((nioDiskReadSector dev past command.args stack).out o).buffer
      (UInt16.ofNat ((nioDiskReadSector dev past command.args stack).out o).bytesRead) fuel =
        some text) :
    readDump text = rowsOf (sectorData payload) := by
  obtain ⟨hlen, hdata⟩ :=
    (out_of_delivers hsmall hdelivers o : _ = _ ∧ (List.range _).map
      ((nioDiskReadSector dev past command.args stack).out o).buffer = _)
  have hmax : (sectorData payload).length ≤ 1024 := length_sectorData_le hsmall hdelivers
  have hcast : (UInt16.ofNat (sectorData payload).length).toNat = (sectorData payload).length :=
    UInt16.toNat_ofNat_of_lt' (show _ < 65536 by omega)
  rw [hlen] at htext
  rw [readDump_of_hexdump htext, hcast, hdata]

/-- **A run with a command.** -/
theorem readsExactly_of_readAndDump (hsmall : command.bytes.toNat ≤ sectorMax) {fuel : Nat}
    {r : NioreadRun} (hrun : readAndDump fnInit dev past stack command fuel = some r) :
    ReadsExactly fnInit dev past command r := by
  have hstatus : (nioDiskReadSector dev past command.args stack).response.status =
      reportedStatus (dev.respond past (readSectorRequest command.args)) := response_status
  have hreads : ∀ i ∈ (nioDiskReadSector dev past command.args stack).reads, ∃ payload,
      dev.respond past (readSectorRequest command.args) = .answered nioStatusOk payload ∧
        i < payload.length := reads_from_answer hsmall
  have hret : (nioDiskReadSector dev past command.args stack).ret = true ↔
      ∃ payload, Delivers dev past command.args payload := nioDiskReadSector_ret_iff hsmall
  unfold readAndDump at hrun
  split at hrun
  next hinit =>
    obtain rfl := Option.some.inj hrun
    exact ⟨fun _ => rfl, fun hzero => absurd hzero hinit, fun _ hzero => absurd hzero hinit, nofun⟩
  next hinit =>
    dsimp only at hrun
    split at hrun
    next hfalse =>
      obtain rfl := Option.some.inj hrun
      rw [hfalse, Bool.false_eq_true, false_iff] at hret
      exact ⟨fun hne => absurd hne hinit, fun _ _ => ⟨rfl, by rw [hstatus]⟩,
        fun payload _ hdelivers => absurd ⟨payload, hdelivers⟩ hret, hreads⟩
    next htrue =>
      obtain ⟨text, htext, rfl⟩ := Option.map_eq_some_iff.mp hrun
      obtain ⟨payload, hdelivers⟩ := hret.mp (by simpa using htrue)
      refine ⟨fun hne => absurd hne hinit, fun _ hnone => absurd ⟨payload, hdelivers⟩ hnone,
        fun payload' _ hdelivers' => ⟨rfl, text, ?_, readDump_of_delivers hsmall hdelivers' _ htext⟩,
        hreads⟩
      rw [hstatus, hdelivers.answered, (out_of_delivers hsmall hdelivers' _).1]
      rfl

/-- A run with a command is over after some number of passes. -/
theorem readAndDump_returns (hsmall : command.bytes.toNat ≤ sectorMax) :
    ∃ fuel r, readAndDump fnInit dev past stack command fuel = some r := by
  unfold readAndDump
  split
  next => exact ⟨0, _, rfl⟩
  next =>
    dsimp only
    split
    next => exact ⟨0, _, rfl⟩
    next htrue =>
      have hret : (nioDiskReadSector dev past command.args stack).ret = true := by
        simpa using htrue
      obtain ⟨payload, hdelivers⟩ := (nioDiskReadSector_ret_iff hsmall).mp hret
      have hmax : (sectorData payload).length ≤ 1024 := length_sectorData_le hsmall hdelivers
      rw [(out_of_delivers hsmall hdelivers _).1]
      have hcast : (UInt16.ofNat (sectorData payload).length).toNat = (sectorData payload).length :=
        UInt16.toNat_ofNat_of_lt' (show _ < 65536 by omega)
      obtain ⟨fuel, text, htext⟩ := hexdump_returns
        ((nioDiskReadSector dev past command.args stack).out ⟨fun _ => 0, 0⟩).buffer
        (show (UInt16.ofNat (sectorData payload).length).toNat ≤ 65520 by omega)
      exact ⟨fuel, _, by rw [htext]; rfl⟩

end Program

/-- **What `NIOREAD` does.** For every command line, device, stack and result of `fn_init` the
program comes to an end. With a command line that asks for no read it only prints its usage and
exits with 1; otherwise it exits with 0 exactly when the library is ready and the answer is one that
a read accepts, and then its dump is read back as the rows of the data in that answer. In all other
cases it exits with 2, with the reason it has, and dumps nothing. Only bytes the device sent are
read. -/
theorem nioread_exact (lib : CLib) (fnInit : UInt8) (dev : Device) (past : List Request)
    (stack : Nat → UInt8) (args : List CStr) :
    (∃ fuel r, nioread lib fnInit dev past stack args fuel = some r) ∧
    ∀ fuel r, nioread lib fnInit dev past stack args fuel = some r →
      ((∀ command, ¬ AsksFor lib args command) → r = ⟨1, [.usage], []⟩) ∧
      ∀ command, AsksFor lib args command → ReadsExactly fnInit dev past command r := by
  unfold nioread
  cases hargs : parseArgs lib args with
  | none =>
    refine ⟨⟨0, _, rfl⟩, fun fuel r hrun => ⟨fun _ => ?_, fun command hasks => ?_⟩⟩
    · exact (Option.some.inj hrun).symm
    · rw [parseArgs_iff.mpr hasks] at hargs
      cases hargs
  | some command =>
    have hasks := parseArgs_iff.mp hargs
    refine ⟨readAndDump_returns hasks.small, fun fuel r hrun => ⟨fun hnone => ?_, ?_⟩⟩
    · exact absurd hasks (hnone command)
    · intro command' hasks'
      obtain rfl := Option.some.inj (hargs.symm.trans (parseArgs_iff.mpr hasks'))
      exact readsExactly_of_readAndDump hasks.small hrun

/-- A library that reads decimal digits. -/
def decimalLib : CLib where
  atoi arg := arg.bytes.foldl (fun n c => 10 * n + (c - 0x30).toUInt16) 0
  strtoul arg := arg.bytes.foldl (fun n c => 10 * n + (c - 0x30).toUInt32) 0

/-- An answer with two bytes of data. -/
def twoByteAnswer : List UInt8 := [1, 0, 2, 0, 0, 0, 0, 0, 0, 2, 0, 0x4F, 0x4B]

/-- `NIOREAD 2 7` on a device that gives this answer. -/
theorem nioread_exact_twoBytes :
    ∃ fuel r text, nioread decimalLib 0 (Device.script fun _ => .answered 0 twoByteAnswer) []
        (fun _ => 0xFF) [⟨[0x32], by decide⟩, ⟨[0x37], by decide⟩] fuel = some r ∧
      r.exit = 0 ∧
      r.printed = [.banner ⟨2, 7, 512⟩, .status nioStatusOk "OK", .bytesRead 2, .dump text] ∧
      readDump text = rowsOf [0x4F, 0x4B] := by
  obtain ⟨⟨fuel, r, hrun⟩, hall⟩ := nioread_exact decimalLib 0
    (Device.script fun _ => .answered 0 twoByteAnswer) [] (fun _ => 0xFF)
    [⟨[0x32], by decide⟩, ⟨[0x37], by decide⟩]
  have hasks : AsksFor decimalLib [⟨[0x32], by decide⟩, ⟨[0x37], by decide⟩] ⟨2, 7, 512⟩ :=
    .lba (by decide)
  obtain ⟨hexit, text, hprinted, hdump⟩ := ((hall fuel r hrun).2 _ hasks).shown twoByteAnswer rfl
    ⟨by decide +kernel, by decide, by decide, by decide⟩
  exact ⟨fuel, r, text, hrun, hexit, hprinted, hdump⟩

end NioApps.Nio
