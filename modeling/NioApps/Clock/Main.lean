import Mathlib.Logic.Equiv.Basic
import NioApps.Lib.Word

/-!
# Clock — the example `clock.c`

The example asks the clock device for the time in every format, sets the time zone and the time, and
has the time synchronised again. With cc65 a time is an array of eight bytes, elsewhere it is a
64-bit number, so `make_time` and `print_time_raw` are written twice.

* `TimeType`, `cc65`, `other` — the two ways to hold a time.
* `test1` to `test9`, `main` — the example, over either of them.
* `main_agrees` — the two builds do the same to the device and print the same.
-/

namespace NioApps.Clock

/-! ## The two builds -/

/-- `FN_TIME_T`, with the two functions that look into it. -/
structure TimeType (τ : Type) where
  makeTime : UInt32 → τ
  /-- The bytes that `print_time_raw` prints. -/
  raw : τ → List UInt8

/-- The array of a cc65 build. -/
abbrev TimeBytes := {b : List UInt8 // b.length = 8}

def cc65 : TimeType TimeBytes where
  makeTime timestamp :=
    ⟨((List.range 4).map fun i => ((timestamp >>> UInt32.ofNat (8 * i)) &&& 0xFF).toUInt8) ++
      (List.range' 4 4).map fun _ => 0, by simp⟩
  raw time := time.1

def other : TimeType UInt64 where
  makeTime timestamp := timestamp.toUInt64
  raw t := (List.range 8).map fun i => ((t >>> UInt64.ofNat (8 * i)) &&& 0xFF).toUInt8

/-! ## The library -/

inductive Format where
  | simple
  | proDos
  | apeTime
  | tzIso
  | utcIso
  deriving DecidableEq

/-- The functions of the library on the states of the device. A function that fills a buffer gets
what is in it, and so do those that fill a time. -/
structure Library (τ σ : Type) where
  init : σ → UInt8 × σ
  isReady : σ → Bool × σ
  getFormat : Format → List UInt8 → σ → UInt8 × List UInt8 × σ
  get : τ → σ → UInt8 × τ × σ
  getTimezone : List UInt8 → σ → UInt8 × List UInt8 × σ
  getTz : String → Format → List UInt8 → σ → UInt8 × List UInt8 × σ
  setTimezone : String → σ → UInt8 × σ
  set : τ → σ → UInt8 × σ
  syncNetworkTime : τ → σ → UInt8 × τ × σ

/-- `fujinet-nio.h`. -/
structure Header where
  ok : UInt8
  notReady : UInt8
  maxTimeString : Nat

inductive Line where
  | text (s : String)
  | failed (s : String) (result : UInt8)
  | string (s : String) (text : List UInt8)
  | bytes (s : String) (bytes : List UInt8)
  | date (year month day hour minute second : Nat)
  deriving DecidableEq

/-! ## The example -/

/-- The variables of `main`, with the device and what has been printed. -/
structure Session (τ σ : Type) where
  device : σ
  currentTime : τ
  isoTime : List UInt8
  tzBuf : List UInt8
  binaryTime : List UInt8
  printed : List Line

namespace Session

variable {τ σ : Type} (h : Header) (lib : Library τ σ) (s : Session τ σ)

def print (lines : List Line) : Session τ σ := { s with printed := s.printed ++ lines }

/-- `%s` of a buffer. -/
def string (label : String) (buf : List UInt8) : Session τ σ :=
  s.print [.string label (buf.takeWhile (· ≠ 0))]

/-- `clear_time_string` and a function that fills `iso_time`. -/
def fillIso (call : List UInt8 → σ → UInt8 × List UInt8 × σ) : UInt8 × Session τ σ :=
  let answer := call (List.replicate h.maxTimeString 0) s.device
  (answer.1, { s with isoTime := answer.2.1, device := answer.2.2 })

def fillTz : UInt8 × Session τ σ :=
  let answer := lib.getTimezone s.tzBuf s.device
  (answer.1, { s with tzBuf := answer.2.1, device := answer.2.2 })

def fillBinary (format : Format) : UInt8 × Session τ σ :=
  let answer := lib.getFormat format s.binaryTime s.device
  (answer.1, { s with binaryTime := answer.2.1, device := answer.2.2 })

def fillTime (call : τ → σ → UInt8 × τ × σ) : UInt8 × Session τ σ :=
  let answer := call s.currentTime s.device
  (answer.1, { s with currentTime := answer.2.1, device := answer.2.2 })

/-- A call that fills nothing. -/
def ask (call : σ → UInt8 × σ) : UInt8 × Session τ σ :=
  let answer := call s.device
  (answer.1, { s with device := answer.2 })

/-- The two lines where the time cannot be got. -/
def noTime (result : UInt8) : Session τ σ :=
  s.print (.failed "Failed to get time: " result ::
    if result = h.notReady then [.text "(Time may not be synchronized - check WiFi/NTP)"] else [])

/-- A text that is shown, or the error. -/
def showIso (filled : UInt8 × Session τ σ) (label : String) : Session τ σ :=
  if filled.1 = h.ok then filled.2.string label filled.2.isoTime
  else filled.2.print [.failed "Failed: " filled.1]

/-- A text that is shown, or nothing. -/
def showIsoIfOk (filled : UInt8 × Session τ σ) (label : String) : Session τ σ :=
  if filled.1 = h.ok then filled.2.string label filled.2.isoTime else filled.2

def test1 : Session τ σ :=
  let filled := s.fillIso h (lib.getFormat .utcIso)
  if filled.1 ≠ h.ok then filled.2.noTime h filled.1
  else filled.2.string "UTC time: " filled.2.isoTime

def test2 (T : TimeType τ) : Session τ σ :=
  let filled := s.fillTime lib.get
  if filled.1 ≠ h.ok then filled.2.noTime h filled.1
  else filled.2.print [.bytes "Raw bytes: " (T.raw filled.2.currentTime)]

def test3 : Session τ σ := showIso h (s.fillIso h (lib.getFormat .tzIso)) "Local time: "

def test4 : Session τ σ :=
  let filled := s.fillTz lib
  if filled.1 = h.ok then filled.2.string "Current timezone: " filled.2.tzBuf
  else filled.2.print [.failed "Failed: " filled.1]

/-- The byte at a place of `binary_time`. -/
def byte (i : Nat) : Nat := (s.binaryTime.getD i 0).toNat

/-- A format that is shown byte by byte, or nothing. -/
def showBinary (format : Format) (lines : Session τ σ → List Line) : Session τ σ :=
  let filled := s.fillBinary lib format
  if filled.1 = h.ok then filled.2.print (lines filled.2) else filled.2

def simpleLines : List Line :=
  [.bytes "Simple binary (7 bytes): " (s.binaryTime.take 7),
    .date (s.byte 0 * 100 + s.byte 1) (s.byte 2) (s.byte 3) (s.byte 4) (s.byte 5) (s.byte 6)]

def proDosLines : List Line := [.bytes "ProDOS binary (4 bytes): " (s.binaryTime.take 4)]

def apeTimeLines : List Line := [.bytes "ApeTime binary (6 bytes): " (s.binaryTime.take 6)]

def test5 : Session τ σ :=
  let s := s.showBinary h lib .simple simpleLines
  let s := s.showBinary h lib .proDos proDosLines
  s.showBinary h lib .apeTime apeTimeLines

def test6 : Session τ σ :=
  let s := showIso h (s.fillIso h (lib.getTz "PST8PDT,M3.2.0,M11.1.0" .tzIso)) "Pacific Time: "
  showIso h (s.fillIso h (lib.getTz "CET-1CEST,M3.5.0,M10.5.0/3" .tzIso)) "Central European Time: "

/-- What `main` shows after the time zone has been set. -/
def showTimezone : Session τ σ :=
  let s := s.print [.text "Timezone set to EST5EDT"]
  let s := showIsoIfOk h (s.fillIso h (lib.getFormat .tzIso)) "Eastern Time: "
  let filled := s.fillTz lib
  if filled.1 = h.ok then filled.2.string "Current timezone is now: " filled.2.tzBuf else filled.2

def test7 : Session τ σ :=
  let asked := s.ask (lib.setTimezone "EST5EDT,M3.2.0,M11.1.0")
  if asked.1 = h.ok then asked.2.showTimezone h lib
  else asked.2.print [.failed "Failed to set timezone: " asked.1]

/-- `fn_clock_set`, with what is printed about it. -/
def setTime (time : τ) : Session τ σ :=
  let asked := s.ask (lib.set time)
  if asked.1 ≠ h.ok then
    asked.2.print [.failed "Failed to set time: " asked.1,
      .text "(This may be expected if time setting is disabled)"]
  else asked.2.print [.text "Time set successfully."]

def test8 (T : TimeType τ) : Session τ σ :=
  let s := s.print [.text "Setting time to: 2024-01-01 00:00:00 UTC"]
  let s := s.setTime h lib (T.makeTime 1704067200)
  showIsoIfOk h (s.fillIso h (lib.getFormat .utcIso)) "UTC time: "

def test9 (T : TimeType τ) : Session τ σ :=
  let s := s.print [.text "Requesting time sync from network..."]
  let filled := s.fillTime lib.syncNetworkTime
  if filled.1 ≠ h.ok then
    filled.2.print [.failed "Failed to sync time: " filled.1,
      .text "(This may fail if network is not available)"]
  else
    let s := filled.2.print [.text "Time synchronized from network.",
      .bytes "Returned raw network time: " (T.raw filled.2.currentTime)]
    showIsoIfOk h (s.fillIso h (lib.getFormat .utcIso)) "UTC time: "

def tests (T : TimeType τ) : Session τ σ :=
  let s := ((s.test1 h lib).test2 h lib T).test3 h lib
  let s := ((s.test4 h lib).test5 h lib).test6 h lib
  ((s.test7 h lib).test8 h lib T).test9 h lib T

def askReady : Bool × Session τ σ :=
  let answer := lib.isReady s.device
  (answer.1, { s with device := answer.2 })

/-- The exit code, with the variables at the end. The headings are left out. -/
def main (T : TimeType τ) : Nat × Session τ σ :=
  let asked := s.ask lib.init
  if asked.1 ≠ h.ok then (1, asked.2.print [.failed "Init failed: " asked.1])
  else
    let ready := asked.2.askReady lib
    if ready.1 then
      (0, ((ready.2.print [.text "Device ready."]).tests h lib T).print [.text "Done."])
    else (1, ready.2.print [.text "FujiNet device not ready!"])

end Session

/-! ## From one build to the other -/

/-- The same library with its times held in another way. -/
def Library.map {τ τ' σ : Type} (e : τ ≃ τ') (lib : Library τ σ) : Library τ' σ where
  init := lib.init
  isReady := lib.isReady
  getFormat := lib.getFormat
  get time device := Prod.map id (Prod.map e id) (lib.get (e.symm time) device)
  getTimezone := lib.getTimezone
  getTz := lib.getTz
  setTimezone := lib.setTimezone
  set time := lib.set (e.symm time)
  syncNetworkTime time device :=
    Prod.map id (Prod.map e id) (lib.syncNetworkTime (e.symm time) device)

namespace Session

def map {τ τ' σ : Type} (e : τ ≃ τ') (s : Session τ σ) : Session τ' σ :=
  { s with currentTime := e s.currentTime }

variable {τ τ' σ : Type} (e : τ ≃ τ') (h : Header) (lib : Library τ σ) (s : Session τ σ)

/-- A library call that fills the time fills the mapped one with the mapped value. -/
theorem fillTime_map (call : τ → σ → UInt8 × τ × σ) :
    (s.map e).fillTime (fun time device => Prod.map id (Prod.map e id) (call (e.symm time) device)) =
      Prod.map id (map e) (s.fillTime call) := by
  unfold fillTime
  simp only [map, Equiv.symm_apply_apply]
  rfl

theorem print_map (lines : List Line) : (s.map e).print lines = (s.print lines).map e := rfl

theorem fillIso_map (call : List UInt8 → σ → UInt8 × List UInt8 × σ) :
    (s.map e).fillIso h call = Prod.map id (map e) (s.fillIso h call) := rfl

theorem fillTz_map : (s.map e).fillTz (lib.map e) = Prod.map id (map e) (s.fillTz lib) := rfl

theorem showIso_map (filled : UInt8 × Session τ σ) (label : String) :
    showIso h (Prod.map id (map e) filled) label = (showIso h filled label).map e := by
  rw [showIso, showIso, apply_ite (map e)]
  rfl

theorem showIsoIfOk_map (filled : UInt8 × Session τ σ) (label : String) :
    showIsoIfOk h (Prod.map id (map e) filled) label = (showIsoIfOk h filled label).map e := by
  rw [showIsoIfOk, showIsoIfOk, apply_ite (map e)]
  rfl

/-- The binary forms print the same lines for both kinds of time, if the lines themselves are the
same. -/
theorem showBinary_map (format : Format) {lines : Session τ σ → List Line}
    {lines' : Session τ' σ → List Line} (hlines : ∀ s, lines' (s.map e) = lines s) :
    (s.map e).showBinary h (lib.map e) format lines' =
      (s.showBinary h lib format lines).map e := by
  have hfill : (s.map e).fillBinary (lib.map e) format =
      Prod.map id (map e) (s.fillBinary lib format) := rfl
  rw [showBinary, showBinary, apply_ite (map e), hfill]
  simp only [Prod.map_fst, Prod.map_snd, id_eq, hlines]
  rfl

theorem test1_map : (s.map e).test1 h (lib.map e) = (s.test1 h lib).map e := by
  rw [test1, test1, apply_ite (map e)]
  rfl

/-- Test 2 does, if the two kinds have the same raw bytes. -/
theorem test2_map {T : TimeType τ} {T' : TimeType τ'} (hraw : ∀ t, T'.raw (e t) = T.raw t) :
    (s.map e).test2 h (lib.map e) T' = (s.test2 h lib T).map e := by
  have hfill : (s.map e).fillTime (lib.map e).get = Prod.map id (map e) (s.fillTime lib.get) :=
    fillTime_map e s lib.get
  rw [test2, test2, apply_ite (map e), hfill]
  simp only [Prod.map_fst, Prod.map_snd, map, hraw, id_eq]
  rfl

theorem test3_map : (s.map e).test3 h (lib.map e) = (s.test3 h lib).map e :=
  showIso_map e h (s.fillIso h (lib.getFormat .tzIso)) _

theorem test4_map : (s.map e).test4 h (lib.map e) = (s.test4 h lib).map e := by
  rw [test4, test4, apply_ite (map e)]
  rfl

/-- Test 5 goes through the formats one after another, each as its own case. -/
theorem test5_map : (s.map e).test5 h (lib.map e) = (s.test5 h lib).map e := by
  have hsimple : ∀ s : Session τ σ, (s.map e).simpleLines = s.simpleLines := fun _ => rfl
  have hproDos : ∀ s : Session τ σ, (s.map e).proDosLines = s.proDosLines := fun _ => rfl
  have hapeTime : ∀ s : Session τ σ, (s.map e).apeTimeLines = s.apeTimeLines := fun _ => rfl
  unfold test5
  dsimp only
  rw [showBinary_map e h lib s .simple hsimple, showBinary_map e h lib _ .proDos hproDos]
  exact showBinary_map e h lib _ .apeTime hapeTime

/-- Test 6 shows one time zone after another. -/
theorem test6_map : (s.map e).test6 h (lib.map e) = (s.test6 h lib).map e := by
  unfold test6
  dsimp only
  rw [fillIso_map, showIso_map, fillIso_map]
  exact showIso_map e h _ _

theorem showTimezone_map :
    (s.map e).showTimezone h (lib.map e) = (s.showTimezone h lib).map e := by
  unfold showTimezone
  dsimp only
  rw [print_map, fillIso_map, showIsoIfOk_map, fillTz_map, apply_ite (map e)]
  rfl

theorem test7_map : (s.map e).test7 h (lib.map e) = (s.test7 h lib).map e := by
  have hask : (s.map e).ask ((lib.map e).setTimezone "EST5EDT,M3.2.0,M11.1.0") =
      Prod.map id (map e) (s.ask (lib.setTimezone "EST5EDT,M3.2.0,M11.1.0")) := rfl
  rw [test7, test7, apply_ite (map e), hask]
  dsimp only [Prod.map_snd]
  rw [showTimezone_map]
  rfl

/-- Setting the mapped time is setting the time. -/
theorem setTime_map (time : τ) : (s.map e).setTime h (lib.map e) (e time) =
    (s.setTime h lib time).map e := by
  have hask : (s.map e).ask ((lib.map e).set (e time)) =
      Prod.map id (map e) (s.ask (lib.set time)) := by
    show (s.map e).ask (lib.set (e.symm (e time))) = _
    rw [e.symm_apply_apply]
    rfl
  rw [setTime, setTime, apply_ite (map e), hask]
  rfl

/-- Test 8 does, if both kinds make the same time of a timestamp. -/
theorem test8_map {T : TimeType τ} {T' : TimeType τ'}
    (hmake : ∀ timestamp, T'.makeTime timestamp = e (T.makeTime timestamp)) :
    (s.map e).test8 h (lib.map e) T' = (s.test8 h lib T).map e := by
  unfold test8
  dsimp only
  rw [hmake, print_map, setTime_map, fillIso_map]
  exact showIsoIfOk_map e h _ _

/-- Test 9 does, if the two kinds have the same raw bytes. -/
theorem test9_map {T : TimeType τ} {T' : TimeType τ'} (hraw : ∀ t, T'.raw (e t) = T.raw t) :
    (s.map e).test9 h (lib.map e) T' = (s.test9 h lib T).map e := by
  have hfill : ∀ s : Session τ σ, (s.map e).fillTime (lib.map e).syncNetworkTime =
      Prod.map id (map e) (s.fillTime lib.syncNetworkTime) :=
    fun s => fillTime_map e s lib.syncNetworkTime
  have htime : ∀ s : Session τ σ, T'.raw (s.map e).currentTime = T.raw s.currentTime :=
    fun s => hraw s.currentTime
  unfold test9
  dsimp only
  rw [print_map, hfill, apply_ite (map e)]
  -- the raw bytes of the time that the network returned are the only ones printed here
  simp only [Prod.map_fst, Prod.map_snd, id_eq, htime, print_map]
  refine if_congr Iff.rfl rfl ?_
  rw [fillIso_map]
  exact showIsoIfOk_map e h _ _

/-- The nine tests. -/
theorem tests_map {T : TimeType τ} {T' : TimeType τ'}
    (hmake : ∀ timestamp, T'.makeTime timestamp = e (T.makeTime timestamp))
    (hraw : ∀ t, T'.raw (e t) = T.raw t) :
    (s.map e).tests h (lib.map e) T' = (s.tests h lib T).map e := by
  unfold tests
  dsimp only
  rw [test1_map, test2_map e h lib _ hraw, test3_map, test4_map, test5_map, test6_map, test7_map,
    test8_map e h lib _ hmake]
  exact test9_map e h lib _ hraw

/-- **The example does not depend on how a time is held.** -/
theorem main_map {T : TimeType τ} {T' : TimeType τ'}
    (hmake : ∀ timestamp, T'.makeTime timestamp = e (T.makeTime timestamp))
    (hraw : ∀ t, T'.raw (e t) = T.raw t) :
    (s.map e).main h (lib.map e) T' = Prod.map id (map e) (s.main h lib T) := by
  have hask : (s.map e).ask (lib.map e).init = Prod.map id (map e) (s.ask lib.init) := rfl
  have hready : ∀ s : Session τ σ, (s.map e).askReady (lib.map e) =
      Prod.map id (map e) (s.askReady lib) := fun _ => rfl
  unfold main
  dsimp only
  rw [hask]
  simp only [Prod.map_fst, Prod.map_snd, id_eq, hready, print_map, tests_map e h lib _ hmake hraw]
  rw [apply_ite (Prod.map id (map e)), apply_ite (Prod.map id (map e))]
  rfl

end Session

/-! ## The two builds agree -/

/-- The eight bytes of a time. -/
def encode : UInt64 ≃ TimeBytes where
  toFun t := ⟨leBytes 8 t.toNat, leBytes_length 8 t.toNat⟩
  invFun b := UInt64.ofNat (leValue b.1)
  left_inv t := by
    have hlt : t.toNat < 256 ^ 8 := t.toNat_lt
    show UInt64.ofNat (leValue (leBytes 8 t.toNat)) = t
    rw [leValue_leBytes, Nat.mod_eq_of_lt hlt, UInt64.ofNat_toNat]
  right_inv := by
    rintro ⟨b, hb⟩
    have hlt := leValue_lt b
    have hbytes := leBytes_leValue b
    rw [hb] at hlt hbytes
    refine Subtype.ext ?_
    show leBytes 8 (UInt64.ofNat (leValue b)).toNat = b
    rw [UInt64.toNat_ofNat_of_lt' hlt, hbytes]

/-- The bytes of a number, taken by shifts. -/
theorem map_range_eq_leBytes (n v : Nat) :
    ((List.range n).map fun i => UInt8.ofNat (v / 256 ^ i)) = leBytes n v := by
  induction n generalizing v with
  | zero => rfl
  | succ n ih =>
    rw [List.range_succ_eq_map, List.map_cons, List.map_map, leBytes, ← ih (v / 256)]
    refine congr (congrArg List.cons ?_) (List.map_congr_left fun i _ => ?_)
    · rw [Nat.pow_zero, Nat.div_one]
    · show UInt8.ofNat (v / 256 ^ (i + 1)) = UInt8.ofNat (v / 256 / 256 ^ i)
      rw [Nat.div_div_eq_div_mul, Nat.pow_succ']

/-- The bytes of a number, least significant first, in two parts. -/
theorem leBytes_add (m n v : Nat) : leBytes (m + n) v = leBytes m v ++ leBytes n (v / 256 ^ m) := by
  induction m generalizing v with
  | zero => simp [leBytes]
  | succ m ih =>
    rw [show m + 1 + n = (m + n) + 1 from by omega, leBytes, leBytes, ih, List.cons_append,
      Nat.div_div_eq_div_mul, Nat.pow_succ']

/-- A byte taken by a shift and a mask. -/
theorem shiftRight_and_byte (v i : Nat) : (v >>> (8 * i) &&& 0xFF) % 256 = v / 256 ^ i % 256 := by
  have hmask : v / 256 ^ i &&& 0xFF = v / 256 ^ i % 256 := Nat.and_two_pow_sub_one_eq_mod _ 8
  rw [Nat.shiftRight_eq_div_pow, Nat.pow_mul]
  exact (congrArg (· % 256) hmask).trans (Nat.mod_mod _ _)

/-- The raw bytes of a 64-bit time are its 8 bytes, least significant first. -/
theorem raw_other (t : UInt64) : other.raw t = leBytes 8 t.toNat := by
  rw [← map_range_eq_leBytes]
  refine List.map_congr_left fun i hi => ?_
  have hi : i < 8 := List.mem_range.mp hi
  have hshift : (UInt64.ofNat (8 * i)).toNat % 64 = 8 * i := by
    rw [UInt64.toNat_ofNat_of_lt' (show 8 * i < 2 ^ 64 by omega)]
    omega
  rw [← UInt8.toNat_inj, UInt64.toNat_toUInt8, UInt64.toNat_and, UInt64.toNat_shiftRight, hshift,
    UInt8.toNat_ofNat']
  exact shiftRight_and_byte t.toNat i

/-- With cc65 a timestamp becomes the struct that holds the bytes of the 64-bit time. -/
theorem makeTime_cc65 (timestamp : UInt32) :
    cc65.makeTime timestamp = encode (other.makeTime timestamp) := by
  refine Subtype.ext ?_
  have hlow : ((List.range 4).map fun i =>
      ((timestamp >>> UInt32.ofNat (8 * i)) &&& 0xFF).toUInt8) = leBytes 4 timestamp.toNat := by
    rw [← map_range_eq_leBytes]
    refine List.map_congr_left fun i hi => ?_
    have hi : i < 4 := List.mem_range.mp hi
    have hshift : (UInt32.ofNat (8 * i)).toNat % 32 = 8 * i := by
      rw [UInt32.toNat_ofNat_of_lt' (show 8 * i < 2 ^ 32 by omega)]
      omega
    rw [← UInt8.toNat_inj, UInt32.toNat_toUInt8, UInt32.toNat_and, UInt32.toNat_shiftRight, hshift,
      UInt8.toNat_ofNat']
    exact shiftRight_and_byte timestamp.toNat i
  -- the upper four bytes, which the cc65 build clears
  have hhigh : timestamp.toNat / 256 ^ 4 = 0 := Nat.div_eq_of_lt timestamp.toNat_lt
  show _ ++ _ = leBytes (4 + 4) timestamp.toUInt64.toNat
  rw [UInt32.toNat_toUInt64, leBytes_add, hhigh, hlow]
  rfl

/-- **The two builds agree.** Over every library, and over the same library with its times held as
bytes, the cc65 build and the others end with the same exit code, leave the same device and the same
buffers, and print the same lines, the raw bytes of the times among them. -/
theorem main_agrees {σ : Type} (h : Header) (lib : Library UInt64 σ) (s : Session UInt64 σ) :
    (s.map encode).main h (lib.map encode) cc65 =
      Prod.map id (Session.map encode) (s.main h lib other) :=
  Session.main_map encode h lib s makeTime_cc65 fun t => (raw_other t).symm

end NioApps.Clock
