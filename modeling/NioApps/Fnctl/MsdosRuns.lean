import NioApps.Fnctl.MsdosBackend

/-!
# Fnctl — runs of the backend that talks to a DOS driver

Whatever DOS answers, a program that uses `platform/msdos/fnctl.c` talks to one driver: the first
one that its search found signed. `Discovered` says so of the log, and `one_drive` proves it of
every run. Where queries are answered the same way at any time, `cached_drive` cannot be told from
a search in every call: `client_run`.

* `Turn`, `step_turn` — what one call adds to the log and makes of `cached_drive`.
* `lastDosError_run` — `last_dos_error` is the error of what was asked last.
* `requests_run` — the raw requests of a run, each accepted call once and in order.
-/

namespace NioApps.Fnctl.Msdos

open NioApps.Fnsvc

/-! ## One drive -/

/-- Nothing that concerns the cached drive: a raw call, or the answer to a query. -/
def Event.Passive (e : Event) : Prop :=
  (∃ r reply, e = .raw r reply) ∨ ∃ drive ∈ searchDrives, e.Query drive

/-- An IOCTL call of `drive`. -/
def Event.To (drive : Nat) (e : Event) : Prop :=
  ∃ subfunction buffer reply, e = .ioctl drive subfunction buffer reply

/-- A search whose first signed answer is that of `drive`. -/
abbrev Finds (es : List Event) (drive : Nat) : Prop :=
  Search.Searched Event.Query (Event.Answers signed) searchDrives es (some drive)

/-- What a log says of `cached_drive`: nothing was found yet and nothing but queries was sent to
any drive; or a search found the drive, and from then on all but queries went to it. -/
inductive Discovered : List Event → Nat → Prop where
  | searching {past : List Event} (hpast : ∀ e ∈ past, e.Passive) : Discovered past 0
  | attached {before search after : List Event} {drive : Nat} (hbefore : ∀ e ∈ before, e.Passive)
      (hsearch : Finds search drive) (hafter : ∀ e ∈ after, e.Passive ∨ e.To drive) :
      Discovered (before ++ search ++ after) drive

/-- What one call adds to the log, with `cached_drive` before and after it. -/
inductive Turn : Nat → List Event → Nat → Prop where
  | passive {cached : Nat} {es : List Event} (hes : ∀ e ∈ es, e.Passive) : Turn cached es cached
  | found {es : List Event} {drive : Nat} (hsearch : Finds es drive) : Turn 0 es drive
  | asked {cached drive : Nat} {es : List Event} {e : Event} (hturn : Turn cached es drive)
      (hdrive : drive ≠ 0) (hto : e.To drive) : Turn cached (es ++ [e]) drive

theorem Finds.ne_zero {es : List Event} {drive : Nat} (h : Finds es drive) : drive ≠ 0 := by
  have hmem := h.found_mem.1
  simp only [searchDrives, List.mem_range'_1] at hmem
  omega

/-- A cached drive stays. -/
theorem Turn.cached_eq {cached cached' : Nat} {es : List Event} (h : Turn cached es cached')
    (hcached : cached ≠ 0) : cached' = cached := by
  induction h with
  | passive hes => rfl
  | found hsearch => exact absurd rfl hcached
  | asked hturn hdrive hto ih => exact ih hcached

/-- Queries that find nothing leave the cache as well founded as it was. -/
theorem Discovered.passive {past es : List Event} {cached : Nat} (h : Discovered past cached)
    (hes : ∀ e ∈ es, e.Passive) : Discovered (past ++ es) cached := by
  cases h with
  | searching hpast =>
    refine .searching fun e he => ?_
    rcases List.mem_append.mp he with he | he
    · exact hpast e he
    · exact hes e he
  | attached hbefore hsearch hafter =>
    rw [List.append_assoc]
    refine .attached hbefore hsearch fun e he => ?_
    rcases List.mem_append.mp he with he | he
    · exact hafter e he
    · exact .inl (hes e he)

/-- A request to the drive that is cached is one to a drive that was found. -/
theorem Discovered.asked {past : List Event} {drive : Nat} {e : Event}
    (h : Discovered past drive) (hdrive : drive ≠ 0) (hto : e.To drive) :
    Discovered (past ++ [e]) drive := by
  cases h with
  | searching hpast => exact absurd rfl hdrive
  | attached hbefore hsearch hafter =>
    rw [List.append_assoc]
    refine .attached hbefore hsearch fun e' he => ?_
    rcases List.mem_append.mp he with he | he
    · exact hafter e' he
    · exact .inr (List.mem_singleton.mp he ▸ hto)

/-- One turn of the program keeps the cache well founded. -/
theorem Discovered.turn {past es : List Event} {cached cached' : Nat}
    (h : Discovered past cached) (hturn : Turn cached es cached') :
    Discovered (past ++ es) cached' := by
  induction hturn with
  | passive hes => exact h.passive hes
  | found hsearch =>
    cases h with
    | searching hpast =>
      rw [← List.append_nil (past ++ _)]
      exact .attached hpast hsearch fun e he => absurd he List.not_mem_nil
    | attached hbefore hearlier hafter => exact absurd rfl hearlier.ne_zero
  | asked hturn hdrive hto ih =>
    rw [← List.append_assoc]
    exact (ih h).asked hdrive hto

section Step

variable {κ : Type} (dos : Dos κ)

theorem searched_passive {wanted : List UInt8 → Bool} {es : List Event} {found : Option Nat}
    (h : Search.Searched Event.Query (Event.Answers wanted) searchDrives es found) :
    ∀ e ∈ es, e.Passive :=
  fun e he => .inr (h.asks e he)

/-- `find_drive` is one turn: it reports what is in the cache after it. -/
theorem findDrive_turn (s : Statics κ) :
    (findDrive dos s).1 = (findDrive dos s).2.cachedDrive ∧
      ∃ es, (findDrive dos s).2.past = s.past ++ es ∧
        Turn s.cachedDrive es (findDrive dos s).2.cachedDrive := by
  rcases findDrive_cases dos s with ⟨-, heq⟩ | ⟨hcached, es, found, hsearched, hret, hdrive, hlog⟩
  · rw [heq]
    exact ⟨rfl, [], (List.append_nil _).symm, .passive fun e he => absurd he List.not_mem_nil⟩
  · refine ⟨hret.trans hdrive.symm, es, hlog, ?_⟩
    rw [hcached, hdrive]
    cases found with
    | none => exact .passive (searched_passive hsearched)
    | some drive => exact .found hsearched

/-- A call that finds the drive and asks it. -/
theorem asked_turn (s : Statics κ) (hdrive : (findDrive dos s).1 ≠ 0) {s' : Statics κ}
    {subfunction : UInt8} {buffer : List UInt8} {reply : IoctlReply}
    (hpast : s'.past = (findDrive dos s).2.past ++
      [.ioctl (findDrive dos s).1 subfunction buffer reply])
    (hcached : s'.cachedDrive = (findDrive dos s).2.cachedDrive) :
    ∃ es, s'.past = s.past ++ es ∧ Turn s.cachedDrive es s'.cachedDrive := by
  obtain ⟨hret, es, hlog, hturn⟩ := findDrive_turn dos s
  refine ⟨es ++ [.ioctl (findDrive dos s).1 subfunction buffer reply], ?_, ?_⟩
  · rw [hpast, hlog, List.append_assoc]
  · rw [hcached]
    rw [hret] at hdrive
    exact .asked hturn hdrive ⟨subfunction, buffer, reply, by rw [hret]⟩

/-- A raw request is one turn: first the drive, then the request to it. -/
theorem nioCall_turn (r : Request) (s : Statics κ) :
    ∃ es, (nioCall dos r s).2.past = s.past ++ es ∧
      Turn s.cachedDrive es (nioCall dos r s).2.cachedDrive := by
  rcases nioCall_cases dos r s with ⟨-, -, reply, hlog, -, hcached, -⟩ | ⟨-, heq⟩
  · refine ⟨_, hlog, hcached ▸ .passive fun e he => ?_⟩
    exact .inl ⟨r, reply, List.mem_singleton.mp he⟩
  · rw [heq]
    exact ⟨[], (List.append_nil _).symm, .passive fun e he => absurd he List.not_mem_nil⟩

/-- **One call.** -/
theorem step_turn (call : Call) (s : Statics κ) :
    ∃ es, (step dos call s).2.past = s.past ++ es ∧
      Turn s.cachedDrive es (step dos call s).2.cachedDrive := by
  -- a call that asks nothing is a turn of no events
  have hidle : ∃ es, s.past = s.past ++ es ∧ Turn s.cachedDrive es s.cachedDrive :=
    ⟨[], (List.append_nil _).symm, .passive fun e he => absurd he List.not_mem_nil⟩
  cases call with
  | findDrive => exact (findDrive_turn dos s).2
  | findDriveForUnit unit =>
    -- a search for a unit asks every drive and caches none
    obtain ⟨es, hlog, hsearched⟩ := search_log dos (signedFor unit) s
    have hcached := search_cachedDrive dos (signedFor unit) s
    simp only [step, findDriveForUnit_eq, Prod.map_snd, id_eq]
    exact ⟨es, hlog, hcached ▸ .passive (searched_passive hsearched)⟩
  | getState block =>
    simp only [step, getState_eq, Prod.map_snd, id_eq]
    split
    · -- no drive was found: the search is all there is
      exact (findDrive_turn dos s).2
    · next hdrive => exact asked_turn dos s hdrive rfl rfl
  | setState uri path =>
    simp only [step, Prod.map_snd, id_eq]
    by_cases hlen : uri.len > fnctlMaxUri ∨ path.len > fnctlMaxPath
    · -- a pair that is too long asks nothing
      rw [setState, if_pos hlen]
      exact hidle
    · rw [setState_eq dos uri path s (by omega) (by omega)]
      exact nioCall_turn dos _ _
  | getUnitSlot unit =>
    simp only [step, getUnitSlot_eq, Prod.map_snd, id_eq]
    split
    · exact (findDrive_turn dos s).2
    · next hdrive => exact asked_turn dos s hdrive rfl rfl
  | setUnitSlot unit slot =>
    simp only [step, setUnitSlot_eq, Prod.map_snd, id_eq]
    split
    · exact (findDrive_turn dos s).2
    · next hdrive => exact asked_turn dos s hdrive rfl rfl
  | nioCall r => exact nioCall_turn dos r s
  | lastDosError => exact hidle

/-- A drive that was returned is cached from then on. -/
theorem outputs_drive (calls : List Call) (s : Statics κ) {drive : Nat}
    (hout : Out.drive drive ∈ Machine.outputs (step dos) calls s) :
    drive = 0 ∨ drive = (Machine.final (step dos) calls s).cachedDrive := by
  induction calls generalizing s with
  | nil => cases hout
  | cons call calls ih =>
    rcases List.mem_cons.mp hout with hfirst | hlater
    · -- only `fnctl_find_drive` has such a result, and it is what is cached when it returns
      cases call with
      | findDrive =>
        have hret := (findDrive_turn dos s).1
        have hdrive : drive = (findDrive dos s).2.cachedDrive := (Out.drive.inj hfirst).trans hret
        by_cases hzero : drive = 0
        · exact .inl hzero
        · refine .inr (Eq.symm ?_)
          refine Machine.final_invariant (fun t : Statics κ => t.cachedDrive = drive)
            (fun call t ht => ?_) hdrive.symm calls
          obtain ⟨es, -, hturn⟩ := step_turn dos call t
          rw [hturn.cached_eq (by rw [ht]; exact hzero), ht]
      | _ => cases hfirst
    · exact ih _ hlater

/-- **One drive.** Whatever DOS answers and whatever is called: the log of the run is that of a
program that has found no drive and sent nothing but queries to any, or of one that sent all else
to the first drive its one search found signed. `fnctl_find_drive` never returns two drives. -/
theorem one_drive (k : κ) (calls : List Call) :
    let s := Machine.final (step dos) calls (initial k)
    Discovered s.past s.cachedDrive ∧
      ∀ drive, Out.drive drive ∈ Machine.outputs (step dos) calls (initial k) →
        drive = 0 ∨ drive = s.cachedDrive := by
  refine ⟨?_, fun drive hout => outputs_drive dos calls (initial k) hout⟩
  refine Machine.final_invariant (fun s : Statics κ => Discovered s.past s.cachedDrive)
    (fun call s hs => ?_) (.searching fun e he => absurd he List.not_mem_nil) calls
  obtain ⟨es, hlog, hturn⟩ := step_turn dos call s
  rw [hlog]
  exact hs.turn hturn

end Step

/-! ## The last error -/

/-- The error of what was asked last. -/
def lastError (past : List Event) : UInt16 := (past.getLast?.map Event.error).getD 0

section LastError

variable {κ : Type} (dos : Dos κ)

/-- What every interrupt and every raw call keeps, every call of the file keeps. -/
theorem step_preserves (P : List Event → UInt16 → Prop)
    (hevent : ∀ past err e, P past err → P (past ++ [e]) e.error) (call : Call) {s : Statics κ}
    (hs : P s.past s.lastDosError) :
    P (step dos call s).2.past (step dos call s).2.lastDosError := by
  -- a call asks for the drive first, and what that preserves is preserved by the rest
  have hfind := findDrive_preserves dos P (fun past err _ _ _ _ h => hevent past err _ h) hs
  have hnio : ∀ r (t : Statics κ), P t.past t.lastDosError →
      P (nioCall dos r t).2.past (nioCall dos r t).2.lastDosError := by
    intro r t ht
    -- the request is made and logged, or refused and not
    rcases nioCall_cases dos r t with ⟨-, -, reply, hlog, herror, -⟩ | ⟨-, heq⟩
    · rw [hlog, herror]
      exact hevent _ _ _ ht
    · rwa [heq]
  cases call with
  | findDrive => exact hfind
  | findDriveForUnit unit =>
    simp only [step, findDriveForUnit_eq, Prod.map_snd, id_eq]
    exact search_preserves dos P (fun past err _ _ _ _ h => hevent past err _ h) _ hs
  | getState block =>
    simp only [step, getState_eq, Prod.map_snd, id_eq]
    split
    · exact hfind
    · exact hevent _ _ _ hfind
  | setState uri path =>
    simp only [step, Prod.map_snd, id_eq]
    by_cases hlen : uri.len > fnctlMaxUri ∨ path.len > fnctlMaxPath
    · rwa [setState, if_pos hlen]
    · rw [setState_eq dos uri path s (by omega) (by omega)]
      exact hnio _ _ hs
  | getUnitSlot unit =>
    simp only [step, getUnitSlot_eq, Prod.map_snd, id_eq]
    split
    · exact hfind
    · exact hevent _ _ _ hfind
  | setUnitSlot unit slot =>
    simp only [step, setUnitSlot_eq, Prod.map_snd, id_eq]
    split
    · exact hfind
    · exact hevent _ _ _ hfind
  | nioCall r => exact hnio r s hs
  | lastDosError => exact hs

/-- **The last error.** After any run `last_dos_error` is what the last interrupt or raw call of the
run left: AX where it came back with carry, the error of a failed raw call, 0 after one that
succeeded. A call that asks nothing leaves it. -/
theorem lastDosError_run (k : κ) (calls : List Call) :
    (Machine.final (step dos) calls (initial k)).lastDosError =
      lastError (Machine.final (step dos) calls (initial k)).past := by
  refine Machine.final_invariant (fun s : Statics κ => s.lastDosError = lastError s.past)
    (fun call s hs => ?_) rfl calls
  refine step_preserves dos (fun past err => err = lastError past) (fun past err e _ => ?_) call hs
  rw [lastError, List.getLast?_concat]
  rfl

end LastError

/-! ## The raw requests -/

/-- The raw requests of a log. -/
def rawRequests (past : List Event) : List Request :=
  past.filterMap fun
    | .ioctl _ _ _ _ => none
    | .raw r _ => some r

/-- The raw request that a call makes. -/
def sentBy : Call → Option Request
  | .setState uri path =>
    if uri.len > fnctlMaxUri ∨ path.len > fnctlMaxPath then none
    else some ⟨0x00, fnctlSetState, stateFrame uri path, 0⟩
  | .nioCall r =>
    if r.frame.length > fnctlMaxData ∨ r.capacity > fnctlMaxData then none else some r
  | _ => none

/-- The two strings of a state frame, as a receiver takes them apart: both lengths stand before
both strings. -/
def readStateFrame (frame : List UInt8) : Option (List UInt8 × List UInt8) := do
  let (uriLen, rest) ← splitU16 frame
  let (pathLen, rest) ← splitU16 rest
  if rest.length = uriLen + pathLen then some (rest.take uriLen, rest.drop uriLen) else none

/-- The frame of a state has four bytes beside the two strings. -/
theorem length_stateFrame (uri path : CStr) :
    (stateFrame uri path).length = 4 + uri.len + path.len := by
  simp only [stateFrame, List.length_append, putU16le_length, CStr.len]

/-- **Round trip of a state frame.** -/
theorem readStateFrame_stateFrame {uri path : CStr} (huri : uri.len ≤ fnctlMaxUri)
    (hpath : path.len ≤ fnctlMaxPath) :
    readStateFrame (stateFrame uri path) = some (uri.bytes, path.bytes) := by
  have huri' : uri.len < 65536 := Nat.lt_of_le_of_lt huri (by decide)
  have hpath' : path.len < 65536 := Nat.lt_of_le_of_lt hpath (by decide)
  simp only [readStateFrame, stateFrame, putU16le_eq, List.append_assoc,
    splitU16_leBytes huri', splitU16_leBytes hpath', Option.bind_eq_bind, Option.bind_some]
  rw [if_pos (by rw [List.length_append]; rfl)]
  show some ((uri.bytes ++ path.bytes).take uri.bytes.length,
    (uri.bytes ++ path.bytes).drop uri.bytes.length) = _
  rw [List.take_left, List.drop_left]

section Requests

variable {κ : Type} (dos : Dos κ)

theorem rawRequests_ioctl (past : List Event) (drive : Nat) (subfunction : UInt8)
    (buffer : List UInt8) (reply : IoctlReply) :
    rawRequests (past ++ [.ioctl drive subfunction buffer reply]) = rawRequests past := by
  rw [rawRequests, List.filterMap_append]
  exact List.append_nil _

theorem rawRequests_raw (past : List Event) (r : Request) (reply : RawReply) :
    rawRequests (past ++ [.raw r reply]) = rawRequests past ++ [r] := by
  rw [rawRequests, List.filterMap_append]
  rfl

theorem rawRequests_findDrive (s : Statics κ) :
    rawRequests (findDrive dos s).2.past = rawRequests s.past :=
  findDrive_preserves dos (fun past _ => rawRequests past = rawRequests s.past)
    (fun past _ _ _ _ _ h => (rawRequests_ioctl past _ _ _ _).trans h) rfl

/-- **`fnctl_set_state`** sends its frame, inside its buffer, or refuses the lengths and does
nothing. -/
theorem setState_cases (uri path : CStr) (s : Statics κ) :
    (uri.len ≤ fnctlMaxUri ∧ path.len ≤ fnctlMaxPath ∧ ∃ reply,
      (setState dos uri path s).2.past =
        s.past ++ [.raw ⟨0x00, fnctlSetState, stateFrame uri path, 0⟩ reply] ∧
      (setState dos uri path s).2.stateRequestBuf =
        memcpy s.stateRequestBuf (stateFrame uri path) ∧
      ((setState dos uri path s).1 = true ↔ ∃ payload, reply = .answered 0 payload)) ∨
    ((uri.len > fnctlMaxUri ∨ path.len > fnctlMaxPath) ∧
      setState dos uri path s = (false, s)) := by
  by_cases hlen : uri.len > fnctlMaxUri ∨ path.len > fnctlMaxPath
  · exact .inr ⟨hlen, if_pos hlen⟩
  · obtain ⟨huri, hpath⟩ := not_or.mp hlen
    have huri' : uri.len ≤ 255 := Nat.le_of_not_gt huri
    have hpath' : path.len ≤ 127 := Nat.le_of_not_gt hpath
    refine .inl ⟨huri', hpath', ?_⟩
    rw [setState_eq dos uri path s huri' hpath']
    -- the frame is short enough for `fnctl_nio_call`
    have hframe : (stateFrame uri path).length ≤ 512 := by
      rw [length_stateFrame]
      omega
    rcases nioCall_cases dos ⟨0x00, fnctlSetState, stateFrame uri path, 0⟩
      { s with stateRequestBuf := memcpy s.stateRequestBuf (stateFrame uri path) } with
      ⟨-, -, reply, hlog, -, -, hbuf, hret⟩ | ⟨hsize, -⟩
    · refine ⟨reply, hlog, hbuf, ?_⟩
      simp only [hret]
      cases reply with
      | failed dosError => simp
      | answered status payload => simp
    · rcases hsize with hsize | hsize
      · exact absurd hframe (Nat.not_le_of_gt hsize)
      · exact absurd hsize (Nat.not_lt_zero _)

/-- **One call** makes the raw request it is to make. -/
theorem step_requests (call : Call) (s : Statics κ) :
    rawRequests (step dos call s).2.past = rawRequests s.past ++ (sentBy call).toList := by
  -- looking for the drive makes no request
  have hfind := rawRequests_findDrive dos s
  have hnone : rawRequests s.past = rawRequests s.past ++ [] := (List.append_nil _).symm
  cases call with
  | findDrive => exact hfind.trans hnone
  | findDriveForUnit unit =>
    simp only [step, findDriveForUnit_eq, Prod.map_snd, id_eq]
    -- queries are not among the requests
    refine Eq.trans ?_ hnone
    exact search_preserves dos (fun past _ => rawRequests past = rawRequests s.past)
      (fun past _ _ _ _ _ h => (rawRequests_ioctl past _ _ _ _).trans h) _ rfl
  | getState block =>
    refine Eq.trans ?_ hnone
    simp only [step, getState_eq, Prod.map_snd, id_eq]
    split
    · exact hfind
    · exact (rawRequests_ioctl _ _ _ _ _).trans hfind
  | setState uri path =>
    simp only [step, Prod.map_snd, id_eq, sentBy]
    rcases setState_cases dos uri path s with
      ⟨huri, hpath, reply, hlog, -⟩ | ⟨hlen, heq⟩
    · -- a pair that fits is the one request of the call
      rw [hlog, if_neg (by omega)]
      exact rawRequests_raw _ _ _
    · rw [heq, if_pos hlen]
      exact hnone
  | getUnitSlot unit =>
    refine Eq.trans ?_ hnone
    simp only [step, getUnitSlot_eq, Prod.map_snd, id_eq]
    split
    · exact hfind
    · exact (rawRequests_ioctl _ _ _ _ _).trans hfind
  | setUnitSlot unit slot =>
    refine Eq.trans ?_ hnone
    simp only [step, setUnitSlot_eq, Prod.map_snd, id_eq]
    split
    · exact hfind
    · exact (rawRequests_ioctl _ _ _ _ _).trans hfind
  | nioCall r =>
    simp only [step, Prod.map_snd, id_eq, sentBy]
    rcases nioCall_cases dos r s with ⟨hframe, hcap, reply, hlog, -⟩ | ⟨hsize, heq⟩
    · rw [hlog, if_neg (by omega)]
      exact rawRequests_raw _ _ _
    · rw [heq, if_pos hsize]
      exact hnone
  | lastDosError => exact hnone

/-- The request buffer keeps its size: nothing is stored past its end. -/
theorem step_stateRequestBuf (call : Call) {s : Statics κ}
    (hs : s.stateRequestBuf.length = fnctlMaxData) :
    (step dos call s).2.stateRequestBuf.length = fnctlMaxData := by
  have hfind : (findDrive dos s).2.stateRequestBuf.length = fnctlMaxData := by
    rw [findDrive_stateRequestBuf, hs]
  cases call with
  | findDrive => exact hfind
  | findDriveForUnit unit =>
    simp only [step, findDriveForUnit_eq, Prod.map_snd, id_eq, search_stateRequestBuf, hs]
  | getState block =>
    simp only [step, getState_eq, Prod.map_snd, id_eq]
    split
    · exact hfind
    · exact hfind
  | setState uri path =>
    simp only [step, Prod.map_snd, id_eq]
    rcases setState_cases dos uri path s with ⟨huri, hpath, reply, -, hbuf, -⟩ | ⟨-, heq⟩
    · -- the frame goes to the front of the buffer and is no longer than it
      have hlen := length_stateFrame uri path
      have huri' : uri.len ≤ 255 := huri
      have hpath' : path.len ≤ 127 := hpath
      have hmax : fnctlMaxData = 512 := rfl
      rw [hbuf, memcpy, List.length_append, List.length_drop]
      omega
    · rwa [heq]
  | getUnitSlot unit =>
    simp only [step, getUnitSlot_eq, Prod.map_snd, id_eq]
    split
    · exact hfind
    · exact hfind
  | setUnitSlot unit slot =>
    simp only [step, setUnitSlot_eq, Prod.map_snd, id_eq]
    split
    · exact hfind
    · exact hfind
  | nioCall r =>
    simp only [step, Prod.map_snd, id_eq]
    rcases nioCall_cases dos r s with ⟨-, -, reply, -, -, -, hbuf, -⟩ | ⟨-, heq⟩
    · rwa [hbuf]
    · rwa [heq]
  | lastDosError => exact hs

/-- What a call sends fits the transport, as do the replies it has room for. -/
theorem sentBy_fits {call : Call} {r : Request} (h : sentBy call = some r) :
    r.frame.length ≤ fnctlMaxData ∧ r.capacity ≤ fnctlMaxData := by
  cases call with
  | setState uri path =>
    rw [sentBy] at h
    split at h
    · -- a pair that is too long sends nothing
      cases h
    next hlen =>
      obtain ⟨huri, hpath⟩ := not_or.mp hlen
      have huri' : uri.len ≤ 255 := Nat.le_of_not_gt huri
      have hpath' : path.len ≤ 127 := Nat.le_of_not_gt hpath
      obtain rfl := Option.some.inj h
      refine ⟨?_, Nat.zero_le _⟩
      show (stateFrame uri path).length ≤ 512
      rw [length_stateFrame]
      omega
  | nioCall r' =>
    rw [sentBy] at h
    split at h
    · cases h
    next hsize =>
      obtain rfl := Option.some.inj h
      omega
  | _ => cases h

end Requests

/-! ## The cache and a search in every call

A client that keeps nothing: it knows where a search would end and asks there. -/

/-- Queries are answered by the drives alone, the same way at any time. -/
structure SettledQueries {κ : Type} (dos : Dos κ) (answer : Nat → IoctlReply) : Prop where
  ioctl_query : ∀ drive ∈ searchDrives, ∀ k,
    dos.ioctl (UInt8.ofNat drive) 0x04 queryRequest k = (answer drive, k)

/-- Whether `wanted` accepts the answer of a drive. -/
def accepts (answer : Nat → IoctlReply) (wanted : List UInt8 → Bool) (drive : Nat) : Bool :=
  !(answer drive).carry && wanted ((answer drive).fill queryRequest)

/-- Where a search ends: the first drive whose answer is wanted, or 0. -/
def driveOf (answer : Nat → IoctlReply) (wanted : List UInt8 → Bool) : Nat :=
  (searchDrives.find? (accepts answer wanted)).getD 0

section Client

variable {κ : Type} (dos : Dos κ) (answer : Nat → IoctlReply)

def clientNioCall (r : Request) (k : κ) : Option (UInt8 × Nat) × κ :=
  if r.frame.length > fnctlMaxData ∨ r.capacity > fnctlMaxData then (none, k)
  else
    match dos.rawCall r k with
    | (.failed _, k) => (none, k)
    | (.answered status payload, k) => (some (status, payload.length), k)

/-- One call of the client, on the state of the other side. -/
def clientStep : Call → κ → Out × κ
  | .findDrive, k => (.drive (driveOf answer signed), k)
  | .findDriveForUnit unit, k => (.unitDrive (driveOf answer (signedFor unit)), k)
  | .getState block, k =>
    if driveOf answer signed = 0 then (.state false block, k)
    else
      let (reply, k) := dos.ioctl (UInt8.ofNat (driveOf answer signed)) 0x04 stateRequest k
      (.state (!reply.carry && signed (reply.fill stateRequest)) (reply.fill stateRequest), k)
  | .setState uri path, k =>
    if uri.len > fnctlMaxUri ∨ path.len > fnctlMaxPath then (.done false, k)
    else
      let (out, k) := clientNioCall dos ⟨0x00, fnctlSetState, stateFrame uri path, 0⟩ k
      (.done (match out with
        | some (status, _) => status == 0
        | none => false), k)
  | .getUnitSlot unit, k =>
    if driveOf answer signed = 0 then (.slot none, k)
    else
      let request := unitMapRequest fnctlGetUnitMap unit 0
      let (reply, k) := dos.ioctl (UInt8.ofNat (driveOf answer signed)) 0x04 request k
      (.slot (if !reply.carry && signed (reply.fill request) then some (slotOf (reply.fill request))
        else none), k)
  | .setUnitSlot unit slot, k =>
    if driveOf answer signed = 0 then (.done false, k)
    else
      let request := unitMapRequest fnctlSetUnitMap unit slot
      let (reply, k) := dos.ioctl (UInt8.ofNat (driveOf answer signed)) 0x05 request k
      (.done (!reply.carry), k)
  | .nioCall r, k => (clientNioCall dos r k).map .answer id
  | .lastDosError, k => (.error 0, k)

/-- All of what a call gives but the answer of `fnctl_last_dos_error`. That answer tells whether a
search was made: `find_drive`, a `nio_call` that fails, `find_drive` and `last_dos_error` give the
error of the search where there is no cache, and that of the failed call where there is one. -/
def Out.report : Out → Out
  | .error _ => .error 0
  | out => out

/-- The backend between calls: `cached_drive` is where a search would end, once there was one. -/
structure Serves (s : Statics κ) (k : κ) : Prop where
  dos_eq : s.dos = k
  cached : s.cachedDrive = 0 ∨ s.cachedDrive = driveOf answer signed

variable {dos answer}

/-- With settled queries every search comes to the same drive and leaves DOS as it was. -/
theorem search_settled (hsettled : SettledQueries dos answer) (wanted : List UInt8 → Bool)
    (s : Statics κ) :
    (Search.firstAccepted (askDrive dos wanted) searchDrives s).1.getD 0 =
        driveOf answer wanted ∧
      (Search.firstAccepted (askDrive dos wanted) searchDrives s).2.dos = s.dos := by
  have hask : ∀ drive ∈ searchDrives, ∀ t, (askDrive dos wanted drive t).1 =
      accepts answer wanted drive ∧ (askDrive dos wanted drive t).2.dos = t.dos := by
    intro drive hdrive t
    have hquery := hsettled.ioctl_query drive hdrive t.dos
    simp only [askDrive, ioctlRecv, ioctlCall, hquery]
    exact ⟨rfl, trivial⟩
  constructor
  · rw [Search.firstAccepted_stationary _ (fun drive hdrive t => (hask drive hdrive t).1)]
    rfl
  · exact Search.firstAccepted_preserves (fun t : Statics κ => t.dos = s.dos)
      (fun drive hdrive t ht => (hask drive hdrive t).2.trans ht) rfl

/-- The drive is the one a search would find, and finding it leaves the other side alone. -/
theorem findDrive_settled (hsettled : SettledQueries dos answer) {s : Statics κ} {k : κ}
    (hs : Serves answer s k) :
    (findDrive dos s).1 = driveOf answer signed ∧ Serves answer (findDrive dos s).2 k := by
  obtain ⟨hfound, hdos⟩ := search_settled hsettled signed s
  have hcached := search_cachedDrive dos signed s
  unfold findDrive
  split
  next hne => exact ⟨hs.cached.resolve_left hne, hs⟩
  next hzero =>
    generalize Search.firstAccepted (askDrive dos signed) searchDrives s = out
      at hfound hdos hcached
    obtain ⟨found, s'⟩ := out
    cases found with
    | none => exact ⟨hfound, hdos.trans hs.dos_eq, .inl (hcached.trans (not_not.mp hzero))⟩
    | some drive => exact ⟨hfound, hdos.trans hs.dos_eq, .inr hfound⟩

variable (dos) in
/-- A raw request with and without the cache: the same reply and the same DOS. -/
theorem nioCall_settled (r : Request) {s : Statics κ} {k : κ} (hs : Serves answer s k) :
    (nioCall dos r s).1 = (clientNioCall dos r k).1 ∧
      Serves answer (nioCall dos r s).2 (clientNioCall dos r k).2 := by
  obtain ⟨rfl, hcached⟩ := hs
  by_cases hsize : r.frame.length > fnctlMaxData ∨ r.capacity > fnctlMaxData
  · rw [nioCall, clientNioCall, if_pos hsize, if_pos hsize]
    exact ⟨rfl, rfl, hcached⟩
  · rw [nioCall, clientNioCall, if_neg hsize, if_neg hsize]
    generalize dos.rawCall r s.dos = out
    obtain ⟨reply, k⟩ := out
    cases reply with
    | failed dosError => exact ⟨rfl, rfl, hcached⟩
    | answered status payload => exact ⟨rfl, rfl, hcached⟩

/-- **One call** reports what the client reports. -/
theorem step_settled (hsettled : SettledQueries dos answer) (call : Call) {s : Statics κ} {k : κ}
    (hs : Serves answer s k) :
    (step dos call s).1.report = (clientStep dos answer call k).1.report ∧
      Serves answer (step dos call s).2 (clientStep dos answer call k).2 := by
  -- with or without the cache the same drive is asked
  obtain ⟨hdrive, hfind⟩ := findDrive_settled hsettled hs
  cases call with
  | findDrive => exact ⟨congrArg (fun d => (Out.drive d).report) hdrive, hfind⟩
  | findDriveForUnit unit =>
    obtain ⟨hfound, hdos⟩ := search_settled hsettled (signedFor unit) s
    have hcached := search_cachedDrive dos (signedFor unit) s
    simp only [step, findDriveForUnit_eq, hfound, clientStep, Prod.map_fst, Prod.map_snd, id_eq]
    exact ⟨trivial, hdos.trans hs.dos_eq, hcached ▸ hs.cached⟩
  | getState block =>
    simp only [step, getState_eq, hdrive, clientStep]
    split
    · exact ⟨rfl, hfind⟩
    · rw [ioctlCall, hfind.dos_eq]
      exact ⟨rfl, rfl, hfind.cached⟩
  | setState uri path =>
    simp only [step, clientStep, Prod.map_fst, Prod.map_snd, id_eq]
    by_cases hlen : uri.len > fnctlMaxUri ∨ path.len > fnctlMaxPath
    · rw [setState, if_pos hlen, if_pos hlen]
      exact ⟨rfl, hs⟩
    · obtain ⟨huri, hpath⟩ := not_or.mp hlen
      rw [setState_eq dos uri path s (Nat.le_of_not_gt huri) (Nat.le_of_not_gt hpath), if_neg hlen]
      -- the buffer plays no part in what DOS answers
      have hbuffered : Serves answer
          { s with stateRequestBuf := memcpy s.stateRequestBuf (stateFrame uri path) } k :=
        ⟨hs.dos_eq, hs.cached⟩
      obtain ⟨hout, hserves⟩ := nioCall_settled dos
        ⟨0x00, fnctlSetState, stateFrame uri path, 0⟩ hbuffered
      dsimp only
      rw [hout]
      exact ⟨rfl, hserves⟩
  | getUnitSlot unit =>
    simp only [step, getUnitSlot_eq, hdrive, clientStep]
    split
    · exact ⟨rfl, hfind⟩
    · rw [ioctlCall, hfind.dos_eq]
      exact ⟨rfl, rfl, hfind.cached⟩
  | setUnitSlot unit slot =>
    simp only [step, setUnitSlot_eq, hdrive, clientStep]
    split
    · exact ⟨rfl, hfind⟩
    · rw [ioctlCall]
      dsimp only
      rw [hfind.dos_eq]
      exact ⟨rfl, rfl, hfind.cached⟩
  | nioCall r =>
    obtain ⟨hout, hserves⟩ := nioCall_settled dos r hs
    exact ⟨congrArg (fun out => (Out.answer out).report) hout, hserves⟩
  | lastDosError => exact ⟨rfl, hs⟩

/-- **The cache is a search in every call.** Where queries are answered by the drives alone and the
same way at any time, only `last_dos_error` can tell the backend from the client that knows where a
search would end: every other call of a run reports the same, and the run leaves the other side in
the same state. -/
theorem client_run (hsettled : SettledQueries dos answer) (k : κ) (calls : List Call) :
    (Machine.outputs (step dos) calls (initial k)).map Out.report =
        (Machine.outputs (clientStep dos answer) calls k).map Out.report ∧
      (Machine.final (step dos) calls (initial k)).dos =
        Machine.final (clientStep dos answer) calls k := by
  obtain ⟨houts, hfinal⟩ := Machine.simulation (Serves answer) Out.report Out.report
    (fun call _ _ hs => step_settled hsettled call hs)
    (show Serves answer (initial k) k from ⟨rfl, .inl rfl⟩) calls
  exact ⟨houts, hfinal.dos_eq⟩

end Client

/-! ### A driver -/

/-- A signed block of `size` bytes of unit 0. -/
def signedBlock (size : Nat) : List UInt8 := memcpy (List.replicate size 0) (0 :: fnctlSignature)

/-- What the drives answer to a query where drive 5 is the only one of a driver. -/
def sampleAnswer (drive : Nat) : IoctlReply :=
  if drive = 5 then ⟨false, 8, signedBlock querySize⟩ else ⟨true, 1, []⟩

/-- DOS with one driver at drive 5, which keeps one slot, and a device that takes every frame. -/
def sampleDos : Dos UInt8 where
  ioctl drive subfunction buffer slot :=
    if drive ≠ 5 then (⟨true, 1, []⟩, slot)
    else if subfunction = 0x05 then (⟨false, 9, []⟩, slotOf buffer)
    else if buffer.length = unitMapSize then (⟨false, 9, (signedBlock unitMapSize).set 8 slot⟩, slot)
    else (⟨false, UInt16.ofNat buffer.length, signedBlock buffer.length⟩, slot)
  rawCall _ slot := (.answered 0 [], slot)

/-- The queries of the sample are settled. -/
theorem sampleDos_settled : SettledQueries sampleDos sampleAnswer where
  ioctl_query drive hdrive k := by
    simp only [searchDrives, List.mem_range'_1] at hdrive
    by_cases hfive : drive = 5
    · subst hfive
      rfl
    · have hne : UInt8.ofNat drive ≠ 5 := by
        intro h
        have hnat := congrArg UInt8.toNat h
        rw [UInt8.toNat_ofNat', show (5 : UInt8).toNat = 5 from rfl] at hnat
        omega
      simp only [sampleDos, sampleAnswer, if_pos hne, if_neg hfive]

/-- The cache for a driver at drive 5 whose slot is set and read back. -/
theorem client_run_sampleDos :
    (Machine.outputs (step sampleDos)
        [.setUnitSlot 0 3, .findDrive, .getUnitSlot 0] (initial 0)).map Out.report =
        (Machine.outputs (clientStep sampleDos sampleAnswer)
          [.setUnitSlot 0 3, .findDrive, .getUnitSlot 0] 0).map Out.report ∧
      (Machine.final (step sampleDos) [.setUnitSlot 0 3, .findDrive, .getUnitSlot 0]
        (initial 0)).dos =
        Machine.final (clientStep sampleDos sampleAnswer)
          [.setUnitSlot 0 3, .findDrive, .getUnitSlot 0] 0 :=
  client_run sampleDos_settled _ _

end NioApps.Fnctl.Msdos
