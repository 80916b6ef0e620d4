import NioApps.Lib.Regex

/-!
# Msdos — `validate_fat83` and `validate_label`

The two validators of `create_msdos_img.py`: a name is upper-cased and held against an anchored
regular expression. The expressions end in `$`, which Python also lets match before a newline at
the end of the string, so a valid name followed by one newline is accepted as well.

* `PyStr`, `StrCase` — strings as sequences of code points, and `str.upper` and `str.lower`.
* `Fat83Name`, `LabelName` — the two grammars, stated apart from the expressions.
* `validators_exact_iff` — the validators accept exactly their grammars on the strings whose upper
  case is not a valid name with a newline after it.
-/

namespace NioApps.Msdos

open Regex

/-- A Python string: its code points, lone surrogates among them. -/
abbrev PyStr := List Nat

/-- The code points of a literal. -/
def lit (s : String) : PyStr := s.toList.map Char.toNat

/-- `str.upper` and `str.lower`. -/
structure StrCase where
  upper : PyStr → PyStr
  lower : PyStr → PyStr

/-- The path of a host file below the input folder: the names on the way to it. -/
abbrev HostPath := List PyStr

/-- The two `ValueError`s, with what their messages report. -/
inductive ValueError where
  | volumeLabel (label : PyStr)
  | imageName (source : HostPath) (name : PyStr)
  deriving DecidableEq

/-! ## The expressions -/

/-- `[A-Z0-9!#$%&'()@^_backtick{}~-]`, with a backtick in its place. -/
def fatChar (c : Nat) : Bool :=
  (65 ≤ c && c ≤ 90) || (48 ≤ c && c ≤ 57) || (lit "!#$%&'()@^_`\x7b\x7d~-").contains c

def isDot (c : Nat) : Bool := c == 46

/-- The line feed, before which `$` matches at the end of a string. -/
def newline : Nat := 10

/-- `[…]{1,8}(?:\.[…]{1,3})?` -/
def fat83Body : Pattern Nat :=
  .seq (.rep (.cls fatChar) 1 8) (.opt (.seq (.cls isDot) (.rep (.cls fatChar) 1 3)))

/-- `FAT83_RE`. -/
def fat83Re : Pattern Nat := .seq .start (.seq fat83Body .stop)

/-- `LABEL_RE`. -/
def labelRe : Pattern Nat := .seq .start (.seq (.rep (.cls fatChar) 1 11) .stop)

/-- What the two validators share: the upper case, held against an expression. -/
def validated (py : StrCase) (re : Pattern Nat) (refused : ValueError) (s : PyStr) :
    Except ValueError PyStr :=
  let upper := py.upper s
  if isMatch newline re upper = false then .error refused
  else .ok upper

def validateLabel (py : StrCase) (label : PyStr) : Except ValueError PyStr :=
  validated py labelRe (.volumeLabel label) label

def validateFat83 (py : StrCase) (name : PyStr) (source : HostPath) : Except ValueError PyStr :=
  validated py fat83Re (.imageName source name) name

/-! ## The grammars -/

/-- A run of `lo` to `hi` allowed characters. -/
def FatRun (lo hi : Nat) (s : PyStr) : Prop :=
  lo ≤ s.length ∧ s.length ≤ hi ∧ ∀ c ∈ s, fatChar c = true

/-- One to eight allowed characters, and optionally a dot and one to three more. -/
def Fat83Name (s : PyStr) : Prop :=
  FatRun 1 8 s ∨ ∃ base ext, FatRun 1 8 base ∧ FatRun 1 3 ext ∧ s = base ++ 46 :: ext

/-- One to eleven allowed characters. -/
def LabelName (s : PyStr) : Prop := FatRun 1 11 s

/-- A validator is exact at `s`: it accepts `s` when the upper case is `Valid` and only then, and
what it returns has only allowed characters. -/
structure Exact (outcome : Except ValueError PyStr) (Valid : PyStr → Prop) (allowed : Nat → Bool)
    (upper : PyStr) : Prop where
  accepts_iff : (∃ t, outcome = .ok t) ↔ Valid upper
  clean : ∀ t, outcome = .ok t → ∀ c ∈ t, allowed c = true

/-- What is asked of `validate_fat83` on a name. -/
def Fat83Exact (py : StrCase) (name : PyStr) (source : HostPath) : Prop :=
  Exact (validateFat83 py name source) Fat83Name (fun c => fatChar c || isDot c) (py.upper name)

/-- What is asked of `validate_label` on a label. -/
def LabelExact (py : StrCase) (label : PyStr) : Prop :=
  Exact (validateLabel py label) LabelName fatChar (py.upper label)

/-- A string of the grammar with a newline after it. -/
def TrailingNewline (Valid : PyStr → Prop) (s : PyStr) : Prop :=
  ∃ name, Valid name ∧ s = name ++ [newline]

/-! ## What the expressions match -/

/-- A run of FAT characters matches where such a run stands. -/
theorem mem_ends_fatRun {lo hi : Nat} {p q : Pos Nat} :
    q ∈ ends newline (.rep (.cls fatChar) lo hi) p ↔
      ∃ w, p.rest = w ++ q.rest ∧ FatRun lo hi w ∧ q.atStart = (p.atStart && w.isEmpty) := by
  rw [mem_ends_repCls]
  unfold FatRun
  constructor
  · rintro ⟨w, hrest, hlo, hhi, hall, hstart⟩
    exact ⟨w, hrest, ⟨hlo, hhi, hall⟩, hstart⟩
  · rintro ⟨w, hrest, ⟨hlo, hhi, hall⟩, hstart⟩
    exact ⟨w, hrest, hlo, hhi, hall, hstart⟩

/-- From the beginning of `s` a label leaves what is left after a run of 1 to 11. -/
theorem exists_mem_ends_fatRun {lo hi : Nat} {s rest : PyStr} :
    (∃ q ∈ ends newline (.rep (.cls fatChar) lo hi) ⟨true, s⟩, q.rest = rest) ↔
      ∃ w, FatRun lo hi w ∧ s = w ++ rest := by
  constructor
  · rintro ⟨q, hq, rfl⟩
    obtain ⟨w, hrest, hrun, -⟩ := mem_ends_fatRun.mp hq
    exact ⟨w, hrun, hrest⟩
  · rintro ⟨w, hrun, rfl⟩
    exact ⟨⟨w.isEmpty, rest⟩, mem_ends_fatRun.mpr ⟨w, rfl, hrun, by simp⟩, rfl⟩

/-- From the beginning of `s` the expression for names leaves what is left after a name. -/
theorem exists_mem_ends_fat83Body {s rest : PyStr} :
    (∃ q ∈ ends newline fat83Body ⟨true, s⟩, q.rest = rest) ↔
      ∃ name, Fat83Name name ∧ s = name ++ rest := by
  constructor
  · rintro ⟨q, hq, rfl⟩
    obtain ⟨m, hm, hq⟩ := mem_ends_seq.mp hq
    obtain ⟨base, hbase, hrun, -⟩ := mem_ends_fatRun.mp hm
    rcases mem_ends_opt.mp hq with hq | rfl
    · -- a dot and an extension
      obtain ⟨m', hm', hq⟩ := mem_ends_seq.mp hq
      obtain ⟨c, hdot, hc, -⟩ := mem_ends_cls.mp hm'
      obtain ⟨ext, hext, hrun', -⟩ := mem_ends_fatRun.mp hq
      obtain rfl : c = 46 := beq_iff_eq.mp hc
      refine ⟨base ++ 46 :: ext, .inr ⟨base, ext, hrun, hrun', rfl⟩, ?_⟩
      rw [List.append_assoc, List.cons_append, ← hext, ← hdot]
      exact hbase
    · exact ⟨base, .inl hrun, hbase⟩
  · rintro ⟨name, hrun | ⟨base, ext, hrun, hrun', rfl⟩, rfl⟩
    · -- a name without an extension
      refine ⟨⟨name.isEmpty, rest⟩, mem_ends_seq.mpr ⟨⟨name.isEmpty, rest⟩, ?_, ?_⟩, rfl⟩
      · exact mem_ends_fatRun.mpr ⟨name, rfl, hrun, by simp⟩
      · exact mem_ends_opt.mpr (.inr rfl)
    · -- a name with one: the dot between the two runs
      refine ⟨⟨false, rest⟩, mem_ends_seq.mpr ⟨⟨base.isEmpty, 46 :: ext ++ rest⟩, ?_, ?_⟩, rfl⟩
      · exact mem_ends_fatRun.mpr ⟨base, by simp, hrun, by simp⟩
      · refine mem_ends_opt.mpr (.inl (mem_ends_seq.mpr ⟨⟨false, ext ++ rest⟩, ?_, ?_⟩))
        · exact mem_ends_cls.mpr ⟨46, rfl, rfl, rfl⟩
        · exact mem_ends_fatRun.mpr ⟨ext, rfl, hrun', by simp⟩

/-! ## When a validator is exact -/

section

variable {body : Pattern Nat} {Valid : PyStr → Prop}

/-- A pattern between the anchors accepts its strings, and each with a newline after it. -/
theorem isMatch_iff
    (hbody : ∀ s rest, (∃ q ∈ ends newline body ⟨true, s⟩, q.rest = rest) ↔
      ∃ name, Valid name ∧ s = name ++ rest) (s : PyStr) :
    isMatch newline (.seq .start (.seq body .stop)) s = true ↔
      Valid s ∨ TrailingNewline Valid s := by
  have hwhole : Valid s ↔ ∃ name, Valid name ∧ s = name ++ [] := by simp
  rw [isMatch_anchored, hwhole, TrailingNewline, ← hbody s [], ← hbody s [newline]]
  simp only [and_or_left, exists_or]

variable {py : StrCase} {refused : ValueError} {s : PyStr}

/-- What a validator accepts, and what it returns. -/
theorem validated_ok
    (hbody : ∀ s rest, (∃ q ∈ ends newline body ⟨true, s⟩, q.rest = rest) ↔
      ∃ name, Valid name ∧ s = name ++ rest) {t : PyStr} :
    validated py (.seq .start (.seq body .stop)) refused s = .ok t ↔
      t = py.upper s ∧ (Valid t ∨ TrailingNewline Valid t) := by
  have hmatch := isMatch_iff hbody (py.upper s)
  unfold validated
  dsimp only
  split
  next h =>
    constructor
    · -- the expression does not match, so the name was refused
      intro herr
      cases herr
    · rintro ⟨rfl, hvalid⟩
      cases h.symm.trans (hmatch.mpr hvalid)
  -- it matches: the upper case is returned
  next h =>
    have haccept := hmatch.mp (eq_true_of_ne_false h)
    constructor
    · intro hok
      cases hok
      exact ⟨rfl, haccept⟩
    · rintro ⟨rfl, -⟩
      rfl

/-- A validator whose grammar has no newline is exact where no newline trails. -/
theorem validated_exact_iff {allowed : Nat → Bool}
    (hbody : ∀ s rest, (∃ q ∈ ends newline body ⟨true, s⟩, q.rest = rest) ↔
      ∃ name, Valid name ∧ s = name ++ rest)
    (hclean : ∀ t, Valid t → ∀ c ∈ t, allowed c = true) (hnewline : allowed newline = false) :
    Exact (validated py (.seq .start (.seq body .stop)) refused s) Valid allowed (py.upper s) ↔
      ¬ TrailingNewline Valid (py.upper s) := by
  constructor
  · -- a newline would be kept, though no valid name has one
    rintro ⟨-, hkept⟩ htrail
    have hok : validated py (.seq .start (.seq body .stop)) refused s = .ok (py.upper s) :=
      (validated_ok hbody).mpr ⟨rfl, .inr htrail⟩
    obtain ⟨name, -, hname⟩ := htrail
    have hmem : newline ∈ py.upper s := by simp [hname]
    have hallowed := hkept _ hok newline hmem
    rw [hnewline] at hallowed
    cases hallowed
  · -- without it only the grammar is left of the match
    intro hnone
    have hvalid : ∀ t, validated py (.seq .start (.seq body .stop)) refused s = .ok t →
        t = py.upper s ∧ Valid t := by
      intro t hok
      obtain ⟨rfl, hname | htrail⟩ := (validated_ok hbody).mp hok
      · exact ⟨rfl, hname⟩
      · exact absurd htrail hnone
    refine ⟨⟨?_, fun hname => ⟨_, (validated_ok hbody).mpr ⟨rfl, .inl hname⟩⟩⟩, ?_⟩
    · rintro ⟨t, hok⟩
      obtain ⟨rfl, hname⟩ := hvalid t hok
      exact hname
    · exact fun t hok => hclean t (hvalid t hok).2

end

/-- A FAT name has no other characters than these and the dot. -/
theorem Fat83Name.clean {s : PyStr} (h : Fat83Name s) :
    ∀ c ∈ s, (fatChar c || isDot c) = true := by
  intro c hc
  rcases h with hrun | ⟨base, ext, hbase, hext, rfl⟩
  · simp [hrun.2.2 c hc]
  · rcases List.mem_append.mp hc with hc | hc
    · simp [hbase.2.2 c hc]
    · rcases List.mem_cons.mp hc with rfl | hc
      · simp [isDot]
      · simp [hext.2.2 c hc]

/-- An upper-cased name that `validate_fat83` accepts. -/
def Accepted (upper : PyStr) : Prop := Fat83Name upper ∨ TrailingNewline Fat83Name upper

/-- What `validate_fat83` accepts, and what it returns. -/
theorem validateFat83_ok {py : StrCase} {name t : PyStr} {source : HostPath} :
    validateFat83 py name source = .ok t ↔ t = py.upper name ∧ Accepted t :=
  validated_ok fun _ _ => exists_mem_ends_fat83Body

/-- **When the validators accept exactly their grammars.** A string whose upper case is a valid name
or a valid label and one newline after it is accepted all the same, newline and all; on every other
string the two agree with their grammars. -/
theorem validators_exact_iff (py : StrCase) (s : PyStr) (source : HostPath) :
    (Fat83Exact py s source ↔ ¬ TrailingNewline Fat83Name (py.upper s)) ∧
      (LabelExact py s ↔ ¬ TrailingNewline LabelName (py.upper s)) :=
  ⟨validated_exact_iff (fun _ _ => exists_mem_ends_fat83Body) (fun _ hname => hname.clean)
      (by decide),
    validated_exact_iff (fun _ _ => exists_mem_ends_fatRun) (fun _ hrun => hrun.2.2)
      (by decide)⟩

/-- `str.upper` and `str.lower` on strings of ASCII letters. -/
def asciiCase : StrCase where
  upper s := s.map fun c => if 97 ≤ c && c ≤ 122 then c - 32 else c
  lower s := s.map fun c => if 65 ≤ c && c ≤ 90 then c + 32 else c

/-- `"foo\n"` is taken by both validators and handed on with its newline. -/
theorem validators_keep_newline :
    validateFat83 asciiCase (lit "foo" ++ [newline]) [lit "foo" ++ [newline]] =
        .ok (lit "FOO" ++ [newline]) ∧
      validateLabel asciiCase (lit "foo" ++ [newline]) = .ok (lit "FOO" ++ [newline]) ∧
      ¬ Fat83Exact asciiCase (lit "foo" ++ [newline]) [lit "foo" ++ [newline]] ∧
      ¬ LabelExact asciiCase (lit "foo" ++ [newline]) := by
  have hname : validateFat83 asciiCase (lit "foo" ++ [newline]) [lit "foo" ++ [newline]] =
      .ok (lit "FOO" ++ [newline]) := by decide
  have hlabel : validateLabel asciiCase (lit "foo" ++ [newline]) =
      .ok (lit "FOO" ++ [newline]) := by decide
  refine ⟨hname, hlabel, ?_, ?_⟩
  · intro hexact
    have hclean := hexact.clean _ hname newline (by decide)
    revert hclean
    decide
  · intro hexact
    have hclean := hexact.clean _ hlabel newline (by decide)
    revert hclean
    decide

end NioApps.Msdos
