import Mathlib.Tactic.Common

/-!
# Lib — anchored patterns in the manner of Python's `re`

A pattern is matched at a position of a string, and `ends` lists the positions at which a match
that starts there can stop. `isMatch` is `re.match`: some match starts at the beginning. The
anchor `$` is read as Python reads it without flags: at the end of the string, and before a
newline that ends it. The alphabet is arbitrary, with a newline among its letters.

* `mem_ends_cls`, `mem_ends_seq`, `mem_ends_opt`, `mem_ends_repCls` — one rule for each operator.
* `isMatch_anchored` — what `^…$` accepts: the strings of the pattern between the anchors, and the
  same with one newline after them.
-/

namespace NioApps.Regex

variable {α : Type*}

/-- Patterns: a character class, a sequence, `r{lo,hi}`, `^` and `$`. -/
inductive Pattern (α : Type*) where
  | cls (allowed : α → Bool)
  | seq (r r' : Pattern α)
  | rep (r : Pattern α) (lo hi : Nat)
  | start
  | stop

/-- A position: whether it is the beginning of the string, and what follows it. -/
@[ext] structure Pos (α : Type*) where
  atStart : Bool
  rest : List α

/-- `r?`, written `r{0,1}`. -/
def Pattern.opt (r : Pattern α) : Pattern α := .rep r 0 1

/-- Between `lo` and `hi` steps, as many as can be made first. -/
def repEnds (step : Pos α → List (Pos α)) : Nat → Nat → Pos α → List (Pos α)
  | lo, 0, p => if lo = 0 then [p] else []
  | lo, hi + 1, p =>
    (step p).flatMap (repEnds step (lo - 1) hi) ++ if lo = 0 then [p] else []

/-- No more repetitions: the place where the match stands, if enough have been made. -/
theorem mem_repEnds_zero {step : Pos α → List (Pos α)} {lo : Nat} {p q : Pos α} :
    q ∈ repEnds step lo 0 p ↔ lo = 0 ∧ q = p := by
  unfold repEnds
  split
  next h => simp [h]
  next h => simp [h]

/-- One repetition more, or none. -/
theorem mem_repEnds_succ {step : Pos α → List (Pos α)} {lo hi : Nat} {p q : Pos α} :
    q ∈ repEnds step lo (hi + 1) p ↔
      (∃ m ∈ step p, q ∈ repEnds step (lo - 1) hi m) ∨ lo = 0 ∧ q = p := by
  rw [repEnds, List.mem_append, List.mem_flatMap]
  split
  next h => simp [h]
  next h => simp [h]

section

variable [DecidableEq α] (newline : α)

/-- The positions at which a match from `p` can stop. -/
def ends : Pattern α → Pos α → List (Pos α)
  | .cls allowed, p =>
    match p.rest with
    | [] => []
    | c :: rest => if allowed c then [⟨false, rest⟩] else []
  | .seq r r', p => (ends r p).flatMap (ends r')
  | .rep r lo hi, p => repEnds (ends r) lo hi p
  | .start, p => if p.atStart then [p] else []
  | .stop, p => if p.rest = [] ∨ p.rest = [newline] then [p] else []

/-- `re.match`. -/
def isMatch (r : Pattern α) (s : List α) : Bool := !(ends newline r ⟨true, s⟩).isEmpty

variable {newline}

/-! ## One rule for each operator -/

/-- A class takes one letter that it allows. -/
theorem mem_ends_cls {allowed : α → Bool} {p q : Pos α} :
    q ∈ ends newline (.cls allowed) p ↔
      ∃ c, p.rest = c :: q.rest ∧ allowed c = true ∧ q.atStart = false := by
  obtain ⟨b, rest⟩ := q
  unfold ends
  -- at the end there is no letter to take
  cases p.rest with
  | nil => simp
  | cons c rest' =>
    dsimp only
    split
    next h =>
      simp only [List.mem_singleton, Pos.mk.injEq, List.cons.injEq]
      exact ⟨fun ⟨hb, hrest⟩ => ⟨c, ⟨rfl, hrest.symm⟩, h, hb⟩,
        fun ⟨_, ⟨_, hrest⟩, _, hb⟩ => ⟨hb, hrest.symm⟩⟩
    next h =>
      simp only [List.not_mem_nil, List.cons.injEq, false_iff]
      rintro ⟨c', ⟨rfl, _⟩, hc, _⟩
      exact h hc

theorem mem_ends_seq {r r' : Pattern α} {p q : Pos α} :
    q ∈ ends newline (.seq r r') p ↔ ∃ m ∈ ends newline r p, q ∈ ends newline r' m :=
  List.mem_flatMap

/-- The start matches only there, and takes nothing. -/
theorem mem_ends_start {p q : Pos α} :
    q ∈ ends newline .start p ↔ q = p ∧ p.atStart = true := by
  unfold ends
  split
  next h => simp [h]
  next h => simp [h]

/-- The stop takes nothing. It matches at the end and before a newline at the end. -/
theorem mem_ends_stop {p q : Pos α} :
    q ∈ ends newline .stop p ↔ q = p ∧ (p.rest = [] ∨ p.rest = [newline]) := by
  unfold ends
  split
  next h => simp [h]
  next h => simp [h]

theorem mem_ends_opt {r : Pattern α} {p q : Pos α} :
    q ∈ ends newline r.opt p ↔ q ∈ ends newline r p ∨ q = p := by
  show q ∈ repEnds (ends newline r) 0 1 p ↔ _
  simp [mem_repEnds_succ, mem_repEnds_zero]

/-- A class repeated takes a run of its characters, as long as the bounds say. -/
theorem mem_ends_repCls {allowed : α → Bool} {lo hi : Nat} {p q : Pos α} :
    q ∈ ends newline (.rep (.cls allowed) lo hi) p ↔
      ∃ w, p.rest = w ++ q.rest ∧ lo ≤ w.length ∧ w.length ≤ hi ∧
        (∀ c ∈ w, allowed c = true) ∧ q.atStart = (p.atStart && w.isEmpty) := by
  show q ∈ repEnds (ends newline (.cls allowed)) lo hi p ↔ _
  -- induction on the upper bound: a first character and a run below it, or nothing
  induction hi generalizing lo p with
  | zero =>
    rw [mem_repEnds_zero]
    constructor
    · rintro ⟨rfl, rfl⟩
      exact ⟨[], by simp⟩
    · rintro ⟨w, hrest, hlo, hhi, -, hstart⟩
      obtain rfl : w = [] := List.eq_nil_of_length_eq_zero (by omega)
      exact ⟨by simpa using hlo, Pos.ext (by simpa using hstart) hrest.symm⟩
  | succ hi ih =>
    rw [mem_repEnds_succ]
    constructor
    · rintro (⟨m, hm, hq⟩ | ⟨rfl, rfl⟩)
      · obtain ⟨c, hp, hc, hstart⟩ := mem_ends_cls.mp hm
        obtain ⟨w, hrest, hlo, hhi, hall, hq⟩ := ih.mp hq
        refine ⟨c :: w, by rw [hp, hrest, List.cons_append], ?_, ?_, ?_, ?_⟩
        · rw [List.length_cons]
          omega
        · rw [List.length_cons]
          omega
        · exact List.forall_mem_cons.mpr ⟨hc, hall⟩
        · simp [hq, hstart]
      · exact ⟨[], by simp⟩
    · rintro ⟨w, hrest, hlo, hhi, hall, hstart⟩
      cases w with
      | nil =>
        refine .inr ⟨by simpa using hlo, ?_⟩
        exact Pos.ext (by simpa using hstart) hrest.symm
      | cons c w =>
        have hall' := List.forall_mem_cons.mp hall
        rw [List.length_cons] at hlo hhi
        refine .inl ⟨⟨false, w ++ q.rest⟩, mem_ends_cls.mpr ⟨c, hrest, hall'.1, rfl⟩, ih.mpr ?_⟩
        exact ⟨w, rfl, by omega, by omega, hall'.2, by simpa using hstart⟩

/-- **What `^r$` accepts.** A match of `r` from the beginning that leaves nothing, or a newline. -/
theorem isMatch_anchored (r : Pattern α) (s : List α) :
    isMatch newline (.seq .start (.seq r .stop)) s = true ↔
      ∃ q ∈ ends newline r ⟨true, s⟩, q.rest = [] ∨ q.rest = [newline] := by
  have hends : isMatch newline (.seq .start (.seq r .stop)) s = true ↔
      ∃ q, q ∈ ends newline (.seq .start (.seq r .stop)) ⟨true, s⟩ := by
    rw [isMatch, Bool.not_eq_true', List.isEmpty_eq_false_iff_exists_mem]
  rw [hends]
  constructor
  · rintro ⟨q, hq⟩
    obtain ⟨m, hm, hq⟩ := mem_ends_seq.mp hq
    obtain ⟨rfl, -⟩ := mem_ends_start.mp hm
    obtain ⟨m, hm, hq⟩ := mem_ends_seq.mp hq
    exact ⟨m, hm, (mem_ends_stop.mp hq).2⟩
  · rintro ⟨q, hq, hrest⟩
    refine ⟨q, mem_ends_seq.mpr ⟨_, mem_ends_start.mpr ⟨rfl, rfl⟩, ?_⟩⟩
    exact mem_ends_seq.mpr ⟨q, hq, mem_ends_stop.mpr ⟨rfl, hrest⟩⟩

end

end NioApps.Regex
