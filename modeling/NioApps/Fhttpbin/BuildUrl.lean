import NioApps.Fhttpbin.Library
import Mathlib.Data.Vector.Basic

/-!
# Fhttpbin — `build_url`

One test of the lengths, made for the branch that adds a slash, guards three branches.

* `buildUrl` — the function, over the bytes of `url_buf`.
* `joined` — base and path joined by exactly one slash.
* `buildUrl_exact` — what is accepted, and what then stands in `url_buf`.
-/

namespace NioApps.Fhttpbin

/-- The character `/`. -/
def slash : UInt8 := 0x2F

/-- `url_buf`. -/
abbrev UrlBuf (build : Build) := List.Vector UInt8 (build.urlMax + 1)

/-- The two arguments of `build_url`: strings that stand beside each other and beside `url_buf` in a
memory whose sizes are counted in `sizeBits` bits. -/
structure UrlArgs (build : Build) where
  sizeBits : Nat
  baseUrl : CStr
  path : CStr
  standing : (baseUrl.len + 1) + (path.len + 1) + (build.urlMax + 1) ≤ 2 ^ sizeBits

/-- `build_url`: its result and `url_buf`. -/
def buildUrl {build : Build} (args : UrlArgs build) (urlBuf : List UInt8) : Bool × List UInt8 :=
  let baseUrl := args.baseUrl.bytes
  let path := args.path.bytes
  let baseLen := args.baseUrl.len
  let pathLen := args.path.len
  let slashBase := 0 < baseLen ∧ baseUrl[baseLen - 1]? = some slash
  let slashPath := 0 < pathLen ∧ path[0]? = some slash
  if build.urlMax + 1 < (baseLen + pathLen + 2) % 2 ^ args.sizeBits then (false, urlBuf)
  else
    let urlBuf := strcpy urlBuf baseUrl
    if slashBase ∧ slashPath then (true, strcat urlBuf (path.drop 1))
    else if ¬ slashBase ∧ ¬ slashPath then (true, strcat (strcat urlBuf [slash]) path)
    else (true, strcat urlBuf path)

/-! ## The joined string -/

/-- A string without one trailing slash, if it has one. -/
def withoutTrailing (s : List UInt8) : List UInt8 :=
  if s.getLast? = some slash then s.dropLast else s

/-- A string without one leading slash, if it has one. -/
def withoutLeading (s : List UInt8) : List UInt8 :=
  if s.head? = some slash then s.tail else s

/-- The base without its trailing slash, a slash, and the path without its leading slash. -/
def joined (baseUrl path : CStr) : List UInt8 :=
  withoutTrailing baseUrl.bytes ++ slash :: withoutLeading path.bytes

/-- What is asked of `build_url` where it is to accept the arguments just when `accepts` holds. -/
structure JoinsExactly {build : Build} (args : UrlArgs build) (urlBuf : UrlBuf build)
    (accepts : Prop) : Prop where
  accepts_iff : (buildUrl args urlBuf.toList).1 = true ↔ accepts
  holds : accepts → (buildUrl args urlBuf.toList).2 =
    joined args.baseUrl args.path ++
      0 :: urlBuf.toList.drop ((joined args.baseUrl args.path).length + 1)
  inBuffer : (buildUrl args urlBuf.toList).2.length = build.urlMax + 1
  unchanged : ¬ accepts → (buildUrl args urlBuf.toList).2 = urlBuf.toList

/-! ## The three branches -/

section

variable {s t : List UInt8}

/-- The test of the code for a slash at the end of the base URL. -/
theorem trailing_iff : (0 < s.length ∧ s[s.length - 1]? = some slash) ↔
    s.getLast? = some slash := by
  rw [List.getLast?_eq_getElem?]
  constructor
  · exact And.right
  · intro hlast
    refine ⟨?_, hlast⟩
    cases s with
    | nil => cases hlast
    | cons c s => exact Nat.succ_pos _

/-- The test of the code for a slash at the start of the path. -/
theorem leading_iff : (0 < t.length ∧ t[0]? = some slash) ↔ t.head? = some slash := by
  rw [List.head?_eq_getElem?]
  constructor
  · exact And.right
  · intro hfirst
    refine ⟨?_, hfirst⟩
    cases t with
    | nil => cases hfirst
    | cons c t => exact Nat.succ_pos _

theorem withoutTrailing_append (hs : s.getLast? = some slash) (t : List UInt8) :
    withoutTrailing s ++ slash :: t = s ++ t := by
  rw [withoutTrailing, if_pos hs]
  have hlast := List.dropLast_append_getLast? slash hs
  rw [← List.singleton_append, ← List.append_assoc, hlast]

theorem slash_withoutLeading (ht : t.head? = some slash) : slash :: withoutLeading t = t := by
  rw [withoutLeading, if_pos ht]
  exact List.cons_head?_tail ht

end

section

variable {build : Build} (args : UrlArgs build)

/-- No way of joining the two adds more than one slash. -/
theorem joined_length_le :
    (joined args.baseUrl args.path).length ≤ args.baseUrl.len + args.path.len + 1 := by
  have hbase : (withoutTrailing args.baseUrl.bytes).length ≤ args.baseUrl.len := by
    rw [withoutTrailing]
    split
    next => rw [List.length_dropLast]; exact Nat.sub_le _ _
    next => exact Nat.le_refl _
  have hpath : (withoutLeading args.path.bytes).length ≤ args.path.len := by
    rw [withoutLeading]
    split
    next => rw [List.length_tail]; exact Nat.sub_le _ _
    next => exact Nat.le_refl _
  rw [joined, List.length_append, List.length_cons]
  omega

/-- A string appended to one that was copied. -/
theorem strcat_strcpy (dst : List UInt8) {front : List UInt8} (hnul : 0 ∉ front)
    (src : List UInt8) : strcat (strcpy dst front) src = strcpy dst (front ++ src) := by
  rw [strcpy_eq, strcpy_eq, strcat_eq hnul, List.drop_drop, List.length_append,
    Nat.add_right_comm]

/-- What `build_url` computes: the joined string is copied when the lengths pass the test. -/
theorem buildUrl_eq (urlBuf : List UInt8) :
    buildUrl args urlBuf =
      if args.baseUrl.len + args.path.len + 1 ≤ build.urlMax then
        (true, strcpy urlBuf (joined args.baseUrl args.path))
      else (false, urlBuf) := by
  have hfits := args.standing
  have hnul := args.baseUrl.nulFree
  -- neither does the base with the slash that is added
  have hnul' : 0 ∉ args.baseUrl.bytes ++ [slash] := by
    rw [List.mem_append]
    rintro (hmem | hmem)
    · exact hnul hmem
    · exact absurd (List.mem_singleton.mp hmem) (by decide)
  unfold CStr.len at hfits ⊢
  unfold buildUrl CStr.len
  simp only [trailing_iff, leading_iff, joined]
  -- the sum of the lengths does not wrap: both strings stand in memory beside `url_buf`
  rw [Nat.mod_eq_of_lt (by omega)]
  rcases Nat.lt_or_ge (build.urlMax + 1) (args.baseUrl.bytes.length + args.path.bytes.length + 2)
    with hlong | hshort
  · rw [if_pos hlong, if_neg (by omega)]
  have hfit : args.baseUrl.bytes.length + args.path.bytes.length + 1 ≤ build.urlMax := by omega
  rw [if_neg (Nat.not_lt.mpr hshort), if_pos hfit]
  by_cases hb : args.baseUrl.bytes.getLast? = some slash
  · rw [withoutTrailing_append hb]
    by_cases hp : args.path.bytes.head? = some slash
    · -- two slashes merged
      rw [if_pos ⟨hb, hp⟩, strcat_strcpy _ hnul, withoutLeading, if_pos hp, List.drop_one]
    · -- the slash of the base kept
      rw [if_neg fun hboth => hp hboth.2, if_neg fun hnone => hnone.1 hb, strcat_strcpy _ hnul,
        withoutLeading, if_neg hp]
  · rw [withoutTrailing, if_neg hb, if_neg fun hboth => hb hboth.1]
    by_cases hp : args.path.bytes.head? = some slash
    · -- the slash of the path kept
      rw [if_neg fun hnone => hnone.2 hp, strcat_strcpy _ hnul, slash_withoutLeading hp]
    · -- a slash added
      rw [if_pos ⟨hb, hp⟩, strcat_strcpy _ hnul, strcat_strcpy _ hnul', withoutLeading, if_neg hp,
        List.append_assoc, List.singleton_append]

end

/-- **What `build_url` accepts, and what it leaves.** It accepts the arguments whose lengths and one
slash fit, however the strings meet, and then leaves exactly the joined string with its terminator;
otherwise it leaves `url_buf` as it was. -/
theorem buildUrl_exact {build : Build} (args : UrlArgs build) (urlBuf : UrlBuf build) :
    JoinsExactly args urlBuf (args.baseUrl.len + args.path.len + 1 ≤ build.urlMax) := by
  have hsize : urlBuf.toList.length = build.urlMax + 1 := urlBuf.toList_length
  have hjoined := joined_length_le args
  refine ⟨?_, fun hfits => ?_, ?_, fun hlong => ?_⟩
  · rw [buildUrl_eq]
    split
    next hfits => exact ⟨fun _ => hfits, fun _ => rfl⟩
    next hlong => exact ⟨fun hfalse => (by cases hfalse), fun hfits => absurd hfits hlong⟩
  · rw [buildUrl_eq, if_pos hfits, strcpy_eq]
  · rw [buildUrl_eq]
    split
    next hfits =>
      rw [strcpy_eq, List.length_append, List.length_cons, List.length_drop, hsize]
      omega
    next => exact hsize
  · rw [buildUrl_eq, if_neg hlong]

theorem letters_nulFree (n : Nat) : (0 : UInt8) ∉ List.replicate n 0x62 := by
  rw [List.mem_replicate]
  exact fun hmem => absurd hmem.2 (by decide)

/-- A base of `a/` and a path of 126 letters, which keep one slash: the joined string has as many
characters as `url_buf` holds on cc65. -/
def longestKept : UrlArgs .cc65 where
  sizeBits := 16
  baseUrl := ⟨[0x61, slash], by decide⟩
  path := ⟨List.replicate 126 0x62, letters_nulFree 126⟩
  standing := by simp only [CStr.len, List.length_replicate]; decide

/-- A string that fills `url_buf` is refused where no slash is added. -/
theorem buildUrl_refuses_longestKept :
    (joined longestKept.baseUrl longestKept.path).length = Build.cc65.urlMax ∧
      ¬ JoinsExactly longestKept (List.Vector.replicate _ 0)
        ((joined longestKept.baseUrl longestKept.path).length ≤ Build.cc65.urlMax) := by
  have hpath : longestKept.path.bytes = List.replicate 126 0x62 := rfl
  have hlen : (joined longestKept.baseUrl longestKept.path).length = Build.cc65.urlMax := by
    rw [joined, hpath, withoutLeading, if_neg (by decide), List.length_append, List.length_cons,
      List.length_replicate]
    rfl
  refine ⟨hlen, fun hexact => ?_⟩
  have haccepted := hexact.accepts_iff.mpr (Nat.le_of_eq hlen)
  rw [buildUrl_eq, CStr.len, CStr.len, hpath, List.length_replicate, if_neg (by decide)] at haccepted
  cases haccepted

end NioApps.Fhttpbin
