import Mathlib.Data.List.Infix
import Mathlib.Data.List.TakeWhile

/-!
# Lib — C strings in character arrays

A character array is the list of its bytes. `memcpy dst src` copies `src` over the start of
`dst`; the list it gives is longer than `dst` exactly when the copy runs past the array, so
"the length is unchanged" is the statement that it does not. `cstr` is the string a reader
of the array sees, up to the first NUL.
-/

namespace NioApps

/-- A C string: bytes without a NUL. -/
structure CStr where
  bytes : List UInt8
  nulFree : 0 ∉ bytes
  deriving DecidableEq

def CStr.len (s : CStr) : Nat := s.bytes.length

def CStr.empty : CStr := ⟨[], by simp⟩

/-- The C string at the start of a character array. -/
def cstr (arr : List UInt8) : List UInt8 := arr.takeWhile (· ≠ 0)

/-- `strlen` of a character array. -/
def strlen (arr : List UInt8) : Nat := (cstr arr).length

/-- `memcpy(dst, src, n)` for the `n` bytes `src`. -/
def memcpy (dst src : List UInt8) : List UInt8 := src ++ dst.drop src.length

/-- `memcpy(dst, src, n); dst[n] = 0;` -/
def storeStr (dst src : List UInt8) : List UInt8 := (memcpy dst src).set src.length 0

/-- A list without a NUL is read whole. -/
theorem cstr_of_nulFree {s : List UInt8} (h : 0 ∉ s) : cstr s = s := by
  unfold cstr
  rw [List.takeWhile_eq_self_iff]
  intro b hb
  have hne : b ≠ 0 := fun hz => h (hz ▸ hb)
  simpa using hne

/-- Nothing after a NUL is read. -/
theorem cstr_append_nul (s rest : List UInt8) : cstr (s ++ 0 :: rest) = cstr s := by
  unfold cstr
  induction s with
  | nil => simp
  | cons b s ih =>
    by_cases hb : b = 0
    · simp [hb]
    · simp only [List.cons_append, List.takeWhile_cons, ne_eq, hb, not_false_eq_true,
        decide_true, if_true, List.cons.injEq, true_and]
      exact ih

/-- A string copied over an array with its terminator is the string a reader sees there, however
long the one before it was. -/
theorem cstr_memcpy_terminated (arr : List UInt8) (s : CStr) :
    cstr (memcpy arr (s.bytes ++ [0])) = s.bytes := by
  rw [memcpy, List.append_assoc, List.singleton_append, cstr_append_nul,
    cstr_of_nulFree s.nulFree]

theorem cstr_length_le (arr : List UInt8) : (cstr arr).length ≤ arr.length :=
  (List.takeWhile_prefix _).length_le

/-- A string that fits is stored with its NUL, and what comes after stays. -/
theorem storeStr_eq {dst src : List UInt8} (h : src.length < dst.length) :
    storeStr dst src = src ++ 0 :: dst.drop (src.length + 1) := by
  unfold storeStr memcpy
  -- the terminator replaces the byte right after the copy
  rw [List.set_append_right _ _ (Nat.le_refl _), Nat.sub_self, List.drop_eq_getElem_cons h,
    List.set_cons_zero]

theorem length_storeStr {dst src : List UInt8} (h : src.length < dst.length) :
    (storeStr dst src).length = dst.length := by
  rw [storeStr_eq h]
  simp only [List.length_append, List.length_cons, List.length_drop]
  omega

/-- A reader of a terminated copy sees what it would see of the source. -/
theorem cstr_storeStr {dst src : List UInt8} (h : src.length < dst.length) :
    cstr (storeStr dst src) = cstr src := by
  rw [storeStr_eq h, cstr_append_nul]

/-! ## `strcpy`, `strcat` and `strstr` -/

/-- `strcpy(dst, src)`, for the characters `src` of a string. -/
def strcpy (dst src : List UInt8) : List UInt8 := memcpy dst (src ++ [0])

/-- `strcat(dst, src)`, for the characters `src` of a string. -/
def strcat (dst src : List UInt8) : List UInt8 :=
  dst.take (strlen dst) ++ memcpy (dst.drop (strlen dst)) (src ++ [0])

/-- `strstr(hay, needle) != NULL`, for the characters `needle` of a string. -/
def strstr (hay needle : List UInt8) : Bool := (cstr hay).tails.any (needle.isPrefixOf ·)

/-- `strcpy` stores the string and its NUL, and what comes after stays. -/
theorem strcpy_eq (dst src : List UInt8) :
    strcpy dst src = src ++ 0 :: dst.drop (src.length + 1) := by
  rw [strcpy, memcpy, List.append_assoc, List.singleton_append, List.length_append,
    List.length_singleton]

/-- A string appended to one that stands at the start of an array. -/
theorem strcat_eq {s : List UInt8} (h : 0 ∉ s) (rest src : List UInt8) :
    strcat (s ++ 0 :: rest) src = (s ++ src) ++ 0 :: rest.drop src.length := by
  have hlen : strlen (s ++ 0 :: rest) = s.length := by
    rw [strlen, cstr_append_nul, cstr_of_nulFree h]
  rw [strcat, hlen, List.take_left, List.drop_left, memcpy, List.length_append,
    List.length_singleton, List.drop_succ_cons]
  simp only [List.append_assoc, List.singleton_append]

/-- `strstr` looks for a text before the first NUL. -/
theorem strstr_iff {hay needle : List UInt8} :
    strstr hay needle = true ↔ needle <:+: cstr hay := by
  simp only [strstr, List.any_eq_true, List.mem_tails, List.isPrefixOf_iff_prefix,
    List.infix_iff_prefix_suffix, and_comm]

end NioApps
