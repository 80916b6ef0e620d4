import NioApps.Lib.Word
import Mathlib.Data.List.GetD

/-!
# Lib — byte memory and buffers filled through a cursor

Memory is a function from indices to bytes, so that a write or a read past the end of an
array is an ordinary index and not an error: what stands there is part of the memory.
`overlay m off bs` is `m` after the bytes `bs` were stored from `off` on.

A `FrameBuf` is a buffer being filled: memory and a `uint16_t` cursor. `put` stores bytes at
the cursor and advances it with a 16-bit addition; `frame` is what stands below the cursor.
-/

namespace NioApps

/-- Memory after the bytes `bs` were stored from index `off` on. -/
def overlay (m : Nat → UInt8) (off : Nat) (bs : List UInt8) : Nat → UInt8 :=
  fun i => if off ≤ i ∧ i < off + bs.length then bs.getD (i - off) 0 else m i

/-- A byte list as memory, zero past its end. -/
def listMem (bs : List UInt8) : Nat → UInt8 := fun i => bs.getD i 0

theorem overlay_of_lt {m : Nat → UInt8} {off : Nat} {bs : List UInt8} {i : Nat} (h : i < off) :
    overlay m off bs i = m i := by
  unfold overlay
  rw [if_neg (by omega)]

theorem overlay_add {m : Nat → UInt8} {off : Nat} {bs : List UInt8} {j : Nat}
    (h : j < bs.length) : overlay m off bs (off + j) = bs.getD j 0 := by
  unfold overlay
  rw [if_pos (by omega), Nat.add_sub_cancel_left]

theorem overlay_of_ge {m : Nat → UInt8} {off : Nat} {bs : List UInt8} {i : Nat}
    (h : off + bs.length ≤ i) : overlay m off bs i = m i := by
  unfold overlay
  rw [if_neg (by omega)]

theorem overlay_nil (m : Nat → UInt8) (off : Nat) : overlay m off [] = m := by
  funext i
  unfold overlay
  rw [if_neg (by simp)]

/-- The bytes stored stand where they were stored. -/
theorem map_overlay_range' (m : Nat → UInt8) (off : Nat) (bs : List UInt8) :
    (List.range' off bs.length).map (overlay m off bs) = bs := by
  apply List.ext_getElem
  · rw [List.length_map, List.length_range']
  · intro i _ hi
    rw [List.getElem_map, List.getElem_range', Nat.one_mul, overlay_add hi,
      List.getD_eq_getElem _ _ hi]

/-- Bytes laid over the start of the memory are read there as they are. -/
theorem overlay_zero_of_lt {m : Nat → UInt8} {bs : List UInt8} {i : Nat} (h : i < bs.length) :
    overlay m 0 bs i = listMem bs i := by
  have hget : overlay m 0 bs (0 + i) = bs.getD i 0 := overlay_add h
  rwa [Nat.zero_add] at hget

/-- A block read from a list. -/
theorem map_listMem_range' (bs : List UInt8) (i n : Nat) (h : i + n ≤ bs.length) :
    (List.range' i n).map (listMem bs) = (bs.drop i).take n := by
  apply List.ext_getElem
  · simp only [List.length_map, List.length_range', List.length_take, List.length_drop]
    omega
  · intro k hk _
    have hk' : k < n := by simpa using hk
    simp only [List.getElem_map, List.getElem_range', Nat.one_mul, List.getElem_take,
      List.getElem_drop, listMem]
    rw [List.getD_eq_getElem _ _ (by omega)]

theorem map_listMem_append (pre bs post : List UInt8) {n : Nat} (h : n ≤ bs.length) :
    (List.range' pre.length n).map (listMem (pre ++ (bs ++ post))) = bs.take n := by
  rw [map_listMem_range' _ _ _ (by simp only [List.length_append]; omega),
    List.drop_left, List.take_append_of_le_length h]

/-- A little-endian field of a middle part, read at its offset: its low `n` bytes. -/
theorem leValue_listMem_append (pre post : List UInt8) {n k : Nat} (h : n ≤ k) (v : Nat) :
    leValue ((List.range' pre.length n).map (listMem (pre ++ (leBytes k v ++ post)))) =
      v % 256 ^ n := by
  rw [map_listMem_append _ _ _ (by simpa using h), take_leBytes h, leValue_leBytes]

/-! ## Filling a buffer -/

/-- A buffer being filled: the memory it stands in and the `uint16_t` cursor. -/
structure FrameBuf where
  mem : Nat → UInt8
  off : Nat

namespace FrameBuf

def put (b : FrameBuf) (bs : List UInt8) : FrameBuf where
  mem := overlay b.mem b.off bs
  off := u16 (b.off + bs.length)

/-- What stands below the cursor. -/
def frame (b : FrameBuf) : List UInt8 := (List.range b.off).map b.mem

@[simp] theorem frame_length (b : FrameBuf) : b.frame.length = b.off := by
  simp [frame]

theorem frame_start (m : Nat → UInt8) : (FrameBuf.mk m 0).frame = [] := rfl

/-- Below the cursor the memory is the frame. -/
theorem mem_eq_frame {b : FrameBuf} {i : Nat} (h : i < b.frame.length) : b.mem i = b.frame[i] := by
  simp [frame]

/-- A chunk moves the offset on by its length, where nothing wraps. -/
theorem put_off {b : FrameBuf} {bs : List UInt8} (h : b.off + bs.length < 65536) :
    (b.put bs).off = b.off + bs.length := u16_of_lt h

/-- As long as the cursor does not wrap, a store appends to the frame. -/
theorem frame_put {b : FrameBuf} {bs : List UInt8} (h : b.off + bs.length < 65536) :
    (b.put bs).frame = b.frame ++ bs := by
  apply List.ext_getElem
  · rw [frame_length, put_off h, List.length_append, frame_length]
  · intro i hi _
    rw [frame_length, put_off h] at hi
    simp only [frame, List.getElem_map, List.getElem_range]
    -- below the old cursor nothing changed; above it stands what was stored
    by_cases hlt : i < b.off
    · rw [List.getElem_append_left (by simpa using hlt)]
      simp only [put, overlay_of_lt hlt, List.getElem_map, List.getElem_range]
    · rw [List.getElem_append_right (by simpa using hlt)]
      obtain ⟨j, rfl⟩ : ∃ j, i = b.off + j := ⟨i - b.off, by omega⟩
      simp only [put, List.length_map, List.length_range, Nat.add_sub_cancel_left]
      rw [overlay_add (by omega), List.getD_eq_getElem _ _ (by omega)]

def puts (b : FrameBuf) (chunks : List (List UInt8)) : FrameBuf := chunks.foldl put b

/-- As long as the cursor does not wrap, a sequence of stores appends all of them. -/
theorem frame_puts {chunks : List (List UInt8)} {b : FrameBuf}
    (h : b.off + chunks.flatten.length < 65536) :
    (b.puts chunks).frame = b.frame ++ chunks.flatten := by
  induction chunks generalizing b with
  | nil => simp [puts]
  | cons c cs ih =>
    rw [List.flatten_cons, List.length_append] at h
    have hput : b.off + c.length < 65536 := by omega
    have hrest : (b.put c).off + cs.flatten.length < 65536 := by
      rw [put_off hput]
      omega
    calc ((b.put c).puts cs).frame
        = (b.put c).frame ++ cs.flatten := ih hrest
      _ = b.frame ++ (c :: cs).flatten := by
          rw [frame_put hput, List.flatten_cons, List.append_assoc]

/-- The cursor after a sequence of stores, wrapped or not. -/
theorem off_puts (chunks : List (List UInt8)) {b : FrameBuf} (h : b.off < 65536) :
    (b.puts chunks).off = u16 (b.off + chunks.flatten.length) := by
  induction chunks generalizing b with
  | nil => exact (u16_of_lt h).symm
  | cons c cs ih =>
    have hput : (b.put c).off = u16 (b.off + c.length) := rfl
    rw [puts, List.foldl_cons, ← puts, ih (hput ▸ u16_lt _), hput, List.flatten_cons,
      List.length_append]
    unfold u16
    omega

/-- As long as the cursor does not wrap, nothing is stored at or past its end. -/
theorem puts_mem_of_ge {chunks : List (List UInt8)} {b : FrameBuf} {i : Nat}
    (h : b.off + chunks.flatten.length ≤ i) (hwrap : b.off + chunks.flatten.length < 65536) :
    (b.puts chunks).mem i = b.mem i := by
  induction chunks generalizing b with
  | nil => rfl
  | cons c cs ih =>
    rw [List.flatten_cons, List.length_append] at h hwrap
    have hput : (b.put c).off = b.off + c.length := put_off (by omega)
    rw [puts, List.foldl_cons, ← puts, ih (by omega) (by omega)]
    exact overlay_of_ge (by omega)

end FrameBuf

end NioApps
