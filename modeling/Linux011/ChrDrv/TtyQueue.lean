import Mathlib.Tactic.Common
import Mathlib.Logic.Function.Basic
import Mathlib.Data.List.Range

/-!
# Terminals — the queues of `include/linux/tty.h`

A `tty_queue` is a ring of 1024 bytes with a head and a tail that the macros
advance modulo 1024. `contents` is what is queued, from tail to head.

* `contents_putch`, `contents_getch`, `contents_unput` — the macros on the
  list;
* `length_contents`, `left_eq` — the counts the macros compute.
-/

namespace Linux011.ChrDrv

/-- A `char`. -/
abbrev Byte := BitVec 8

def ttyBufSize : Nat := 1024

/-- `struct tty_queue`. `head` and `tail` are always masked. -/
structure TtyQueue where
  data    : Nat
  head    : Nat
  tail    : Nat
  buf     : Nat → Byte
  head_lt : head < 1024
  tail_lt : tail < 1024

/-- `INC`. -/
@[irreducible] def inc (a : Nat) : Nat := (a + 1) % ttyBufSize

/-- `DEC`. -/
@[irreducible] def dec (a : Nat) : Nat := (a + (ttyBufSize - 1)) % ttyBufSize

theorem inc_lt (a : Nat) : inc a < 1024 := by
  unfold inc ttyBufSize
  omega

theorem dec_lt (a : Nat) : dec a < 1024 := by
  unfold dec ttyBufSize
  omega

namespace TtyQueue

variable (q : TtyQueue)

/-- `EMPTY`. -/
def empty : Bool := q.head == q.tail

/-- `LEFT`. -/
def left : Nat := (q.tail + (2 * ttyBufSize - 1) - q.head) % ttyBufSize

/-- `FULL`. -/
def full : Bool := q.left == 0

/-- `CHARS`. -/
def chars : Nat := (q.head + ttyBufSize - q.tail) % ttyBufSize

/-- `LAST`. -/
def last : Byte := q.buf (dec q.head)

/-- The byte `GETCH` gives. -/
def first : Byte := q.buf q.tail

/-- The queue `GETCH` leaves. -/
def getch : TtyQueue := { q with tail := inc q.tail, tail_lt := inc_lt _ }

/-- `PUTCH`. -/
def putch (c : Byte) : TtyQueue :=
  { q with head := inc q.head, buf := Function.update q.buf q.head c, head_lt := inc_lt _ }

/-- `DEC(q.head)`. -/
def unput : TtyQueue := { q with head := dec q.head, head_lt := dec_lt _ }

/-- What is queued, from tail to head. -/
def contents : List Byte :=
  (List.range q.chars).map fun i => q.buf ((q.tail + i) % ttyBufSize)

theorem zero_lt_1024 : 0 < 1024 := by decide

/-- No byte queued. -/
def init (data : Nat) : TtyQueue := ⟨data, 0, 0, fun _ => 0#8, by decide, by decide⟩

/-! ## Counts -/

variable {q}

@[simp] theorem length_contents : q.contents.length = q.chars := by
  simp [contents]

theorem chars_lt (q : TtyQueue) : q.chars < 1024 := Nat.mod_lt _ (by decide)

theorem left_eq (q : TtyQueue) : q.left = 1023 - q.chars := by
  have hh := q.head_lt
  have ht := q.tail_lt
  unfold left chars ttyBufSize
  omega

theorem empty_iff : q.empty = true ↔ q.chars = 0 := by
  have hh := q.head_lt
  have ht := q.tail_lt
  unfold empty chars ttyBufSize
  rw [beq_iff_eq]
  omega

theorem full_iff : q.full = true ↔ q.chars = 1023 := by
  have := q.chars_lt
  unfold full
  rw [beq_iff_eq, left_eq]
  omega

theorem contents_eq_nil_iff : q.contents = [] ↔ q.empty = true := by
  rw [empty_iff, ← length_contents, List.length_eq_zero_iff]

theorem chars_putch (c : Byte) (h : q.full = false) : (q.putch c).chars = q.chars + 1 := by
  rw [← Bool.not_eq_true, full_iff] at h
  have hh := q.head_lt
  have ht := q.tail_lt
  unfold chars putch inc ttyBufSize at *
  dsimp only at *
  omega

theorem chars_getch (h : q.empty = false) : q.chars = q.getch.chars + 1 := by
  rw [← Bool.not_eq_true, empty_iff] at h
  have hh := q.head_lt
  have ht := q.tail_lt
  unfold chars getch inc ttyBufSize at *
  dsimp only at *
  omega

theorem chars_unput (h : q.empty = false) : q.chars = q.unput.chars + 1 := by
  rw [← Bool.not_eq_true, empty_iff] at h
  have hh := q.head_lt
  have ht := q.tail_lt
  unfold chars unput dec ttyBufSize at *
  dsimp only at *
  omega

/-- The slot of the head, as seen from the tail. -/
theorem head_slot (q : TtyQueue) : q.head = (q.tail + q.chars) % ttyBufSize := by
  have hh := q.head_lt
  have ht := q.tail_lt
  unfold chars ttyBufSize
  omega

/-! ## The macros on what is queued -/

theorem contents_putch (c : Byte) (h : q.full = false) : (q.putch c).contents = q.contents ++ [c] := by
  have hchars := chars_putch c h
  unfold contents
  rw [hchars, List.range_succ, List.map_append, List.map_singleton]
  rw [← Bool.not_eq_true, full_iff] at h
  have hlt := q.chars_lt
  have hslot := q.head_slot
  congr 1
  · refine List.map_congr_left fun i hi => ?_
    rw [List.mem_range] at hi
    unfold putch
    dsimp only
    -- another slot than the head's
    rw [Function.update_of_ne (by rw [hslot]; unfold ttyBufSize; omega)]
  · unfold putch
    dsimp only
    rw [← hslot, Function.update_self]

theorem contents_getch (h : q.empty = false) : q.contents = q.first :: q.getch.contents := by
  have hchars := chars_getch h
  have ht := q.tail_lt
  unfold contents
  rw [hchars, List.range_succ_eq_map, List.map_cons, List.map_map]
  congr 1
  · unfold first ttyBufSize
    congr 1
    omega
  · refine List.map_congr_left fun i _ => ?_
    unfold getch inc ttyBufSize
    dsimp only [Function.comp_apply]
    congr 1
    omega

theorem contents_unput (h : q.empty = false) : q.contents = q.unput.contents ++ [q.last] := by
  have hchars := chars_unput h
  have hslot : dec q.head = (q.tail + q.unput.chars) % ttyBufSize := q.unput.head_slot
  have hrest : q.unput.contents =
      (List.range q.unput.chars).map fun i => q.buf ((q.tail + i) % ttyBufSize) := by
    unfold contents
    rfl
  rw [hrest]
  unfold contents last
  rw [hchars, List.range_succ, List.map_append, List.map_singleton, hslot]

end TtyQueue

end Linux011.ChrDrv
