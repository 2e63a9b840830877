import Mathlib.Algebra.Group.Nat.Defs
import Linux011.ChrDrv.TtyQueue

/-!
# The keyboard — `keyboard.S`

`keyboard_interrupt` with the routines of its `key_table` and `put_queue`, which writes
straight into the read queue of the console.

* `contents_putQueue` — a sequence is queued whole or not at all.

The interrupt is modelled for the tables of any of the four `KBD_` types; `finnish` is the
one `config.h` chooses. What waits for the queue to fill, `show_stat` and the answers to the
keyboard controller are left out.
-/

namespace Linux011.ChrDrv.Keyboard

/-! ## keyboard.S -/

/-- `key_map`, `shift_map` and `alt_map`. -/
structure Maps where
  keyMap   : List Byte
  shiftMap : List Byte
  altMap   : List Byte

/-- `mode`, `leds` and `e0`, the light that shows (`none` until `set_leds` runs), and the
read queue of the console. -/
structure State where
  mode  : Byte
  leds  : Byte
  e0    : Byte
  lamps : Option Byte
  readQ : TtyQueue

/-- The loop of `put_queue` on `ebx:eax`, and whether the new head is kept. Eight rounds
clear both registers. -/
def putLoop : Nat → BitVec 32 → BitVec 32 → TtyQueue → TtyQueue × Bool
  | 0, _, _, q => (q, false)
  | n + 1, ebx, eax, q =>
    let q := q.putch (eax.setWidth 8)
    if q.head = q.tail then (q, false)
    else
      let eax := (eax >>> 8) ||| (ebx <<< 24)
      if eax = 0 then (q, true) else putLoop n (ebx >>> 8) eax q

/-- `put_queue`. The bytes that were written stay in the buffer even if they are discarded. -/
def putQueue (ebx eax : BitVec 32) (q : TtyQueue) : TtyQueue :=
  let (q', keep) := putLoop 8 ebx eax q
  if keep then q' else { q' with head := q.head, head_lt := q.head_lt }

namespace State

def put (s : State) (eax : BitVec 32) : State := { s with readQ := putQueue 0 eax s.readQ }

/-- The bit of the left key, or of the right one behind a 0xe0. -/
def side (s : State) (al : Byte) : Byte := if s.e0 = 0 then al else al + al

def ctrl (s : State) : State := { s with mode := s.mode ||| s.side 0x04 }

def alt (s : State) : State := { s with mode := s.mode ||| s.side 0x10 }

def unctrl (s : State) : State := { s with mode := ~~~(s.side 0x04) &&& s.mode }

def unalt (s : State) : State := { s with mode := ~~~(s.side 0x10) &&& s.mode }

def lshift (s : State) : State := { s with mode := s.mode ||| 0x01 }

def unlshift (s : State) : State := { s with mode := s.mode &&& 0xfe }

def rshift (s : State) : State := { s with mode := s.mode ||| 0x02 }

def unrshift (s : State) : State := { s with mode := s.mode &&& 0xfd }

def setLeds (s : State) : State := { s with lamps := some s.leds }

def caps (s : State) : State :=
  if s.mode &&& 0x80 ≠ 0 then s
  else setLeds { s with leds := s.leds ^^^ 4, mode := (s.mode ^^^ 0x40) ||| 0x80 }

def uncaps (s : State) : State := { s with mode := s.mode &&& 0x7f }

def scroll (s : State) : State := setLeds { s with leds := s.leds ^^^ 1 }

def num (s : State) : State := setLeds { s with leds := s.leds ^^^ 2 }

end State

/-- `"789 456 1230,"`; `KBD_FR` has a point in the last place. -/
def numTable (point : Byte) : List Byte :=
  [0x37, 0x38, 0x39, 0x20, 0x34, 0x35, 0x36, 0x20, 0x31, 0x32, 0x33, 0x30, point]

/-- `"HA5 DGC YB623"`. -/
def curTable : List Byte :=
  [0x48, 0x41, 0x35, 0x20, 0x44, 0x47, 0x43, 0x20, 0x59, 0x42, 0x36, 0x32, 0x33]

/-- `func_table`: `esc [ [ A` to `esc [ [ L`. -/
def funcTable : List (BitVec 32) :=
  [0x415b5b1b, 0x425b5b1b, 0x435b5b1b, 0x445b5b1b, 0x455b5b1b, 0x465b5b1b, 0x475b5b1b, 0x485b5b1b,
    0x495b5b1b, 0x4a5b5b1b, 0x4b5b5b1b, 0x4c5b5b1b]

/-- What `cur` has in `eax` for `put_queue`. -/
def curWord (al : Byte) : BitVec 32 :=
  let eax : BitVec 32 := (curTable.getD al.toNat 0).setWidth 32
  let eax := if 0x39#8 < curTable.getD al.toNat 0 then eax else eax ||| 0x7e00
  (eax <<< 16) ||| 0x5b1b

/-- `cursor`; nothing after `reboot`. -/
def cursor (point scan : Byte) (s : State) : Option State :=
  let al := scan - 0x47
  if scan < 0x47 then some s
  else if 12 < al then some s
  else if al = 12 ∧ s.mode &&& 0x0c ≠ 0 ∧ s.mode &&& 0x30 ≠ 0 then none
  else if s.e0 = 0x01 then some (s.put (curWord al))
  else if s.leds &&& 0x02 = 0 then some (s.put (curWord al))
  else if s.mode &&& 0x03 ≠ 0 then some (s.put (curWord al))
  else some (s.put (((numTable point).getD al.toNat 0).setWidth 32))

/-- The place of a function key in `func_table`. -/
def funcIndex (scan : Byte) : Option Nat :=
  let al := scan - 0x3b
  if scan < 0x3b then none
  else if al ≤ 9 then some al.toNat
  else
    let al := al - 18
    if al < 10 then none else if 11 < al then none else some al.toNat

/-- `func`. The room it looks for is in the `ecx` of what was interrupted. -/
def func (ecx : BitVec 32) (scan : Byte) (s : State) : State :=
  match funcIndex scan with
  | none => s
  | some i => if ecx.slt 4 then s else s.put (funcTable.getD i 0)

/-- The character `do_self` takes from the tables. -/
def lookup (maps : Maps) (scan mode : Byte) : Byte :=
  (if mode &&& 0x20 ≠ 0 then maps.altMap
    else if mode &&& 0x03 ≠ 0 then maps.shiftMap else maps.keyMap).getD scan.toNat 0

/-- What `ctrl`, caps lock and `alt` make of it. -/
def selfChar (mode al : Byte) : Byte :=
  let al := if mode &&& 0x4c ≠ 0 then if al < 0x61 then al else if 0x7d < al then al else al - 32 else al
  let al := if mode &&& 0x0c ≠ 0 then if al < 64 then al else if 64 + 32 ≤ al then al else al - 64 else al
  if mode &&& 0x10 ≠ 0 then al ||| 0x80 else al

def doSelf (maps : Maps) (scan : Byte) (s : State) : State :=
  let al := lookup maps scan s.mode
  if al = 0 then s else s.put ((selfChar s.mode al).setWidth 32)

def minus (maps : Maps) (scan : Byte) (s : State) : State :=
  if s.e0 = 1 then s.put 0x2f else doSelf maps scan s

/-- The routines of `key_table`. -/
inductive Routine
  | none | doSelf | ctrl | unctrl | lshift | unlshift | rshift | unrshift | alt | unalt
  | caps | uncaps | num | scroll | cursor | func | minus
  deriving DecidableEq, Repr

def keyTable (scan : Byte) : Routine :=
  if scan = 0x1d then .ctrl else if scan = 0x9d then .unctrl
  else if scan = 0x2a then .lshift else if scan = 0xaa then .unlshift
  else if scan = 0x36 then .rshift else if scan = 0xb6 then .unrshift
  else if scan = 0x38 then .alt else if scan = 0xb8 then .unalt
  else if scan = 0x3a then .caps else if scan = 0xba then .uncaps
  else if scan = 0x45 then .num else if scan = 0x46 then .scroll
  else if scan = 0x35 then .minus
  else if scan = 0x4a ∨ scan = 0x4e ∨ scan = 0x56 then .doSelf
  else if 0x01 ≤ scan ∧ scan ≤ 0x39 then .doSelf
  else if 0x3b ≤ scan ∧ scan ≤ 0x44 ∨ scan = 0x57 ∨ scan = 0x58 then .func
  else if 0x47 ≤ scan ∧ scan ≤ 0x53 then .cursor
  else .none

/-- The tables of a keyboard: the maps, and the last key of `num_table`. -/
structure Layout extends Maps where
  point : Byte

def ascii (l : List Char) : List Byte := l.map fun c => BitVec.ofNat 8 c.toNat

/-- The keys from 0x36 on, where the tables differ in five places. -/
def lastKeys (star space minus plus angle : Char) : List Byte :=
  ascii ['\x00', star, '\x00', space] ++ List.replicate 16 0 ++
    ascii [minus, '\x00', '\x00', '\x00', plus] ++ List.replicate 7 0 ++ ascii [angle] ++ List.replicate 10 0

/-- `KBD_FINNISH`. -/
def finnish : Layout where
  keyMap := [0, 27] ++ ascii ['1', '2', '3', '4', '5', '6', '7', '8', '9', '0', '+', '\x27'] ++ [127, 9] ++
    ascii ['q', 'w', 'e', 'r', 't', 'y', 'u', 'i', 'o', 'p', '\x7d'] ++ [0, 13, 0] ++
    ascii ['a', 's', 'd', 'f', 'g', 'h', 'j', 'k', 'l', '|', '\x7b'] ++ [0, 0] ++
    ascii ['\x27', 'z', 'x', 'c', 'v', 'b', 'n', 'm', ',', '.', '-'] ++ lastKeys '*' ' ' '-' '+' '<'
  shiftMap := [0, 27] ++ ascii ['!', '\x22', '#', '$', '%', '&', '/', '(', ')', '=', '?', '\x60'] ++ [127, 9] ++
    ascii ['Q', 'W', 'E', 'R', 'T', 'Y', 'U', 'I', 'O', 'P', ']', '^'] ++ [13, 0] ++
    ascii ['A', 'S', 'D', 'F', 'G', 'H', 'J', 'K', 'L', '\x5c', '['] ++ [0, 0] ++
    ascii ['*', 'Z', 'X', 'C', 'V', 'B', 'N', 'M', ';', ':', '_'] ++ lastKeys '*' ' ' '-' '+' '>'
  altMap := [0, 0] ++ ascii ['\x00', '@', '\x00', '$', '\x00', '\x00', '\x7b', '[', ']', '\x7d', '\x5c', '\x00'] ++
    [0, 0] ++ List.replicate 11 0 ++ ascii ['~'] ++ [13, 0] ++ List.replicate 11 0 ++ [0, 0] ++
    List.replicate 11 0 ++ lastKeys '\x00' '\x00' '\x00' '\x00' '|'
  point := 0x2c

example : finnish.keyMap.length = 0x61 ∧ finnish.shiftMap.length = 0x61 ∧ finnish.altMap.length = 0x61 := by
  decide

/-- `call key_table(,%eax,4)`. -/
def callKey (kbd : Layout) (ecx : BitVec 32) (scan : Byte) (s : State) : Option State :=
  match keyTable scan with
  | .none => some s
  | .doSelf => some (doSelf kbd.toMaps scan s)
  | .ctrl => some s.ctrl
  | .unctrl => some s.unctrl
  | .lshift => some s.lshift
  | .unlshift => some s.unlshift
  | .rshift => some s.rshift
  | .unrshift => some s.unrshift
  | .alt => some s.alt
  | .unalt => some s.unalt
  | .caps => some s.caps
  | .uncaps => some s.uncaps
  | .num => some s.num
  | .scroll => some s.scroll
  | .cursor => cursor kbd.point scan s
  | .func => some (func ecx scan s)
  | .minus => some (minus kbd.toMaps scan s)

/-- `keyboard_interrupt`. -/
def keyboardInterrupt (kbd : Layout) (ecx : BitVec 32) (scan : Byte) (s : State) : Option State :=
  if scan = 0xe0 then some { s with e0 := 1 }
  else if scan = 0xe1 then some { s with e0 := 2 }
  else (callKey kbd ecx scan s).map fun s => { s with e0 := 0 }

/-! ## The queue -/

/-- The bytes `put_queue` takes from `eax`. -/
def seqOf : Nat → BitVec 32 → List Byte
  | 0, _ => []
  | n + 1, eax => eax.setWidth 8 :: if eax >>> 8 = 0 then [] else seqOf n (eax >>> 8)

/-- A sequence that does not fit is dropped. -/
def offer (seq l : List Byte) : List Byte := if l.length + seq.length < ttyBufSize then l ++ seq else l

variable {q q' : TtyQueue}

theorem head_putch (c : Byte) : (q.putch c).head = (q.putch c).tail ↔ q.full = true := by
  rw [TtyQueue.full_iff]
  have hh := q.head_lt
  have ht := q.tail_lt
  unfold TtyQueue.putch TtyQueue.chars inc ttyBufSize
  dsimp only
  omega

/-- What is queued in `q` lies in `q'` as well. -/
def Keeps (q q' : TtyQueue) : Prop :=
  q'.tail = q.tail ∧ ∀ i < q.chars, q'.buf ((q.tail + i) % ttyBufSize) = q.buf ((q.tail + i) % ttyBufSize)

theorem keeps_putch (c : Byte) : Keeps q (q.putch c) := by
  refine ⟨rfl, fun i hi => ?_⟩
  have hlt := q.chars_lt
  have hslot := q.head_slot
  unfold TtyQueue.putch
  dsimp only
  rw [Function.update_of_ne (by rw [hslot]; unfold ttyBufSize; omega)]

theorem Keeps.trans {q'' : TtyQueue} (h : Keeps q q') (h' : Keeps q' q'') (hchars : q.chars ≤ q'.chars) :
    Keeps q q'' :=
  ⟨h'.1.trans h.1, fun i hi => by rw [← h.1, h'.2 i (by omega), h.1, h.2 i hi]⟩

/-- Putting the head back undoes what was written. -/
theorem Keeps.contents (h : Keeps q q') :
    ({ q' with head := q.head, head_lt := q.head_lt } : TtyQueue).contents = q.contents := by
  have hchars : ({ q' with head := q.head, head_lt := q.head_lt } : TtyQueue).chars = q.chars := by
    unfold TtyQueue.chars
    dsimp only
    rw [h.1]
  unfold TtyQueue.contents
  rw [hchars]
  refine List.map_congr_left fun i hi => ?_
  dsimp only
  rw [h.1, h.2 i (List.mem_range.mp hi)]

theorem putLoop_eq (n : Nat) (eax : BitVec 32) (q : TtyQueue) :
    putLoop (n + 1) 0 eax q =
      if q.full = true then (q.putch (eax.setWidth 8), false)
      else if eax >>> 8 = 0 then (q.putch (eax.setWidth 8), true)
      else putLoop n 0 (eax >>> 8) (q.putch (eax.setWidth 8)) := by
  have hshift : (eax >>> 8) ||| ((0 : BitVec 32) <<< 24) = eax >>> 8 := by simp
  have hzero : (0 : BitVec 32) >>> 8 = 0 := by decide
  rw [putLoop]
  dsimp only
  simp only [head_putch, hshift, hzero]

theorem putLoop_spec {n : Nat} {eax : BitVec 32} (hn : eax.toNat < 256 ^ (n + 1)) (q : TtyQueue) :
    if q.chars + (seqOf (n + 1) eax).length < ttyBufSize then
      (putLoop (n + 1) 0 eax q).2 = true ∧
        (putLoop (n + 1) 0 eax q).1.contents = q.contents ++ seqOf (n + 1) eax
    else (putLoop (n + 1) 0 eax q).2 = false ∧ Keeps q (putLoop (n + 1) 0 eax q).1 := by
  induction n generalizing eax q with
  | zero =>
    have hlast : eax >>> 8 = 0 := by
      apply BitVec.eq_of_toNat_eq
      rw [BitVec.toNat_ushiftRight, Nat.shiftRight_eq_div_pow, Nat.div_eq_of_lt (by simpa using hn)]
      rfl
    have hlt := q.chars_lt
    rw [putLoop_eq, seqOf, if_pos hlast, if_pos hlast, List.length_singleton]
    by_cases hfull : q.full = true
    · rw [if_pos hfull, if_neg (by rw [TtyQueue.full_iff.mp hfull]; decide)]
      exact ⟨rfl, keeps_putch _⟩
    · have hne : q.chars ≠ 1023 := mt TtyQueue.full_iff.mpr hfull
      rw [if_neg hfull, if_pos (by unfold ttyBufSize; omega)]
      exact ⟨rfl, TtyQueue.contents_putch _ (by simpa using hfull)⟩
  | succ n ih =>
    have hlt := q.chars_lt
    rw [putLoop_eq, seqOf]
    by_cases hfull : q.full = true
    · rw [if_pos hfull, if_neg (by rw [TtyQueue.full_iff.mp hfull, List.length_cons]; unfold ttyBufSize; omega)]
      exact ⟨rfl, keeps_putch _⟩
    have hne : q.chars ≠ 1023 := mt TtyQueue.full_iff.mpr hfull
    have hroom : q.full = false := by simpa using hfull
    rw [if_neg hfull]
    by_cases hlast : eax >>> 8 = 0
    · rw [if_pos hlast, if_pos hlast, List.length_singleton, if_pos (by unfold ttyBufSize; omega)]
      exact ⟨rfl, TtyQueue.contents_putch _ hroom⟩
    · have hrest : (eax >>> 8).toNat < 256 ^ (n + 1) := by
        rw [BitVec.toNat_ushiftRight, Nat.shiftRight_eq_div_pow]
        exact Nat.div_lt_of_lt_mul (by rw [Nat.pow_succ] at hn; omega)
      have hchars := TtyQueue.chars_putch (eax.setWidth 8) hroom
      have hq := ih hrest (q.putch (eax.setWidth 8))
      rw [if_neg hlast, if_neg hlast, List.length_cons]
      rw [hchars, Nat.add_assoc, Nat.add_comm 1] at hq
      split_ifs at hq ⊢ with hfits
      · rw [TtyQueue.contents_putch _ hroom, List.append_assoc] at hq
        exact hq
      · exact ⟨hq.1, (keeps_putch _).trans hq.2 (by omega)⟩

/-- A sequence is queued whole, or not at all. -/
theorem contents_putQueue (eax : BitVec 32) (q : TtyQueue) :
    (putQueue 0 eax q).contents = offer (seqOf 8 eax) q.contents := by
  have hspec := @putLoop_spec 7 eax (lt_of_lt_of_le eax.isLt (by decide)) q
  unfold putQueue offer
  rw [TtyQueue.length_contents]
  dsimp only
  split_ifs at hspec ⊢ with hkeep hfits hfits
  · exact hspec.2
  · rw [hspec.1] at hkeep
    exact absurd hkeep (by decide)
  · exact absurd hspec.1 hkeep
  · exact hspec.2.contents

theorem seqOf_byte : ∀ c : Byte, seqOf 8 (c.setWidth 32) = [c] := by decide +kernel

end Linux011.ChrDrv.Keyboard
