import Linux011.Lib.StringOps
import Mathlib.Logic.Function.Iterate

/-!
# Console — the model

`kernel/chr_drv/console.c`: the console variables, the scrolling routines of
both kinds of video card, the control sequences, and `con_write` one character
at a time.

Addresses are byte addresses; the video memory holds words and keeps a log of
where it is written. What goes to the ports (`set_origin`, `set_cursor`, the
bell) is left out, and so is what `respond` puts into the read queue: the
characters that its echo brings to `con_write` are characters like any other.
-/

namespace Linux011.ChrDrv

open Lib

namespace Console

inductive VideoType | mda | cga | egam | egac
  deriving DecidableEq, Repr

def npars : Nat := 16

/-- The console variables that are not addresses. -/
structure Vars where
  videoNumColumns : Nat
  videoNumLines   : Nat
  videoEraseChar  : Word
  x               : Nat
  y               : Nat
  top             : Nat
  bottom          : Nat
  state           : Nat
  npar            : Nat
  par             : Nat → Nat
  ques            : Bool
  attr            : BitVec 8
  savedX          : Nat
  savedY          : Nat

/-- The console: its variables, and the video memory. -/
structure Con extends Vars where
  videoType     : VideoType
  videoMemStart : Nat
  videoMemEnd   : Nat
  origin        : Nat
  scrEnd        : Nat
  pos           : Nat
  mem           : Ram

def Vars.videoSizeRow (s : Vars) : Nat := s.videoNumColumns * 2

/-- `a - b` on `unsigned long`. -/
def sub32 (a b : Nat) : Nat := (a + 0x100000000 - b % 0x100000000) % 0x100000000

def add32 (a b : Nat) : Nat := (a + b) % 0x100000000

/-! ## The cursor and scrolling -/

def gotoxy (s : Con) (newX newY : Nat) : Con :=
  if newX > s.videoNumColumns ∨ newY ≥ s.videoNumLines then s
  else { s with x := newX, y := newY, pos := s.origin + newY * s.videoSizeRow + newX * 2 }

/-- The lines from `top` up to `bottom` are copied one line up. -/
def scrupCopy (s : Con) : Con :=
  let cx := (s.bottom - s.top - 1) * s.videoNumColumns / 2
  let di := s.origin + s.videoSizeRow * s.top
  let m := s.mem.movsl di (s.origin + s.videoSizeRow * (s.top + 1)) cx
  { s with mem := m.stosw s.videoEraseChar (di + 4 * cx) s.videoNumColumns }

/-- EGA/VGA: the window moves down in video memory, and is copied back to the
start when it passes the end. -/
def scrupOrigin (s : Con) : Con :=
  let s := { s with
    origin := s.origin + s.videoSizeRow
    pos := s.pos + s.videoSizeRow
    scrEnd := s.scrEnd + s.videoSizeRow }
  if s.scrEnd > s.videoMemEnd then
    let cx := (s.videoNumLines - 1) * s.videoNumColumns / 2
    let m := s.mem.movsl s.videoMemStart s.origin cx
    { s with
      mem := m.stosw s.videoEraseChar (s.videoMemStart + 4 * cx) s.videoNumColumns
      scrEnd := s.scrEnd - (s.origin - s.videoMemStart)
      pos := s.pos - (s.origin - s.videoMemStart)
      origin := s.videoMemStart }
  else { s with mem := s.mem.stosw s.videoEraseChar (s.scrEnd - s.videoSizeRow) s.videoNumColumns }

def scrup (s : Con) : Con :=
  if s.videoType = .egac ∨ s.videoType = .egam then
    if s.top = 0 ∧ s.bottom = s.videoNumLines then scrupOrigin s else scrupCopy s
  else scrupCopy s

/-- Both branches of the source do the same. -/
def scrdown (s : Con) : Con :=
  let cx := (s.bottom - s.top - 1) * s.videoNumColumns / 2
  let di := s.origin + s.videoSizeRow * s.bottom - 4
  let m := s.mem.movslDown di (s.origin + s.videoSizeRow * (s.bottom - 1) - 4) cx
  { s with mem := m.stoswDown s.videoEraseChar (di - 4 * cx + 2) s.videoNumColumns }

def lf (s : Con) : Con :=
  if s.y + 1 < s.bottom then { s with y := s.y + 1, pos := s.pos + s.videoSizeRow } else scrup s

def ri (s : Con) : Con :=
  if s.y > s.top then { s with y := s.y - 1, pos := s.pos - s.videoSizeRow } else scrdown s

def cr (s : Con) : Con := { s with pos := s.pos - s.x * 2, x := 0 }

def del (s : Con) : Con :=
  if s.x ≠ 0 then
    { s with pos := s.pos - 2, x := s.x - 1, mem := s.mem.store (s.pos - 2) s.videoEraseChar }
  else s

/-! ## Control sequences -/

/-- `stosw` of the erase character. -/
def erase (s : Con) (start count : Nat) : Con := { s with mem := s.mem.stosw s.videoEraseChar start count }

def csiJ (s : Con) : Nat → Con
  | 0 => erase s s.pos ((s.scrEnd - s.pos) / 2)
  | 1 => erase s s.origin ((s.pos - s.origin) / 2)
  | 2 => erase s s.origin (s.videoNumColumns * s.videoNumLines)
  | _ => s

def csiK (s : Con) : Nat → Con
  | 0 => if s.x ≥ s.videoNumColumns then s else erase s s.pos (s.videoNumColumns - s.x)
  | 1 => erase s (s.pos - s.x * 2) (if s.x < s.videoNumColumns then s.x else s.videoNumColumns)
  | 2 => erase s (s.pos - s.x * 2) s.videoNumColumns
  | _ => s

/-- The attribute after one parameter of `csi_m`. -/
def attrOf (attr : BitVec 8) : Nat → BitVec 8
  | 0 => 0x07#8
  | 1 => 0x0f#8
  | 4 => 0x0f#8
  | 7 => 0x70#8
  | 27 => 0x07#8
  | _ => attr

def csiM (s : Con) : Con := { s with attr := ((List.range (s.npar + 1)).map s.par).foldl attrOf s.attr }

/-- The loop of `insert_char`: `old` goes in, and what was there goes on. -/
def insertLoop (m : Ram) (p : Nat) (old : Word) : Nat → Ram
  | 0 => m
  | i + 1 => insertLoop (m.store p old) (p + 2) (m.word p) i

def insertChar (s : Con) : Con :=
  { s with mem := insertLoop s.mem s.pos s.videoEraseChar (s.videoNumColumns - s.x) }

def insertLine (s : Con) : Con :=
  { scrdown { s with top := s.y, bottom := s.videoNumLines } with top := s.top, bottom := s.bottom }

/-- The loop of `delete_char`. -/
def deleteLoop (m : Ram) (p : Nat) (w : Word) : Nat → Ram
  | 0 => m.store p w
  | i + 1 => deleteLoop (m.store p (m.word (p + 2))) (p + 2) w i

def deleteChar (s : Con) : Con :=
  if s.x ≥ s.videoNumColumns then s
  else { s with mem := deleteLoop s.mem s.pos s.videoEraseChar (s.videoNumColumns - s.x - 1) }

def deleteLine (s : Con) : Con :=
  { scrup { s with top := s.y, bottom := s.videoNumLines } with top := s.top, bottom := s.bottom }

/-- How often `csi_at`, `csi_L`, `csi_P` and `csi_M` do it. -/
def times (nr limit : Nat) : Nat := if nr > limit then limit else if nr = 0 then 1 else nr

def csiAt (s : Con) (nr : Nat) : Con := insertChar^[times nr s.videoNumColumns] s

def csiL (s : Con) (nr : Nat) : Con := insertLine^[times nr s.videoNumLines] s

def csiP (s : Con) (nr : Nat) : Con := deleteChar^[times nr s.videoNumColumns] s

def csiDelLines (s : Con) (nr : Nat) : Con := deleteLine^[times nr s.videoNumLines] s

def saveCur (s : Con) : Con := { s with savedX := s.x, savedY := s.y }

def restoreCur (s : Con) : Con := gotoxy s s.savedX s.savedY

/-! ## con_write -/

/-- The cursor goes on to the next line when it is past the last column. -/
def wrap (s : Con) : Con :=
  lf { s with x := s.x - s.videoNumColumns, pos := s.pos - s.videoSizeRow }

/-- The character and the attribute are put at the cursor. -/
def put (s : Con) (c : BitVec 8) : Con :=
  { s with mem := s.mem.store s.pos (s.attr ++ c), pos := s.pos + 2, x := s.x + 1 }

/-- `state` 0. -/
def plain (erasing : BitVec 8) (s : Con) (c : BitVec 8) : Con :=
  if 31 < c.toNat ∧ c.toNat < 127 then put (if s.x ≥ s.videoNumColumns then wrap s else s) c
  else if c = 27 then { s with state := 1 }
  else if c = 10 ∨ c = 11 ∨ c = 12 then lf s
  else if c = 13 then cr s
  else if c = erasing ∧ c.toNat < 128 then del s
  else if c = 8 then if s.x ≠ 0 then { s with x := s.x - 1, pos := s.pos - 2 } else s
  else if c = 9 then
    let n := 8 - s.x % 8
    let s := { s with x := s.x + n, pos := s.pos + n * 2 }
    if s.x > s.videoNumColumns then wrap s else s
  else s

/-- `state` 1, after ESC. The comparisons with '7' and '8' are of `x`, as the
source has them. -/
def escape (s : Con) (c : BitVec 8) : Con :=
  let s := { s with state := 0 }
  if c = 91 then { s with state := 2 }
  else if c = 69 then gotoxy s 0 (s.y + 1)
  else if c = 77 then ri s
  else if c = 68 then lf s
  else if c = 90 then s
  else if s.x = 55 then saveCur s
  else if s.x = 56 then restoreCur s
  else s

def Vars.decPar (s : Vars) (i : Nat) : Nat → Nat :=
  if s.par i ≠ 0 then Function.update s.par i (s.par i - 1) else s.par

def Vars.incPar (s : Vars) (i : Nat) : Nat → Nat :=
  if s.par i = 0 then Function.update s.par i (s.par i + 1) else s.par

/-- `case 'r'`: the lines that scroll. -/
def region (s : Con) : Con :=
  let s := { s with par := s.decPar 0 }
  let s := { s with par := if s.par 1 = 0 then Function.update s.par 1 s.videoNumLines else s.par }
  if s.par 0 < s.par 1 ∧ s.par 1 ≤ s.videoNumLines then { s with top := s.par 0, bottom := s.par 1 } else s

/-- `state` 4, the last character of a control sequence. -/
def final (s : Con) (c : BitVec 8) : Con :=
  let s := { s with state := 0 }
  match Char.ofNat c.toNat with
  | 'G' | '`' =>
    let s := { s with par := s.decPar 0 }
    gotoxy s (s.par 0) s.y
  | 'A' =>
    let s := { s with par := s.incPar 0 }
    gotoxy s s.x (sub32 s.y (s.par 0))
  | 'B' | 'e' =>
    let s := { s with par := s.incPar 0 }
    gotoxy s s.x (add32 s.y (s.par 0))
  | 'C' | 'a' =>
    let s := { s with par := s.incPar 0 }
    gotoxy s (add32 s.x (s.par 0)) s.y
  | 'D' =>
    let s := { s with par := s.incPar 0 }
    gotoxy s (sub32 s.x (s.par 0)) s.y
  | 'E' =>
    let s := { s with par := s.incPar 0 }
    gotoxy s 0 (add32 s.y (s.par 0))
  | 'F' =>
    let s := { s with par := s.incPar 0 }
    gotoxy s 0 (sub32 s.y (s.par 0))
  | 'd' =>
    let s := { s with par := s.decPar 0 }
    gotoxy s s.x (s.par 0)
  | 'H' | 'f' =>
    let s := { s with par := s.decPar 0 }
    let s := { s with par := s.decPar 1 }
    gotoxy s (s.par 1) (s.par 0)
  | 'J' => csiJ s (s.par 0)
  | 'K' => csiK s (s.par 0)
  | 'L' => csiL s (s.par 0)
  | 'M' => csiDelLines s (s.par 0)
  | 'P' => csiP s (s.par 0)
  | '@' => csiAt s (s.par 0)
  | 'm' => csiM s
  | 'r' => region s
  | 's' => saveCur s
  | 'u' => restoreCur s
  | _ => s

/-- `state` 3, the parameters. -/
def params (s : Con) (c : BitVec 8) : Con :=
  if c = 59 ∧ s.npar < npars - 1 then { s with npar := s.npar + 1 }
  else if 48 ≤ c.toNat ∧ c.toNat ≤ 57 then
    { s with par := Function.update s.par s.npar (add32 (10 * s.par s.npar) (c.toNat - 48)) }
  else final s c

/-- The body of the loop of `con_write`: a character; `erasing` is
`ERASE_CHAR(tty)` when it is written. -/
def conWrite (erasing : BitVec 8) (s : Con) (c : BitVec 8) : Con :=
  match s.state with
  | 0 => plain erasing s c
  | 1 => escape s c
  | 2 =>
    let s := { s with par := fun _ => 0, npar := 0, state := 3, ques := c = 63 }
    if s.ques then s else params s c
  | 3 => params s c
  | 4 => final s c
  | _ => s

/-- A stream of characters, each with the erase character at the time. -/
def conWrites (s : Con) (stream : List (BitVec 8 × BitVec 8)) : Con :=
  stream.foldl (fun s b => conWrite b.1 s b.2) s

/-! ## con_init -/

/-- What `setup.s` leaves at 0x90000. -/
structure Orig where
  x         : BitVec 8
  y         : BitVec 8
  videoMode : BitVec 8
  videoCols : BitVec 8
  egaBx     : BitVec 16

def Orig.videoType (o : Orig) : VideoType :=
  if o.videoMode = 7 then if o.egaBx &&& 0xff ≠ 0x10 then .egam else .mda
  else if o.egaBx &&& 0xff ≠ 0x10 then .egac else .cga

def Orig.memStart (o : Orig) : Nat := if o.videoMode = 7 then 0xb0000 else 0xb8000

def VideoType.memEnd : VideoType → Nat
  | .egam => 0xb8000
  | .mda => 0xb2000
  | .egac => 0xbc000
  | .cga => 0xba000

def VideoType.displayDesc : VideoType → List (BitVec 8)
  | .egam => [69, 71, 65, 109]
  | .mda => [42, 77, 68, 65]
  | .egac => [69, 71, 65, 99]
  | .cga => [42, 67, 71, 65]

/-- The loop that writes `display_desc`: the low byte of every word. -/
def describe (m : Ram) (displayPtr : Nat) : List (BitVec 8) → Ram
  | [] => m
  | c :: desc => describe (m.store displayPtr ((m.word displayPtr).extractLsb' 8 8 ++ c)) (displayPtr + 2) desc

/-- `con_init`; `word` is what the video memory holds. -/
def conInit (o : Orig) (word : Nat → Word) : Con :=
  let cols := o.videoCols.toNat
  let m := describe ⟨word, []⟩ (o.memStart + cols * 2 - 8) o.videoType.displayDesc
  gotoxy
    { videoNumColumns := cols, videoNumLines := 25, videoEraseChar := 0x0720#16
      x := 0, y := 0, top := 0, bottom := 25, state := 0, npar := 0, par := fun _ => 0, ques := false
      attr := 0x07#8, savedX := 0, savedY := 0, videoType := o.videoType, videoMemStart := o.memStart
      videoMemEnd := o.videoType.memEnd, origin := o.memStart, scrEnd := o.memStart + 25 * (cols * 2)
      pos := 0, mem := m }
    o.x.toNat o.y.toNat

end Console

end Linux011.ChrDrv
