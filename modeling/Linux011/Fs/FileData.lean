import Linux011.Fs.ZoneMap
import Mathlib.Algebra.Ring.Nat

/-!
# Regular files — the model

`file_read`, `file_write`, `sys_read`, `sys_write`, `sys_lseek` and `truncate` on
the zones of `ZoneMap`, down to the bytes: a block is 512 words of 16 bits, two
bytes each, whether it holds data or zone numbers.

* `bmapIo` — `_bmap`, where index blocks may turn out to be unreadable;
* `fileRead`, `fileWrite` — the loops over the chunks of a transfer;
* `truncate` — with index blocks that may be unreadable as well;
* `Files.step` — the calls, one at a time.

`ok` says which blocks can be read: `ok r k` in round `r` counted from the last
one, where 0 and 1 are the index blocks and 2 is the block with the data, and
`ok z` for the index block `z` in `truncate`. The buffer cache gives what was last
put into a block, so it is not here. Pipes and devices are not here either.
-/

namespace Linux011.Fs.FileData

open ZoneMap

abbrev Byte := Fin 256

scoped instance bytesNonzero : NeZero (256 : Nat) := ⟨by decide⟩

def blockSize : Nat := 1024

/-! ## Bytes of blocks -/

/-- Byte `i` of a block. -/
def byte (s : State) (z i : Nat) : Byte :=
  Fin.ofNat 256 (if i % 2 = 0 then s.block z (i / 2) else s.block z (i / 2) / 256)

def setByte (s : State) (z i : Nat) (v : Byte) : State :=
  s.setEntry z (i / 2)
    (if i % 2 = 0 then s.block z (i / 2) / 256 * 256 + v.val else v.val * 256 + s.block z (i / 2) % 256)

/-- `while (c-->0) *(p++) = get_fs_byte(buf++)`. -/
def putBytes (s : State) (z i : Nat) : List Byte → State
  | [] => s
  | v :: buf => putBytes (setByte s z i v) z (i + 1) buf

/-! ## _bmap -/

/-- `_bmap`; `ok` says which index blocks can be read. Nothing if it panics. -/
def bmapIo (s : State) (n block : Nat) (create : Bool) (ok : Nat → Bool) : Option (State × Nat) :=
  if 7 + 512 + 512 * 512 ≤ block then none
  else if block < 7 then some (s.fillZone n block create)
  else if block - 7 < 512 then
    let (s, z) := s.fillZone n 7 create
    if z = 0 then some (s, 0)
    else if ok 0 = false then some (s, 0)
    else some (s.fillEntry z (block - 7) create)
  else
    let m := block - 7 - 512
    let (s, z) := s.fillZone n 8 create
    if z = 0 then some (s, 0)
    else if ok 0 = false then some (s, 0)
    else
      let (s, i) := s.fillEntry z (m >>> 9) create
      if i = 0 then some (s, 0)
      else if ok 1 = false then some (s, 0)
      else some (s.fillEntry i (m &&& 511) create)

/-! ## file_read, file_write -/

/-- The bytes of a chunk; a hole is zeros. -/
def chunk (s : State) (nr i chars : Nat) : List Byte :=
  (List.range chars).map fun j => if nr = 0 then 0 else byte s nr (i + j)

/-- The loop of `file_read`: the bytes that are put into the buffer. There are no
more rounds than bytes. -/
def fileRead (s : State) (n : Nat) (ok : Nat → Nat → Bool) : Nat → Nat → Nat → Option (List Byte)
  | 0, _, _ => some []
  | rounds + 1, pos, left =>
    if left = 0 then some []
    else
      match bmapIo s n (pos / blockSize) false (ok rounds) with
      | none => none
      | some (_, nr) =>
        if nr ≠ 0 ∧ ok rounds 2 = false then some []
        else
          let chars := min (blockSize - pos % blockSize) left
          (fileRead s n ok rounds (pos + chars) (left - chars)).map (chunk s nr (pos % blockSize) chars ++ ·)

/-- The device, and the sizes of the inodes. -/
structure Vol where
  disk : State
  size : Nat → Nat

/-- The loop of `file_write`: what is left, and the position. -/
def fileWrite (n : Nat) (ok : Nat → Nat → Bool) : Nat → Vol → Nat → List Byte → Option (Vol × Nat)
  | 0, s, pos, _ => some (s, pos)
  | rounds + 1, s, pos, buf =>
    if buf = [] then some (s, pos)
    else
      match bmapIo s.disk n (pos / blockSize) true (ok rounds) with
      | none => none
      | some (disk, block) =>
        if block = 0 then some ({ s with disk := disk }, pos)
        else if ok rounds 2 = false then some ({ s with disk := disk }, pos)
        else
          let c := min (blockSize - pos % blockSize) buf.length
          let size := if pos + c > s.size n then Function.update s.size n (pos + c) else s.size
          fileWrite n ok rounds ⟨putBytes disk block (pos % blockSize) (buf.take c), size⟩ (pos + c) (buf.drop c)

/-! ## truncate -/

/-- `if (bh=bread(dev,block))`, the loop over its entries. -/
def eachEntry (free : State → Nat → Option State) (ok : Nat → Bool) (s : State) (w : Nat) : Option State :=
  if ok w then s.each free (s.entries w) else some s

def freeInd (ok : Nat → Bool) (s : State) (w : Nat) : Option State :=
  if w = 0 then some s
  else do
    let s' ← eachEntry State.freeBlock ok s w
    s'.freeBlock w

def freeDind (ok : Nat → Bool) (s : State) (w : Nat) : Option State :=
  if w = 0 then some s
  else do
    let s' ← eachEntry (freeInd ok) ok s w
    s'.freeBlock w

def truncate (ok : Nat → Bool) (s : State) (n : Nat) : Option State :=
  if s.file n then do
    let s ← s.freeDirect n (List.range 7)
    let s ← freeInd ok s (s.zone n 7)
    let s ← freeDind ok s (s.zone n 8)
    some ((s.setZone n 7 0).setZone n 8 0)
  else some s

/-! ## System calls -/

/-- `struct file`, as far as it matters here. -/
structure File where
  inode  : Nat
  pos    : Nat
  append : Bool

/-- The volume and the open files. -/
structure Files extends Vol where
  filp : Nat → Option File

/-- `S_ISREG`. -/
def Vol.regular (s : Vol) (n : Nat) : Bool := (s.disk.inode n).mode &&& sIfmt == iRegular

/-- A 32-bit number with a sign. -/
def int32 (x : Int) : Int := Int.bmod x 0x100000000

def einval : Int := -22
def ebadf : Int := -9
def eerror : Int := -99

/-- What a call returns; a read also has the bytes in the buffer. -/
inductive Result
  | value (v : Int)
  | bytes (l : List Byte)

def Files.setPos (s : Files) (fd : Nat) (f : File) (pos : Nat) : Files :=
  { s with filp := Function.update s.filp fd (some { f with pos := pos }) }

/-- `sys_read`. The sum of the count and the position is compared as an unsigned
number, and the difference is a signed one. -/
def sysRead (s : Files) (fd : Nat) (count : Int) (ok : Nat → Nat → Bool) : Option (Files × Result) :=
  match s.filp fd with
  | none => some (s, .value einval)
  | some f =>
    if count < 0 then some (s, .value einval)
    else if count = 0 then some (s, .value 0)
    else if s.disk.file f.inode = false then some (s, .value einval)
    else
      let size := s.size f.inode
      let count := if (count + f.pos) % 0x100000000 > size then int32 (size - f.pos) else count
      if count ≤ 0 then some (s, .value 0)
      else
        match fileRead s.disk f.inode ok count.toNat f.pos count.toNat with
        | none => none
        | some [] => some (s, .value eerror)
        | some l => some (s.setPos fd f (f.pos + l.length), .bytes l)

/-- `sys_write` of the bytes at `buf`. -/
def sysWrite (s : Files) (fd : Nat) (count : Int) (buf : Nat → Byte) (ok : Nat → Nat → Bool) :
    Option (Files × Result) :=
  match s.filp fd with
  | none => some (s, .value einval)
  | some f =>
    if count < 0 then some (s, .value einval)
    else if count = 0 then some (s, .value 0)
    else if s.regular f.inode = false then some (s, .value einval)
    else
      let start := if f.append then s.size f.inode else f.pos
      match fileWrite f.inode ok count.toNat s.toVol start ((List.range count.toNat).map buf) with
      | none => none
      | some (v, pos) =>
        let s := { s with toVol := v }
        let s := if f.append then s else s.setPos fd f pos
        some (s, .value (if pos = start then -1 else pos - start))

/-- `sys_lseek`. -/
def sysLseek (s : Files) (fd : Nat) (offset : Int) (origin : Nat) : Files × Result :=
  match s.filp fd with
  | none => (s, .value ebadf)
  | some f =>
    let seek (pos : Int) : Files × Result :=
      if pos < 0 then (s, .value einval) else (s.setPos fd f pos.toNat, .value pos)
    match origin with
    | 0 => seek offset
    | 1 => seek (int32 (f.pos + offset))
    | 2 => seek (int32 (s.size f.inode + offset))
    | _ => (s, .value einval)

/-- `truncate` of an inode, with its size. -/
def truncateFile (s : Files) (n : Nat) (ok : Nat → Bool) : Option (Files × Result) :=
  (truncate ok s.disk n).map fun disk =>
    ({ s with
      disk := disk
      size := if s.disk.file n then Function.update s.size n 0 else s.size }, .value 0)

inductive Op
  | read (fd : Nat) (count : BitVec 32) (ok : Nat → Nat → Bool)
  | write (fd : Nat) (count : BitVec 32) (buf : Nat → Byte) (ok : Nat → Nat → Bool)
  | lseek (fd : Nat) (offset : BitVec 32) (origin : Nat)
  | truncate (n : Nat) (ok : Nat → Bool)

/-- A call, and what it returns; nothing if it panics. -/
def Files.step (s : Files) : Op → Option (Files × Result)
  | .read fd count ok => sysRead s fd count.toInt ok
  | .write fd count buf ok => sysWrite s fd count.toInt buf ok
  | .lseek fd offset origin => some (sysLseek s fd offset.toInt origin)
  | .truncate n ok => truncateFile s n ok

end Linux011.Fs.FileData
