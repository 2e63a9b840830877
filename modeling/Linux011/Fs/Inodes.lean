import Linux011.Lib.Coop
import Linux011.Fs.Getblk

/-!
# The inode table — the code that sleeps

`fs/inode.c` and the part of `fs/bitmap.c` that takes and frees inodes, as programs
of cooperative tasks, together with what `bread` does below them: `getblk` writes
a dirty victim back with `sync_dev`, and `sync_dev` goes through the inode table
again.

The task that runs is an argument of the code, for the sake of `owner`: the task
that has locked an inode. That field is for the specification only; the source has
`i_lock` alone.

Interrupts and the rest of the kernel may change every buffer, and what an inode in
core says of its file; they do not lock inodes and do not move them in the table.

* `waitOnInode`, `lockInode`, `unlockInode`, `readInode`, `writeInode`;
* `getblk`, `syncDev`, `syncInodes`, `bread`;
* `getEmptyInode`, `iget`, `iput`, `newInode`, `freeInode`;
* `kernel` — tasks that call them.
-/

namespace Linux011.Fs.Inodes

open Linux011.Lib Linux011.Lib.Kernel

/-! ## The state -/

/-- `struct m_inode`. `mounted` is the device mounted on the inode, `blk` the
device it stands for, if there is one. -/
structure Slot where
  dev     : Nat
  num     : Nat
  count   : Nat
  lock    : Bool
  nlinks  : Nat
  dirt    : Bool
  pipe    : Bool
  mounted : Option Nat
  blk     : Option Nat
  deriving DecidableEq, Repr

/-- A slot of zeros. -/
def Slot.zero : Slot := ⟨0, 0, 0, false, 0, false, false, none, none⟩

/-- `struct buffer_head`. -/
structure Buf where
  dev      : Nat
  block    : Nat
  count    : Nat
  lock     : Bool
  dirt     : Bool
  uptodate : Bool
  deriving DecidableEq, Repr

/-- The buffer cache: the heads, of which there are `nr`, and the free list, from
its first entry on. -/
structure Buffers where
  nr   : Nat
  head : Nat → Buf
  free : List Nat

structure State where
  /-- `inode_table` and `last_inode`. -/
  inode   : Nat → Slot
  last    : Nat
  /-- The inode maps of the devices, and how many inodes they have. -/
  bit     : Nat → Nat → Bool
  ninodes : Nat → Nat
  /-- The first block of inodes of a device. -/
  start   : Nat → Nat
  buf     : Buffers
  owner   : Nat → Option Nat

def inodesPerBlock : Nat := 32
def rootIno : Nat := 1

def State.setInode (s : State) (i : Nat) (x : Slot) : State :=
  { s with inode := Function.update s.inode i x }

def State.setHead (s : State) (b : Nat) (x : Buf) : State :=
  { s with buf := { s.buf with head := Function.update s.buf.head b x } }

/-- A slot that is not locked afterwards. -/
def State.setFree (s : State) (i : Nat) (x : Slot) : State :=
  { s.setInode i x with owner := Function.update s.owner i none }

/-! ## The code -/

/-- The actions a specification may speak of: task `t` looks whether inode `i` is
locked and waits for it if it is; `getblk` writes a dirty victim back;
`get_empty_inode` takes a slot; `iget` installs an inode in one. -/
inductive Tag
  | wait (t i : Nat)
  | flush (t : Nat)
  | reuse (i : Nat)
  | install (i dev nr : Nat)
  deriving DecidableEq

inductive Proc
  | waitOnBuffer (b : Nat)
  | waitOnInode (t i : Nat)
  | getblk (t dev block : Nat)
  | clean (t dev block b : Nat)
  | pass (dev : Option Nat) (b : Nat)
  | syncInodes (t i : Nat)
  | empty (t : Nat)
  | written (t i : Nat)
  | scan (t dev nr empty : Nat)
  | put (t i : Nat)

abbrev Ret := Option Nat

abbrev M := Code State Tag Proc Ret

def waitOnBufferBody (b : Nat) : M Ret := do
  let lock ← Code.read fun s => (s.buf.head b).lock
  if lock then do
    Code.sleep
    Code.call (.waitOnBuffer b)
  else return none

def waitOnBuffer (b : Nat) : M Unit := do
  let _ ← Code.call (.waitOnBuffer b)

def waitOnInodeBody (t i : Nat) : M Ret := do
  Code.atom (.wait t i) id
  let lock ← Code.read fun s => (s.inode i).lock
  if lock then do
    Code.sleep
    Code.call (.waitOnInode t i)
  else return none

def waitOnInode (t i : Nat) : M Unit := do
  let _ ← Code.call (.waitOnInode t i)

/-- `lock_inode`. -/
def lockInode (t i : Nat) : M Unit := do
  waitOnInode t i
  Code.modify fun s =>
    { s.setInode i { s.inode i with lock := true } with
      owner := Function.update s.owner i (some t) }

def unlockInode (i : Nat) : M Unit :=
  Code.modify fun s => s.setFree i { s.inode i with lock := false }

/-- `ll_rw_block`: the buffer is locked until an interrupt ends the request. -/
def llRwBlock (write : Bool) (b : Nat) : M Unit := do
  waitOnBuffer b
  let x ← Code.read fun s => s.buf.head b
  Code.when (if write then x.dirt else !x.uptodate) do
    -- the request queue may be full
    Code.sleep
    Code.modify fun s => s.setHead b { s.buf.head b with lock := true, dirt := false }

/-- `sync_dev` and `sys_sync`, the loop over the buffers. -/
def passBody (dev : Option Nat) (b : Nat) : M Ret := do
  let more ← Code.read fun s => decide (b < s.buf.nr)
  if more then
    let here ← Code.read fun s => decide (dev = none ∨ dev = some (s.buf.head b).dev)
    if here then do
      waitOnBuffer b
      let dirt ← Code.read fun s =>
        decide (dev = none ∨ dev = some (s.buf.head b).dev) && (s.buf.head b).dirt
      Code.when dirt (llRwBlock true b)
      Code.call (.pass dev (b + 1))
    else Code.call (.pass dev (b + 1))
  else return none

/-- `sync_dev`. -/
def syncDev (t dev : Nat) : M Unit := do
  let _ ← Code.call (.pass (some dev) 0)
  let _ ← Code.call (.syncInodes t 0)
  let _ ← Code.call (.pass (some dev) 0)

/-- `sys_sync`. -/
def sysSync (t : Nat) : M Unit := do
  let _ ← Code.call (.syncInodes t 0)
  let _ ← Code.call (.pass none 0)

def findBuffer (B : Buffers) (dev block : Nat) : Option Nat :=
  (List.range B.nr).find? fun b => (B.head b).dev == dev && (B.head b).block == block

/-- `BADNESS`. -/
def badness (x : Buf) : Nat := x.dirt.toNat * 2 + x.lock.toNat

/-- The search of `getblk` along the free list: the first unused buffer that is
neither dirty nor locked, else the best one. -/
def victim (B : Buffers) : List Nat → Option Nat → Option Nat
  | [], best => best
  | b :: rest, best =>
    if (B.head b).count ≠ 0 then victim B rest best
    else if best.all fun c => badness (B.head b) < badness (B.head c) then
      if badness (B.head b) = 0 then some b else victim B rest (some b)
    else victim B rest best

/-- The end of `getblk`: the buffer gets its block and goes to the end of the free
list. -/
def State.takeover (s : State) (b dev block : Nat) : State :=
  { s with buf :=
    { s.buf with
      head := Function.update s.buf.head b ⟨dev, block, 1, false, false, false⟩
      free := s.buf.free.erase b ++ [b] } }

/-- `getblk` from `repeat` on, with the loop of `get_hash_table`. -/
def getblkBody (t dev block : Nat) : M Ret := do
  let found ← Code.read fun s => findBuffer s.buf dev block
  match found with
  | some b => do
    Code.modify fun s => s.setHead b { s.buf.head b with count := (s.buf.head b).count + 1 }
    waitOnBuffer b
    let same ← Code.read fun s =>
      decide ((s.buf.head b).dev = dev ∧ (s.buf.head b).block = block)
    if same then return some b
    else do
      Code.modify fun s => s.setHead b { s.buf.head b with count := (s.buf.head b).count - 1 }
      Code.call (.getblk t dev block)
  | none =>
    let best ← Code.read fun s => victim s.buf s.buf.free none
    match best with
    | none => do
      Code.sleep
      Code.call (.getblk t dev block)
    | some b => do
      waitOnBuffer b
      Code.call (.clean t dev block b)

/-- `getblk`, from the test of `b_count` on. -/
def cleanBody (t dev block b : Nat) : M Ret := do
  let x ← Code.read fun s => s.buf.head b
  if x.count ≠ 0 then Code.call (.getblk t dev block)
  else if x.dirt then do
    Code.atom (.flush t) id
    syncDev t x.dev
    waitOnBuffer b
    Code.call (.clean t dev block b)
  else
    let found ← Code.read fun s => findBuffer s.buf dev block
    match found with
    | some _ => Code.call (.getblk t dev block)
    | none => do
      Code.modify fun s => s.takeover b dev block
      return some b

/-- `brelse`. -/
def brelse (b : Nat) : M Unit := do
  waitOnBuffer b
  let count ← Code.read fun s => (s.buf.head b).count
  if count = 0 then Code.panic
  else Code.modify fun s => s.setHead b { s.buf.head b with count := (s.buf.head b).count - 1 }

/-- `bread`. -/
def bread (t dev block : Nat) : M Ret := do
  let found ← Code.call (.getblk t dev block)
  match found with
  | none => Code.panic
  | some b =>
    let uptodate ← Code.read fun s => (s.buf.head b).uptodate
    if uptodate then return some b
    else do
      llRwBlock false b
      waitOnBuffer b
      let uptodate ← Code.read fun s => (s.buf.head b).uptodate
      if uptodate then return some b
      else do
        brelse b
        return none

/-- The block of an inode. -/
def State.blockOf (s : State) (i : Nat) : Nat :=
  s.start (s.inode i).dev + ((s.inode i).num - 1) / inodesPerBlock

/-- The body of `read_inode` and `write_inode`: the inode is locked, its block read
and given back. The super block is asked of the world. -/
def withBlock (t i : Nat) (x : Nat → M Unit) : M Unit := do
  let super ← Code.ask
  if super = 0 then Code.panic
  else
    let dev ← Code.read fun s => (s.inode i).dev
    let block ← Code.read fun s => s.blockOf i
    let bh ← bread t dev block
    match bh with
    | none => Code.panic
    | some b => do
      x b
      brelse b
      unlockInode i

/-- `read_inode`. What the disk says is asked of the world. -/
def readInode (t i : Nat) : M Unit := do
  lockInode t i
  withBlock t i fun _ => do
    let nlinks ← Code.ask
    let blk ← Code.ask
    Code.modify fun s =>
      s.setInode i { s.inode i with nlinks := nlinks, blk := if blk = 0 then none else some blk }

/-- `write_inode`. -/
def writeInode (t i : Nat) : M Unit := do
  lockInode t i
  let x ← Code.read fun s => s.inode i
  if !x.dirt || x.dev == 0 then unlockInode i
  else withBlock t i fun b => do
    Code.modify fun s => s.setHead b { s.buf.head b with dirt := true }
    Code.modify fun s => s.setInode i { s.inode i with dirt := false }

/-- The loop of `sync_inodes`. -/
def syncInodesBody (t i : Nat) : M Ret := do
  if i < nrInode then do
    waitOnInode t i
    let x ← Code.read fun s => s.inode i
    Code.when (x.dirt && !x.pipe) (writeInode t i)
    Code.call (.syncInodes t (i + 1))
  else return none

/-- The scan of `get_empty_inode`: where `last_inode` stops, and the last unused
slot seen. -/
def lookEmpty (inode : Nat → Slot) : Nat → Nat → Option Nat → Nat × Option Nat
  | 0, last, found => (last, found)
  | n + 1, last, found =>
    let last := (last + 1) % nrInode
    if (inode last).count = 0 then
      if !(inode last).dirt && !(inode last).lock then (last, some last)
      else lookEmpty inode n last (some last)
    else lookEmpty inode n last found

/-- The loop of `get_empty_inode` that writes the slot back. -/
def writtenBody (t i : Nat) : M Ret := do
  let dirt ← Code.read fun s => (s.inode i).dirt
  if dirt then do
    writeInode t i
    waitOnInode t i
    Code.call (.written t i)
  else return none

/-- A round of `get_empty_inode`. -/
def emptyBody (t : Nat) : M Ret := do
  let (last, found) ← Code.read fun s => lookEmpty s.inode nrInode s.last none
  Code.modify fun s => { s with last := last }
  match found with
  | none => Code.panic
  | some i => do
    waitOnInode t i
    let _ ← Code.call (.written t i)
    let count ← Code.read fun s => (s.inode i).count
    if count ≠ 0 then Code.call (.empty t)
    else do
      Code.atom (.reuse i) fun s => s.setFree i { Slot.zero with count := 1 }
      return some i

/-- `free_inode`. -/
def freeInode (i : Nat) : M Unit := do
  let x ← Code.read fun s => s.inode i
  if x.dev = 0 then Code.modify fun s => s.setFree i Slot.zero
  else if x.count > 1 ∨ x.nlinks ≠ 0 then Code.panic
  else
    let ok ← Code.ask
    if ok = 0 then Code.panic
    else Code.modify fun s =>
      { s.setFree i Slot.zero with
        bit := Function.update s.bit x.dev (Function.update (s.bit x.dev) x.num false) }

def State.dropCount (s : State) (i : Nat) : State :=
  s.setInode i { s.inode i with count := (s.inode i).count - 1 }

/-- `iput` from `repeat` on. -/
def putBody (t i : Nat) : M Ret := do
  let x ← Code.read fun s => s.inode i
  if x.count > 1 then do
    Code.modify fun s => s.dropCount i
    return none
  else if x.nlinks = 0 then do
    -- `truncate`
    Code.sleep
    freeInode i
    return none
  else if x.dirt then do
    writeInode t i
    waitOnInode t i
    Code.call (.put t i)
  else do
    Code.modify fun s => s.dropCount i
    return none

/-- `iput`. -/
def iput (t i : Nat) : M Unit := do
  waitOnInode t i
  let x ← Code.read fun s => s.inode i
  if x.count = 0 then Code.panic
  else if x.pipe then
    if x.count > 1 then Code.modify fun s => s.dropCount i
    else Code.modify fun s =>
      s.setInode i { s.inode i with count := 0, dirt := false, pipe := false }
  else if x.dev = 0 then Code.modify fun s => s.dropCount i
  else match x.blk with
    | some dev => do
      syncDev t dev
      waitOnInode t i
      let _ ← Code.call (.put t i)
    | none =>
      let _ ← Code.call (.put t i)

def lookup (inode : Nat → Slot) (dev nr : Nat) : Option Nat :=
  (List.range nrInode).find? fun i => (inode i).dev == dev && (inode i).num == nr

/-- `iget` with an empty slot, from the beginning of the table on. -/
def scanBody (t dev nr empty : Nat) : M Ret := do
  let found ← Code.read fun s => lookup s.inode dev nr
  match found with
  | none => do
    Code.atom (.install empty dev nr) fun s =>
      s.setInode empty { s.inode empty with dev := dev, num := nr }
    readInode t empty
    return some empty
  | some i => do
    waitOnInode t i
    let x ← Code.read fun s => s.inode i
    if x.dev ≠ dev ∨ x.num ≠ nr then Code.call (.scan t dev nr empty)
    else do
      Code.modify fun s => s.setInode i { s.inode i with count := (s.inode i).count + 1 }
      match x.mounted with
      | some d => do
        iput t i
        Code.call (.scan t d rootIno empty)
      | none => do
        iput t empty
        return some i

/-- `get_empty_inode`. -/
def getEmptyInode (t : Nat) : M Ret := Code.call (.empty t)

/-- `iget`. -/
def iget (t dev nr : Nat) : M Ret := do
  if dev = 0 then Code.panic
  else
    let empty ← getEmptyInode t
    match empty with
    | none => return none
    | some e => Code.call (.scan t dev nr e)

/-- The first free inode of a device. -/
def freeBit (s : State) (dev : Nat) : Option Nat :=
  (List.range (s.ninodes dev + 1)).find? fun j => !s.bit dev j

/-- `new_inode`. -/
def newInode (t dev : Nat) : M Ret := do
  let empty ← getEmptyInode t
  match empty with
  | none => return none
  | some e =>
    let super ← Code.ask
    if super = 0 then Code.panic
    else
      let j ← Code.read fun s => freeBit s dev
      match j with
      | none => do
        iput t e
        return none
      | some j => do
        Code.modify fun s =>
          { s.setInode e { s.inode e with
              count := 1, nlinks := 1, dev := dev, dirt := true, num := j } with
            bit := Function.update s.bit dev (Function.update (s.bit dev) j true) }
        return some e

def body : Proc → M Ret
  | .waitOnBuffer b => waitOnBufferBody b
  | .waitOnInode t i => waitOnInodeBody t i
  | .getblk t dev block => getblkBody t dev block
  | .clean t dev block b => cleanBody t dev block b
  | .pass dev b => passBody dev b
  | .syncInodes t i => syncInodesBody t i
  | .empty t => emptyBody t
  | .written t i => writtenBody t i
  | .scan t dev nr empty => scanBody t dev nr empty
  | .put t i => putBody t i

/-- The calls of task `t`. -/
inductive Call (t : Nat) : Prog State Tag Proc Ret → Prop
  | iget (dev nr : Nat) : Call t (iget t dev nr).toProg
  | newInode (dev : Nat) (hdev : dev ≠ 0) : Call t (newInode t dev).toProg
  | iput (i : Nat) (hi : i < nrInode) : Call t (iput t i).toProg
  | sysSync : Call t (sysSync t).toProg
  | syncDev (dev : Nat) : Call t (syncDev t dev).toProg

/-- What an interrupt, or a task that is not modelled, may change: the buffers, and
what the inodes in core say of their files. -/
def Outside (s s' : State) : Prop :=
  ∃ B : Buffers, ∃ x : Nat → Slot,
    (∀ i, (x i).dev = (s.inode i).dev ∧ (x i).num = (s.inode i).num ∧
      (x i).count = (s.inode i).count ∧ (x i).lock = (s.inode i).lock) ∧
    s' = { s with buf := B, inode := x }

def kernel : Kernel State Tag Proc Ret where
  body := body
  env := Outside
  ops := Call

end Linux011.Fs.Inodes
