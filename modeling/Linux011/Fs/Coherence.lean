import Linux011.Lib.Coop
import Linux011.Fs.Getblk

/-!
# Inodes in core and on disk

The system calls of `fs/open.c`, `fs/namei.c` and `fs/file_dev.c`, as far as they
read, change and drop inodes in core. They run one at a time: there is one task
and nothing sleeps. What directories and data blocks hold, and which permissions
there are, is asked of the world; a read of a block may write every dirty inode
back, since `getblk` calls `sync_dev`.

An inode that is not dirty has to agree with its 32 bytes on disk. `kept` is what
the copy in core was when `get_empty_inode` dropped it, for the specification only.

* `Coherent.store`, `Coherent.discard`, `Coherent.enter`, `Coherent.free` — the steps;
* `change_spec`, `touch_spec`, `truncate_spec` — fields that change;
* `newInode_spec`, `call_spec` — the procedures;
* `inodes_kept` — what is read back is what was dropped, and `write_inode` changes
  no other inode on disk, as long as a change of `i_mtime` alone meets a dirty
  inode;
* `mtime_lost` — an overwrite that does not.
-/

namespace Linux011.Fs.Coherence

open Linux011.Lib Linux011.Lib.Kernel

/-! ## The state -/

/-- `struct d_inode`. -/
structure Record where
  mode   : Nat
  uid    : Nat
  size   : Nat
  mtime  : Nat
  gid    : Nat
  nlinks : Nat
  zone   : Nat → Nat

def Record.zero : Record := ⟨0, 0, 0, 0, 0, 0, fun _ => 0⟩

/-- `struct m_inode`. -/
structure Slot where
  dev   : Nat
  num   : Nat
  count : Nat
  dirt  : Bool
  d     : Record

def Slot.zero : Slot := ⟨0, 0, 0, false, Record.zero⟩

structure State where
  inode   : Nat → Slot
  last    : Nat
  /-- The inode maps, how many inodes a device has, where they begin. -/
  bit     : Nat → Nat → Bool
  ninodes : Nat → Nat
  start   : Nat → Nat
  /-- The inodes of a block of a device. -/
  disk    : Nat → Nat → Nat → Record
  kept    : Nat → Nat → Option Record

def inodesPerBlock : Nat := 32
def rootIno : Nat := 1

/-- What the disk says of an inode. -/
def State.onDisk (s : State) (dev num : Nat) : Record :=
  s.disk dev (s.start dev + (num - 1) / inodesPerBlock) ((num - 1) % inodesPerBlock)

def State.setInode (s : State) (i : Nat) (x : Slot) : State :=
  { s with inode := Function.update s.inode i x }

/-- The end of `write_inode`. -/
def State.store (s : State) (i : Nat) : State :=
  let x := s.inode i
  let block := s.start x.dev + (x.num - 1) / inodesPerBlock
  { s.setInode i { x with dirt := false } with
    disk := Function.update s.disk x.dev (Function.update (s.disk x.dev) block
      (Function.update (s.disk x.dev block) ((x.num - 1) % inodesPerBlock) x.d)) }

/-- `get_empty_inode` drops what a slot has. -/
def State.discard (s : State) (i : Nat) : State :=
  let x := s.inode i
  { s.setInode i { Slot.zero with count := 1 } with
    kept := if x.dev = 0 then s.kept
      else Function.update s.kept x.dev (Function.update (s.kept x.dev) x.num (some x.d)) }

/-- An inode gets a slot; what was dropped of it is no longer asked for. -/
def State.enter (s : State) (e : Nat) (x : Slot) : State :=
  { s.setInode e x with
    kept := Function.update s.kept x.dev (Function.update (s.kept x.dev) x.num none) }

/-- A change of the record that marks the inode dirty. -/
def State.change (s : State) (i : Nat) (f : Record → Record) : State :=
  s.setInode i { s.inode i with d := f (s.inode i).d, dirt := true }

/-- A change of the record that does not. -/
def State.silent (s : State) (i : Nat) (f : Record → Record) : State :=
  s.setInode i { s.inode i with d := f (s.inode i).d }

def State.addCount (s : State) (i : Nat) : State :=
  s.setInode i { s.inode i with count := (s.inode i).count + 1 }

def State.dropCount (s : State) (i : Nat) : State :=
  s.setInode i { s.inode i with count := (s.inode i).count - 1 }

/-! ## Inodes -/

/-- `i_mtime` is set and nothing else (`marked` if the caller marks the inode dirty
at once), `iget` installs an inode, `read_inode` fills it in (`was` is what was dropped
of it, if it was), `write_inode` stores one. -/
inductive Tag
  | touch (i time : Nat) (marked : Bool)
  | install (dev nr : Nat)
  | load (i : Nat) (was : Option Record)
  | store (i : Nat)

inductive Proc
  | syncInodes (i : Nat)
  | scan (dev nr empty : Nat)
  | put (i : Nat)
  | walk (i : Nat)
  | add (i : Nat) (marked : Bool)
  | write (i : Nat)

abbrev Ret := Option Nat

abbrev M := Code State Tag Proc Ret

/-- `write_inode`. The super block and the read are asked of the world. A sync from
this read, or from that of `read_inode`, waits for the lock of this inode for ever. -/
def writeInode (i : Nat) : M Unit := do
  let x ← Code.read fun s => s.inode i
  if !x.dirt || x.dev == 0 then return ()
  else
    let ok ← Code.ask
    if ok = 0 then Code.panic
    else Code.atom (.store i) fun s => s.store i

/-- The loop of `sync_inodes`. -/
def syncInodesBody (i : Nat) : M Ret := do
  if i < nrInode then do
    writeInode i
    Code.call (.syncInodes (i + 1))
  else return none

/-- `sync_inodes`, if the world says so. -/
def perhapsSync : M Unit := do
  let sync ← Code.ask
  Code.when (sync != 0) do
    let _ ← Code.call (.syncInodes 0)

/-- `bread` or `new_block`: 0 when it fails. `getblk` may have written the inodes
back before. -/
def bread : M Nat := do
  perhapsSync
  Code.ask

/-- The scan of `get_empty_inode`. -/
def lookEmpty (inode : Nat → Slot) : Nat → Nat → Option Nat → Nat × Option Nat
  | 0, last, found => (last, found)
  | n + 1, last, found =>
    let last := (last + 1) % nrInode
    if (inode last).count = 0 then
      if !(inode last).dirt then (last, some last)
      else lookEmpty inode n last (some last)
    else lookEmpty inode n last found

/-- `get_empty_inode`. -/
def getEmptyInode : M Ret := do
  let (last, found) ← Code.read fun s => lookEmpty s.inode nrInode s.last none
  Code.modify fun s => { s with last := last }
  match found with
  | none => Code.panic
  | some i => do
    writeInode i
    let dirt ← Code.read fun s => (s.inode i).dirt
    -- a dirty inode without a device would be written for ever
    if dirt then Code.panic
    else do
      Code.modify fun s => s.discard i
      return some i

/-- `truncate`. Whether the mode is that of a file or a directory is asked of the
world. -/
def truncate (i : Nat) : M Unit := do
  let regular ← Code.ask
  if regular = 0 then return ()
  else do
    Code.modify fun s => s.silent i fun d =>
      { d with zone := fun j => if j < 7 then 0 else d.zone j }
    -- `free_ind` and `free_dind`
    let _ ← bread
    let time ← Code.ask
    Code.modify fun s => s.change i fun d =>
      { d with zone := fun j => if j < 9 then 0 else d.zone j, size := 0, mtime := time }

/-- `free_inode`. -/
def freeInode (i : Nat) : M Unit := do
  let x ← Code.read fun s => s.inode i
  if x.dev = 0 then Code.modify fun s => s.setInode i Slot.zero
  else
    let ok ← Code.ask
    if x.count > 1 ∨ x.d.nlinks ≠ 0 ∨ x.num < 1 ∨ ok = 0 then Code.panic
    else Code.modify fun s =>
      { s.setInode i Slot.zero with
        bit := Function.update s.bit x.dev (Function.update (s.bit x.dev) x.num false) }

/-- `iput` from `repeat` on. -/
def putBody (i : Nat) : M Ret := do
  let x ← Code.read fun s => s.inode i
  if x.count > 1 then do
    Code.modify fun s => s.dropCount i
    return none
  else if x.d.nlinks = 0 then do
    truncate i
    freeInode i
    return none
  else if x.dirt then do
    writeInode i
    Code.call (.put i)
  else do
    Code.modify fun s => s.dropCount i
    return none

/-- `iput` of an inode that is no pipe. A block device is synced. -/
def iput (i : Nat) : M Unit := do
  let x ← Code.read fun s => s.inode i
  if x.count = 0 then Code.panic
  else if x.dev = 0 then Code.modify fun s => s.dropCount i
  else do
    perhapsSync
    let _ ← Code.call (.put i)

/-- `read_inode`. -/
def readInode (i : Nat) (was : Option Record) : M Unit := do
  let ok ← Code.ask
  if ok = 0 then Code.panic
  else Code.atom (.load i was) fun s =>
    s.setInode i { s.inode i with d := s.onDisk (s.inode i).dev (s.inode i).num }

def lookup (inode : Nat → Slot) (dev nr : Nat) : Option Nat :=
  (List.range nrInode).find? fun i => (inode i).dev == dev && (inode i).num == nr

/-- `iget` with an empty slot. The device mounted on an inode is asked of the world:
0 when there is none. -/
def scanBody (dev nr empty : Nat) : M Ret := do
  let found ← Code.read fun s => lookup s.inode dev nr
  match found with
  | none => do
    let was ← Code.read fun s => s.kept dev nr
    Code.atom (.install dev nr) fun s =>
      s.enter empty { s.inode empty with dev := dev, num := nr }
    readInode empty was
    return some empty
  | some i => do
    Code.modify fun s => s.addCount i
    let mounted ← Code.ask
    if mounted = 0 then do
      iput empty
      return some i
    else do
      iput i
      Code.call (.scan mounted rootIno empty)

/-- `iget`. -/
def iget (dev nr : Nat) : M Ret := do
  if dev = 0 then Code.panic
  else
    let empty ← getEmptyInode
    match empty with
    | none => return none
    | some e => Code.call (.scan dev nr e)

def freeBit (s : State) (dev : Nat) : Option Nat :=
  (List.range (s.ninodes dev + 1)).find? fun j => !s.bit dev j

/-- `new_inode`. -/
def newInode (dev : Nat) : M Ret := do
  if dev = 0 then Code.panic
  else
    let empty ← getEmptyInode
    match empty with
    | none => return none
    | some e =>
      let j ← Code.read fun s => freeBit s dev
      let uid ← Code.ask
      let gid ← Code.ask
      let time ← Code.ask
      match j with
      | none => do
        iput e
        return none
      | some j => do
        Code.modify fun s =>
          { s.enter e
              ⟨dev, j, 1, true, { (s.inode e).d with nlinks := 1, uid := uid, gid := gid, mtime := time }⟩
            with bit := Function.update s.bit dev (Function.update (s.bit dev) j true) }
        return some e

/-! ## Paths, directories and files -/

/-- The loop of `get_dir` and the end of `namei`: the path ends here, it leads
nowhere, or there is a next entry, on the device of the directory that `find_entry`
left. -/
def walkBody (i : Nat) : M Ret := do
  let path ← bread
  if path = 0 then return some i
  else if path = 1 then do
    iput i
    return none
  else do
    let dev ← Code.ask
    let nr ← Code.ask
    iput i
    let next ← iget dev (nr + 1)
    match next with
    | none => return none
    | some j => Code.call (.walk j)

/-- `namei` and `dir_namei`, from the root or the working directory on: some slot
that is in use. -/
def namei : M Ret := do
  let i ← Code.ask
  let x ← Code.read fun s => s.inode i
  if x.count = 0 ∨ nrInode ≤ i then Code.panic
  else do
    Code.modify fun s => s.addCount i
    Code.call (.walk i)

/-- `_bmap` with `create`: the zone of the inode that the block falls into is set if
there is none and `new_block` finds one. -/
def createBlock (i : Nat) : M Nat := do
  let z ← Code.ask
  let block ← bread
  Code.modify fun s =>
    if (s.inode i).d.zone z = 0 ∧ block ≠ 0 then
      s.change i fun d => { d with zone := Function.update d.zone z block }
    else s
  -- the blocks below
  bread

/-- The size, if it grows. -/
def grow (i size : Nat) : M Unit :=
  Code.modify fun s =>
    if (s.inode i).d.size < size then s.change i fun d => { d with size := size } else s

/-- `i_mtime = CURRENT_TIME`, where `i_dirt` is not set. -/
def touch (i : Nat) (marked : Bool) : M Unit := do
  let time ← Code.ask
  Code.atom (.touch i time marked) fun s => s.silent i fun d => { d with mtime := time }

/-- The loop of `add_entry`: a block cannot be had, the next one is looked at, or an
entry is free. One beyond the end makes the directory grow. -/
def addBody (i : Nat) (marked : Bool) : M Ret := do
  let entry ← bread
  if entry = 0 then return none
  else if entry = 1 then do
    let block ← createBlock i
    if block = 0 then return none else Code.call (.add i marked)
  else do
    let size ← Code.ask
    grow i size
    touch i marked
    return some i

/-- The block `file_write` goes on with; 0 at the end. -/
def nextBlock (i more : Nat) : M Nat := if more = 0 then pure 0 else createBlock i

/-- The loop of `file_write`. -/
def writeBody (i : Nat) : M Ret := do
  let more ← Code.ask
  let block ← nextBlock i more
  if block = 0 then do
    touch i false
    return none
  else do
    let ok ← bread
    if ok = 0 then do
      touch i false
      return none
    else do
      let pos ← Code.ask
      grow i pos
      Code.call (.write i)

def body : Proc → M Ret
  | .syncInodes i => syncInodesBody i
  | .scan dev nr empty => scanBody dev nr empty
  | .put i => putBody i
  | .walk i => walkBody i
  | .add i marked => addBody i marked
  | .write i => writeBody i

/-! ## The calls -/

/-- `namei` and what is done with the inode. -/
def withInode (x : Nat → M Unit) : M Unit := do
  let r ← namei
  match r with
  | none => return ()
  | some i => x i

/-- `sys_chmod`, `sys_chown` and `sys_utime`: the record is changed, if the
permissions allow it. -/
def changed (f : Nat → Nat → Record → Record) : M Unit :=
  withInode fun i => do
    let permission ← Code.ask
    if permission = 0 then iput i
    else do
      let a ← Code.ask
      let b ← Code.ask
      Code.modify fun s => s.change i (f a b)
      iput i

def sysChmod : M Unit :=
  changed fun mode _ d => { d with mode := mode % 4096 + d.mode / 4096 * 4096 }

def sysChown : M Unit := changed fun uid gid d => { d with uid := uid, gid := gid }

def sysUtime : M Unit := changed fun modtime _ d => { d with mtime := modtime }

/-- `sys_open` of a name that is there. -/
def sysOpen : M Unit :=
  withInode fun i => do
    let permission ← Code.ask
    if permission = 0 then iput i
    else do
      let trunc ← Code.ask
      Code.when (trunc != 0) (truncate i)

/-- `sys_read`, `sys_write` and `sys_close` of a file whose inode is in slot `i`. A
read sets `i_atime`, which is not on disk. -/
def sysRead (i : Nat) : M Unit := do
  let x ← Code.read fun s => s.inode i
  Code.when (x.count != 0) perhapsSync

def sysWrite (i : Nat) : M Unit := do
  let x ← Code.read fun s => s.inode i
  Code.when (x.count != 0) do
    let _ ← Code.call (.write i)

def sysClose (i : Nat) : M Unit := do
  let x ← Code.read fun s => s.inode i
  Code.when (x.count != 0 && decide (i < nrInode)) (iput i)

/-- `sys_sync`. -/
def sysSync : M Unit := do
  let _ ← Code.call (.syncInodes 0)

/-- The directory for a new name, and a new inode on its device; the lookup has not
found the name and the directory may be written. -/
def withNew (x : Nat → Nat → M Unit) : M Unit :=
  withInode fun dir => do
    let permission ← bread
    if permission = 0 then iput dir
    else do
      let dev ← Code.read fun s => (s.inode dir).dev
      let new ← newInode dev
      match new with
      | none => iput dir
      | some i => x dir i

/-- `i_nlinks--` and `i_nlinks = 0` on the way out of a call that failed: the inode
is not marked dirty. -/
def unmake (i : Nat) (f : Nat → Nat) : M Unit := do
  Code.modify fun s => s.silent i fun d => { d with nlinks := f d.nlinks }

/-- `sys_open` with `O_CREAT`, of a name that is not there. -/
def openCreat : M Unit :=
  withNew fun dir i => do
    let uid ← Code.ask
    let mode ← Code.ask
    Code.modify fun s => s.change i fun d => { d with uid := uid, mode := mode }
    let entry ← Code.call (.add dir false)
    match entry with
    | none => do
      unmake i (· - 1)
      iput i
      iput dir
    | some _ => iput dir

/-- `sys_mknod`. -/
def sysMknod : M Unit :=
  withNew fun dir i => do
    let mode ← Code.ask
    let dev ← Code.ask
    let time ← Code.ask
    Code.modify fun s => s.change i fun d =>
      { d with mode := mode, zone := Function.update d.zone 0 dev, mtime := time }
    let entry ← Code.call (.add dir false)
    match entry with
    | none => do
      iput dir
      unmake i fun _ => 0
      iput i
    | some _ => do
      iput dir
      iput i

/-- `sys_mkdir`. -/
def sysMkdir : M Unit :=
  withNew fun dir i => do
    let time ← Code.ask
    Code.modify fun s => s.change i fun d => { d with size := 32, mtime := time }
    let block ← bread
    -- without a block the zone stays 0
    if block = 0 then do
      iput dir
      unmake i (· - 1)
      iput i
    else do
      Code.modify fun s => s.change i fun d => { d with zone := Function.update d.zone 0 block }
      let ok ← bread
      if ok = 0 then do
        iput dir
        unmake i (· - 1)
        iput i
      else do
        let mode ← Code.ask
        Code.modify fun s => s.change i fun d => { d with nlinks := 2, mode := mode }
        let entry ← Code.call (.add dir true)
        match entry with
        | none => do
          iput dir
          unmake i fun _ => 0
          iput i
        | some _ => do
          Code.modify fun s => s.change dir fun d => { d with nlinks := (d.nlinks + 1) % 256 }
          iput dir
          iput i

/-- The directory of a name and the inode the name leads to. -/
def withEntry (x : Nat → Nat → M Unit) : M Unit :=
  withInode fun dir => do
    let found ← bread
    if found = 0 then iput dir
    else do
      let dev ← Code.ask
      let nr ← Code.ask
      let inode ← iget dev (nr + 1)
      match inode with
      | none => iput dir
      | some i => do
        let permission ← bread
        if permission = 0 then do
          iput i
          iput dir
        else x dir i

/-- `sys_unlink`. -/
def sysUnlink : M Unit :=
  withEntry fun dir i => do
    Code.modify fun s => s.change i fun d =>
      { d with nlinks := if d.nlinks = 0 then 0 else d.nlinks - 1 }
    iput i
    iput dir

/-- `sys_rmdir`. -/
def sysRmdir : M Unit :=
  withEntry fun dir i => do
    let time ← Code.ask
    Code.modify fun s => s.change i fun d => { d with nlinks := 0 }
    Code.modify fun s => s.change dir fun d =>
      { d with nlinks := (d.nlinks + 255) % 256, mtime := time }
    iput dir
    iput i

/-- `sys_link`. -/
def sysLink : M Unit :=
  withInode fun old => do
    let isDir ← Code.ask
    if isDir ≠ 0 then iput old
    else do
      let new ← namei
      match new with
      | none => iput old
      | some dir => do
        let permission ← bread
        if permission = 0 then do
          iput dir
          iput old
        else do
          let entry ← Code.call (.add dir false)
          match entry with
          | none => do
            iput dir
            iput old
          | some _ => do
            iput dir
            Code.modify fun s => s.change old fun d => { d with nlinks := (d.nlinks + 1) % 256 }
            iput old

inductive Call : Prog State Tag Proc Ret → Prop
  | sysChmod : Call sysChmod.toProg
  | sysChown : Call sysChown.toProg
  | sysUtime : Call sysUtime.toProg
  | sysOpen : Call sysOpen.toProg
  | sysRead (i : Nat) : Call (sysRead i).toProg
  | sysWrite (i : Nat) : Call (sysWrite i).toProg
  | sysClose (i : Nat) : Call (sysClose i).toProg
  | sysSync : Call sysSync.toProg
  | openCreat : Call openCreat.toProg
  | sysMknod : Call sysMknod.toProg
  | sysMkdir : Call sysMkdir.toProg
  | sysUnlink : Call sysUnlink.toProg
  | sysRmdir : Call sysRmdir.toProg
  | sysLink : Call sysLink.toProg

/-- One task makes the calls. -/
def kernel : Kernel State Tag Proc Ret where
  body := body
  env := fun _ _ => False
  ops := fun t p => t = 0 ∧ Call p

/-! ## What is on disk -/

/-- What the task in a call has: the slot whose record it is changing and has not
marked dirty yet, and the slots it has references to. -/
structure Hand where
  window : Option Nat
  held   : List Nat

/-- The slot has the inode. -/
def State.At (s : State) (i dev num : Nat) : Prop := (s.inode i).dev = dev ∧ (s.inode i).num = num

/-- A clean inode agrees with the disk, unless it is about to be freed; what was
dropped is on disk, and not in core. -/
structure Coherent (G : Nat → Option Hand) (s : State) : Prop where
  live   : ∀ t h, G t = some h → t = 0
  unique : ∀ i j, i < nrInode → j < nrInode → (s.inode i).dev ≠ 0 →
    s.At j (s.inode i).dev (s.inode i).num → i = j
  alloc  : ∀ i, i < nrInode → (s.inode i).dev ≠ 0 →
    1 ≤ (s.inode i).num ∧ s.bit (s.inode i).dev (s.inode i).num = true
  first  : ∀ dev, s.bit dev 0 = true
  clean  : ∀ i, i < nrInode → (s.inode i).dev ≠ 0 → (s.inode i).dirt = true ∨
    (s.inode i).d = s.onDisk (s.inode i).dev (s.inode i).num ∨ (s.inode i).d.nlinks = 0 ∨
    ∃ h, G 0 = some h ∧ h.window = some i
  linked : ∀ i, i < nrInode → (s.inode i).dev ≠ 0 → (s.inode i).count = 0 →
    (s.inode i).d.nlinks ≠ 0
  held   : ∀ h i, G 0 = some h → h.held.count i ≤ (s.inode i).count
  kept   : ∀ dev num d, s.kept dev num = some d → dev ≠ 0 ∧ 1 ≤ num ∧ s.onDisk dev num = d ∧
    ∀ i, i < nrInode → ¬ s.At i dev num

/-- The condition of the runs: where `i_mtime` is set without `i_dirt`, the inode is
dirty, or the caller marks it at once, or nothing changes; `iget` installs allocated
inodes. -/
def allow : Tag → State → Prop
  | .touch i time marked, s =>
    marked = true ∨ (s.inode i).dirt = true ∨ (s.inode i).d.mtime = time
  | .install dev nr, s => s.bit dev nr = true
  | .load _ _, _ => True
  | .store _, _ => True

/-- `read_inode` reads what was dropped; `write_inode` changes no other inode. -/
def lossless : Option Tag → State → State → Prop
  | some (.load i was), _, s' => ∀ d, was = some d → (s'.inode i).d = d
  | some (.store i), s, s' => ∀ dev num, 1 ≤ num → ¬ s.At i dev num →
    s'.onDisk dev num = s.onDisk dev num
  | _, _, _ => True

def contract : Contract kernel (Option Hand) where
  inv := Coherent
  allow := allow
  check := lossless
  rest := fun g => ∀ h, g = some h → h.window = none
  inv_env := fun _ _ _ _ h => h.elim
  reads := fun _ _ _ => trivial

variable {G : Nat → Option Hand} {s s' : State} {n i : Nat} {h h' : Hand}

/-- Different inodes are in different places. -/
theorem place_inj {a b : Nat} (ha : 1 ≤ a) (hb : 1 ≤ b)
    (hblock : (a - 1) / inodesPerBlock = (b - 1) / inodesPerBlock)
    (hindex : (a - 1) % inodesPerBlock = (b - 1) % inodesPerBlock) : a = b := by
  have h1 := Nat.div_add_mod (a - 1) inodesPerBlock
  have h2 := Nat.div_add_mod (b - 1) inodesPerBlock
  rw [hblock, hindex] at h1
  omega

theorem onDisk_store (hnum : 1 ≤ (s.inode i).num) {dev num : Nat} (h1 : 1 ≤ num) :
    (s.store i).onDisk dev num =
      if dev = (s.inode i).dev ∧ num = (s.inode i).num then (s.inode i).d else s.onDisk dev num := by
  unfold State.store State.onDisk State.setInode
  dsimp only
  by_cases hdev : dev = (s.inode i).dev
  · rw [← hdev, Function.update_self]
    by_cases hb : (num - 1) / inodesPerBlock = ((s.inode i).num - 1) / inodesPerBlock
    · rw [hb, Function.update_self]
      by_cases hx : (num - 1) % inodesPerBlock = ((s.inode i).num - 1) % inodesPerBlock
      · rw [hx, Function.update_self, if_pos ⟨rfl, place_inj h1 hnum hb hx⟩]
      · rw [Function.update_of_ne hx, if_neg]
        rintro ⟨-, rfl⟩
        exact hx rfl
    · have hne : s.start dev + (num - 1) / inodesPerBlock ≠
          s.start dev + ((s.inode i).num - 1) / inodesPerBlock := by omega
      rw [Function.update_of_ne hne, if_neg]
      rintro ⟨-, rfl⟩
      exact hb rfl
  · rw [Function.update_of_ne hdev, if_neg]
    exact fun h => hdev h.1

theorem Coherent.live_update (C : Coherent G s) {o : Option Hand} (t : Nat) (y : Hand)
    (hy : Function.update G 0 o t = some y) : t = 0 := by
  by_cases ht : t = 0
  · exact ht
  · rw [Function.update_of_ne ht] at hy
    exact C.live t y hy

/-- Without a window a clean slot agrees with the disk. -/
theorem Coherent.settled (C : Coherent G s) (hrest : ∀ y, G 0 = some y → y.window = none) (hi : i < nrInode)
    (h0 : (s.inode i).dev ≠ 0) : (s.inode i).dirt = true ∨
      (s.inode i).d = s.onDisk (s.inode i).dev (s.inode i).num ∨ (s.inode i).d.nlinks = 0 := by
  rcases C.clean i hi h0 with h | h | h | ⟨y, hy, hw⟩
  · exact Or.inl h
  · exact Or.inr (Or.inl h)
  · exact Or.inr (Or.inr h)
  · rw [hrest y hy] at hw
    cases hw

theorem clean_own {L : List Nat} (C : Coherent G s) (hg : G 0 = some ⟨none, L⟩) (hi : i < nrInode)
    (h0 : (s.inode i).dev ≠ 0) : (s.inode i).dirt = true ∨
      (s.inode i).d = s.onDisk (s.inode i).dev (s.inode i).num ∨ (s.inode i).d.nlinks = 0 := by
  refine C.settled (fun y hy => ?_) hi h0
  rw [hg] at hy
  cases hy
  rfl

/-- The slots of the table after an update of one. -/
theorem setInode_self (s : State) (i : Nat) (x : Slot) : (s.setInode i x).inode i = x :=
  Function.update_self ..

theorem setInode_of_ne {j : Nat} (hj : j ≠ i) (x : Slot) :
    (s.setInode i x).inode j = s.inode j := Function.update_of_ne hj ..

/-- Task 0 changes a slot and keeps its inode. -/
theorem Coherent.update (C : Coherent G s) (hg : G 0 = some h) (x : Slot) (h' : Hand)
    (hdev : x.dev = (s.inode i).dev) (hnum : x.num = (s.inode i).num)
    (hclean : i < nrInode → x.dev ≠ 0 → x.dirt = true ∨ x.d = s.onDisk x.dev x.num ∨
      x.d.nlinks = 0 ∨ h'.window = some i)
    (hwindow : ∀ j, j ≠ i → h.window = some j → h'.window = some j)
    (hlinked : i < nrInode → x.dev ≠ 0 → x.count = 0 → x.d.nlinks ≠ 0)
    (hheld : ∀ j, h'.held.count j ≤ if j = i then x.count else (s.inode j).count) :
    Coherent (Function.update G 0 (some h')) (s.setInode i x) := by
  have hslot : ∀ j, ((s.setInode i x).inode j).dev = (s.inode j).dev ∧
      ((s.setInode i x).inode j).num = (s.inode j).num := by
    intro j
    by_cases hj : j = i
    · rw [hj, setInode_self]
      exact ⟨hdev, hnum⟩
    · rw [setInode_of_ne hj]
      exact ⟨rfl, rfl⟩
  have hat : ∀ {j d m}, (s.setInode i x).At j d m ↔ s.At j d m := by
    intro j d m
    unfold State.At
    rw [(hslot j).1, (hslot j).2]
  refine ⟨?_, ?_, ?_, C.first, ?_, ?_, ?_, ?_⟩
  · exact C.live_update
  · intro a b ha hb hne hab
    rw [(hslot a).1, (hslot a).2] at hab
    rw [(hslot a).1] at hne
    exact C.unique a b ha hb hne (hat.mp hab)
  · intro a ha hne
    rw [(hslot a).1] at hne
    rw [(hslot a).1, (hslot a).2]
    exact C.alloc a ha hne
  · intro a ha hne
    by_cases hai : a = i
    · subst hai
      rw [setInode_self] at hne ⊢
      rcases hclean ha hne with hc | hc | hc | hc
      · exact Or.inl hc
      · exact Or.inr (Or.inl hc)
      · exact Or.inr (Or.inr (Or.inl hc))
      · exact Or.inr (Or.inr (Or.inr ⟨h', Function.update_self .., hc⟩))
    · rw [setInode_of_ne hai] at hne ⊢
      rcases C.clean a ha hne with hc | hc | hc | ⟨y, hy, hc⟩
      · exact Or.inl hc
      · exact Or.inr (Or.inl hc)
      · exact Or.inr (Or.inr (Or.inl hc))
      · rw [hg] at hy
        cases hy
        exact Or.inr (Or.inr (Or.inr ⟨h', Function.update_self .., hwindow a hai hc⟩))
  · intro a ha hne hcount
    by_cases hai : a = i
    · subst hai
      rw [setInode_self] at hne hcount ⊢
      exact hlinked ha hne hcount
    · rw [setInode_of_ne hai] at hne hcount ⊢
      exact C.linked a ha hne hcount
  · intro y a hy
    rw [Function.update_self] at hy
    cases hy
    have hle := hheld a
    by_cases hai : a = i
    · rw [if_pos hai] at hle
      rw [hai, setInode_self, ← hai]
      exact hle
    · rw [if_neg hai] at hle
      rw [setInode_of_ne hai]
      exact hle
  · intro d m y hy
    obtain ⟨h0, h1, h2, h3⟩ := C.kept d m y hy
    exact ⟨h0, h1, h2, fun a ha hd => h3 a ha (hat.mp hd)⟩

/-- `write_inode` makes the disk agree with a slot, and touches no other inode. -/
theorem Coherent.store (C : Coherent G s) (hi : i < nrInode) (hne : (s.inode i).dev ≠ 0) :
    Coherent G (s.store i) := by
  have hnum := (C.alloc i hi hne).1
  have hself : (s.store i).inode i = { s.inode i with dirt := false } := Function.update_self ..
  have hother : ∀ j, j ≠ i → (s.store i).inode j = s.inode j := fun j hj =>
    Function.update_of_ne hj ..
  have hslot : ∀ j, ((s.store i).inode j).dev = (s.inode j).dev ∧
      ((s.store i).inode j).num = (s.inode j).num ∧
      ((s.store i).inode j).count = (s.inode j).count ∧
      ((s.store i).inode j).d = (s.inode j).d := by
    intro j
    by_cases hj : j = i
    · rw [hj, hself]
      exact ⟨rfl, rfl, rfl, rfl⟩
    · rw [hother j hj]
      exact ⟨rfl, rfl, rfl, rfl⟩
  have hat : ∀ {j d m}, (s.store i).At j d m ↔ s.At j d m := by
    intro j d m
    unfold State.At
    rw [(hslot j).1, (hslot j).2.1]
  refine ⟨C.live, ?_, ?_, C.first, ?_, ?_, ?_, ?_⟩
  · intro a b ha hb hna hab
    rw [(hslot a).1, (hslot a).2.1] at hab
    rw [(hslot a).1] at hna
    exact C.unique a b ha hb hna (hat.mp hab)
  · intro a ha hna
    rw [(hslot a).1] at hna
    rw [(hslot a).1, (hslot a).2.1]
    exact C.alloc a ha hna
  · intro a ha hna
    rw [(hslot a).1] at hna
    have hposa := (C.alloc a ha hna).1
    rw [(hslot a).1, (hslot a).2.1, (hslot a).2.2.2, onDisk_store hnum hposa]
    by_cases hai : a = i
    · subst hai
      rw [if_pos ⟨rfl, rfl⟩]
      exact Or.inr (Or.inl rfl)
    · have hdiff : ¬ ((s.inode a).dev = (s.inode i).dev ∧ (s.inode a).num = (s.inode i).num) := by
        rintro ⟨hd, hn⟩
        exact hai (C.unique a i ha hi hna ⟨hd.symm, hn.symm⟩)
      rw [if_neg hdiff, hother a hai]
      exact C.clean a ha hna
  · intro a ha hna hcount
    rw [(hslot a).1] at hna
    rw [(hslot a).2.2.1] at hcount
    rw [(hslot a).2.2.2]
    exact C.linked a ha hna hcount
  · intro y a hy
    rw [(hslot a).2.2.1]
    exact C.held y a hy
  · intro d m y hy
    obtain ⟨h0, h1, h2, h3⟩ := C.kept d m y hy
    refine ⟨h0, h1, ?_, fun a ha hd => h3 a ha (hat.mp hd)⟩
    rw [onDisk_store hnum h1, if_neg fun hk => h3 i hi ⟨hk.1.symm, hk.2.symm⟩]
    exact h2

/-- `get_empty_inode` drops an unused clean slot: the disk has what it had. -/
theorem Coherent.discard (C : Coherent G s) {L : List Nat} (hg : G 0 = some ⟨none, L⟩)
    (hi : i < nrInode) (hcount : (s.inode i).count = 0) (hdirt : (s.inode i).dirt = false) :
    Coherent (Function.update G 0 (some ⟨none, i :: L⟩)) (s.discard i) := by
  have hself : (s.discard i).inode i = { Slot.zero with count := 1 } := Function.update_self ..
  have hother : ∀ j, j ≠ i → (s.discard i).inode j = s.inode j := fun j hj =>
    Function.update_of_ne hj ..
  have hlive : ∀ j, ((s.discard i).inode j).dev ≠ 0 → j ≠ i := by
    rintro j hj rfl
    rw [hself] at hj
    exact hj rfl
  -- what is dropped is on disk
  have hsaved : (s.inode i).dev ≠ 0 → (s.inode i).d = s.onDisk (s.inode i).dev (s.inode i).num := by
    intro hne
    rcases clean_own C hg hi hne with hc | hc | hc
    · rw [hdirt] at hc
      cases hc
    · exact hc
    · exact absurd hc (C.linked i hi hne hcount)
  refine ⟨?_, ?_, ?_, C.first, ?_, ?_, ?_, ?_⟩
  · exact C.live_update
  · intro a b ha hb hne hab
    have hai := hlive a hne
    rw [hother a hai] at hne hab
    have hbi : b ≠ i := hlive b (by rw [hab.1]; exact hne)
    unfold State.At at hab
    rw [hother b hbi] at hab
    exact C.unique a b ha hb hne hab
  · intro a ha hne
    have hai := hlive a hne
    rw [hother a hai] at hne ⊢
    exact C.alloc a ha hne
  · intro a ha hne
    have hai := hlive a hne
    rw [hother a hai] at hne ⊢
    exact (clean_own C hg ha hne).imp_right (Or.imp_right Or.inl)
  · intro a ha hne hzero
    have hai := hlive a hne
    rw [hother a hai] at hne hzero ⊢
    exact C.linked a ha hne hzero
  · intro y a hy
    rw [Function.update_self] at hy
    cases hy
    have hle := C.held _ a hg
    dsimp only at hle ⊢
    by_cases hai : a = i
    · subst hai
      rw [hself, List.count_cons_self]
      dsimp only
      omega
    · rw [hother a hai, List.count_cons_of_ne (Ne.symm hai)]
      exact hle
  · intro d m y hy
    have hold : s.kept d m = some y → d ≠ 0 ∧ 1 ≤ m ∧ s.onDisk d m = y ∧
        ∀ a, a < nrInode → ¬ (s.discard i).At a d m := by
      intro hk
      obtain ⟨h0, h1, h2, h3⟩ := C.kept d m y hk
      refine ⟨h0, h1, h2, fun a ha hat => ?_⟩
      have hai : a ≠ i := hlive a (by rw [hat.1]; exact h0)
      unfold State.At at hat
      rw [hother a hai] at hat
      exact h3 a ha hat
    have hkept : (s.discard i).kept = if (s.inode i).dev = 0 then s.kept
      else Function.update s.kept (s.inode i).dev (Function.update (s.kept (s.inode i).dev)
        (s.inode i).num (some (s.inode i).d)) := rfl
    rw [hkept] at hy
    by_cases h0 : (s.inode i).dev = 0
    · rw [if_pos h0] at hy
      exact hold hy
    · rw [if_neg h0] at hy
      by_cases hd : d = (s.inode i).dev
      · subst hd
        rw [Function.update_self] at hy
        by_cases hm : m = (s.inode i).num
        · subst hm
          rw [Function.update_self] at hy
          cases hy
          refine ⟨h0, (C.alloc i hi h0).1, (hsaved h0).symm, fun a ha hat => ?_⟩
          have hai : a ≠ i := hlive a (by rw [hat.1]; exact h0)
          unfold State.At at hat
          rw [hother a hai] at hat
          exact hai (C.unique i a hi ha h0 hat).symm
        · rw [Function.update_of_ne hm] at hy
          exact hold hy
      · rw [Function.update_of_ne hd] at hy
        exact hold hy

/-- An inode that no slot has gets one. -/
theorem Coherent.enter (C : Coherent G s) {L : List Nat} {e : Nat} (hg : G 0 = some ⟨none, L⟩)
    (he : e ∈ L) (x : Slot) (w : Option Nat) (bit : Nat → Nat → Bool)
    (h1 : 1 ≤ x.num) (hnew : ∀ i, i < nrInode → ¬ s.At i x.dev x.num)
    (hbit : bit x.dev x.num = true) (hbits : ∀ d m, s.bit d m = true → bit d m = true)
    (hclean : x.dirt = true ∨ w = some e)
    (hcount : (s.inode e).count ≤ x.count) :
    Coherent (Function.update G 0 (some ⟨w, L⟩)) { s.enter e x with bit := bit } := by
  have hself : ({ s.enter e x with bit := bit } : State).inode e = x := Function.update_self ..
  have hother : ∀ j, j ≠ e → ({ s.enter e x with bit := bit } : State).inode j = s.inode j :=
    fun j hj => Function.update_of_ne hj ..
  -- the task holds the slot, so nobody else takes it
  have hpos : 0 < (s.inode e).count := by
    have hle := C.held _ e hg
    have := List.count_pos_iff.mpr he
    dsimp only at hle
    omega
  generalize hs : ({ s.enter e x with bit := bit } : State) = s' at hself hother ⊢
  have hdisk : ∀ d m, s'.onDisk d m = s.onDisk d m := by
    intro d m
    rw [← hs]
    rfl
  have hbit' : s'.bit = bit := by rw [← hs]
  have hkept : s'.kept = Function.update s.kept x.dev (Function.update (s.kept x.dev) x.num none) := by
    rw [← hs]
    rfl
  refine ⟨?_, ?_, ?_, ?_, ?_, ?_, ?_, ?_⟩
  · exact C.live_update
  · intro a b ha hb hne hab
    unfold State.At at hab
    by_cases hae : a = e
    · by_cases hbe : b = e
      · rw [hae, hbe]
      · rw [hae, hself, hother b hbe] at hab
        exact absurd hab (hnew b hb)
    · rw [hother a hae] at hne hab
      by_cases hbe : b = e
      · rw [hbe, hself] at hab
        exact absurd ⟨hab.1.symm, hab.2.symm⟩ (hnew a ha)
      · rw [hother b hbe] at hab
        exact C.unique a b ha hb hne hab
  · intro a ha hne
    rw [hbit']
    by_cases hae : a = e
    · rw [hae, hself]
      exact ⟨h1, hbit⟩
    · rw [hother a hae] at hne ⊢
      exact ⟨(C.alloc a ha hne).1, hbits _ _ (C.alloc a ha hne).2⟩
  · intro d
    rw [hbit']
    exact hbits d 0 (C.first d)
  · intro a ha hne
    by_cases hae : a = e
    · subst hae
      rw [hself]
      rcases hclean with hc | hc
      · exact Or.inl hc
      · exact Or.inr (Or.inr (Or.inr ⟨⟨w, L⟩, Function.update_self .., hc⟩))
    · rw [hother a hae] at hne ⊢
      rw [hdisk]
      exact (clean_own C hg ha hne).imp_right (Or.imp_right Or.inl)
  · intro a ha hne hzero
    by_cases hae : a = e
    · rw [hae, hself] at hzero
      omega
    · rw [hother a hae] at hne hzero ⊢
      exact C.linked a ha hne hzero
  · intro y a hy
    rw [Function.update_self] at hy
    cases hy
    have hle := C.held _ a hg
    dsimp only at hle ⊢
    by_cases hae : a = e
    · rw [hae] at hle ⊢
      rw [hself]
      omega
    · rw [hother a hae]
      exact hle
  · intro d m y hy
    rw [hkept] at hy
    have hold : s.kept d m = some y ∧ ¬ (d = x.dev ∧ m = x.num) := by
      by_cases hd : d = x.dev
      · subst hd
        rw [Function.update_self] at hy
        by_cases hm : m = x.num
        · rw [hm, Function.update_self] at hy
          cases hy
        · rw [Function.update_of_ne hm] at hy
          exact ⟨hy, fun h => hm h.2⟩
      · rw [Function.update_of_ne hd] at hy
        exact ⟨hy, fun h => hd h.1⟩
    obtain ⟨hd0, hm1, hdsk, habs⟩ := C.kept d m y hold.1
    refine ⟨hd0, hm1, by rw [hdisk]; exact hdsk, fun a ha hat => ?_⟩
    unfold State.At at hat
    by_cases hae : a = e
    · rw [hae, hself] at hat
      exact hold.2 ⟨hat.1.symm, hat.2.symm⟩
    · rw [hother a hae] at hat
      exact habs a ha hat

/-- An inode is freed: its slot is emptied. -/
theorem Coherent.free (C : Coherent G s) {L L' : List Nat} (hg : G 0 = some ⟨none, L⟩)
    (hL : L.Perm (i :: L')) (hi : i < nrInode) {dev num : Nat}
    (hkey : s.At i dev num) (h1 : 1 ≤ num) (hcount : ¬ (s.inode i).count > 1) :
    Coherent (Function.update G 0 (some ⟨none, L'⟩))
      { s.setInode i Slot.zero with
        bit := Function.update s.bit dev (Function.update (s.bit dev) num false) } := by
  generalize hs : ({ s.setInode i Slot.zero with
    bit := Function.update s.bit dev (Function.update (s.bit dev) num false) } : State) = s'
  have hself : s'.inode i = Slot.zero := by
    rw [← hs]
    exact Function.update_self ..
  have hother : ∀ j, j ≠ i → s'.inode j = s.inode j := by
    intro j hj
    rw [← hs]
    exact Function.update_of_ne hj ..
  have hdisk : ∀ d m, s'.onDisk d m = s.onDisk d m := by
    intro d m
    rw [← hs]
    rfl
  -- the bit of this inode is cleared, and no other
  have hbit : ∀ d m, ¬ (d = dev ∧ m = num) → s'.bit d m = s.bit d m := by
    intro d m hne
    rw [← hs]
    show Function.update s.bit dev (Function.update (s.bit dev) num false) d m = s.bit d m
    by_cases hd : d = dev
    · subst hd
      rw [Function.update_self, Function.update_of_ne fun hm => hne ⟨rfl, hm⟩]
    · rw [Function.update_of_ne hd]
  have hkept : s'.kept = s.kept := by
    rw [← hs]
    rfl
  have hlive : ∀ j, (s'.inode j).dev ≠ 0 → j ≠ i := by
    rintro j hj rfl
    rw [hself] at hj
    exact hj rfl
  have hnone : ∀ {a}, G 0 = some a → a.window = none := by
    intro a ha
    rw [hg] at ha
    cases ha
    rfl
  refine ⟨?_, ?_, ?_, ?_, ?_, ?_, ?_, ?_⟩
  · exact C.live_update
  · intro a b ha hb hne hab
    have hai := hlive a hne
    have hbi : b ≠ i := hlive b (by rw [hab.1]; exact hne)
    unfold State.At at hab
    rw [hother a hai] at hne hab
    rw [hother b hbi] at hab
    exact C.unique a b ha hb hne hab
  · intro a ha hne
    have hai := hlive a hne
    rw [hother a hai] at hne ⊢
    obtain ⟨hp, hb⟩ := C.alloc a ha hne
    refine ⟨hp, ?_⟩
    rw [hbit]
    · exact hb
    · rintro ⟨hd, hm⟩
      exact hai (C.unique a i ha hi hne ⟨by rw [hkey.1, hd], by rw [hkey.2, hm]⟩)
  · intro d
    rw [hbit d 0 (by omega)]
    exact C.first d
  · intro a ha hne
    have hai := hlive a hne
    rw [hother a hai] at hne ⊢
    rw [hdisk]
    exact (clean_own C hg ha hne).imp_right (Or.imp_right Or.inl)
  · intro a ha hne hzero
    have hai := hlive a hne
    rw [hother a hai] at hne hzero ⊢
    exact C.linked a ha hne hzero
  · intro y a hy
    rw [Function.update_self] at hy
    cases hy
    have hle := C.held _ a hg
    dsimp only at hle ⊢
    rw [hL.count_eq] at hle
    by_cases hai : a = i
    · subst hai
      rw [List.count_cons_self] at hle
      rw [hself]
      show L'.count a ≤ 0
      omega
    · rw [List.count_cons_of_ne (Ne.symm hai)] at hle
      rw [hother a hai]
      exact hle
  · intro d m y hy
    rw [hkept] at hy
    obtain ⟨hd0, hm1, hdsk, habs⟩ := C.kept d m y hy
    refine ⟨hd0, hm1, by rw [hdisk]; exact hdsk, fun a ha hat => ?_⟩
    have hai : a ≠ i := hlive a (by rw [hat.1]; exact hd0)
    unfold State.At at hat
    rw [hother a hai] at hat
    exact habs a ha hat

/-! ## Steps of the code -/

theorem stable_any (P : Option Hand → State → Prop) : Stable contract P :=
  fun _ _ _ _ _ _ h => h.elim

/-- Device, count and links of the slots. -/
def State.shape (s : State) (i : Nat) : Nat × Nat × Nat :=
  ((s.inode i).dev, (s.inode i).count, (s.inode i).d.nlinks)

/-- The task is in a call, with a window and references, and knows `K` of the
slots. -/
def Own (w : Option Nat) (L : List Nat) (K : (Nat → Nat × Nat × Nat) → Prop) (g : Option Hand)
    (s : State) : Prop :=
  g = some ⟨w, L⟩ ∧ K s.shape

/-- Nothing is known. -/
def Nil (_ : Nat → Nat × Nat × Nat) : Prop := True

variable {w w' : Option Nat} {L L' : List Nat} {K K' : (Nat → Nat × Nat × Nat) → Prop}

theorem read_own {α : Type} (f : State → α) (P : Option Hand → State → Prop) :
    Holds contract n (Code.read f : M α) P (fun a g s => P g s ∧ f s = a) :=
  holds_read (stable_any _) fun _ _ _ _ h => ⟨h, rfl⟩

theorem ask_own (P : Option Hand → State → Prop) :
    Holds contract n (Code.ask : M Nat) P (fun _ => P) :=
  holds_ask (stable_any _) fun _ _ _ _ _ h => h

theorem pure_own {α : Type} (a : α) (P : Option Hand → State → Prop) :
    Holds contract n (pure a : M α) P (fun _ => P) :=
  holds_pure fun _ _ _ _ h => h

/-- The references of a task to a slot do not exceed its count. -/
theorem held_le (C : Coherent G s) (hg : G 0 = some ⟨w, L⟩) (j : Nat) :
    L.count j ≤ (s.inode j).count := C.held _ j hg

theorem held_pos (C : Coherent G s) (hg : G 0 = some ⟨w, L⟩) (hi : i ∈ L) :
    0 < (s.inode i).count := by
  have h1 := held_le C hg i
  have h2 := List.count_pos_iff.mpr hi
  omega

theorem shape_setInode {x : Slot} (hdev : x.dev = (s.inode i).dev)
    (hcount : x.count = (s.inode i).count) (hlinks : x.d.nlinks = (s.inode i).d.nlinks) :
    (s.setInode i x).shape = s.shape := by
  funext j
  unfold State.shape
  by_cases hj : j = i
  · rw [hj, setInode_self, hdev, hcount, hlinks]
  · rw [setInode_of_ne hj]

/-- A slot is changed and keeps its inode and its count. -/
theorem modify_slot (i : Nat) (x : State → Slot) {P : Option Hand → State → Prop}
    (hP : ∀ g s, P g s → Own w L K g s)
    (hsame : ∀ s, (x s).dev = (s.inode i).dev ∧ (x s).num = (s.inode i).num ∧
      (x s).count = (s.inode i).count)
    (hclean : ∀ G s, Coherent G s → P (G 0) s → i < nrInode → (s.inode i).dev ≠ 0 →
      (x s).dirt = true ∨ (x s).d = s.onDisk (s.inode i).dev (s.inode i).num ∨
        (x s).d.nlinks = 0 ∨ w' = some i)
    (hlinks : ∀ G s, Coherent G s → P (G 0) s → (x s).d.nlinks ≠ (s.inode i).d.nlinks →
      0 < (s.inode i).count)
    (hw : ∀ j, j ≠ i → w = some j → w' = some j)
    (hK : ∀ g s, P g s → K s.shape → K' (s.setInode i (x s)).shape) :
    Holds contract n (Code.modify fun s => s.setInode i (x s)) P (fun _ => Own w' L K') := by
  refine holds_modify (stable_any _) ?_
  intro G t s C hs
  obtain ⟨hg, hk⟩ := hP _ _ hs
  obtain rfl : t = 0 := C.live t _ hg
  obtain ⟨hdev, hnum, hcount⟩ := hsame s
  refine ⟨trivial, some ⟨w', L⟩, C.update hg (x s) ⟨w', L⟩ hdev hnum ?_ hw ?_ ?_, rfl,
    hK _ s hs hk⟩
  · intro hi h0
    rw [hdev] at h0
    rw [hdev, hnum]
    exact hclean G s C hs hi h0
  · intro hi h0 hzero
    rw [hdev] at h0
    rw [hcount] at hzero
    by_cases heq : (x s).d.nlinks = (s.inode i).d.nlinks
    · rw [heq]
      exact C.linked i hi h0 hzero
    · have := hlinks G s C hs heq
      omega
  · intro j
    have hle := held_le C hg j
    split
    · next hj =>
      rw [hcount, ← hj]
      exact hle
    · exact hle

/-- A change that marks the inode and keeps its links. A window on the slot is
closed. -/
theorem change_spec (i : Nat) {f : Record → Record} (hf : ∀ d, (f d).nlinks = d.nlinks)
    (hw : ∀ j, j ≠ i → w = some j → w' = some j) :
    Holds contract n (Code.modify fun s => s.change i f) (Own w L K) (fun _ => Own w' L K) := by
  refine modify_slot i _ (fun _ _ h => h) (fun _ => ⟨rfl, rfl, rfl⟩) (fun _ _ _ _ _ _ => Or.inl rfl)
    (fun _ s _ _ h => absurd (hf _) h) hw ?_
  intro g s _ hk
  show K (s.change i f).shape
  rw [show (s.change i f).shape = s.shape from shape_setInode rfl rfl (hf _)]
  exact hk

/-- A change that marks an inode the task has. -/
theorem change_links (i : Nat) {f : Record → Record} (hi : i ∈ L)
    (hw : ∀ j, j ≠ i → w = some j → w' = some j) :
    Holds contract n (Code.modify fun s => s.change i f) (Own w L K) (fun _ => Own w' L Nil) :=
  modify_slot i _ (fun _ _ h => h) (fun _ => ⟨rfl, rfl, rfl⟩) (fun _ _ _ _ _ _ => Or.inl rfl)
    (fun _ _ C hs _ => held_pos C hs.1 hi) hw fun _ _ _ _ => trivial

/-- A change that does not mark the inode opens a window. -/
theorem silent_spec (i : Nat) {f : Record → Record} (hf : ∀ d, (f d).nlinks = d.nlinks) :
    Holds contract n (Code.modify fun s => s.silent i f) (Own none L K)
      (fun _ => Own (some i) L K) := by
  refine modify_slot i _ (fun _ _ h => h) (fun _ => ⟨rfl, rfl, rfl⟩)
    (fun _ _ _ _ _ _ => Or.inr (Or.inr (Or.inr rfl))) (fun _ s _ _ h => absurd (hf _) h)
    (fun _ _ h => by cases h) ?_
  intro g s _ hk
  show K (s.silent i f).shape
  rw [show (s.silent i f).shape = s.shape from shape_setInode rfl rfl (hf _)]
  exact hk

/-- A change under a condition. -/
theorem changeIf_spec (i : Nat) (c : State → Prop) [DecidablePred c] {f : Record → Record}
    (hf : ∀ d, (f d).nlinks = d.nlinks) :
    Holds contract n (Code.modify fun s => if c s then s.change i f else s) (Own none L K)
      (fun _ => Own none L K) := by
  refine holds_modify (stable_any _) ?_
  rintro G t s C ⟨hg, hk⟩
  obtain rfl : t = 0 := C.live t _ hg
  refine ⟨trivial, G 0, ?_, hg, ?_⟩
  · rw [Function.update_eq_self]
    split
    · have hC := C.update (i := i) hg { s.inode i with d := f (s.inode i).d, dirt := true }
        ⟨none, L⟩ rfl rfl (fun _ _ => Or.inl rfl) (fun _ _ h => h) ?_ ?_
      · rw [← hg, Function.update_eq_self] at hC
        exact hC
      · intro hi h0 hzero
        dsimp only
        rw [hf]
        exact C.linked i hi h0 hzero
      · intro j
        have hle := held_le C hg j
        split
        · next hj =>
          rw [hj] at hle ⊢
          exact hle
        · exact hle
    · exact C
  · split
    · rw [show (s.change i f).shape = s.shape from shape_setInode rfl rfl (hf _)]
      exact hk
    · exact hk

/-- A slot that has one link. -/
def One (i : Nat) (k : Nat → Nat × Nat × Nat) : Prop := (k i).2.2 = 1

/-- A slot the task has loses its last link. -/
theorem unmake_spec {f : Nat → Nat} (hi : i ∈ L) (hf : ∀ s : State, K s.shape →
    f (s.inode i).d.nlinks = 0) :
    Holds contract n (unmake i f) (Own none L K) (fun _ => Own none L Nil) :=
  modify_slot i _ (fun _ _ h => h) (fun _ => ⟨rfl, rfl, rfl⟩)
    (fun _ s _ hs _ _ => Or.inr (Or.inr (Or.inl (hf s hs.2))))
    (fun _ _ C hs _ => held_pos C hs.1 hi) (fun _ _ h => h) fun _ _ _ _ => trivial

/-- What is known of the links alone. -/
def OfLinks (K : (Nat → Nat × Nat × Nat) → Prop) : Prop :=
  ∀ k k' : Nat → Nat × Nat × Nat, (∀ i, (k i).2.2 = (k' i).2.2) → K k → K k'

/-- A change of the count alone. -/
theorem count_spec (i : Nat) (c : Nat → Nat) {P : Option Hand → State → Prop} (hK : OfLinks K)
    (hP : ∀ g s, P g s → Own none L K g s)
    (hc : ∀ G s, Coherent G s → P (G 0) s → (c (s.inode i).count = 0 →
      (s.inode i).dev = 0 ∨ (s.inode i).d.nlinks ≠ 0) ∧
      ∀ j, L'.count j ≤ if j = i then c (s.inode i).count else (s.inode j).count) :
    Holds contract n (Code.modify fun s => s.setInode i { s.inode i with count := c (s.inode i).count })
      P (fun _ => Own none L' K) := by
  refine holds_modify (stable_any _) ?_
  intro G t s C hs
  obtain ⟨hg, hk⟩ := hP _ _ hs
  obtain rfl : t = 0 := C.live t _ hg
  obtain ⟨hzero, hheld⟩ := hc G s C hs
  refine ⟨trivial, some ⟨none, L'⟩, C.update hg _ ⟨none, L'⟩ rfl rfl ?_ (fun _ _ h => h) ?_ hheld,
    rfl, ?_⟩
  · intro hi h0
    rcases clean_own C hg hi h0 with h | h | h
    · exact Or.inl h
    · exact Or.inr (Or.inl h)
    · exact Or.inr (Or.inr (Or.inl h))
  · intro _ h0 hcount
    rcases hzero hcount with hd | hl
    · exact absurd hd h0
    · exact hl
  · refine hK _ _ (fun j => ?_) hk
    unfold State.shape
    by_cases hj : j = i
    · rw [hj, setInode_self]
    · rw [setInode_of_ne hj]

theorem addCount_spec (i : Nat) (hK : OfLinks K) :
    Holds contract n (Code.modify fun s => s.addCount i) (Own none L K)
      (fun _ => Own none (i :: L) K) := by
  refine count_spec i (· + 1) hK (fun _ _ h => h) ?_
  rintro G s C ⟨hg, -⟩
  refine ⟨fun h => absurd h (Nat.succ_ne_zero _), fun j => ?_⟩
  have hle := held_le C hg j
  by_cases hj : j = i
  · subst hj
    rw [if_pos rfl, List.count_cons_self]
    omega
  · rw [if_neg hj, List.count_cons_of_ne (Ne.symm hj)]
    exact hle

/-- A reference is given up: another one is left, or the inode is to be kept. -/
theorem dropCount_spec (i : Nat) {P : Option Hand → State → Prop} (hK : OfLinks K)
    (hL : L.Perm (i :: L')) (hP : ∀ g s, P g s → Own none L K g s)
    (hlast : ∀ g s, P g s → (s.inode i).count > 1 ∨ (s.inode i).dev = 0 ∨
      (s.inode i).d.nlinks ≠ 0) :
    Holds contract n (Code.modify fun s => s.dropCount i) P (fun _ => Own none L' K) := by
  refine count_spec i (· - 1) hK hP ?_
  intro G s C hs
  obtain ⟨hg, -⟩ := hP _ _ hs
  constructor
  · intro hzero
    rcases hlast _ _ hs with h | h | h
    · omega
    · exact Or.inl h
    · exact Or.inr h
  · intro j
    have hle := held_le C hg j
    rw [hL.count_eq] at hle
    by_cases hj : j = i
    · subst hj
      rw [List.count_cons_self] at hle
      rw [if_pos rfl]
      omega
    · rw [List.count_cons_of_ne (Ne.symm hj)] at hle
      rw [if_neg hj]
      exact hle

/-! ## The procedures -/

theorem writeInode_spec (hi : i < nrInode) :
    Holds contract n (writeInode i) (Own w L K) (fun _ => Own w L K) := by
  unfold writeInode
  refine holds_bind (read_own _ _) fun x => ?_
  refine holds_ite (fun _ => (pure_own () _).conseq (fun _ _ h => h.1) fun _ _ _ h => h) fun hx => ?_
  refine holds_bind (ask_own _) fun ok => holds_ite (fun _ => holds_panic) fun _ => ?_
  refine holds_atom (stable_any _) ?_
  rintro G t s C ⟨⟨hg, hk⟩, rfl⟩ _
  have hne : (s.inode i).dev ≠ 0 := by
    intro h0
    simp [h0] at hx
  refine ⟨?_, G t, ?_, hg, ?_⟩
  · intro dev num h1 hat
    rw [onDisk_store (C.alloc i hi hne).1 h1, if_neg fun h => hat ⟨h.1.symm, h.2.symm⟩]
  · rw [Function.update_eq_self]
    exact C.store hi hne
  · have hshape : (s.store i).shape = s.shape :=
      shape_setInode (x := { s.inode i with dirt := false }) rfl rfl rfl
    rw [hshape]
    exact hk

/-- What the specification of a procedure is about. -/
structure Frame where
  w    : Option Nat
  refs : List Nat
  rest : List Nat
  K    : (Nat → Nat × Nat × Nat) → Prop

def Before : Proc → Frame → Option Hand → State → Prop
  | .syncInodes _, F, g, s => Own F.w F.refs F.K g s
  | .put i, F, g, s => Own none F.refs F.K g s ∧ OfLinks F.K ∧ F.refs.Perm (i :: F.rest) ∧
      i < nrInode ∧ (s.inode i).dev ≠ 0
  | .scan dev nr empty, F, g, s => Own none (empty :: F.rest) Nil g s ∧ dev ≠ 0 ∧ 1 ≤ nr ∧
      empty < nrInode
  | .walk i, F, g, s => Own none (i :: F.rest) Nil g s ∧ i < nrInode
  | .add _ _, F, g, s => Own none F.refs F.K g s
  | .write _, F, g, s => Own none F.refs F.K g s

/-- A slot with one more reference. -/
def Taken (L : List Nat) (r : Ret) (g : Option Hand) (s : State) : Prop :=
  ∃ j, r = some j ∧ j < nrInode ∧ Own none (j :: L) Nil g s

def After : Proc → Frame → Ret → Option Hand → State → Prop
  | .syncInodes _, F, _, g, s => Own F.w F.refs F.K g s
  | .put _, F, _, g, s => Own none F.rest F.K g s
  | .scan _ _ _, F, r, g, s => Taken F.rest r g s
  | .walk _, F, r, g, s => r = none ∧ Own none F.rest Nil g s ∨ Taken F.rest r g s
  | .add i marked, F, r, g, s =>
      (r = none → Own none F.refs F.K g s) ∧
      (r ≠ none → Own (if marked then some i else none) F.refs F.K g s)
  | .write _, F, _, g, s => Own none F.refs F.K g s

section Procedures

variable (hcall : ∀ p F, Holds contract n (Code.call p) (Before p F) (After p F))
include hcall

theorem perhapsSync_spec : Holds contract n perhapsSync (Own w L K) (fun _ => Own w L K) := by
  refine holds_bind (ask_own _) fun sync => ?_
  refine holds_when (fun _ => ?_) fun _ _ _ _ h _ => h
  exact holds_bind (hcall (.syncInodes 0) ⟨w, L, [], K⟩) fun _ => pure_own _ _

theorem bread_spec : Holds contract n bread (Own w L K) (fun _ => Own w L K) :=
  holds_bind (perhapsSync_spec hcall) fun _ => ask_own _

theorem syncInodes_spec (i : Nat) (F : Frame) :
    Holds contract n (syncInodesBody i) (Before (.syncInodes i) F) (After (.syncInodes i) F) := by
  refine holds_ite (fun hi => ?_) fun _ => pure_own _ _
  exact holds_bind (writeInode_spec hi) fun _ => hcall (.syncInodes (i + 1)) F

theorem truncate_spec (i : Nat) :
    Holds contract n (truncate i) (Own none L K) (fun _ => Own none L K) := by
  refine holds_bind (ask_own _) fun regular => holds_ite (fun _ => pure_own _ _) fun _ => ?_
  refine holds_bind (silent_spec i fun _ => rfl) fun _ => ?_
  refine holds_bind (bread_spec hcall) fun _ => holds_bind (ask_own _) fun time => ?_
  refine change_spec i (fun _ => rfl) fun j hj hw => ?_
  cases hw
  exact absurd rfl hj

omit hcall in
/-- `free_inode` of a slot that has an inode and no links. -/
theorem freeInode_spec (hK : OfLinks K) (hL : L.Perm (i :: L')) (hi : i < nrInode) :
    Holds contract n (freeInode i) (Own none L fun k => K k ∧ (k i).1 ≠ 0)
      (fun _ => Own none L' K) := by
  unfold freeInode
  refine holds_bind (read_own _ _) fun x => ?_
  refine holds_ite (fun h0 => ?_) fun h0 => ?_
  · refine holds_fact (p := False) (fun h => h.elim) ?_
    rintro g s ⟨⟨-, -, hne⟩, rfl⟩
    exact hne h0
  refine holds_bind (ask_own _) fun ok => holds_ite (fun _ => holds_panic) fun hok => ?_
  refine holds_modify (stable_any _) ?_
  rintro G t s C ⟨⟨hg, hk, -⟩, rfl⟩
  obtain rfl : t = 0 := C.live t _ hg
  have hcount : ¬ (s.inode i).count > 1 := fun h => hok (Or.inl h)
  have hlinks : (s.inode i).d.nlinks = 0 := by
    by_contra h
    exact hok (Or.inr (Or.inl h))
  have h1 : 1 ≤ (s.inode i).num := by
    by_contra h
    exact hok (Or.inr (Or.inr (Or.inl (by omega))))
  refine ⟨trivial, some ⟨none, L'⟩, C.free hg hL hi ⟨rfl, rfl⟩ h1 hcount, rfl, ?_⟩
  refine hK _ _ (fun j => ?_) hk
  show (s.inode j).d.nlinks = (Function.update s.inode i Slot.zero j).d.nlinks
  by_cases hj : j = i
  · rw [hj, Function.update_self, hlinks]
    rfl
  · rw [Function.update_of_ne hj]

theorem put_spec (i : Nat) (F : Frame) :
    Holds contract n (putBody i) (Before (.put i) F) (After (.put i) F) := by
  refine holds_fact (p := OfLinks F.K ∧ F.refs.Perm (i :: F.rest) ∧ i < nrInode) ?_
    fun _ _ h => ⟨h.2.1, h.2.2.1, h.2.2.2.1⟩
  rintro ⟨hK, hL, hi⟩
  have hown : ∀ {x g s}, Before (.put i) F g s ∧ (s : State).inode i = x →
      Own none F.refs F.K g s := fun h => h.1.1
  unfold putBody
  refine holds_bind (read_own _ _) fun x => ?_
  refine holds_ite (fun hx => ?_) fun _ => holds_ite (fun _ => ?_) fun hl =>
    holds_ite (fun _ => ?_) fun _ => ?_
  · refine holds_bind (dropCount_spec i hK hL (fun _ _ h => hown h) ?_) fun _ => pure_own _ _
    rintro g s ⟨-, rfl⟩
    exact Or.inl hx
  · refine holds_bind (R := fun _ => Own none F.refs fun k => F.K k ∧ (k i).1 ≠ 0)
      ((truncate_spec hcall i).pre ?_) fun _ => ?_
    · rintro g s ⟨⟨⟨hg, hk⟩, -, -, -, hne⟩, -⟩
      exact ⟨hg, hk, hne⟩
    · exact holds_bind (freeInode_spec hK hL hi) fun _ => pure_own _ _
  · refine holds_bind (R := fun _ => Own none F.refs fun k => F.K k ∧ (k i).1 ≠ 0)
      ((writeInode_spec hi).pre ?_) fun _ => ?_
    · rintro g s ⟨⟨⟨hg, hk⟩, -, -, -, hne⟩, -⟩
      exact ⟨hg, hk, hne⟩
    · refine (hcall (.put i) F).pre ?_
      rintro g s ⟨hg, hk, hne⟩
      exact ⟨⟨hg, hk⟩, hK, hL, hi, hne⟩
  · refine holds_bind (dropCount_spec i hK hL (fun _ _ h => hown h) ?_) fun _ => pure_own _ _
    rintro g s ⟨-, rfl⟩
    exact Or.inr (Or.inr hl)

theorem iput_call (hK : OfLinks K) (hL : L.Perm (i :: L')) (hi : i < nrInode) :
    Holds contract n (iput i) (Own none L K) (fun _ => Own none L' K) := by
  unfold iput
  refine holds_bind (read_own _ _) fun x => holds_ite (fun _ => holds_panic) fun _ => ?_
  refine holds_ite (fun h0 => ?_) fun h0 => ?_
  · refine dropCount_spec i hK hL (fun _ _ h => h.1) ?_
    rintro g s ⟨-, rfl⟩
    exact Or.inr (Or.inl h0)
  refine holds_bind (R := fun _ => Own none L fun k => K k ∧ (k i).1 ≠ 0)
    ((perhapsSync_spec hcall).pre ?_) fun _ => ?_
  · rintro g s ⟨⟨hg, hk⟩, rfl⟩
    exact ⟨hg, hk, h0⟩
  refine holds_bind ((hcall (.put i) ⟨none, L, L', K⟩).pre ?_) fun _ => pure_own _ _
  rintro g s ⟨hg, hk, hne⟩
  exact ⟨⟨hg, hk⟩, hK, hL, hi, hne⟩

omit hcall in
theorem ofLinks_nil : OfLinks Nil := fun _ _ _ _ => trivial

omit hcall in
theorem ofLinks_one (i : Nat) : OfLinks (One i) := by
  intro k k' h hk
  unfold One
  rw [← h i]
  exact hk

omit hcall in
/-- `get_empty_inode` finds an unused slot of the table. -/
theorem lookEmpty_unused {inode : Nat → Slot} {m last : Nat} {found : Option Nat}
    (hfound : ∀ j, found = some j → j < nrInode ∧ (inode j).count = 0)
    (h : (lookEmpty inode m last found).2 = some i) : i < nrInode ∧ (inode i).count = 0 := by
  induction m generalizing last found with
  | zero => exact hfound i h
  | succ m ih =>
    unfold lookEmpty at h
    dsimp only at h
    split at h
    · next hzero =>
      have hhere : ∀ j, some ((last + 1) % nrInode) = some j →
          j < nrInode ∧ (inode j).count = 0 := by
        intro j hj
        cases hj
        exact ⟨Nat.mod_lt _ (by decide), hzero⟩
      split at h
      · exact hhere i h
      · exact ih hhere h
    · exact ih hfound h

omit hcall in
/-- `get_empty_inode`: the slot has one reference. -/
theorem getEmptyInode_spec :
    Holds contract n getEmptyInode (Own none L Nil) (fun r g s => ∃ j, r = some j ∧ j < nrInode ∧
      Own none (j :: L) (fun k => (k j).2.1 = 1) g s) := by
  unfold getEmptyInode
  refine holds_bind (R := fun p g s => Own none L Nil g s ∧
      ∀ i, p.2 = some i → i < nrInode ∧ (s.inode i).count = 0) (holds_read (stable_any _) ?_)
    fun p => ?_
  · intro G t s _ h
    exact ⟨h, fun i hi => lookEmpty_unused (fun _ h => by cases h) hi⟩
  obtain ⟨last, found⟩ := p
  refine holds_bind (R := fun _ g s => Own none L Nil g s ∧
      ∀ i, found = some i → i < nrInode ∧ (s.inode i).count = 0) (holds_modify (stable_any _) ?_)
    fun _ => ?_
  · rintro G t s C ⟨⟨hg, hk⟩, hempty⟩
    refine ⟨trivial, G t, ?_, ⟨hg, hk⟩, hempty⟩
    rw [Function.update_eq_self]
    exact ⟨C.live, C.unique, C.alloc, C.first, C.clean, C.linked, C.held, C.kept⟩
  cases found with
  | none => exact holds_panic
  | some i =>
    refine holds_fact (p := i < nrInode) (fun hi => ?_) fun _ _ h => (h.2 i rfl).1
    refine holds_bind (R := fun _ => Own none L fun k => (k i).2.1 = 0)
      ((writeInode_spec hi).pre fun g s h => ⟨h.1.1, (h.2 i rfl).2⟩) fun _ => ?_
    refine holds_bind (read_own _ _) fun dirt => holds_ite (fun _ => holds_panic) fun hdirt => ?_
    refine holds_bind (R := fun _ => Own none (i :: L) fun k => (k i).2.1 = 1)
      (holds_modify (stable_any _) ?_) fun _ => holds_pure fun _ _ _ _ h => ⟨i, rfl, hi, h⟩
    rintro G t s C ⟨⟨hg, hcount⟩, rfl⟩
    obtain rfl : t = 0 := C.live t _ hg
    refine ⟨trivial, _, C.discard hg hi hcount (by simpa using hdirt), rfl, ?_⟩
    show (Function.update s.inode i { Slot.zero with count := 1 } i).count = 1
    rw [Function.update_self]

omit hcall in
/-- The record is read: the slot agrees with the disk. -/
theorem readInode_spec (e : Nat) (he : e ∈ L) (was : Option Record) :
    Holds contract n (readInode e was)
      (fun g s => Own (some e) L Nil g s ∧ ∀ d, was = some d →
        s.onDisk (s.inode e).dev (s.inode e).num = d) (fun _ => Own none L Nil) := by
  refine holds_bind (ask_own _) fun ok => holds_ite (fun _ => holds_panic) fun _ => ?_
  refine holds_atom (stable_any _) ?_
  rintro G t s C ⟨⟨hg, -⟩, hwas⟩ -
  obtain rfl : t = 0 := C.live t _ hg
  refine ⟨?_, some ⟨none, L⟩, ?_, rfl, trivial⟩
  · intro d hd
    rw [setInode_self]
    exact hwas d hd
  · refine C.update hg _ ⟨none, L⟩ rfl rfl (fun _ _ => Or.inr (Or.inl rfl)) ?_ ?_ ?_
    · intro j hj hw
      cases hw
      exact absurd rfl hj
    · intro _ _ hzero
      exact absurd hzero (Nat.ne_of_gt (held_pos C hg he))
    · intro j
      have hle := held_le C hg j
      by_cases hj : j = e
      · rw [if_pos hj, ← hj]
        exact hle
      · rw [if_neg hj]
        exact hle

theorem scan_spec (dev nr empty : Nat) (F : Frame) :
    Holds contract n (scanBody dev nr empty) (Before (.scan dev nr empty) F)
      (After (.scan dev nr empty) F) := by
  refine holds_fact (p := dev ≠ 0 ∧ 1 ≤ nr ∧ empty < nrInode) ?_ fun _ _ h => h.2
  rintro ⟨h0, h1, he⟩
  have hmem : empty ∈ empty :: F.rest := List.mem_cons_self ..
  unfold scanBody
  refine holds_bind (read_own _ _) fun found => ?_
  cases found with
  | none =>
    refine holds_bind (read_own _ _) fun was => ?_
    refine holds_bind (R := fun _ g s => Own (some empty) (empty :: F.rest) Nil g s ∧
      ∀ d, was = some d → s.onDisk (s.inode empty).dev (s.inode empty).num = d)
      (holds_atom (stable_any _) ?_) fun _ => ?_
    · rintro G t s C ⟨⟨⟨⟨hg, -⟩, -⟩, hnone⟩, rfl⟩ hbit
      obtain rfl : t = 0 := C.live t _ hg
      refine ⟨trivial, some ⟨some empty, empty :: F.rest⟩, ?_, ⟨rfl, trivial⟩, ?_⟩
      · refine C.enter hg hmem { s.inode empty with dev := dev, num := nr } (some empty) s.bit h1 ?_
          hbit (fun _ _ h => h) (Or.inr rfl) (Nat.le_refl _)
        rintro i hi ⟨hd, hn⟩
        have h := List.find?_eq_none.mp hnone i (List.mem_range.mpr hi)
        simp [hd, hn] at h
      · intro d hd
        have hslot : (s.enter empty { s.inode empty with dev := dev, num := nr }).inode empty =
            { s.inode empty with dev := dev, num := nr } := setInode_self ..
        rw [hslot]
        exact (C.kept dev nr d hd).2.2.1
    · refine holds_bind (readInode_spec empty hmem was) fun _ => ?_
      exact holds_pure fun _ _ _ _ h => ⟨empty, rfl, he, h⟩
  | some i =>
    refine holds_fact (p := i < nrInode) (fun hi => ?_)
      fun _ _ h => List.mem_range.mp (List.mem_of_find?_eq_some h.2)
    refine holds_bind ((addCount_spec i ofLinks_nil).pre fun _ _ h => h.1.1) fun _ => ?_
    refine holds_bind (ask_own _) fun mounted => holds_ite (fun _ => ?_) fun hm => ?_
    · refine holds_bind (iput_call hcall ofLinks_nil (List.Perm.swap ..) he) fun _ => ?_
      exact holds_pure fun _ _ _ _ h => ⟨i, rfl, hi, h⟩
    · refine holds_bind (iput_call hcall ofLinks_nil (List.Perm.refl _) hi) fun _ => ?_
      refine (hcall (.scan mounted rootIno empty) F).pre fun _ _ h => ?_
      exact ⟨h, hm, by decide, he⟩

theorem iget_call (dev : Nat) {nr : Nat} (h1 : 1 ≤ nr) :
    Holds contract n (iget dev nr) (Own none L Nil) (fun r g s => Taken L r g s) := by
  refine holds_ite (fun _ => holds_panic) fun h0 => ?_
  refine holds_bind getEmptyInode_spec fun empty => ?_
  cases empty with
  | none =>
    refine holds_pure fun _ _ _ _ h => ?_
    obtain ⟨j, hj, -⟩ := h
    cases hj
  | some e =>
    refine (hcall (.scan dev nr e) ⟨none, [], L, Nil⟩).pre ?_
    rintro g s ⟨j, hj, he, hg, -⟩
    cases hj
    exact ⟨⟨hg, trivial⟩, h0, h1, he⟩

theorem walk_spec (i : Nat) (F : Frame) :
    Holds contract n (walkBody i) (Before (.walk i) F) (After (.walk i) F) := by
  refine holds_fact (p := i < nrInode) (fun hi => ?_) fun _ _ h => h.2
  unfold walkBody
  refine holds_bind ((bread_spec hcall).pre fun _ _ h => h.1) fun path => ?_
  refine holds_ite (fun _ => ?_) fun _ => holds_ite (fun _ => ?_) fun _ => ?_
  · exact holds_pure fun _ _ _ _ h => Or.inr ⟨i, rfl, hi, h⟩
  · refine holds_bind (iput_call hcall ofLinks_nil (List.Perm.refl _) hi) fun _ => ?_
    exact holds_pure fun _ _ _ _ h => Or.inl ⟨rfl, h⟩
  · refine holds_bind (ask_own _) fun dev => holds_bind (ask_own _) fun nr => ?_
    refine holds_bind (iput_call hcall ofLinks_nil (List.Perm.refl _) hi) fun _ => ?_
    refine holds_bind (iget_call hcall dev (by omega)) fun next => ?_
    cases next with
    | none =>
      refine holds_pure fun _ _ _ _ h => ?_
      obtain ⟨j, hj, -⟩ := h
      cases hj
    | some j =>
      refine (hcall (.walk j) F).pre ?_
      rintro g s ⟨j', hj, hlt, h⟩
      cases hj
      exact ⟨h, hlt⟩

theorem createBlock_spec (i : Nat) :
    Holds contract n (createBlock i) (Own none L K) (fun _ => Own none L K) := by
  refine holds_bind (ask_own _) fun z => holds_bind (bread_spec hcall) fun block => ?_
  refine holds_bind (changeIf_spec i _ fun _ => rfl) fun _ => bread_spec hcall

omit hcall in
theorem grow_spec (i size : Nat) :
    Holds contract n (grow i size) (Own none L K) (fun _ => Own none L K) :=
  changeIf_spec i _ fun _ => rfl

omit hcall in
/-- `i_mtime` alone: nothing is lost if the inode is dirty, if the time is the same,
or if the caller marks the inode. -/
theorem touch_spec (i : Nat) (marked : Bool) :
    Holds contract n (touch i marked) (Own none L K)
      (fun _ => Own (if marked then some i else none) L K) := by
  refine holds_bind (ask_own _) fun time => ?_
  refine holds_atom (stable_any _) ?_
  rintro G t s C ⟨hg, hk⟩ hallow
  obtain rfl : t = 0 := C.live t _ hg
  have hshape : (s.silent i fun d => { d with mtime := time }).shape = s.shape :=
    shape_setInode rfl rfl rfl
  refine ⟨trivial, some ⟨if marked then some i else none, L⟩, ?_, rfl, by rw [hshape]; exact hk⟩
  refine C.update hg { s.inode i with d := { (s.inode i).d with mtime := time } } _ rfl rfl ?_
    (fun _ _ h => by cases h) ?_ ?_
  · intro hi h0
    rcases hallow with hm | hd | ht
    · rw [hm]
      exact Or.inr (Or.inr (Or.inr rfl))
    · exact Or.inl hd
    · have hsame : { (s.inode i).d with mtime := time } = (s.inode i).d := by
        rw [← ht]
      rw [hsame]
      rcases clean_own C hg hi h0 with h | h | h
      · exact Or.inl h
      · exact Or.inr (Or.inl h)
      · exact Or.inr (Or.inr (Or.inl h))
  · intro hi h0 hzero
    exact C.linked i hi h0 hzero
  · intro j
    have hle := held_le C hg j
    by_cases hj : j = i
    · rw [if_pos hj, ← hj]
      exact hle
    · rw [if_neg hj]
      exact hle

theorem add_spec (i : Nat) (marked : Bool) (F : Frame) :
    Holds contract n (addBody i marked) (Before (.add i marked) F) (After (.add i marked) F) := by
  unfold addBody
  refine holds_bind (bread_spec hcall) fun entry => ?_
  refine holds_ite (fun _ => ?_) fun _ => holds_ite (fun _ => ?_) fun _ => ?_
  · exact holds_pure fun _ _ _ _ h => ⟨fun _ => h, fun hne => absurd rfl hne⟩
  · refine holds_bind (createBlock_spec hcall i) fun block => ?_
    refine holds_ite (fun _ => ?_) fun _ => hcall (.add i marked) F
    exact holds_pure fun _ _ _ _ h => ⟨fun _ => h, fun hne => absurd rfl hne⟩
  · refine holds_bind (ask_own _) fun size => holds_bind (grow_spec i size) fun _ => ?_
    refine holds_bind (touch_spec i marked) fun _ => ?_
    exact holds_pure fun _ _ _ _ h => ⟨fun hn => (by cases hn), fun _ => h⟩

theorem write_spec (i : Nat) (F : Frame) :
    Holds contract n (writeBody i) (Before (.write i) F) (After (.write i) F) := by
  have hend : Holds contract n
      (do touch i false
          return (none : Ret)) (Own none F.refs F.K) (fun _ => Own none F.refs F.K) :=
    holds_bind (touch_spec i false) fun _ => pure_own _ _
  unfold writeBody
  refine holds_bind (ask_own _) fun more => holds_bind (R := fun _ => Own none F.refs F.K) ?_
    fun block => ?_
  · exact holds_ite (fun _ => pure_own _ _) fun _ => createBlock_spec hcall i
  refine holds_ite (fun _ => hend) fun _ => holds_bind (bread_spec hcall) fun ok => ?_
  refine holds_ite (fun _ => hend) fun _ => holds_bind (ask_own _) fun pos => ?_
  exact holds_bind (grow_spec i pos) fun _ => hcall (.write i) F

end Procedures

theorem call_spec (n : Nat) (p : Proc) (F : Frame) :
    Holds contract n (Code.call p) (Before p F) (After p F) := by
  refine holds_call (fun _ _ => stable_any _) ?_ n p F
  intro m hcall q E
  cases q with
  | syncInodes i => exact syncInodes_spec hcall i E
  | scan dev nr empty => exact scan_spec hcall dev nr empty E
  | put i => exact put_spec hcall i E
  | walk i => exact walk_spec hcall i E
  | add i marked => exact add_spec hcall i marked E
  | write i => exact write_spec hcall i E

/-! ## The calls, from any state -/

/-- A reference to an inode is given back. -/
theorem iput_spec (hK : OfLinks K) (hL : L.Perm (i :: L')) (hi : i < nrInode) :
    Holds contract n (iput i) (Own none L K) (fun _ => Own none L' K) :=
  iput_call (call_spec n) hK hL hi

theorem freeBit_spec {dev j : Nat} (h : freeBit s dev = some j) : s.bit dev j = false := by
  have := List.find?_some h
  simpa using this

/-- `new_inode`: an inode with one link, that no other slot has. -/
theorem newInode_spec (dev : Nat) :
    Holds contract n (newInode dev) (Own none L Nil) (fun r g s => r = none ∧ Own none L Nil g s ∨
      ∃ j, r = some j ∧ j < nrInode ∧ Own none (j :: L) (One j) g s) := by
  refine holds_ite (fun _ => holds_panic) fun h0 => ?_
  refine holds_bind getEmptyInode_spec fun empty => ?_
  cases empty with
  | none =>
    refine holds_pure fun _ _ _ _ h => ?_
    obtain ⟨j, hj, -⟩ := h
    cases hj
  | some e =>
    refine holds_fact (p := e < nrInode) (fun he => ?_) fun _ _ h => ?_
    swap
    · obtain ⟨j, hj, hlt, -⟩ := h
      cases hj
      exact hlt
    refine holds_bind (R := fun j g s => Own none (e :: L) (fun k => (k e).2.1 = 1) g s ∧
      freeBit s dev = j) ((read_own _ _).pre ?_) fun j => ?_
    · rintro g s ⟨e', he', -, h⟩
      cases he'
      exact h
    refine holds_bind (ask_own _) fun uid => holds_bind (ask_own _) fun gid =>
      holds_bind (ask_own _) fun time => ?_
    cases j with
    | none =>
      refine holds_bind ((iput_spec ofLinks_nil (List.Perm.refl _) he).pre
        fun _ _ h => ⟨h.1.1, trivial⟩) fun _ => ?_
      exact holds_pure fun _ _ _ _ h => Or.inl ⟨rfl, h⟩
    | some j =>
      refine holds_bind (R := fun _ => Own none (e :: L) (One e)) (holds_modify (stable_any _) ?_)
        fun _ => holds_pure fun _ _ _ _ h => Or.inr ⟨e, rfl, he, h⟩
      rintro G t s C ⟨⟨hg, hcount⟩, hfree⟩
      obtain rfl : t = 0 := C.live t _ hg
      have hbit := freeBit_spec hfree
      refine ⟨trivial, some ⟨none, e :: L⟩, ?_, rfl, ?_⟩
      · refine C.enter hg (List.mem_cons_self ..) _ none _ ?_ ?_ ?_ ?_ (Or.inl rfl)
          (Nat.le_of_eq hcount)
        -- bit 0 of a map is never free
        · show 1 ≤ j
          rcases Nat.eq_zero_or_pos j with hj | hj
          · rw [hj, C.first dev] at hbit
            cases hbit
          · exact hj
        · rintro i hi ⟨hd, hn⟩
          have halloc := (C.alloc i hi (by rw [hd]; exact h0)).2
          rw [hd, hn] at halloc
          exact Bool.false_ne_true (hbit.symm.trans halloc)
        · show Function.update s.bit dev (Function.update (s.bit dev) j true) dev j = true
          rw [Function.update_self, Function.update_self]
        · intro d m hm
          by_cases hd : d = dev
          · subst hd
            rw [Function.update_self]
            by_cases hmj : m = j
            · rw [hmj, Function.update_self]
            · rw [Function.update_of_ne hmj]
              exact hm
          · rw [Function.update_of_ne hd]
            exact hm
      · show (Function.update s.inode e _ e).d.nlinks = 1
        rw [Function.update_self]

/-- The rest, where an inode was found. -/
theorem holds_some {α : Type} {x : M α} {R : Nat → Option Hand → State → Prop} {Q : α → Option Hand → State → Prop}
    (hx : i < nrInode → Holds contract n x (R i) Q) :
    Holds contract n x (fun g s => ∃ j, some i = some j ∧ j < nrInode ∧ R j g s) Q := by
  refine holds_fact (p := i < nrInode) (fun hi => (hx hi).pre ?_) ?_
  · rintro g s ⟨j, hj, -, h⟩
    cases hj
    exact h
  · rintro g s ⟨j, hj, hlt, -⟩
    cases hj
    exact hlt

theorem holds_found {α : Type} {x : M α} {P : Option Hand → State → Prop} {R : Nat → Option Hand → State → Prop}
    {Q : α → Option Hand → State → Prop} (hx : i < nrInode → Holds contract n x (R i) Q) :
    Holds contract n x
      (fun g s => some i = none ∧ P g s ∨ ∃ j, some i = some j ∧ j < nrInode ∧ R j g s) Q :=
  (holds_some hx).pre fun _ _ h => h.resolve_left fun hn => nomatch hn.1

theorem holds_missing {α : Type} {x : M α} {P : Option Hand → State → Prop} {R : Nat → Option Hand → State → Prop}
    {Q : α → Option Hand → State → Prop} (hx : Holds contract n x P Q) :
    Holds contract n x
      (fun g s => (none : Ret) = none ∧ P g s ∨ ∃ j, (none : Ret) = some j ∧ j < nrInode ∧ R j g s) Q := by
  refine hx.pre fun g s h => ?_
  rcases h with ⟨-, h⟩ | ⟨j, hj, -⟩
  · exact h
  · cases hj

/-- `namei` and `dir_namei`. -/
theorem namei_spec : Holds contract n namei (Own none L Nil)
    (fun r g s => r = none ∧ Own none L Nil g s ∨ Taken L r g s) := by
  refine holds_bind (ask_own _) fun i => holds_bind (read_own _ _) fun x => ?_
  refine holds_ite (fun _ => holds_panic) fun hx => ?_
  refine holds_bind ((addCount_spec i ofLinks_nil).pre fun _ _ h => h.1) fun _ => ?_
  refine (call_spec n (.walk i) ⟨none, [], L, Nil⟩).pre fun _ _ h => ⟨h, ?_⟩
  exact Nat.lt_of_not_le fun hle => hx (Or.inr hle)

/-- A call leaves no window. -/
def Closed (g : Option Hand) (_ : State) : Prop := ∃ L, g = some ⟨none, L⟩

theorem Own.closed {g : Option Hand} (h : Own none L K g s) : Closed g s := ⟨L, h.1⟩

theorem iput_closed (hK : OfLinks K) (hL : L.Perm (i :: L')) (hi : i < nrInode) :
    Holds contract n (iput i) (Own none L K) (fun _ => Closed) :=
  (iput_spec hK hL hi).conseq (fun _ _ h => h) fun _ _ _ h => h.closed

theorem withInode_spec {x : Nat → M Unit}
    (hx : ∀ i, i < nrInode → Holds contract n (x i) (Own none (i :: L) Nil) (fun _ => Closed)) :
    Holds contract n (withInode x) (Own none L Nil) (fun _ => Closed) := by
  refine holds_bind namei_spec fun r => ?_
  cases r with
  | none => exact holds_missing (holds_pure fun _ _ _ _ h => h.closed)
  | some i => exact holds_found (hx i)

theorem changed_spec {f : Nat → Nat → Record → Record}
    (hf : ∀ a b d, (f a b d).nlinks = d.nlinks) :
    Holds contract n (changed f) (Own none [] Nil) (fun _ => Closed) := by
  refine withInode_spec fun i hi => holds_bind (ask_own _) fun permission => ?_
  refine holds_ite (fun _ => iput_closed ofLinks_nil (List.Perm.refl _) hi) fun _ => ?_
  refine holds_bind (ask_own _) fun a => holds_bind (ask_own _) fun b => ?_
  refine holds_bind (change_spec i (hf a b) fun _ _ h => h) fun _ => ?_
  exact iput_closed ofLinks_nil (List.Perm.refl _) hi

theorem sysOpen_spec : Holds contract n sysOpen (Own none [] Nil) (fun _ => Closed) := by
  refine withInode_spec fun i hi => holds_bind (ask_own _) fun permission => ?_
  refine holds_ite (fun _ => iput_closed ofLinks_nil (List.Perm.refl _) hi) fun _ => ?_
  refine holds_bind (ask_own _) fun trunc => ?_
  refine holds_when (fun _ => ?_) fun _ _ _ _ h _ => h.closed
  exact (truncate_spec (call_spec n) i).conseq (fun _ _ h => h) fun _ _ _ h => h.closed

/-- Between calls, and where a file is used, the references may be counted anew. -/
theorem Coherent.take (C : Coherent G s) (hrest : ∀ h, G 0 = some h → h.window = none)
    {L : List Nat} (hL : ∀ j, L.count j ≤ (s.inode j).count) :
    Coherent (Function.update G 0 (some ⟨none, L⟩)) s := by
  have hself : Function.update G 0 (some ⟨none, L⟩) 0 = some ⟨none, L⟩ := Function.update_self ..
  refine ⟨?_, C.unique, C.alloc, C.first, ?_, C.linked, ?_, C.kept⟩
  · exact C.live_update
  · intro i hi h0
    exact (C.settled hrest hi h0).imp_right (Or.imp_right Or.inl)
  · intro h i hh
    rw [hself] at hh
    cases hh
    exact hL i

theorem sysRead_spec (i : Nat) :
    Holds contract n (sysRead i) (Own none [] Nil) (fun _ => Closed) := by
  refine holds_bind (read_own _ _) fun x => ?_
  refine holds_when (fun _ => ?_) fun _ _ _ _ h _ => h.1.closed
  exact (perhapsSync_spec (call_spec n)).conseq (fun _ _ h => h.1) fun _ _ _ h => h.closed

theorem sysWrite_spec (i : Nat) :
    Holds contract n (sysWrite i) (Own none [] Nil) (fun _ => Closed) := by
  refine holds_bind (read_own _ _) fun x => ?_
  refine holds_when (fun _ => ?_) fun _ _ _ _ h _ => h.1.closed
  refine holds_bind ((call_spec n (.write i) ⟨none, [], [], Nil⟩).pre fun _ _ h => h.1) fun _ => ?_
  exact holds_pure fun _ _ _ _ h => Own.closed h

/-- The file has a reference to its inode. -/
theorem sysClose_spec (i : Nat) :
    Holds contract n (sysClose i) (Own none [] Nil) (fun _ => Closed) := by
  refine holds_bind (R := fun x => Own none (if x.count = 0 then [] else [i]) Nil)
    (holds_act (stable_any _) ?_) fun x => ?_
  · rintro G t s C - ⟨hg, -⟩ -
    obtain rfl : t = 0 := C.live t _ hg
    refine ⟨trivial, _, C.take ?_ ?_, rfl, trivial⟩
    · intro h hh
      rw [hg] at hh
      cases hh
      rfl
    · intro j
      split
      · exact Nat.zero_le _
      · next hne =>
        by_cases hj : i = j
        · subst hj
          rw [List.count_singleton_self]
          exact Nat.pos_of_ne_zero hne
        · rw [List.count_cons_of_ne hj]
          exact Nat.zero_le _
  · refine holds_when (fun hx => ?_) fun _ _ _ _ h _ => h.closed
    have hx' : x.count ≠ 0 ∧ i < nrInode := by simpa using hx
    rw [if_neg hx'.1]
    exact iput_closed ofLinks_nil (List.Perm.refl _) hx'.2

theorem sysSync_spec : Holds contract n sysSync (Own none [] Nil) (fun _ => Closed) := by
  refine holds_bind (call_spec n (.syncInodes 0) ⟨none, [], [], Nil⟩) fun _ => ?_
  exact holds_pure fun _ _ _ _ h => Own.closed h

theorem withNew_spec {x : Nat → Nat → M Unit}
    (hx : ∀ dir i, dir < nrInode → i < nrInode →
      Holds contract n (x dir i) (Own none [i, dir] (One i)) (fun _ => Closed)) :
    Holds contract n (withNew x) (Own none [] Nil) (fun _ => Closed) := by
  refine withInode_spec fun dir hdir => ?_
  refine holds_bind (bread_spec (call_spec n)) fun permission => ?_
  refine holds_ite (fun _ => iput_closed ofLinks_nil (List.Perm.refl _) hdir) fun _ => ?_
  refine holds_bind (read_own _ _) fun dev => ?_
  refine holds_bind ((newInode_spec dev).pre fun _ _ h => h.1) fun new => ?_
  cases new with
  | none => exact holds_missing (iput_closed (L := [dir]) ofLinks_nil (List.Perm.refl _) hdir)
  | some i => exact holds_found (hx dir i hdir)

/-- `add_entry` where the caller does not mark the directory. -/
theorem add_call (dir : Nat) :
    Holds contract n (Code.call (.add dir false)) (Own none L K) (fun _ => Own none L K) := by
  refine (call_spec n (.add dir false) ⟨none, L, [], K⟩).conseq (fun _ _ h => h) ?_
  intro r g s h
  by_cases hr : r = none
  · exact h.1 hr
  · exact h.2 hr

theorem openCreat_spec : Holds contract n openCreat (Own none [] Nil) (fun _ => Closed) := by
  refine withNew_spec fun dir i hdir hi => holds_bind (ask_own _) fun uid =>
    holds_bind (ask_own _) fun mode => ?_
  refine holds_bind (change_spec i (fun _ => rfl) fun _ _ h => h) fun _ => ?_
  refine holds_bind (add_call dir) fun entry => ?_
  cases entry with
  | none =>
    refine holds_bind (unmake_spec (List.mem_cons_self ..) ?_) fun _ => ?_
    · intro s hone
      exact Nat.sub_eq_zero_of_le (Nat.le_of_eq hone)
    refine holds_bind (iput_spec ofLinks_nil (List.Perm.refl _) hi) fun _ => ?_
    exact iput_closed ofLinks_nil (List.Perm.refl _) hdir
  | some _ => exact iput_closed (ofLinks_one i) (List.Perm.swap ..) hdir

/-- What is left of a new inode that gets no name is freed. -/
theorem undo_spec {dir : Nat} {f : Nat → Nat} (hK : OfLinks K) (hdir : dir < nrInode)
    (hi : i < nrInode) (hf : ∀ s : State, K s.shape → f (s.inode i).d.nlinks = 0) :
    Holds contract n
      (do iput dir
          unmake i f
          iput i) (Own none [i, dir] K) (fun _ => Closed) := by
  refine holds_bind (iput_spec hK (List.Perm.swap ..) hdir) fun _ => ?_
  refine holds_bind (unmake_spec (List.mem_cons_self ..) hf) fun _ => ?_
  exact iput_closed ofLinks_nil (List.Perm.refl _) hi

theorem sysMknod_spec : Holds contract n sysMknod (Own none [] Nil) (fun _ => Closed) := by
  refine withNew_spec fun dir i hdir hi => holds_bind (ask_own _) fun mode =>
    holds_bind (ask_own _) fun dev => holds_bind (ask_own _) fun time => ?_
  refine holds_bind (change_spec i (fun _ => rfl) fun _ _ h => h) fun _ => ?_
  refine holds_bind (add_call dir) fun entry => ?_
  cases entry with
  | none => exact undo_spec (ofLinks_one i) hdir hi fun _ _ => rfl
  | some _ =>
    refine holds_bind (iput_spec (ofLinks_one i) (List.Perm.swap ..) hdir) fun _ => ?_
    exact iput_closed (ofLinks_one i) (List.Perm.refl _) hi

theorem sysMkdir_spec : Holds contract n sysMkdir (Own none [] Nil) (fun _ => Closed) := by
  have hlast : ∀ i (s : State), One i s.shape → (s.inode i).d.nlinks - 1 = 0 :=
    fun _ _ hone => Nat.sub_eq_zero_of_le (Nat.le_of_eq hone)
  refine withNew_spec fun dir i hdir hi => holds_bind (ask_own _) fun time => ?_
  have hmem : i ∈ [i, dir] := List.mem_cons_self ..
  have hmem' : dir ∈ [i, dir] := List.mem_cons_of_mem _ (List.mem_cons_self ..)
  refine holds_bind (change_spec i (fun _ => rfl) fun _ _ h => h) fun _ => ?_
  refine holds_bind (bread_spec (call_spec n)) fun block => holds_ite (fun _ => ?_) fun _ => ?_
  · exact undo_spec (ofLinks_one i) hdir hi (hlast i)
  refine holds_bind (change_spec i (fun _ => rfl) fun _ _ h => h) fun _ => ?_
  refine holds_bind (bread_spec (call_spec n)) fun ok => holds_ite (fun _ => ?_) fun _ => ?_
  · exact undo_spec (ofLinks_one i) hdir hi (hlast i)
  refine holds_bind (ask_own _) fun mode => ?_
  refine holds_bind (change_links i hmem fun _ _ h => h) fun _ => ?_
  refine holds_bind (call_spec n (.add dir true) ⟨none, [i, dir], [], Nil⟩) fun entry => ?_
  cases entry with
  | none => exact (undo_spec ofLinks_nil hdir hi fun _ _ => rfl).pre fun _ _ h => h.1 rfl
  | some _ =>
    -- the directory is marked dirty here: the window of `add_entry` ends
    have hclose : ∀ f, Holds contract n (Code.modify fun s => s.change dir f)
        (Own (some dir) [i, dir] Nil) (fun _ => Own none [i, dir] Nil) := by
      intro f
      refine change_links dir hmem' fun j hj hw => ?_
      cases hw
      exact absurd rfl hj
    refine holds_bind ((hclose _).pre fun _ _ h => h.2 (by simp)) fun _ => ?_
    refine holds_bind (iput_spec ofLinks_nil (List.Perm.swap ..) hdir) fun _ => ?_
    exact iput_closed ofLinks_nil (List.Perm.refl _) hi

theorem withEntry_spec {x : Nat → Nat → M Unit}
    (hx : ∀ dir i, dir < nrInode → i < nrInode →
      Holds contract n (x dir i) (Own none [i, dir] Nil) (fun _ => Closed)) :
    Holds contract n (withEntry x) (Own none [] Nil) (fun _ => Closed) := by
  refine withInode_spec fun dir hdir => ?_
  refine holds_bind (bread_spec (call_spec n)) fun found => ?_
  refine holds_ite (fun _ => iput_closed ofLinks_nil (List.Perm.refl _) hdir) fun _ => ?_
  refine holds_bind (ask_own _) fun dev => holds_bind (ask_own _) fun nr => ?_
  refine holds_bind (iget_call (call_spec n) dev (by omega)) fun inode => ?_
  cases inode with
  | none =>
    refine holds_fact (p := False) (fun h => h.elim) ?_
    rintro g s ⟨j, hj, -⟩
    cases hj
  | some i =>
    refine holds_some fun hi => ?_
    refine holds_bind (bread_spec (call_spec n)) fun permission => ?_
    refine holds_ite (fun _ => ?_) fun _ => hx dir i hdir hi
    refine holds_bind (iput_spec ofLinks_nil (List.Perm.refl _) hi) fun _ => ?_
    exact iput_closed ofLinks_nil (List.Perm.refl _) hdir

theorem sysUnlink_spec : Holds contract n sysUnlink (Own none [] Nil) (fun _ => Closed) := by
  refine withEntry_spec fun dir i hdir hi => ?_
  refine holds_bind (change_links i (List.mem_cons_self ..) fun _ _ h => h) fun _ => ?_
  refine holds_bind (iput_spec ofLinks_nil (List.Perm.refl _) hi) fun _ => ?_
  exact iput_closed ofLinks_nil (List.Perm.refl _) hdir

theorem sysRmdir_spec : Holds contract n sysRmdir (Own none [] Nil) (fun _ => Closed) := by
  refine withEntry_spec fun dir i hdir hi => holds_bind (ask_own _) fun time => ?_
  refine holds_bind (change_links i (List.mem_cons_self ..) fun _ _ h => h) fun _ => ?_
  refine holds_bind (change_links dir (List.mem_cons_of_mem _ (List.mem_cons_self ..))
    fun _ _ h => h) fun _ => ?_
  refine holds_bind (iput_spec ofLinks_nil (List.Perm.swap ..) hdir) fun _ => ?_
  exact iput_closed ofLinks_nil (List.Perm.refl _) hi

theorem sysLink_spec : Holds contract n sysLink (Own none [] Nil) (fun _ => Closed) := by
  refine withInode_spec fun old hold => holds_bind (ask_own _) fun isDir => ?_
  refine holds_ite (fun _ => iput_closed ofLinks_nil (List.Perm.refl _) hold) fun _ => ?_
  have hend : ∀ dir, dir < nrInode → Holds contract n
      (do iput dir
          iput old) (Own none [dir, old] Nil) (fun _ => Closed) := by
    intro dir hdir
    refine holds_bind (iput_spec ofLinks_nil (List.Perm.refl _) hdir) fun _ => ?_
    exact iput_closed ofLinks_nil (List.Perm.refl _) hold
  refine holds_bind namei_spec fun new => ?_
  cases new with
  | none => exact holds_missing (iput_closed (L := [old]) ofLinks_nil (List.Perm.refl _) hold)
  | some dir =>
    refine holds_found fun hdir => ?_
    refine holds_bind (bread_spec (call_spec n)) fun permission => ?_
    refine holds_ite (fun _ => hend dir hdir) fun _ => holds_bind (add_call dir) fun entry => ?_
    cases entry with
    | none => exact hend dir hdir
    | some _ =>
      refine holds_bind (iput_spec ofLinks_nil (List.Perm.refl _) hdir) fun _ => ?_
      refine holds_bind (change_links old (List.mem_cons_self ..) fun _ _ h => h) fun _ => ?_
      exact iput_closed ofLinks_nil (List.Perm.refl _) hold

/-! ## Whole runs -/

theorem starts_calls : Starts contract := by
  rintro t p ⟨rfl, hp⟩ G s hi hrest
  have hstart : ∀ {x : M Unit}, (∀ n, Holds contract n x (Own none [] Nil) (fun _ => Closed)) →
      Begins contract 0 G s x.toProg := by
    intro x hx
    refine Holds.begins hx (hi.take hrest fun _ => Nat.zero_le _) (fun _ => ⟨rfl, trivial⟩) ?_
    rintro _ G t s - ⟨L, hL⟩ h hh
    rw [hL] at hh
    cases hh
    rfl
  cases hp with
  | sysChmod => exact hstart fun n => changed_spec fun _ _ _ => rfl
  | sysChown => exact hstart fun n => changed_spec fun _ _ _ => rfl
  | sysUtime => exact hstart fun n => changed_spec fun _ _ _ => rfl
  | sysOpen => exact hstart fun n => sysOpen_spec
  | sysRead i => exact hstart fun n => sysRead_spec i
  | sysWrite i => exact hstart fun n => sysWrite_spec i
  | sysClose i => exact hstart fun n => sysClose_spec i
  | sysSync => exact hstart fun n => sysSync_spec
  | openCreat => exact hstart fun n => openCreat_spec
  | sysMknod => exact hstart fun n => sysMknod_spec
  | sysMkdir => exact hstart fun n => sysMkdir_spec
  | sysUnlink => exact hstart fun n => sysUnlink_spec
  | sysRmdir => exact hstart fun n => sysRmdir_spec
  | sysLink => exact hstart fun n => sysLink_spec

/-- No call has begun, and what is in core and not dirty is on disk. -/
def Consistent (s : State) : Prop := Coherent (fun _ => none) s

/-- **Nothing is lost with an inode that is dropped**, in a run where `file_write` and
`add_entry` set `i_mtime` of dirty inodes only and `iget` installs no free inode:
`read_inode` reads the record that was dropped, and `write_inode` leaves all other
inodes on disk as they are. -/
theorem inodes_kept (h0 : Consistent s) {c : Config State Tag Proc Ret}
    (h : kernel.Reach allow (Config.idle s) c) :
    (∀ t i d u next, c.running = some t → c.tasks t = .act (some (.load i (some d))) u next →
      ((u c.shared).inode i).d = d) ∧
    (∀ t i u next, c.running = some t → c.tasks t = .act (some (.store i)) u next →
      ∀ dev num, 1 ≤ num → ¬ c.shared.At i dev num →
        (u c.shared).onDisk dev num = c.shared.onDisk dev num) := by
  obtain ⟨G, hG⟩ := reach_idle (G := fun _ => none) (C := contract) starts_calls h0
    (fun _ _ hn => by cases hn) h
  constructor
  · intro t i d u next hr ht
    have hcheck := hG.check hr ht fun x hx => by
      cases hx
      trivial
    exact hcheck d rfl
  · intro t i u next hr ht
    exact hG.check hr ht fun x hx => by
      cases hx
      trivial

/-- A file of one block. -/
def oneBlock : Record := ⟨0, 0, 1024, 0, 0, 1, fun z => if z = 0 then 7 else 0⟩

/-- All slots but one are in use, and all files look the same. The root is in slot 0. -/
def oneFree : State where
  inode i := if i = 1 then Slot.zero else ⟨1, i + 1, 1, false, oneBlock⟩
  last := 0
  bit _ j := j < 50
  ninodes _ := 60
  start _ := 0
  disk _ _ _ := oneBlock
  kept _ _ := none

theorem consistent_oneFree : Consistent oneFree := by
  have hslot : ∀ i, (oneFree.inode i).dev ≠ 0 → oneFree.inode i = ⟨1, i + 1, 1, false, oneBlock⟩ := by
    intro i hne
    by_cases hi : i = 1
    · rw [hi] at hne
      exact absurd rfl hne
    · exact if_neg hi
  refine ⟨fun _ _ h => (by cases h), ?_, ?_, fun _ => rfl, ?_, ?_, fun _ _ h => (by cases h),
    fun _ _ _ h => (by cases h)⟩
  · rintro i j - - hi ⟨hd, hn⟩
    have hj := hslot j (by rw [hd]; exact hi)
    rw [hj, hslot i hi] at hn
    exact (Nat.succ.inj hn).symm
  · intro i hlt hi
    rw [hslot i hi]
    have : i < 32 := hlt
    refine ⟨Nat.succ_le_succ (Nat.zero_le i), ?_⟩
    show decide (i + 1 < 50) = true
    exact decide_eq_true (by omega)
  · intro i _ hi
    rw [hslot i hi]
    exact Or.inr (Or.inl rfl)
  · intro i _ hi hcount
    rw [hslot i hi] at hcount
    cases hcount

/-- A call and the answers to its questions. -/
def calls (p : Prog State Tag Proc Ret) (answers : List Nat) :
    List (Move State Tag Proc Ret Unit) :=
  .start 0 p :: .wake 0 :: .run 100 :: answers.flatMap fun v => [.answer v, .run 100]

/-- `open` of inode `nr` of the root directory, and `close`. -/
def openFile (nr : Nat) : List (Move State Tag Proc Ret Unit) :=
  calls sysOpen.toProg [0, 0, 2, 1, nr - 1, 0, 1, 0, 0, 1, 0] ++ [.rest]

def closeFile : List (Move State Tag Proc Ret Unit) := calls (sysClose 1).toProg [0] ++ [.rest]

/-- Another file takes the slot; then inode 2 is opened again, up to where it is
read. -/
def reopen : List (Move State Tag Proc Ret Unit) :=
  openFile 40 ++ closeFile ++ calls sysOpen.toProg [0, 0, 2, 1, 1, 0] ++ [.answer 1]

/-- `read_inode` is about to read a record that was dropped. -/
def rereads (ok : Record → Record → Bool) (c : Config State Tag Proc Ret) : Bool :=
  match c.running, c.tasks 0 with
  | some 0, .act (some (.load i (some d))) u _ => ok d ((u c.shared).inode i).d
  | _, _ => false

theorem rereads_spec {ok : Record → Record → Bool} {c : Config State Tag Proc Ret}
    (h : rereads ok c = true) : ∃ i d u next, c.running = some 0 ∧
      c.tasks 0 = .act (some (.load i (some d))) u next ∧ ok d ((u c.shared).inode i).d = true := by
  unfold rereads at h
  split at h
  · next i d u next hr ht => exact ⟨i, d, u, next, hr, ht, h⟩
  · cases h

/-- Inode 2 is given mode 5. -/
def changeMode : List (Move State Tag Proc Ret Unit) :=
  calls sysChmod.toProg [0, 0, 2, 1, 1, 0, 1, 0, 0, 1, 5, 0, 0, 1] ++ [.rest]

/-- Inode 2 is opened, ten bytes of its block are written at time 5, and it is
closed. -/
def overwrite : List (Move State Tag Proc Ret Unit) :=
  openFile 2 ++ calls (sysWrite 1).toProg [1, 0, 0, 0, 0, 7, 0, 1, 10, 0, 5] ++ [.rest] ++ closeFile

/-- `allow`, decided. -/
def isAllowed : Tag → State → Bool
  | .touch i time marked, s => marked || (s.inode i).dirt || (s.inode i).d.mtime == time
  | .install dev nr, s => s.bit dev nr
  | .load _ _, _ => true
  | .store _, _ => true

theorem allow_of_isAllowed (x : Tag) (s : State) (h : isAllowed x s = true) : allow x s := by
  cases x with
  | touch i time marked =>
    simp only [isAllowed, Bool.or_eq_true, beq_iff_eq] at h
    exact or_assoc.mp h
  | install dev nr => exact h
  | load i was => trivial
  | store i => trivial

theorem reopen_ops : ∀ q ∈ programs reopen, kernel.ops q.1 q.2 := by
  rintro q (_ | ⟨_, _ | ⟨_, _ | ⟨_, ⟨⟩⟩⟩⟩)
  · exact ⟨rfl, .sysOpen⟩
  · exact ⟨rfl, .sysClose 1⟩
  · exact ⟨rfl, .sysOpen⟩

/-- The new mode is read back. -/
theorem inodes_kept_chmod :
    ∃ c, kernel.Reach allow (Config.idle oneFree) c ∧
      ∃ i d u next, c.running = some 0 ∧ c.tasks 0 = .act (some (.load i (some d))) u next ∧
        d.mode = 5 ∧ ((u c.shared).inode i).d = d := by
  have hplay : ((kernel.play isAllowed (fun (_ : Unit) _ => none) (changeMode ++ reopen)
      (Config.idle oneFree)).map (rereads fun d _ => d.mode == 5)) = some true := by decide +kernel
  have hops : ∀ q ∈ programs (changeMode ++ reopen), kernel.ops q.1 q.2 := by
    rintro q (_ | ⟨_, hq⟩)
    · exact ⟨rfl, .sysChmod⟩
    · exact reopen_ops q hq
  obtain ⟨c, hreach, hread⟩ := exists_reach allow_of_isAllowed (by simp) hops hplay
  obtain ⟨i, d, u, next, hr, ht, hmode⟩ := rereads_spec hread
  exact ⟨c, hreach, i, d, u, next, hr, ht, beq_iff_eq.mp hmode,
    (inodes_kept consistent_oneFree hreach).1 0 i d u next hr ht⟩

/-- `file_write` sets the time of a clean inode and does not mark it: the slot is taken,
and the old time is read back. -/
theorem mtime_lost :
    ¬ ∀ (s : State) (c : Config State Tag Proc Ret), Consistent s →
        kernel.Reach (fun x s => ∀ dev nr, x = .install dev nr → s.bit dev nr = true)
          (Config.idle s) c →
        (∀ t i d u next, c.running = some t → c.tasks t = .act (some (.load i (some d))) u next →
          ((u c.shared).inode i).d = d) ∧
        (∀ t i u next, c.running = some t → c.tasks t = .act (some (.store i)) u next →
          ∀ dev num, 1 ≤ num → ¬ c.shared.At i dev num →
            (u c.shared).onDisk dev num = c.shared.onDisk dev num) := by
  intro hclaim
  have hplay : ((kernel.play (fun | .install dev nr, s => s.bit dev nr | _, _ => true)
      (fun (_ : Unit) _ => none) (overwrite ++ reopen) (Config.idle oneFree)).map
        (rereads fun d x => d.mtime == 5 && x.mtime == 0)) = some true := by decide +kernel
  have hops : ∀ q ∈ programs (overwrite ++ reopen), kernel.ops q.1 q.2 := by
    rintro q (_ | ⟨_, _ | ⟨_, _ | ⟨_, hq⟩⟩⟩)
    · exact ⟨rfl, .sysOpen⟩
    · exact ⟨rfl, .sysWrite 1⟩
    · exact ⟨rfl, .sysClose 1⟩
    · exact reopen_ops q hq
  obtain ⟨c, hreach, hread⟩ : ∃ c, kernel.Reach (fun x s => ∀ dev nr, x = .install dev nr →
      s.bit dev nr = true) (Config.idle oneFree) c ∧
      rereads (fun d x => d.mtime == 5 && x.mtime == 0) c = true := by
    refine exists_reach ?_ (by simp) hops hplay
    rintro x s hx dev nr rfl
    exact hx
  obtain ⟨i, d, u, next, hr, ht, htimes⟩ := rereads_spec hread
  have hsame := (hclaim oneFree c consistent_oneFree hreach).1 0 i d u next hr ht
  rw [hsame, Bool.and_eq_true, beq_iff_eq, beq_iff_eq] at htimes
  omega

end Linux011.Fs.Coherence
