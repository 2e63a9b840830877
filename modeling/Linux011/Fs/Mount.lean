import Linux011.Fs.Path

/-!
# Mounted file systems

`mount_root`, `sys_mount`, `sys_umount`, `read_super` and `put_super`, on the inode table
and the super blocks of `Path`, with the buffers of the bit maps that a super block
holds. They run one at a time and disks are not exchanged.

Any other file-system call is taken apart: it looks up paths, gets, makes, duplicates and
puts inodes, and changes inodes it has, in any order. `refs` are the references that
files, tasks and calls have, for the specification only.
-/

namespace Linux011.Fs.Mount

open Linux011.Lib
open Linux011.Fs.Coherence (Record Slot rootIno)
open Linux011.Fs.OpenFile (isDir isBlk)
open Linux011.Fs.Path (Name PM nrSuper iget iput namei addCount getEmptyInode syncInodes)

/-! ## The state -/

def mapSlots : Nat := 8

/-- `struct d_super_block`, as far as it is read: whether the magic is right, and how
many blocks the maps have. -/
structure DSuper where
  magic      : Bool
  imapBlocks : Nat
  zmapBlocks : Nat

structure State where
  fs      : Path.State
  isup    : Nat → Option Nat
  /-- The blocks in `s_imap` and `s_zmap` of each super block. The arrays follow each
  other: `s_imap[8]` is `s_zmap[0]`. -/
  maps    : Nat → Nat → Option Nat
  /-- `b_count` of the buffers, by device and block. -/
  bcount  : Nat → Nat → Nat
  /-- Block 1 of the devices, and which blocks `read_super` can read. -/
  dsuper  : Nat → DSuper
  reads   : Nat → Nat → Bool
  rootDev : Nat
  refs    : List Nat

/-- Why the machine was stopped; the last two are a store behind `s_zmap`, over the
rest of the super block, and one through a null pointer. -/
inductive Stop
  | fs (e : Path.Panic)
  | freeBuffer
  | noRootSuper
  | outside
  | null
  deriving DecidableEq, Repr

abbrev MM := EStateM Stop State

/-- Code of the inode table. -/
def onFs {α : Type} (x : PM α) : MM α := fun m =>
  match x m.fs with
  | .ok a fs => .ok a { m with fs := fs }
  | .error e fs => .error (.fs e) { m with fs := fs }

def State.setSuper (m : State) (p : Nat) (x : Path.Super) : State :=
  { m with fs := { m.fs with super := Function.update m.fs.super p x } }

def State.count (m : State) (dev block n : Nat) : State :=
  { m with bcount := Function.update m.bcount dev (Function.update (m.bcount dev) block n) }

/-! ## Super blocks -/

/-- `bread` of a block that is kept. -/
def bread (dev block : Nat) : MM Bool := do
  let m ← get
  if m.reads dev block then do
    set (m.count dev block (m.bcount dev block + 1))
    return true
  else return false

def brelse (dev block : Nat) : MM Unit := do
  let m ← get
  if m.bcount dev block = 0 then throw .freeBuffer
  else set (m.count dev block (m.bcount dev block - 1))

def brelseAll (dev : Nat) : List Nat → MM Unit
  | [] => return ()
  | block :: blocks => do
    brelse dev block
    brelseAll dev blocks

/-- The blocks in two arrays. -/
def entries (f : Nat → Option Nat) : List Nat := (List.range (2 * mapSlots)).filterMap f

/-- `s->s_imap[i] = bh`, and `s->s_zmap[i] = bh` for the entry eight further. -/
def storeMap (p i : Nat) (block : Option Nat) : MM Unit := do
  if 2 * mapSlots ≤ i then throw .outside
  else modify fun m =>
    { m with maps := Function.update m.maps p (Function.update (m.maps p) i block) }

/-- The loops of `read_super` over the blocks of a map, from entry `i` on; the block
after the last one read. -/
def readMap (p dev : Nat) : Nat → Nat → Nat → MM Nat
  | 0, _, block => return block
  | rounds + 1, i, block => do
    if ← bread dev block then do
      storeMap p i (some block)
      readMap p dev rounds (i + 1) (block + 1)
    else do
      storeMap p i none
      return block

/-- `read_super`. -/
def readSuper (dev : Nat) : MM (Option Nat) := do
  let m ← get
  if dev = 0 then return none
  else
    match m.fs.getSuper dev with
    | some p => return some p
    | none =>
      match (List.range nrSuper).find? fun p => (m.fs.super p).dev == 0 with
      | none => return none
      | some p => do
        set { m.setSuper p ⟨dev, none⟩ with isup := Function.update m.isup p none }
        if ← bread dev 1 then do
          brelse dev 1
          if (m.dsuper dev).magic then do
            modify fun m => { m with maps := Function.update m.maps p fun _ => none }
            let block ← readMap p dev (m.dsuper dev).imapBlocks 0 2
            let block ← readMap p dev (m.dsuper dev).zmapBlocks mapSlots block
            let maps := (← get).maps p
            if block ≠ 2 + (m.dsuper dev).imapBlocks + (m.dsuper dev).zmapBlocks then do
              brelseAll dev (entries maps)
              modify fun m => m.setSuper p ⟨0, none⟩
              return none
            -- `s->s_imap[0]->b_data[0] |= 1`, and that of `s_zmap[0]`
            else if maps 0 = none ∨ maps mapSlots = none then throw .null
            else return some p
          else do
            modify fun m => m.setSuper p ⟨0, none⟩
            return none
        else do
          modify fun m => m.setSuper p ⟨0, none⟩
          return none

/-- `put_super`. -/
def putSuper (dev : Nat) : MM Unit := do
  let m ← get
  if dev = m.rootDev then return ()
  else
    match m.fs.getSuper dev with
    | none => return ()
    | some p =>
      if (m.fs.super p).imount ≠ none then return ()
      else do
        set (m.setSuper p ⟨0, none⟩)
        brelseAll dev (entries (m.maps p))

def enoent : Int := 2
def eperm : Int := 1
def enotblk : Int := 15
def ebusy : Int := 16

/-- An exit of a call that has an inode. -/
def putAndReturn (k : Nat) (r : Int) : MM Int := do
  onFs (iput k)
  return r

/-- `sys_mount` with the inode of the device put and that of the directory found. -/
def mountOn (dev dir : Nat) : MM Int := do
  let x := (← get).fs.slot dir
  if x.count ≠ 1 ∨ x.num = rootIno then putAndReturn dir (-ebusy)
  else if isDir x.d.mode = false then putAndReturn dir (-eperm)
  else
    match ← readSuper dev with
    | none => putAndReturn dir (-ebusy)
    | some p => do
      let m ← get
      if (m.fs.super p).imount ≠ none then putAndReturn dir (-ebusy)
      else if m.fs.mount dir then putAndReturn dir (-eperm)
      else do
        set { m with fs := { (m.fs.setSlot dir { m.fs.slot dir with dirt := true }) with
          super := Function.update m.fs.super p ⟨(m.fs.super p).dev, some dir⟩
          mount := Function.update m.fs.mount dir true } }
        return 0

/-- `sys_mount`. -/
def sysMount (devName dirName : Name) : MM Int := do
  match ← onFs (namei devName) with
  | none => return -enoent
  | some k => do
    let x := (← get).fs.slot k
    onFs (iput k)
    if isBlk x.d.mode = false then return -eperm
    else
      match ← onFs (namei dirName) with
      | none => return -enoent
      | some dir => mountOn (x.d.zone 0) dir

/-- Whether an inode of the device is in use. -/
def State.busy (m : State) (dev : Nat) : Bool :=
  (List.range nrInode).any fun i => (m.fs.slot i).dev == dev && (m.fs.slot i).count != 0

/-- `sys_umount` with the inode of the device put. -/
def umountDev (dev : Nat) : MM Int := do
  let m ← get
  if dev = m.rootDev then return -ebusy
  else
    match m.fs.getSuper dev with
    | none => return -enoent
    | some p =>
      match (m.fs.super p).imount with
      | none => return -enoent
      | some i =>
        if m.busy dev then return -ebusy
        else do
          set { m with fs := { m.fs with mount := Function.update m.fs.mount i false } }
          onFs (iput i)
          modify fun m => m.setSuper p ⟨(m.fs.super p).dev, none⟩
          match m.isup p with
          | none => pure ()
          | some j => onFs (iput j)
          modify fun m => { m with isup := Function.update m.isup p none }
          putSuper dev
          -- `sync_dev`
          onFs syncInodes
          return 0

/-- `sys_umount`. -/
def sysUmount (devName : Name) : MM Int := do
  match ← onFs (namei devName) with
  | none => return -enoent
  | some k => do
    let x := (← get).fs.slot k
    onFs (iput k)
    if isBlk x.d.mode = false then return -enotblk
    else umountDev (x.d.zone 0)

/-- The root inode is in use, and the task is there. -/
def State.hold (m : State) (p k : Nat) : State :=
  let fs := m.fs.setSlot k { m.fs.slot k with count := (m.fs.slot k).count + 3 }
  { m with
    fs := { fs with
      super := Function.update m.fs.super p ⟨(m.fs.super p).dev, some k⟩
      root := k
      pwd := k }
    isup := Function.update m.isup p (some k)
    refs := [k, k, k] }

/-- `mount_root`. The root inode is used by `s_imount`, `s_isup`, `pwd` and `root`. -/
def mountRoot : MM Unit := do
  modify fun m => { m with fs := { m.fs with super := fun p => { m.fs.super p with dev := 0 } } }
  let dev := (← get).rootDev
  match ← readSuper dev with
  | none => throw .noRootSuper
  | some p => do
    let k ← onFs (iget dev rootIno)
    modify fun m => m.hold p k

/-! ## Runs -/

/-- What the inode table does not say. -/
structure World where
  entry    : Nat → Nat → Nat → Path.Entry
  index    : Nat → Nat → Nat → Nat
  disk     : Nat → Nat → Nat → Record
  readable : Nat → Nat → Bool
  euid     : Nat
  egid     : Nat

def World.install (w : World) (fs : Path.State) : Path.State :=
  { fs with
    core := { fs.core with disk := w.disk }
    entry := w.entry
    index := w.index
    readable := w.readable
    euid := w.euid
    egid := w.egid }

/-- A step of a file-system call on the inode table: the references it takes and the
table after it. -/
inductive Piece (m : State) : List Nat → Path.State → Prop
  /-- `namei`. -/
  | lookup (path : Name) (r : Option Nat) (fs : Path.State) (h : namei path m.fs = .ok r fs) :
      Piece m (r.toList ++ m.refs) fs
  /-- `iget` of an entry of a directory the call has. -/
  | get (dir nr k : Nat) (fs : Path.State) (hdir : dir ∈ m.refs)
      (h : iget (m.fs.slot dir).dev nr m.fs = .ok k fs) : Piece m (k :: m.refs) fs
  /-- `iput`; not of the directories where the task is. -/
  | put (k : Nat) (fs : Path.State) (hk : k ∈ m.refs)
      (hkeep : ∀ j, j = m.fs.root ∨ j = m.fs.pwd → j ∈ m.refs.erase k)
      (h : iput k m.fs = .ok () fs) : Piece m (m.refs.erase k) fs
  /-- `i_count++`. -/
  | dup (k : Nat) (fs : Path.State) (hk : k ∈ m.refs) (h : addCount k m.fs = .ok () fs) :
      Piece m (k :: m.refs) fs
  /-- `new_inode`, on the device of a directory the call has. -/
  | create (dir nr e : Nat) (d : Record) (fs : Path.State) (hdir : dir ∈ m.refs)
      (hdev : (m.fs.slot dir).dev ≠ 0) (h : getEmptyInode m.fs = .ok e fs) :
      Piece m (e :: m.refs) (fs.setSlot e ⟨(m.fs.slot dir).dev, nr, 1, true, d⟩)
  /-- A change of the fields of an inode, which may mark it dirty. -/
  | change (k : Nat) (d : Record) (dirt : Bool) (hk : k ∈ m.refs) (hdev : (m.fs.slot k).dev ≠ 0) :
      Piece m m.refs (m.fs.setSlot k { m.fs.slot k with d := d, dirt := (m.fs.slot k).dirt || dirt })
  /-- `sync_inodes`. -/
  | sync (fs : Path.State) (h : syncInodes m.fs = .ok () fs) : Piece m m.refs fs
  /-- What is on the disks changes, or who runs. -/
  | world (w : World) : Piece m m.refs (w.install m.fs)
  /-- `chdir` and `chroot`, and another task: any two inodes that are referred to. -/
  | move (root pwd : Nat)
      (h : ∀ k, k = root ∨ k = pwd → k ∈ m.refs ∧ (m.fs.slot k).dev ≠ 0) :
      Piece m m.refs { m.fs with root := root, pwd := pwd }

/-- The loops over the maps of a device stay in their arrays, and find a block for
each. -/
def State.Fits (m : State) (dev : Nat) : Prop :=
  m.reads dev 1 = true → (m.dsuper dev).magic = true →
    ((m.dsuper dev).imapBlocks ≤ mapSlots ∨ ∃ j, j < mapSlots ∧ m.reads dev (2 + j) = false) ∧
    ((∀ j, j < (m.dsuper dev).imapBlocks → m.reads dev (2 + j) = true) →
      ((m.dsuper dev).zmapBlocks ≤ mapSlots ∨
        ∃ j, j < mapSlots ∧ m.reads dev (2 + (m.dsuper dev).imapBlocks + j) = false) ∧
      ((∀ j, j < (m.dsuper dev).zmapBlocks →
          m.reads dev (2 + (m.dsuper dev).imapBlocks + j) = true) →
        1 ≤ (m.dsuper dev).imapBlocks ∧ 1 ≤ (m.dsuper dev).zmapBlocks))

/-- The device a name leads to does. -/
def fits (m : State) (devName : Name) : Prop :=
  ∀ k fs, namei devName m.fs = .ok (some k) fs → m.Fits ((fs.slot k).d.zone 0)

/-- One call. `allow` restricts what is mounted. -/
inductive Step (allow : State → Name → Prop) : State → State → Prop
  | mount {m m' : State} (devName dirName : Name) (r : Int) (hallow : allow m devName)
      (h : sysMount devName dirName m = .ok r m') : Step allow m m'
  | umount {m m' : State} (devName : Name) (r : Int) (h : sysUmount devName m = .ok r m') :
      Step allow m m'
  | piece {m : State} {refs : List Nat} {fs : Path.State} (h : Piece m refs fs) :
      Step allow m { m with fs := fs, refs := refs }
  /-- Other super blocks are on the disks, or other blocks can be read. -/
  | disks {m : State} (dsuper : Nat → DSuper) (reads : Nat → Nat → Bool) :
      Step allow m { m with dsuper := dsuper, reads := reads }

/-- Any number of calls. -/
abbrev Reach (allow : State → Name → Prop) : State → State → Prop :=
  Relation.ReflTransGen (Step allow)

/-- The tables before `mount_root`. -/
def Fresh (m : State) : Prop :=
  (∀ i, m.fs.slot i = Slot.zero) ∧ (∀ i, m.fs.mount i = false) ∧
    (∀ p, m.fs.super p = ⟨0, none⟩) ∧ (∀ p, m.isup p = none) ∧ m.rootDev ≠ 0 ∧ m.refs = []

/-- The device is mounted on the inode in the slot. -/
def State.Covers (m : State) (dev i : Nat) : Prop :=
  dev ≠ 0 ∧ ∃ p, p < nrSuper ∧ m.fs.super p = ⟨dev, some i⟩

end Linux011.Fs.Mount
