import Linux011.Lib.Wp
import Linux011.Fs.OpenFile
import Linux011.Fs.Coherence

/-!
# Pathnames

`get_dir`, `dir_namei` and `namei`, with the `find_entry`, `iget` and `iput` they use:
the inode table, the super blocks, the blocks of directories, and the disk under
them. A pathname is the bytes before its NUL. One task runs; locks and the buffer
cache are left out, a block is readable or not.

`State.resolve` is the fold of single lookups that a path stands for.
-/

namespace Linux011.Fs.Path

open Linux011.Lib
open Linux011.Fs.Coherence (Record Slot rootIno inodesPerBlock lookEmpty lookup)
open Linux011.Fs.OpenFile (isDir isBlk)

/-! ## The state -/

abbrev Byte := BitVec 8
abbrev Name := List Byte

def nameLen : Nat := 14
def nrSuper : Nat := 8
def dirEntriesPerBlock : Nat := 64
def mayExec : Nat := 1

def slash : Byte := 47#8
def dot : Name := [46#8]
def dotdot : Name := [46#8, 46#8]

/-- `struct dir_entry`: the name fills all of its bytes, or ends with a NUL. -/
structure Entry where
  inode : Nat
  name  : Name
  full  : name.length = nameLen

/-- The name as a string. -/
def Entry.text (de : Entry) : Name := de.name.takeWhile (· ≠ 0#8)

/-- `s_dev` and `s_imount`, as a slot of the inode table. -/
structure Super where
  dev    : Nat
  imount : Option Nat

structure State where
  /-- The inode table and the inodes on disk. -/
  core     : Coherence.State
  /-- `i_mount` of each slot. -/
  mount    : Nat → Bool
  super    : Nat → Super
  /-- What the blocks of the devices hold: entries of directories, block numbers. -/
  entry    : Nat → Nat → Nat → Entry
  index    : Nat → Nat → Nat → Nat
  readable : Nat → Nat → Bool
  /-- `current`. -/
  root     : Nat
  pwd      : Nat
  euid     : Nat
  egid     : Nat

inductive Panic
  | noRoot
  | noCwd
  | igetDev
  | noFreeInodes
  | iputFree
  | readNoDevice
  | writeNoDevice
  | inodeBlock
  | bmapBig
  | nullSuper
  /-- The code goes round for ever. -/
  | loops
  deriving DecidableEq, Repr

abbrev PM := EStateM Panic State

def State.slot (s : State) (k : Nat) : Slot := s.core.inode k

def State.setSlot (s : State) (k : Nat) (x : Slot) : State := { s with core := s.core.setInode k x }

/-! ## Inodes -/

/-- `get_super`. -/
def State.getSuper (s : State) (dev : Nat) : Option Nat :=
  if dev = 0 then none
  else (List.range nrSuper).find? fun p => (s.super p).dev == dev

/-- The block of an inode. -/
def State.inodeBlock (s : State) (dev num : Nat) : Nat :=
  s.core.start dev + (num - 1) / inodesPerBlock

/-- `write_inode`. -/
def writeInode (k : Nat) : PM Unit := do
  let s ← get
  let x := s.slot k
  if x.dirt = false ∨ x.dev = 0 then return ()
  else if s.getSuper x.dev = none then throw .writeNoDevice
  else if s.readable x.dev (s.inodeBlock x.dev x.num) = false then throw .inodeBlock
  else set { s with core := s.core.store k }

/-- `read_inode`. -/
def readInode (k : Nat) : PM Unit := do
  let s ← get
  let x := s.slot k
  if s.getSuper x.dev = none then throw .readNoDevice
  else if s.readable x.dev (s.inodeBlock x.dev x.num) = false then throw .inodeBlock
  else set (s.setSlot k { x with d := s.core.onDisk x.dev x.num })

/-- `sync_inodes`. -/
def syncInodes : PM Unit := upTo nrInode writeInode

def addCount (k : Nat) : PM Unit :=
  modify fun s => s.setSlot k { s.slot k with count := (s.slot k).count + 1 }

def dropCount (k : Nat) : PM Unit :=
  modify fun s => s.setSlot k { s.slot k with count := (s.slot k).count - 1 }

/-- `iput` from `repeat` on. After `write_inode` the inode is clean and nobody else has
run. The maps that `truncate` and `free_inode` change are not part of the state. -/
def putBody (k : Nat) : PM Unit := do
  let x := (← get).slot k
  if x.count > 1 then dropCount k
  else if x.d.nlinks = 0 then
    modify fun s => { s.setSlot k Slot.zero with mount := Function.update s.mount k false }
  else do
    writeInode k
    dropCount k

/-- `iput` of an inode that is no pipe. A block device is synced. -/
def iput (k : Nat) : PM Unit := do
  let x := (← get).slot k
  if x.count = 0 then throw .iputFree
  else if x.dev = 0 then dropCount k
  else if isBlk x.d.mode then do
    syncInodes
    putBody k
  else putBody k

/-- `get_empty_inode`. -/
def getEmptyInode : PM Nat := do
  let s ← get
  let r := lookEmpty s.core.inode nrInode s.core.last none
  set { s with core := { s.core with last := r.1 } }
  match r.2 with
  | none => throw .noFreeInodes
  | some e => do
    writeInode e
    if ((← get).slot e).dirt then throw .loops
    else do
      modify fun s =>
        { s.setSlot e { Slot.zero with count := 1 } with mount := Function.update s.mount e false }
      return e

/-- The super block mounted on a slot. -/
def State.superOn (s : State) (k : Nat) : Option Nat :=
  (List.range nrSuper).find? fun p => (s.super p).imount == some k

/-- `iget` with an empty slot; `n` bounds the mounts it goes through. -/
def scan : Nat → Nat → Nat → Nat → PM Nat
  | 0, _, _, _ => throw .loops
  | n + 1, dev, nr, empty => do
    let s ← get
    match lookup s.core.inode dev nr with
    | none => do
      set (s.setSlot empty { s.slot empty with dev := dev, num := nr })
      readInode empty
      return empty
    | some i => do
      addCount i
      if s.mount i then
        match s.superOn i with
        | none => do
          iput empty
          return i
        | some p => do
          iput i
          scan n (s.super p).dev rootIno empty
      else do
        iput empty
        return i

/-- `iget`. -/
def iget (dev nr : Nat) : PM Nat := do
  if dev = 0 then throw .igetDev
  else do
    let empty ← getEmptyInode
    scan (nrSuper + 1) dev nr empty

/-! ## Directories -/

/-- `permission`. -/
def State.permission (s : State) (x : Slot) (mask : Nat) : Bool :=
  if x.dev ≠ 0 ∧ x.d.nlinks = 0 then false
  else
    let mode :=
      if s.euid = x.d.uid then x.d.mode >>> 6
      else if s.egid = x.d.gid then x.d.mode >>> 3
      else x.d.mode
    decide (mode &&& mask &&& 7 = mask) || decide (s.euid = 0)

/-- An entry of an index block, 0 when the block is not there or cannot be read. -/
def State.indexed (s : State) (dev block i : Nat) : Nat :=
  if block = 0 ∨ s.readable dev block = false then 0 else s.index dev block i

/-- `bmap`; none when it panics. -/
def State.bmap (s : State) (dev : Nat) (zone : Nat → Nat) (block : Nat) : Option Nat :=
  if block ≥ 7 + 512 + 512 * 512 then none
  else if block < 7 then some (zone block)
  else if block - 7 < 512 then some (s.indexed dev (zone 7) (block - 7))
  else
    let b := block - 7 - 512
    some (s.indexed dev (s.indexed dev (zone 8) (b / 512)) (b % 512))

/-- `match`. -/
def match_ (name : Name) (de : Entry) : Bool :=
  if de.inode = 0 ∨ name.length > nameLen then false
  else if name.length < nameLen ∧ de.name[name.length]? ≠ some 0#8 then false
  else de.name.take name.length = name

/-- The loop of `find_entry`, from entry `i` on: the block of the entries before is
`block`. A block that is missing or cannot be read is skipped. -/
def State.findLoop (s : State) (dev : Nat) (zone : Nat → Nat) (name : Name) (entries : Nat) :
    Nat → Nat → Nat → PM (Option Nat)
  | 0, _, _ => return none
  | n + 1, i, block =>
    if i ≥ entries then return none
    else if i % dirEntriesPerBlock = 0 ∧ i ≠ 0 then
      match s.bmap dev zone (i / dirEntriesPerBlock) with
      | none => throw .bmapBig
      | some b =>
        if b = 0 ∨ s.readable dev b = false then
          s.findLoop dev zone name entries n (i + dirEntriesPerBlock) block
        else if match_ name (s.entry dev b 0) then return some (s.entry dev b 0).inode
        else s.findLoop dev zone name entries n (i + 1) b
    else if match_ name (s.entry dev block (i % dirEntriesPerBlock)) then
      return some (s.entry dev block (i % dirEntriesPerBlock)).inode
    else s.findLoop dev zone name entries n (i + 1) block

/-- The special cases of `..`: the directory and the name to look for. -/
def swap (k : Nat) (name : Name) : PM (Nat × Name) := do
  let s ← get
  if name ≠ dotdot then return (k, name)
  else if k = s.root then return (k, dot)
  else if (s.slot k).num ≠ rootIno then return (k, name)
  else
    match s.getSuper (s.slot k).dev with
    | none => throw .nullSuper
    | some p =>
      match (s.super p).imount with
      | none => return (k, name)
      | some j => do
        iput k
        addCount j
        return (j, name)

/-- The rest of `find_entry`: the first block, and the loop. -/
def findIn (k : Nat) (name : Name) (entries : Nat) : PM (Nat × Option Nat) := do
  let s ← get
  let x := s.slot k
  if x.d.zone 0 = 0 ∨ s.readable x.dev (x.d.zone 0) = false then return (k, none)
  else do
    let nr ← s.findLoop x.dev x.d.zone name entries (entries + 1) 0 (x.d.zone 0)
    return (k, nr)

/-- `find_entry`: the directory it leaves, and the inode number of the entry. The
number of entries is that of the directory it was given. -/
def findEntry (k : Nat) (name : Name) : PM (Nat × Option Nat) := do
  let name := name.take nameLen
  let entries := ((← get).slot k).d.size / 16
  if name = [] then return (k, none)
  else do
    let r ← swap k name
    findIn r.1 r.2 entries

/-! ## Pathnames -/

/-- The test `get_dir` makes of each directory. -/
def State.searchable (s : State) (x : Slot) : Bool := isDir x.d.mode && s.permission x mayExec

/-- The entry of a name, and its inode: the end of a round of `get_dir`, and of
`namei`. -/
def next (k : Nat) (name : Name) : PM (Option Nat) := do
  let r ← findEntry k name
  match r.2 with
  | none => do
    iput r.1
    return none
  | some inr => do
    let dev := ((← get).slot r.1).dev
    iput r.1
    let i ← iget dev inr
    return some i

/-- The loop of `get_dir`, after its test: the rest of the path, the directory, and
what the inner loop has read of `thisname`. -/
def getDirLoop : Name → Nat → Name → PM (Option Nat)
  | [], k, _ => return some k
  | c :: path, k, thisname =>
    if c = slash then do
      match ← next k thisname with
      | none => return none
      | some k => do
        let s ← get
        if s.searchable (s.slot k) then getDirLoop path k []
        else do
          iput k
          return none
    else getDirLoop path k (thisname ++ [c])

/-- `get_dir`. -/
def getDir (path : Name) : PM (Option Nat) := do
  let s ← get
  if (s.slot s.root).count = 0 then throw .noRoot
  else if (s.slot s.pwd).count = 0 then throw .noCwd
  else
    match path with
    | [] => return none
    | c :: rest => do
      let k := if c = slash then s.root else s.pwd
      addCount k
      let s ← get
      if s.searchable (s.slot k) then getDirLoop (if c = slash then rest else path) k []
      else do
        iput k
        return none

/-- The loop of `dir_namei`. -/
def baseName : Name → Name → Name
  | [], name => name
  | c :: path, name => if c = slash then baseName path path else baseName path name

/-- `dir_namei`: the directory, the length of the last name, and the name. -/
def dirNamei (path : Name) : PM (Option (Nat × Nat × Name)) := do
  match ← getDir path with
  | none => return none
  | some k => return some (k, (baseName path path).length, baseName path path)

/-- `namei`. -/
def namei (path : Name) : PM (Option Nat) := do
  match ← dirNamei path with
  | none => return none
  | some (dir, namelen, name) =>
    if namelen = 0 then return some dir
    else do
      match ← next dir name with
      | none => return none
      | some k => do
        modify fun s => s.setSlot k { s.slot k with dirt := true }
        return some k

/-! ## What a path stands for -/

/-- Device and number. -/
abbrev Key := Nat × Nat

def State.keyOf (s : State) (k : Nat) : Key := ((s.slot k).dev, (s.slot k).num)

/-- An inode, in core or on disk. -/
def State.record (s : State) (key : Key) : Record :=
  match lookup s.core.inode key.1 key.2 with
  | some i => (s.slot i).d
  | none => s.core.onDisk key.1 key.2

def State.entries (s : State) (key : Key) : Nat := (s.record key).size / 16

/-- Entry `i` of a directory. -/
def State.entryAt (s : State) (key : Key) (i : Nat) : Option Entry :=
  (s.bmap key.1 (s.record key).zone (i / dirEntriesPerBlock)).map fun b =>
    s.entry key.1 b (i % dirEntriesPerBlock)

/-- The inode number that entry `i` gives a name. -/
def State.named (s : State) (key : Key) (name : Name) (i : Nat) : Option Nat :=
  (s.entryAt key i).bind fun de => if de.inode ≠ 0 ∧ de.text = name then some de.inode else none

/-- A name in a directory. -/
def State.find (s : State) (key : Key) (name : Name) : Option Nat :=
  (List.range (s.entries key)).findSome? (s.named key name)

/-- The inode that is seen where a path arrives: the root mounted there. -/
def State.through (s : State) (key : Key) : Key :=
  match (List.range nrSuper).find? fun p =>
      (s.super p).imount.any fun j => s.mount j && s.keyOf j == key with
  | some p => ((s.super p).dev, rootIno)
  | none => key

/-- The directory that the root of a device covers. -/
def State.covered (s : State) (dev : Nat) : Option Key :=
  (s.getSuper dev).bind fun p => (s.super p).imount.map s.keyOf

/-- Whether a directory may be searched by the task. -/
def State.canSearch (s : State) (key : Key) : Bool :=
  s.searchable ⟨key.1, key.2, 0, false, s.record key⟩

/-- The entry of a name in a directory, and the inode that is seen there. -/
def State.arrive (s : State) (key : Key) (name : Name) : Option Key :=
  (s.find key name).map fun nr => s.through (key.1, nr)

/-- One lookup. An empty name is in no directory. -/
def State.lookupName (s : State) (key : Key) (name : Name) : Option Key :=
  let name := name.take nameLen
  if name = [] then none
  else if name = dotdot then
    if key = s.keyOf s.root then some key
    else if key.2 = rootIno then s.arrive ((s.covered key.1).getD key) dotdot
    else s.arrive key dotdot
  else s.arrive key name

/-- A lookup in a directory that may be searched. -/
def State.step (s : State) (key : Key) (name : Name) : Option Key :=
  if s.canSearch key then s.lookupName key name else none

/-- The directory that a list of names leads to. -/
def State.resolveDir (s : State) (start : Key) (names : List Name) : Option Key :=
  (names.foldlM s.step start).filter s.canSearch

/-- Where a path starts, and the names between its slashes. -/
def State.start (s : State) (path : Name) : Key :=
  s.keyOf (if path.head? = some slash then s.root else s.pwd)

def components (path : Name) : List Name :=
  (if path.head? = some slash then path.tail else path).splitOn slash

/-- The directory of a path, and its last name. -/
def State.resolveParent (s : State) (path : Name) : Option Key :=
  s.resolveDir (s.start path) (components path).dropLast

def lastName (path : Name) : Name := (components path).getLastD []

/-- What a path stands for: a fold of lookups, and a last one unless the path ends with
a slash. -/
def State.resolve (s : State) (path : Name) : Option Key :=
  (s.resolveParent path).bind fun key =>
    if lastName path = [] then some key else s.lookupName key (lastName path)

/-! ## Trees on several devices -/

/-- The inode table agrees with itself and with the disk. -/
structure Table (s : State) : Prop where
  unique : ∀ i j, i < nrInode → j < nrInode → (s.slot i).dev ≠ 0 → s.keyOf j = s.keyOf i → i = j
  clean  : ∀ i, i < nrInode → (s.slot i).dev ≠ 0 → (s.slot i).dirt = true ∨
    (s.slot i).d = s.core.onDisk (s.slot i).dev (s.slot i).num
  idle   : ∀ i, i < nrInode → (s.slot i).dev = 0 → (s.slot i).dirt = false
  known  : ∀ i, i < nrInode → (s.slot i).dev ≠ 0 →
    s.getSuper (s.slot i).dev ≠ none ∧ 1 ≤ (s.slot i).num
  blocks : ∀ dev num, s.getSuper dev ≠ none → s.readable dev (s.inodeBlock dev num) = true

/-- The inodes `T` are trees on several devices: directories are whole and begin with `.`
and `..`, no root of a device is covered, what is covered and where the task is are in
use (`sys_mount` refuses what is). A directory of the task may be deleted. -/
structure WellFormed (s : State) (T : Key → Prop) : Prop extends Table s where
  root   : s.root < nrInode ∧ (s.slot s.root).count ≠ 0 ∧ (s.slot s.root).dev ≠ 0 ∧
    s.mount s.root = false
  pwd    : s.pwd < nrInode ∧ (s.slot s.pwd).count ≠ 0 ∧ (s.slot s.pwd).dev ≠ 0
  inTree : ∀ k, k = s.root ∨ k = s.pwd → T (s.keyOf k) ∨ (s.slot k).d.nlinks = 0
  mounts : ∀ i, i < nrInode → s.mount i = true → (s.slot i).count ≠ 0 ∧ (s.slot i).dev ≠ 0 ∧
    (s.slot i).num ≠ rootIno ∧ s.superOn i ≠ none
  supers : ∀ p j, p < nrSuper → (s.super p).imount = some j → j < nrInode ∧
    (s.slot j).count ≠ 0 ∧ s.getSuper (s.super p).dev ≠ none ∧ T ((s.super p).dev, rootIno) ∧
    T (s.keyOf j) ∧ isDir (s.record (s.keyOf j)).mode = true
  linked : ∀ key, T key → s.getSuper key.1 ≠ none ∧ 1 ≤ key.2 ∧ (s.record key).nlinks ≠ 0
  whole  : ∀ key, T key → isDir (s.record key).mode = true → 2 ≤ s.entries key ∧
    ∀ i, i < s.entries key → ∃ b, s.bmap key.1 (s.record key).zone (i / dirEntriesPerBlock) = some b ∧
      b ≠ 0 ∧ s.readable key.1 b = true
  self   : ∀ key, T key → isDir (s.record key).mode = true → ∃ de, s.entryAt key 0 = some de ∧
    de.text = dot ∧ de.inode = key.2
  parent : ∀ key, T key → isDir (s.record key).mode = true → ∃ de, s.entryAt key 1 = some de ∧
    de.text = dotdot ∧ de.inode ≠ 0
  closed : ∀ key i de, T key → isDir (s.record key).mode = true → i < s.entries key →
    s.entryAt key i = some de → de.inode ≠ 0 → T (key.1, de.inode)

end Linux011.Fs.Path
