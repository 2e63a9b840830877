import Mathlib.Logic.Function.Basic
import Linux011.Lib.Wp

/-!
# Open files — descriptors, `file_table` and permissions

The layer between the system calls and the data of a file: `permission`,
`open_namei`, `sys_open`, `sys_creat`, `sys_close`, `dupfd`, `sys_fcntl`,
`sys_lseek`, `sys_read`, `sys_write`, the descriptors of `fork` and of
`do_execve`. An inode is one record, whether it is in core or on disk. What
`dir_namei`, `find_entry`, `new_inode` and `add_entry` find is a parameter of
the call (`Lookup`), and so is the number of bytes the devices let through.

* `permission` is asked once, by `open_namei`, for the access mode of the flags;
* `sys_write` looks at `f_mode` for pipes only.

Times, locks and what a pipe or a terminal holds are left out.
-/

namespace Linux011.Fs.OpenFile

open Linux011.Lib

/-! ## Data -/

abbrev Byte := BitVec 8

/-- `struct m_inode`, with the bytes of the file. `zone0` is the device number
of a special file. -/
structure Inode where
  mode   : Nat
  uid    : Nat
  gid    : Nat
  nlinks : Nat
  dev    : Nat
  zone0  : Nat
  count  : Nat
  pipe   : Bool
  size   : Nat
  data   : Nat → Byte

/-- `struct file`. -/
structure File where
  mode  : Nat
  flags : Nat
  count : Nat
  inode : Nat
  pos   : Int

/-- What the calls use of a `task_struct`. -/
structure Task where
  euid        : Nat
  egid        : Nat
  umask       : Nat
  leader      : Bool
  tty         : Option Nat
  filp        : Nat → Option Nat
  closeOnExec : Nat → Bool
  pwd         : Nat
  root        : Nat
  executable  : Option Nat

structure State where
  inodes : Nat → Option Inode
  files  : Nat → File
  tasks  : Nat → Option Task

inductive Panic
  | iputFree
  | closeCount
  deriving DecidableEq, Repr

abbrev FM := EStateM Panic State

def nrOpen : Nat := 20
def nrFile : Nat := 64

def oAccmode : Nat := 0o3
def oWronly : Nat := 0o1
def oCreat : Nat := 0o100
def oExcl : Nat := 0o200
def oTrunc : Nat := 0o1000
def oAppend : Nat := 0o2000
def oNonblock : Nat := 0o4000

def mayWrite : Nat := 2

def eperm : Int := 1
def enoent : Int := 2
def eio : Int := 5
def enoexec : Int := 8
def ebadf : Int := 9
def eacces : Int := 13
def eexist : Int := 17
def eisdir : Int := 21
def einval : Int := 22
def emfile : Int := 24
def enospc : Int := 28
def espipe : Int := 29

def sIfmt : Nat := 0o170000
def isReg (mode : Nat) : Bool := mode &&& sIfmt == 0o100000
def isDir (mode : Nat) : Bool := mode &&& sIfmt == 0o040000
def isChr (mode : Nat) : Bool := mode &&& sIfmt == 0o020000
def isBlk (mode : Nat) : Bool := mode &&& sIfmt == 0o060000

def major (dev : Nat) : Nat := dev >>> 8
def minor (dev : Nat) : Nat := dev &&& 0xff

/-- Masks of the access modes; the last one is the character 0377, which is -1. -/
def accMode (flag : Nat) : Nat :=
  match flag &&& oAccmode with
  | 0 => 4
  | 1 => 2
  | 2 => 6
  | _ => 0xffffffff

/-- `permission`. -/
def permission (current : Task) (inode : Inode) (mask : Nat) : Bool :=
  if inode.dev ≠ 0 ∧ inode.nlinks = 0 then false
  else
    let mode :=
      if current.euid = inode.uid then inode.mode >>> 6
      else if current.egid = inode.gid then inode.mode >>> 3
      else inode.mode
    decide (mode &&& mask &&& 7 = mask) || decide (current.euid = 0)

/-! ## Inodes -/

def setInode (id : Nat) (i : Option Inode) : FM Unit :=
  modify fun s => { s with inodes := Function.update s.inodes id i }

def setFile (f : Nat) (file : File) : FM Unit :=
  modify fun s => { s with files := Function.update s.files f file }

def setTask (nr : Nat) (t : Task) : FM Unit :=
  modify fun s => { s with tasks := Function.update s.tasks nr (some t) }

/-- `iget` of an inode a directory names. -/
def iget (id : Nat) : FM (Option Inode) := do
  match (← get).inodes id with
  | some i =>
    setInode id (some { i with count := i.count + 1 })
    return some { i with count := i.count + 1 }
  | none => return none

/-- `truncate`, on the bytes of the file. -/
def truncate (i : Inode) : Inode :=
  if isReg i.mode || isDir i.mode then { i with size := 0, data := fun _ => 0#8 } else i

/-- `iput`. The last one of an inode without links frees it, with its bytes. -/
def iput (id : Nat) : FM Unit := do
  match (← get).inodes id with
  | none => return ()
  | some i =>
    if i.count = 0 then
      throw .iputFree
    else if i.pipe then
      setInode id (if i.count = 1 then none else some { i with count := i.count - 1 })
    else if i.dev = 0 then
      setInode id (some { i with count := i.count - 1 })
    else if i.count > 1 then
      setInode id (some { i with count := i.count - 1 })
    else if i.nlinks = 0 then
      setInode id none
    else
      setInode id (some { i with count := i.count - 1 })

def iputAll : List Nat → FM Unit
  | [] => return ()
  | id :: ids => do
    iput id
    iputAll ids

/-! ## Opening -/

/-- What the path walk of `open_namei` finds: no directory, a path that ends in
a slash, a name that is not in the directory, with the inode `new_inode` gives
and whether `add_entry` finds room, or an entry with its inode. -/
inductive Lookup
  | noDir
  | dir (dir : Nat)
  | absent (dir : Nat) (new : Option Nat) (added : Bool)
  | entry (dir : Nat) (inr : Nat)

/-- The inode `new_inode` sets up. -/
def newInode (current : Task) (dev : Nat) : Inode where
  mode := 0
  uid := current.euid
  gid := current.egid
  nlinks := 1
  dev := dev
  zone0 := 0
  count := 1
  pipe := false
  size := 0
  data := fun _ => 0#8

/-- `open_namei` where the name is not in the directory. -/
def openAbsent (current : Task) (flag mode dir : Nat) (new : Option Nat) (added : Bool) :
    FM (Except Int Nat) := do
  let some d ← iget dir | return .error (-enoent)
  if flag &&& oCreat = 0 then
    iput dir
    return .error (-enoent)
  else if permission current d mayWrite = false then
    iput dir
    return .error (-eacces)
  else
    match new with
    | none =>
      iput dir
      return .error (-enospc)
    | some id =>
      if ((← get).inodes id).isSome then
        -- not a free inode number
        iput dir
        return .error (-enospc)
      else
        let inode := { newInode current d.dev with uid := current.euid, mode := mode }
        if added then
          setInode id (some inode)
          iput dir
          return .ok id
        else
          setInode id (some { inode with nlinks := 0 })
          iput id
          iput dir
          return .error (-enospc)

/-- `open_namei` where the directory has the name. -/
def openEntry (current : Task) (flag dir inr : Nat) : FM (Except Int Nat) := do
  let some _ ← iget dir | return .error (-enoent)
  iput dir
  if flag &&& oExcl ≠ 0 then
    return .error (-eexist)
  else
    let some inode ← iget inr | return .error (-eacces)
    if (isDir inode.mode ∧ flag &&& oAccmode ≠ 0) ∨
        permission current inode (accMode flag) = false then
      iput inr
      return .error (-eperm)
    else if flag &&& oTrunc ≠ 0 then
      setInode inr (some (truncate inode))
      return .ok inr
    else
      return .ok inr

/-- `open_namei`. -/
def openNamei (current : Task) (flag mode : Nat) (found : Lookup) : FM (Except Int Nat) := do
  let flag := if flag &&& oTrunc ≠ 0 ∧ flag &&& oAccmode = 0 then flag ||| oWronly else flag
  let mode := (mode &&& 0o777 &&& (0o777 ^^^ (current.umask &&& 0o777))) ||| 0o100000
  match found with
  | .noDir => return .error (-enoent)
  | .dir dir =>
    let some _ ← iget dir | return .error (-enoent)
    if flag &&& (oAccmode ||| oCreat ||| oTrunc) = 0 then
      return .ok dir
    else
      iput dir
      return .error (-eisdir)
  | .absent dir new added => openAbsent current flag mode dir new added
  | .entry dir inr => openEntry current flag dir inr

/-- The terminal special cases of `sys_open`: what becomes of the task, or none
where the open is refused. -/
def openTty (current : Task) (inode : Inode) : Option Task :=
  if isChr inode.mode then
    if major inode.zone0 = 4 then
      if current.leader ∧ current.tty = none then
        some { current with tty := some (minor inode.zone0) }
      else some current
    else if major inode.zone0 = 5 ∧ current.tty = none then none
    else some current
  else some current

/-- `sys_open`. -/
def sysOpen (nr : Nat) (current : Task) (flag mode : Nat) (found : Lookup) : FM Int := do
  let mode := mode &&& 0o777 &&& (0o777 ^^^ (current.umask &&& 0o777))
  match (List.range nrOpen).find? fun fd => (current.filp fd).isNone with
  | none => return -einval
  | some fd =>
    let current := { current with closeOnExec := Function.update current.closeOnExec fd false }
    setTask nr current
    let s ← get
    match (List.range nrFile).find? fun f => (s.files f).count = 0 with
    | none => return -einval
    | some f =>
      let opened := { current with filp := Function.update current.filp fd (some f) }
      match ← openNamei current flag mode found with
      | .error e =>
        setFile f { s.files f with count := 0 }
        return e
      | .ok id =>
        match (← get).inodes id with
        | none => return -einval
        | some inode =>
          match openTty opened inode with
          | none =>
            iput id
            setFile f { s.files f with count := 0 }
            return -eperm
          | some task =>
            setFile f ⟨inode.mode, flag, 1, id, 0⟩
            setTask nr task
            return fd

/-- `sys_creat`. -/
def sysCreat (nr : Nat) (current : Task) (mode : Nat) (found : Lookup) : FM Int :=
  sysOpen nr current (oCreat ||| oTrunc) mode found

/-! ## Descriptors -/

/-- `sys_close`. -/
def sysClose (nr : Nat) (current : Task) (fd : Nat) : FM Int := do
  if fd ≥ nrOpen then
    return -einval
  else
    let current := { current with closeOnExec := Function.update current.closeOnExec fd false }
    setTask nr current
    match current.filp fd with
    | none => return -einval
    | some f =>
      setTask nr { current with filp := Function.update current.filp fd none }
      let file := (← get).files f
      if file.count = 0 then
        throw .closeCount
      else
        setFile f { file with count := file.count - 1 }
        if file.count - 1 ≠ 0 then
          return 0
        else
          iput file.inode
          return 0

/-- `dupfd`. -/
def dupfd (nr : Nat) (current : Task) (fd arg : Nat) : FM Int := do
  if fd ≥ nrOpen then
    return -ebadf
  else
    match current.filp fd with
    | none => return -ebadf
    | some f =>
      if arg ≥ nrOpen then
        return -einval
      else
        match (List.range nrOpen).find? fun k => arg ≤ k ∧ (current.filp k).isNone with
        | none => return -emfile
        | some k =>
          setTask nr { current with
            closeOnExec := Function.update current.closeOnExec k false
            filp := Function.update current.filp k (some f) }
          let file := (← get).files f
          setFile f { file with count := file.count + 1 }
          return k

/-- `sys_dup`. -/
def sysDup (nr : Nat) (current : Task) (fildes : Nat) : FM Int := dupfd nr current fildes 0

/-- `sys_dup2`. -/
def sysDup2 (nr : Nat) (current : Task) (oldfd newfd : Nat) : FM Int := do
  let _ ← sysClose nr current newfd
  match (← get).tasks nr with
  | some current => dupfd nr current oldfd newfd
  | none => return -ebadf

/-- `sys_fcntl`. -/
def sysFcntl (nr : Nat) (current : Task) (fd cmd arg : Nat) : FM Int := do
  if fd ≥ nrOpen then
    return -ebadf
  else
    match current.filp fd with
    | none => return -ebadf
    | some f =>
      let file := (← get).files f
      match cmd with
      | 0 => dupfd nr current fd arg
      | 1 => return if current.closeOnExec fd then 1 else 0
      | 2 =>
        setTask nr { current with
          closeOnExec := Function.update current.closeOnExec fd (arg &&& 1 != 0) }
        return 0
      | 3 => return file.flags
      | 4 =>
        let keep := file.flags ^^^ (file.flags &&& (oAppend ||| oNonblock))
        setFile f { file with flags := keep ||| (arg &&& (oAppend ||| oNonblock)) }
        return 0
      | _ => return -1

/-- `sys_lseek`. -/
def sysLseek (current : Task) (fd : Nat) (offset : Int) (origin : Nat) : FM Int := do
  if fd ≥ nrOpen then
    return -ebadf
  else
    match current.filp fd with
    | none => return -ebadf
    | some f =>
      let file := (← get).files f
      match (← get).inodes file.inode with
      | none => return -ebadf
      | some inode =>
        if ¬ (1 ≤ major inode.dev ∧ major inode.dev ≤ 3) then
          return -ebadf
        else if inode.pipe then
          return -espipe
        else
          let pos : Option Int := match origin with
            | 0 => some offset
            | 1 => some (file.pos + offset)
            | 2 => some (inode.size + offset)
            | _ => none
          match pos with
          | none => return -einval
          | some pos =>
            if pos < 0 then
              return -einval
            else
              setFile f { file with pos := pos }
              return pos

/-! ## Reading and writing -/

/-- `sys_read`: of the data only the position is kept, `done` bytes further. -/
def sysRead (current : Task) (fd : Nat) (count : Int) (done : Nat) : FM Int := do
  if fd ≥ nrOpen ∨ count < 0 then
    return -einval
  else
    match current.filp fd with
    | none => return -einval
    | some f =>
      if count = 0 then
        return 0
      else
        let file := (← get).files f
        match (← get).inodes file.inode with
        | none => return -einval
        | some inode =>
          if inode.pipe then
            return if file.mode &&& 1 ≠ 0 then done else -eio
          else if isChr inode.mode || isBlk inode.mode || isDir inode.mode || isReg inode.mode then
            setFile f { file with pos := file.pos + done }
            return done
          else
            return -einval

/-- The bytes of a file after `bytes` were written at `pos`. -/
def overlay (data : Nat → Byte) (pos : Nat) (bytes : List Byte) : Nat → Byte :=
  fun k => if pos ≤ k then bytes.getD (k - pos) (data k) else data k

/-- `file_write`; `bytes` are those that found a block. -/
def fileWrite (f : Nat) (file : File) (id : Nat) (inode : Inode) (bytes : List Byte) : FM Int := do
  let pos := if file.flags &&& oAppend ≠ 0 then inode.size else file.pos.toNat
  setInode id (some { inode with
    data := overlay inode.data pos bytes
    size := if bytes.isEmpty then inode.size else max inode.size (pos + bytes.length) })
  if file.flags &&& oAppend = 0 then
    setFile f { file with pos := (pos + bytes.length : Nat) }
    return if bytes.isEmpty then -1 else bytes.length
  else
    return if bytes.isEmpty then -1 else bytes.length

/-- `block_write`. A device may hold any file, also under another number (`/dev/hd0`
is the whole of the disk, the minors of a floppy share the drive): the inodes are
`after` it. -/
def blockWrite (after : Nat → Option Inode) : FM Unit :=
  modify fun s => { s with inodes := after }

/-- `sys_write`: `done` bytes of `buf` find room. -/
def sysWrite (current : Task) (fd : Nat) (buf : List Byte) (done : Nat)
    (after : Nat → Option Inode) : FM Int := do
  if fd ≥ nrOpen then
    return -einval
  else
    match current.filp fd with
    | none => return -einval
    | some f =>
      if buf.length = 0 then
        return 0
      else
        let file := (← get).files f
        match (← get).inodes file.inode with
        | none => return -einval
        | some inode =>
          if inode.pipe then
            return if file.mode &&& 2 ≠ 0 then done else -eio
          else if isChr inode.mode then
            setFile f { file with pos := file.pos + done }
            return done
          else if isBlk inode.mode then
            blockWrite after
            setFile f { file with pos := file.pos + done }
            return done
          else if isReg inode.mode then
            fileWrite f file file.inode inode (buf.take done)
          else
            return -einval

/-! ## fork and execve -/

def igetAll : List Nat → FM Unit
  | [] => return ()
  | id :: ids => do
    let _ ← iget id
    igetAll ids

/-- The file part of `copy_process`: the child shares every open file, the
directories and the executable. -/
def copyProcess (current : Task) (child : Nat) : FM Unit := do
  let s ← get
  match s.tasks child with
  | some _ => return ()
  | none =>
    let uses f := ((List.range nrOpen).filter fun fd => current.filp fd = some f).length
    set { s with files := fun f => { s.files f with count := (s.files f).count + uses f } }
    igetAll ([current.pwd, current.root] ++ current.executable.toList)
    setTask child current

/-- The closing of descriptors in `do_execve`. -/
def closeMarked (nr : Nat) : List Nat → FM Unit
  | [] => return ()
  | fd :: fds => do
    match (← get).tasks nr with
    | some current =>
      if current.closeOnExec fd then
        let _ ← sysClose nr current fd
        closeMarked nr fds
      else
        closeMarked nr fds
    | none => return ()

/-- `do_execve` of the inode `namei` found, for a script that of its
interpreter. `fails` is the error of a header that cannot be read or is not that
of a program. The descriptors marked are closed and the set-uid bits take
effect. -/
def doExecve (nr : Nat) (current : Task) (id : Nat) (fails : Option Int) : FM Int := do
  let some inode ← iget id | return -enoent
  if isReg inode.mode = false then
    iput id
    return -eacces
  else
    let bits :=
      if current.euid = inode.uid then inode.mode >>> 6
      else if current.egid = inode.gid then inode.mode >>> 3
      else inode.mode
    if bits &&& 1 = 0 ∧ ¬ (inode.mode &&& 0o111 ≠ 0 ∧ current.euid = 0) then
      iput id
      return -enoexec
    else
      match fails with
      | some e =>
        iput id
        return e
      | none =>
        iputAll current.executable.toList
        setTask nr { current with executable := some id }
        closeMarked nr (List.range nrOpen)
        match (← get).tasks nr with
        | some task =>
          setTask nr { task with
            closeOnExec := fun _ => false
            euid := if inode.mode &&& 0o4000 ≠ 0 then inode.uid else current.euid
            egid := if inode.mode &&& 0o2000 ≠ 0 then inode.gid else current.egid }
          return 0
        | none => return 0

/-! ## Runs -/

/-- The calls, with what they find outside this layer. -/
inductive Op
  | open (flag mode : Nat) (found : Lookup)
  | creat (mode : Nat) (found : Lookup)
  | close (fd : Nat)
  | dup (fildes : Nat)
  | dup2 (oldfd newfd : Nat)
  | fcntl (fd cmd arg : Nat)
  | lseek (fd : Nat) (offset : Int) (origin : Nat)
  | read (fd : Nat) (count : Int) (done : Nat)
  | write (fd : Nat) (buf : List Byte) (done : Nat) (after : Nat → Option Inode)
  | fork (child : Nat)
  | execve (id : Nat) (fails : Option Int)

/-- The call of task `nr`. -/
def Op.run (nr : Nat) (current : Task) : Op → FM Int
  | .open flag mode found => sysOpen nr current flag mode found
  | .creat mode found => sysCreat nr current mode found
  | .close fd => sysClose nr current fd
  | .dup fildes => sysDup nr current fildes
  | .dup2 oldfd newfd => sysDup2 nr current oldfd newfd
  | .fcntl fd cmd arg => sysFcntl nr current fd cmd arg
  | .lseek fd offset origin => sysLseek current fd offset origin
  | .read fd count done => sysRead current fd count done
  | .write fd buf done after => sysWrite current fd buf done after
  | .fork child => do copyProcess current child; return child
  | .execve id fails => doExecve nr current id fails

end Linux011.Fs.OpenFile
