import Linux011.Fs.ExecHeader
import Linux011.Fs.ExecScript
import Linux011.Fs.ExecStack
import Mathlib.Algebra.Ring.Nat

/-!
# Executing a program — `do_execve`

`do_execve` with its error exits: the file is found and checked, a script hands over
to its interpreter, the strings are copied, and from the point of no return on the
task is changed.  The file system is what `namei` and `bread` find in it.  From
`free_page_tables` on, memory is what the new program reads in its data segment:
`fresh` is what page faults bring in, a page of the area is seen where `put_page`
maps it, and there is always a page table to be had.  What `sys_close` does to a
file is not followed.

* `call_spec` — a call of `copy_strings` among the others, with what is held meanwhile;
* `pass_spec`, `runScript_spec`, `runBinary_direct` — the parts of the routine;
* `prepare_spec` — every exit before the point of no return;
* `doExecve_spec` — the whole call.
-/

namespace Linux011.Fs.Exec

open Linux011.Lib Linux011.Mm
open Linux011.Fs.ArgPages hiding ofMm wp_ofMm pageAt
open Linux011.Fs.ExecHeader (Exec changeLimits dataLimit)
open Linux011.Fs.ExecScript
open Linux011.Fs.ExecStack (User createTables clearBss dataEnd)

abbrev Word := BitVec 32

def enoent : Int := -2
def enoexec : Int := -8
def enomem : Int := -12
def eacces : Int := -13

def sIfmt : Nat := 0o170000
def sIfreg : Nat := 0o100000
def sIsuid : Nat := 0o4000
def sIsgid : Nat := 0o2000

/-- What is read of an inode. -/
structure Inode where
  iMode  : Nat
  iUid   : Nat
  iGid   : Nat
  iDev   : Nat
  iZone0 : Nat
  iSize  : Word

/-- The file system: what a name leads to, the inodes, and the blocks that can be read. -/
structure Disk where
  namei : List Byte → Option Nat
  inode : Nat → Inode
  block : Nat → Nat → Option (Nat → Byte)

/-- What `do_execve` reads and changes of the task. -/
structure Task where
  euid        : Nat
  egid        : Nat
  executable  : Option Nat
  saHandler   : Nat → Word
  filp        : Nat → Option Nat
  closeOnExec : Nat → Bool
  usedMath    : Bool
  ldt         : Kernel.Segment.Ldt
  brk         : Word
  endData     : Word
  endCode     : Word
  startStack  : Word

/-- Why the call does not come back. -/
inductive Halt
  | area (e : Stuck)
  | supervisor
  | freeInode
  | freeBuffer
  | protection
  deriving DecidableEq, Repr

/-- The task, its argument pages and the counts of inodes and buffers. -/
structure Sys extends Area where
  task   : Task
  iCount : Nat → Nat
  bCount : Nat × Nat → Nat

abbrev Ex := EStateM Halt Sys

variable {α : Type}

/-- A routine that works on the area. -/
def onArea (x : Ar α) : Ex α := fun s =>
  match x s.toArea with
  | .ok r a => .ok r { s with toArea := a }
  | .error e a => .error (.area e) { s with toArea := a }

def inc {β : Type} [DecidableEq β] (f : β → Nat) (n : β) : β → Nat := Function.update f n (f n + 1)

/-- `iput`. -/
def iput (n : Nat) : Ex Unit := do
  let s ← get
  if s.iCount n = 0 then throw .freeInode
  else set { s with iCount := Function.update s.iCount n (s.iCount n - 1) }

/-- `namei` of a name in a segment. -/
def namei (d : Disk) (seg : Seg) (name : List Byte) : Ex (Option Nat) := do
  onArea (reads seg)
  match d.namei name with
  | none => return none
  | some n =>
    modify fun s => { s with iCount := inc s.iCount n }
    return some n

/-- `bread`. -/
def bread (d : Disk) (dev block : Nat) : Ex (Option (Nat → Byte)) := do
  match d.block dev block with
  | none => return none
  | some b =>
    modify fun s => { s with bCount := inc s.bCount (dev, block) }
    return some b

/-- `brelse`. -/
def brelse (dev block : Nat) : Ex Unit := do
  let s ← get
  if s.bCount (dev, block) = 0 then throw .freeBuffer
  else set { s with
    bCount := Function.update s.bCount (dev, block) (s.bCount (dev, block) - 1) }

/-! ## Before the point of no return -/

/-- The arguments of the call. -/
structure Args where
  filename : List Byte
  argv     : List (List Byte)
  envp     : List (List Byte)

/-- The variables. -/
structure Vars where
  inode : Nat
  p     : Word
  argc  : Int
  envc  : Int

/-- What is known at the point of no return. -/
structure Ready extends Vars where
  ex   : Exec
  eUid : Nat
  eGid : Nat

/-- `S_ISREG`. -/
def Inode.regular (n : Inode) : Bool := n.iMode &&& sIfmt == sIfreg

/-- The permission check; `suser()` is `euid == 0`. -/
def mayExec (t : Task) (n : Inode) : Bool :=
  let i :=
    if t.euid = n.iUid then n.iMode >>> 6
    else if t.egid = n.iGid then n.iMode >>> 3
    else n.iMode
  !(i &&& 1 == 0 && !(n.iMode &&& 0o111 != 0 && t.euid == 0))

/-- `*((struct exec *) bh->b_data)`. -/
def header (b : Nat → Byte) : Exec :=
  let long (i : Nat) : Word := b (4 * i + 3) ++ b (4 * i + 2) ++ b (4 * i + 1) ++ b (4 * i)
  ⟨long 0, long 1, long 2, long 3, long 4, long 5, long 6, long 7⟩

/-- The block begins with `#!`. -/
def isScript (b : Nat → Byte) : Bool := b 0 == 0x23 && b 1 == 0x21

def userStrings (strs : List (List Byte)) : Strings := ⟨.user, .user, strs⟩

/-- The name of the file, whose pointer is a variable of the kernel. -/
def fileString (name : List Byte) : Strings := ⟨.kernel, .user, [name]⟩

def kernelString (s : List Byte) : Strings := ⟨.kernel, .kernel, [s]⟩

/-- `exec_error1`. -/
def execError1 (retval : Int) : Ex (Except Int Ready) := do
  onArea freePages
  return .error retval

/-- `exec_error2`. -/
def execError2 (inode : Nat) (retval : Int) : Ex (Except Int Ready) := do
  iput inode
  execError1 retval

/-- `restart_interp`, up to the first block. -/
def pass (d : Disk) (v : Vars) (next : (Nat → Byte) → Ex (Except Int Ready)) :
    Ex (Except Int Ready) := do
  let n := d.inode v.inode
  if n.regular = false then execError2 v.inode eacces
  else
    let s ← get
    if mayExec s.task n = false then execError2 v.inode enoexec
    else
      match ← bread d n.iDev n.iZone0 with
      | none => execError2 v.inode eacces
      | some b => next b

/-- What is not a script. -/
def runBinary (d : Disk) (args : Args) (shBang : Bool) (v : Vars) (b : Nat → Byte) :
    Ex (Except Int Ready) := do
  let n := d.inode v.inode
  brelse n.iDev n.iZone0
  let s ← get
  let ex := header b
  let eUid := if n.iMode &&& sIsuid ≠ 0 then n.iUid else s.task.euid
  let eGid := if n.iMode &&& sIsgid ≠ 0 then n.iGid else s.task.egid
  if ex.wellFormed n.iSize = false then execError2 v.inode enoexec
  else if ex.blockAligned = false then execError2 v.inode enoexec
  else if shBang then return .ok ⟨v, ex, eUid, eGid⟩
  else
    let p ← onArea (copyStrings v.envc (userStrings args.envp) v.p 0)
    let p ← onArea (copyStrings v.argc (userStrings args.argv) p 0)
    if p = 0 then execError2 v.inode enomem
    else return .ok ⟨{ v with p := p }, ex, eUid, eGid⟩

/-- `if (i_arg)`: the argument of the interpreter. -/
def copyArg (iArg : Option (List Byte)) (p : Word) (argc : Int) : Ex (Word × Int) := do
  match iArg with
  | none => return (p, argc)
  | some arg =>
    let p ← onArea (copyStrings 1 (kernelString arg) p 2)
    return (p, argc + 1)

/-- The `#!` section; `next` is the way back to `restart_interp`. -/
def runScript (d : Disk) (args : Args) (v : Vars) (b : Nat → Byte)
    (next : Vars → Ex (Except Int Ready)) : Ex (Except Int Ready) := do
  let n := d.inode v.inode
  brelse n.iDev n.iZone0
  iput v.inode
  match parseScript b with
  | none => execError1 enoexec
  | some sc =>
    let p ← onArea (copyStrings v.envc (userStrings args.envp) v.p 0)
    let argc := v.argc - 1
    let p ← onArea (copyStrings argc (userStrings args.argv.tail) p 0)
    let p ← onArea (copyStrings 1 (fileString args.filename) p 1)
    let (p, argc) ← copyArg sc.iArg p (argc + 1)
    let p ← onArea (copyStrings 1 (kernelString sc.iName) p 2)
    let argc := argc + 1
    if p = 0 then execError1 enomem
    else
      let oldFs := (← get).fs
      onArea (setFs .kernel)
      match ← namei d .kernel sc.interp with
      | none =>
        onArea (setFs oldFs)
        execError1 enoent
      | some inode =>
        onArea (setFs oldFs)
        next ⟨inode, p, argc, v.envc⟩

/-- `count`. -/
def count (strs : List (List Byte)) : Ex Int := do
  onArea (reads .user)
  return strs.length

/-- `do_execve` up to the point of no return. A script is interpreted once: after that
`sh_bang` is set. -/
def prepare (d : Disk) (args : Args) : Ex (Except Int Ready) := do
  onArea (modify fun a => { a with page := fun _ => 0 })
  match ← namei d .user args.filename with
  | none => return .error enoent
  | some inode =>
    let argc ← count args.argv
    let envc ← count args.envp
    let v : Vars := ⟨inode, BitVec.ofNat 32 areaTop, argc, envc⟩
    pass d v fun b =>
      if isScript b then runScript d args v b fun v => pass d v (runBinary d args true v)
      else runBinary d args false v b

/-! ## From the point of no return on -/

/-- What the program finds at the beginning, and where. -/
structure Started where
  user : User
  eip  : Word
  esp  : Word

/-- What is read of the data segment once the pages of the area are mapped at its end. -/
def afterPut (a : Area) (fresh : User) : User := fun q =>
  let base := dataEnd - maxArgPages * 4096
  if base ≤ q ∧ q < dataEnd ∧ a.page ((q - base) / 4096) ≠ 0 then a.byteAt (q - base) else fresh q

/-- `p += change_ldt(ex.a_text,page)-MAX_ARG_PAGES*PAGE_SIZE`. -/
def stringsAt (p : Word) : Word := p + dataLimit - BitVec.ofNat 32 (maxArgPages * 4096)

/-- `if (current->executable) iput(current->executable)`. -/
def putOld : Option Nat → Ex Unit
  | none => pure ()
  | some n => iput n

/-- The rest of `do_execve`. -/
def commit (rd : Ready) (fresh : User) : Ex Started := do
  let s ← get
  putOld s.task.executable
  modify fun s => { s with
    fs := .user
    task := { s.task with
      executable := some rd.inode
      saHandler := fun i => if i < 32 then 0 else s.task.saHandler i
      filp := fun i => if s.task.closeOnExec i then none else s.task.filp i
      closeOnExec := fun _ => false
      usedMath := false
      ldt := changeLimits s.task.ldt rd.ex.aText } }
  match createTables (afterPut s.toArea fresh) (stringsAt rd.p) rd.argc rd.envc with
  | none => throw .protection
  | some (user, sp) =>
    modify fun s => { s with
      task := { s.task with
        brk := rd.ex.brk
        endData := rd.ex.endData
        endCode := rd.ex.endCode
        startStack := sp &&& 0xfffff000
        euid := rd.eUid
        egid := rd.eGid } }
    match clearBss 4096 user (rd.ex.aText + rd.ex.aData) with
    | none => throw .protection
    | some user => return ⟨user, rd.ex.aEntry, sp⟩

/-- `do_execve`; `cs` is the code segment of the caller. -/
def doExecve (d : Disk) (cs : Word) (args : Args) (fresh : User) : Ex (Except Int Started) := do
  if 0xffff &&& cs ≠ 0x0f then throw .supervisor
  else
    match ← prepare d args with
    | .error e => return .error e
    | .ok rd =>
      let st ← commit rd fresh
      return .ok st

/-! ## The calculus -/

variable {d : Disk} {args : Args} {s t : Sys} {Q : α → Sys → Prop} {E : Halt → Sys → Prop}

@[simp] theorem wp_onArea (x : Ar α) (Q : α → Sys → Prop) (E : Halt → Sys → Prop) (s : Sys) :
    wp (onArea x) Q E s ↔ wp x (fun r a => Q r { s with toArea := a })
      (fun e a => E (.area e) { s with toArea := a }) s.toArea := by
  unfold wp onArea
  cases x s.toArea <;> exact Iff.rfl

/-- `iput` of what was got since `f` was counted. -/
theorem wp_iput {n : Nat} {f : Nat → Nat} {Q : Unit → Sys → Prop} (h : s.iCount = inc f n) :
    wp (iput n) Q E s ↔ Q () { s with iCount := f } := by
  have hn : s.iCount n = f n + 1 := by
    rw [h]
    exact Function.update_self ..
  have hback : Function.update s.iCount n (s.iCount n - 1) = f := by
    rw [hn, h]
    simp [inc]
  unfold iput
  rw [wp_bind, wp_get, if_neg (by omega), hback, wp_set]

theorem wp_brelse {dev block : Nat} {f : Nat × Nat → Nat} {Q : Unit → Sys → Prop}
    (h : s.bCount = inc f (dev, block)) :
    wp (brelse dev block) Q E s ↔ Q () { s with bCount := f } := by
  have hn : s.bCount (dev, block) = f (dev, block) + 1 := by
    rw [h]
    exact Function.update_self ..
  have hback : Function.update s.bCount (dev, block) (s.bCount (dev, block) - 1) = f := by
    rw [hn, h]
    simp [inc]
  unfold brelse
  rw [wp_bind, wp_get, if_neg (by omega), hback, wp_set]

theorem wp_namei {seg : Seg} {name : List Byte} {Q : Option Nat → Sys → Prop} (h : s.fs = seg) :
    wp (namei d seg name) Q E s ↔ match d.namei name with
      | none => Q none s
      | some n => Q (some n) { s with iCount := inc s.iCount n } := by
  unfold namei
  rw [wp_bind, wp_onArea, wp_reads h]
  cases d.namei name <;> simp

theorem wp_bread {dev block : Nat} {Q : Option (Nat → Byte) → Sys → Prop} :
    wp (bread d dev block) Q E s ↔ match d.block dev block with
      | none => Q none s
      | some b => Q (some b) { s with bCount := inc s.bCount (dev, block) } := by
  unfold bread
  cases d.block dev block <;> simp

theorem wp_count {strs : List (List Byte)} {Q : Int → Sys → Prop} (h : s.fs = .user) :
    wp (count strs) Q E s ↔ Q strs.length s := by
  unfold count
  rw [wp_bind, wp_onArea, wp_reads h]
  exact Iff.rfl

/-! ## What is held -/

/-- The call began in `s`; the counts are `ic` and `bc`, and `bytes` have been copied. -/
structure Mid (s t : Sys) (ic : Nat → Nat) (bc : Nat × Nat → Nat) (p : Word) (left : Option Nat)
    (bytes : List Byte) : Prop where
  task    : t.task = s.task
  inodes  : t.iCount = ic
  buffers : t.bCount = bc
  fs      : t.fs = .user
  status  : Status s.mem t.toArea p left bytes

/-- Nothing has changed but what is in free pages. -/
structure Restored (s t : Sys) : Prop where
  task    : t.task = s.task
  inodes  : t.iCount = s.iCount
  buffers : t.bCount = s.bCount
  fs      : t.fs = s.fs
  mem     : SameUsed s.mem t.mem

variable {ic : Nat → Nat} {bc : Nat × Nat → Nat} {p : Word} {left : Option Nat} {bytes : List Byte}

/-- **A call of `copy_strings`** among the others. -/
theorem copy_spec (h : Mid s t ic bc p left bytes) {v : Strings} {fromKmem : Nat}
    (hv : v.Fits fromKmem .user) (hk : fromKmem ≤ 2) (argc : Int) (hargc : argc.toNat ≤ v.strs.length) :
    wp (onArea (copyStrings argc v p fromKmem)) (fun r t' => (r ≠ 0 → p ≠ 0) ∧
        Mid s t' ic bc r (room left (packed (v.strs.take argc.toNat)).length)
          (packed (v.strs.take argc.toNat) ++ bytes))
      (fun e _ => e = .area (.outOfPage 0xFFFFF) ∧ 32 ≤ freeCount s.mem ∧
        room left (packed (v.strs.take argc.toNat)).length = none) t := by
  have hfits : v.Fits fromKmem t.fs := by
    rw [h.fs]
    exact hv
  rw [wp_onArea]
  refine wp_mono (copyStrings_spec h.status hfits hk hargc) ?_ ?_
  · intro r a ⟨hfs, hp, hstatus⟩
    exact ⟨hp, h.task, h.inodes, h.buffers, hfs.trans h.fs, hstatus⟩
  · intro e a ⟨he, hmany, hnone⟩
    exact ⟨congrArg _ he, hmany, hnone⟩

/-- `exec_error1`, with nothing held but pages. -/
theorem execError1_spec (h : Mid s t s.iCount s.bCount p left bytes) (hfs : s.fs = .user)
    (hbelow : FreeBelow s.mem) (retval : Int) :
    wp (execError1 retval) (fun r t' => r = .error retval ∧ Restored s t') (fun _ _ => False) t := by
  unfold execError1
  rw [wp_bind, wp_onArea]
  refine wp_mono (freePages_spec h.status.pages hbelow) ?_ (fun _ _ h => h)
  intro _ a ⟨hsame, hfs'⟩
  exact ⟨rfl, h.task, h.inodes, h.buffers, (hfs'.trans h.fs).trans hfs.symm, hsame⟩

/-- `exec_error2`, with the inode held too. -/
theorem execError2_spec {n : Nat} (h : Mid s t (inc s.iCount n) s.bCount p left bytes)
    (hfs : s.fs = .user) (hbelow : FreeBelow s.mem) (retval : Int) :
    wp (execError2 n retval) (fun r t' => r = .error retval ∧ Restored s t') (fun _ _ => False) t := by
  unfold execError2
  rw [wp_bind, wp_iput h.inodes]
  have hput : Mid s { t with iCount := s.iCount } s.iCount s.bCount p left bytes :=
    ⟨h.task, rfl, h.buffers, h.fs, h.status⟩
  exact execError1_spec hput hfs hbelow retval

/-! ## What is copied -/

/-- The first block of a file that may be executed. -/
def firstBlock (d : Disk) (t : Task) (n : Nat) : Option (Nat → Byte) :=
  if (d.inode n).regular && mayExec t (d.inode n) then d.block (d.inode n).iDev (d.inode n).iZone0
  else none

/-- The file of the call, and its first block. -/
def opened (d : Disk) (t : Task) (args : Args) : Option (Nat × (Nat → Byte)) :=
  (d.namei args.filename).bind fun n => (firstBlock d t n).map (n, ·)

/-- The strings of each call of `copy_strings`, for a file and its first block. -/
def callsOf (d : Disk) (args : Args) (n : Nat) (b : Nat → Byte) : List (List (List Byte)) :=
  if isScript b then
    match parseScript b with
    | none => []
    | some sc => [args.envp, args.argv.tail, [args.filename]] ++
        sc.iArg.toList.map ([·]) ++ [[sc.iName]]
  else if (header b).accepts (d.inode n).iSize then [args.envp, args.argv]
  else []

/-- The strings of each call, for the file of the call. -/
def calls (d : Disk) (t : Task) (args : Args) : List (List (List Byte)) :=
  match opened d t args with
  | none => []
  | some (n, b) => callsOf d args n b

/-- What is left after more calls. -/
def roomAfter (left : Option Nat) (cs : List (List (List Byte))) : Option Nat :=
  cs.foldl (fun left strs => room left (packed strs).length) left

/-- What is left after calls. -/
def leftOf (cs : List (List (List Byte))) : Option Nat := roomAfter (some areaTop) cs

/-- The bytes of the strings. -/
def size (cs : List (List (List Byte))) : Nat := (cs.map fun strs => (packed strs).length).sum

/-- There are 32 free pages, and a call that begins with something left has more to copy. -/
def Overruns (d : Disk) (args : Args) (s : Sys) : Prop :=
  32 ≤ freeCount s.mem ∧ ∃ before strs after, calls d s.task args = before ++ strs :: after ∧
    size before < areaTop ∧ areaTop < size before + (packed strs).length

theorem roomAfter_append (left : Option Nat) (cs cs' : List (List (List Byte))) :
    roomAfter left (cs ++ cs') = roomAfter (roomAfter left cs) cs' := by
  unfold roomAfter
  rw [List.foldl_append]

theorem roomAfter_none (cs : List (List (List Byte))) : roomAfter none cs = none := by
  induction cs with
  | nil => rfl
  | cons strs cs ih => exact ih

theorem roomAfter_full (cs : List (List (List Byte))) : roomAfter (some 0) cs = some 0 := by
  induction cs with
  | nil => rfl
  | cons strs cs ih => exact ih

theorem size_cons (strs : List (List Byte)) (cs : List (List (List Byte))) :
    size (strs :: cs) = (packed strs).length + size cs := by
  simp [size]

/-- A call goes on in a full area. -/
theorem roomAfter_spec (cs : List (List (List Byte))) {p : Nat} (hp : p ≠ 0) :
    roomAfter (some p) cs = none ↔
      ∃ before strs after, cs = before ++ strs :: after ∧
        size before < p ∧ p < size before + (packed strs).length := by
  induction cs generalizing p with
  | nil => simp [roomAfter]
  | cons strs cs ih =>
    have hsplit : (∃ before strs' after, strs :: cs = before ++ strs' :: after ∧
        size before < p ∧ p < size before + (packed strs').length) ↔
        p < (packed strs).length ∨ ∃ before strs' after, cs = before ++ strs' :: after ∧
          (packed strs).length + size before < p ∧
          p < (packed strs).length + size before + (packed strs').length := by
      constructor
      · intro ⟨before, strs', after, heq, hlt, hgt⟩
        cases before with
        | nil =>
          cases heq
          simp only [size, List.map_nil, List.sum_nil, Nat.zero_add] at hgt
          exact Or.inl hgt
        | cons first before =>
          cases heq
          rw [size_cons] at hlt hgt
          exact Or.inr ⟨before, strs', after, rfl, hlt, hgt⟩
      · rintro (hgt | ⟨before, strs', after, heq, hlt, hgt⟩)
        · exact ⟨[], strs, cs, rfl, Nat.pos_of_ne_zero hp, by simpa [size] using hgt⟩
        · refine ⟨strs :: before, strs', after, by rw [heq]; rfl, ?_, ?_⟩
          · rw [size_cons]
            exact hlt
          · rw [size_cons]
            exact hgt
    have hroom : roomAfter (some p) (strs :: cs) = roomAfter
        (if p < (packed strs).length then none else some (p - (packed strs).length)) cs :=
      congrArg (roomAfter · cs) (if_neg hp)
    rw [hsplit, hroom]
    by_cases hlt : p < (packed strs).length
    · rw [if_pos hlt]
      exact ⟨fun _ => Or.inl hlt, fun _ => roomAfter_none cs⟩
    · rw [if_neg hlt]
      by_cases h0 : p - (packed strs).length = 0
      · rw [h0, roomAfter_full]
        constructor
        · intro h
          cases h
        · rintro (h | ⟨before, strs', after, -, h, -⟩) <;> omega
      · rw [ih h0]
        constructor
        · intro ⟨before, strs', after, heq, h1, h2⟩
          exact Or.inr ⟨before, strs', after, heq, by omega, by omega⟩
        · rintro (h | ⟨before, strs', after, heq, h1, h2⟩)
          · omega
          · exact ⟨before, strs', after, heq, by omega, by omega⟩

theorem overruns_iff : Overruns d args s ↔ 32 ≤ freeCount s.mem ∧ leftOf (calls d s.task args) = none := by
  unfold Overruns leftOf
  rw [roomAfter_spec _ (show areaTop ≠ 0 by decide)]

/-! ## The parts of the routine -/

/-- How it ends after the calls `cs`: with an error of the kind `F`, or ready, as in `R`. -/
structure Ends (s : Sys) (cs : List (List (List Byte))) (F : Int → Prop) (R : Ready → Sys → Prop)
    (r : Except Int Ready) (t : Sys) : Prop where
  left  : 32 ≤ freeCount s.mem → leftOf cs ≠ none
  error : ∀ e, r = .error e → F e ∧ Restored s t
  ready : ∀ rd, r = .ok rd → R rd t

/-- How it stops: the calls `cs` do not see that the area is full. -/
structure RunsOut (s : Sys) (cs : List (List (List Byte))) (e : Halt) (t : Sys) : Prop where
  halt : e = .area (.outOfPage 0xFFFFF)
  many : 32 ≤ freeCount s.mem
  left : leftOf cs = none

/-- The strings are in the area from `rd.p` on, and only the inode is held. -/
structure Prepared (s : Sys) (strs envp : List (List Byte)) (argc : Int) (rd : Ready) (t : Sys) :
    Prop where
  pos     : rd.p ≠ 0
  argc    : rd.argc = argc
  envc    : rd.envc = envp.length
  laid    : Laid s.mem t.toArea rd.p.toNat (packed (strs ++ envp))
  task    : t.task = s.task
  inodes  : t.iCount = inc s.iCount rd.inode
  buffers : t.bCount = s.bCount

variable {cs : List (List (List Byte))} {F : Int → Prop} {R : Ready → Sys → Prop} {v : Vars}
  {b : Nat → Byte}

/-- With nothing to copy there is room. -/
theorem leftOf_nil : leftOf [] ≠ none := by
  intro h
  cases h

/-- An error of `exec_error1`. -/
theorem ends_error1 (h : Mid s t s.iCount s.bCount p left bytes) (hfs : s.fs = .user)
    (hbelow : FreeBelow s.mem) (hleft : 32 ≤ freeCount s.mem → leftOf cs ≠ none) {retval : Int}
    (hF : F retval) : wp (execError1 retval) (Ends s cs F R) (RunsOut s cs) t := by
  refine wp_mono (execError1_spec h hfs hbelow retval) ?_ (fun _ _ h => h.elim)
  rintro r t' ⟨rfl, hsame⟩
  refine ⟨hleft, fun e he => ?_, fun rd hrd => (by cases hrd)⟩
  cases he
  exact ⟨hF, hsame⟩

/-- An error of `exec_error2`. -/
theorem ends_error2 {n : Nat} (h : Mid s t (inc s.iCount n) s.bCount p left bytes)
    (hfs : s.fs = .user) (hbelow : FreeBelow s.mem)
    (hleft : 32 ≤ freeCount s.mem → leftOf cs ≠ none) {retval : Int} (hF : F retval) :
    wp (execError2 n retval) (Ends s cs F R) (RunsOut s cs) t := by
  refine wp_mono (execError2_spec h hfs hbelow retval) ?_ (fun _ _ h => h.elim)
  rintro r t' ⟨rfl, hsame⟩
  refine ⟨hleft, fun e he => ?_, fun rd hrd => (by cases hrd)⟩
  cases he
  exact ⟨hF, hsame⟩

/-- **Up to the first block** of a file that is held. -/
theorem pass_spec (h : Mid s t (inc s.iCount v.inode) s.bCount p left bytes) (hfs : s.fs = .user)
    (hbelow : FreeBelow s.mem) {next : (Nat → Byte) → Ex (Except Int Ready)}
    (hnone : firstBlock d s.task v.inode = none →
      (∀ e, F e) ∧ (32 ≤ freeCount s.mem → leftOf cs ≠ none))
    (hsome : ∀ b t', firstBlock d s.task v.inode = some b →
      Mid s t' (inc s.iCount v.inode)
        (inc s.bCount ((d.inode v.inode).iDev, (d.inode v.inode).iZone0)) p left bytes →
      wp (next b) (Ends s cs F R) (RunsOut s cs) t') :
    wp (pass d v next) (Ends s cs F R) (RunsOut s cs) t := by
  unfold firstBlock at hnone hsome
  unfold pass
  dsimp only
  rw [wp_ite]
  constructor
  · intro hreg
    obtain ⟨hF, hleft⟩ := hnone (by simp [hreg])
    exact ends_error2 h hfs hbelow hleft (hF _)
  · intro hreg
    rw [wp_bind, wp_get, wp_ite, h.task]
    constructor
    · intro hmay
      obtain ⟨hF, hleft⟩ := hnone (by simp [hmay])
      exact ends_error2 h hfs hbelow hleft (hF _)
    · intro hmay
      have hok : ((d.inode v.inode).regular && mayExec s.task (d.inode v.inode)) = true := by
        simpa using And.intro (by simpa using hreg) (by simpa using hmay)
      rw [if_pos hok] at hnone hsome
      rw [wp_bind, wp_bread]
      cases hblock : d.block (d.inode v.inode).iDev (d.inode v.inode).iZone0 with
      | none =>
        obtain ⟨hF, hleft⟩ := hnone hblock
        exact ends_error2 h hfs hbelow hleft (hF _)
      | some b =>
        exact hsome b _ hblock ⟨h.task, h.inodes, congrArg (inc · _) h.buffers, h.fs, h.status⟩

theorem accepts_iff {n : Nat} : (header b).accepts (d.inode n).iSize = true ↔
    (header b).wellFormed (d.inode n).iSize = true ∧ (header b).blockAligned = true := by
  unfold Exec.accepts
  rw [Bool.and_eq_true]

/-- **The next of the calls** `cs`. -/
theorem call_spec (done rest : List (List (List Byte))) (h : Mid s t ic bc p (leftOf done) bytes)
    {v : Strings} {fromKmem : Nat} (hv : v.Fits fromKmem .user) (hk : fromKmem ≤ 2) {argc : Int}
    (hargc : argc.toNat = v.strs.length) (hcs : cs = done ++ v.strs :: rest) :
    wp (onArea (copyStrings argc v p fromKmem)) (fun r t' => (r ≠ 0 → p ≠ 0) ∧
        Mid s t' ic bc r (leftOf (done ++ [v.strs])) (packed v.strs ++ bytes)) (RunsOut s cs) t := by
  have hall : v.strs.take argc.toNat = v.strs := List.take_of_length_le (by omega)
  have hcopy := copy_spec h hv hk argc (by omega)
  rw [hall] at hcopy
  refine wp_mono hcopy ?_ ?_
  · intro r t' ⟨hp, hmid⟩
    unfold leftOf
    rw [roomAfter_append]
    exact ⟨hp, hmid⟩
  · intro e t' ⟨he, hmany, hnone⟩
    refine ⟨he, hmany, ?_⟩
    rw [hcs]
    unfold leftOf
    rw [roomAfter_append]
    show roomAfter (room (leftOf done) _) rest = none
    rw [hnone, roomAfter_none]

/-- With 32 free pages what is left is known. -/
theorem Mid.leftNe (h : Mid s t ic bc p left bytes) (hmany : 32 ≤ freeCount s.mem) : left ≠ none := by
  rw [h.status.many hmany]
  simp

/-- The first block given back. -/
theorem Mid.brelse {n m : Nat} (h : Mid s t ic (inc s.bCount (n, m)) p left bytes) :
    Mid s { t with bCount := s.bCount } ic s.bCount p left bytes :=
  ⟨h.task, h.inodes, rfl, h.fs, h.status⟩

/-- **A binary, its strings copied before**: the interpreter of a script. -/
theorem runBinary_again (h : Mid s t (inc s.iCount v.inode)
      (inc s.bCount ((d.inode v.inode).iDev, (d.inode v.inode).iZone0)) p left bytes)
    (hfs : s.fs = .user) (hbelow : FreeBelow s.mem) (hF : ∀ e, F e)
    (hleft : 32 ≤ freeCount s.mem → leftOf cs ≠ none)
    (hready : ∀ rd t', rd.toVars = v → Mid s t' (inc s.iCount v.inode) s.bCount p left bytes → R rd t') :
    wp (runBinary d args true v b) (Ends s cs F R) (RunsOut s cs) t := by
  have hmid := h.brelse
  unfold runBinary
  dsimp only
  rw [wp_bind, wp_brelse h.buffers, wp_bind, wp_get, wp_ite]
  constructor
  · intro _
    exact ends_error2 hmid hfs hbelow hleft (hF _)
  · intro _
    rw [wp_ite]
    constructor
    · intro _
      exact ends_error2 hmid hfs hbelow hleft (hF _)
    · intro _
      rw [if_pos rfl, wp_pure]
      refine ⟨hleft, fun e he => (by cases he), fun rd hrd => ?_⟩
      cases hrd
      exact hready _ _ rfl hmid

theorem fits_user (strs : List (List Byte)) : (userStrings strs).Fits 0 .user := ⟨rfl, rfl⟩

theorem fits_file (name : List Byte) : (fileString name).Fits 1 .user := ⟨rfl, rfl⟩

theorem fits_kernel (arg : List Byte) : (kernelString arg).Fits 2 .user := ⟨rfl, rfl⟩

/-- The variables before anything was copied. -/
structure Vars.Fresh (v : Vars) (args : Args) : Prop where
  p    : v.p = BitVec.ofNat 32 areaTop
  argc : v.argc = args.argv.length
  envc : v.envc = args.envp.length

/-- **A binary, its strings still to be copied.** -/
theorem runBinary_direct (hv : v.Fresh args) (h : Mid s t (inc s.iCount v.inode)
      (inc s.bCount ((d.inode v.inode).iDev, (d.inode v.inode).iZone0)) v.p (some areaTop) [])
    (hfs : s.fs = .user) (hbelow : FreeBelow s.mem) (hscript : isScript b = false) (hF : ∀ e, F e)
    (hready : ∀ rd t', rd.inode = v.inode → rd.ex = header b →
      (header b).accepts (d.inode v.inode).iSize = true →
      Prepared s args.argv args.envp args.argv.length rd t' → R rd t') :
    wp (runBinary d args false v b) (Ends s (callsOf d args v.inode b) F R)
      (RunsOut s (callsOf d args v.inode b)) t := by
  have hmid := h.brelse
  have hcalls : callsOf d args v.inode b =
      if (header b).accepts (d.inode v.inode).iSize = true then [args.envp, args.argv] else [] := by
    unfold callsOf
    rw [hscript]
    rfl
  rw [hcalls]
  unfold runBinary
  dsimp only
  rw [wp_bind, wp_brelse h.buffers, wp_bind, wp_get, wp_ite]
  constructor
  · intro hbad
    rw [if_neg (by simp [Exec.accepts, hbad])]
    exact ends_error2 hmid hfs hbelow (fun _ => leftOf_nil) (hF _)
  · intro hform
    rw [wp_ite]
    constructor
    · intro hbad
      rw [if_neg (by simp [Exec.accepts, hbad])]
      exact ends_error2 hmid hfs hbelow (fun _ => leftOf_nil) (hF _)
    · intro halign
      have hok : (header b).accepts (d.inode v.inode).iSize = true :=
        accepts_iff.mpr ⟨by simpa using hform, by simpa using halign⟩
      rw [if_pos hok, if_neg (by simp), wp_bind]
      refine wp_mono (call_spec [] [args.argv] hmid (fits_user args.envp) (by omega)
        (by rw [hv.envc]; rfl) rfl) ?_ (fun _ _ h => h)
      rintro p1 t1 ⟨hp1, hmid1⟩
      rw [wp_bind]
      refine wp_mono (call_spec [args.envp] [] hmid1 (fits_user args.argv) (by omega)
        (by rw [hv.argc]; rfl) rfl) ?_ (fun _ _ h => h)
      rintro p2 t2 ⟨hp2, hmid2⟩
      rw [wp_ite]
      constructor
      · intro _
        exact ends_error2 hmid2 hfs hbelow hmid2.leftNe (hF _)
      · intro hp
        rw [wp_pure]
        refine ⟨hmid2.leftNe, fun e he => (by cases he), fun rd hrd => ?_⟩
        cases hrd
        refine hready _ _ rfl rfl hok ⟨hp, hv.argc, hv.envc, ?_, hmid2.task, hmid2.inodes, hmid2.buffers⟩
        have hlaid := (hmid2.status.filled hp).2
        rw [List.append_nil] at hlaid
        rw [ExecStack.packed_append]
        exact hlaid

/-! ## A script -/

/-- The arguments of the interpreter. -/
def spliced (sc : Script) (args : Args) : List (List Byte) :=
  sc.iName :: sc.iArg.toList ++ args.filename :: args.argv.tail

/-- As they are copied. -/
theorem packed_spliced (sc : Script) (args : Args) (envp : List (List Byte)) :
    packed (spliced sc args ++ envp) = packed [sc.iName] ++ (packed sc.iArg.toList ++
      (packed [args.filename] ++ (packed args.argv.tail ++ packed envp))) := by
  have hnil : packed [] = [] := rfl
  unfold spliced
  simp only [ExecStack.packed_append, ExecStack.packed_cons, List.cons_append, List.append_assoc,
    hnil, List.nil_append]

/-- What `argc` comes to for a script: one is taken off for `argv[0]`. -/
def scriptArgc (sc : Script) (args : Args) : Int :=
  (args.argv.length : Int) - 1 + 1 + sc.iArg.toList.length + 1

/-- The argument of the interpreter, where there is one. -/
theorem copyArg_spec (done rest : List (List (List Byte))) (h : Mid s t ic bc p (leftOf done) bytes)
    {iArg : Option (List Byte)} (hcs : cs = done ++ iArg.toList.map ([·]) ++ rest) (argc : Int) :
    wp (copyArg iArg p argc) (fun r t' => (r.1 ≠ 0 → p ≠ 0) ∧ r.2 = argc + iArg.toList.length ∧
        Mid s t' ic bc r.1 (leftOf (done ++ iArg.toList.map ([·]))) (packed iArg.toList ++ bytes))
      (RunsOut s cs) t := by
  unfold copyArg
  cases iArg with
  | none =>
    rw [wp_pure]
    have hsame : done ++ (none : Option (List Byte)).toList.map ([·]) = done := List.append_nil done
    rw [hsame]
    exact ⟨id, (Int.add_zero argc).symm, h⟩
  | some arg =>
    rw [wp_bind]
    refine wp_mono (call_spec done rest h (fits_kernel arg) (by omega) rfl
      (by rw [hcs]; simp [kernelString]))
      ?_ (fun _ _ h => h)
    intro p1 t1 ⟨hp1, hmid1⟩
    exact ⟨hp1, rfl, hmid1⟩

/-- **The `#!` section**, and the interpreter. -/
theorem runScript_spec (hv : v.Fresh args) (h : Mid s t (inc s.iCount v.inode)
      (inc s.bCount ((d.inode v.inode).iDev, (d.inode v.inode).iZone0)) v.p (some areaTop) [])
    (hfs : s.fs = .user) (hbelow : FreeBelow s.mem) (hscript : isScript b = true)
    (hbad : parseScript b = none → F enoexec) (hF : parseScript b ≠ none → ∀ e, F e)
    (hready : ∀ sc rd t', parseScript b = some sc →
      Prepared s (spliced sc args) args.envp (scriptArgc sc args) rd t' → R rd t') :
    wp (runScript d args v b fun v => pass d v (runBinary d args true v))
      (Ends s (callsOf d args v.inode b) F R) (RunsOut s (callsOf d args v.inode b)) t := by
  have hmid : Mid s { t with bCount := s.bCount, iCount := s.iCount } s.iCount s.bCount v.p
      (leftOf []) [] := ⟨h.task, rfl, rfl, h.fs, h.status⟩
  unfold callsOf
  rw [if_pos hscript]
  unfold runScript
  dsimp only
  rw [wp_bind, wp_brelse h.buffers, wp_bind,
    wp_iput (s := { t with bCount := s.bCount }) (f := s.iCount) h.inodes]
  cases hparse : parseScript b with
  | none => exact ends_error1 hmid hfs hbelow (fun _ => leftOf_nil) (hbad hparse)
  | some sc =>
    have hF := hF (by rw [hparse]; simp)
    have hready := hready sc
    dsimp only
    rw [wp_bind]
    -- the strings go onto the area from the last to the first
    refine wp_mono (call_spec [] ([args.argv.tail, [args.filename]] ++ sc.iArg.toList.map ([·]) ++
      [[sc.iName]]) hmid (fits_user args.envp) (by omega) (by rw [hv.envc]; rfl) rfl) ?_ (fun _ _ h => h)
    intro p1 t1 ⟨hp1, hmid1⟩
    rw [wp_bind]
    refine wp_mono (call_spec [args.envp] ([[args.filename]] ++ sc.iArg.toList.map ([·]) ++
      [[sc.iName]]) hmid1 (fits_user args.argv.tail) (by omega) (by rw [hv.argc]; simp [userStrings])
      rfl) ?_ (fun _ _ h => h)
    intro p2 t2 ⟨hp2, hmid2⟩
    rw [wp_bind]
    refine wp_mono (call_spec [args.envp, args.argv.tail] (sc.iArg.toList.map ([·]) ++ [[sc.iName]])
      hmid2 (fits_file args.filename) (by omega) rfl rfl) ?_ (fun _ _ h => h)
    intro p3 t3 ⟨hp3, hmid3⟩
    rw [wp_bind]
    refine wp_mono (copyArg_spec [args.envp, args.argv.tail, [args.filename]] [[sc.iName]] hmid3 rfl
      (v.argc - 1 + 1)) ?_ (fun _ _ h => h)
    intro ⟨p4, argc⟩ t4 ⟨hp4, hargc, hmid4⟩
    dsimp only at hargc hp4 hmid4 ⊢
    rw [wp_bind]
    refine wp_mono (call_spec _ [] hmid4 (fits_kernel sc.iName) (by omega) rfl rfl) ?_
      (fun _ _ h => h)
    intro p5 t5 ⟨hp5, hmid5⟩
    rw [wp_ite]
    constructor
    · intro _
      exact ends_error1 hmid5 hfs hbelow hmid5.leftNe (hF _)
    · intro hp
      have hkernel : ({ t5 with fs := .kernel } : Sys).fs = .kernel := rfl
      rw [wp_bind, wp_get, wp_bind, wp_onArea, wp_setFs, wp_bind, wp_namei hkernel]
      cases hname : d.namei sc.interp with
      | none =>
        dsimp only
        rw [wp_bind, wp_onArea, wp_setFs]
        exact ends_error1 (t := t5) hmid5 hfs hbelow hmid5.leftNe (hF _)
      | some n =>
        dsimp only
        rw [wp_bind, wp_onArea, wp_setFs]
        have hheld : Mid s { t5 with iCount := inc s.iCount n } (inc s.iCount n) s.bCount p5 _ _ :=
          ⟨hmid5.task, rfl, hmid5.buffers, hmid5.fs, hmid5.status⟩
        have hsame : inc t5.iCount n = inc s.iCount n := by rw [hmid5.inodes]
        rw [hsame]
        refine pass_spec (v := ⟨n, p5, argc + 1, v.envc⟩) hheld hfs hbelow
          (fun _ => ⟨hF, hmid5.leftNe⟩) ?_
        intro b' t' _ hmid'
        refine runBinary_again hmid' hfs hbelow hF hmid5.leftNe ?_
        intro rd t'' hrd hend
        have hlaid := (hend.status.filled hp).2
        rw [List.append_nil] at hlaid
        refine hready rd t'' hparse ⟨by rw [hrd]; exact hp, ?_, by rw [hrd]; exact hv.envc, ?_,
          hend.task, by rw [hrd]; exact hend.inodes, hend.buffers⟩
        · rw [hrd]
          show argc + 1 = scriptArgc sc args
          rw [hargc, hv.argc]
          rfl
        · rw [hrd]
          rw [packed_spliced]
          exact hlaid

/-! ## All exits before the point of no return -/

/-- What has been found and copied at the point of no return. -/
inductive Got (d : Disk) (args : Args) (s : Sys) (rd : Ready) (t : Sys) : Prop
  | script {n : Nat} {b : Nat → Byte} {sc : Script} (file : opened d s.task args = some (n, b))
      (first : isScript b = true) (line : parseScript b = some sc)
      (prepared : Prepared s (spliced sc args) args.envp (scriptArgc sc args) rd t)
  | binary {n : Nat} {b : Nat → Byte} (file : opened d s.task args = some (n, b))
      (first : isScript b = false) (ok : (header b).accepts (d.inode n).iSize = true)
      (ex : rd.ex = header b)
      (prepared : Prepared s args.argv args.envp args.argv.length rd t)

/-- The error of a script without an interpreter is `ENOEXEC`. -/
def ErrorFor (d : Disk) (args : Args) (t : Task) (e : Int) : Prop :=
  ∀ n b, opened d t args = some (n, b) → isScript b = true → parseScript b = none → e = enoexec

/-- **`do_execve` up to the point of no return.** -/
theorem prepare_spec (d : Disk) (args : Args) (hfs : s.fs = .user) (hbelow : FreeBelow s.mem) :
    wp (prepare d args) (Ends s (calls d s.task args) (ErrorFor d args s.task) (Got d args s))
      (RunsOut s (calls d s.task args)) s := by
  have hstart : Mid s { s with page := fun _ => 0 } s.iCount s.bCount (BitVec.ofNat 32 areaTop)
      (some areaTop) [] :=
    ⟨rfl, rfl, rfl, hfs, (laid_nil s.mem s.fs).toPages, fun _ => rfl, fun _ => ⟨rfl, laid_nil s.mem s.fs⟩⟩
  unfold prepare
  rw [wp_bind, wp_onArea, wp_modify, wp_bind, wp_namei (s := { s with page := fun _ => 0 }) hfs]
  cases hname : d.namei args.filename with
  | none =>
    have hopen : opened d s.task args = none := by
      unfold opened
      rw [hname]
      rfl
    unfold calls
    rw [hopen]
    refine ⟨fun _ => leftOf_nil, fun e he => ?_, fun rd hrd => (by cases hrd)⟩
    cases he
    refine ⟨fun n b h => ?_, rfl, rfl, rfl, rfl, SameUsed.refl _⟩
    rw [hopen] at h
    cases h
  | some n =>
    have hopen : opened d s.task args = (firstBlock d s.task n).map (n, ·) := by
      unfold opened
      rw [hname]
      rfl
    have hheld : Mid s { s with page := fun _ => 0, iCount := inc s.iCount n } (inc s.iCount n)
        s.bCount (BitVec.ofNat 32 areaTop) (some areaTop) [] :=
      ⟨rfl, rfl, rfl, hfs, hstart.status⟩
    dsimp only
    rw [wp_bind, wp_count hheld.fs, wp_bind, wp_count hheld.fs]
    refine pass_spec (v := ⟨n, BitVec.ofNat 32 areaTop, args.argv.length, args.envp.length⟩) hheld
      hfs hbelow ?_ ?_
    · intro hnone
      rw [hnone] at hopen
      unfold calls
      rw [hopen]
      refine ⟨fun e n b h => ?_, fun _ => leftOf_nil⟩
      rw [hopen] at h
      cases h
    · intro b t hblock hmid
      rw [hblock] at hopen
      have hcalls : calls d s.task args = callsOf d args n b := by
        unfold calls
        rw [hopen]
        rfl
      have hfresh : Vars.Fresh ⟨n, BitVec.ofNat 32 areaTop, args.argv.length, args.envp.length⟩ args :=
        ⟨rfl, rfl, rfl⟩
      have hsame : ∀ n' b', opened d s.task args = some (n', b') → b' = b := by
        intro n' b' h
        rw [hopen] at h
        cases h
        rfl
      rw [hcalls]
      by_cases hscript : isScript b = true
      · rw [if_pos hscript]
        refine runScript_spec hfresh hmid hfs hbelow hscript ?_ ?_ ?_
        · intro _ _ _ _ _ _
          rfl
        · intro hline e n' b' h _ hbad
          rw [hsame n' b' h] at hbad
          exact absurd hbad hline
        · intro sc rd t' hparse hprep
          exact .script hopen hscript hparse hprep
      · have hbinary : isScript b = false := by simpa using hscript
        rw [if_neg hscript]
        refine runBinary_direct hfresh hmid hfs hbelow hbinary ?_ ?_
        · intro e n' b' h hscript'
          rw [hsame n' b' h] at hscript'
          exact absurd hscript' hscript
        · intro rd t' _ hex hok hprep
          exact .binary hopen hbinary hok hex hprep

/-- The program begins with tables of what `put_page` has put in place. -/
structure Committed (rd : Ready) (u : Sys) (fresh : User) (st : Started) : Prop where
  tables : ∃ m, createTables (afterPut u.toArea fresh) (stringsAt rd.p) rd.argc rd.envc =
      some (m, st.esp) ∧ clearBss 4096 m (rd.ex.aText + rd.ex.aData) = some st.user

/-- **From the point of no return on.** -/
theorem commit_spec (rd : Ready) (fresh : User) (s : Sys) :
    wp (commit rd fresh) (fun st _ => Committed rd s fresh st)
      (fun e _ => e = .freeInode ∨ e = .protection) s := by
  have hput : wp (putOld s.task.executable) (fun _ _ => True) (fun e _ => e = .freeInode) s := by
    cases s.task.executable with
    | none => trivial
    | some n =>
      unfold putOld iput
      rw [wp_bind, wp_get, wp_ite]
      exact ⟨fun _ => rfl, fun _ => trivial⟩
  unfold commit
  rw [wp_bind, wp_get, wp_bind]
  refine wp_mono hput ?_ (fun _ _ h => Or.inl h)
  intro _ t _
  rw [wp_bind, wp_modify]
  generalize htables : createTables (afterPut s.toArea fresh) (stringsAt rd.p) rd.argc rd.envc =
    tables
  cases tables with
  | none => exact Or.inr rfl
  | some r =>
    obtain ⟨m, sp⟩ := r
    generalize hclear : clearBss 4096 m (rd.ex.aText + rd.ex.aData) = cleared
    rw [wp_bind, wp_modify, hclear]
    cases cleared with
    | none => exact Or.inr rfl
    | some user => exact ⟨m, htables, hclear⟩

/-- **`do_execve`**, called by a program. -/
theorem doExecve_spec (d : Disk) {cs : Word} (args : Args) (fresh : User) (hcs : 0xffff &&& cs = 0x0f)
    (hfs : s.fs = .user) (hbelow : FreeBelow s.mem) :
    wp (doExecve d cs args fresh)
      (fun r t => (32 ≤ freeCount s.mem → leftOf (calls d s.task args) ≠ none) ∧
        (∀ e, r = .error e → ErrorFor d args s.task e ∧ Restored s t) ∧
        ∀ st, r = .ok st → ∃ rd u, Got d args s rd u ∧ Committed rd u fresh st)
      (fun e t => RunsOut s (calls d s.task args) e t ∨
        (32 ≤ freeCount s.mem → leftOf (calls d s.task args) ≠ none) ∧
          (e = .freeInode ∨ e = .protection)) s := by
  unfold doExecve
  rw [if_neg (by simpa using hcs), wp_bind]
  refine wp_mono (prepare_spec d args hfs hbelow) ?_ (fun _ _ h => Or.inl h)
  intro r u hends
  cases r with
  | error e =>
    rw [wp_pure]
    refine ⟨hends.left, fun e' he => ?_, fun st hst => (by cases hst)⟩
    cases he
    exact hends.error e rfl
  | ok rd =>
    dsimp only
    rw [wp_bind]
    refine wp_mono (commit_spec rd fresh u) ?_ (fun _ _ h => Or.inr ⟨hends.left, h⟩)
    intro st t hst
    rw [wp_pure]
    refine ⟨hends.left, fun e he => (by cases he), fun st' hst' => ?_⟩
    cases hst'
    exact ⟨rd, u, hends.ready rd rfl, hst⟩

end Linux011.Fs.Exec
